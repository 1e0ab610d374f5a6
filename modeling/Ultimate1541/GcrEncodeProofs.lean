import Ultimate1541.GcrDecodeProofs
import Ultimate1541.SegmentProofs

/-! # Encoding a GCR track

    `convert_track_bin2gcr` writes a track sector by sector: a sync and the
    header, a gap, a sync and the data, a gap.  What the decoder makes of such a
    track rests on the code: decoding a group gives the four bytes back
    (`conv5_convGroup`), and in an encoded block there are never two bytes that
    could be taken for a sync (`Quiet`). -/

namespace GcrDecode

open GcrImage Segment

/-! ## Groups -/

/-- Nibble `i` of four bytes, the high one first. -/
def nibbleAt (b : Nat → UInt8) (i : Nat) : Nat :=
  if i % 2 = 0 then (b (i / 2)).toNat / 16 else (b (i / 2)).toNat % 16

/-- The 40 bits the encoder makes of four bytes. -/
def encWord (b : Nat → UInt8) : Nat :=
  (((((((gcrTable (nibbleAt b 0) * 32 + gcrTable (nibbleAt b 1)) * 32
    + gcrTable (nibbleAt b 2)) * 32 + gcrTable (nibbleAt b 3)) * 32
    + gcrTable (nibbleAt b 4)) * 32 + gcrTable (nibbleAt b 5)) * 32
    + gcrTable (nibbleAt b 6)) * 32 + gcrTable (nibbleAt b 7))

/-- The byte `GCR_ENCODER_GCR_OUT0` to `GCR_ENCODER_GCR_OUT4`. -/
def convGroup (b : Nat → UInt8) (j : Nat) : UInt8 := UInt8.ofNat (encWord b / 2 ^ (32 - 8 * j))

/-- `convert_block_bin2gcr`. -/
def encodeBlock (bin : List UInt8) : List UInt8 :=
  (List.range (bin.length / 4)).flatMap fun g =>
    (List.range 5).map (convGroup fun i => bin.getD (4 * g + i) 0)

/-! ## Sectors -/

/-- What goes into the sectors of a track: the two bytes of the disk id, the track
    number, the data and the error byte of each sector. -/
structure Content where
  id1 : UInt8
  id2 : UInt8
  track : UInt8
  bin : Nat → UInt8
  errorcode : Nat → UInt8

namespace Content

/-- `header` of sector `s`. -/
def header (c : Content) (s : Nat) : List UInt8 :=
  let n := UInt8.ofNat s
  let chk := n ^^^ c.track ^^^ c.id2 ^^^ c.id1
  [if c.errorcode s = 2 then 0 else 8,
   if c.errorcode s = 9 then ~~~chk else chk,
   n, c.track,
   if c.errorcode s = 11 then c.id2 ^^^ ~~~(n + 0x55) else c.id2,
   if c.errorcode s = 11 then c.id1 ^^^ ~~~(n + 0xAA) else c.id1,
   0x0F, 0x0F]

/-- The 256 bytes of sector `s`. -/
def sector (c : Content) (s : Nat) : List UInt8 := (List.range 256).map fun i => c.bin (256 * s + i)

/-- The checksum of sector `s`. -/
def checksum (c : Content) (s : Nat) : UInt8 := (c.sector s).foldl (fun chk b => chk ^^^ b) 0

/-- `sector_buffer` for sector `s`. -/
def sectorBuffer (c : Content) (s : Nat) : List UInt8 :=
  (if c.errorcode s = 4 then 0 else 7) :: c.sector s ++
    [if c.errorcode s = 5 then ~~~c.checksum s else c.checksum s, 0, 0]

end Content

/-- Five bytes of sync, or five that are none. -/
def syncBytes (errorcode : UInt8) : List UInt8 :=
  List.replicate 5 (if errorcode ≠ 3 then 0xFF else 0x00)

/-- A gap of `n` bytes, with the two bytes of a GEOS gap. -/
def gap (geosgaps : Bool) (n : Nat) : List UInt8 :=
  if geosgaps then ((List.replicate n 0x55).set (n - 1) 0x67).set (n - 4) 0x67
  else List.replicate n 0x55

/-- What is written for sector `s`. -/
def sectorBytes (c : Content) (geosgaps : Bool) (region s : Nat) : List UInt8 :=
  syncBytes (c.errorcode s) ++ (encodeBlock (c.header s) ++ (gap geosgaps 9 ++
    (syncBytes (c.errorcode s) ++ (encodeBlock (c.sectorBuffer s) ++
      gap geosgaps (sectorGapLengths region)))))

/-! ## The track -/

/-- The bytes that fill up a track. -/
def fill (geosgaps : Bool) (n : Nat) : List UInt8 :=
  if geosgaps then (List.replicate n 0x55).set (n - 1) 0x67 else List.replicate n 0x55

/-- `track_buffer`: the sectors and the bytes up to the end. -/
def trackBuffer (c : Content) (geosgaps : Bool) (region : Nat) : List UInt8 :=
  let sectors := (List.range (sectorsPerTrack region)).flatMap (sectorBytes c geosgaps region)
  sectors ++ fill geosgaps (trackLengths region - sectors.length)

/-- `offset`, by which a track is turned. -/
def twistOffset (c : Content) (region twist : Nat) : Nat :=
  c.track.toNat * (twist * (16 - region) / 16) % trackLengths region

/-- `convert_track_bin2gcr`. -/
def convertTrackBin2gcr (c : Content) (region : Nat) (geosgaps : Bool) (twist : Nat) :
    List UInt8 :=
  let len := trackLengths region
  let offset := twistOffset c region twist
  ((trackBuffer c geosgaps region).drop (len - offset)).take offset ++
    (trackBuffer c geosgaps region).take (len - offset)

/-! ## Decoding a group -/

theorem gcrTable_lt (v : Nat) : gcrTable v < 31 := by
  by_cases hv : v < 16
  · have : ∀ v < 16, gcrTable v < 31 := by decide
    exact this v hv
  · rw [gcrTable, List.getD_eq_default _ _ (Nat.le_of_not_lt hv)]
    decide

theorem nibbleAt_lt (b : Nat → UInt8) (i : Nat) : nibbleAt b i < 16 := by
  have := (b (i / 2)).toNat_lt
  rw [nibbleAt]
  split <;> omega

theorem nibbleAt_even (b : Nat → UInt8) (j : Nat) : nibbleAt b (2 * j) = (b j).toNat / 16 := by
  rw [nibbleAt, if_pos (Nat.mul_mod_right 2 j), Nat.mul_div_cancel_left j (by decide)]

theorem nibbleAt_odd (b : Nat → UInt8) (j : Nat) : nibbleAt b (2 * j + 1) = (b j).toNat % 16 := by
  rw [nibbleAt, if_neg (by omega), show (2 * j + 1) / 2 = j by omega]

/-- The bytes of an encoded group by its codes. -/
structure GroupBytes (b : Nat → UInt8) : Prop where
  out0 : (convGroup b 0).toNat = gcrTable (nibbleAt b 0) * 8 + gcrTable (nibbleAt b 1) / 4
  out1 : (convGroup b 1).toNat = gcrTable (nibbleAt b 1) % 4 * 64 + gcrTable (nibbleAt b 2) * 2
    + gcrTable (nibbleAt b 3) / 16
  out2 : (convGroup b 2).toNat = gcrTable (nibbleAt b 3) % 16 * 16 + gcrTable (nibbleAt b 4) / 2
  out3 : (convGroup b 3).toNat = gcrTable (nibbleAt b 4) % 2 * 128 + gcrTable (nibbleAt b 5) * 4
    + gcrTable (nibbleAt b 6) / 8
  out4 : (convGroup b 4).toNat = gcrTable (nibbleAt b 6) % 8 * 32 + gcrTable (nibbleAt b 7)

theorem convGroup_toNat (b : Nat → UInt8) (j : Nat) :
    (convGroup b j).toNat = encWord b / 2 ^ (32 - 8 * j) % 256 := UInt8.toNat_ofNat'

theorem groupBytes (b : Nat → UInt8) : GroupBytes b := by
  have h0 := gcrTable_lt (nibbleAt b 0)
  have h1 := gcrTable_lt (nibbleAt b 1)
  have h2 := gcrTable_lt (nibbleAt b 2)
  have h3 := gcrTable_lt (nibbleAt b 3)
  have h4 := gcrTable_lt (nibbleAt b 4)
  have h5 := gcrTable_lt (nibbleAt b 5)
  have h6 := gcrTable_lt (nibbleAt b 6)
  have h7 := gcrTable_lt (nibbleAt b 7)
  constructor <;> rw [convGroup_toNat, encWord] <;> norm_num <;> omega

/-- The codes of an encoded group. -/
theorem code_word40_convGroup (b : Nat → UInt8) {i : Nat} (hi : i < 8) :
    code (word40 (convGroup b)) i = gcrTable (nibbleAt b i) := by
  have h0 := gcrTable_lt (nibbleAt b 0)
  have h1 := gcrTable_lt (nibbleAt b 1)
  have h2 := gcrTable_lt (nibbleAt b 2)
  have h3 := gcrTable_lt (nibbleAt b 3)
  have h4 := gcrTable_lt (nibbleAt b 4)
  have h5 := gcrTable_lt (nibbleAt b 5)
  have h6 := gcrTable_lt (nibbleAt b 6)
  have h7 := gcrTable_lt (nibbleAt b 7)
  obtain ⟨o0, o1, o2, o3, o4⟩ := groupBytes b
  rw [code, word40, o0, o1, o2, o3, o4]
  interval_cases i <;> norm_num <;> omega

/-- Decoding an encoded group gives its bytes back. -/
theorem conv5_convGroup (d : Decoder) (b : Nat → UInt8) {j : Nat} (hj : j < 4) :
    conv5 d (convGroup b) j = b j := by
  rw [conv5, code_word40_convGroup b (by omega), code_word40_convGroup b (by omega),
    d.nibble_gcrTable _ (nibbleAt_lt b _), d.nibble_gcrTable _ (nibbleAt_lt b _), nibbleAt_even,
    nibbleAt_odd, Nat.div_add_mod, UInt8.ofNat_toNat]

/-- In an encoded group only the third byte can be `FF`, and then the top bit of the
    fourth is clear. -/
theorem convGroup_eq_ff {b : Nat → UInt8} {j : Nat} (hj : j < 5) (h : convGroup b j = 0xFF) :
    j = 2 ∧ (convGroup b 3).toNat < 128 := by
  have h1 := gcrTable_lt (nibbleAt b 1)
  have h0 := gcrTable_lt (nibbleAt b 0)
  have h2 := gcrTable_lt (nibbleAt b 2)
  have h3 := gcrTable_lt (nibbleAt b 3)
  have h4 := gcrTable_lt (nibbleAt b 4)
  have h5 := gcrTable_lt (nibbleAt b 5)
  have h6 := gcrTable_lt (nibbleAt b 6)
  have h7 := gcrTable_lt (nibbleAt b 7)
  obtain ⟨o0, o1, o2, o3, o4⟩ := groupBytes b
  have hff : (convGroup b j).toNat = 255 := congrArg UInt8.toNat h
  interval_cases j <;> omega

/-! ## Blocks -/

theorem length_encodeBlock (bin : List UInt8) :
    (encodeBlock bin).length = 5 * (bin.length / 4) := by
  rw [encodeBlock, length_flatMap_range (k := 5) fun g => by
    rw [List.length_map, List.length_range]]

/-- The bytes of a group of an encoded block. -/
theorem getD_encodeBlock {bin : List UInt8} {g j : Nat} (hg : g < bin.length / 4) (hj : j < 5) :
    (encodeBlock bin).getD (5 * g + j) 0 = convGroup (fun i => bin.getD (4 * g + i) 0) j := by
  have hlen : ∀ g, ((List.range 5).map (convGroup fun i => bin.getD (4 * g + i) 0)).length = 5 :=
    fun g => by rw [List.length_map, List.length_range]
  have hsits := sitsAt_flatMap_const (f := fun g =>
    (List.range 5).map (convGroup fun i => bin.getD (4 * g + i) 0)) hlen hg
  rw [encodeBlock, hsits.getD (by rw [hlen]; exact hj) 0,
    List.getD_eq_getElem _ _ (by rw [hlen]; exact hj), List.getElem_map, List.getElem_range]

/-- Decoding an encoded block gives its bytes back. -/
theorem convBlock_encodeBlock (d : Decoder) {bin : List UInt8} {b : Nat → UInt8} {k : Nat}
    (hk : k < 4 * (bin.length / 4))
    (hb : ∀ i < 5, b (5 * (k / 4) + i) = (encodeBlock bin).getD (5 * (k / 4) + i) 0) :
    convBlock d b k = bin.getD k 0 := by
  have hg : k / 4 < bin.length / 4 := by omega
  rw [convBlock, conv5_congr d (c := convGroup fun i => bin.getD (4 * (k / 4) + i) 0)
    fun i hi => (hb i hi).trans (getD_encodeBlock hg hi)]
  rw [conv5_convGroup d _ (Nat.mod_lt k (by decide)), Nat.div_add_mod]

/-! ## Bytes between the syncs -/

/-- A list of bytes in which nothing could be taken for a sync: a byte `FF` is
    followed by one with the top bit clear. -/
def Quiet (l : List UInt8) : Prop :=
  ∀ i < l.length, l.getD i 0 = 0xFF → i + 1 < l.length ∧ (l.getD (i + 1) 0).toNat < 128

theorem quiet_of_forall_ne {l : List UInt8} (h : ∀ b ∈ l, b ≠ 0xFF) : Quiet l := by
  intro i hi hff
  rw [List.getD_eq_getElem _ _ hi] at hff
  exact absurd hff (h _ (List.getElem_mem hi))

theorem Quiet.append {l r : List UInt8} (hl : Quiet l) (hr : Quiet r) : Quiet (l ++ r) := by
  intro i hi hff
  by_cases h : i < l.length
  · rw [List.getD_append _ _ _ _ h] at hff
    obtain ⟨hlt, hbit⟩ := hl i h hff
    rw [List.getD_append _ _ _ _ hlt]
    exact ⟨by rw [List.length_append]; omega, hbit⟩
  · rw [List.length_append] at hi ⊢
    rw [List.getD_append_right _ _ _ _ (by omega)] at hff ⊢
    obtain ⟨hlt, hbit⟩ := hr (i - l.length) (by omega) hff
    rw [show i + 1 - l.length = i - l.length + 1 by omega]
    exact ⟨by omega, hbit⟩

theorem quiet_encodeBlock (bin : List UInt8) : Quiet (encodeBlock bin) := by
  intro i hi hff
  rw [length_encodeBlock] at hi ⊢
  have hg : i / 5 < bin.length / 4 := by omega
  rw [← Nat.div_add_mod i 5, getD_encodeBlock hg (Nat.mod_lt i (by decide))] at hff
  obtain ⟨hmod, hbit⟩ := convGroup_eq_ff (Nat.mod_lt i (by decide)) hff
  have hnext : i + 1 = 5 * (i / 5) + 3 := by omega
  refine ⟨by omega, ?_⟩
  rw [hnext, getD_encodeBlock hg (by decide)]
  exact hbit

/-- The first byte of an encoded block has its top bit clear, when the first byte of
    the block has a high nibble zero. -/
theorem encodeBlock_first {bin : List UInt8} (hlen : 4 ≤ bin.length)
    (h : (bin.getD 0 0).toNat < 16) : ((encodeBlock bin).getD 0 0).toNat < 128 := by
  have hfirst : (encodeBlock bin).getD 0 0 = convGroup (fun i => bin.getD (4 * 0 + i) 0) 0 :=
    getD_encodeBlock (g := 0) (j := 0) (by omega) (by decide)
  have hn : nibbleAt (fun i => bin.getD (4 * 0 + i) 0) 0 = 0 :=
    (nibbleAt_even _ 0).trans (Nat.div_eq_of_lt h)
  have h1 := gcrTable_lt (nibbleAt (fun i => bin.getD (4 * 0 + i) 0) 1)
  have h0 : gcrTable 0 = 10 := rfl
  rw [hfirst, (groupBytes _).out0, hn, h0]
  omega

theorem forall_gap (geosgaps : Bool) (n : Nat) : ∀ b ∈ gap geosgaps n, b = 0x55 ∨ b = 0x67 := by
  intro b hb
  cases geosgaps with
  | false => exact Or.inl (List.eq_of_mem_replicate hb)
  | true =>
      rcases List.mem_or_eq_of_mem_set hb with hb | rfl
      · rcases List.mem_or_eq_of_mem_set hb with hb | rfl
        · exact Or.inl (List.eq_of_mem_replicate hb)
        · exact Or.inr rfl
      · exact Or.inr rfl

theorem forall_fill (geosgaps : Bool) (n : Nat) : ∀ b ∈ fill geosgaps n, b = 0x55 ∨ b = 0x67 := by
  intro b hb
  cases geosgaps with
  | false => exact Or.inl (List.eq_of_mem_replicate hb)
  | true =>
      rcases List.mem_or_eq_of_mem_set hb with hb | rfl
      · exact Or.inl (List.eq_of_mem_replicate hb)
      · exact Or.inr rfl

theorem quiet_of_gap {l : List UInt8} (h : ∀ b ∈ l, b = 0x55 ∨ b = 0x67) : Quiet l := by
  refine quiet_of_forall_ne fun b hb => ?_
  rcases h b hb with rfl | rfl <;> decide

theorem length_gap (geosgaps : Bool) (n : Nat) : (gap geosgaps n).length = n := by
  cases geosgaps <;> simp [gap]

theorem length_fill (geosgaps : Bool) (n : Nat) : (fill geosgaps n).length = n := by
  cases geosgaps <;> simp [fill]

end GcrDecode
