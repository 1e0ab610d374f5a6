import Ultimate1541.GcrSectorsProofs

/-! # Encoding and decoding a track

    The output of `convert_track_bin2gcr`, turned by any number of bits, is a
    stream of sectors, and `convert_gcr_track_to_bin` gives the sectors back.  It
    does unless the turn is no whole number of bytes and the first five bytes of
    a data block end exactly where the track does: then the rest of the block is
    read from behind the track (`trackRoundTrips_iff`). -/

namespace GcrDecode

open GcrImage Segment Loop

/-! ## What is written for a sector -/

/-- No error byte has a meaning for the encoder. -/
def Content.Clean (c : Content) : Prop := ∀ s, c.errorcode s ∉ [2, 3, 4, 5, 9, 11]

/-- Five bytes of sync, a block and a gap. -/
def frame (bin gap : List UInt8) : List UInt8 := List.replicate 5 0xFF ++ (encodeBlock bin ++ gap)

theorem length_frame (bin gap : List UInt8) :
    (frame bin gap).length = 5 + (5 * (bin.length / 4) + gap.length) := by
  rw [frame, List.length_append, List.length_append, List.length_replicate, length_encodeBlock]

theorem frame_sync (bin gap : List UInt8) {o : Nat} (ho : o < 5) :
    (frame bin gap).getD o 0 = 0xFF := by
  rw [frame, List.getD_append _ _ _ _ (by rw [List.length_replicate]; exact ho),
    List.getD_replicate _ ho]

theorem frame_behind (bin gap : List UInt8) (j : Nat) :
    (frame bin gap).getD (5 + j) 0 = (encodeBlock bin ++ gap).getD j 0 := by
  rw [frame, List.getD_append_right _ _ _ _ (by rw [List.length_replicate]; omega),
    List.length_replicate, Nat.add_sub_cancel_left]

theorem frame_block {bin : List UInt8} (gap : List UInt8) {j : Nat}
    (hj : j < 5 * (bin.length / 4)) :
    (frame bin gap).getD (5 + j) 0 = (encodeBlock bin).getD j 0 := by
  rw [frame_behind, List.getD_append _ _ _ _ (by rw [length_encodeBlock]; exact hj)]

/-- In a frame only the first four bytes of sync are followed by a byte that makes
    two in a row. -/
theorem frame_only {bin gap : List UInt8} (hlen : 4 ≤ bin.length)
    (hfirst : (bin.getD 0 0).toNat < 16) (hgap : Quiet gap) {o : Nat}
    (ho : o < (frame bin gap).length) (hff : (frame bin gap).getD o 0 = 0xFF) :
    o < 4 ∨ (o + 1 < (frame bin gap).length ∧ ((frame bin gap).getD (o + 1) 0).toNat < 128) := by
  rw [length_frame] at ho ⊢
  by_cases h4 : o < 4
  · exact Or.inl h4
  · refine Or.inr ?_
    by_cases hlast : o = 4
    · subst hlast
      refine ⟨by omega, ?_⟩
      have hblock : (frame bin gap).getD (5 + 0) 0 = (encodeBlock bin).getD 0 0 :=
        frame_block gap (by omega)
      rw [show 4 + 1 = 5 + 0 from rfl, hblock]
      exact encodeBlock_first hlen hfirst
    · obtain ⟨j, rfl⟩ : ∃ j, o = 5 + j := ⟨o - 5, by omega⟩
      rw [frame_behind] at hff
      have hj : j < (encodeBlock bin ++ gap).length := by
        rw [List.length_append, length_encodeBlock]
        omega
      obtain ⟨hlt, hbit⟩ := (quiet_encodeBlock bin).append hgap j hj hff
      rw [List.length_append, length_encodeBlock] at hlt
      refine ⟨by omega, ?_⟩
      rw [Nat.add_assoc, frame_behind]
      exact hbit

namespace Content

variable (c : Content)

theorem length_header (s : Nat) : (c.header s).length = 8 := rfl

theorem length_sector (s : Nat) : (c.sector s).length = 256 := by
  rw [sector, List.length_map, List.length_range]

theorem length_sectorBuffer (s : Nat) : (c.sectorBuffer s).length = 260 := by
  rw [sectorBuffer, List.cons_append, List.length_cons, List.length_append, length_sector]
  rfl

end Content

/-- The bytes of a sector on the track. -/
def sectorLength (region : Nat) : Nat := 354 + sectorGapLengths region

theorem length_sectorBytes (c : Content) (geosgaps : Bool) (region s : Nat) :
    (sectorBytes c geosgaps region s).length = sectorLength region := by
  simp only [sectorBytes, syncBytes, List.length_append, List.length_replicate, length_encodeBlock,
    length_gap, c.length_header, c.length_sectorBuffer, sectorLength]
  omega

/-- The block of the header or of the data of a sector, and the gap behind it. -/
def blockOf (c : Content) (s odd : Nat) : List UInt8 :=
  if odd = 0 then c.header s else c.sectorBuffer s
def gapOf (geosgaps : Bool) (region odd : Nat) : List UInt8 :=
  if odd = 0 then gap geosgaps 9 else gap geosgaps (sectorGapLengths region)

/-- A sector without errors is two frames. -/
theorem sectorBytes_clean {c : Content} (hc : c.Clean) (geosgaps : Bool) (region s : Nat) :
    sectorBytes c geosgaps region s
      = frame (blockOf c s 0) (gapOf geosgaps region 0) ++
        frame (blockOf c s 1) (gapOf geosgaps region 1) := by
  have h3 : c.errorcode s ≠ 3 := fun h => hc s (by rw [h]; decide)
  have hsync : syncBytes (c.errorcode s) = List.replicate 5 0xFF := by
    rw [syncBytes, if_pos h3]
  rw [sectorBytes, hsync, frame, frame, blockOf, blockOf, gapOf, gapOf, if_pos rfl, if_pos rfl,
    if_neg (by decide), if_neg (by decide)]
  simp only [List.append_assoc]

/-- The size of a region: the sectors fit on the track. -/
structure RegionFits (region : Nat) : Prop where
  two_le : 2 ≤ sectorsPerTrack region
  le_256 : sectorsPerTrack region ≤ 256
  len_ge : 360 ≤ trackLengths region
  fits : sectorsPerTrack region * sectorLength region < trackLengths region

theorem regionFits {region : Nat} (h : region < 8) : RegionFits region := by
  have hall : ∀ region < 8, 2 ≤ sectorsPerTrack region ∧ sectorsPerTrack region ≤ 256 ∧
      360 ≤ trackLengths region ∧
      sectorsPerTrack region * sectorLength region < trackLengths region := by decide
  obtain ⟨h1, h2, h3, h4⟩ := hall region h
  exact ⟨h1, h2, h3, h4⟩

theorem length_sectors (c : Content) (geosgaps : Bool) (region : Nat) :
    ((List.range (sectorsPerTrack region)).flatMap (sectorBytes c geosgaps region)).length
      = sectorLength region * sectorsPerTrack region :=
  length_flatMap_range (length_sectorBytes c geosgaps region) _

theorem length_trackBuffer (c : Content) (geosgaps : Bool) {region : Nat} (h : region < 8) :
    (trackBuffer c geosgaps region).length = trackLengths region := by
  have hfits := (regionFits h).fits
  rw [Nat.mul_comm] at hfits
  rw [trackBuffer, List.length_append, length_fill, length_sectors]
  omega

/-- A byte of a sector on the track. -/
theorem getD_trackBuffer (c : Content) (geosgaps : Bool) {region s o : Nat}
    (hs : s < sectorsPerTrack region) (ho : o < sectorLength region) :
    (trackBuffer c geosgaps region).getD (s * sectorLength region + o) 0
      = (sectorBytes c geosgaps region s).getD o 0 := by
  have hsits := (sitsAt_flatMap_const (length_sectorBytes c geosgaps region) hs).append
    (fill geosgaps (trackLengths region - ((List.range (sectorsPerTrack region)).flatMap
      (sectorBytes c geosgaps region)).length))
  rw [Nat.mul_comm]
  exact hsits.getD (by rw [length_sectorBytes]; exact ho) 0

theorem fill_getD_ne (geosgaps : Bool) {n i : Nat} (hi : i < n) :
    (fill geosgaps n).getD i 0 ≠ 0xFF := by
  have hlt : i < (fill geosgaps n).length := by
    rw [length_fill]
    exact hi
  rw [List.getD_eq_getElem _ _ hlt]
  rcases forall_fill geosgaps n _ (List.getElem_mem hlt) with h | h <;> rw [h] <;> decide

/-- A byte behind the sectors. -/
theorem getD_trackBuffer_fill (c : Content) (geosgaps : Bool) {region x : Nat}
    (hlo : sectorsPerTrack region * sectorLength region ≤ x) (hhi : x < trackLengths region) :
    (trackBuffer c geosgaps region).getD x 0 ≠ 0xFF := by
  have hlen := length_sectors c geosgaps region
  rw [Nat.mul_comm] at hlen
  rw [trackBuffer, List.getD_append_right _ _ _ _ (by omega)]
  exact fill_getD_ne geosgaps (by omega)

/-! ## The endless stream -/

/-- The track read over and over, before it is turned. -/
def stream (c : Content) (geosgaps : Bool) (region x : Nat) : UInt8 :=
  (trackBuffer c geosgaps region).getD (x % trackLengths region) 0

/-- Where sector `m` starts, counted over all turns. -/
def sectorPos (region m : Nat) : Nat :=
  m / sectorsPerTrack region * trackLengths region + m % sectorsPerTrack region * sectorLength region

/-- Where block `i` starts: headers and data blocks in turn. -/
def blockPos (region i : Nat) : Nat := sectorPos region (i / 2) + 24 * (i % 2) + 5

section Stream

variable {c : Content} {geosgaps : Bool} {region : Nat}

theorem blockPos_even (region m : Nat) :
    blockPos region (2 * m) = sectorPos region m + 24 * 0 + 5 := by
  rw [blockPos, Nat.mul_div_cancel_left m (by decide), Nat.mul_mod_right]

theorem blockPos_odd (region m : Nat) :
    blockPos region (2 * m + 1) = sectorPos region m + 24 * 1 + 5 := by
  rw [blockPos, show (2 * m + 1) / 2 = m by omega, show (2 * m + 1) % 2 = 1 by omega]

/-- Sector `s` of turn `q`. -/
theorem sectorPos_eq {q s : Nat} (hs : s < sectorsPerTrack region) :
    sectorPos region (sectorsPerTrack region * q + s)
      = q * trackLengths region + s * sectorLength region := by
  rw [sectorPos, Nat.mul_add_div (by omega), Nat.div_eq_of_lt hs, Nat.mul_add_mod,
    Nat.mod_eq_of_lt hs, Nat.add_zero]

/-- The place `o` of sector `s` in any turn is on the track. -/
theorem sector_fits (h : region < 8) {s o : Nat} (hs : s < sectorsPerTrack region)
    (ho : o < sectorLength region) : s * sectorLength region + o < trackLengths region := by
  have hfits := (regionFits h).fits
  have : (s + 1) * sectorLength region ≤ sectorsPerTrack region * sectorLength region :=
    Nat.mul_le_mul_right _ hs
  rw [Nat.succ_mul] at this
  omega

theorem stream_turn (x q : Nat) :
    stream c geosgaps region (q * trackLengths region + x) = stream c geosgaps region x := by
  rw [stream, stream, Nat.mul_comm, Nat.mul_add_mod]

/-- A byte of a frame in the stream. -/
theorem stream_frame (hc : c.Clean) (h : region < 8) {q s odd o : Nat}
    (hs : s < sectorsPerTrack region) (hodd : odd < 2)
    (ho : o < (frame (blockOf c s odd) (gapOf geosgaps region odd)).length) :
    stream c geosgaps region (q * trackLengths region + s * sectorLength region + 24 * odd + o)
      = (frame (blockOf c s odd) (gapOf geosgaps region odd)).getD o 0 := by
  have hlen0 : (frame (blockOf c s 0) (gapOf geosgaps region 0)).length = 24 := by
    rw [length_frame, blockOf, gapOf, if_pos rfl, if_pos rfl, c.length_header, length_gap]
  have hlen1 : (frame (blockOf c s 1) (gapOf geosgaps region 1)).length
      = sectorLength region - 24 := by
    rw [length_frame, blockOf, gapOf, if_neg (by decide), if_neg (by decide),
      c.length_sectorBuffer, length_gap, sectorLength]
    omega
  have hS : 24 < sectorLength region := by
    rw [sectorLength]
    omega
  have hin : 24 * odd + o < sectorLength region := by
    interval_cases odd <;> omega
  rw [Nat.add_assoc _ (24 * odd), Nat.add_assoc, stream_turn, stream,
    Nat.mod_eq_of_lt (sector_fits h hs hin), getD_trackBuffer c geosgaps hs hin,
    sectorBytes_clean hc]
  interval_cases odd
  · rw [Nat.mul_zero, Nat.zero_add, List.getD_append _ _ _ _ ho]
  · rw [List.getD_append_right _ _ _ _ (by omega), hlen0, Nat.mul_one, Nat.add_sub_cancel_left]

/-- A byte of a block in the stream. -/
theorem stream_block (hc : c.Clean) (h : region < 8) (m odd j : Nat) (hodd : odd < 2)
    (hj : j < 5 * ((blockOf c (m % sectorsPerTrack region) odd).length / 4)) :
    stream c geosgaps region (sectorPos region m + 24 * odd + 5 + j)
      = (encodeBlock (blockOf c (m % sectorsPerTrack region) odd)).getD j 0 := by
  have hn := (regionFits h).two_le
  rw [Nat.add_assoc _ 5, sectorPos, stream_frame hc h (Nat.mod_lt m (by omega)) hodd (by
    rw [length_frame]
    omega), frame_block _ hj]

/-- The blocks start with a zero nibble. -/
theorem blockOf_first (hc : c.Clean) (s : Nat) {odd : Nat} (hodd : odd < 2) :
    4 ≤ (blockOf c s odd).length ∧ ((blockOf c s odd).getD 0 0).toNat < 16 := by
  have h2 : c.errorcode s ≠ 2 := fun h => hc s (by rw [h]; decide)
  have h4 : c.errorcode s ≠ 4 := fun h => hc s (by rw [h]; decide)
  interval_cases odd
  · rw [blockOf, if_pos rfl, c.length_header, Content.header, if_neg h2]
    exact ⟨by decide, by rw [List.getD_cons_zero]; decide⟩
  · rw [blockOf, if_neg (by decide), c.length_sectorBuffer, Content.sectorBuffer, if_neg h4,
      List.cons_append, List.getD_cons_zero]
    exact ⟨by decide, by decide⟩

theorem quiet_gapOf (odd : Nat) : Quiet (gapOf geosgaps region odd) := by
  rw [gapOf]
  split <;> exact quiet_of_gap (forall_gap geosgaps _)

/-- The stream is framed. -/
theorem framed (hc : c.Clean) (h : region < 8) :
    Framed (stream c geosgaps region) (blockPos region) := by
  have hn := (regionFits h).two_le
  constructor
  · intro i j hlo hhi
    rw [blockPos] at hlo hhi
    obtain ⟨o, rfl⟩ : ∃ o, j = sectorPos region (i / 2) + 24 * (i % 2) + o :=
      ⟨_, (Nat.add_sub_cancel' (by omega)).symm⟩
    rw [sectorPos, stream_frame hc h (Nat.mod_lt _ (by omega)) (Nat.mod_lt i (by decide)) (by
      rw [length_frame]
      omega)]
    exact frame_sync _ _ (by omega)
  · intro i
    have hodd : i % 2 < 2 := Nat.mod_lt i (by decide)
    obtain ⟨hlen, hfirst⟩ := blockOf_first hc (i / 2 % sectorsPerTrack region) hodd
    rw [blockPos, ← Nat.add_zero (_ + 5), stream_block hc h (i / 2) (i % 2) 0 hodd (by omega)]
    exact encodeBlock_first hlen hfirst
  · intro x hff hbit
    -- The place in the turn: in a sector, or behind the sectors.
    have hlen := (regionFits h).len_ge
    have hx := Nat.div_add_mod' x (trackLengths region)
    have hlt : x % trackLengths region < trackLengths region := Nat.mod_lt x (by omega)
    generalize x / trackLengths region = q at hx
    generalize x % trackLengths region = y at hx hlt
    subst hx
    by_cases hfill : sectorsPerTrack region * sectorLength region ≤ y
    · rw [stream_turn, stream, Nat.mod_eq_of_lt hlt] at hff
      exact absurd hff (getD_trackBuffer_fill c geosgaps hfill hlt)
    · have hS : 24 < sectorLength region := by
        rw [sectorLength]
        omega
      have hs : y / sectorLength region < sectorsPerTrack region :=
        (Nat.div_lt_iff_lt_mul (by omega)).mpr (by omega)
      have hy := Nat.div_add_mod' y (sectorLength region)
      have ho : y % sectorLength region < sectorLength region := Nat.mod_lt y (by omega)
      generalize y / sectorLength region = s at hs hy
      generalize y % sectorLength region = o at hy ho
      subst hy
      obtain ⟨odd, o', hodd, rfl, hin⟩ : ∃ odd o', odd < 2 ∧ o = 24 * odd + o' ∧
          o' < (frame (blockOf c s odd) (gapOf geosgaps region odd)).length := by
        by_cases ho24 : o < 24
        · refine ⟨0, o, by decide, by omega, ?_⟩
          rw [length_frame, blockOf, gapOf, if_pos rfl, if_pos rfl, c.length_header, length_gap]
          exact ho24
        · refine ⟨1, o - 24, by decide, by omega, ?_⟩
          rw [length_frame, blockOf, gapOf, if_neg (by decide), if_neg (by decide),
            c.length_sectorBuffer, length_gap]
          rw [sectorLength] at ho
          omega
      have hplace : ∀ z, q * trackLengths region + (s * sectorLength region + (24 * odd + o')) + z
          = q * trackLengths region + s * sectorLength region + 24 * odd + (o' + z) := by
        intro z
        omega
      have hff' := hplace 0
      rw [Nat.add_zero, Nat.add_zero] at hff'
      rw [hff', stream_frame hc h hs hodd hin] at hff
      obtain ⟨hlen4, hfirst⟩ := blockOf_first hc s hodd
      rcases frame_only hlen4 hfirst (quiet_gapOf odd) hin hff with h4 | ⟨hnext, hclear⟩
      · refine ⟨2 * (sectorsPerTrack region * q + s) + odd, ?_⟩
        have hdiv : (2 * (sectorsPerTrack region * q + s) + odd) / 2
            = sectorsPerTrack region * q + s := by omega
        have hmod : (2 * (sectorsPerTrack region * q + s) + odd) % 2 = odd := by omega
        rw [blockPos, hdiv, hmod, sectorPos_eq hs]
        omega
      · rw [hplace 1, stream_frame hc h hs hodd hnext] at hbit
        omega

end Stream

/-! ## The sectors of the stream -/

/-- What the decoder makes of the data block of a sector: its bytes and the checksum. -/
def Content.decoded (c : Content) (s i : Nat) : UInt8 := (c.sectorBuffer s).getD (i + 1) 0

theorem Content.decoded_of_lt (c : Content) (s : Nat) {i : Nat} (hi : i < 256) :
    c.decoded s i = c.bin (256 * s + i) := by
  have hlen : i < (c.sector s).length := by
    rw [c.length_sector]
    exact hi
  rw [decoded, sectorBuffer, List.cons_append, List.getD_cons_succ, List.getD_append _ _ _ _ hlen,
    List.getD_eq_getElem _ _ hlen]
  simp only [sector, List.getElem_map, List.getElem_range]

theorem Content.decoded_checksum {c : Content} (hc : c.Clean) (s : Nat) :
    c.decoded s 256 = c.checksum s := by
  have h5 : c.errorcode s ≠ 5 := fun h => hc s (by rw [h]; decide)
  rw [decoded, sectorBuffer, if_neg h5, List.cons_append, List.getD_cons_succ,
    List.getD_append_right _ _ _ _ (by rw [c.length_sector]), c.length_sector]
  rfl

theorem Content.checksum_eq (c : Content) (s : Nat) :
    (List.range 256).foldl (fun chk i => chk ^^^ c.decoded s i) 0 = c.checksum s := by
  rw [checksum, sector, List.foldl_map]
  refine List.foldl_ext _ _ _ fun chk i hi => ?_
  rw [c.decoded_of_lt s (List.mem_range.mp hi)]

section Stream

variable {c : Content} {geosgaps : Bool} {region : Nat}

/-- The first bytes of a block as the decoder sees them. -/
theorem conv5_stream (d : Decoder) (hc : c.Clean) (h : region < 8) (m odd j : Nat)
    (hodd : odd < 2) (hj : j < 4) :
    conv5 d (fun i => stream c geosgaps region (sectorPos region m + 24 * odd + 5 + i)) j
      = (blockOf c (m % sectorsPerTrack region) odd).getD j 0 := by
  have hlen := (blockOf_first hc (m % sectorsPerTrack region) hodd).1
  have hblock := convBlock_encodeBlock d
    (b := fun i => stream c geosgaps region (sectorPos region m + 24 * odd + 5 + i)) (k := j)
    (by omega) fun i hi => stream_block hc h m odd _ hodd (by omega)
  rw [convBlock, Nat.div_eq_of_lt hj, Nat.mod_eq_of_lt hj] at hblock
  simpa only [Nat.mul_zero, Nat.zero_add] using hblock

/-- The data bytes of a block as the decoder sees them. -/
theorem streamData_stream (d : Decoder) (hc : c.Clean) (h : region < 8) (m : Nat) {i : Nat}
    (hi : i ≤ 256) :
    streamData d (stream c geosgaps region) (blockPos region (2 * m + 1)) i
      = c.decoded (m % sectorsPerTrack region) i := by
  have hodd : blockOf c (m % sectorsPerTrack region) 1
      = c.sectorBuffer (m % sectorsPerTrack region) := if_neg (by decide)
  rw [streamData, blockPos_odd, Content.decoded, ← hodd]
  by_cases hlt : i < 3
  · rw [if_pos hlt, conv5_stream d hc h m 1 (i + 1) (by decide) (by omega)]
  · have hblock := convBlock_encodeBlock d
      (b := fun i => stream c geosgaps region (sectorPos region m + 24 * 1 + 5 + i)) (k := i + 1)
      (by rw [hodd, c.length_sectorBuffer]; omega)
      fun x hx => stream_block hc h m 1 _ (by decide) (by rw [hodd, c.length_sectorBuffer]; omega)
    -- The group after the first five bytes.
    rw [if_neg hlt, ← hblock, convBlock, convBlock, show (i + 1) / 4 = (i - 3) / 4 + 1 by omega,
      show (i + 1) % 4 = (i - 3) % 4 by omega]
    refine conv5_congr d (fun x _ => congrArg (stream c geosgaps region) ?_) _
    omega

/-- The header of a sector without errors. -/
theorem header_clean (hc : c.Clean) (s : Nat) :
    (c.header s).getD 0 0 = 8 ∧ (c.header s).getD 2 0 = UInt8.ofNat s ∧
      (c.header s).getD 3 0 = c.track := by
  have h2 : c.errorcode s ≠ 2 := fun h => hc s (by rw [h]; decide)
  rw [Content.header, if_neg h2]
  exact ⟨rfl, rfl, rfl⟩

/-- The data block of a sector without errors. -/
theorem sectorBuffer_clean (hc : c.Clean) (s : Nat) : (c.sectorBuffer s).getD 0 0 = 7 := by
  have h4 : c.errorcode s ≠ 4 := fun h => hc s (by rw [h]; decide)
  rw [Content.sectorBuffer, if_neg h4]
  rfl

/-- The next sector starts at least 356 bytes on. -/
theorem sectorPos_succ (h : region < 8) (m : Nat) :
    sectorPos region m + 356 ≤ sectorPos region (m + 1) := by
  have hn := (regionFits h).two_le
  have hall : ∀ region < 8, 356 ≤ sectorLength region ∧
      sectorsPerTrack region * sectorLength region ≤ trackLengths region := by decide
  obtain ⟨hS, hfits⟩ := hall region h
  obtain ⟨q, s, hs, rfl⟩ : ∃ q s, s < sectorsPerTrack region ∧ m = sectorsPerTrack region * q + s :=
    ⟨m / sectorsPerTrack region, m % sectorsPerTrack region, Nat.mod_lt m (by omega),
      (Nat.div_add_mod m _).symm⟩
  rw [sectorPos_eq hs]
  by_cases hnext : s + 1 < sectorsPerTrack region
  · have hplace := sectorPos_eq (q := q) hnext
    rw [Nat.succ_mul] at hplace
    rw [Nat.add_assoc _ s 1, hplace]
    omega
  · -- The first sector of the next turn.
    have hlast : s + 1 = sectorsPerTrack region := by omega
    have hbound : (s + 1) * sectorLength region ≤ trackLengths region := hlast ▸ hfits
    have hturn : sectorsPerTrack region * q + s + 1 = sectorsPerTrack region * (q + 1) + 0 := by
      rw [Nat.mul_succ]
      omega
    have hplace : sectorPos region (sectorsPerTrack region * (q + 1) + 0)
        = (q + 1) * trackLengths region + 0 * sectorLength region := sectorPos_eq (by omega)
    rw [Nat.succ_mul] at hplace hbound
    rw [hturn, hplace]
    omega

/-- The stream is one of sectors. -/
theorem sectors (d : Decoder) (hc : c.Clean) (h : region < 8) :
    Sectors d (stream c geosgaps region) (blockPos region) (trackLengths region)
      (sectorsPerTrack region) c.track.toNat c.decoded := by
  obtain ⟨htwo, h256, hlen, hfits⟩ := regionFits h
  have hS : 354 ≤ sectorLength region := Nat.le_add_right _ _
  have heven : ∀ s, blockOf c s 0 = c.header s := fun s => if_pos rfl
  have hodd : ∀ s, blockOf c s 1 = c.sectorBuffer s := fun s => if_neg (by decide)
  have hmod : ∀ m, m % sectorsPerTrack region < sectorsPerTrack region :=
    fun m => Nat.mod_lt m (by omega)
  constructor
  · exact htwo
  · exact h256
  · exact hlen
  · intro i
    rw [blockPos, blockPos, show (i + 2 * sectorsPerTrack region) / 2
      = i / 2 + sectorsPerTrack region by omega, sectorPos, sectorPos,
      Nat.add_div_right _ (by omega), Nat.add_mod_right, Nat.add_mul_mod_self_left, Nat.succ_mul]
    omega
  · intro i hi
    have hlt : i / 2 < sectorsPerTrack region := by omega
    have hbound : (i / 2 + 1) * sectorLength region
        ≤ sectorsPerTrack region * sectorLength region := Nat.mul_le_mul_right _ hlt
    rw [Nat.succ_mul] at hbound
    rw [blockPos, sectorPos, Nat.div_eq_of_lt hlt, Nat.mod_eq_of_lt hlt]
    omega
  · intro m
    rw [blockPos_even, blockPos_odd]
    omega
  · intro m
    have hnext := sectorPos_succ h m
    rw [show 2 * m + 2 = 2 * (m + 1) by omega, blockPos_even, blockPos_odd]
    omega
  · intro m
    rw [blockPos_even, conv5_stream d hc h m 0 0 (by decide) (by decide), heven]
    exact (header_clean hc _).1
  · intro m
    rw [blockPos_even, conv5_stream d hc h m 0 2 (by decide) (by decide), heven,
      (header_clean hc _).2.1]
    exact UInt8.toNat_ofNat_of_lt' (Nat.lt_of_lt_of_le (hmod m) h256)
  · intro m
    rw [blockPos_even, conv5_stream d hc h m 0 3 (by decide) (by decide), heven,
      (header_clean hc _).2.2]
  · intro m
    rw [blockPos_odd, conv5_stream d hc h m 1 0 (by decide) (by decide), hodd]
    exact sectorBuffer_clean hc _
  · exact fun m i hi => streamData_stream d hc h m hi
  · intro s
    rw [c.checksum_eq, c.decoded_checksum hc]

end Stream

/-! ## The turned track -/

/-- A track turned by `r` bits: byte `j` is the eight bits from bit `8 * j + r` on, and
    behind the end there is something else. -/
def rotate (l : List UInt8) (r : Nat) (behind : Nat → UInt8) : Track where
  byte j :=
    if j < l.length then
      splice (r % 8) (l.getD ((j + r / 8) % l.length) 0) (l.getD ((j + r / 8 + 1) % l.length) 0)
    else behind j
  len := l.length

/-- All sectors are decoded, with status 0. -/
structure Decoded (r : Request) (bin : Nat → UInt8) (s : Scan) : Prop where
  secs : s.secs = r.maxSector
  data : ∀ n, n < r.maxSector → ∀ i, i < 256 → s.mem (r.bin + 256 * n + i) = bin (256 * n + i)
  status_length : s.status.length = 2 * r.maxSector
  status : ∀ n, n < r.maxSector → ∃ j, j < r.maxSector ∧
    s.status.getD (2 * j) 0xFF = UInt8.ofNat n ∧ s.status.getD (2 * j + 1) 0xFF = 0

/-- The sectors of an encoded track come back from the track turned by `r` bits,
    whatever is in memory behind it and where they go to. -/
def RoundTrips (d : Decoder) (c : Content) (region : Nat) (geosgaps : Bool) (twist r : Nat) :
    Prop :=
  ∀ behind mem bin statlen, 2 * sectorsPerTrack region ≤ statlen →
    ∃ s, EndsIn (step d (rotate (convertTrackBin2gcr c region geosgaps twist) r behind)
        ⟨c.track.toNat, sectorsPerTrack region, bin⟩) (Scan.start mem statlen) s ∧
      Decoded ⟨c.track.toNat, sectorsPerTrack region, bin⟩ c.bin s

/-- The track ends inside of a byte, with the first five bytes of the data block of a
    sector: the block starts 29 bytes into the sector. -/
def CutOff (c : Content) (region twist r : Nat) : Prop :=
  r % 8 ≠ 0 ∧ ∃ s, s < sectorsPerTrack region ∧
    (s * sectorLength region + 34 + twistOffset c region twist) % trackLengths region
      = (r / 8 + 1) % trackLengths region

section Turn

variable {c : Content} {geosgaps : Bool} {region : Nat}

theorem twistOffset_lt (h : region < 8) (twist : Nat) :
    twistOffset c region twist < trackLengths region :=
  Nat.mod_lt _ (by have := (regionFits h).len_ge; omega)

theorem length_convertTrackBin2gcr (h : region < 8) (twist : Nat) :
    (convertTrackBin2gcr c region geosgaps twist).length = trackLengths region := by
  have hoff := twistOffset_lt (c := c) h twist
  rw [convertTrackBin2gcr, List.length_append, List.length_take, List.length_drop,
    List.length_take, length_trackBuffer c geosgaps h]
  omega

/-- The bytes of the track are those of the stream, turned by the twist. -/
theorem getD_convertTrackBin2gcr (h : region < 8) (twist x : Nat) :
    (convertTrackBin2gcr c region geosgaps twist).getD (x % trackLengths region) 0
      = stream c geosgaps region (x + (trackLengths region - twistOffset c region twist)) := by
  have hlen := length_trackBuffer c geosgaps h
  have hoff := twistOffset_lt (c := c) h twist
  have hpos := (regionFits h).len_ge
  have hlt : x % trackLengths region < trackLengths region := Nat.mod_lt x (by omega)
  have htake : (((trackBuffer c geosgaps region).drop
      (trackLengths region - twistOffset c region twist)).take
      (twistOffset c region twist)).length = twistOffset c region twist := by
    rw [List.length_take, List.length_drop, hlen]
    omega
  rw [stream, ← Nat.mod_add_mod, convertTrackBin2gcr]
  generalize x % trackLengths region = y at hlt ⊢
  by_cases hin : y < twistOffset c region twist
  · rw [List.getD_append _ _ _ _ (by rw [htake]; exact hin), Nat.mod_eq_of_lt (by omega),
      List.getD_eq_getElem?_getD, List.getElem?_take_of_lt hin, List.getElem?_drop,
      ← List.getD_eq_getElem?_getD, Nat.add_comm]
  · rw [List.getD_append_right _ _ _ _ (by rw [htake]; omega), htake,
      List.getD_eq_getElem?_getD, List.getElem?_take_of_lt (by omega),
      ← List.getD_eq_getElem?_getD]
    congr 1
    rw [Nat.mod_eq_sub_mod (by omega), Nat.mod_eq_of_lt (by omega)]
    omega

/-- The byte of the stream the turned track starts in. -/
def startByte (c : Content) (region twist r : Nat) : Nat :=
  r / 8 + (trackLengths region - twistOffset c region twist)

theorem turned (h : region < 8) (twist r : Nat) (behind : Nat → UInt8) :
    Turned (rotate (convertTrackBin2gcr c region geosgaps twist) r behind)
      (stream c geosgaps region) (startByte c region twist r) (r % 8) := by
  have hlen : (convertTrackBin2gcr c region geosgaps twist).length = trackLengths region :=
    length_convertTrackBin2gcr h twist
  have hpos := (regionFits h).len_ge
  constructor
  · show 0 < (convertTrackBin2gcr c region geosgaps twist).length
    omega
  · exact Nat.mod_lt r (by decide)
  · intro x
    show stream c geosgaps region (x + (convertTrackBin2gcr c region geosgaps twist).length) = _
    rw [hlen, stream, stream, Nat.add_mod_right]
  · intro j hj
    have hj' : j < (convertTrackBin2gcr c region geosgaps twist).length := hj
    rw [rotate]
    dsimp only
    rw [if_pos hj', hlen, getD_convertTrackBin2gcr h, getD_convertTrackBin2gcr h, startByte,
      Nat.add_assoc, Nat.add_assoc _ _ 1, Nat.add_assoc]
    congr 2
    omega

end Turn

/-! ## The round trip -/

/-- Sectors taken from `m₀` on come to all of them. -/
theorem exists_taken {n : Nat} (m₀ : Nat) {s : Nat} (hs : s < n) :
    ∃ j, j < n ∧ (m₀ + j) % n = s := by
  have hm := Nat.div_add_mod m₀ n
  have hlt : m₀ % n < n := Nat.mod_lt m₀ (by omega)
  by_cases hle : m₀ % n ≤ s
  · refine ⟨s - m₀ % n, by omega, ?_⟩
    rw [← Nat.mod_add_mod, Nat.add_sub_cancel' hle, Nat.mod_eq_of_lt hs]
  · refine ⟨s + n - m₀ % n, by omega, ?_⟩
    rw [← Nat.mod_add_mod, Nat.add_sub_cancel' (by omega), Nat.add_mod_right, Nat.mod_eq_of_lt hs]

/-- The status pairs of sectors that were taken. -/
theorem Taken.status_pair {r : Request} {content : Nat → Nat → UInt8} {mem₀ : Nat → UInt8}
    {n m₀ room p : Nat} {s : Scan} (h : Taken r content mem₀ n m₀ room p s) {j : Nat} (hj : j < p) :
    s.status.getD (2 * j) 0xFF = UInt8.ofNat ((m₀ + j) % n) ∧
      s.status.getD (2 * j + 1) 0xFF = 0 := by
  have hsits := sitsAt_flatMap_const (k := 2)
    (f := fun j => [UInt8.ofNat ((m₀ + j) % n), 0]) (fun _ => rfl) hj
  rw [h.status]
  exact ⟨hsits.getD (i := 0) (show 0 < 2 by decide) 0xFF,
    hsits.getD (i := 1) (show 1 < 2 by decide) 0xFF⟩

/-- When all sectors are taken, the track is decoded. -/
theorem Taken.decoded {r : Request} {content : Nat → Nat → UInt8} {mem₀ bin : Nat → UInt8}
    {m₀ room : Nat} {s : Scan} (h : Taken r content mem₀ r.maxSector m₀ room r.maxSector s)
    (hbin : ∀ n i, i < 256 → content n i = bin (256 * n + i)) : Decoded r bin s := by
  constructor
  · exact h.secs
  · intro n hn i hi
    obtain ⟨j, hj, rfl⟩ := exists_taken m₀ hn
    rw [h.mem j hj i hi, hbin _ i hi]
  · rw [h.status, length_flatMap_range (k := 2) fun _ => rfl]
  · intro n hn
    obtain ⟨j, hj, rfl⟩ := exists_taken m₀ hn
    exact ⟨j, hj, h.status_pair hj⟩

section Turn

variable {c : Content} {geosgaps : Bool} {region : Nat}

/-- Where the first five bytes of a data block end. -/
theorem blockPos_add_five (region m twist : Nat) :
    (blockPos region (2 * m + 1) + 5 + twist) % trackLengths region
      = (m % sectorsPerTrack region * sectorLength region + 34 + twist) % trackLengths region := by
  rw [blockPos_odd, sectorPos, show m / sectorsPerTrack region * trackLengths region +
      m % sectorsPerTrack region * sectorLength region + 24 * 1 + 5 + 5 + twist
    = m % sectorsPerTrack region * sectorLength region + 34 + twist +
      trackLengths region * (m / sectorsPerTrack region) by
        rw [Nat.mul_comm (trackLengths region)]
        omega, Nat.add_mul_mod_self_left]

/-- The end of the track, counted in the stream. -/
theorem endsAt_iff (h : region < 8) (twist r m : Nat) :
    EndsAt (trackLengths region) (startByte c region twist r) (r % 8)
        (blockPos region (2 * m + 1) + 5) ↔
      r % 8 ≠ 0 ∧ (m % sectorsPerTrack region * sectorLength region + 34 +
        twistOffset c region twist) % trackLengths region = (r / 8 + 1) % trackLengths region := by
  have hoff := twistOffset_lt (c := c) h twist
  rw [EndsAt]
  refine and_congr_right fun hk => ?_
  have hlead : lead (startByte c region twist r) (r % 8) + twistOffset c region twist
      = r / 8 + 1 + trackLengths region := by
    rw [lead, if_neg hk, startByte]
    omega
  rw [← blockPos_add_five, ← Nat.add_mod_right (r / 8 + 1), ← hlead]
  exact ⟨fun h => Nat.ModEq.add_right _ h, fun h => Nat.ModEq.add_right_cancel' _ h⟩

/-- The turned track is decoded unless a data block is cut off. -/
theorem roundTrips_of_not_cutOff (d : Decoder) (hc : c.Clean) (h : region < 8) {twist r : Nat}
    (hcut : ¬ CutOff c region twist r) : RoundTrips d c region geosgaps twist r := by
  intro behind mem bin statlen hroom
  have hlen : (convertTrackBin2gcr c region geosgaps twist).length = trackLengths region :=
    length_convertTrackBin2gcr h twist
  have hpos := (regionFits h).len_ge
  have ht : Turned (rotate (convertTrackBin2gcr c region geosgaps twist) r behind)
      (stream c geosgaps region) (startByte c region twist r) (r % 8) := turned h twist r behind
  have hlen' : (rotate (convertTrackBin2gcr c region geosgaps twist) r behind).len
      = trackLengths region := hlen
  have hs : Sectors d (stream c geosgaps region) (blockPos region) (trackLengths region)
      (sectorsPerTrack region) c.track.toNat c.decoded := sectors d hc h
  rw [← hlen'] at hs
  obtain ⟨s, m₀, hends, htaken⟩ := takes_all
    (r := ⟨c.track.toNat, sectorsPerTrack region, bin⟩) ht (framed hc h) hs rfl rfl
    (fun m hle => by
      by_contra hnot
      rw [Whole, not_or, not_not, hlen'] at hnot
      obtain ⟨hk, hend⟩ := hnot
      refine hcut ?_
      have hends : EndsAt (trackLengths region) (startByte c region twist r) (r % 8)
          (blockPos region (2 * m + 1) + 5) := by
        refine ⟨hk, ?_⟩
        have hmod : (blockPos region (2 * m + 1) - lead (startByte c region twist r) (r % 8) + 5)
            % trackLengths region = 0 := by
          rw [← Nat.mod_add_mod, hend, Nat.mod_self]
        have hsplit : blockPos region (2 * m + 1) + 5
            = lead (startByte c region twist r) (r % 8) +
              (blockPos region (2 * m + 1) - lead (startByte c region twist r) (r % 8) + 5) := by
          omega
        rw [hsplit, Nat.add_mod, hmod, Nat.add_zero, Nat.mod_mod]
      exact ⟨hk, m % sectorsPerTrack region, Nat.mod_lt m (by have := (regionFits h).two_le; omega),
        ((endsAt_iff h twist r m).mp hends).2⟩)
    mem hroom
  exact ⟨s, hends, htaken.decoded fun n i hi => c.decoded_of_lt n hi⟩

/-- With a data block cut off, something in memory behind the track is decoded. -/
theorem not_roundTrips_of_cutOff (d : Decoder) (hc : c.Clean) (h : region < 8) {twist r : Nat}
    (hcut : CutOff c region twist r) : ¬ RoundTrips d c region geosgaps twist r := by
  intro hround
  obtain ⟨hk, s, hs, hend⟩ := hcut
  have hlen : (convertTrackBin2gcr c region geosgaps twist).length = trackLengths region :=
    length_convertTrackBin2gcr h twist
  -- Behind the track are encoded bytes that the sector does not have.
  obtain ⟨g, hg⟩ : ∃ g : Nat → UInt8, ∀ j,
      g (j + 1) = convGroup (fun _ => c.bin (256 * s + 3) + 1) j :=
    ⟨fun j => convGroup (fun _ => c.bin (256 * s + 3) + 1) (j - 1), fun j => rfl⟩
  let behind := fun x => splice (r % 8) (g (x - trackLengths region))
    (g (x - trackLengths region + 1))
  have ht : Turned (rotate (convertTrackBin2gcr c region geosgaps twist) r behind)
      (stream c geosgaps region) (startByte c region twist r) (r % 8) := turned h twist r behind
  have hlen' : (rotate (convertTrackBin2gcr c region geosgaps twist) r behind).len
      = trackLengths region := hlen
  have hsec : Sectors d (stream c geosgaps region) (blockPos region) (trackLengths region)
      (sectorsPerTrack region) c.track.toNat c.decoded := sectors d hc h
  rw [← hlen'] at hsec
  have hcut' : EndsAt (rotate (convertTrackBin2gcr c region geosgaps twist) r behind).len
      (startByte c region twist r) (r % 8) (blockPos region (2 * s + 1) + 5) := by
    rw [hlen']
    exact (endsAt_iff h twist r s).mpr ⟨hk, by rw [Nat.mod_eq_of_lt hs]; exact hend⟩
  obtain ⟨s₁, hends₁, hwrong⟩ := reads_behind
    (r := ⟨c.track.toNat, sectorsPerTrack region, 0⟩) ht (framed hc h) hsec rfl rfl hcut' hg
    (fun j => by
      rw [hlen', rotate]
      dsimp only
      rw [if_neg (by omega)]
      show splice (r % 8) (g (trackLengths region + j - trackLengths region)) _ = _
      rw [Nat.add_sub_cancel_left])
    (fun _ => 0) (Nat.le_refl (2 * sectorsPerTrack region))
  obtain ⟨s₂, hends₂, hdecoded⟩ := hround behind (fun _ => 0) 0 _ (Nat.le_refl _)
  have hright := hdecoded.data s hs 3 (by decide)
  rw [Nat.mod_eq_of_lt hs, hends₁.unique hends₂] at hwrong
  have hsame := congrArg UInt8.toNat (hwrong.symm.trans hright)
  have hlt := (c.bin (256 * s + 3)).toNat_lt
  rw [UInt8.toNat_add, show UInt8.toNat 1 = 1 from rfl] at hsame
  omega

/-- An encoded track comes back from every turn but those that cut off a data block. -/
theorem trackRoundTrips_iff (d : Decoder) (c : Content) (hc : c.Clean) (region : Nat) (h : region < 8)
    (geosgaps : Bool) (twist r : Nat) :
    RoundTrips d c region geosgaps twist r ↔ ¬ CutOff c region twist r :=
  ⟨fun hround hcut => not_roundTrips_of_cutOff d hc h hcut hround,
    fun hcut => roundTrips_of_not_cutOff d hc h hcut⟩

/-- Track 1 with all bytes zero. -/
def zeroTrack : Content := ⟨0, 0, 1, fun _ => 0, fun _ => 0⟩

theorem zeroTrack_clean : zeroTrack.Clean := by
  intro s
  show (0 : UInt8) ∉ [2, 3, 4, 5, 9, 11]
  decide

/-- It comes back when it is turned by one bit. -/
theorem zeroTrack_roundTrips : RoundTrips .gcr2bin zeroTrack 0 false 0 1 := by
  refine (trackRoundTrips_iff .gcr2bin zeroTrack zeroTrack_clean 0 (by decide) false 0 1).mpr ?_
  rintro ⟨_, s, hs, hend⟩
  have hall : ∀ s < 21, (s * sectorLength 0 + 34 + twistOffset zeroTrack 0 0) % trackLengths 0
      ≠ (1 / 8 + 1) % trackLengths 0 := by decide
  exact hall s hs hend

/-- It does not when it is turned by 265 bits: 33 bytes and a bit, so that it ends in
    byte 33, the last of the first five bytes of the data block of sector 0. -/
theorem zeroTrack_not_roundTrips : ¬ RoundTrips .gcr2bin zeroTrack 0 false 0 265 :=
  not_roundTrips_of_cutOff .gcr2bin zeroTrack_clean (by decide)
    ⟨by decide, 0, by decide, by decide⟩

end Turn

end GcrDecode
