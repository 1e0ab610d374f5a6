import Ultimate1541.GcrImageProofs
import Ultimate1541.LoopProofs

/-! # Decoding a GCR track

    `convert_gcr_track_to_bin` goes over a track from sync to sync.  The block
    behind a sync starts with a mark: 8 for the header of a sector, 7 for its
    data, which goes to where the last header said.

    The scan is a state and a step (`Scan`, `step`): one step is one round of
    the loop, and the loop ends where there is no step. -/

namespace GcrDecode

/-! ## The code -/

/-- `gcr_table`. -/
def gcrTable (v : Nat) : Nat :=
  [0x0A, 0x0B, 0x12, 0x13, 0x0E, 0x0F, 0x16, 0x17,
   0x09, 0x19, 0x1A, 0x1B, 0x0D, 0x1D, 0x1E, 0x15].getD v 0

/-- The GCR decoder: five bits to four, and right on the codes of `gcr_table`. -/
structure Decoder where
  nibble : Nat → Nat
  nibble_lt : ∀ code, nibble code < 16
  nibble_gcrTable : ∀ v < 16, nibble (gcrTable v) = v

/-- The decoder of `gcr2bin.vhd`: 0 for what is no code. -/
def Decoder.gcr2bin : Decoder where
  nibble code := ((List.range 16).find? fun v => gcrTable v == code).getD 0
  nibble_lt code := by
    cases h : (List.range 16).find? fun v => gcrTable v == code with
    | none => decide
    | some v => exact List.mem_range.mp (List.mem_of_find?_eq_some h)
  nibble_gcrTable := by decide

/-- The 40 bits of five bytes. -/
def word40 (b : Nat → UInt8) : Nat :=
  (((((b 0).toNat * 256 + (b 1).toNat) * 256 + (b 2).toNat) * 256 + (b 3).toNat) * 256
    + (b 4).toNat)

/-- The code at place `i` of 40 bits, the first at the top. -/
def code (w i : Nat) : Nat := w / 2 ^ (35 - 5 * i) % 32

/-- `conv_5bytes_gcr2bin`: the byte `GCR_DECODER_BIN_OUT0` to `GCR_DECODER_BIN_OUT3`. -/
def conv5 (d : Decoder) (b : Nat → UInt8) (j : Nat) : UInt8 :=
  UInt8.ofNat (16 * d.nibble (code (word40 b) (2 * j)) + d.nibble (code (word40 b) (2 * j + 1)))

/-- Decoding looks at five bytes. -/
theorem conv5_congr (d : Decoder) {b c : Nat → UInt8} (h : ∀ i < 5, b i = c i) (j : Nat) :
    conv5 d b j = conv5 d c j := by
  have hword : word40 b = word40 c := by
    rw [word40, word40, h 0 (by decide), h 1 (by decide), h 2 (by decide), h 3 (by decide),
      h 4 (by decide)]
  rw [conv5, conv5, hword]

/-- The bytes of `conv_5bytes_gcr2bin` over and over. -/
def convBlock (d : Decoder) (b : Nat → UInt8) (k : Nat) : UInt8 :=
  conv5 d (fun i => b (5 * (k / 4) + i)) (k % 4)

/-- `b << k`. -/
def shl (b : UInt8) (k : Nat) : UInt8 := UInt8.ofNat (b.toNat <<< k)

/-- `b >> k`. -/
def shr (b : UInt8) (k : Nat) : UInt8 := UInt8.ofNat (b.toNat >>> k)

/-! ## The track -/

/-- A track in memory: the bytes from its address on, those behind its end
    included, and its length. -/
structure Track where
  byte : Nat → UInt8
  len : Nat

/-- The outcome of a pass of `find_sync`: the byte after a sync, or the number
    of `FF` bytes at the end. -/
inductive Pass where
  | found (q : Nat)
  | count (k : Nat)
  deriving DecidableEq, Repr

/-- A pass of `find_sync` over the next `n` bytes. -/
def syncPass (b : Nat → UInt8) : Nat → Nat → Nat → Pass
  | 0, _, syncCount => .count syncCount
  | n + 1, i, syncCount =>
      if b i = 0xFF then syncPass b n (i + 1) (syncCount + 1)
      else if 2 ≤ syncCount then .found i
      else syncPass b n (i + 1) 0

namespace Track

/-- `find_sync`. -/
def findSync (t : Track) (gcrData : Nat) : Option Nat :=
  match syncPass t.byte (t.len - gcrData) gcrData 0 with
  | .found q => some q
  | .count syncCount =>
      match syncPass t.byte t.len 0 syncCount with
      | .found q => some q
      | .count _ => none

/-- `if (s == end) s = begin`. -/
def turn (t : Track) (s : Nat) : Nat := if s = t.len then 0 else s

/-- Where the copying loop of `wrap` reads its byte `i`. -/
def copyPos (t : Track) (s : Nat) : Nat → Nat
  | 0 => t.turn s
  | i + 1 => t.turn (copyPos t s i + 1)

/-- The byte of the track whose lower bits `curByte` holds before byte `i` is put
    together. -/
def curByte (t : Track) (gcr : Nat) : Nat → UInt8
  | 0 => t.byte gcr
  | i + 1 => t.byte (t.copyPos (gcr + 1) i)

/-- `wrap`: the bytes at the decode pointer. -/
def wrap (t : Track) (gcr count shift : Nat) (i : Nat) : UInt8 :=
  if shift = 0 then
    if gcr + count > t.len then t.byte (t.copyPos gcr i) else t.byte (gcr + i)
  else shl (t.curByte gcr i) shift ||| shr (t.byte (t.copyPos (gcr + 1) i)) (8 - shift)

/-- `wrap`: the new position. -/
def wrapNext (t : Track) (gcr count : Nat) : Nat :=
  if gcr + count > t.len then gcr + count - t.len else gcr + count

/-- The loop that shifts the first byte until its top bit is clear. -/
def shiftLoop : Nat → Nat → Nat
  | 0, _ => 0
  | n + 1, firstByte => if 128 ≤ firstByte then shiftLoop n (firstByte * 2 % 256) + 1 else 0

/-- The bit shift of the block at a sync. -/
def shift (t : Track) (q : Nat) : Nat := shiftLoop 8 (t.byte q).toNat

/-- `header[0..3]`: the first bytes of the block at a sync. -/
def head (t : Track) (d : Decoder) (q : Nat) : Nat → UInt8 := conv5 d (t.wrap q 5 (t.shift q))

/-- What follows the first bytes of a block. -/
def rest (t : Track) (d : Decoder) (q count : Nat) : Nat → UInt8 :=
  convBlock d (t.wrap (t.wrapNext q 5) count (t.shift q))

/-- The mark of the block at a sync. -/
def mark (t : Track) (d : Decoder) (q : Nat) : UInt8 := t.head d q 0

/-- `s`, the sector number of a header. -/
def headerSector (t : Track) (d : Decoder) (q : Nat) : Nat := (t.head d q 2).toNat

/-- `t`, the track number of a header. -/
def headerTrack (t : Track) (d : Decoder) (q : Nat) : Nat := (t.head d q 3).toNat

/-- The position after a header block. -/
def headerEnd (t : Track) (q : Nat) : Nat := t.wrapNext (t.wrapNext q 5) 5

/-- The data bytes of the block at a sync, the checksum behind them. -/
def data (t : Track) (d : Decoder) (q : Nat) (i : Nat) : UInt8 :=
  if i < 3 then t.head d q (i + 1) else t.rest d q 320 (i - 3)

/-- The position after a data block. -/
def dataEnd (t : Track) (q : Nat) : Nat := t.wrapNext (t.wrapNext q 5) 320

end Track

/-! ## The scan -/

/-- What is asked of the decoder: the track number, the number of sectors and the
    address of the binary data. -/
structure Request where
  trackNumber : Nat
  maxSector : Nat
  bin : Nat

/-- The scan of a track: memory, the status bytes written and the room for more,
    and the variables of the loop. -/
structure Scan where
  mem : Nat → UInt8
  status : List UInt8
  statlen : Nat
  current : Nat
  expectData : Bool
  wrapped : Bool
  secs : Nat
  dest : Nat

/-- The scan before the first round. -/
def Scan.start (mem : Nat → UInt8) (statlen : Nat) : Scan :=
  { mem := mem, status := [], statlen := statlen, current := 0, expectData := false,
    wrapped := false, secs := 0, dest := 0 }

namespace Scan

/-- `*(st++) = b; statlen--`, if there is room. -/
def put (s : Scan) (b : UInt8) : Scan :=
  if 0 < s.statlen then { s with status := s.status ++ [b], statlen := s.statlen - 1 } else s

/-- An error in the header: no data is expected, if there is room to say so. -/
def reject (s : Scan) (b : UInt8) : Scan :=
  if 0 < s.statlen then { s.put b with expectData := false } else s

/-- `0xE4` for a header where data was expected. -/
def putExpected (s : Scan) : Scan := if s.expectData then s.put 0xE4 else s

/-- `current = pntr`, if data is expected. -/
def moveTo (s : Scan) (pntr : Nat) : Scan := if s.expectData then { s with current := pntr } else s

/-- A header of sector `n` of track `t`. -/
def header (r : Request) (t n pntr : Nat) (s : Scan) : Scan :=
  let s := { s.putExpected.put (UInt8.ofNat n) with expectData := true, dest := r.bin + 256 * n }
  (if t ≠ r.trackNumber then s.reject 0xE1
    else if r.maxSector ≤ n then s.reject 0xE2 else s).moveTo pntr

/-- 256 bytes stored at `dest`. -/
def store (mem : Nat → UInt8) (dest : Nat) (b : Nat → UInt8) : Nat → UInt8 :=
  fun a => if dest ≤ a ∧ a < dest + 256 then b (a - dest) else mem a

/-- The checksum of the 256 bytes at `dest`. -/
def checksum (mem : Nat → UInt8) (dest : Nat) : UInt8 :=
  (List.range 256).foldl (fun chk i => chk ^^^ mem (dest + i)) 0

/-- A data block with the bytes `b` and the checksum behind them. -/
def dataBlock (b : Nat → UInt8) (pntr : Nat) (s : Scan) : Scan :=
  let s := { s with expectData := false, secs := s.secs + 1, mem := store s.mem s.dest b }
  if 0 < s.statlen then
    if checksum s.mem s.dest ≠ b 256 then s.put 0xE3 else { s.put 0 with current := pntr }
  else s

/-- The block at the sync `q`. -/
def block (d : Decoder) (t : Track) (r : Request) (q : Nat) (s : Scan) : Scan :=
  if t.mark d q = 8 then s.header r (t.headerTrack d q) (t.headerSector d q) (t.headerEnd q)
  else if t.mark d q = 7 ∧ s.expectData then s.dataBlock (t.data d q) (t.dataEnd q)
  else s

end Scan

/-- One round of the loop. -/
def step (d : Decoder) (t : Track) (r : Request) (s : Scan) : Option Scan :=
  if s.secs < r.maxSector then
    match t.findSync s.current with
    | none => none
    | some q =>
        if q < s.current ∧ s.wrapped then none
        else some ({ s with current := q, wrapped := s.wrapped || decide (q < s.current) }.block
          d t r q)
  else none

/-- The loop ends. -/
def Terminates (d : Decoder) (t : Track) (r : Request) (s : Scan) : Prop := Loop.Ends (step d t r) s

/-! ## The status bytes -/

namespace Scan

theorem put_of_room {s : Scan} (h : 0 < s.statlen) (b : UInt8) :
    s.put b = { s with status := s.status ++ [b], statlen := s.statlen - 1 } := by
  rw [put, if_pos h]

theorem put_of_full {s : Scan} (h : s.statlen = 0) (b : UInt8) : s.put b = s := by
  rw [put, if_neg (by omega)]

@[simp] theorem put_mem (s : Scan) (b : UInt8) : (s.put b).mem = s.mem := by
  rw [put]; split <;> rfl

@[simp] theorem put_current (s : Scan) (b : UInt8) : (s.put b).current = s.current := by
  rw [put]; split <;> rfl

@[simp] theorem put_expectData (s : Scan) (b : UInt8) : (s.put b).expectData = s.expectData := by
  rw [put]; split <;> rfl

@[simp] theorem put_wrapped (s : Scan) (b : UInt8) : (s.put b).wrapped = s.wrapped := by
  rw [put]; split <;> rfl

@[simp] theorem put_secs (s : Scan) (b : UInt8) : (s.put b).secs = s.secs := by
  rw [put]; split <;> rfl

@[simp] theorem put_statlen (s : Scan) (b : UInt8) : (s.put b).statlen = s.statlen - 1 := by
  rw [put]
  split
  · rfl
  · omega

/-- The scan after the sector number of a header is noted. -/
def noted (n : Nat) (s : Scan) : Scan := s.putExpected.put (UInt8.ofNat n)

@[simp] theorem noted_mem (n : Nat) (s : Scan) : (s.noted n).mem = s.mem := by
  rw [noted, putExpected]; split <;> simp

@[simp] theorem noted_current (n : Nat) (s : Scan) : (s.noted n).current = s.current := by
  rw [noted, putExpected]; split <;> simp

@[simp] theorem noted_wrapped (n : Nat) (s : Scan) : (s.noted n).wrapped = s.wrapped := by
  rw [noted, putExpected]; split <;> simp

@[simp] theorem noted_secs (n : Nat) (s : Scan) : (s.noted n).secs = s.secs := by
  rw [noted, putExpected]; split <;> simp

theorem noted_statlen (n : Nat) (s : Scan) :
    (s.noted n).statlen = s.statlen - if s.expectData then 2 else 1 := by
  rw [noted, putExpected]
  split
  · rw [put_statlen, put_statlen, Nat.sub_sub]
  · rw [put_statlen]

/-- The error of a header that is not of the track or has no sector of it. -/
def headerError (r : Request) (t : Nat) : UInt8 := if t ≠ r.trackNumber then 0xE1 else 0xE2

/-- A header that data is expected for: a right one, or one that there is no room
    to reject. -/
theorem header_accepted {r : Request} {t n pntr : Nat} {s : Scan}
    (h : (t = r.trackNumber ∧ n < r.maxSector) ∨ (s.noted n).statlen = 0) :
    s.header r t n pntr
      = { s.noted n with expectData := true, dest := r.bin + 256 * n, current := pntr } := by
  show (if t ≠ r.trackNumber then
      { s.noted n with expectData := true, dest := r.bin + 256 * n }.reject 0xE1
    else if r.maxSector ≤ n then
      { s.noted n with expectData := true, dest := r.bin + 256 * n }.reject 0xE2
    else { s.noted n with expectData := true, dest := r.bin + 256 * n }).moveTo pntr = _
  rcases h with ⟨ht, hn⟩ | hfull
  · rw [if_neg (not_not.mpr ht), if_neg (by omega), moveTo, if_pos rfl]
  · have hreject : ∀ b, ({ s.noted n with expectData := true, dest := r.bin + 256 * n } :
        Scan).reject b = { s.noted n with expectData := true, dest := r.bin + 256 * n } :=
      fun b => if_neg (by show ¬ 0 < (s.noted n).statlen; omega)
    rw [hreject, hreject, ite_self, ite_self, moveTo, if_pos rfl]

/-- A header that is rejected. -/
theorem header_rejected {r : Request} {t n pntr : Nat} {s : Scan}
    (h : ¬ (t = r.trackNumber ∧ n < r.maxSector)) (hroom : 0 < (s.noted n).statlen) :
    s.header r t n pntr
      = { (s.noted n).put (headerError r t) with
          expectData := false, dest := r.bin + 256 * n } := by
  have hreject : ∀ b, ({ s.noted n with expectData := true, dest := r.bin + 256 * n } :
      Scan).reject b
        = { (s.noted n).put b with expectData := false, dest := r.bin + 256 * n } := by
    intro b
    rw [reject, if_pos hroom, put, put, if_pos hroom, if_pos hroom]
  show (if t ≠ r.trackNumber then
      { s.noted n with expectData := true, dest := r.bin + 256 * n }.reject 0xE1
    else if r.maxSector ≤ n then
      { s.noted n with expectData := true, dest := r.bin + 256 * n }.reject 0xE2
    else { s.noted n with expectData := true, dest := r.bin + 256 * n }).moveTo pntr = _
  rw [hreject, hreject, headerError]
  by_cases ht : t ≠ r.trackNumber
  · rw [if_pos ht, if_pos ht, moveTo, if_neg Bool.false_ne_true]
  · rw [if_neg ht, if_neg ht, if_pos (by by_contra hn; exact h ⟨not_not.mp ht, by omega⟩), moveTo,
      if_neg Bool.false_ne_true]

theorem dataBlock_mem (b : Nat → UInt8) (pntr : Nat) (s : Scan) :
    (s.dataBlock b pntr).mem = store s.mem s.dest b := by
  rw [dataBlock]
  dsimp only
  split
  · split <;> exact put_mem _ _
  · rfl

theorem dataBlock_expectData (b : Nat → UInt8) (pntr : Nat) (s : Scan) :
    (s.dataBlock b pntr).expectData = false := by
  rw [dataBlock]
  dsimp only
  split
  · split <;> exact put_expectData _ _
  · rfl

theorem dataBlock_secs (b : Nat → UInt8) (pntr : Nat) (s : Scan) :
    (s.dataBlock b pntr).secs = s.secs + 1 := by
  rw [dataBlock]
  dsimp only
  split
  · split <;> exact put_secs _ _
  · rfl

/-- The three things a block is. -/
theorem block_header {d : Decoder} {t : Track} {r : Request} {q : Nat} {s : Scan}
    (h : t.mark d q = 8) :
    s.block d t r q = s.header r (t.headerTrack d q) (t.headerSector d q) (t.headerEnd q) := by
  rw [block, if_pos h]

theorem block_data {d : Decoder} {t : Track} {r : Request} {q : Nat} {s : Scan}
    (h : t.mark d q = 7) (hexpect : s.expectData = true) :
    s.block d t r q = s.dataBlock (t.data d q) (t.dataEnd q) := by
  rw [block, if_neg (by rw [h]; decide), if_pos ⟨h, hexpect⟩]

theorem block_other {d : Decoder} {t : Track} {r : Request} {q : Nat} {s : Scan}
    (h : t.mark d q ≠ 8) (h' : ¬ (t.mark d q = 7 ∧ s.expectData = true)) :
    s.block d t r q = s := by
  rw [block, if_neg h, if_neg h']

/-- The scan when a sync was found at `q`. -/
def found (q : Nat) (s : Scan) : Scan :=
  { s with current := q, wrapped := s.wrapped || decide (q < s.current) }

end Scan

/-- A round finds a sync and goes over the block behind it. -/
theorem step_eq_some {d : Decoder} {t : Track} {r : Request} {s s' : Scan} :
    step d t r s = some s' ↔ s.secs < r.maxSector ∧ ∃ q, t.findSync s.current = some q ∧
      ¬ (q < s.current ∧ s.wrapped = true) ∧ (s.found q).block d t r q = s' := by
  rw [step]
  by_cases hsecs : s.secs < r.maxSector
  · rw [if_pos hsecs]
    cases hq : t.findSync s.current with
    | none => exact ⟨(fun h => nomatch h), fun ⟨_, q, h, _⟩ => nomatch h⟩
    | some q =>
        dsimp only
        by_cases hwrap : q < s.current ∧ s.wrapped = true
        · rw [if_pos hwrap]
          refine ⟨(fun h => nomatch h), ?_⟩
          rintro ⟨_, q', h, hnot, _⟩
          exact absurd (Option.some.inj h ▸ hwrap) hnot
        · rw [if_neg hwrap]
          constructor
          · exact fun h => ⟨hsecs, q, rfl, hwrap, Option.some.inj h⟩
          · rintro ⟨_, q', h, _, hblock⟩
            cases h
            exact congrArg some hblock
  · rw [if_neg hsecs]
    exact ⟨(fun h => nomatch h), fun h => absurd h.1 hsecs⟩

/-! ## Finding a sync -/

/-- A sync ends before place `u` for a scan that started at `c`. -/
def SyncEnds (b : Nat → UInt8) (c u : Nat) : Prop :=
  c + 2 ≤ u ∧ b u ≠ 0xFF ∧ b (u - 1) = 0xFF ∧ b (u - 2) = 0xFF

/-- The number of `FF` bytes just before place `i`, as far as it matters. -/
structure CountedAt (b : Nat → UInt8) (c i k : Nat) : Prop where
  from_le : c ≤ i
  one : 1 ≤ k ↔ c + 1 ≤ i ∧ b (i - 1) = 0xFF
  two : 2 ≤ k ↔ c + 2 ≤ i ∧ b (i - 1) = 0xFF ∧ b (i - 2) = 0xFF

theorem countedAt_start (b : Nat → UInt8) (c : Nat) : CountedAt b c c 0 := by
  refine ⟨Nat.le_refl c, ?_, ?_⟩ <;> constructor
  · exact fun h => absurd h (by decide)
  · exact fun h => absurd h.1 (by omega)
  · exact fun h => absurd h (by decide)
  · exact fun h => absurd h.1 (by omega)

theorem CountedAt.succ {b : Nat → UInt8} {c i k : Nat} (h : CountedAt b c i k)
    (hb : b i = 0xFF) : CountedAt b c (i + 1) (k + 1) := by
  have hone := h.one
  refine ⟨Nat.le_succ_of_le h.from_le, ?_, ?_⟩ <;> constructor
  · exact fun _ => ⟨Nat.succ_le_succ h.from_le, hb⟩
  · exact fun _ => Nat.succ_le_succ (Nat.zero_le k)
  · intro hk
    obtain ⟨hle, hprev⟩ := hone.mp (by omega)
    exact ⟨by omega, hb, hprev⟩
  · intro ⟨hle, _, hprev⟩
    have : 1 ≤ k := hone.mpr ⟨by omega, hprev⟩
    omega

theorem CountedAt.reset {b : Nat → UInt8} {c i k : Nat} (h : CountedAt b c i k)
    (hb : b i ≠ 0xFF) : CountedAt b c (i + 1) 0 := by
  refine ⟨Nat.le_succ_of_le h.from_le, ?_, ?_⟩ <;> constructor
  · exact fun h => absurd h (by decide)
  · exact fun h => absurd h.2 hb
  · exact fun h => absurd h (by decide)
  · exact fun h => absurd h.2.1 hb

/-- What a pass finds. -/
theorem syncPass_spec {b : Nat → UInt8} {c : Nat} (n i k : Nat) (h : CountedAt b c i k) :
    (∃ q, syncPass b n i k = .found q ∧ q < i + n ∧ SyncEnds b c q ∧
      ∀ v, i ≤ v → v < q → ¬ SyncEnds b c v) ∨
    (∃ k', syncPass b n i k = .count k' ∧ CountedAt b c (i + n) k' ∧
      ∀ v, i ≤ v → v < i + n → ¬ SyncEnds b c v) := by
  induction n generalizing i k with
  | zero => exact Or.inr ⟨k, rfl, h, fun v hv hv' => absurd hv (by omega)⟩
  | succ n ih =>
      -- What holds of the places from `i + 1` on holds from `i` on, if no sync ends at `i`.
      have extend : ∀ {m}, ¬ SyncEnds b c i → (∀ v, i + 1 ≤ v → v < m → ¬ SyncEnds b c v) →
          ∀ v, i ≤ v → v < m → ¬ SyncEnds b c v := by
        intro m hi hm v hv hvm
        rcases Nat.eq_or_lt_of_le hv with rfl | hlt
        · exact hi
        · exact hm v hlt hvm
      rw [syncPass]
      by_cases hb : b i = 0xFF
      · rw [if_pos hb]
        have hi : ¬ SyncEnds b c i := fun hs => hs.2.1 hb
        rcases ih (i + 1) (k + 1) (h.succ hb) with ⟨q, hq, hlt, hs, hmin⟩ | ⟨k', hk, hc, hmin⟩
        · exact Or.inl ⟨q, hq, by omega, hs, extend hi hmin⟩
        · rw [show i + 1 + n = i + (n + 1) by omega] at hc hmin
          exact Or.inr ⟨k', hk, hc, extend hi hmin⟩
      · rw [if_neg hb]
        by_cases hk : 2 ≤ k
        · rw [if_pos hk]
          have hs := h.two.mp hk
          exact Or.inl ⟨i, rfl, by omega, ⟨hs.1, hb, hs.2⟩, fun v hv hv' => absurd hv (by omega)⟩
        · rw [if_neg hk]
          have hi : ¬ SyncEnds b c i := fun hs => hk (h.two.mpr ⟨hs.1, hs.2.2⟩)
          rcases ih (i + 1) 0 (h.reset hb) with ⟨q, hq, hlt, hs, hmin⟩ | ⟨k', hk, hc, hmin⟩
          · exact Or.inl ⟨q, hq, by omega, hs, extend hi hmin⟩
          · rw [show i + 1 + n = i + (n + 1) by omega] at hc hmin
            exact Or.inr ⟨k', hk, hc, extend hi hmin⟩

/-- `m` places on. -/
def Pass.shift (m : Nat) : Pass → Pass
  | .found q => .found (q + m)
  | .count k => .count k

/-- A pass over the same bytes elsewhere. -/
theorem syncPass_shift {b b' : Nat → UInt8} {m : Nat} (n i k : Nat)
    (h : ∀ j, j < i + n → b' (j + m) = b j) :
    syncPass b' n (i + m) k = (syncPass b n i k).shift m := by
  induction n generalizing i k with
  | zero => rfl
  | succ n ih =>
      have hn : ∀ j, j < i + 1 + n → b' (j + m) = b j := fun j hj => h j (by omega)
      rw [syncPass, syncPass, h i (by omega), show i + m + 1 = i + 1 + m by omega, ih _ _ hn,
        ih _ _ hn]
      by_cases hb : b i = 0xFF
      · rw [if_pos hb, if_pos hb]
      · rw [if_neg hb, if_neg hb]
        by_cases hk : 2 ≤ k
        · rw [if_pos hk, if_pos hk]
          rfl
        · rw [if_neg hk, if_neg hk]

namespace Track

/-- The track read over and over. -/
def unrolled (t : Track) (u : Nat) : UInt8 := t.byte (u % t.len)

theorem unrolled_of_lt (t : Track) {u : Nat} (h : u < t.len) : t.unrolled u = t.byte u := by
  rw [unrolled, Nat.mod_eq_of_lt h]

theorem unrolled_add_len (t : Track) (u : Nat) : t.unrolled (u + t.len) = t.unrolled u := by
  rw [unrolled, unrolled, Nat.add_mod_right]

/-- `find_sync` on the unrolled track: the first sync on the rest of the track and
    the whole track after it. -/
theorem findSync_spec (t : Track) {c : Nat} (hc : c ≤ t.len) :
    (∃ u, t.findSync c = some (u % t.len) ∧ u < 2 * t.len ∧ SyncEnds t.unrolled c u ∧
      ∀ v, v < u → ¬ SyncEnds t.unrolled c v) ∨
    (t.findSync c = none ∧ ∀ v, v < 2 * t.len → ¬ SyncEnds t.unrolled c v) := by
  have early : ∀ {m}, (∀ v, c ≤ v → v < m → ¬ SyncEnds t.unrolled c v) →
      ∀ v, v < m → ¬ SyncEnds t.unrolled c v := by
    intro m hm v hv hs
    exact hm v (by have := hs.1; omega) hv hs
  -- The passes of the code are passes over the unrolled track.
  have hfirst : syncPass t.byte (t.len - c) c 0 = syncPass t.unrolled (t.len - c) c 0 := by
    have h := syncPass_shift (b := t.unrolled) (m := 0) (t.len - c) c 0
      (fun j hj => (t.unrolled_of_lt (by omega)).symm)
    rw [Nat.add_zero] at h
    rw [h]
    cases syncPass t.unrolled (t.len - c) c 0 <;> rfl
  have hsecond : ∀ k, syncPass t.unrolled t.len (0 + t.len) k
      = (syncPass t.byte t.len 0 k).shift t.len := fun k =>
    syncPass_shift t.len 0 k fun j hj => by
      rw [t.unrolled_add_len, t.unrolled_of_lt (by omega)]
  rw [findSync, hfirst]
  rcases syncPass_spec (t.len - c) c 0 (countedAt_start t.unrolled c) with
    ⟨q, hq, hlt, hs, hmin⟩ | ⟨k, hk, hcount, hmin⟩
  · have hq' : q < t.len := by omega
    exact Or.inl ⟨q, by rw [hq, Nat.mod_eq_of_lt hq'], by omega, hs, early hmin⟩
  · rw [show c + (t.len - c) = t.len by omega] at hcount hmin
    rw [hk]
    dsimp only
    have hpass := hsecond k
    rw [Nat.zero_add] at hpass
    rcases syncPass_spec t.len t.len k hcount with ⟨u, hu, hlt, hs, hmin'⟩ | ⟨k', hk', _, hmin'⟩
    · rw [hu] at hpass
      cases hp : syncPass t.byte t.len 0 k with
      | count k' =>
          rw [hp] at hpass
          exact nomatch hpass
      | found q =>
          rw [hp] at hpass
          have huq : u = q + t.len := Pass.found.inj hpass
          refine Or.inl ⟨u, ?_, by omega, hs, ?_⟩
          · rw [huq, Nat.add_mod_right, Nat.mod_eq_of_lt (by omega)]
          · intro v hv
            by_cases hvl : v < t.len
            · exact early hmin v hvl
            · exact hmin' v (by omega) hv
    · rw [hk'] at hpass
      cases hp : syncPass t.byte t.len 0 k with
      | found q =>
          rw [hp] at hpass
          exact nomatch hpass
      | count k'' =>
          refine Or.inr ⟨rfl, ?_⟩
          intro v hv
          by_cases hvl : v < t.len
          · exact early hmin v hvl
          · exact hmin' v (by omega) (by omega)

/-- The first sync is found. -/
theorem findSync_eq (t : Track) {c u : Nat} (hc : c ≤ t.len) (hu : u < 2 * t.len)
    (hs : SyncEnds t.unrolled c u) (hmin : ∀ v, v < u → ¬ SyncEnds t.unrolled c v) :
    t.findSync c = some (u % t.len) := by
  rcases t.findSync_spec hc with ⟨u', h, _, hs', hmin'⟩ | ⟨_, hnone⟩
  · have hle : ¬ u < u' := fun hlt => hmin' u hlt hs
    have hge : ¬ u' < u := fun hlt => hmin u' hlt hs'
    rw [h, show u' = u by omega]
  · exact absurd hs (hnone u hu)

end Track

end GcrDecode
