import Ultimate1541.GcrDecodeProofs

/-! # Reading a rotated track

    A track that starts anywhere in the stream of bits is read in bytes that
    straddle two bytes of the stream (`splice`).  A sync is still found where one
    ends, the block behind it tells by how many bits it is off, and `wrap` puts
    its bytes together again: the decoder reads the bytes of the stream
    (`Turned.wrap_eq`), unless it starts to read behind the end of the track. -/

namespace GcrDecode

/-! ## Bytes across two bytes -/

/-- The byte that starts `k` bits into the byte `a` and goes on in the byte `b`. -/
def splice (k : Nat) (a b : UInt8) : UInt8 :=
  UInt8.ofNat ((256 * a.toNat + b.toNat) / 2 ^ (8 - k))

theorem splice_toNat (k : Nat) (a b : UInt8) :
    (splice k a b).toNat = (256 * a.toNat + b.toNat) / 2 ^ (8 - k) % 256 := UInt8.toNat_ofNat'

theorem splice_zero (a b : UInt8) : splice 0 a b = a := by
  apply UInt8.toNat_inj.mp
  have ha := a.toNat_lt
  have hb := b.toNat_lt
  rw [splice_toNat]
  omega

theorem toNat_eq_ff {a : UInt8} : a.toNat = 255 ↔ a = 0xFF :=
  ⟨fun h => UInt8.toNat_inj.mp h, fun h => congrArg UInt8.toNat h⟩

/-- Two bytes `FF` in a row: the byte in the middle is `FF`, and the next one starts
    with a one. -/
theorem splice_ff_ff {k : Nat} (hpos : 0 < k) (hk : k < 8) {a b c : UInt8}
    (hab : splice k a b = 0xFF) (hbc : splice k b c = 0xFF) : b = 0xFF ∧ 128 ≤ c.toNat := by
  have ha := a.toNat_lt
  have hb := b.toNat_lt
  have hc := c.toNat_lt
  rw [← toNat_eq_ff, splice_toNat] at hab hbc
  rw [← toNat_eq_ff]
  interval_cases k <;> omega

theorem splice_self_ff {k : Nat} (hk : k < 8) : splice k 0xFF 0xFF = 0xFF := by
  interval_cases k <;> rfl

/-- A byte that starts in `FF` and goes on in a byte with the top bit clear is not
    `FF`. -/
theorem splice_ne_ff {k : Nat} (hpos : 0 < k) (hk : k < 8) (a : UInt8) {b : UInt8}
    (hb : b.toNat < 128) : splice k a b ≠ 0xFF := by
  have ha := a.toNat_lt
  rw [Ne, ← toNat_eq_ff, splice_toNat]
  interval_cases k <;> omega

theorem shl_toNat (b : UInt8) (k : Nat) : (shl b k).toNat = b.toNat * 2 ^ k % 256 := by
  rw [shl, UInt8.toNat_ofNat', Nat.shiftLeft_eq]

theorem shr_toNat {b : UInt8} (k : Nat) : (shr b k).toNat = b.toNat / 2 ^ k := by
  have hlt : b.toNat / 2 ^ k < 256 := Nat.lt_of_le_of_lt (Nat.div_le_self _ _) b.toNat_lt
  rw [shr, UInt8.toNat_ofNat', Nat.shiftRight_eq_div_pow, Nat.mod_eq_of_lt hlt]

/-- Two bytes across `b` put together again. -/
theorem shl_or_shr_splice {k : Nat} (hpos : 0 < k) (hk : k < 8) (a b c : UInt8) :
    shl (splice k a b) (8 - k) ||| shr (splice k b c) k = b := by
  have ha := a.toNat_lt
  have hb := b.toNat_lt
  have hc := c.toNat_lt
  apply UInt8.toNat_inj.mp
  -- The upper bits come from the first byte, the lower ones from the second.
  have hlow : (shr (splice k b c) k).toNat = b.toNat % 2 ^ (8 - k) := by
    rw [shr_toNat, splice_toNat]
    interval_cases k <;> omega
  have hhigh : (shl (splice k a b) (8 - k)).toNat = (b.toNat / 2 ^ (8 - k)) <<< (8 - k) := by
    rw [shl_toNat, splice_toNat, Nat.shiftLeft_eq]
    interval_cases k <;> omega
  rw [UInt8.toNat_or, hlow, hhigh,
    ← Nat.shiftLeft_add_eq_or_of_lt (Nat.mod_lt _ (Nat.two_pow_pos _)), Nat.shiftLeft_eq,
    Nat.div_add_mod']

/-- The bit shift of a byte is the number of ones at its top. -/
theorem shiftLoop_splice {k : Nat} (hpos : 0 < k) (hk : k < 8) {b : UInt8} (hb : b.toNat < 128) :
    Track.shiftLoop 8 (splice k 0xFF b).toNat = 8 - k := by
  have hall : ∀ k < 8, 0 < k → ∀ n < 128,
      Track.shiftLoop 8 ((256 * 255 + n) / 2 ^ (8 - k) % 256) = 8 - k := by
    decide +kernel
  rw [splice_toNat]
  exact hall k hk hpos b.toNat hb

theorem shiftLoop_of_lt {n : Nat} (h : n < 128) : Track.shiftLoop 8 n = 0 := by
  rw [Track.shiftLoop, if_neg (by omega)]

/-! ## Copying around the end -/

namespace Track

theorem copyPos_eq {t : Track} (hlen : 0 < t.len) {s : Nat} (hs : s ≤ t.len) (i : Nat) :
    t.copyPos s i = (s + i) % t.len := by
  have hturn : ∀ n, n < t.len → t.turn (n + 1) = (n + 1) % t.len := by
    intro n hn
    rw [turn]
    split
    · next h => rw [h, Nat.mod_self]
    · rw [Nat.mod_eq_of_lt (by omega)]
  induction i with
  | zero =>
      rw [copyPos, turn, Nat.add_zero]
      split
      · next h => rw [h, Nat.mod_self]
      · rw [Nat.mod_eq_of_lt (by omega)]
  | succ i ih =>
      rw [copyPos, ih, hturn _ (Nat.mod_lt _ hlen), Nat.mod_add_mod, Nat.add_assoc]

theorem byte_copyPos {t : Track} (hlen : 0 < t.len) {s : Nat} (hs : s ≤ t.len) (i : Nat) :
    t.byte (t.copyPos s i) = t.unrolled (s + i) := by
  rw [copyPos_eq hlen hs, unrolled]

/-- Whole bytes are read around the end of the track. -/
theorem wrap_zero {t : Track} (hlen : 0 < t.len) {q count i : Nat} (hq : q ≤ t.len)
    (hi : i < count) : t.wrap q count 0 i = t.unrolled (q + i) := by
  rw [wrap, if_pos rfl]
  by_cases h : q + count > t.len
  · rw [if_pos h, byte_copyPos hlen hq]
  · rw [if_neg h, t.unrolled_of_lt (by omega)]

/-- Shifted bytes are, too, when the first one is on the track. -/
theorem wrap_shift {t : Track} {q count shift : Nat} (hq : q < t.len) (hshift : shift ≠ 0)
    (i : Nat) :
    t.wrap q count shift i
      = shl (t.unrolled (q + i)) shift ||| shr (t.unrolled (q + i + 1)) (8 - shift) := by
  have hcopy := byte_copyPos (t := t) (s := q + 1) (by omega) hq
  rw [wrap, if_neg hshift, hcopy, show q + 1 + i = q + i + 1 by omega]
  cases i with
  | zero =>
      rw [curByte, ← t.unrolled_of_lt hq]
      rfl
  | succ i => rw [curByte, hcopy, show q + 1 + i = q + (i + 1) by omega]

end Track

/-! ## A rotated stream -/

/-- The track holds the endless stream `b`, from `k` bits into byte `a` on. -/
structure Turned (t : Track) (b : Nat → UInt8) (a k : Nat) : Prop where
  len_pos : 0 < t.len
  lt_eight : k < 8
  periodic : ∀ x, b (x + t.len) = b x
  byte : ∀ j, j < t.len → t.byte j = splice k (b (j + a)) (b (j + a + 1))

/-- Byte 0 of the track belongs to the stream byte before this one, if it is off by
    some bits, and else to this one. -/
def lead (a k : Nat) : Nat := if k = 0 then a else a + 1

namespace Turned

variable {t : Track} {b : Nat → UInt8} {a k : Nat}

theorem periodic_mul (h : Turned t b a k) (x m : Nat) : b (x + t.len * m) = b x := by
  induction m with
  | zero => rfl
  | succ m ih => rw [Nat.mul_succ, ← Nat.add_assoc, h.periodic, ih]

theorem periodic_mod (h : Turned t b a k) (u i : Nat) : b (u % t.len + i) = b (u + i) := by
  rw [← h.periodic_mul (u % t.len + i) (u / t.len)]
  congr 1
  have := Nat.mod_add_div u t.len
  omega

theorem unrolled_eq (h : Turned t b a k) (u : Nat) :
    t.unrolled u = splice k (b (u + a)) (b (u + a + 1)) := by
  rw [Track.unrolled, h.byte _ (Nat.mod_lt u h.len_pos), h.periodic_mod, Nat.add_assoc,
    h.periodic_mod, Nat.add_assoc]

/-- `wrap` with the right shift reads the stream. -/
theorem wrap_eq (h : Turned t b a k) {q count : Nat} (hq : q ≤ t.len)
    (hend : k = 0 ∨ q ≠ t.len) {i : Nat} (hi : i < count) :
    t.wrap q count (if k = 0 then 0 else 8 - k) i = b (q + lead a k + i) := by
  by_cases hk : k = 0
  · subst hk
    rw [if_pos rfl, Track.wrap_zero h.len_pos hq hi, h.unrolled_eq, splice_zero, lead, if_pos rfl]
    congr 1
    omega
  · have hlt := h.lt_eight
    rw [if_neg hk, Track.wrap_shift (by omega) (by omega), h.unrolled_eq, h.unrolled_eq,
      show q + i + 1 + a = q + i + a + 1 by omega, show 8 - (8 - k) = k by omega,
      shl_or_shr_splice (by omega) hlt, lead, if_neg hk]
    congr 1
    omega

end Turned

/-! ## A framed stream -/

/-- A stream of blocks, each behind a sync: block `i` starts at `pos i`. -/
structure Framed (b : Nat → UInt8) (pos : Nat → Nat) : Prop where
  /-- Five bytes of sync. -/
  sync : ∀ i j, pos i ≤ j + 5 → j < pos i → b j = 0xFF
  /-- The block starts with a zero. -/
  first : ∀ i, (b (pos i)).toNat < 128
  /-- Nothing else could be taken for a sync. -/
  only : ∀ x, b x = 0xFF → 128 ≤ (b (x + 1)).toNat → ∃ i, x + 2 ≤ pos i ∧ pos i ≤ x + 5

namespace Turned

variable {t : Track} {b : Nat → UInt8} {pos : Nat → Nat} {a k : Nat}

/-- The decoder finds a sync where a block starts. -/
theorem syncEnds_iff (h : Turned t b a k) (hf : Framed b pos) {c u : Nat} :
    SyncEnds t.unrolled c u ↔ c + 2 ≤ u ∧ ∃ i, u + lead a k = pos i := by
  have hk := h.lt_eight
  rw [SyncEnds]
  refine and_congr_right fun hcu => ?_
  rw [h.unrolled_eq, h.unrolled_eq, h.unrolled_eq]
  have h1 : u - 1 + a + 1 = u + a := by omega
  have h2 : u - 2 + a + 1 = u - 1 + a := by omega
  rw [h1, h2]
  constructor
  · rintro ⟨hne, hff1, hff2⟩
    by_cases hzero : k = 0
    · subst hzero
      rw [splice_zero] at hne hff1 hff2
      obtain ⟨i, hlo, hhi⟩ := hf.only (u - 2 + a) hff2 (by
        rw [h2, hff1]
        decide)
      refine ⟨i, ?_⟩
      rw [lead, if_pos rfl]
      by_contra hnot
      exact hne (hf.sync i (u + a) (by omega) (by omega))
    · obtain ⟨hmid, htop⟩ := splice_ff_ff (by omega) hk hff2 hff1
      obtain ⟨i, hlo, hhi⟩ := hf.only (u - 1 + a) hmid (h1 ▸ htop)
      refine ⟨i, ?_⟩
      rw [lead, if_neg hzero]
      by_contra hnot
      refine hne ?_
      rw [hf.sync i (u + a) (by omega) (by omega), hf.sync i (u + a + 1) (by omega) (by omega)]
      exact splice_self_ff hk
  · rintro ⟨i, hi⟩
    by_cases hzero : k = 0
    · subst hzero
      rw [lead, if_pos rfl] at hi
      rw [splice_zero, splice_zero, splice_zero]
      refine ⟨fun hff => ?_, hf.sync i _ (by omega) (by omega), hf.sync i _ (by omega) (by omega)⟩
      have := hf.first i
      rw [← hi, hff] at this
      exact absurd this (by decide)
    · rw [lead, if_neg hzero] at hi
      have hsync : ∀ j, pos i ≤ j + 5 → j < pos i → b j = 0xFF := hf.sync i
      rw [show u + a + 1 = pos i by omega]
      refine ⟨splice_ne_ff (by omega) hk _ (hf.first i), ?_, ?_⟩
      · rw [hsync _ (by omega) (by omega), hsync _ (by omega) (by omega)]
        exact splice_self_ff hk
      · rw [hsync _ (by omega) (by omega), hsync _ (by omega) (by omega)]
        exact splice_self_ff hk

/-- The bit shift found at a block. -/
theorem shift_eq (h : Turned t b a k) (hf : Framed b pos) {u i : Nat}
    (hu : u + lead a k = pos i) :
    t.shift (u % t.len) = if k = 0 then 0 else 8 - k := by
  have hfirst := hf.first i
  have hbyte : t.byte (u % t.len) = splice k (b (u + a)) (b (u + a + 1)) := h.unrolled_eq u
  rw [Track.shift, hbyte]
  by_cases hzero : k = 0
  · subst hzero
    rw [lead, if_pos rfl] at hu
    rw [splice_zero, if_pos rfl, hu]
    exact shiftLoop_of_lt hfirst
  · rw [lead, if_neg hzero] at hu
    rw [if_neg hzero, show u + a + 1 = pos i by omega, hf.sync i (u + a) (by omega) (by omega)]
    exact shiftLoop_splice (by omega) h.lt_eight hfirst

/-- The first bytes of a block. -/
theorem head_eq (h : Turned t b a k) (hf : Framed b pos) (d : Decoder) {u i : Nat}
    (hu : u + lead a k = pos i) (j : Nat) :
    t.head d (u % t.len) j = conv5 d (fun m => b (pos i + m)) j := by
  rw [Track.head]
  refine conv5_congr d (fun m hm => ?_) j
  have hlt := Nat.mod_lt u h.len_pos
  rw [h.shift_eq hf hu, h.wrap_eq (Nat.le_of_lt hlt) (Or.inr (Nat.ne_of_lt hlt)) hm, Nat.add_assoc,
    h.periodic_mod, ← hu, Nat.add_assoc]

/-- What follows in it, when its first bytes do not end where the track does. -/
theorem rest_eq (h : Turned t b a k) (hf : Framed b pos) (d : Decoder) {u i : Nat}
    (hu : u + lead a k = pos i) (hlen : 5 < t.len) (hend : k = 0 ∨ u % t.len + 5 ≠ t.len)
    {count j : Nat} (hj : 5 * (j / 4) + 5 ≤ count) :
    t.rest d (u % t.len) count j = convBlock d (fun m => b (pos i + 5 + m)) j := by
  have hlt := Nat.mod_lt u h.len_pos
  rw [Track.rest, convBlock, convBlock]
  refine conv5_congr d (fun m hm => ?_) _
  have hnext : t.wrapNext (u % t.len) 5 ≤ t.len ∧ (k = 0 ∨ t.wrapNext (u % t.len) 5 ≠ t.len) ∧
      ∀ x, b (t.wrapNext (u % t.len) 5 + x) = b (u + 5 + x) := by
    rw [Track.wrapNext]
    by_cases hover : u % t.len + 5 > t.len
    · rw [if_pos hover]
      refine ⟨by omega, Or.inr (by omega), fun x => ?_⟩
      rw [← h.periodic, show u % t.len + 5 - t.len + x + t.len = u % t.len + (5 + x) by omega,
        h.periodic_mod, Nat.add_assoc]
    · rw [if_neg hover]
      refine ⟨by omega, hend, fun x => ?_⟩
      rw [Nat.add_assoc, h.periodic_mod, Nat.add_assoc]
  rw [h.shift_eq hf hu, h.wrap_eq hnext.1 hnext.2.1 (by omega), Nat.add_assoc, hnext.2.2, ← hu]
  congr 1
  omega

end Turned

end GcrDecode
