import Mathlib

/-! # Bytes, bit masks and fixed-size buffers

    A small library for programs that keep bitmaps and records in byte arrays:
    testing, setting and clearing one bit of a byte, and buffers of a fixed
    size with `get`, `set`, a block copy into the buffer (`blit`) and a copy
    out of it (`slice`).  Nothing here refers to a particular program. -/

namespace ByteBuffer

/-! ## One bit of a byte -/

/-- The value `1 << b`. -/
def bitMask (b : Nat) : UInt8 := 1 <<< UInt8.ofNat b

/-- `v & (1 << b)` as a condition. -/
def hasBit (v : UInt8) (b : Nat) : Bool := v &&& bitMask b != 0

theorem bitMask_toBitVec {b : Nat} (hb : b < 8) :
    (bitMask b).toBitVec = BitVec.twoPow 8 b := by
  unfold bitMask
  interval_cases b <;> rfl

theorem hasBit_eq (v : UInt8) {b : Nat} (hb : b < 8) :
    hasBit v b = v.toBitVec.getLsbD b := by
  have hmask : (v &&& bitMask b != 0) = ((v.toBitVec &&& BitVec.twoPow 8 b) != 0#8) := by
    rw [← bitMask_toBitVec hb, ← UInt8.toBitVec_and, Bool.eq_iff_iff]
    simp only [bne_iff_ne, ne_eq, ← UInt8.toBitVec_inj]
    rfl
  unfold hasBit
  rw [hmask, BitVec.and_twoPow]
  cases v.toBitVec.getLsbD b with
  | false => rfl
  | true => interval_cases b <;> rfl

/-- Setting bit `b` sets bit `b` and no other. -/
theorem hasBit_or (v : UInt8) {b c : Nat} (hb : b < 8) (hc : c < 8) :
    hasBit (v ||| bitMask b) c = (hasBit v c || decide (b = c)) := by
  rw [hasBit_eq _ hc, hasBit_eq _ hc, UInt8.toBitVec_or, bitMask_toBitVec hb,
    BitVec.getLsbD_or, BitVec.getLsbD_twoPow]
  simp [hb]

/-- Clearing bit `b` clears bit `b` and no other. -/
theorem hasBit_clear (v : UInt8) {b c : Nat} (hb : b < 8) (hc : c < 8) :
    hasBit (v &&& ~~~bitMask b) c = (hasBit v c && !decide (b = c)) := by
  rw [hasBit_eq _ hc, hasBit_eq _ hc, UInt8.toBitVec_and, UInt8.toBitVec_not,
    bitMask_toBitVec hb, BitVec.getLsbD_and, BitVec.getLsbD_not, BitVec.getLsbD_twoPow]
  simp [hb, hc]

/-- `(v >> b) & 1` is the same condition as `v & (1 << b)`. -/
theorem shift_and_one (v : UInt8) {b : Nat} (hb : b < 8) :
    ((v >>> UInt8.ofNat b) &&& 1 != 0) = hasBit v b := by
  have hbits : ∀ b : Fin 8, ∀ n : Fin 256,
      ((UInt8.ofNat n >>> UInt8.ofNat b) &&& 1 != 0) = hasBit (UInt8.ofNat n) b := by
    decide +kernel
  have := hbits ⟨b, hb⟩ ⟨v.toNat, v.toNat_lt⟩
  simpa using this

@[simp] theorem hasBit_zero {b : Nat} (hb : b < 8) : hasBit 0 b = false := by
  rw [hasBit_eq _ hb]
  simp

/-! ## Buffers -/

/-- A buffer of exactly `n` bytes. -/
def Buffer (n : Nat) : Type := Fin n → UInt8

namespace Buffer

variable {n : Nat}

/-- The buffer a `memset` to zero leaves. -/
def zero : Buffer n := fun _ => 0

/-- The byte at an index; zero beyond the end. -/
def get (b : Buffer n) (i : Nat) : UInt8 := if h : i < n then b ⟨i, h⟩ else 0

/-- Store one byte. -/
def set (b : Buffer n) (i : Nat) (v : UInt8) : Buffer n :=
  fun j => if j.val = i then v else b j

/-- Copy `src` into the buffer at offset `off`. -/
def blit (b : Buffer n) (off : Nat) (src : List UInt8) : Buffer n :=
  fun j => if off ≤ j.val ∧ j.val < off + src.length then src.getD (j.val - off) 0 else b j

/-- The `len` bytes from offset `off` on. -/
def slice (b : Buffer n) (off len : Nat) : List UInt8 :=
  (List.range' off len).map b.get

theorem get_eq (b : Buffer n) {i : Nat} (h : i < n) : b.get i = b ⟨i, h⟩ := dif_pos h

@[simp] theorem get_zero (i : Nat) : (zero : Buffer n).get i = 0 := by
  unfold get zero
  split <;> rfl

theorem get_set (b : Buffer n) {i : Nat} (hi : i < n) (j : Nat) (v : UInt8) :
    (b.set i v).get j = if j = i then v else b.get j := by
  unfold get set
  by_cases hj : j < n
  · simp only [dif_pos hj]
  · have hne : j ≠ i := by omega
    simp only [dif_neg hj, if_neg hne]

@[simp] theorem get_set_self (b : Buffer n) {i : Nat} (hi : i < n) (v : UInt8) :
    (b.set i v).get i = v := by
  rw [get_set b hi, if_pos rfl]

theorem get_set_of_ne (b : Buffer n) {i j : Nat} (h : j ≠ i) (v : UInt8) :
    (b.set i v).get j = b.get j := by
  unfold get set
  simp only [if_neg h]

theorem get_blit_inside (b : Buffer n) {off i : Nat} {src : List UInt8} (h1 : off ≤ i)
    (h2 : i < off + src.length) (h3 : i < n) :
    (b.blit off src).get i = src.getD (i - off) 0 := by
  rw [get_eq _ h3]
  exact if_pos ⟨h1, h2⟩

theorem get_blit_outside (b : Buffer n) {off i : Nat} {src : List UInt8}
    (h : i < off ∨ off + src.length ≤ i) : (b.blit off src).get i = b.get i := by
  unfold get
  by_cases h3 : i < n
  · rw [dif_pos h3, dif_pos h3]
    refine if_neg ?_
    show ¬ (off ≤ i ∧ i < off + src.length)
    omega
  · rw [dif_neg h3, dif_neg h3]

@[simp] theorem length_slice (b : Buffer n) (off len : Nat) :
    (b.slice off len).length = len := by
  simp [slice]

theorem getElem_slice (b : Buffer n) {off len i : Nat} (h : i < (b.slice off len).length) :
    (b.slice off len)[i] = b.get (off + i) := by
  simp [slice]

theorem slice_congr {m : Nat} {b : Buffer n} {c : Buffer m} {off len : Nat}
    (h : ∀ i, off ≤ i → i < off + len → b.get i = c.get i) :
    b.slice off len = c.slice off len := by
  refine List.map_congr_left ?_
  intro i hi
  rw [List.mem_range'_1] at hi
  exact h i hi.1 hi.2

/-- A slice is the concatenation of its two parts. -/
theorem slice_add (b : Buffer n) (off l₁ l₂ : Nat) :
    b.slice off (l₁ + l₂) = b.slice off l₁ ++ b.slice (off + l₁) l₂ := by
  unfold slice
  rw [← List.map_append, List.range'_append_1]

theorem take_slice (b : Buffer n) {off len k : Nat} (h : k ≤ len) :
    (b.slice off len).take k = b.slice off k := by
  obtain ⟨d, rfl⟩ := Nat.exists_eq_add_of_le h
  rw [slice_add, List.take_left' (length_slice ..)]

theorem drop_slice (b : Buffer n) {off len k : Nat} (h : k ≤ len) :
    (b.slice off len).drop k = b.slice (off + k) (len - k) := by
  obtain ⟨d, rfl⟩ := Nat.exists_eq_add_of_le h
  rw [slice_add, List.drop_left' (length_slice ..), Nat.add_sub_cancel_left]

/-- What was copied in is what is copied out. -/
theorem slice_blit (b : Buffer n) {off : Nat} {src : List UInt8} (h : off + src.length ≤ n) :
    (b.blit off src).slice off src.length = src := by
  refine List.ext_getElem (length_slice ..) ?_
  intro i h1 h2
  rw [getElem_slice, get_blit_inside b (by omega) (by omega) (by omega),
    Nat.add_sub_cancel_left]
  simp [h2]

/-- A slice away from the copied range is unchanged. -/
theorem slice_blit_outside (b : Buffer n) {off len o : Nat} {src : List UInt8}
    (h : o + len ≤ off ∨ off + src.length ≤ o) :
    (b.blit off src).slice o len = b.slice o len := by
  refine slice_congr ?_
  intro i h1 h2
  exact get_blit_outside b (by omega)

theorem slice_set_outside (b : Buffer n) {i o len : Nat} (v : UInt8)
    (h : i < o ∨ o + len ≤ i) : (b.set i v).slice o len = b.slice o len := by
  refine slice_congr ?_
  intro j h1 h2
  exact get_set_of_ne b (by omega) v

end Buffer

end ByteBuffer
