import Mathlib

/-! # A memory that is filled by copies of itself

    A memory with a log of its stores: blocks are put into it, and copied within it.  A loop
    that doubles what there is until it reaches a limit leaves the memory periodic; this is
    how small ROM images are repeated over the space that a chip or a cartridge has. -/

/-- A memory, and the offset and length of every store so far. -/
structure Ram where
  bytes : Nat → UInt8
  stores : List (Nat × Nat)

namespace Ram

/-- `data` is stored at `off`. -/
def put (off : Nat) (data : List UInt8) (r : Ram) : Ram where
  bytes a := if off ≤ a ∧ a < off + data.length then data.getD (a - off) 0 else r.bytes a
  stores := r.stores ++ [(off, data.length)]

/-- `memset`. -/
def fill (off len : Nat) (b : UInt8) (r : Ram) : Ram where
  bytes a := if off ≤ a ∧ a < off + len then b else r.bytes a
  stores := r.stores ++ [(off, len)]

/-- `memcpy` of `len` bytes from `src` to `dst`, which do not overlap. -/
def copy (dst src len : Nat) (r : Ram) : Ram where
  bytes a := if dst ≤ a ∧ a < dst + len then r.bytes (src + (a - dst)) else r.bytes a
  stores := r.stores ++ [(dst, len)]

/-- `len` bytes from `off` on. -/
def slice (r : Ram) (off len : Nat) : List UInt8 := (List.range len).map fun i => r.bytes (off + i)

/-- `while (n < limit) { memcpy(base + n * unit, base, n * unit); n <<= 1; }`, in less than
    `fuel` turns. -/
def mirror (base unit limit : Nat) : Nat → Nat → Ram → Option Ram
  | 0, _, _ => none
  | fuel + 1, n, r =>
      if n < limit then mirror base unit limit fuel (2 * n) (r.copy (base + n * unit) base (n * unit))
      else some r

/-- What `n` is when the loop is done. -/
def doubled (limit : Nat) : Nat → Nat → Nat
  | 0, n => n
  | fuel + 1, n => if n < limit then doubled limit fuel (2 * n) else n

/-- Every store is in the first `size` bytes. -/
def Within (size : Nat) (r : Ram) : Prop := ∀ s ∈ r.stores, s.1 + s.2 ≤ size

@[simp] theorem slice_length (r : Ram) (off len : Nat) : (r.slice off len).length = len := by
  simp [slice]

theorem slice_getD (r : Ram) (off : Nat) {len i : Nat} (h : i < len) :
    (r.slice off len).getD i 0 = r.bytes (off + i) := by
  simp [slice, h]

theorem within_append {size : Nat} {bytes : Nat → UInt8} {stores : List (Nat × Nat)} {off len : Nat} :
    Within size ⟨bytes, stores ++ [(off, len)]⟩ ↔ Within size ⟨bytes, stores⟩ ∧ off + len ≤ size := by
  simp [Within, or_imp, forall_and]

theorem within_put {size off : Nat} {data : List UInt8} {r : Ram} :
    Within size (r.put off data) ↔ Within size r ∧ off + data.length ≤ size :=
  within_append

theorem within_fill {size off len : Nat} {b : UInt8} {r : Ram} :
    Within size (r.fill off len b) ↔ Within size r ∧ off + len ≤ size :=
  within_append

theorem within_copy {size dst src len : Nat} {r : Ram} :
    Within size (r.copy dst src len) ↔ Within size r ∧ dst + len ≤ size :=
  within_append

theorem le_doubled (limit fuel n : Nat) : n ≤ doubled limit fuel n := by
  induction fuel generalizing n with
  | zero => exact Nat.le_refl n
  | succ fuel ih =>
      rw [doubled]
      split
      · exact Nat.le_trans (by omega) (ih (2 * n))
      · exact Nat.le_refl n

theorem doubled_of_le {limit n : Nat} (fuel : Nat) (h : limit ≤ n) : doubled limit fuel n = n := by
  cases fuel with
  | zero => rfl
  | succ fuel => rw [doubled, if_neg (Nat.not_lt.mpr h)]

theorem mul_pow_succ (n k : Nat) : n * 2 ^ (k + 1) = 2 * n * 2 ^ k := by
  rw [Nat.pow_succ, Nat.mul_comm 2 n, Nat.mul_assoc, Nat.mul_comm 2]

/-- What `n` is in the end has been doubled some times. -/
theorem doubled_pow (limit fuel n : Nat) : ∃ k, doubled limit fuel n = n * 2 ^ k := by
  induction fuel generalizing n with
  | zero => exact ⟨0, by rw [doubled, Nat.pow_zero, Nat.mul_one]⟩
  | succ fuel ih =>
      rw [doubled]
      split
      · obtain ⟨k, hk⟩ := ih (2 * n)
        exact ⟨k + 1, by rw [hk, mul_pow_succ]⟩
      · exact ⟨0, by rw [Nat.pow_zero, Nat.mul_one]⟩

/-- With enough turns, what `n` is in the end has reached the limit, and not by more than the
    last doubling. -/
theorem doubled_reaches {limit fuel n : Nat} (hfuel : limit ≤ n * 2 ^ fuel) :
    limit ≤ doubled limit fuel n ∧ (n < limit → doubled limit fuel n < 2 * limit) := by
  induction fuel generalizing n with
  | zero =>
      rw [Nat.pow_zero, Nat.mul_one] at hfuel
      exact ⟨hfuel, fun h => absurd hfuel (Nat.not_le.mpr h)⟩
  | succ fuel ih =>
      rw [doubled]
      split
      next hlt =>
        have hnext := ih (n := 2 * n) (mul_pow_succ n fuel ▸ hfuel)
        refine ⟨hnext.1, fun _ => ?_⟩
        by_cases hmore : 2 * n < limit
        · exact hnext.2 hmore
        · rw [doubled_of_le fuel (Nat.not_lt.mp hmore)]
          omega
      next hge => exact ⟨Nat.not_lt.mp hge, fun h => absurd h hge⟩

theorem mirror_some {base unit limit fuel n : Nat} (r : Ram) (hfuel : limit ≤ n * 2 ^ fuel) :
    ∃ r', mirror base unit limit (fuel + 1) n r = some r' := by
  induction fuel generalizing n r with
  | zero =>
      rw [Nat.pow_zero, Nat.mul_one] at hfuel
      exact ⟨r, by rw [mirror, if_neg (Nat.not_lt.mpr hfuel)]⟩
  | succ fuel ih =>
      rw [mirror]
      split
      · exact ih _ (mul_pow_succ n fuel ▸ hfuel)
      · exact ⟨r, rfl⟩

/-- The loop leaves the memory periodic from `base` on, as far as it comes. -/
theorem mirror_bytes {base unit limit fuel n : Nat} {r r' : Ram}
    (h : mirror base unit limit fuel n r = some r') (a : Nat) :
    r'.bytes a =
      if base ≤ a ∧ a < base + doubled limit fuel n * unit then r.bytes (base + (a - base) % (n * unit))
      else r.bytes a := by
  induction fuel generalizing n r with
  | zero => exact nomatch h
  | succ fuel ih =>
      rw [mirror] at h
      rw [doubled]
      split at h
      next hlt =>
        have hle : 2 * n * unit ≤ doubled limit fuel (2 * n) * unit :=
          Nat.mul_le_mul_right unit (le_doubled limit fuel (2 * n))
        have htwo : 2 * n * unit = n * unit + n * unit := by rw [Nat.mul_assoc, Nat.two_mul]
        rw [if_pos hlt, ih h]
        by_cases hin : base ≤ a ∧ a < base + doubled limit fuel (2 * n) * unit
        · rw [if_pos hin, if_pos hin]
          -- One period of the doubled memory is two of the old one.
          have hmod : (a - base) % (n * unit) = (a - base) % (2 * n * unit) % (n * unit) := by
            rw [Nat.mod_mod_of_dvd _ ⟨2, by rw [htwo]; omega⟩]
          by_cases hzero : n * unit = 0
          · simp [copy, hzero, htwo]
          · have hpos : 0 < 2 * n * unit := by omega
            have hrest := Nat.mod_lt (a - base) hpos
            rw [hmod]
            generalize (a - base) % (2 * n * unit) = x at hrest
            by_cases hfirst : x < n * unit
            · rw [Nat.mod_eq_of_lt hfirst, copy]
              exact if_neg (by omega)
            · rw [Nat.mod_eq_sub_mod (by omega), Nat.mod_eq_of_lt (by omega), copy]
              refine (if_pos (by omega)).trans (congrArg r.bytes ?_)
              omega
        · rw [if_neg hin, if_neg hin, copy]
          exact if_neg (by omega)
      next hge =>
        cases h
        rw [if_neg hge]
        split
        next hin => rw [Nat.mod_eq_of_lt (by omega), Nat.add_sub_cancel' hin.1]
        · rfl

/-- The last store of the loop is the one that goes farthest. -/
theorem mirror_within {size base unit limit fuel n : Nat} {r r' : Ram}
    (h : mirror base unit limit fuel n r = some r') :
    Within size r' ↔ Within size r ∧ (n < limit → base + doubled limit fuel n * unit ≤ size) := by
  induction fuel generalizing n r with
  | zero => exact nomatch h
  | succ fuel ih =>
      rw [mirror] at h
      rw [doubled]
      split at h
      next hlt =>
        have htwo : 2 * n * unit = n * unit + n * unit := by rw [Nat.mul_assoc, Nat.two_mul]
        have hle : 2 * n * unit ≤ doubled limit fuel (2 * n) * unit :=
          Nat.mul_le_mul_right unit (le_doubled limit fuel (2 * n))
        rw [if_pos hlt, ih h, within_copy]
        by_cases hmore : 2 * n < limit
        · simp only [hmore, hlt, true_implies, and_assoc]
          constructor
          · exact fun hall => ⟨hall.1, hall.2.2⟩
          · exact fun hall => ⟨hall.1, by omega, hall.2⟩
        · rw [doubled_of_le fuel (Nat.not_lt.mp hmore)]
          simp only [hmore, hlt, true_implies, false_implies, and_true]
          rw [htwo]
          constructor
          · exact fun hall => ⟨hall.1, by omega⟩
          · exact fun hall => ⟨hall.1, by omega⟩
      next hge =>
        cases h
        exact ⟨fun hall => ⟨hall, fun hlt => absurd hlt hge⟩, fun hall => hall.1⟩

end Ram
