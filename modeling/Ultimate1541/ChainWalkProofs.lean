import Mathlib

/-! # Following a chain of links

    A library for structures in which every cell names its successor.  `walk`
    is the sequence of cells a reader meets, `Chained` lists a chain that comes
    to an end, and `Acyclic` says that no cell is met twice.  Over finitely many
    cells a chain ends if and only if it is acyclic (`chained_iff_acyclic`). -/

namespace ChainWalk

variable {α : Type} {next next' : α → Option α}

/-- The cell met after `i` steps; `none` once the chain has ended. -/
def walk (next : α → Option α) (start : Option α) : Nat → Option α
  | 0 => start
  | i + 1 => (walk next start i).bind next

/-- No cell is met twice. -/
def Acyclic (next : α → Option α) (start : Option α) : Prop :=
  ∀ i j a, walk next start i = some a → walk next start j = some a → i = j

/-- The chain from `start` is exactly this list. -/
inductive Chained (next : α → Option α) : Option α → List α → Prop where
  | nil : Chained next none []
  | cons {a : α} {as : List α} : Chained next (next a) as → Chained next (some a) (a :: as)

theorem walk_zero (start : Option α) : walk next start 0 = start := rfl

/-- The first step can be taken out. -/
theorem walk_succ (start : Option α) (i : Nat) :
    walk next start (i + 1) = walk next (start.bind next) i := by
  induction i with
  | zero => rfl
  | succ i ih =>
      show (walk next start (i + 1)).bind next = _
      rw [ih]
      rfl

theorem walk_none (i : Nat) : walk next none i = none := by
  induction i with
  | zero => rfl
  | succ i ih =>
      show (walk next none i).bind next = none
      rw [ih]
      rfl

theorem walk_add (start : Option α) (i j : Nat) :
    walk next start (i + j) = walk next (walk next start i) j := by
  induction j with
  | zero => rfl
  | succ j ih =>
      show (walk next start (i + j)).bind next = _
      rw [ih]
      rfl

namespace Chained

theorem walk_eq {o : Option α} {as : List α} (h : Chained next o as) (i : Nat) :
    walk next o i = as[i]? := by
  induction h generalizing i with
  | nil => rw [walk_none, List.getElem?_nil]
  | cons _ ih =>
      cases i with
      | zero => rfl
      | succ i => rw [walk_succ, List.getElem?_cons_succ, ← ih i]; rfl

/-- A chain that ends meets no cell twice. -/
theorem acyclic {o : Option α} {as : List α} (h : Chained next o as) : Acyclic next o := by
  have key : ∀ i d a, walk next o i = some a → walk next o (i + d) = some a → d = 0 := by
    intro i d a hi hd
    have hperiod : ∀ k, walk next o (i + k * d) = some a := by
      intro k
      induction k with
      | zero => rwa [Nat.zero_mul]
      | succ k ih =>
          rw [Nat.succ_mul, ← Nat.add_assoc, walk_add, ih, ← hi, ← walk_add]
          exact hd.trans hi.symm
    by_contra hne
    have hend : walk next o (i + as.length * d) = none := by
      rw [h.walk_eq, List.getElem?_eq_none]
      have : as.length ≤ as.length * d := Nat.le_mul_of_pos_right _ (by omega)
      omega
    rw [hperiod] at hend
    exact nomatch hend
  intro i j a hi hj
  rcases Nat.le_total i j with hle | hle
  · obtain ⟨d, rfl⟩ := Nat.exists_eq_add_of_le hle
    have := key i d a hi hj
    omega
  · obtain ⟨d, rfl⟩ := Nat.exists_eq_add_of_le hle
    have := key j d a hj hi
    omega

end Chained

/-- A chain that reaches its end is a list. -/
theorem exists_chained_of_walk_none :
    ∀ (n : Nat) (start : Option α), walk next start n = none →
      ∃ as : List α, as.length ≤ n ∧ Chained next start as := by
  intro n
  induction n with
  | zero =>
      intro start h
      rw [walk_zero] at h
      subst h
      exact ⟨[], Nat.le_refl _, Chained.nil⟩
  | succ n ih =>
      intro start h
      cases start with
      | none => exact ⟨[], Nat.zero_le _, Chained.nil⟩
      | some a =>
          rw [walk_succ] at h
          obtain ⟨as, hlen, has⟩ := ih _ h
          exact ⟨a :: as, by rw [List.length_cons]; omega, Chained.cons has⟩

/-- An acyclic chain over finitely many cells ends. -/
theorem Acyclic.ends {start : Option α} (h : Acyclic next start) (S : Finset α)
    (hS : ∀ i a, walk next start i = some a → a ∈ S) :
    walk next start S.card = none := by
  by_contra hne
  obtain ⟨b, hb⟩ := Option.ne_none_iff_exists'.mp hne
  have hsome : ∀ i ≤ S.card, ∃ a, walk next start i = some a := by
    intro i hi
    obtain ⟨d, hd⟩ := Nat.exists_eq_add_of_le hi
    cases hx : walk next start i with
    | some a => exact ⟨a, rfl⟩
    | none =>
        rw [hd, walk_add, hx, walk_none] at hb
        cases hb
  have : Nonempty α := ⟨b⟩
  choose! cell hcell using hsome
  have hinj : Set.InjOn cell (Finset.range (S.card + 1)) := by
    intro i hi j hj hij
    have hi' := Nat.le_of_lt_succ (Finset.mem_range.mp hi)
    have hj' := Nat.le_of_lt_succ (Finset.mem_range.mp hj)
    exact h i j (cell i) (hcell i hi') (hij ▸ hcell j hj')
  have hcard := Finset.card_le_card_of_injOn cell
    (fun i hi => hS i _ (hcell i (Nat.le_of_lt_succ (Finset.mem_range.mp hi)))) hinj
  rw [Finset.card_range] at hcard
  omega

/-- Over the cells below `n`, a chain ends if and only if it never comes back
    to a cell. -/
theorem chained_iff_acyclic {next : Nat → Option Nat} {start : Option Nat} {n : Nat}
    (hstart : ∀ a, start = some a → a < n) (hnext : ∀ a b, next a = some b → b < n) :
    (∃ as, Chained next start as) ↔ Acyclic next start := by
  constructor
  · rintro ⟨as, h⟩
    exact h.acyclic
  · intro h
    have hbound : ∀ i a, walk next start i = some a → a ∈ Finset.range n := by
      intro i a ha
      refine Finset.mem_range.mpr ?_
      cases i with
      | zero => exact hstart a ha
      | succ i =>
          obtain ⟨b, -, hb⟩ := Option.bind_eq_some_iff.mp ha
          exact hnext b a hb
    obtain ⟨as, -, has⟩ := exists_chained_of_walk_none _ _ (h.ends _ hbound)
    exact ⟨as, has⟩

end ChainWalk
