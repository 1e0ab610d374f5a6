import Mathlib

/-! # Sorting an indexed list

    `IndexedList::sort` is a comb sort.  It compares elements that are a gap apart and swaps
    those that stand the wrong way round, with a gap that shrinks by ten thirteenths a pass,
    and goes on with the gap one until a pass swaps nothing.

    Above one the gap gets smaller with every pass, also where 9 and 10 are made 11.  At one
    every swap takes away an inversion.  So the passes end, and the last of them has compared
    all neighbours.

    The gap is ten times taken in an `int`.  A list long enough for the product not to fit
    has no defined result. -/

/-! ## The source -/

/-- `IndexedList`: the elements, each with its removal flag, and what an index outside them
    reads. -/
structure IndexedList (T : Type) where
  slots : List (T × UInt8)
  empty : T

namespace IndexedList

variable {T : Type}

/-- `get_elements`. -/
def elements (list : IndexedList T) : Nat := list.slots.length

/-- `operator[]`. -/
def get (list : IndexedList T) (i : Nat) : T := (list.slots[i]?.map Prod.fst).getD list.empty

/-- `swap`: the element and its flag. -/
def swap (list : IndexedList T) (i j : Nat) : IndexedList T :=
  { list with slots := list.slots.swap i j }

/-- The largest `int`. -/
def intMax : Nat := 2147483647

/-- The gap of the next pass.  `10 * gap` is an `int`, and there is no gap where it does not
    fit. -/
def nextGap (gap : Nat) : Option Nat :=
  if gap ≤ 1 then some gap
  else if intMax < 10 * gap then none
  else
    let gap := 10 * gap / 13
    some (if gap = 10 ∨ gap = 9 then 11 else gap)

section Loop

variable (compare : IndexedList T → Nat → Nat → Int)

/-- `for(i=0,swaps=0;(i+gap)<elements;i++)`, with `n` rounds to go. -/
def comb (gap : Nat) : (n i swaps : Nat) → IndexedList T → Nat × IndexedList T
  | 0, _, swaps, list => (swaps, list)
  | n + 1, i, swaps, list =>
      if 0 < compare list i (i + gap) then
        comb gap n (i + 1) (swaps + 1) (list.swap i (i + gap))
      else comb gap n (i + 1) swaps list

/-- What a call has come to: it is still running, the gap did not fit, or it has returned. -/
inductive Outcome (T : Type)
  | running
  | overflow
  | returned (list : IndexedList T)

/-- `do … while(swaps || (gap > 1))`, in at most `fuel` rounds. -/
def sortLoop : (fuel gap : Nat) → IndexedList T → Outcome T
  | 0, _, _ => .running
  | fuel + 1, gap, list =>
      match nextGap gap with
      | none => .overflow
      | some gap =>
          let pass := comb compare gap (list.elements - gap) 0 0 list
          if pass.1 ≠ 0 ∨ 1 < gap then sortLoop fuel gap pass.2 else .returned pass.2

/-- `sort`. -/
def sort (fuel : Nat) (list : IndexedList T) : Outcome T :=
  if list.elements < 2 then .returned list else sortLoop compare fuel (list.elements - 1) list

end Loop

/-! ## What it is for -/

/-- The callback compares the two elements by a total preorder. -/
structure Orders (compare : IndexedList T → Nat → Nat → Int) (order : T → T → Int) : Prop where
  reads : ∀ list i j, i < list.elements → j < list.elements →
    compare list i j = order (list.get i) (list.get j)
  total : ∀ a b, order a b ≤ 0 ∨ order b a ≤ 0
  trans : ∀ a b c, order a b ≤ 0 → order b c ≤ 0 → order a c ≤ 0

/-- The list has been sorted into `out`: from some number of rounds on the call has returned
    it, it holds the same elements with their flags, and none compares greater than its
    successor. -/
structure SortedTo (compare : IndexedList T → Nat → Nat → Int) (list out : IndexedList T) :
    Prop where
  returns : ∃ least, ∀ fuel, least ≤ fuel → sort compare fuel list = .returned out
  perm : out.slots.Perm list.slots
  ordered : ∀ i, i + 1 < out.elements → compare out i (i + 1) ≤ 0

/-! ## The gap -/

theorem nextGap_one : nextGap 1 = some 1 := rfl

/-- Above one the gap shrinks. -/
theorem nextGap_lt {gap next : Nat} (hgap : 1 < gap) (h : nextGap gap = some next) :
    0 < next ∧ next < gap := by
  rw [nextGap, if_neg (by omega)] at h
  by_cases hmax : intMax < 10 * gap
  · rw [if_pos hmax] at h
    exact absurd h (by simp)
  · rw [if_neg hmax] at h
    have hnext := Option.some.inj h
    by_cases h11 : 10 * gap / 13 = 10 ∨ 10 * gap / 13 = 9
    · rw [if_pos h11] at hnext
      omega
    · rw [if_neg h11] at hnext
      omega

/-- It is defined where its product fits. -/
theorem nextGap_isSome {gap : Nat} (h : 10 * gap ≤ intMax) : ∃ next, nextGap gap = some next := by
  by_cases hgap : gap ≤ 1
  · exact ⟨gap, if_pos hgap⟩
  · rw [nextGap, if_neg hgap, if_neg (by omega)]
    exact ⟨_, rfl⟩

/-! ## A pass -/

theorem elements_swap (list : IndexedList T) (i j : Nat) :
    (list.swap i j).elements = list.elements :=
  (List.swap_perm list.slots i j).length_eq

theorem get_eq (list : IndexedList T) {i : Nat} (h : i < list.slots.length) :
    list.get i = list.slots[i].1 := by
  rw [get, List.getElem?_eq_getElem h]
  rfl

section Pass

variable {compare : IndexedList T → Nat → Nat → Int} {order : T → T → Int}

/-- A pass only moves slots. -/
theorem comb_perm (gap : Nat) : ∀ (n i swaps : Nat) (list : IndexedList T),
    (comb compare gap n i swaps list).2.slots.Perm list.slots := by
  intro n
  induction n with
  | zero =>
    intro i swaps list
    exact List.Perm.refl _
  | succ n ih =>
    intro i swaps list
    rw [comb]
    by_cases h : 0 < compare list i (i + gap)
    · rw [if_pos h]
      exact (ih _ _ _).trans (List.swap_perm _ _ _)
    · rw [if_neg h]
      exact ih _ _ _

/-- The swaps are counted up. -/
theorem le_comb (gap : Nat) : ∀ (n i swaps : Nat) (list : IndexedList T),
    swaps ≤ (comb compare gap n i swaps list).1 := by
  intro n
  induction n with
  | zero =>
    intro i swaps list
    exact Nat.le_refl _
  | succ n ih =>
    intro i swaps list
    rw [comb]
    by_cases h : 0 < compare list i (i + gap)
    · rw [if_pos h]
      exact Nat.le_trans (Nat.le_succ _) (ih _ _ _)
    · rw [if_neg h]
      exact ih _ _ _

/-- A pass without a swap leaves the list and has found every pair in order. -/
theorem comb_still (gap : Nat) : ∀ (n i swaps : Nat) (list : IndexedList T),
    (comb compare gap n i swaps list).1 = swaps →
    (comb compare gap n i swaps list).2 = list ∧
      ∀ j, i ≤ j → j < i + n → compare list j (j + gap) ≤ 0 := by
  intro n
  induction n with
  | zero =>
    intro i swaps list _
    exact ⟨rfl, fun j hij hj => by omega⟩
  | succ n ih =>
    intro i swaps list hstill
    rw [comb] at hstill ⊢
    by_cases h : 0 < compare list i (i + gap)
    · rw [if_pos h] at hstill
      have := @le_comb T compare gap n (i + 1) (swaps + 1) (list.swap i (i + gap))
      omega
    · rw [if_neg h] at hstill ⊢
      obtain ⟨hlist, hrest⟩ := ih _ _ _ hstill
      refine ⟨hlist, ?_⟩
      intro j hij hj
      by_cases hji : j = i
      · rw [hji]
        exact Int.not_lt.mp h
      · exact hrest j (by omega) (by omega)

/-! ## Inversions -/

/-- The pairs that stand the wrong way round. -/
def inversions (order : T → T → Int) : List (T × UInt8) → Nat
  | [] => 0
  | a :: slots => slots.countP (fun b => 0 < order a.1 b.1) + inversions order slots

/-- To swap neighbours that stand the wrong way round takes one away. -/
theorem inversions_swap (h : Orders compare order) : ∀ (slots : List (T × UInt8)) (i : Nat)
    (hi : i + 1 < slots.length),
    0 < order (slots.get ⟨i, Nat.lt_of_succ_lt hi⟩).1 slots[i + 1].1 →
    inversions order (slots.swap i (i + 1)) < inversions order slots := by
  intro slots
  induction slots with
  | nil =>
    intro i hi
    exact absurd hi (Nat.not_lt_zero _)
  | cons a slots ih =>
    intro i hi hgt
    cases i with
    | zero =>
      cases slots with
      | nil => exact absurd hi (by simp)
      | cons b rest =>
        have hab : 0 < order a.1 b.1 := hgt
        have hba : ¬ 0 < order b.1 a.1 := by
          cases h.total a.1 b.1 with
          | inl hle => omega
          | inr hle => omega
        simp [inversions, hab, hba]
        omega
    | succ i =>
      have hlt := ih i (Nat.lt_of_succ_lt_succ hi) hgt
      have hcount := (List.swap_perm slots i (i + 1)).countP_eq
        (fun b => decide (0 < order a.1 b.1))
      rw [List.swap_cons, inversions, inversions, hcount]
      omega

/-- At the gap one a pass takes away an inversion for each of its swaps. -/
theorem comb_inversions (h : Orders compare order) : ∀ (n i swaps : Nat) (list : IndexedList T),
    i + n + 1 ≤ list.elements →
    inversions order (comb compare 1 n i swaps list).2.slots
        + (comb compare 1 n i swaps list).1
      ≤ inversions order list.slots + swaps := by
  intro n
  induction n with
  | zero =>
    intro i swaps list _
    exact Nat.le_refl _
  | succ n ih =>
    intro i swaps list hn
    rw [comb]
    by_cases hgt : 0 < compare list i (i + 1)
    · rw [if_pos hgt]
      have hi : i + 1 < list.slots.length := by
        change i + 1 < list.elements
        omega
      have horder : 0 < order (list.slots[i]).1 (list.slots[i + 1]).1 := by
        rw [h.reads list i (i + 1) (Nat.lt_of_succ_lt hi) hi, get_eq list (Nat.lt_of_succ_lt hi),
          get_eq list hi] at hgt
        exact hgt
      have hswap : inversions order (list.swap i (i + 1)).slots < inversions order list.slots :=
        inversions_swap h list.slots i hi horder
      have hrest := ih (i + 1) (swaps + 1) (list.swap i (i + 1)) (by
        rw [elements_swap]
        omega)
      omega
    · rw [if_neg hgt]
      exact ih (i + 1) swaps list (by omega)

end Pass

/-! ## The passes -/

section Passes

variable {compare : IndexedList T → Nat → Nat → Int} {order : T → T → Int}

/-- From some number of rounds on the loop has returned `out`. -/
def LoopEnds (compare : IndexedList T → Nat → Nat → Int) (gap : Nat) (list out : IndexedList T) :
    Prop :=
  ∃ least, ∀ fuel, least ≤ fuel → sortLoop compare fuel gap list = .returned out

/-- A pass that is not the last. -/
theorem loopEnds_round {gap next : Nat} {list out : IndexedList T} (hnext : nextGap gap = some next)
    (hgo : (comb compare next (list.elements - next) 0 0 list).1 ≠ 0 ∨ 1 < next)
    (h : LoopEnds compare next (comb compare next (list.elements - next) 0 0 list).2 out) :
    LoopEnds compare gap list out := by
  obtain ⟨least, hleast⟩ := h
  refine ⟨least + 1, ?_⟩
  intro fuel hfuel
  cases fuel with
  | zero => exact absurd hfuel (Nat.not_succ_le_zero _)
  | succ fuel =>
    simp only [sortLoop, hnext, if_pos hgo]
    exact hleast fuel (Nat.le_of_succ_le_succ hfuel)

/-- The last pass. -/
theorem loopEnds_last {gap next : Nat} {list : IndexedList T} (hnext : nextGap gap = some next)
    (hstop : ¬ ((comb compare next (list.elements - next) 0 0 list).1 ≠ 0 ∨ 1 < next)) :
    LoopEnds compare gap list (comb compare next (list.elements - next) 0 0 list).2 := by
  refine ⟨1, ?_⟩
  intro fuel hfuel
  cases fuel with
  | zero => exact absurd hfuel (Nat.not_succ_le_zero _)
  | succ fuel => simp only [sortLoop, hnext, if_neg hstop]

theorem elements_comb (gap n i swaps : Nat) (list : IndexedList T) :
    (comb compare gap n i swaps list).2.elements = list.elements :=
  (comb_perm gap n i swaps list).length_eq

/-- At the gap one the passes end, and the list is in order. -/
theorem ends_at_one (h : Orders compare order) : ∀ (bound : Nat) (list : IndexedList T),
    inversions order list.slots < bound → 2 ≤ list.elements →
    ∃ out, LoopEnds compare 1 list out ∧ out.slots.Perm list.slots ∧
      ∀ i, i + 1 < out.elements → compare out i (i + 1) ≤ 0 := by
  intro bound
  induction bound with
  | zero =>
    intro list hlt
    exact absurd hlt (Nat.not_lt_zero _)
  | succ bound ih =>
    intro list hlt htwo
    have hperm := @comb_perm T compare 1 (list.elements - 1) 0 0 list
    by_cases hgo : (comb compare 1 (list.elements - 1) 0 0 list).1 ≠ 0
    · have hinv := comb_inversions h (list.elements - 1) 0 0 list (by omega)
      obtain ⟨out, hends, hout, hordered⟩ := ih (comb compare 1 (list.elements - 1) 0 0 list).2
        (by omega) (by
          rw [elements_comb]
          exact htwo)
      exact ⟨out, loopEnds_round nextGap_one (Or.inl hgo) hends, hout.trans hperm, hordered⟩
    · obtain ⟨hlist, hpairs⟩ := comb_still 1 (list.elements - 1) 0 0 list (not_not.mp hgo)
      have hlast := @loopEnds_last T compare 1 1 list nextGap_one (by
        rintro (hswaps | hone)
        · exact hgo hswaps
        · exact absurd hone (by simp))
      rw [hlist] at hlast
      refine ⟨list, hlast, List.Perm.refl _, ?_⟩
      intro i hi
      exact hpairs i (Nat.zero_le _) (by omega)

/-- The passes end from every gap whose product fits. -/
theorem ends (h : Orders compare order) : ∀ (bound gap : Nat) (list : IndexedList T),
    gap < bound → 0 < gap → 10 * gap ≤ intMax → 2 ≤ list.elements →
    ∃ out, LoopEnds compare gap list out ∧ out.slots.Perm list.slots ∧
      ∀ i, i + 1 < out.elements → compare out i (i + 1) ≤ 0 := by
  intro bound
  induction bound with
  | zero =>
    intro gap list hlt
    exact absurd hlt (Nat.not_lt_zero _)
  | succ bound ih =>
    intro gap list hlt hpos hmax htwo
    by_cases hone : gap = 1
    · rw [hone]
      exact ends_at_one h _ list (Nat.lt_succ_self _) htwo
    · have hgap : 1 < gap := by omega
      obtain ⟨next, hnext⟩ := nextGap_isSome hmax
      obtain ⟨hnpos, hnlt⟩ := nextGap_lt hgap hnext
      have hperm := @comb_perm T compare next (list.elements - next) 0 0 list
      have htwo' : 2 ≤ (comb compare next (list.elements - next) 0 0 list).2.elements := by
        rw [elements_comb]
        exact htwo
      by_cases hgo : (comb compare next (list.elements - next) 0 0 list).1 ≠ 0 ∨ 1 < next
      · have hfits : 10 * next ≤ intMax :=
          Nat.le_trans (Nat.mul_le_mul_left 10 (Nat.le_of_lt hnlt)) hmax
        obtain ⟨out, hends, hout, hordered⟩ := ih next _ (by omega) hnpos hfits htwo'
        exact ⟨out, loopEnds_round hnext hgo hends, hout.trans hperm, hordered⟩
      · -- from a gap of two the next pass is one at the gap one
        have hnext1 : next = 1 := by omega
        have hstill : (comb compare next (list.elements - next) 0 0 list).1 = 0 := by
          by_contra hne
          exact hgo (Or.inl hne)
        obtain ⟨hlist, hpairs⟩ := comb_still next (list.elements - next) 0 0 list hstill
        have hlast := @loopEnds_last T compare gap next list hnext hgo
        rw [hlist] at hlast
        refine ⟨list, hlast, List.Perm.refl _, ?_⟩
        intro i hi
        have := hpairs i (Nat.zero_le _) (by omega)
        rw [hnext1] at this
        exact this

/-- Where the first product does not fit there is no result. -/
theorem sort_overflow {list : IndexedList T} (hlong : 214748365 < list.elements) {fuel : Nat} :
    sort compare (fuel + 1) list = .overflow := by
  have hnone : nextGap (list.elements - 1) = none := by
    rw [nextGap, if_neg (by omega), if_pos (by rw [intMax]; omega)]
  rw [sort, if_neg (by omega), sortLoop, hnone]

end Passes

/-! ## What `sort` does -/

/-- A list is sorted exactly when ten times its first gap fits in an `int`. -/
theorem sort_sorts_iff {compare : IndexedList T → Nat → Nat → Int} {order : T → T → Int}
    (h : Orders compare order) (list : IndexedList T) :
    (∃ out, SortedTo compare list out) ↔ list.elements ≤ 214748365 := by
  constructor
  · rintro ⟨out, hout⟩
    by_contra hlong
    obtain ⟨least, hleast⟩ := hout.returns
    have hreturned := hleast (least + 1) (Nat.le_succ _)
    rw [sort_overflow (Nat.lt_of_not_le hlong)] at hreturned
    exact nomatch hreturned
  · intro hshort
    by_cases htwo : list.elements < 2
    · refine ⟨list, ⟨0, ?_⟩, List.Perm.refl _, ?_⟩
      · intro fuel _
        rw [sort, if_pos htwo]
      · intro i hi
        omega
    · obtain ⟨out, ⟨least, hleast⟩, hperm, hordered⟩ := ends h _ (list.elements - 1) list
        (Nat.lt_succ_self _) (by omega) (by rw [intMax]; omega) (by omega)
      refine ⟨out, ⟨least, ?_⟩, hperm, hordered⟩
      intro fuel hfuel
      rw [sort, if_neg htwo]
      exact hleast fuel hfuel

/-- The numbers in their order. -/
theorem orders_numbers :
    Orders (fun (list : IndexedList Int) i j => list.get i - list.get j) (fun a b => a - b) where
  reads := fun _ _ _ _ _ => rfl
  total := fun a b => by omega
  trans := fun a b c hab hbc => by omega

theorem sort_sorts_two : ∃ out, SortedTo (fun list i j => list.get i - list.get j)
    (⟨[((2 : Int), 0), (1, 1)], 0⟩ : IndexedList Int) out :=
  (sort_sorts_iff orders_numbers _).mpr (by decide)

example : sort (fun list i j => list.get i - list.get j) 9
    (⟨[(3, 0), (1, 1), (2, 0)], 0⟩ : IndexedList Int) = .returned ⟨[(1, 1), (2, 0), (3, 0)], 0⟩ := by
  rfl

/-- The shortest list that is not sorted. -/
theorem sort_not_sorts : ¬ ∃ out, SortedTo (fun list i j => list.get i - list.get j)
    (⟨List.replicate 214748366 ((0 : Int), 0), 0⟩ : IndexedList Int) out := by
  rintro ⟨out, hout⟩
  obtain ⟨least, hleast⟩ := hout.returns
  have hreturned := hleast (least + 1) (Nat.le_succ _)
  rw [sort_overflow (by
    rw [elements, List.length_replicate]
    omega)] at hreturned
  exact nomatch hreturned

end IndexedList
