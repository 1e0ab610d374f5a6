import Mathlib

/-! # Memory programs with a trace of their accesses

    A library for code that works on byte arrays and must not leave them.  A
    `Prog` runs on a memory of cells `A → V` and some registers, faults when it
    touches a cell that does not exist, and reports every cell it read or
    wrote.  `Within S p` says that all accesses and all changes of `p` stay
    inside `S`; the rules follow the shape of the program. -/

namespace Footprint

variable {A V σ α β : Type}

/-- Cells and registers. -/
structure Memory (A V σ : Type) where
  cell : A → V
  regs : σ

/-- A program: `none` is a fault, otherwise the result, the memory afterwards
    and the cells touched in order. -/
def Prog (A V σ α : Type) : Type :=
  Memory A V σ → Option (α × Memory A V σ × List A)

namespace Prog

/-- Run `p`, then `f` on its result; the traces are concatenated. -/
def andThen (p : Prog A V σ α) (f : α → Prog A V σ β) : Prog A V σ β := fun m =>
  match p m with
  | none => none
  | some (r, m', tr) =>
      match f r m' with
      | none => none
      | some (r', m'', tr') => some (r', m'', tr ++ tr')

instance : Monad (Prog A V σ) where
  pure r := fun m => some (r, m, [])
  bind := andThen

/-- Read a cell; a fault when it does not exist. -/
def load (valid : A → Bool) (a : A) : Prog A V σ V := fun m =>
  if valid a then some (m.cell a, m, [a]) else none

/-- Write a cell; a fault when it does not exist. -/
def store [DecidableEq A] (valid : A → Bool) (a : A) (v : V) : Prog A V σ Unit := fun m =>
  if valid a then some ((), { m with cell := Function.update m.cell a v }, [a]) else none

/-- Change the registers. -/
def modifyRegs (f : σ → σ) : Prog A V σ Unit := fun m =>
  some ((), { m with regs := f m.regs }, [])

/-- A program that cannot go on. -/
def fault : Prog A V σ α := fun _ => none

/-- The run without its trace. -/
def exec (p : Prog A V σ α) (m : Memory A V σ) : Option (α × Memory A V σ) :=
  (p m).map fun r => (r.1, r.2.1)

theorem bind_apply (p : Prog A V σ α) (f : α → Prog A V σ β) (m : Memory A V σ) :
    (p >>= f) m = p.andThen f m := rfl

theorem pure_apply (r : α) (m : Memory A V σ) :
    (pure r : Prog A V σ α) m = some (r, m, []) := rfl

instance : LawfulMonad (Prog A V σ) :=
  LawfulMonad.mk' _
    (by
      intro α p
      funext m
      show andThen p _ m = _
      unfold andThen
      cases p m with
      | none => rfl
      | some y =>
          show some (y.1, y.2.1, y.2.2 ++ []) = some y
          rw [List.append_nil])
    (by
      intro α β r f
      funext m
      show andThen _ f m = f r m
      unfold andThen
      show (match f r m with
        | none => none
        | some (r', m'', tr') => some (r', m'', [] ++ tr')) = f r m
      cases f r m with
      | none => rfl
      | some z => rfl)
    (by
      intro α β γ p f h
      funext m
      show andThen (andThen p f) h m = andThen p (fun x => andThen (f x) h) m
      unfold andThen
      cases p m with
      | none => rfl
      | some y =>
          obtain ⟨x, m₁, tr₁⟩ := y
          dsimp only
          cases f x m₁ with
          | none => rfl
          | some z =>
              obtain ⟨x', m₂, tr₂⟩ := z
              dsimp only
              cases h x' m₂ with
              | none => rfl
              | some w =>
                  dsimp only
                  rw [List.append_assoc])

theorem fault_bind (f : α → Prog A V σ β) : (fault >>= f : Prog A V σ β) = fault := rfl

/-- The two halves of a run that got through. -/
theorem bind_eq_some {p : Prog A V σ α} {f : α → Prog A V σ β} {m : Memory A V σ}
    {r : β} {m' : Memory A V σ} {tr : List A} (h : (p >>= f) m = some (r, m', tr)) :
    ∃ x m₁ tr₁ tr₂, p m = some (x, m₁, tr₁) ∧ f x m₁ = some (r, m', tr₂) ∧
      tr = tr₁ ++ tr₂ := by
  rw [bind_apply] at h
  unfold andThen at h
  cases hp : p m with
  | none => rw [hp] at h; exact nomatch h
  | some y =>
      obtain ⟨x, m₁, tr₁⟩ := y
      rw [hp] at h
      cases hf : f x m₁ with
      | none => simp only [hf] at h; exact nomatch h
      | some z =>
          obtain ⟨r₂, m₂, tr₂⟩ := z
          simp only [hf] at h
          cases Option.some.inj h
          exact ⟨x, m₁, tr₁, tr₂, rfl, hf, rfl⟩

/-! ## Runs without the trace -/

@[simp] theorem exec_pure (r : α) (m : Memory A V σ) :
    (pure r : Prog A V σ α).exec m = some (r, m) := rfl

theorem exec_bind (p : Prog A V σ α) (f : α → Prog A V σ β) (m : Memory A V σ) :
    (p >>= f).exec m = (p.exec m).bind fun x => (f x.1).exec x.2 := by
  unfold exec
  rw [bind_apply]
  unfold andThen
  cases p m with
  | none => rfl
  | some y =>
      obtain ⟨x, m₁, tr₁⟩ := y
      simp only [Option.map_some, Option.bind_some]
      cases f x m₁ with
      | none => rfl
      | some z => rfl

/-- A first half that gets through can be replaced by its outcome. -/
theorem exec_bind_of {p : Prog A V σ α} {f : α → Prog A V σ β} {m m' : Memory A V σ} {x : α}
    (h : p.exec m = some (x, m')) : (p >>= f).exec m = (f x).exec m' := by
  rw [exec_bind, h]
  rfl

theorem exec_load {valid : A → Bool} {a : A} (m : Memory A V σ) (h : valid a = true) :
    (load valid a).exec m = some (m.cell a, m) := by
  unfold exec load
  rw [if_pos h]
  rfl

theorem exec_store [DecidableEq A] {valid : A → Bool} {a : A} (m : Memory A V σ) (v : V)
    (h : valid a = true) :
    (store valid a v).exec m = some ((), { m with cell := Function.update m.cell a v }) := by
  unfold exec store
  rw [if_pos h]
  rfl

@[simp] theorem exec_modifyRegs (f : σ → σ) (m : Memory A V σ) :
    (modifyRegs f : Prog A V σ Unit).exec m = some ((), { m with regs := f m.regs }) := rfl

/-- A run without its trace is a run with one. -/
theorem exec_eq_some {p : Prog A V σ α} {m m' : Memory A V σ} {r : α} :
    p.exec m = some (r, m') ↔ ∃ tr, p m = some (r, m', tr) := by
  unfold exec
  constructor
  · intro h
    obtain ⟨⟨x, m₁, tr⟩, hp, hx⟩ := Option.map_eq_some_iff.mp h
    cases hx
    exact ⟨tr, hp⟩
  · rintro ⟨tr, h⟩
    rw [h]
    rfl

theorem exec_eq_none {p : Prog A V σ α} {m : Memory A V σ} :
    p.exec m = none ↔ p m = none :=
  Option.map_eq_none_iff

theorem exec_bind_eq_some {p : Prog A V σ α} {f : α → Prog A V σ β} {m m' : Memory A V σ}
    {r : β} (h : (p >>= f).exec m = some (r, m')) :
    ∃ x m₁, p.exec m = some (x, m₁) ∧ (f x).exec m₁ = some (r, m') := by
  rw [exec_bind] at h
  obtain ⟨⟨x, m₁⟩, hp, hf⟩ := Option.bind_eq_some_iff.mp h
  exact ⟨x, m₁, hp, hf⟩

theorem exec_load_eq_some {valid : A → Bool} {a : A} {m m' : Memory A V σ} {v : V}
    (h : (load valid a).exec m = some (v, m')) : v = m.cell a ∧ m' = m := by
  obtain ⟨tr, h⟩ := exec_eq_some.mp h
  rw [load] at h
  split at h
  · cases h
    exact ⟨rfl, rfl⟩
  · exact nomatch h

theorem exec_store_eq_some [DecidableEq A] {valid : A → Bool} {a : A} {v : V}
    {m m' : Memory A V σ} {r : Unit} (h : (store valid a v).exec m = some (r, m')) :
    m' = { m with cell := Function.update m.cell a v } := by
  obtain ⟨tr, h⟩ := exec_eq_some.mp h
  rw [store] at h
  split at h
  · cases h
    rfl
  · exact nomatch h

/-! ## Relations a run keeps to -/

/-- Every run that gets through leads from a memory to a related one. -/
def Leads (R : Memory A V σ → Memory A V σ → Prop) (p : Prog A V σ α) : Prop :=
  ∀ m r m', p.exec m = some (r, m') → R m m'

theorem Leads.pure {R : Memory A V σ → Memory A V σ → Prop} (hR : ∀ m, R m m) (r : α) :
    Leads R (pure r : Prog A V σ α) := by
  intro m r' m' h
  cases h
  exact hR m

theorem Leads.bind {R : Memory A V σ → Memory A V σ → Prop}
    (hR : ∀ m₁ m₂ m₃, R m₁ m₂ → R m₂ m₃ → R m₁ m₃) {p : Prog A V σ α}
    {f : α → Prog A V σ β} (hp : Leads R p) (hf : ∀ x, Leads R (f x)) : Leads R (p >>= f) := by
  intro m r m' h
  obtain ⟨x, m₁, h1, h2⟩ := exec_bind_eq_some h
  exact hR _ _ _ (hp _ _ _ h1) (hf x _ _ _ h2)

/-! ## Runs that get through -/

/-- From a memory with `P` the run gets through, to a memory with `Q`. -/
def Reaches (P : Memory A V σ → Prop) (p : Prog A V σ α) (Q : Memory A V σ → Prop) : Prop :=
  ∀ m, P m → ∃ r m', p.exec m = some (r, m') ∧ Q m'

theorem Reaches.bind {P Q R : Memory A V σ → Prop} {p : Prog A V σ α} {f : α → Prog A V σ β}
    (hp : Reaches P p Q) (hf : ∀ x, Reaches Q (f x) R) : Reaches P (p >>= f) R := by
  intro m hm
  obtain ⟨x, m₁, h1, hq⟩ := hp m hm
  obtain ⟨r, m', h2, hr⟩ := hf x m₁ hq
  exact ⟨r, m', (exec_bind_of h1).trans h2, hr⟩

theorem Reaches.modifyRegs {P Q : Memory A V σ → Prop} {f : σ → σ}
    (h : ∀ m, P m → Q { m with regs := f m.regs }) :
    Reaches P (modifyRegs f : Prog A V σ Unit) Q :=
  fun m hm => ⟨(), _, exec_modifyRegs f m, h m hm⟩

theorem Reaches.store [DecidableEq A] {P Q : Memory A V σ → Prop} {valid : A → Bool} {a : A}
    {v : V} (hv : valid a = true)
    (h : ∀ m, P m → Q { m with cell := Function.update m.cell a v }) :
    Reaches P (store valid a v : Prog A V σ Unit) Q :=
  fun m hm => ⟨(), _, exec_store m v hv, h m hm⟩

theorem Reaches.load {P : Memory A V σ → Prop} {valid : A → Bool} {a : A}
    (hv : valid a = true) : Reaches P (load valid a : Prog A V σ V) P :=
  fun m hm => ⟨_, m, exec_load m hv, hm⟩

theorem Reaches.pure {P : Memory A V σ → Prop} (r : α) :
    Reaches P (pure r : Prog A V σ α) P :=
  fun m hm => ⟨r, m, rfl, hm⟩

/-! ## Footprints -/

/-- Every access and every change of a run stays inside `S`. -/
def Within (S : A → Prop) (p : Prog A V σ α) : Prop :=
  ∀ m r m' tr, p m = some (r, m', tr) →
    (∀ a ∈ tr, S a) ∧ ∀ a, ¬ S a → m'.cell a = m.cell a

theorem Within.mono {S T : A → Prop} {p : Prog A V σ α} (h : Within S p)
    (hST : ∀ a, S a → T a) : Within T p := by
  intro m r m' tr hp
  obtain ⟨htr, hcell⟩ := h m r m' tr hp
  exact ⟨fun a ha => hST a (htr a ha), fun a ha => hcell a (fun hs => ha (hST a hs))⟩

theorem Within.pure {S : A → Prop} (r : α) : Within S (pure r : Prog A V σ α) := by
  intro m r' m' tr hp
  cases Option.some.inj hp
  exact ⟨fun a ha => absurd ha List.not_mem_nil, fun _ _ => rfl⟩

theorem Within.bind {S : A → Prop} {p : Prog A V σ α} {f : α → Prog A V σ β}
    (hp : Within S p) (hf : ∀ x, Within S (f x)) : Within S (p >>= f) := by
  intro m r m' tr h
  obtain ⟨x, m₁, tr₁, tr₂, h1, h2, rfl⟩ := bind_eq_some h
  obtain ⟨ht1, hc1⟩ := hp _ _ _ _ h1
  obtain ⟨ht2, hc2⟩ := hf x _ _ _ _ h2
  refine ⟨fun a ha => ?_, fun a ha => (hc2 a ha).trans (hc1 a ha)⟩
  rcases List.mem_append.mp ha with h | h
  · exact ht1 a h
  · exact ht2 a h

theorem Within.load {S : A → Prop} {valid : A → Bool} {a : A} (ha : S a) :
    Within S (load valid a : Prog A V σ V) := by
  intro m r m' tr hp
  unfold Prog.load at hp
  split at hp
  · cases Option.some.inj hp
    exact ⟨by simpa using ha, fun _ _ => rfl⟩
  · exact nomatch hp

theorem Within.store [DecidableEq A] {S : A → Prop} {valid : A → Bool} {a : A} {v : V}
    (ha : S a) : Within S (store valid a v : Prog A V σ Unit) := by
  intro m r m' tr hp
  unfold Prog.store at hp
  split at hp
  · cases Option.some.inj hp
    refine ⟨by simpa using ha, fun b hb => ?_⟩
    have hne : b ≠ a := by
      rintro rfl
      exact hb ha
    exact Function.update_of_ne hne _ _
  · exact nomatch hp

theorem Within.modifyRegs {S : A → Prop} (f : σ → σ) :
    Within S (modifyRegs f : Prog A V σ Unit) := by
  intro m r m' tr hp
  cases Option.some.inj hp
  exact ⟨fun a ha => absurd ha List.not_mem_nil, fun _ _ => rfl⟩

/-- A run that gets through with all its accesses inside `S`. -/
def Inside (S : A → Prop) (p : Prog A V σ α) (m : Memory A V σ) : Prop :=
  ∃ r m' tr, p m = some (r, m', tr) ∧ ∀ a ∈ tr, S a

/-- Both halves of a run that stays inside `S` do. -/
theorem Inside.of_bind {S : A → Prop} {p : Prog A V σ α} {f : α → Prog A V σ β}
    {m : Memory A V σ} (h : Inside S (p >>= f) m) :
    Inside S p m ∧ ∃ x m₁, p.exec m = some (x, m₁) ∧ Inside S (f x) m₁ := by
  obtain ⟨r, m', tr, h, htr⟩ := h
  obtain ⟨x, m₁, tr₁, tr₂, h1, h2, rfl⟩ := bind_eq_some h
  exact ⟨⟨x, m₁, tr₁, h1, fun a ha => htr a (List.mem_append_left _ ha)⟩,
    x, m₁, exec_eq_some.mpr ⟨tr₁, h1⟩, r, m', tr₂, h2,
    fun a ha => htr a (List.mem_append_right _ ha)⟩

/-- A run that gets through, with all accesses and all changes inside `S`. -/
def Confined (S : A → Prop) (p : Prog A V σ α) (m : Memory A V σ) : Prop :=
  ∃ r m' tr, p m = some (r, m', tr) ∧ (∀ a ∈ tr, S a) ∧
    ∀ a, ¬ S a → m'.cell a = m.cell a

theorem Confined.inside {S : A → Prop} {p : Prog A V σ α} {m : Memory A V σ}
    (h : Confined S p m) : Inside S p m := by
  obtain ⟨r, m', tr, hp, htr, -⟩ := h
  exact ⟨r, m', tr, hp, htr⟩

theorem Confined.of_within {S : A → Prop} {p : Prog A V σ α} {m m' : Memory A V σ} {r : α}
    (hw : Within S p) (h : p.exec m = some (r, m')) : Confined S p m := by
  obtain ⟨tr, hp⟩ := exec_eq_some.mp h
  exact ⟨r, m', tr, hp, hw m r m' tr hp⟩

theorem Confined.mono {S T : A → Prop} {p : Prog A V σ α} {m : Memory A V σ}
    (h : Confined S p m) (hST : ∀ a, S a → T a) : Confined T p m := by
  obtain ⟨r, m', tr, hp, htr, hcell⟩ := h
  exact ⟨r, m', tr, hp, fun a ha => hST a (htr a ha),
    fun a ha => hcell a fun hs => ha (hST a hs)⟩

theorem Confined.pure {S : A → Prop} (r : α) (m : Memory A V σ) :
    Confined S (pure r : Prog A V σ α) m :=
  Confined.of_within (Within.pure r) (exec_pure r m)

theorem Confined.bind {S : A → Prop} {p : Prog A V σ α} {f : α → Prog A V σ β}
    {m m₁ : Memory A V σ} {x : α} (hp : Confined S p m) (hx : p.exec m = some (x, m₁))
    (hf : Confined S (f x) m₁) : Confined S (p >>= f) m := by
  obtain ⟨x', m₁', tr₁, h1, ht1, hc1⟩ := hp
  have hsame := exec_eq_some.mpr ⟨tr₁, h1⟩
  rw [hx] at hsame
  obtain ⟨rfl, rfl⟩ := Prod.mk.inj (Option.some.inj hsame)
  obtain ⟨r, m', tr₂, h2, ht2, hc2⟩ := hf
  refine ⟨r, m', tr₁ ++ tr₂, ?_, fun a ha => ?_, fun a ha => (hc2 a ha).trans (hc1 a ha)⟩
  · rw [bind_apply, andThen, h1]
    dsimp only
    rw [h2]
  · rcases List.mem_append.mp ha with h | h
    · exact ht1 a h
    · exact ht2 a h

/-- Code that starts by reading a cell outside `S` is not inside `S`. -/
theorem not_inside_load_bind {S : A → Prop} {valid : A → Bool} {a : A} (ha : ¬ S a)
    (f : V → Prog A V σ β) (m : Memory A V σ) : ¬ Inside S (load valid a >>= f) m := by
  intro h
  obtain ⟨⟨x, m₁, tr₁, h, htr⟩, -⟩ := h.of_bind
  unfold load at h
  split at h
  · cases Option.some.inj h
    exact ha (htr a (List.mem_singleton.mpr rfl))
  · exact nomatch h

theorem Within.ite {S : A → Prop} {c : Prop} [Decidable c] {p q : Prog A V σ α}
    (hp : Within S p) (hq : Within S q) : Within S (if c then p else q) := by
  by_cases h : c
  · rw [if_pos h]; exact hp
  · rw [if_neg h]; exact hq

end Prog

end Footprint
