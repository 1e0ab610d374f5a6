import Mathlib

/-! # Loops

    A loop is a step on its states: one round gives the next state, or none
    where the loop ends. -/

namespace Loop

variable {σ : Type}

/-- One round of the loop. -/
def Next (step : σ → Option σ) (s s' : σ) : Prop := step s = some s'

/-- Some rounds of the loop. -/
abbrev Reaches (step : σ → Option σ) : σ → σ → Prop := Relation.ReflTransGen (Next step)

/-- `n` rounds at most: the state in which the loop ends, if it ends. -/
def run (step : σ → Option σ) : Nat → σ → Option σ
  | 0, _ => none
  | n + 1, s =>
      match step s with
      | none => some s
      | some s' => run step n s'

/-- The loop ends in the state `s'`. -/
def EndsIn (step : σ → Option σ) (s s' : σ) : Prop := ∃ n, run step n s = some s'

/-- The loop ends. -/
def Ends (step : σ → Option σ) (s : σ) : Prop := ∃ s', EndsIn step s s'

variable {step : σ → Option σ}

theorem run_of_none {s : σ} (h : step s = none) (n : Nat) : run step (n + 1) s = some s := by
  rw [run, h]

theorem run_of_some {s s' : σ} (h : step s = some s') (n : Nat) :
    run step (n + 1) s = run step n s' := by
  rw [run, h]

theorem endsIn_of_none {s : σ} (h : step s = none) : EndsIn step s s := ⟨1, run_of_none h 0⟩

/-- A round does not change where the loop ends. -/
theorem endsIn_iff_of_next {s s' r : σ} (h : Next step s s') :
    EndsIn step s r ↔ EndsIn step s' r := by
  constructor
  · rintro ⟨n, hn⟩
    cases n with
    | zero => exact nomatch hn
    | succ n => exact ⟨n, (run_of_some h n).symm.trans hn⟩
  · rintro ⟨n, hn⟩
    exact ⟨n + 1, (run_of_some h n).trans hn⟩

/-- Nor do some rounds. -/
theorem endsIn_iff_of_reaches {s s' r : σ} (h : Reaches step s s') :
    EndsIn step s r ↔ EndsIn step s' r := by
  induction h with
  | refl => exact Iff.rfl
  | tail _ hnext ih => exact ih.trans (endsIn_iff_of_next hnext)

theorem ends_iff_of_reaches {s s' : σ} (h : Reaches step s s') : Ends step s ↔ Ends step s' :=
  exists_congr fun _ => endsIn_iff_of_reaches h

theorem ends_of_next {s s' : σ} (h : Next step s s') (hends : Ends step s') : Ends step s :=
  (ends_iff_of_reaches (.single h)).mpr hends

/-- The loop ends where it has no round to go. -/
theorem endsIn_iff {s r : σ} : EndsIn step s r ↔ Reaches step s r ∧ step r = none := by
  constructor
  · rintro ⟨n, hn⟩
    induction n generalizing s with
    | zero => exact nomatch hn
    | succ n ih =>
        cases h : step s with
        | none =>
            rw [run_of_none h] at hn
            exact Option.some.inj hn ▸ ⟨.refl, h⟩
        | some s' =>
            rw [run_of_some h] at hn
            exact ⟨.head h (ih hn).1, (ih hn).2⟩
  · rintro ⟨hreach, hnone⟩
    exact (endsIn_iff_of_reaches hreach).mpr (endsIn_of_none hnone)

/-- The loop ends in one state only. -/
theorem EndsIn.unique {s r r' : σ} (h : EndsIn step s r) (h' : EndsIn step s r') : r = r' := by
  obtain ⟨hreach, hnone⟩ := endsIn_iff.mp h
  obtain ⟨n, hn⟩ := (endsIn_iff_of_reaches hreach).mp h'
  cases n with
  | zero => exact nomatch hn
  | succ n =>
      rw [run_of_none hnone] at hn
      exact Option.some.inj hn

/-- A loop that always has another round does not end. -/
theorem not_ends_of_invariant {P : σ → Prop} (hP : ∀ s, P s → ∃ s', Next step s s' ∧ P s')
    {s : σ} (hs : P s) : ¬ Ends step s := by
  rintro ⟨r, n, hn⟩
  induction n generalizing s with
  | zero => exact nomatch hn
  | succ n ih =>
      obtain ⟨s', hnext, hs'⟩ := hP s hs
      rw [run_of_some hnext] at hn
      exact ih hs' hn

/-- A loop ends within as many rounds as a measure counts down. -/
theorem run_isSome_of_measure {P : σ → Prop} {μ : σ → Nat}
    (hP : ∀ s s', P s → Next step s s' → P s' ∧ μ s' < μ s) {s : σ} (hs : P s) {n : Nat}
    (hn : μ s < n) : (run step n s).isSome = true := by
  induction n generalizing s with
  | zero => exact absurd hn (Nat.not_lt_zero _)
  | succ n ih =>
      cases h : step s with
      | none =>
          rw [run_of_none h]
          rfl
      | some s' =>
          obtain ⟨hs', hlt⟩ := hP s s' hs h
          rw [run_of_some h]
          exact ih hs' (by omega)

/-- What every round keeps holds where the loop ends. -/
theorem keeps_of_run {P : σ → Prop} (hP : ∀ s s', P s → Next step s s' → P s') {n : Nat}
    {s s' : σ} (h : run step n s = some s') (hs : P s) : P s' := by
  induction n generalizing s with
  | zero => exact nomatch h
  | succ n ih =>
      cases hnext : step s with
      | none =>
          rw [run_of_none hnext] at h
          exact Option.some.inj h ▸ hs
      | some s₁ =>
          rw [run_of_some hnext] at h
          exact ih h (hP s s₁ hs hnext)

theorem next_getD {s d : σ} (h : (step s).isSome = true) : Next step s ((step s).getD d) := by
  obtain ⟨s', hs'⟩ := Option.isSome_iff_exists.mp h
  rw [hs']
  exact hs'

/-- The state after exactly `n` rounds. -/
def after (step : σ → Option σ) : Nat → σ → Option σ
  | 0, s => some s
  | n + 1, s => (step s).bind (after step n)

theorem reaches_of_after {n : Nat} {s s' : σ} (h : after step n s = some s') :
    Reaches step s s' := by
  induction n generalizing s with
  | zero => exact Option.some.inj h ▸ .refl
  | succ n ih =>
      obtain ⟨s₁, hnext, hrest⟩ := Option.bind_eq_some_iff.mp h
      exact .head hnext (ih hrest)

/-- What the rounds put out, `n` of them at most. -/
def trace {α : Type} (step : σ → Option σ) (out : σ → List α) : Nat → σ → List α
  | 0, _ => []
  | n + 1, s =>
      match step s with
      | none => []
      | some s' => out s ++ trace step out n s'

/-- What one round keeps, with all that was put out so far, holds where the loop ends. -/
theorem invariant_of_run {α : Type} {out : σ → List α} {P : List α → σ → Prop}
    (hP : ∀ l s s', P l s → Next step s s' → P (l ++ out s) s') {n : Nat} {l : List α} {s s' : σ}
    (h : run step n s = some s') (hs : P l s) : P (l ++ trace step out n s) s' := by
  induction n generalizing l s with
  | zero => exact nomatch h
  | succ n ih =>
      cases hnext : step s with
      | none =>
          rw [run_of_none hnext] at h
          rw [trace, hnext, List.append_nil]
          exact Option.some.inj h ▸ hs
      | some s₁ =>
          rw [run_of_some hnext] at h
          rw [trace, hnext, ← List.append_assoc]
          exact ih h (hP l s s₁ hs hnext)

end Loop
