import Ultimate1541.InteractionProofs

/-! # Programs among others

    A library for a program whose calls read and change a state that others change as
    well.  Between any two of its calls the others may take any number of steps.  An
    assertion about the state that is to hold of the program at rest must be one their
    steps keep; `Steady` builds that in, and its rules are those of a program alone. -/

namespace Interference

open Interaction

variable {Op : Type} {Resp : Op → Type} {α β σ : Type}

/-- A state that is shared: what the others may make of it, and which answer a call can
    have of it and what it then leaves. -/
structure Setting (Op : Type) (Resp : Op → Type) (σ : Type) where
  others : σ → σ → Prop
  answers : (o : Op) → σ → Resp o → σ → Prop

variable (w : Setting Op Resp σ)

/-- An assertion that the others keep. -/
def Setting.Keeps (I : σ → Prop) : Prop := ∀ s s', w.others s s' → I s → I s'

/-- Whatever the others do and whatever is answered, `ok` holds of every call and the
    state it finds, and `Q` of the value and of any state behind it. -/
def Steady (ok : Op → σ → Prop) (Q : α → σ → Prop) : Prog Op Resp α → σ → Prop
  | .ret a, s => ∀ s', Relation.ReflTransGen w.others s s' → Q a s'
  | .call o k, s => ∀ s', Relation.ReflTransGen w.others s s' →
      ok o s' ∧ ∀ r s'', w.answers o s' r s'' → Steady ok Q (k r) s''

variable {w} {ok : Op → σ → Prop} {Q Q' : α → σ → Prop} {p : Prog Op Resp α} {s s' : σ}

/-- What the others keep in a step they keep in any number of them. -/
theorem Setting.Keeps.star {I : σ → Prop} (hI : w.Keeps I)
    (h : Relation.ReflTransGen w.others s s') (hs : I s) : I s' := by
  induction h with
  | refl => exact hs
  | tail _ hstep ih => exact hI _ _ hstep ih

namespace Steady

/-- The others do not disturb it. -/
theorem others (h : Steady w ok Q p s) (hstep : w.others s s') : Steady w ok Q p s' := by
  cases p with
  | ret a => exact fun s'' hs'' => h s'' (hs''.head hstep)
  | call o k => exact fun s'' hs'' => h s'' (hs''.head hstep)

/-- What it says of a call that is about to be made. -/
theorem ok_of_call {o : Op} {k : Resp o → Prog Op Resp α} (h : Steady w ok Q (.call o k) s) :
    ok o s := (h s .refl).1

/-- What it says of the program once the call is answered. -/
theorem answered {o : Op} {k : Resp o → Prog Op Resp α} {r : Resp o}
    (h : Steady w ok Q (.call o k) s) (hr : w.answers o s r s') : Steady w ok Q (k r) s' :=
  (h s .refl).2 r s' hr

theorem value {a : α} (h : Steady w ok Q (.ret a) s) : Q a s := h s .refl

/-- The rule for a value: from an assertion that the others keep. -/
theorem ret {I : σ → Prop} {a : α} (hI : w.Keeps I) (hs : I s) (h : ∀ s, I s → Q a s) :
    Steady w ok Q (.ret a) s := fun s' hs' => h s' (hI.star hs' hs)

/-- The rule for a call: from an assertion that the others keep. -/
theorem call {I : σ → Prop} {o : Op} {k : Resp o → Prog Op Resp α} (hI : w.Keeps I) (hs : I s)
    (hok : ∀ s, I s → ok o s)
    (h : ∀ s r s', I s → w.answers o s r s' → Steady w ok Q (k r) s') :
    Steady w ok Q (.call o k) s := by
  intro s' hs'
  have hI' : I s' := hI.star hs' hs
  exact ⟨hok s' hI', fun r s'' hr => h s' r s'' hI' hr⟩

theorem mono (h : Steady w ok Q p s) (hQ : ∀ a s, Q a s → Q' a s) : Steady w ok Q' p s := by
  induction p generalizing s with
  | ret a => exact fun s' hs' => hQ a s' (h s' hs')
  | call o k ih => exact fun s' hs' => ⟨(h s' hs').1, fun r s'' hr => ih r ((h s' hs').2 r s'' hr)⟩

/-- The rule for one program after another. -/
theorem andThen {R : β → σ → Prop} {f : α → Prog Op Resp β} (h : Steady w ok Q p s)
    (hf : ∀ a s, Q a s → Steady w ok R (f a) s) : Steady w ok R (p.andThen f) s := by
  induction p generalizing s with
  | ret a => exact hf a s h.value
  | call o k ih => exact fun s' hs' => ⟨(h s' hs').1, fun r s'' hr => ih r ((h s' hs').2 r s'' hr)⟩

/-- The rule for a part that is known as a program alone: if the others and all calls
    that its watcher lets pass keep an assertion, it holds behind the part. -/
theorem of_safe {τ : Type} {w' : Watcher Op Resp τ} {P : α → τ → Prop} {t : τ} {I : σ → Prop}
    (h : Safe w' P p t) (hI : w.Keeps I)
    (hkeep : ∀ o t, w'.ok o t → ∀ s r s', I s → w.answers o s r s' → I s')
    (hok : ∀ o t, w'.ok o t → ∀ s, I s → ok o s) (hs : I s) :
    Steady w ok (fun a s => I s ∧ ∃ t, P a t) p s := by
  induction p generalizing s t with
  | ret a => exact fun s' hs' => ⟨hI.star hs' hs, t, h⟩
  | call o k ih =>
      exact Steady.call hI hs (hok o t h.1) fun s r s' hs hr =>
        ih r (h.2 r) (hkeep o t h.1 s r s' hs hr)

end Steady

end Interference
