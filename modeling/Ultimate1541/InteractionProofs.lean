import Mathlib

/-! # Programs that make calls

    A library for code whose outcome depends on what its environment answers.  A
    `Prog` is a tree: it returns a value, or makes a call and goes on with the
    answer.  A watcher sees every call with its answer and keeps a state of its own;
    `Safe` says that whatever the answers are, no call is made that the watcher
    objects to, and that a condition holds where the program returns. -/

namespace Interaction

/-- A program that makes calls `o : Op`, each answered by a `Resp o`. -/
inductive Prog (Op : Type) (Resp : Op → Type) (α : Type) : Type where
  | ret (a : α) : Prog Op Resp α
  | call (o : Op) (k : Resp o → Prog Op Resp α) : Prog Op Resp α

variable {Op : Type} {Resp : Op → Type} {α β σ : Type}

namespace Prog

/-- First one program, then another one with its value. -/
def andThen : Prog Op Resp α → (α → Prog Op Resp β) → Prog Op Resp β
  | .ret a, f => f a
  | .call o k, f => .call o fun r => (k r).andThen f

instance : Monad (Prog Op Resp) where
  pure := .ret
  bind := andThen

@[simp] theorem pure_eq (a : α) : (pure a : Prog Op Resp α) = .ret a := rfl

@[simp] theorem bind_eq (p : Prog Op Resp α) (f : α → Prog Op Resp β) : p >>= f = p.andThen f := rfl

@[simp] theorem ret_andThen (a : α) (f : α → Prog Op Resp β) :
    (Prog.ret a : Prog Op Resp α).andThen f = f a := rfl

@[simp] theorem call_andThen (o : Op) (k : Resp o → Prog Op Resp α) (f : α → Prog Op Resp β) :
    (Prog.call o k).andThen f = .call o fun r => (k r).andThen f := rfl

theorem andThen_assoc {γ : Type} (p : Prog Op Resp α) (f : α → Prog Op Resp β)
    (g : β → Prog Op Resp γ) : (p.andThen f).andThen g = p.andThen fun a => (f a).andThen g := by
  induction p with
  | ret a => rfl
  | call o k ih => exact congrArg (Prog.call o) (funext ih)

theorem andThen_ret (p : Prog Op Resp α) : p.andThen .ret = p := by
  induction p with
  | ret a => rfl
  | call o k ih => exact congrArg (Prog.call o) (funext ih)

end Prog

/-- What sees the calls: whether it lets one pass, and how its state goes on with the
    answer. -/
structure Watcher (Op : Type) (Resp : Op → Type) (σ : Type) where
  ok : Op → σ → Prop
  next : (o : Op) → Resp o → σ → σ

variable (w : Watcher Op Resp σ)

/-- Whatever the answers are, the watcher lets every call pass, and `Q` holds of the
    value and the watcher's state at the end. -/
def Safe (Q : α → σ → Prop) : Prog Op Resp α → σ → Prop
  | .ret a, s => Q a s
  | .call o k, s => w.ok o s ∧ ∀ r, Safe Q (k r) (w.next o r s)

namespace Safe

variable {w} {Q Q' : α → σ → Prop} {p : Prog Op Resp α} {s : σ}

@[simp] theorem ret_iff {a : α} : Safe w Q (.ret a) s ↔ Q a s := Iff.rfl

theorem call {o : Op} {k : Resp o → Prog Op Resp α} (hok : w.ok o s)
    (h : ∀ r, Safe w Q (k r) (w.next o r s)) : Safe w Q (.call o k) s := ⟨hok, h⟩

theorem mono (h : Safe w Q p s) (hQ : ∀ a s', Q a s' → Q' a s') : Safe w Q' p s := by
  induction p generalizing s with
  | ret a => exact hQ a s h
  | call o k ih => exact ⟨h.1, fun r => ih r (h.2 r)⟩

/-- The rule for one program after another. -/
theorem andThen {R : β → σ → Prop} {f : α → Prog Op Resp β} (h : Safe w Q p s)
    (hf : ∀ a s', Q a s' → Safe w R (f a) s') : Safe w R (p.andThen f) s := by
  induction p generalizing s with
  | ret a => exact hf a s h
  | call o k ih => exact ⟨h.1, fun r => ih r (h.2 r)⟩

end Safe

/-! ## Where not every answer counts -/

/-- `Safe`, but only over the answers that `admits` lets pass. -/
def SafeIf (admits : (o : Op) → Resp o → σ → Prop) (Q : α → σ → Prop) : Prog Op Resp α → σ → Prop
  | .ret a, s => Q a s
  | .call o k, s => w.ok o s ∧ ∀ r, admits o r s → SafeIf admits Q (k r) (w.next o r s)

namespace SafeIf

variable {w} {admits : (o : Op) → Resp o → σ → Prop} {Q Q' : α → σ → Prop} {p : Prog Op Resp α}
  {s : σ}

theorem call {o : Op} {k : Resp o → Prog Op Resp α} (hok : w.ok o s)
    (h : ∀ r, admits o r s → SafeIf w admits Q (k r) (w.next o r s)) :
    SafeIf w admits Q (.call o k) s := ⟨hok, h⟩

/-- The rule for one program after another. -/
theorem andThen {R : β → σ → Prop} {f : α → Prog Op Resp β} (h : SafeIf w admits Q p s)
    (hf : ∀ a s', Q a s' → SafeIf w admits R (f a) s') : SafeIf w admits R (p.andThen f) s := by
  induction p generalizing s with
  | ret a => exact hf a s h
  | call o k ih => exact ⟨h.1, fun r hr => ih r (h.2 r hr)⟩

end SafeIf

end Interaction
