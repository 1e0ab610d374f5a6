import Mathlib

/-! # Copies of a medium

    A library for code that keeps copies of the sectors of a medium in buffers,
    changes them there and writes them back later, while the medium is also
    written past the buffers.  `written` is what a reader is owed: for every
    byte of every sector the value that was stored last, in a buffer or on the
    medium.  A buffer is `stale` when its sector was written past it since it
    was filled.

    `Current` is the invariant: what is not stale is as written, nothing stale
    waits to be written back, and the medium lags behind in the sectors of dirty
    buffers only.  Each thing a buffer can do has one rule that keeps it, with
    the conditions that needs. -/

namespace WriteBack

variable {H A I V : Type}

/-- Buffers `H` over a medium of sectors `A`, each of bytes `V` indexed by
    `I`. -/
structure Cache (H A I V : Type) where
  medium : A → I → V
  copy : H → I → V
  home : H → Option A
  dirty : H → Prop
  written : A → I → V
  stale : H → Prop

/-- The bytes of `new` that differ from `old`, over `base`. -/
def overlay [DecidableEq V] (old new base : I → V) : I → V := fun i =>
  if new i = old i then base i else new i

theorem overlay_self [DecidableEq V] (old new : I → V) : overlay old new old = new := by
  funext i
  rw [overlay]
  split
  · next h => exact h.symm
  · rfl

@[simp] theorem overlay_same [DecidableEq V] (old base : I → V) : overlay old old base = base :=
  funext fun _ => if_pos rfl

namespace Cache

/-- Another buffer holds the sector and has to be written back. -/
def Pending (c : Cache H A I V) (h : H) (a : A) : Prop :=
  ∃ h', h' ≠ h ∧ c.dirty h' ∧ c.home h' = some a

/-- What is not stale is as written, and the medium lags behind in the sectors
    of dirty buffers only. -/
structure Current (c : Cache H A I V) : Prop where
  fresh : ∀ h a, c.home h = some a → ¬ c.stale h → c.copy h = c.written a
  dirty_fresh : ∀ h, c.dirty h → ¬ c.stale h
  settled : ∀ a, (∀ h, c.dirty h → c.home h ≠ some a) → c.medium a = c.written a

/-- Every byte of the medium that changes becomes what was written last. -/
def Forward (c c' : Cache H A I V) : Prop :=
  ∀ a i, c'.medium a i = c.medium a i ∨ c'.medium a i = c'.written a i

theorem Forward.refl (c : Cache H A I V) : Forward c c := fun _ _ => Or.inl rfl

/-- A second step that stores only what it also puts on the medium. -/
theorem Forward.trans_of {c c' c'' : Cache H A I V} (h : Forward c c') (h' : Forward c' c'')
    (hw : ∀ a i, c''.written a i = c'.written a i ∨ c''.medium a i = c''.written a i) :
    Forward c c'' := by
  intro a i
  rcases hw a i with hw | hw
  · rcases h' a i with h₂ | h₂
    · rcases h a i with h₁ | h₁
      · exact Or.inl (h₂.trans h₁)
      · exact Or.inr (by rw [h₂, h₁, hw])
    · exact Or.inr h₂
  · exact Or.inr hw

/-- A second step that stores nothing. -/
theorem Forward.trans {c c' c'' : Cache H A I V} (h : Forward c c') (h' : Forward c' c'')
    (hw : c''.written = c'.written) : Forward c c'' :=
  h.trans_of h' fun a i => Or.inl (congrFun (congrFun hw a) i)

variable {c c' : Cache H A I V}

/-- A dirty buffer holds what was written last. -/
theorem Current.copy_eq (hc : Current c) {h : H} {a : A} (hd : c.dirty h)
    (ha : c.home h = some a) : c.copy h = c.written a :=
  hc.fresh h a ha (hc.dirty_fresh h hd)

/-- A dirty buffer is written to its sector. -/
theorem Current.flush [DecidableEq A] (hc : Current c) {h : H} {a : A} (hd : c.dirty h)
    (ha : c.home h = some a) :
    Current { c with medium := Function.update c.medium a (c.copy h) } ∧
      Forward c { c with medium := Function.update c.medium a (c.copy h) } := by
  have hw := hc.copy_eq hd ha
  refine ⟨⟨hc.fresh, hc.dirty_fresh, fun b hb => ?_⟩, fun b i => ?_⟩
  · by_cases hba : b = a
    · subst hba
      exact (Function.update_self ..).trans hw
    · exact (Function.update_of_ne hba ..).trans (hc.settled b hb)
  · by_cases hba : b = a
    · subst hba
      right
      show Function.update c.medium b (c.copy h) b i = c.written b i
      rw [Function.update_self, hw]
    · left
      show Function.update c.medium a (c.copy h) b i = c.medium b i
      rw [Function.update_of_ne hba]

/-- Flags go down where the medium has caught up. -/
theorem Current.clean (hc : Current c) {dirty : H → Prop} (hle : ∀ h, dirty h → c.dirty h)
    (hup : ∀ h a, c.dirty h → ¬ dirty h → c.home h = some a → c.medium a = c.copy h) :
    Current { c with dirty := dirty } where
  fresh := hc.fresh
  dirty_fresh := fun h hd => hc.dirty_fresh h (hle h hd)
  settled := by
    intro a ha
    by_cases hex : ∃ h, c.dirty h ∧ c.home h = some a
    · obtain ⟨h, hd, hh⟩ := hex
      exact (hup h a hd (fun hd' => ha h hd' hh) hh).trans (hc.copy_eq hd hh)
    · exact hc.settled a fun h hd hh => hex ⟨h, hd, hh⟩

/-- A clean buffer gets another content and another sector.  It counts as fresh
    only if the content is what was written there last. -/
theorem Current.refill (hc : Current c) {h : H} (hd : ¬ c.dirty h)
    (hmedium : c'.medium = c.medium) (hwritten : c'.written = c.written)
    (hdirty : c'.dirty = c.dirty)
    (hother : ∀ h', h' ≠ h → c'.copy h' = c.copy h' ∧ c'.home h' = c.home h' ∧
      (c'.stale h' ↔ c.stale h'))
    (hfresh : ∀ a, c'.home h = some a → ¬ c'.stale h → c'.copy h = c.written a) :
    Current c' where
  fresh := by
    intro h' a ha hs
    rw [hwritten]
    by_cases hh : h' = h
    · subst hh
      exact hfresh a ha hs
    · obtain ⟨h1, h2, h3⟩ := hother h' hh
      rw [h1]
      exact hc.fresh h' a (h2 ▸ ha) (fun h => hs (h3.mpr h))
  dirty_fresh := by
    intro h' hd' hs
    rw [hdirty] at hd'
    have hh : h' ≠ h := by
      rintro rfl
      exact hd hd'
    exact hc.dirty_fresh h' hd' ((hother h' hh).2.2.mp hs)
  settled := by
    intro a ha
    rw [hmedium, hwritten]
    refine hc.settled a fun h' hd' hh' => ?_
    have hh : h' ≠ h := by
      rintro rfl
      exact hd hd'
    exact ha h' (hdirty ▸ hd') ((hother h' hh).2.1.trans hh')

/-- What a clean buffer reads from the medium is what was written last, unless
    another buffer has changes to the sector. -/
theorem Current.medium_eq (hc : Current c) {h : H} {a : A} (hd : ¬ c.dirty h)
    (hp : ¬ c.Pending h a) : c.medium a = c.written a := by
  refine hc.settled a fun h' hd' hh' => hp ⟨h', ?_, hd', hh'⟩
  rintro rfl
  exact hd hd'

/-- Bytes are stored in the `touched` buffers: those are not stale, and no other
    buffer has changes to their sectors. -/
theorem Current.store [DecidableEq V] (hc : Current c) (touched : H → Prop)
    (hmedium : c'.medium = c.medium) (hhome : c'.home = c.home)
    (hdirty : ∀ h, c'.dirty h ↔ c.dirty h ∨ touched h)
    (hcopy : ∀ h, ¬ touched h → c'.copy h = c.copy h)
    (hwritten : ∀ h a, touched h → c.home h = some a →
      c'.written a = overlay (c.copy h) (c'.copy h) (c.written a))
    (hframe : ∀ a, (∀ h, touched h → c.home h ≠ some a) → c'.written a = c.written a)
    (hstale : ∀ h, c'.stale h ↔ c.stale h ∨
      ∃ h' a, touched h' ∧ h' ≠ h ∧ c.home h' = some a ∧ c.home h = some a)
    (hfresh : ∀ h, touched h → ¬ c.stale h)
    (halone : ∀ h a h', touched h → c.home h = some a → h' ≠ h → c.home h' = some a →
      ¬ c.dirty h' ∧ ¬ touched h') :
    Current c' where
  fresh := by
    intro h a ha hs
    rw [hhome] at ha
    rw [hstale, not_or] at hs
    by_cases ht : touched h
    · rw [hwritten h a ht ha, ← hc.fresh h a ha hs.1, overlay_self]
    · rw [hcopy h ht, hc.fresh h a ha hs.1, hframe a]
      intro h' ht' ha'
      refine hs.2 ⟨h', a, ht', ?_, ha', ha⟩
      rintro rfl
      exact ht ht'
  dirty_fresh := by
    intro h hd hs
    rcases (hstale h).mp hs with hs | ⟨h', a, ht', hne, ha', ha⟩
    · rcases (hdirty h).mp hd with hd | hd
      · exact hc.dirty_fresh h hd hs
      · exact hfresh h hd hs
    · obtain ⟨h1, h2⟩ := halone h' a h ht' ha' hne.symm ha
      exact ((hdirty h).mp hd).elim h1 h2
  settled := by
    intro a ha
    have hno : ∀ h, touched h → c.home h ≠ some a := fun h ht hh =>
      ha h ((hdirty h).mpr (Or.inr ht)) (hhome ▸ hh)
    rw [hmedium, hframe a hno]
    exact hc.settled a fun h hd hh => ha h ((hdirty h).mpr (Or.inl hd)) (hhome ▸ hh)

/-- A sector to which no buffer has changes is written past the buffers. -/
theorem Current.direct [DecidableEq A] (hc : Current c) {a : A} {b : I → V}
    (hmedium : c'.medium = Function.update c.medium a b)
    (hwritten : c'.written = Function.update c.written a b)
    (hcopy : c'.copy = c.copy) (hhome : c'.home = c.home) (hdirty : c'.dirty = c.dirty)
    (hstale : ∀ h, c'.stale h ↔ c.stale h ∨ c.home h = some a)
    (hnone : ∀ h, c.dirty h → c.home h ≠ some a) : Current c' ∧ Forward c c' := by
  refine ⟨⟨fun h d hh hs => ?_, fun h hd hs => ?_, fun d hd => ?_⟩, fun d i => ?_⟩
  · rw [hstale, not_or] at hs
    rw [hhome] at hh
    have hda : d ≠ a := by
      rintro rfl
      exact hs.2 hh
    rw [hcopy, hwritten, Function.update_of_ne hda]
    exact hc.fresh h d hh hs.1
  · rw [hdirty] at hd
    rcases (hstale h).mp hs with hs | hh
    · exact hc.dirty_fresh h hd hs
    · exact hnone h hd hh
  · rw [hmedium, hwritten]
    by_cases hda : d = a
    · rw [hda, Function.update_self, Function.update_self]
    · rw [Function.update_of_ne hda, Function.update_of_ne hda]
      rw [hdirty, hhome] at hd
      exact hc.settled d hd
  · rw [hmedium, hwritten]
    by_cases hda : d = a
    · right
      rw [hda, Function.update_self, Function.update_self]
    · left
      rw [Function.update_of_ne hda]

end Cache

end WriteBack
