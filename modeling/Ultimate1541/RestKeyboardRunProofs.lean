import Ultimate1541.RestKeyboardProofs

/-! # What holds of the REST keyboard in any order of calls and ticks

    A key that a tap holds is in one of three stages (`Stage`): it waits for the setup of its
    chord, it is down for some more ticks, or it is up.  A tick takes one from the count of the
    stage, and only when all counts are done, and the gap as well, may the next tap start.

    The count of a chord's setup keys is two ticks longer than the tap's, in 8 bits: with a
    tap of 254 ticks the count is 0, and the keys stay down (`RestTapEntry.Fits`). -/

namespace RestKeyboard

/-! ## Entries -/

namespace RestTapEntry

/-- The ticks for which the keys of the setup, or all keys, are to be down. -/
def firstTicks (entry : RestTapEntry) : Nat :=
  entry.holdTicks.toNat +
    (if entry.hasDeferred then restTapChordSetupTicks.toNat + restTapChordReleaseTicks.toNat else 0)

/-- The count of the setup keys of a chord has 8 bits. -/
def Fits (entry : RestTapEntry) : Prop := entry.firstTicks < 2 ^ 8

instance (entry : RestTapEntry) : Decidable entry.Fits := inferInstanceAs (Decidable (_ < _))

theorem firstHold_toNat {entry : RestTapEntry} (h : entry.Fits) : entry.firstHold.toNat = entry.firstTicks := by
  rw [Fits, firstTicks] at h
  rw [firstHold, firstTicks]
  split
  next hdeferred =>
    rw [if_pos hdeferred] at h
    rw [UInt8.toNat_add, UInt8.toNat_add, Nat.add_mod_mod, Nat.mod_eq_of_lt h]
  · rw [UInt8.add_zero, Nat.add_zero]

theorem firstMatrix_or_deferred {entry : RestTapEntry} {row col : Fin 8}
    (h : entry.matrix row col = true) (hfirst : entry.firstMatrix row col = false) :
    entry.deferredMatrix row col = true := by
  rw [deferredMatrix, hfirst, h]
  cases hsetup : entry.hasSetup with
  | true => rfl
  | false =>
      rw [firstMatrix, hsetup] at hfirst
      exact absurd (hfirst.symm.trans h) Bool.false_ne_true

theorem hasDeferred_of {entry : RestTapEntry} {row col : Fin 8} (h : entry.deferredMatrix row col = true) :
    entry.hasDeferred = true :=
  decide_eq_true ⟨row, col, h⟩

end RestTapEntry

theorem restTapGapTicks_ne_zero : restTapGapTicks ≠ 0 := by decide

theorem toNat_pos_of_ne {n : UInt8} (h : n ≠ 0) : 0 < n.toNat :=
  Nat.pos_of_ne_zero fun hzero => h (UInt8.toNat_inj.mp hzero)

/-- A count goes down by one. -/
theorem toNat_pred {n : UInt8} (h : n ≠ 0) : (n - 1).toNat = n.toNat - 1 :=
  UInt8.toNat_sub_of_le n 1 (UInt8.le_iff_toNat_le.mpr (toNat_pos_of_ne h))

theorem pred_ne_zero {n : UInt8} (h : n ≠ 0) (hone : n ≠ 1) : n - 1 ≠ 0 := by
  intro hzero
  refine hone (UInt8.toNat_inj.mp ?_)
  have hpred := toNat_pred h
  have hpos := toNat_pos_of_ne h
  rw [hzero] at hpred
  change 0 = n.toNat - 1 at hpred
  change n.toNat = 1
  omega

/-! ## The matrices -/

/-- No key is in both matrices, each key of the overlay has a count, and the taps that wait
    have one that fits. -/
structure Sound (r : Rest) : Prop where
  apart : ∀ row col, r.restMatrixState row col = true → r.restMatrixOverlay row col = false
  held : ∀ row col, r.restMatrixOverlay row col = true → r.restOverlayHold row col ≠ 0
  taps : ∀ entry ∈ r.taps.queued, entry.holdTicks ≠ 0 ∧ entry.Fits

namespace Sound

variable {r : Rest}

theorem overlay (h : Sound r) (matrix : Matrix) {hold : UInt8} (hhold : hold ≠ 0) :
    Sound (r.overlay matrix hold) where
  apart row col hstate := by
    have hstate' : r.restMatrixState row col = true := hstate
    simp only [Rest.overlay, h.apart row col hstate', hstate', Bool.not_true, Bool.and_false, Bool.or_false]
  held row col hdown := by
    simp only [Rest.overlay] at hdown ⊢
    split
    · exact hhold
    next hkey =>
      rw [Bool.not_eq_true] at hkey
      rw [hkey, Bool.false_and, Bool.or_false] at hdown
      exact h.held row col hdown
  taps := h.taps

theorem restPressMatrix (h : Sound r) (m : Matrix) : Sound (r.restPressMatrix m) where
  apart row col hstate := by
    simp only [Rest.restPressMatrix, Bool.or_eq_true] at hstate ⊢
    rcases hstate with hstate | hpress
    · rw [h.apart row col hstate, Bool.false_and]
    · rw [hpress, Bool.not_true, Bool.and_false]
  held row col hdown := by
    simp only [Rest.restPressMatrix, Bool.and_eq_true, Bool.not_eq_true'] at hdown ⊢
    rw [hdown.2]
    exact h.held row col hdown.1
  taps := h.taps

theorem restReleaseMatrix (h : Sound r) (m : Matrix) : Sound (r.restReleaseMatrix m) where
  apart row col hstate := by
    simp only [Rest.restReleaseMatrix, Bool.and_eq_true] at hstate
    exact h.apart row col hstate.1
  held := h.held
  taps := h.taps

theorem restReleaseAll (r : Rest) : Sound r.restReleaseAll where
  apart _ _ _ := rfl
  held _ _ hdown := nomatch hdown
  taps entry hentry := by
    have hqueued : entry ∈ r.taps.clear.queued := hentry
    rw [TapQueue.clear_queued] at hqueued
    exact nomatch hqueued

theorem restQueueTap (h : Sound r) {matrix setupMatrix : Matrix} {restore : Bool} {holdTicks : UInt8}
    (hfits : (⟨matrix, setupMatrix, holdTicks, restore⟩ : RestTapEntry).Fits) :
    Sound (r.restQueueTap matrix setupMatrix restore holdTicks).2 := by
  rw [Rest.restQueueTap]
  split
  · exact h
  next hhold =>
    split
    · exact h
    · cases hpush : r.taps.push ⟨matrix, setupMatrix, holdTicks, restore⟩ with
      | none => exact h
      | some taps =>
          refine ⟨h.apart, h.held, fun entry hentry => ?_⟩
          change entry ∈ taps.queued at hentry
          rw [TapQueue.push_queued hpush, List.mem_append, List.mem_singleton] at hentry
          rcases hentry with hentry | rfl
          · exact h.taps entry hentry
          · exact ⟨hhold, hfits⟩

theorem countKeys (h : Sound r) : Sound r.countKeys.2 where
  apart row col hstate := by
    have hstate' : r.restMatrixState row col = true := hstate
    simp only [Rest.countKeys, h.apart row col hstate', Bool.false_and]
  held row col hdown := by
    simp only [Rest.countKeys, Bool.and_eq_true, bne_iff_ne, ne_eq] at hdown ⊢
    rw [if_neg (h.held row col hdown.1)]
    exact pred_ne_zero (h.held row col hdown.1) hdown.2
  taps := h.taps

theorem countRestore (h : Sound r) : Sound r.countRestore.2 := by
  rw [Rest.countRestore]
  split
  · split
    · exact ⟨h.apart, h.held, h.taps⟩
    · exact ⟨h.apart, h.held, h.taps⟩
  · exact h

theorem countDelay (h : Sound r) : Sound r.countDelay.2 := by
  rw [Rest.countDelay]
  split
  · exact h
  next hpending =>
    have hover := h.overlay r.restPendingTapMatrix hpending
    split
    · exact ⟨hover.apart, hover.held, hover.taps⟩
    · exact ⟨h.apart, h.held, h.taps⟩

theorem deferKeys (h : Sound r) (entry : RestTapEntry) : Sound (r.deferKeys entry) := by
  rw [Rest.deferKeys]
  split
  · exact ⟨h.apart, h.held, h.taps⟩
  · exact h

theorem startRestore (h : Sound r) (entry : RestTapEntry) : Sound (r.startRestore entry) := by
  rw [Rest.startRestore]
  split
  · exact ⟨h.apart, h.held, h.taps⟩
  · exact h

theorem startRestTap (h : Sound r) {entry : RestTapEntry} (hhold : entry.holdTicks ≠ 0) (hfits : entry.Fits) :
    Sound (r.startRestTap entry) := by
  have hne : entry.firstHold ≠ 0 := by
    intro hzero
    have hcount := RestTapEntry.firstHold_toNat hfits
    rw [hzero] at hcount
    have hpos := toNat_pos_of_ne hhold
    rw [RestTapEntry.firstTicks] at hcount
    change 0 = entry.holdTicks.toNat + _ at hcount
    omega
  exact ((h.overlay entry.firstMatrix hne).deferKeys entry).startRestore entry

theorem countGap (h : Sound r) : Sound r.countGap.2 := by
  rw [Rest.countGap]
  split
  · exact h
  · split
    · exact ⟨h.apart, h.held, h.taps⟩
    · cases hfront : r.taps.front with
      | none => exact h
      | some entry =>
          have hqueued := TapQueue.front_queued hfront
          have hentry := h.taps entry (hqueued ▸ List.mem_cons_self)
          have hstart := h.startRestTap hentry.1 hentry.2
          refine ⟨hstart.apart, hstart.held, fun other hother => h.taps other ?_⟩
          rw [hqueued]
          exact List.mem_cons_of_mem _ hother

theorem counted (h : Sound r) : Sound r.counted := h.countKeys.countRestore.countDelay

theorem tickRestOverlays (h : Sound r) : Sound r.tickRestOverlays.2 := h.counted.countGap

end Sound

/-- A tap that is queued fits. -/
def Call.Fits : Call → Prop
  | .restQueueTap matrix setupMatrix restore holdTicks =>
      (⟨matrix, setupMatrix, holdTicks, restore⟩ : RestTapEntry).Fits
  | _ => True

theorem Sound.call {r : Rest} (h : Sound r) {c : Call} (hfits : c.Fits) : Sound (r.call c) := by
  cases c with
  | restPress row col =>
      simp only [Rest.call, Rest.restPress]
      split
      · exact h
      · exact h.restPressMatrix _
  | restRelease row col =>
      simp only [Rest.call, Rest.restRelease]
      split
      · exact h
      · exact h.restReleaseMatrix _
  | restPressMatrix m => exact h.restPressMatrix m
  | restReleaseMatrix m => exact h.restReleaseMatrix m
  | restBeginMatrixControl => exact ⟨h.apart, h.held, h.taps⟩
  | restEndMatrixControl => exact ⟨h.apart, h.held, h.taps⟩
  | restTap row col holdTicks =>
      simp only [Rest.call, Rest.restTap]
      split
      · exact h
      next hargs => exact h.overlay _ fun hzero => hargs (Or.inr (Or.inr hzero))
  | restQueueTap matrix setupMatrix restore holdTicks => exact h.restQueueTap hfits
  | restPressRestore => exact ⟨h.apart, h.held, h.taps⟩
  | restReleaseRestore => exact ⟨h.apart, h.held, h.taps⟩
  | restTapRestore holdTicks =>
      simp only [Rest.call, Rest.restTapRestore]
      split
      · exact h
      · exact ⟨h.apart, h.held, h.taps⟩
  | restReleaseAll => exact Sound.restReleaseAll r
  | tickRestOverlays => exact h.tickRestOverlays
  | «local» => exact h

theorem Sound.run {r : Rest} (h : Sound r) {calls : List Call} (hfits : ∀ c ∈ calls, c.Fits) :
    Sound (r.run calls) := by
  induction calls generalizing r with
  | nil => exact h
  | cons c calls ih =>
      exact ih (h.call (hfits c List.mem_cons_self)) fun d hd => hfits d (List.mem_cons_of_mem c hd)

/-! ## The order of the taps -/

namespace Rest

/-- A tap that waits when it is queued: it holds a key for some ticks, and there is room. -/
def takes (r : Rest) (entry : RestTapEntry) : List RestTapEntry :=
  if entry.holdTicks = 0 ∨ (entry.restore || entry.matrix.hasAny) = false ∨ (r.taps.push entry).isNone then []
  else [entry]

/-- The taps that a call puts into the ring. -/
def accepts (r : Rest) : Call → List RestTapEntry
  | .restQueueTap matrix setupMatrix restore holdTicks => r.takes ⟨matrix, setupMatrix, holdTicks, restore⟩
  | _ => []

/-- The taps that a call starts. -/
def starts (r : Rest) : Call → List RestTapEntry
  | .tickRestOverlays => r.counted.nextTap.toList
  | _ => []

def accepted (r : Rest) : List Call → List RestTapEntry
  | [] => []
  | c :: calls => r.accepts c ++ (r.call c).accepted calls

def started (r : Rest) : List Call → List RestTapEntry
  | [] => []
  | c :: calls => r.starts c ++ (r.call c).started calls

end Rest

/-- The calls that empty the ring. -/
def Call.isReleaseAll : Call → Bool
  | .restReleaseAll => true
  | _ => false

def Call.isTick : Call → Bool
  | .tickRestOverlays => true
  | _ => false

/-- The count of RESTORE touches no key, no tap and no gap that it does not start. -/
theorem countRestore_keeps (r : Rest) :
    r.countRestore.2.restMatrixState = r.restMatrixState ∧
      r.countRestore.2.restMatrixOverlay = r.restMatrixOverlay ∧
      r.countRestore.2.restOverlayHold = r.restOverlayHold ∧
      r.countRestore.2.taps = r.taps ∧
      r.countRestore.2.restPendingTapMatrix = r.restPendingTapMatrix ∧
      r.countRestore.2.restPendingTapHold = r.restPendingTapHold ∧
      r.countRestore.2.restPendingTapDelay = r.restPendingTapDelay ∧
      (r.restTapGapTicks ≠ 0 → r.countRestore.2.restTapGapTicks ≠ 0) := by
  rw [Rest.countRestore]
  split
  · split
    · exact ⟨rfl, rfl, rfl, rfl, rfl, rfl, rfl, fun _ => restTapGapTicks_ne_zero⟩
    · exact ⟨rfl, rfl, rfl, rfl, rfl, rfl, rfl, id⟩
  · exact ⟨rfl, rfl, rfl, rfl, rfl, rfl, rfl, id⟩

theorem countDelay_taps (r : Rest) : r.countDelay.2.taps = r.taps := by
  rw [Rest.countDelay]
  split
  · rfl
  · split <;> rfl

theorem counted_taps (r : Rest) : r.counted.taps = r.taps :=
  (countDelay_taps _).trans (countRestore_keeps r.countKeys.2).2.2.2.1

/-- What the end of a tick does: nothing but the gap, or the start of the next tap. -/
theorem countGap_cases (r : Rest) :
    (r.nextTap = none ∧
      (r.countGap.2 = r ∨ r.countGap.2 = { r with restTapGapTicks := r.restTapGapTicks - 1 })) ∨
    (∃ entry, r.nextTap = some entry ∧ r.taps.front = some entry ∧ r.restTapOverlayActive = false ∧
      r.restTapGapTicks = 0 ∧ r.countGap.2 = { r.startRestTap entry with taps := r.taps.dropFront }) := by
  by_cases hactive : r.restTapOverlayActive = true
  · refine Or.inl ⟨?_, Or.inl ?_⟩
    · rw [Rest.nextTap, hactive, Bool.true_or, if_pos rfl]
    · rw [Rest.countGap, if_pos hactive]
  · by_cases hgap : r.restTapGapTicks > 0
    · refine Or.inl ⟨?_, Or.inr ?_⟩
      · rw [Rest.nextTap, decide_eq_true hgap, Bool.or_true, if_pos rfl]
      · rw [Rest.countGap, if_neg hactive, if_pos hgap]
    · have hnext : r.nextTap = r.taps.front := by
        rw [Rest.nextTap, decide_eq_false hgap, Bool.or_false, if_neg hactive]
      have hzero : r.restTapGapTicks = 0 := by
        refine UInt8.toNat_inj.mp ?_
        rw [gt_iff_lt, UInt8.lt_iff_toNat_lt] at hgap
        exact Nat.eq_zero_of_not_pos hgap
      cases hfront : r.taps.front with
      | none =>
          refine Or.inl ⟨hnext.trans hfront, Or.inl ?_⟩
          rw [Rest.countGap, if_neg hactive, if_neg hgap, hfront]
      | some entry =>
          refine Or.inr ⟨entry, hnext.trans hfront, rfl, Bool.not_eq_true _ ▸ hactive, hzero, ?_⟩
          rw [Rest.countGap, if_neg hactive, if_neg hgap, hfront]

theorem restQueueTap_queued (r : Rest) (matrix setupMatrix : Matrix) (restore : Bool) (holdTicks : UInt8) :
    r.taps.queued ++ r.takes ⟨matrix, setupMatrix, holdTicks, restore⟩ =
      (r.restQueueTap matrix setupMatrix restore holdTicks).2.taps.queued := by
  rw [Rest.restQueueTap]
  by_cases hhold : holdTicks = 0
  · rw [Rest.takes, if_pos hhold, if_pos (Or.inl hhold), List.append_nil]
  · rw [if_neg hhold]
    cases hany : (restore || matrix.hasAny) with
    | false => rw [Rest.takes, if_pos (Or.inr (Or.inl hany)), Bool.not_false, if_pos rfl, List.append_nil]
    | true =>
        rw [Bool.not_true, if_neg Bool.false_ne_true]
        cases hpush : r.taps.push ⟨matrix, setupMatrix, holdTicks, restore⟩ with
        | none =>
            have hnone : (r.taps.push ⟨matrix, setupMatrix, holdTicks, restore⟩).isNone = true := by
              rw [hpush, Option.isNone_none]
            rw [Rest.takes, if_pos (Or.inr (Or.inr hnone)), List.append_nil]
        | some taps =>
            rw [Rest.takes, hpush, if_neg, TapQueue.push_queued hpush]
            rintro (hzero | hfalse | hnone)
            · exact hhold hzero
            · exact Bool.false_ne_true (hfalse.symm.trans hany)
            · exact nomatch hnone

/-- What waits, and what a call puts behind it, is what the call starts and what waits then. -/
theorem call_queued (r : Rest) {c : Call} (h : c.isReleaseAll = false) :
    r.taps.queued ++ r.accepts c = r.starts c ++ (r.call c).taps.queued := by
  cases c with
  | restPress row col =>
      refine (List.append_nil _).trans (congrArg TapQueue.queued ?_)
      rw [Rest.call, Rest.restPress]
      split <;> rfl
  | restRelease row col =>
      refine (List.append_nil _).trans (congrArg TapQueue.queued ?_)
      rw [Rest.call, Rest.restRelease]
      split <;> rfl
  | restTap row col holdTicks =>
      refine (List.append_nil _).trans (congrArg TapQueue.queued ?_)
      rw [Rest.call, Rest.restTap]
      split <;> rfl
  | restTapRestore holdTicks =>
      refine (List.append_nil _).trans (congrArg TapQueue.queued ?_)
      rw [Rest.call, Rest.restTapRestore]
      split <;> rfl
  | restReleaseAll => exact nomatch h
  | restQueueTap matrix setupMatrix restore holdTicks =>
      exact restQueueTap_queued r matrix setupMatrix restore holdTicks
  | tickRestOverlays =>
      refine (List.append_nil _).trans ?_
      change r.taps.queued = r.counted.nextTap.toList ++ r.counted.countGap.2.taps.queued
      rw [← counted_taps r]
      rcases countGap_cases r.counted with ⟨hnone, hsame | hsame⟩ | ⟨entry, hnext, hfront, _, _, hgap⟩
      · rw [hnone, hsame]
        rfl
      · rw [hnone, hsame]
        rfl
      · rw [hnext, hgap]
        exact TapQueue.front_queued hfront
  | _ => exact List.append_nil _

theorem run_queued (r : Rest) {calls : List Call} (h : ∀ c ∈ calls, c.isReleaseAll = false) :
    r.taps.queued ++ r.accepted calls = r.started calls ++ (r.run calls).taps.queued := by
  induction calls generalizing r with
  | nil => exact List.append_nil _
  | cons c calls ih =>
      have hcall := call_queued r (h c List.mem_cons_self)
      have hcalls := ih (r.call c) fun d hd => h d (List.mem_cons_of_mem c hd)
      calc r.taps.queued ++ (r.accepts c ++ (r.call c).accepted calls)
          = (r.taps.queued ++ r.accepts c) ++ (r.call c).accepted calls := (List.append_assoc ..).symm
        _ = r.starts c ++ ((r.call c).taps.queued ++ (r.call c).accepted calls) := by
            rw [hcall, List.append_assoc]
        _ = r.starts c ++ ((r.call c).started calls ++ ((r.call c).run calls).taps.queued) := by rw [hcalls]
        _ = r.started (c :: calls) ++ (r.run (c :: calls)).taps.queued := (List.append_assoc ..).symm

/-! ## One key of a tap -/

/-- Where a key of a tap is, with the ticks that it still waits, and those that it is down. -/
inductive Stage (r : Rest) (row col : Fin 8) : Nat → Nat → Prop where
  | waiting : r.restPendingTapHold ≠ 0 → r.restPendingTapDelay = restTapChordSetupTicks →
      r.restPendingTapMatrix row col = true → r.restMatrixOverlay row col = false →
      Stage r row col 1 r.restPendingTapHold.toNat
  | down : r.restOverlayHold row col ≠ 0 → r.restMatrixOverlay row col = true →
      (r.restPendingTapHold ≠ 0 → r.restPendingTapMatrix row col = false) →
      Stage r row col 0 (r.restOverlayHold row col).toNat
  | up : r.restOverlayHold row col = 0 → r.restMatrixOverlay row col = false →
      (r.restPendingTapHold ≠ 0 → r.restPendingTapMatrix row col = false) → Stage r row col 0 0

/-- The stage depends on what is said of the key alone. -/
theorem Stage.congr {r r' : Rest} {row col : Fin 8} {wait hold : Nat} (h : Stage r row col wait hold)
    (hoverlay : r'.restMatrixOverlay row col = r.restMatrixOverlay row col)
    (hhold : r'.restOverlayHold row col = r.restOverlayHold row col)
    (hmatrix : r'.restPendingTapMatrix = r.restPendingTapMatrix)
    (hpending : r'.restPendingTapHold = r.restPendingTapHold)
    (hdelay : r'.restPendingTapDelay = r.restPendingTapDelay) : Stage r' row col wait hold := by
  cases h with
  | waiting hne hwait hkey hup =>
      rw [← hpending]
      exact .waiting (hpending ▸ hne) (hdelay.trans hwait) (hmatrix ▸ hkey) (hoverlay.trans hup)
  | down hne hdown hfree =>
      rw [← hhold]
      exact .down (hhold ▸ hne) (hoverlay.trans hdown) (hmatrix ▸ hpending ▸ hfree)
  | up hzero hup hfree => exact .up (hhold.trans hzero) (hoverlay.trans hup) (hmatrix ▸ hpending ▸ hfree)

/-- A key is seen while it is down. -/
theorem Stage.overlay_iff {r : Rest} {row col : Fin 8} {wait hold : Nat} (h : Stage r row col wait hold) :
    r.restMatrixOverlay row col = true ↔ wait = 0 ∧ 0 < hold := by
  cases h with
  | waiting _ _ _ hup => simp [hup]
  | down hne hdown _ => simp [hdown, toNat_pos_of_ne hne]
  | up _ hup _ => simp [hup]

theorem Stage.of_up {r : Rest} {row col : Fin 8} {wait hold : Nat} (h : Stage r row col wait hold)
    (hwait : wait = 0) (hhold : hold = 0) :
    r.restOverlayHold row col = 0 ∧ r.restMatrixOverlay row col = false ∧
      (r.restPendingTapHold ≠ 0 → r.restPendingTapMatrix row col = false) := by
  cases h with
  | waiting => exact nomatch hwait
  | down hne => exact absurd hhold (Nat.ne_of_gt (toNat_pos_of_ne hne))
  | up hzero hup hfree => exact ⟨hzero, hup, hfree⟩

/-- As long as a key waits or is down, no tap starts. -/
theorem Stage.active {r : Rest} {row col : Fin 8} {wait hold : Nat} (h : Stage r row col wait hold)
    (hrun : wait ≠ 0 ∨ hold ≠ 0) : r.restTapOverlayActive = true := by
  rw [Rest.restTapOverlayActive]
  cases h with
  | waiting hne => simp [hne]
  | down hne => simp [show ∃ row col, r.restOverlayHold row col ≠ 0 from ⟨row, col, hne⟩]
  | up => simp at hrun

theorem Stage.countKeys {r : Rest} {row col : Fin 8} {wait hold : Nat} (h : Stage r row col wait hold) :
    Stage r.countKeys.2 row col wait (if wait = 0 then hold - 1 else hold) := by
  cases h with
  | waiting hne hdelay hkey hup =>
      refine .waiting hne hdelay hkey ?_
      simp only [Rest.countKeys, hup, Bool.false_and]
  | down hne hdown hfree =>
      rw [if_pos rfl, ← toNat_pred hne]
      have hpred : r.countKeys.2.restOverlayHold row col = r.restOverlayHold row col - 1 := by
        simp only [Rest.countKeys, if_neg hne]
      by_cases hone : r.restOverlayHold row col = 1
      · rw [hone] at hpred ⊢
        refine .up hpred ?_ hfree
        simp only [Rest.countKeys, hone, bne_self_eq_false, Bool.and_false]
      · rw [← hpred]
        refine .down (hpred ▸ pred_ne_zero hne hone) ?_ hfree
        simp only [Rest.countKeys, hdown, Bool.true_and, bne_iff_ne]
        exact hone
  | up hzero hup hfree =>
      rw [if_pos rfl]
      refine .up ?_ ?_ hfree
      · simp only [Rest.countKeys, hzero, if_pos]
      · simp only [Rest.countKeys, hup, Bool.false_and]

theorem Stage.countRestore {r : Rest} {row col : Fin 8} {wait hold : Nat} (h : Stage r row col wait hold) :
    Stage r.countRestore.2 row col wait hold := by
  obtain ⟨-, hoverlay, hhold, -, hmatrix, hpending, hdelay, -⟩ := countRestore_keeps r
  exact h.congr (congrFun (congrFun hoverlay row) col) (congrFun (congrFun hhold row) col) hmatrix hpending hdelay

/-- A key that waits goes down; the others are not keys of the chord. -/
theorem Stage.countDelay {r : Rest} {row col : Fin 8} {wait hold : Nat} (h : Stage r row col wait hold)
    (hstate : r.restMatrixState row col = false) : Stage r.countDelay.2 row col (wait - 1) hold := by
  have hother (hfree : r.restPendingTapHold ≠ 0 → r.restPendingTapMatrix row col = false) :
      r.countDelay.2.restMatrixOverlay row col = r.restMatrixOverlay row col ∧
        r.countDelay.2.restOverlayHold row col = r.restOverlayHold row col ∧
        (r.countDelay.2.restPendingTapHold ≠ 0 → r.countDelay.2.restPendingTapMatrix row col = false) := by
    rw [Rest.countDelay]
    split
    · exact ⟨rfl, rfl, hfree⟩
    next hpending =>
      split
      · refine ⟨?_, ?_, fun hzero => absurd rfl hzero⟩
        · simp only [Rest.overlay, hfree hpending, Bool.false_and, Bool.or_false]
        · simp only [Rest.overlay, hfree hpending, Bool.false_eq_true, if_false]
      · exact ⟨rfl, rfl, hfree⟩
  cases h with
  | waiting hne hdelay hkey hup =>
      have hnext : r.nextDelay = 0 := by
        rw [Rest.nextDelay, hdelay]
        decide
      have hdown : r.countDelay.2.restMatrixOverlay row col = true ∧
          r.countDelay.2.restOverlayHold row col = r.restPendingTapHold ∧
          r.countDelay.2.restPendingTapHold = 0 := by
        rw [Rest.countDelay, if_neg hne, if_pos hnext]
        refine ⟨?_, ?_, rfl⟩
        · simp only [Rest.overlay, hkey, hstate, Bool.not_false, Bool.and_true, Bool.or_true]
        · simp only [Rest.overlay, hkey, if_pos]
      rw [← hdown.2.1]
      exact .down (hdown.2.1 ▸ hne) hdown.1 fun hpending => absurd hdown.2.2 hpending
  | down hne hdown hfree =>
      obtain ⟨hoverlay, hhold, hfree'⟩ := hother hfree
      rw [← hhold]
      exact .down (hhold ▸ hne) (hoverlay.trans hdown) hfree'
  | up hzero hup hfree =>
      obtain ⟨hoverlay, hhold, hfree'⟩ := hother hfree
      exact .up (hhold.trans hzero) (hoverlay.trans hup) hfree'

/-- The counts of a tick: a key that waits goes down, and one that is down loses a tick. -/
theorem Stage.counted {r : Rest} {row col : Fin 8} {wait hold : Nat} (h : Stage r row col wait hold)
    (hstate : r.restMatrixState row col = false) :
    Stage r.counted row col (wait - 1) (if wait = 0 then hold - 1 else hold) := by
  refine h.countKeys.countRestore.countDelay ?_
  exact (congrFun (congrFun (countRestore_keeps r.countKeys.2).1 row) col).trans hstate

/-- With the last tick of a key the gap starts. -/
theorem Stage.counted_gap {r : Rest} {row col : Fin 8} (h : Stage r row col 0 1) :
    r.counted.restTapGapTicks ≠ 0 := by
  have hgap : r.counted.restTapGapTicks = r.countKeys.2.countRestore.2.restTapGapTicks := by
    rw [Rest.counted, Rest.countDelay]
    split
    · rfl
    · split <;> rfl
  rw [hgap]
  refine (countRestore_keeps r.countKeys.2).2.2.2.2.2.2.2 ?_
  generalize hhold : 1 = hold at h
  cases h with
  | down hne hdown hfree =>
      have hone : ∃ row col, r.restOverlayHold row col = 1 := ⟨row, col, UInt8.toNat_inj.mp hhold.symm⟩
      simp only [Rest.countKeys, decide_eq_true hone, if_pos]
      exact restTapGapTicks_ne_zero
  | up => exact nomatch hhold

theorem counted_state (r : Rest) : r.counted.restMatrixState = r.restMatrixState := by
  have hdelay : r.counted.restMatrixState = r.countKeys.2.countRestore.2.restMatrixState := by
    rw [Rest.counted, Rest.countDelay]
    split
    · rfl
    · split <;> rfl
  exact hdelay.trans (countRestore_keeps r.countKeys.2).1

/-- A tap starts only when the key has been up. -/
theorem Stage.nextTap {r : Rest} {row col : Fin 8} {wait hold : Nat} (h : Stage r row col wait hold)
    (hstate : r.restMatrixState row col = false) {entry : RestTapEntry} (hnext : r.counted.nextTap = some entry) :
    wait = 0 ∧ hold = 0 := by
  rw [Rest.nextTap] at hnext
  split at hnext
  · exact nomatch hnext
  next hidle =>
    rw [Bool.or_eq_true, decide_eq_true_eq, not_or] at hidle
    have hcounted := h.counted hstate
    have hdone : ¬ (wait - 1 ≠ 0 ∨ (if wait = 0 then hold - 1 else hold) ≠ 0) :=
      fun hrun => hidle.1 (hcounted.active hrun)
    have hlast : ¬ (wait = 0 ∧ hold = 1) := by
      rintro ⟨rfl, rfl⟩
      exact hidle.2 (UInt8.lt_iff_toNat_lt.mpr (toNat_pos_of_ne h.counted_gap))
    cases h with
    | waiting hne =>
        have hpos := toNat_pos_of_ne hne
        rw [if_neg (by decide)] at hdone
        omega
    | down =>
        rw [if_pos rfl] at hdone
        omega
    | up => exact ⟨rfl, rfl⟩

theorem startRestTap_key (r : Rest) {entry : RestTapEntry} {row col : Fin 8}
    (h : entry.matrix row col = false) :
    (r.startRestTap entry).restMatrixOverlay row col = r.restMatrixOverlay row col ∧
      (r.startRestTap entry).restOverlayHold row col = r.restOverlayHold row col ∧
      ((r.restPendingTapHold ≠ 0 → r.restPendingTapMatrix row col = false) →
        (r.startRestTap entry).restPendingTapHold ≠ 0 →
          (r.startRestTap entry).restPendingTapMatrix row col = false) := by
  have hfirst : entry.firstMatrix row col = false := by
    rw [RestTapEntry.firstMatrix, h, Bool.and_false, ite_self]
  have hdeferred : entry.deferredMatrix row col = false := by
    rw [RestTapEntry.deferredMatrix, h, Bool.and_false, Bool.false_and]
  have hover : (r.overlay entry.firstMatrix entry.firstHold).restMatrixOverlay row col =
      r.restMatrixOverlay row col := by
    simp only [Rest.overlay, hfirst, Bool.false_and, Bool.or_false]
  have hhold : (r.overlay entry.firstMatrix entry.firstHold).restOverlayHold row col =
      r.restOverlayHold row col := by
    simp only [Rest.overlay, hfirst]
    rfl
  rw [Rest.startRestTap, Rest.startRestore, Rest.deferKeys]
  split <;> split
  · exact ⟨hover, hhold, fun _ _ => hdeferred⟩
  · exact ⟨hover, hhold, id⟩
  · exact ⟨hover, hhold, fun _ _ => hdeferred⟩
  · exact ⟨hover, hhold, id⟩

/-- A tick that starts no tap of the key. -/
theorem Stage.tick {r : Rest} {row col : Fin 8} {wait hold : Nat} (h : Stage r row col wait hold)
    (hstate : r.restMatrixState row col = false)
    (hother : ∀ entry ∈ r.starts .tickRestOverlays, entry.matrix row col = false) :
    Stage r.tickRestOverlays.2 row col (wait - 1) (if wait = 0 then hold - 1 else hold) := by
  have hcounted := h.counted hstate
  change Stage r.counted.countGap.2 row col _ _
  rcases countGap_cases r.counted with ⟨_, hgap | hgap⟩ | ⟨entry, hnext, _, _, _, hgap⟩
  · rw [hgap]
    exact hcounted
  · rw [hgap]
    exact hcounted.congr rfl rfl rfl rfl rfl
  · have hkey : entry.matrix row col = false := hother entry (by simp [Rest.starts, hnext])
    obtain ⟨hoverlay, hhold, hfree⟩ := startRestTap_key r.counted hkey
    obtain ⟨rfl, rfl⟩ := h.nextTap hstate hnext
    obtain ⟨hzero, hup, hpending⟩ := hcounted.of_up rfl rfl
    rw [hgap]
    exact .up (hhold.trans hzero) (hoverlay.trans hup) (hfree hpending)

theorem startRestTap_state (r : Rest) (entry : RestTapEntry) :
    (r.startRestTap entry).restMatrixState = r.restMatrixState := by
  rw [Rest.startRestTap, Rest.startRestore, Rest.deferKeys]
  split <;> split <;> rfl

theorem tick_state (r : Rest) : r.tickRestOverlays.2.restMatrixState = r.restMatrixState := by
  rw [← counted_state r]
  change r.counted.countGap.2.restMatrixState = _
  rcases countGap_cases r.counted with ⟨_, hgap | hgap⟩ | ⟨entry, _, _, _, _, hgap⟩
  · rw [hgap]
  · rw [hgap]
  · rw [hgap]
    exact startRestTap_state r.counted entry

/-- The calls that press or tap a key themselves, or let go of everything. -/
def Call.Touches (row col : Fin 8) : Call → Prop
  | .restPress rowArg colArg => keyBit rowArg colArg row col = true
  | .restPressMatrix pressMatrix => pressMatrix row col = true
  | .restTap rowArg colArg _ => keyBit rowArg colArg row col = true
  | .restReleaseAll => True
  | _ => False

/-- The ticks of a list of calls. -/
def ticks (calls : List Call) : Nat := calls.countP Call.isTick

/-- A key that is not pressed, at its stage. -/
def At (r : Rest) (row col : Fin 8) (wait hold : Nat) : Prop :=
  r.restMatrixState row col = false ∧ Stage r row col wait hold

theorem At.restPressMatrix {r : Rest} {row col : Fin 8} {wait hold : Nat} (h : At r row col wait hold)
    {m : Matrix} (hm : m row col = false) : At (r.restPressMatrix m) row col wait hold := by
  refine ⟨?_, h.2.congr ?_ ?_ rfl rfl rfl⟩
  · simp only [Rest.restPressMatrix, h.1, hm, Bool.or_false]
  · simp only [Rest.restPressMatrix, hm, Bool.not_false, Bool.and_true]
  · simp only [Rest.restPressMatrix, hm, Bool.false_eq_true, if_false]

theorem At.restReleaseMatrix {r : Rest} {row col : Fin 8} {wait hold : Nat} (h : At r row col wait hold)
    (m : Matrix) : At (r.restReleaseMatrix m) row col wait hold := by
  refine ⟨?_, h.2.congr rfl rfl rfl rfl rfl⟩
  simp only [Rest.restReleaseMatrix, h.1, Bool.false_and]

/-- The stage of a key is changed by the ticks alone. -/
theorem At.call_other {r : Rest} {row col : Fin 8} {wait hold : Nat} (h : At r row col wait hold) {c : Call}
    (huntouched : ¬ c.Touches row col) (htick : c.isTick = false) : At (r.call c) row col wait hold := by
  cases c with
  | restPress rowArg colArg =>
      simp only [Rest.call, Rest.restPress]
      split
      · exact h
      · exact h.restPressMatrix (Bool.eq_false_iff.mpr huntouched)
  | restRelease rowArg colArg =>
      simp only [Rest.call, Rest.restRelease]
      split
      · exact h
      · exact h.restReleaseMatrix _
  | restPressMatrix m => exact h.restPressMatrix (Bool.eq_false_iff.mpr huntouched)
  | restReleaseMatrix m => exact h.restReleaseMatrix m
  | restTap rowArg colArg holdTicks =>
      simp only [Rest.call, Rest.restTap]
      split
      · exact h
      · have hkey : keyBit rowArg colArg row col = false := Bool.eq_false_iff.mpr huntouched
        refine ⟨h.1, h.2.congr ?_ ?_ rfl rfl rfl⟩
        · simp only [Rest.overlay, hkey, Bool.false_and, Bool.or_false]
        · simp only [Rest.overlay, hkey, Bool.false_eq_true, if_false]
  | restQueueTap matrix setupMatrix restore holdTicks =>
      simp only [Rest.call, Rest.restQueueTap]
      split
      · exact h
      · split
        · exact h
        · split
          · exact h
          · exact ⟨h.1, h.2.congr rfl rfl rfl rfl rfl⟩
  | restTapRestore holdTicks =>
      simp only [Rest.call, Rest.restTapRestore]
      split
      · exact h
      · exact ⟨h.1, h.2.congr rfl rfl rfl rfl rfl⟩
  | restReleaseAll => exact absurd trivial huntouched
  | tickRestOverlays => exact nomatch htick
  | restBeginMatrixControl => exact ⟨h.1, h.2.congr rfl rfl rfl rfl rfl⟩
  | restEndMatrixControl => exact ⟨h.1, h.2.congr rfl rfl rfl rfl rfl⟩
  | restPressRestore => exact ⟨h.1, h.2.congr rfl rfl rfl rfl rfl⟩
  | restReleaseRestore => exact ⟨h.1, h.2.congr rfl rfl rfl rfl rfl⟩
  | «local» => exact h

theorem At.call {r : Rest} {row col : Fin 8} {wait hold : Nat} (h : At r row col wait hold) {c : Call}
    (huntouched : ¬ c.Touches row col) (hother : ∀ entry ∈ r.starts c, entry.matrix row col = false) :
    At (r.call c) row col (wait - ticks [c]) (hold - (ticks [c] - wait)) := by
  cases htick : c.isTick with
  | false =>
      have hnone : ticks [c] = 0 := by
        rw [ticks, List.countP_singleton, htick, if_neg Bool.false_ne_true]
      rw [hnone, Nat.zero_sub, Nat.sub_zero, Nat.sub_zero]
      exact h.call_other huntouched htick
  | true =>
      cases c with
      | tickRestOverlays =>
          refine ⟨(congrFun (congrFun (tick_state r) row) col).trans h.1, ?_⟩
          have hhold : (if wait = 0 then hold - 1 else hold) = hold - (1 - wait) := by
            split <;> omega
          have hstage := h.2.tick h.1 hother
          rw [hhold] at hstage
          exact hstage
      | _ => exact nomatch htick

theorem At.run {r : Rest} {row col : Fin 8} {wait hold : Nat} (h : At r row col wait hold) {calls : List Call}
    (huntouched : ∀ c ∈ calls, ¬ c.Touches row col)
    (hother : ∀ entry ∈ r.started calls, entry.matrix row col = false) :
    At (r.run calls) row col (wait - ticks calls) (hold - (ticks calls - wait)) := by
  induction calls generalizing r wait hold with
  | nil =>
      change At r row col wait (hold - (0 - wait))
      rw [Nat.zero_sub, Nat.sub_zero]
      exact h
  | cons c calls ih =>
      have hcall := h.call (huntouched c List.mem_cons_self) fun entry hentry =>
        hother entry (List.mem_append_left _ hentry)
      have hcalls := ih hcall (fun d hd => huntouched d (List.mem_cons_of_mem c hd)) fun entry hentry =>
        hother entry (List.mem_append_right _ hentry)
      have hticks : ticks (c :: calls) = ticks [c] + ticks calls := by
        rw [ticks, ticks, ticks, List.countP_cons, List.countP_singleton, Nat.add_comm]
      rw [hticks]
      have hwait : wait - (ticks [c] + ticks calls) = wait - ticks [c] - ticks calls := by omega
      have hhold : hold - (ticks [c] + ticks calls - wait) =
          hold - (ticks [c] - wait) - (ticks calls - (wait - ticks [c])) := by omega
      rw [hwait, hhold]
      exact hcalls

/-- A call taps a key: after `wait` ticks it is to be down for `hold` ticks. -/
inductive Taps (r : Rest) (row col : Fin 8) : Call → Nat → Nat → Prop where
  | direct {rowArg colArg holdTicks : UInt8} : keyBit rowArg colArg row col = true → holdTicks ≠ 0 →
      Taps r row col (.restTap rowArg colArg holdTicks) 0 holdTicks.toNat
  | first {entry : RestTapEntry} : entry ∈ r.starts .tickRestOverlays → entry.firstMatrix row col = true →
      Taps r row col .tickRestOverlays 0 entry.firstTicks
  | deferred {entry : RestTapEntry} : entry ∈ r.starts .tickRestOverlays →
      entry.deferredMatrix row col = true →
      Taps r row col .tickRestOverlays restTapChordSetupTicks.toNat entry.holdTicks.toNat

/-- A key that is not pressed, and does not wait for the setup of a chord. -/
def Free (r : Rest) (row col : Fin 8) : Prop :=
  r.restMatrixState row col = false ∧ (r.restPendingTapHold ≠ 0 → r.restPendingTapMatrix row col = false)

theorem starts_tick {r : Rest} {entry : RestTapEntry} (h : entry ∈ r.starts .tickRestOverlays) :
    r.taps.front = some entry ∧ r.counted.restTapOverlayActive = false ∧
      r.tickRestOverlays.2 = { r.counted.startRestTap entry with taps := r.taps.dropFront } := by
  have hnext : r.counted.nextTap = some entry := Option.mem_toList.mp h
  rcases countGap_cases r.counted with ⟨hnone, _⟩ | ⟨other, hother, hfront, hidle, _, hgap⟩
  · exact nomatch hnone.symm.trans hnext
  · obtain rfl := Option.some.inj (hother.symm.trans hnext)
    rw [counted_taps] at hfront hgap
    exact ⟨hfront, hidle, hgap⟩

/-- No key of another tap is down, or waits, when a tap starts. -/
theorem idle_spec {r : Rest} (h : r.restTapOverlayActive = false) :
    r.restPendingTapHold = 0 ∧ ∀ row col, r.restOverlayHold row col = 0 := by
  rw [Rest.restTapOverlayActive, Bool.or_eq_false_iff, Bool.or_eq_false_iff, bne_eq_false_iff_eq,
    decide_eq_false_iff_not] at h
  exact ⟨h.1.1, fun row col => by_contra fun hne => h.2 ⟨row, col, hne⟩⟩

theorem overlay_key (r : Rest) {matrix : Matrix} (hold : UInt8) {row col : Fin 8} (hkey : matrix row col = true)
    (hstate : r.restMatrixState row col = false) :
    (r.overlay matrix hold).restMatrixOverlay row col = true ∧
      (r.overlay matrix hold).restOverlayHold row col = hold := by
  simp only [Rest.overlay, hkey, hstate, Bool.not_false, Bool.and_true, Bool.or_true, if_pos, and_self]

theorem startRestTap_first (r : Rest) {entry : RestTapEntry} {row col : Fin 8}
    (hkey : entry.firstMatrix row col = true) (hstate : r.restMatrixState row col = false)
    (hpending : r.restPendingTapHold = 0) :
    (r.startRestTap entry).restMatrixOverlay row col = true ∧
      (r.startRestTap entry).restOverlayHold row col = entry.firstHold ∧
      ((r.startRestTap entry).restPendingTapHold ≠ 0 →
        (r.startRestTap entry).restPendingTapMatrix row col = false) := by
  have hdeferred : entry.deferredMatrix row col = false := by
    rw [RestTapEntry.deferredMatrix, hkey, Bool.not_true, Bool.and_false]
  obtain ⟨hdown, hhold⟩ := overlay_key r entry.firstHold hkey hstate
  rw [Rest.startRestTap, Rest.startRestore, Rest.deferKeys]
  split <;> split
  · exact ⟨hdown, hhold, fun _ => hdeferred⟩
  · exact ⟨hdown, hhold, fun hne => absurd hpending hne⟩
  · exact ⟨hdown, hhold, fun _ => hdeferred⟩
  · exact ⟨hdown, hhold, fun hne => absurd hpending hne⟩

theorem startRestTap_deferred (r : Rest) {entry : RestTapEntry} {row col : Fin 8}
    (hkey : entry.deferredMatrix row col = true) :
    (r.startRestTap entry).restPendingTapHold = entry.holdTicks ∧
      (r.startRestTap entry).restPendingTapDelay = restTapChordSetupTicks ∧
      (r.startRestTap entry).restPendingTapMatrix row col = true ∧
      (r.startRestTap entry).restMatrixOverlay row col = r.restMatrixOverlay row col := by
  have hfirst : entry.firstMatrix row col = false := by
    rw [RestTapEntry.deferredMatrix, Bool.and_eq_true, Bool.not_eq_true'] at hkey
    exact hkey.2
  have hover : (r.overlay entry.firstMatrix entry.firstHold).restMatrixOverlay row col =
      r.restMatrixOverlay row col := by
    simp only [Rest.overlay, hfirst, Bool.false_and, Bool.or_false]
  rw [Rest.startRestTap, Rest.startRestore, Rest.deferKeys, if_pos (RestTapEntry.hasDeferred_of hkey)]
  split
  · exact ⟨rfl, rfl, hkey, hover⟩
  · exact ⟨rfl, rfl, hkey, hover⟩

/-- What a call taps is at the stage that it says. -/
theorem Taps.at {r : Rest} {row col : Fin 8} {c : Call} {wait hold : Nat} (h : Taps r row col c wait hold)
    (hsound : Sound r) (hfree : Free r row col) : At (r.call c) row col wait hold := by
  have hstate : r.counted.restMatrixState row col = false :=
    (congrFun (congrFun (counted_state r) row) col).trans hfree.1
  cases h with
  | @direct rowArg colArg holdTicks hkey hne =>
      have hin : ¬ (rowArg ≥ 8 ∨ colArg ≥ 8 ∨ holdTicks = 0) := by
        rw [keyBit, Bool.and_eq_true, decide_eq_true_eq, decide_eq_true_eq] at hkey
        rw [ge_iff_le, ge_iff_le, UInt8.le_iff_toNat_le, UInt8.le_iff_toNat_le]
        have hrow := row.isLt
        have hcol := col.isLt
        rintro (hrow8 | hcol8 | hzero)
        · change 8 ≤ rowArg.toNat at hrow8
          omega
        · change 8 ≤ colArg.toNat at hcol8
          omega
        · exact hne hzero
      simp only [Rest.call, Rest.restTap, if_neg hin]
      obtain ⟨hdown, hhold⟩ := overlay_key r holdTicks hkey hfree.1
      refine ⟨hfree.1, ?_⟩
      have hstage := Stage.down (fun hzero => hne (hhold.symm.trans hzero)) hdown hfree.2
      rw [hhold] at hstage
      exact hstage
  | @first entry hentry hkey =>
      obtain ⟨hfront, hidle, htick⟩ := starts_tick hentry
      have hqueued : entry ∈ r.taps.queued := TapQueue.front_queued hfront ▸ List.mem_cons_self
      obtain ⟨hne, hfits⟩ := hsound.taps entry hqueued
      obtain ⟨hdown, hhold, hpending⟩ := startRestTap_first r.counted hkey hstate (idle_spec hidle).1
      have hcount := RestTapEntry.firstHold_toNat hfits
      have hpos : entry.firstHold ≠ 0 := by
        intro hzero
        rw [hzero, RestTapEntry.firstTicks] at hcount
        change 0 = entry.holdTicks.toNat + _ at hcount
        have hticks := toNat_pos_of_ne hne
        omega
      refine ⟨(congrFun (congrFun (tick_state r) row) col).trans hfree.1, ?_⟩
      have hstage := Stage.down (fun hzero => hpos (hhold.symm.trans hzero)) hdown hpending
      rw [hhold, hcount] at hstage
      change Stage r.tickRestOverlays.2 row col 0 entry.firstTicks
      rw [htick]
      exact hstage.congr rfl rfl rfl rfl rfl
  | @deferred entry hentry hkey =>
      obtain ⟨hfront, hidle, htick⟩ := starts_tick hentry
      have hqueued : entry ∈ r.taps.queued := TapQueue.front_queued hfront ▸ List.mem_cons_self
      obtain ⟨hne, -⟩ := hsound.taps entry hqueued
      obtain ⟨hpending, hdelay, hmatrix, hoverlay⟩ := startRestTap_deferred r.counted hkey
      have hup : r.counted.restMatrixOverlay row col = false :=
        Bool.eq_false_iff.mpr fun hdown => hsound.counted.held row col hdown ((idle_spec hidle).2 row col)
      refine ⟨(congrFun (congrFun (tick_state r) row) col).trans hfree.1, ?_⟩
      have hstage := Stage.waiting (fun hzero => hne (hpending.symm.trans hzero)) hdelay hmatrix
        (hoverlay.trans hup)
      rw [hpending] at hstage
      change Stage r.tickRestOverlays.2 row col 1 entry.holdTicks.toNat
      rw [htick]
      exact hstage.congr rfl rfl rfl rfl rfl

end RestKeyboard
