import Ultimate1541.RestKeyboardRunProofs

/-! # What the REST keyboard shows

    The registers of the matrix follow the keys that are held (`Shown`), and the timer alone
    empties the ring of the taps (`drains`).  With the stages of a key, this gives what the
    keyboard promises in any order of calls and ticks (`Kept`). -/

namespace RestKeyboard

/-! ## The registers -/

/-- The same keys are held. -/
def SameKeys (r r' : Rest) : Prop :=
  r'.restMatrixState = r.restMatrixState ∧ r'.restMatrixOverlay = r.restMatrixOverlay ∧
    r'.restMatrixControl = r.restMatrixControl ∧ r'.restRestore = r.restRestore ∧
    r'.restRestoreOverlay = r.restRestoreOverlay

theorem SameKeys.trans {r₁ r₂ r₃ : Rest} (h : SameKeys r₁ r₂) (h' : SameKeys r₂ r₃) : SameKeys r₁ r₃ :=
  ⟨h'.1.trans h.1, h'.2.1.trans h.2.1, h'.2.2.1.trans h.2.2.1, h'.2.2.2.1.trans h.2.2.2.1,
    h'.2.2.2.2.trans h.2.2.2.2⟩

theorem sameKeys_countKeys {r : Rest} (h : r.countKeys.1 = false) : SameKeys r r.countKeys.2 := by
  refine ⟨rfl, ?_, rfl, rfl, rfl⟩
  funext row col
  have hone : ¬ ∃ row col, r.restOverlayHold row col = 1 := of_decide_eq_false h
  have hkey : r.restOverlayHold row col ≠ 1 := fun heq => hone ⟨row, col, heq⟩
  change (r.restMatrixOverlay row col && r.restOverlayHold row col != 1) = r.restMatrixOverlay row col
  rw [bne_iff_ne.mpr hkey, Bool.and_true]

theorem sameKeys_countRestore {r : Rest} (h : r.countRestore.1 = false) : SameKeys r r.countRestore.2 := by
  rw [Rest.countRestore] at h ⊢
  split
  next hhold =>
    rw [if_pos hhold] at h
    split
    next hlast =>
      rw [if_pos hlast] at h
      cases h
    · exact ⟨rfl, rfl, rfl, rfl, rfl⟩
  · exact ⟨rfl, rfl, rfl, rfl, rfl⟩

theorem sameKeys_countDelay {r : Rest} (h : r.countDelay.1 = false) : SameKeys r r.countDelay.2 := by
  rw [Rest.countDelay] at h ⊢
  split
  · exact ⟨rfl, rfl, rfl, rfl, rfl⟩
  next hpending =>
    rw [if_neg hpending] at h
    split
    next hdue =>
      rw [if_pos hdue] at h
      cases h
    · exact ⟨rfl, rfl, rfl, rfl, rfl⟩

theorem sameKeys_countGap {r : Rest} (h : r.countGap.1 = false) : SameKeys r r.countGap.2 := by
  rcases countGap_cases r with ⟨_, hgap | hgap⟩ | ⟨entry, _, hfront, hidle, hzero, _⟩
  · rw [hgap]
    exact ⟨rfl, rfl, rfl, rfl, rfl⟩
  · rw [hgap]
    exact ⟨rfl, rfl, rfl, rfl, rfl⟩
  · have hgap : ¬ r.restTapGapTicks > 0 := by
      rw [hzero]
      decide
    rw [Rest.countGap, hidle, if_neg Bool.false_ne_true, if_neg hgap, hfront] at h
    cases h

theorem sameKeys_tick {r : Rest} (h : r.tickRestOverlays.1 = false) : SameKeys r r.tickRestOverlays.2 := by
  obtain ⟨h, hgap⟩ := Bool.or_eq_false_iff.mp h
  obtain ⟨h, hdelay⟩ := Bool.or_eq_false_iff.mp h
  obtain ⟨hkeys, hrestore⟩ := Bool.or_eq_false_iff.mp h
  exact (((sameKeys_countKeys hkeys).trans (sameKeys_countRestore hrestore)).trans
    (sameKeys_countDelay hdelay)).trans (sameKeys_countGap hgap)

theorem sameKeys_restQueueTap (r : Rest) (matrix setupMatrix : Matrix) (restore : Bool) (holdTicks : UInt8) :
    SameKeys r (r.restQueueTap matrix setupMatrix restore holdTicks).2 := by
  rw [Rest.restQueueTap]
  split
  · exact ⟨rfl, rfl, rfl, rfl, rfl⟩
  · split
    · exact ⟨rfl, rfl, rfl, rfl, rfl⟩
    · split <;> exact ⟨rfl, rfl, rfl, rfl, rfl⟩

/-- The registers are those of `applyMatrixState`. -/
def Shown (k : Keyboard) : Prop :=
  k.attached = true → k.matrix = k.applied ∧ k.matrixRestore = k.appliedRestore

theorem shown_apply (k : Keyboard) : Shown k.applyMatrixState := by
  intro hattached
  have hattached' : k.attached = true := hattached
  rw [Keyboard.applyMatrixState, hattached', if_pos rfl, if_pos rfl]
  exact ⟨rfl, rfl⟩

theorem Shown.same {k : Keyboard} (h : Shown k) {r : Rest} (hsame : SameKeys k.rest r) :
    Shown { k with rest := r } := by
  obtain ⟨hstate, hoverlay, hcontrol, hrestore, hrestoreOverlay⟩ := hsame
  intro hattached
  have hactive : r.restMatrixActive = k.rest.restMatrixActive := by
    rw [Rest.restMatrixActive, Rest.restMatrixActive, hstate, hoverlay, hrestore, hrestoreOverlay]
  obtain ⟨hmatrix, hregister⟩ := h hattached
  refine ⟨hmatrix.trans ?_, hregister.trans ?_⟩
  · funext row col
    simp only [Keyboard.applied, hstate, hoverlay, hcontrol, hactive]
  · simp only [Keyboard.appliedRestore, hrestore, hrestoreOverlay]

theorem refused_call {r : Rest} {c : Call} (h : c.refused = true) : r.call c = r := by
  cases c with
  | restPress row col => exact if_pos (of_decide_eq_true h)
  | restRelease row col => exact if_pos (of_decide_eq_true h)
  | restTap row col holdTicks => exact if_pos (of_decide_eq_true h)
  | restTapRestore holdTicks => exact if_pos (of_decide_eq_true h)
  | _ => exact nomatch h

theorem call_rest (k : Keyboard) (c : Call) : (k.call c).rest = k.rest.call c := by
  have hother (hcall : k.call c = if c.refused then k else { k with rest := k.rest.call c }.applyMatrixState) :
      (k.call c).rest = k.rest.call c := by
    rw [hcall]
    split
    next hrefused => exact (refused_call hrefused).symm
    · rfl
  cases c with
  | tickRestOverlays =>
      rw [Keyboard.call]
      split <;> rfl
  | restQueueTap => rfl
  | «local» => rfl
  | _ => exact hother rfl

theorem run_rest (k : Keyboard) (calls : List Call) : (k.run calls).rest = k.rest.run calls := by
  induction calls generalizing k with
  | nil => rfl
  | cons c calls ih => exact (ih (k.call c)).trans (congrArg (Rest.run · calls) (call_rest k c))

theorem Shown.call {k : Keyboard} (h : Shown k) (c : Call) : Shown (k.call c) := by
  have hother (hcall : k.call c = if c.refused then k else { k with rest := k.rest.call c }.applyMatrixState) :
      Shown (k.call c) := by
    rw [hcall]
    split
    · exact h
    · exact shown_apply _
  cases c with
  | tickRestOverlays =>
      rw [Keyboard.call]
      split
      · exact shown_apply _
      next hsame => exact h.same (sameKeys_tick (Bool.not_eq_true _ ▸ hsame))
  | restQueueTap matrix setupMatrix restore holdTicks =>
      exact h.same (sameKeys_restQueueTap k.rest matrix setupMatrix restore holdTicks)
  | «local» => exact shown_apply _
  | _ => exact hother rfl

theorem Shown.run {k : Keyboard} (h : Shown k) (calls : List Call) : Shown (k.run calls) := by
  induction calls generalizing k with
  | nil => exact h
  | cons c calls ih => exact ih (h.call c)

/-! ## The timer alone empties the ring -/

/-- `n` ticks. -/
def tickTimes (r : Rest) (n : Nat) : Rest := r.run (List.replicate n .tickRestOverlays)

/-- No chord is under way, and no count is above `n`. -/
structure Quiet (r : Rest) (n : Nat) : Prop where
  pending : r.restPendingTapHold = 0
  restore : r.restRestoreHold.toNat ≤ n
  keys : ∀ row col, (r.restOverlayHold row col).toNat ≤ n

theorem toNat_count {n : Nat} {hold : UInt8} (h : hold.toNat ≤ n + 1) :
    (if hold = 0 then 0 else hold - 1).toNat ≤ n := by
  split
  · exact Nat.zero_le _
  next hne =>
    rw [toNat_pred hne]
    omega

theorem Quiet.counted {r : Rest} {n : Nat} (h : Quiet r (n + 1)) : Quiet r.counted n := by
  have hkeys : ∀ row col, (r.countKeys.2.restOverlayHold row col).toNat ≤ n :=
    fun row col => toNat_count (h.keys row col)
  obtain ⟨-, -, hkeepHold, -, -, hkeepPending, -, -⟩ := countRestore_keeps r.countKeys.2
  have hpending : r.countKeys.2.countRestore.2.restPendingTapHold = 0 := hkeepPending.trans h.pending
  have hcounted : r.counted = r.countKeys.2.countRestore.2 := by
    rw [Rest.counted, Rest.countDelay, if_pos hpending]
  have hrestore : r.countKeys.2.countRestore.2.restRestoreHold.toNat ≤ n := by
    have hbound : r.countKeys.2.restRestoreHold.toNat ≤ n + 1 := h.restore
    rw [Rest.countRestore]
    split
    next hpos =>
      have hne : r.countKeys.2.restRestoreHold ≠ 0 := by
        intro hzero
        rw [hzero] at hpos
        exact absurd hpos (by decide)
      split
      · exact Nat.zero_le _
      · change (r.countKeys.2.restRestoreHold - 1).toNat ≤ n
        rw [toNat_pred hne]
        omega
    next hzero =>
      rw [gt_iff_lt, UInt8.lt_iff_toNat_lt] at hzero
      exact Nat.le_trans (Nat.not_lt.mp hzero) (Nat.zero_le n)
  rw [hcounted]
  exact ⟨hpending, hrestore, fun row col => by rw [hkeepHold]; exact hkeys row col⟩

theorem Quiet.mono {r : Rest} {n m : Nat} (h : Quiet r n) (hle : n ≤ m) : Quiet r m :=
  ⟨h.pending, Nat.le_trans h.restore hle, fun row col => Nat.le_trans (h.keys row col) hle⟩

theorem Quiet.idle {r : Rest} (h : Quiet r 0) : r.restTapOverlayActive = false := by
  have hrestore : r.restRestoreHold = 0 := UInt8.toNat_inj.mp (Nat.le_zero.mp h.restore)
  have hkeys : ¬ ∃ row col, r.restOverlayHold row col ≠ 0 := by
    rintro ⟨row, col, hne⟩
    exact hne (UInt8.toNat_inj.mp (Nat.le_zero.mp (h.keys row col)))
  rw [Rest.restTapOverlayActive, h.pending, hrestore, decide_eq_false hkeys]
  rfl

/-- Without a count the gap is not started again. -/
theorem Quiet.counted_gap {r : Rest} (h : Quiet r 0) : r.counted.restTapGapTicks = r.restTapGapTicks := by
  have hrestore : ¬ r.countKeys.2.restRestoreHold > 0 := by
    have hbound : r.countKeys.2.restRestoreHold.toNat ≤ 0 := h.restore
    rw [gt_iff_lt, UInt8.lt_iff_toNat_lt]
    exact Nat.not_lt.mpr hbound
  have hpending : r.countKeys.2.restPendingTapHold = 0 := h.pending
  have hkeys : ¬ ∃ row col, r.restOverlayHold row col = 1 := by
    rintro ⟨row, col, hone⟩
    have hbound := h.keys row col
    rw [hone] at hbound
    exact absurd hbound (by decide)
  have hcounted : r.counted = r.countKeys.2 := by
    rw [Rest.counted, Rest.countRestore, if_neg hrestore, Rest.countDelay, if_pos hpending]
  rw [hcounted]
  exact if_neg (fun htrue => hkeys (of_decide_eq_true htrue))

/-- A tick starts a tap, or leaves the counts as they are counted and the taps as they are. -/
theorem tick_cases (r : Rest) :
    (∃ entry, r.taps.front = some entry ∧ r.tickRestOverlays.2.taps = r.taps.dropFront) ∨
    (r.counted.nextTap = none ∧ r.tickRestOverlays.2.taps = r.taps ∧
      r.tickRestOverlays.2.restPendingTapHold = r.counted.restPendingTapHold ∧
      r.tickRestOverlays.2.restPendingTapDelay = r.counted.restPendingTapDelay ∧
      (∀ n, Quiet r.counted n → Quiet r.tickRestOverlays.2 n)) := by
  change (∃ entry, _ ∧ r.counted.countGap.2.taps = _) ∨ (_ ∧ r.counted.countGap.2.taps = _ ∧
    r.counted.countGap.2.restPendingTapHold = _ ∧ r.counted.countGap.2.restPendingTapDelay = _ ∧
    ∀ n, Quiet r.counted n → Quiet r.counted.countGap.2 n)
  rcases countGap_cases r.counted with ⟨hnone, hgap | hgap⟩ | ⟨entry, _, hfront, _, _, hgap⟩
  · rw [hgap]
    exact Or.inr ⟨hnone, counted_taps r, rfl, rfl, fun _ h => h⟩
  · rw [hgap]
    exact Or.inr ⟨hnone, counted_taps r, rfl, rfl, fun _ h => ⟨h.pending, h.restore, h.keys⟩⟩
  · rw [counted_taps] at hfront hgap
    rw [hgap]
    exact Or.inl ⟨entry, hfront, rfl⟩

/-- After some ticks fewer taps wait. -/
def Shrinks (r : Rest) : Prop := ∃ n, (tickTimes r n).taps.queued.length < r.taps.queued.length

theorem shrinks_of_start {r : Rest} {entry : RestTapEntry} (hfront : r.taps.front = some entry)
    (htaps : r.tickRestOverlays.2.taps = r.taps.dropFront) : Shrinks r := by
  refine ⟨1, ?_⟩
  change r.tickRestOverlays.2.taps.queued.length < _
  rw [htaps, TapQueue.front_queued hfront, List.length_cons]
  exact Nat.lt_succ_self _

theorem shrinks_of_tick {r : Rest} (htaps : r.tickRestOverlays.2.taps = r.taps)
    (h : Shrinks r.tickRestOverlays.2) : Shrinks r := by
  obtain ⟨n, hn⟩ := h
  rw [htaps] at hn
  exact ⟨n + 1, hn⟩

theorem shrinks_of_gap (g : Nat) {r : Rest} (hgap : r.restTapGapTicks.toNat = g) (h : Quiet r 0)
    (hqueued : r.taps.queued ≠ []) : Shrinks r := by
  induction g generalizing r with
  | zero =>
      have hcounted := (h.mono (Nat.zero_le 1)).counted
      rcases tick_cases r with ⟨entry, hfront, htaps⟩ | ⟨hnone, -⟩
      · exact shrinks_of_start hfront htaps
      · have hzero : ¬ r.counted.restTapGapTicks > 0 := by
          rw [h.counted_gap, gt_iff_lt, UInt8.lt_iff_toNat_lt, hgap]
          exact Nat.lt_irrefl 0
        rw [Rest.nextTap, hcounted.idle, decide_eq_false hzero, Bool.or_false, if_neg Bool.false_ne_true,
          counted_taps] at hnone
        exact absurd (TapQueue.front_none hnone) hqueued
  | succ g ih =>
      have hcounted := (h.mono (Nat.zero_le 1)).counted
      have hpos : r.counted.restTapGapTicks > 0 := by
        rw [h.counted_gap, gt_iff_lt, UInt8.lt_iff_toNat_lt, hgap]
        exact Nat.succ_pos g
      have htick : r.tickRestOverlays.2 =
          { r.counted with restTapGapTicks := r.counted.restTapGapTicks - 1 } := by
        change r.counted.countGap.2 = _
        rw [Rest.countGap, hcounted.idle, if_neg Bool.false_ne_true, if_pos hpos]
      have hne : r.restTapGapTicks ≠ 0 := by
        intro hzero
        rw [hzero] at hgap
        cases hgap
      have htaps : r.tickRestOverlays.2.taps = r.taps := by
        rw [htick]
        exact counted_taps r
      refine shrinks_of_tick htaps (ih ?_ ?_ (htaps.symm ▸ hqueued))
      · rw [htick]
        change (r.counted.restTapGapTicks - 1).toNat = g
        rw [h.counted_gap, toNat_pred hne, hgap, Nat.add_sub_cancel]
      · rw [htick]
        exact ⟨hcounted.pending, hcounted.restore, hcounted.keys⟩

theorem shrinks_of_quiet (n : Nat) {r : Rest} (h : Quiet r n) (hqueued : r.taps.queued ≠ []) : Shrinks r := by
  induction n generalizing r with
  | zero => exact shrinks_of_gap _ rfl h hqueued
  | succ n ih =>
      rcases tick_cases r with ⟨entry, hfront, htaps⟩ | ⟨_, htaps, _, _, hkept⟩
      · exact shrinks_of_start hfront htaps
      · exact shrinks_of_tick htaps (ih (hkept n h.counted) (htaps.symm ▸ hqueued))

theorem quiet_of_pending {r : Rest} (h : r.restPendingTapHold = 0) : Quiet r 255 :=
  ⟨h, Nat.le_of_lt_succ (UInt8.toNat_lt _), fun _ _ => Nat.le_of_lt_succ (UInt8.toNat_lt _)⟩

/-- The keys of the chord that wait go down in this tick. -/
theorem shrinks_of_due {r : Rest} (hdue : r.nextDelay = 0) (hqueued : r.taps.queued ≠ []) : Shrinks r := by
  obtain ⟨-, -, -, -, -, hkeepPending, hkeepDelay, -⟩ := countRestore_keeps r.countKeys.2
  have hnext : r.countKeys.2.countRestore.2.nextDelay = 0 := by
    rw [Rest.nextDelay, hkeepDelay]
    exact hdue
  have hcounted : r.counted.restPendingTapHold = 0 := by
    rw [Rest.counted, Rest.countDelay]
    by_cases hpending : r.countKeys.2.countRestore.2.restPendingTapHold = 0
    · rw [if_pos hpending]
      exact hpending
    · rw [if_neg hpending, if_pos hnext]
  rcases tick_cases r with ⟨entry, hfront, htaps⟩ | ⟨_, htaps, hhold, _, _⟩
  · exact shrinks_of_start hfront htaps
  · exact shrinks_of_tick htaps
      (shrinks_of_quiet 255 (quiet_of_pending (hhold.trans hcounted)) (htaps.symm ▸ hqueued))

theorem shrinks_of_delay (d : Nat) {r : Rest} (hdelay : r.restPendingTapDelay.toNat ≤ d)
    (hqueued : r.taps.queued ≠ []) : Shrinks r := by
  induction d generalizing r with
  | zero =>
      have hzero : r.restPendingTapDelay = 0 := UInt8.toNat_inj.mp (Nat.le_zero.mp hdelay)
      refine shrinks_of_due ?_ hqueued
      rw [Rest.nextDelay, hzero]
      rfl
  | succ d ih =>
      by_cases hdue : r.nextDelay = 0
      · exact shrinks_of_due hdue hqueued
      by_cases hpending : r.restPendingTapHold = 0
      · exact shrinks_of_quiet 255 (quiet_of_pending hpending) hqueued
      obtain ⟨-, -, -, -, -, hkeepPending, hkeepDelay, -⟩ := countRestore_keeps r.countKeys.2
      have hnext : r.countKeys.2.countRestore.2.nextDelay = r.nextDelay := by
        rw [Rest.nextDelay, hkeepDelay]
        rfl
      have hne : r.countKeys.2.countRestore.2.restPendingTapHold ≠ 0 := hkeepPending ▸ hpending
      have hcounted : r.counted.restPendingTapDelay = r.nextDelay := by
        rw [Rest.counted, Rest.countDelay, if_neg hne, if_neg (hnext ▸ hdue)]
        exact hnext
      have hpos : r.restPendingTapDelay ≠ 0 := by
        intro hzero
        rw [Rest.nextDelay, hzero] at hdue
        exact hdue rfl
      have hgt : r.restPendingTapDelay > 0 := UInt8.lt_iff_toNat_lt.mpr (toNat_pos_of_ne hpos)
      rcases tick_cases r with ⟨entry, hfront, htaps⟩ | ⟨_, htaps, _, hwait, _⟩
      · exact shrinks_of_start hfront htaps
      · refine shrinks_of_tick htaps (ih ?_ (htaps.symm ▸ hqueued))
        rw [hwait, hcounted, Rest.nextDelay, if_pos hgt, toNat_pred hpos]
        omega

/-- With no other call, each tap that waits starts in the end. -/
theorem drains (r : Rest) : ∃ n, (tickTimes r n).taps.queued = [] := by
  generalize hlength : r.taps.queued.length = length
  induction length using Nat.strongRecOn generalizing r with
  | ind length ih =>
      by_cases hqueued : r.taps.queued = []
      · exact ⟨0, hqueued⟩
      · obtain ⟨n, hn⟩ := shrinks_of_delay _ (Nat.le_refl _) hqueued
        obtain ⟨m, hm⟩ := ih _ (hlength ▸ hn) (tickTimes r n) rfl
        refine ⟨n + m, ?_⟩
        rw [tickTimes, List.replicate_add, Rest.run, List.foldl_append]
        exact hm

/-! ## Any order of calls and ticks -/

/-- The calls that press a key until it is released. -/
def Call.Presses (row col : Fin 8) : Call → Prop
  | .restPress rowArg colArg => keyBit rowArg colArg row col = true
  | .restPressMatrix pressMatrix => pressMatrix row col = true
  | _ => False

/-- The calls that release a key. -/
def Call.Releases (row col : Fin 8) : Call → Prop
  | .restRelease rowArg colArg => keyBit rowArg colArg row col = true
  | .restReleaseMatrix releaseMatrix => releaseMatrix row col = true
  | .restReleaseAll => True
  | _ => False

theorem keyBit_range {rowArg colArg : UInt8} {row col : Fin 8} (h : keyBit rowArg colArg row col = true) :
    ¬ (rowArg ≥ 8 ∨ colArg ≥ 8) := by
  rw [keyBit, Bool.and_eq_true, decide_eq_true_eq, decide_eq_true_eq] at h
  rw [ge_iff_le, ge_iff_le, UInt8.le_iff_toNat_le, UInt8.le_iff_toNat_le]
  have hrow := row.isLt
  have hcol := col.isLt
  rintro (hrow8 | hcol8)
  · change 8 ≤ rowArg.toNat at hrow8
    omega
  · change 8 ≤ colArg.toNat at hcol8
    omega

theorem pressed_call (r : Rest) {row col : Fin 8} {c : Call} (h : c.Presses row col) :
    (r.call c).restMatrixState row col = true := by
  cases c with
  | restPress rowArg colArg =>
      have hkey : keyBit rowArg colArg row col = true := h
      simp only [Rest.call, Rest.restPress, if_neg (keyBit_range hkey), Rest.restPressMatrix, hkey, Bool.or_true]
  | restPressMatrix m =>
      have hkey : m row col = true := h
      simp only [Rest.call, Rest.restPressMatrix, hkey, Bool.or_true]
  | _ => exact h.elim

theorem pressed_kept {r : Rest} {row col : Fin 8} (h : r.restMatrixState row col = true) {c : Call}
    (hkept : ¬ c.Releases row col) : (r.call c).restMatrixState row col = true := by
  have hrelease {m : Matrix} (hm : ¬ m row col = true) : (r.restReleaseMatrix m).restMatrixState row col = true := by
    simp only [Rest.restReleaseMatrix, h, Bool.eq_false_iff.mpr hm, Bool.not_false, Bool.and_true]
  cases c with
  | restPress rowArg colArg =>
      simp only [Rest.call, Rest.restPress]
      split
      · exact h
      · simp only [Rest.restPressMatrix, h, Bool.true_or]
  | restRelease rowArg colArg =>
      simp only [Rest.call, Rest.restRelease]
      split
      · exact h
      · exact hrelease hkept
  | restPressMatrix m => simp only [Rest.call, Rest.restPressMatrix, h, Bool.true_or]
  | restReleaseMatrix m => exact hrelease hkept
  | restTap rowArg colArg holdTicks =>
      simp only [Rest.call, Rest.restTap]
      split
      · exact h
      · exact h
  | restQueueTap matrix setupMatrix restore holdTicks =>
      exact (congrFun (congrFun (sameKeys_restQueueTap r matrix setupMatrix restore holdTicks).1 row) col).trans h
  | restTapRestore holdTicks =>
      simp only [Rest.call, Rest.restTapRestore]
      split
      · exact h
      · exact h
  | restReleaseAll => exact absurd trivial hkept
  | tickRestOverlays => exact (congrFun (congrFun (tick_state r) row) col).trans h
  | _ => exact h

theorem pressed_run {r : Rest} {row col : Fin 8} (h : r.restMatrixState row col = true) {calls : List Call}
    (hkept : ∀ c ∈ calls, ¬ c.Releases row col) : (r.run calls).restMatrixState row col = true := by
  induction calls generalizing r with
  | nil => exact h
  | cons c calls ih =>
      exact ih (pressed_kept h (hkept c List.mem_cons_self)) fun d hd => hkept d (List.mem_cons_of_mem c hd)

/-- The keyboard after some calls. -/
def after (calls : List Call) : Keyboard := Keyboard.initialState.run calls

/-- The next tap to start is one of these. -/
def Keyboard.next (k : Keyboard) : List RestTapEntry := k.rest.starts .tickRestOverlays

/-- What holds after some calls, in any order, by the task of the interface and by the timer. -/
structure Kept (calls : List Call) : Prop where
  /-- No key is in both matrices. -/
  apart : ∀ row col, ¬ ((after calls).rest.restMatrixState row col = true ∧
    (after calls).rest.restMatrixOverlay row col = true)
  /-- Each key of the overlay has a count. -/
  counted : ∀ row col, (after calls).rest.restMatrixOverlay row col = true →
    (after calls).rest.restOverlayHold row col ≠ 0
  /-- The registers show the keys that are held, with those of the USB keyboard. -/
  shown : (after calls).attached = true → (after calls).matrix = (after calls).applied
  /-- A key that is pressed is held until it is released. -/
  pressed : ∀ before c rest row col, calls = before ++ c :: rest → c.Presses row col →
    (∀ d ∈ rest, ¬ d.Releases row col) → (after calls).restSnapshot row col = true
  /-- Since the last release of everything, the taps that were accepted are those that have
      started and those that wait, in this order. -/
  inOrder : ∀ before rest, calls = before ++ rest → (before = [] ∨ ∃ b, before = b ++ [.restReleaseAll]) →
    (∀ c ∈ rest, c.isReleaseAll = false) →
    (after before).rest.accepted rest =
      (after before).rest.started rest ++ (after calls).rest.taps.queued
  /-- The timer alone starts those that wait. -/
  starts : ∃ n, (after (calls ++ List.replicate n .tickRestOverlays)).rest.taps.queued = []
  /-- Each key of a tap that starts is tapped. -/
  tapped : ∀ entry ∈ (after calls).next, ∀ row col, entry.matrix row col = true →
    ∃ wait hold, Taps (after calls).rest row col .tickRestOverlays wait hold
  /-- A key that is tapped, and not held otherwise, is held for the ticks of the tap. -/
  exact : ∀ before c rest row col wait hold, calls = before ++ c :: rest →
    Taps (after before).rest row col c wait hold → Free (after before).rest row col →
    (∀ d ∈ rest, ¬ d.Touches row col) →
    (∀ entry ∈ (after (before ++ [c])).rest.started rest, entry.matrix row col = false) →
    ((after calls).restSnapshot row col = true ↔ wait ≤ ticks rest ∧ ticks rest < wait + hold)
  /-- It is up for the gap before the next tap starts. -/
  gap : ∀ before c rest row col wait hold, calls = before ++ c :: rest →
    Taps (after before).rest row col c wait hold → Free (after before).rest row col →
    (∀ d ∈ rest, ¬ d.Touches row col) →
    (∀ entry ∈ (after (before ++ [c])).rest.started rest, entry.matrix row col = false) →
    (after calls).next ≠ [] → wait + hold + restTapGapTicks.toNat ≤ ticks rest + 1

theorem after_rest (calls : List Call) : (after calls).rest = Keyboard.initialState.rest.run calls :=
  run_rest _ calls

theorem after_append (calls rest : List Call) : (after (calls ++ rest)).rest = (after calls).rest.run rest := by
  rw [after_rest, after_rest, Rest.run, Rest.run, Rest.run, List.foldl_append]

theorem sound_initial : Sound Keyboard.initialState.rest where
  apart _ _ h := nomatch h
  held _ _ h := nomatch h
  taps _ h := nomatch h

theorem shown_initial : Shown Keyboard.initialState := fun h => nomatch h

theorem sound_after {calls : List Call} (h : ∀ c ∈ calls, c.Fits) : Sound (after calls).rest := by
  rw [after_rest]
  exact sound_initial.run h

/-- A key that is tapped, at its stage after the calls that follow. -/
theorem tapped_at {before rest : List Call} {c : Call} {row col : Fin 8} {wait hold : Nat}
    (hsound : Sound (after before).rest) (htaps : Taps (after before).rest row col c wait hold)
    (hfree : Free (after before).rest row col) (huntouched : ∀ d ∈ rest, ¬ d.Touches row col)
    (hother : ∀ entry ∈ (after (before ++ [c])).rest.started rest, entry.matrix row col = false) :
    At (after (before ++ c :: rest)).rest row col (wait - ticks rest) (hold - (ticks rest - wait)) := by
  rw [after_append] at hother ⊢
  exact (htaps.at hsound hfree).run huntouched hother

theorem calls_kept (calls : List Call) (hfits : ∀ c ∈ calls, c.Fits) : Kept calls where
  apart row col hboth :=
    Bool.false_ne_true (((sound_after hfits).apart row col hboth.1).symm.trans hboth.2)
  counted := (sound_after hfits).held
  shown hattached := ((shown_initial.run calls) hattached).1
  pressed before c rest row col hcalls hpress hkept := by
    rw [hcalls, Keyboard.restSnapshot, after_append]
    exact Bool.or_eq_true_iff.mpr (Or.inl (pressed_run (pressed_call _ hpress) hkept))
  inOrder before rest hcalls hstart hkept := by
    rw [hcalls, after_append]
    have hempty : (after before).rest.taps.queued = [] := by
      rcases hstart with rfl | ⟨b, rfl⟩
      · rfl
      · rw [after_append]
        exact TapQueue.clear_queued _
    have hrun := run_queued (after before).rest hkept
    rwa [hempty, List.nil_append] at hrun
  starts := by
    obtain ⟨n, hn⟩ := drains (after calls).rest
    refine ⟨n, ?_⟩
    rw [after_append]
    exact hn
  tapped entry hentry row col hkey := by
    cases hfirst : entry.firstMatrix row col with
    | true => exact ⟨_, _, .first hentry hfirst⟩
    | false => exact ⟨_, _, .deferred hentry (RestTapEntry.firstMatrix_or_deferred hkey hfirst)⟩
  exact before c rest row col wait hold hcalls htaps hfree huntouched hother := by
    have hsound : Sound (after before).rest := sound_after fun d hd => hfits d (hcalls ▸ List.mem_append_left _ hd)
    obtain ⟨hstate, hstage⟩ := tapped_at hsound htaps hfree huntouched hother
    rw [hcalls, Keyboard.restSnapshot, hstate, Bool.false_or, hstage.overlay_iff]
    omega
  gap before c rest row col wait hold hcalls htaps hfree huntouched hother hnext := by
    have hsound : Sound (after before).rest := sound_after fun d hd => hfits d (hcalls ▸ List.mem_append_left _ hd)
    obtain ⟨hstate, hstage⟩ := tapped_at hsound htaps hfree huntouched hother
    rw [hcalls] at hnext
    obtain ⟨entry, hentry⟩ := List.exists_mem_of_ne_nil _ hnext
    have hdone := hstage.nextTap hstate (Option.mem_toList.mp hentry)
    have hgap : restTapGapTicks.toNat = 1 := rfl
    rw [hgap]
    omega

/-- Shift and A, with shift as the setup, for two ticks. -/
def shiftA : Call :=
  .restQueueTap (fun row col => row = 1 && (col = 7 || col = 2)) (fun row col => row = 1 && col = 7) false 2

theorem calls_kept_shiftA : (∀ c ∈ [shiftA, .tickRestOverlays], c.Fits) ∧ Kept [shiftA, .tickRestOverlays] := by
  have hfits : ∀ c ∈ [shiftA, .tickRestOverlays], c.Fits := by
    simp only [List.forall_mem_cons, List.not_mem_nil, false_implies, implies_true, and_true]
    refine ⟨?_, trivial⟩
    change RestTapEntry.Fits ⟨_, _, _, _⟩
    decide
  exact ⟨hfits, calls_kept _ hfits⟩

/-- The setup keys of a chord are down for two ticks more than the tap. -/
theorem setup_held_longer :
    ¬ ∀ (before rest : List Call) (row col : Fin 8) (entry : RestTapEntry),
      entry ∈ (after before).next → entry.matrix row col = true → Free (after before).rest row col →
      (∀ d ∈ rest, d = .tickRestOverlays) → ticks rest = entry.holdTicks.toNat →
      (after (before ++ .tickRestOverlays :: rest)).restSnapshot row col = false := by
  intro h
  have hlonger := h [shiftA] [.tickRestOverlays, .tickRestOverlays] 1 7 _
    (List.mem_singleton.mpr rfl) (by decide) ⟨by decide, by decide⟩ (by simp) (by decide)
  revert hlonger
  decide +kernel

end RestKeyboard
