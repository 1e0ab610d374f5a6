import Ultimate1541.HidValueProofs
import Ultimate1541.PetsciiTextProofs

/-! # The mouse wheel as pulses on two lines

    On the C64 a step of the wheel is a pulse on one of two lines of the joystick port.
    `mergeNativeWheelBurst` counts the steps that are still to be shown,
    `advanceNativeWheelBurst` is called from time to time and moves a pulse from low to
    high to idle, and `applyWheelPulseMask` tells the lines.

    The low phase ends `phase_ticks` after the call that began it.  The high phase ends
    `phase_ticks` after the low one should have ended, not after the call that ended it; so
    a late call leaves less of it, or none. -/

namespace WheelPulse

open HidDecoder (toInt32 toInt32_of_lt)

/-! ## The source -/

/-- `WHEEL_PULSE_PHASE_IDLE`, `_LOW` and `_HIGH`. -/
inductive Phase where
  | idle
  | low
  | high
deriving DecidableEq

/-- What the functions are given by reference. -/
structure Wheel where
  burstDirection : Int
  burstCount : UInt8
  phase : Phase
  pulseMask : UInt8
  nextTick : UInt32
deriving DecidableEq

/-- `usb_hid_reset_native_wheel_state`. -/
def resetNativeWheelState : Wheel := ⟨0, 0, .idle, 0, 0⟩

/-- `absoluteValue`. -/
def absoluteValue (value : Int) : Int := if value < 0 then toInt32 (-value) else value

/-- The direction of some steps. -/
def direction (steps : Int) : Int := if 0 < steps then 1 else -1

/-- The steps to be shown that are left when others come: none when those go the other
    way. -/
def kept (steps : Int) (w : Wheel) : UInt8 :=
  if w.burstDirection = direction steps then w.burstCount else 0

/-- `mergeNativeWheelBurst`. -/
def mergeNativeWheelBurst (steps : Int) (maxBurst : UInt8) (w : Wheel) : Wheel :=
  if steps = 0 ∨ maxBurst = 0 then w
  else
    let updated := toInt32 ((kept steps w).toNat + absoluteValue steps)
    { w with
      burstDirection := direction steps
      burstCount := if (maxBurst.toNat : Int) < updated then maxBurst else UInt8.ofInt updated }

/-- `(int32_t)(now - next_tick) < 0`. -/
def Early (now nextTick : UInt32) : Prop := (now - nextTick).toBitVec.toInt < 0

instance (now nextTick : UInt32) : Decidable (Early now nextTick) :=
  inferInstanceAs (Decidable (_ < _))

/-- `phase_ticks`, as the function uses it. -/
def ticks (phaseTicks : UInt32) : UInt32 := if phaseTicks = 0 then 1 else phaseTicks

/-- A step is to be shown. -/
def Wheel.Pending (w : Wheel) : Prop := 0 < w.burstCount ∧ w.burstDirection ≠ 0

instance (w : Wheel) : Decidable w.Pending := inferInstanceAs (Decidable (_ ∧ _))

/-- The loop where the phase is idle. -/
def idleRound (now p : UInt32) (w : Wheel) : Bool × Wheel :=
  if w.Pending then
    (true, { w with
      pulseMask := if 0 < w.burstDirection then 0x04 else 0x08
      burstCount := w.burstCount - 1
      phase := .low
      nextTick := now + p })
  else (false, { w with burstDirection := 0, pulseMask := 0 })

/-- The loop where the phase is high. -/
def highRound (now p : UInt32) (w : Wheel) : Bool × Wheel :=
  if Early now w.nextTick then (true, w) else idleRound now p { w with phase := .idle }

/-- The loop where the phase is low. -/
def lowRound (now p : UInt32) (w : Wheel) : Bool × Wheel :=
  if Early now w.nextTick then (true, w)
  else highRound now p { w with phase := .high, nextTick := w.nextTick + p }

/-- `advanceNativeWheelBurst`. -/
def advanceNativeWheelBurst (w : Wheel) (now phaseTicks : UInt32) : Bool × Wheel :=
  match w.phase with
  | .idle => idleRound now (ticks phaseTicks) w
  | .low => lowRound now (ticks phaseTicks) w
  | .high => highRound now (ticks phaseTicks) w

/-- `applyWheelPulseMask`. -/
def applyWheelPulseMask (mouseJoy : UInt8) (phase : Phase) (pulseMask : UInt8) : UInt8 :=
  if phase = .low ∧ pulseMask ≠ 0 then (mouseJoy ||| 0x0C) &&& ~~~pulseMask
  else mouseJoy ||| 0x0C

/-! ## What is seen of the lines -/

/-- Of the two lines of the wheel, those that are low. -/
def lowLines (mouseJoy : UInt8) : UInt8 := ~~~mouseJoy &&& 0x0C

/-- The lines after the calls, the last one in front: when, and which were low. -/
abbrev Seen := List (Nat × UInt8)

/-- The lines as they were last seen; at first they are high. -/
def lines : Seen → UInt8
  | [] => 0
  | (_, l) :: _ => l

/-- Since when they have been so, once they have changed. -/
def since : Seen → Option Nat
  | [] => none
  | (t, l) :: seen => if l = lines seen then since seen else some t

/-- How many pulses there are to see. -/
def pulses : Seen → Nat
  | [] => 0
  | (_, l) :: seen => pulses seen + if l ≠ 0 ∧ l ≠ lines seen then 1 else 0

/-- Lines change to high or from high only, and not before they have been as they were for
    `p` ticks. -/
def Separate (p : Nat) : Seen → Prop
  | [] => True
  | (t, l) :: seen =>
      Separate p seen ∧
        (l ≠ lines seen → (l = 0 ∨ lines seen = 0) ∧ ∀ a ∈ since seen, a + p ≤ t)

/-! ## Runs -/

inductive Event where
  /-- Steps of the wheel are merged. -/
  | merge (steps : Int)
  /-- The pulses are advanced, and the mask is put on the lines. -/
  | advance (time : Nat) (mouseJoy : UInt8)

/-- The wheel, and what went on. -/
structure Run where
  wheel : Wheel
  seen : Seen
  /-- When the last call was. -/
  time : Nat
  /-- The call that ended the last low phase came after its end. -/
  late : Bool
  /-- The steps that were taken in. -/
  accepted : Int
  /-- Those of them that steps the other way took the place of. -/
  replaced : Int

def Run.init : Run := ⟨resetNativeWheelState, [], 0, false, 0, 0⟩

/-- A low phase is over. -/
def Wheel.LowOver (w : Wheel) (now : UInt32) : Prop := w.phase = .low ∧ ¬Early now w.nextTick

instance (w : Wheel) (now : UInt32) : Decidable (w.LowOver now) :=
  inferInstanceAs (Decidable (_ ∧ _))

section Steps

variable (phaseTicks : UInt32) (maxBurst : UInt8)

def Run.step (r : Run) : Event → Run
  | .merge steps =>
      let w := mergeNativeWheelBurst steps maxBurst r.wheel
      let k := if steps = 0 ∨ maxBurst = 0 then r.wheel.burstCount else kept steps r.wheel
      { r with
        wheel := w
        accepted := r.accepted + ((w.burstCount.toNat : Int) - k.toNat)
        replaced := r.replaced + ((r.wheel.burstCount.toNat : Int) - k.toNat) }
  | .advance time mouseJoy =>
      let now := UInt32.ofNat time
      let w := (advanceNativeWheelBurst r.wheel now phaseTicks).2
      { r with
        wheel := w
        seen := (time, lowLines (applyWheelPulseMask mouseJoy w.phase w.pulseMask)) :: r.seen
        time := time
        late := if r.wheel.LowOver now then now != r.wheel.nextTick else r.late }

/-- The times do not go back. -/
def Run.Orderly (r : Run) : Event → Prop
  | .merge _ => True
  | .advance time _ => r.time ≤ time

/-- Each step is shown as a pulse of its own, or is still to be shown, or was replaced. -/
def Run.Shown (r : Run) : Prop :=
  Separate (ticks phaseTicks).toNat r.seen ∧
    (pulses r.seen : Int) + r.wheel.burstCount.toNat = r.accepted - r.replaced

/-- With a step to be shown, no call finds a low phase over for as long again; and when a
    call ended it late, none begins the next pulse before the phase has gone by from that
    call on. -/
def Run.Timely (r : Run) : Event → Prop
  | .merge _ => True
  | .advance time _ =>
      let now := UInt32.ofNat time
      r.wheel.Pending →
        match r.wheel.phase with
        | .low =>
            ¬Early now r.wheel.nextTick → Early now (r.wheel.nextTick + ticks phaseTicks)
        | .high =>
            ¬Early now r.wheel.nextTick → r.late = true →
              ∀ a ∈ since r.seen, a + (ticks phaseTicks).toNat ≤ time
        | .idle => r.late = true → ∀ a ∈ since r.seen, a + (ticks phaseTicks).toNat ≤ time

/-- A property of each event of a list, where it is met. -/
def Run.Each (p : Run → Event → Prop) : Run → List Event → Prop
  | _, [] => True
  | r, e :: events => p r e ∧ Run.Each p (Run.step phaseTicks maxBurst r e) events

def Run.run (r : Run) (events : List Event) : Run :=
  events.foldl (Run.step phaseTicks maxBurst) r

end Steps

/-! ## The comparison of times -/

theorem early_iff {now nextTick : UInt32} :
    Early now nextTick ↔ 2 ^ 31 ≤ (now - nextTick).toNat := by
  rw [Early, BitVec.toInt_neg_iff, UInt32.toNat_toBitVec]
  omega

theorem ticks_pos (phaseTicks : UInt32) : 0 < (ticks phaseTicks).toNat := by
  rw [ticks]
  split
  · decide
  · rename_i h
    exact Nat.pos_of_ne_zero fun h0 => h (UInt32.toNat_inj.1 h0)

theorem ofNat_add (t : Nat) (p : UInt32) : UInt32.ofNat t + p = UInt32.ofNat (t + p.toNat) := by
  rw [UInt32.ofNat_add, UInt32.ofNat_toNat]

/-- What is not early is due, also when the clock has gone round in between. -/
theorem due_of_not_early {t a : Nat} {p : UInt32} (hp : p.toNat ≤ 2 ^ 31) (ha : a ≤ t)
    (h : ¬Early (UInt32.ofNat t) (UInt32.ofNat (a + p.toNat))) : a + p.toNat ≤ t := by
  rw [early_iff, UInt32.toNat_sub, UInt32.toNat_ofNat', UInt32.toNat_ofNat'] at h
  omega

/-- The end of the next phase is not yet. -/
theorem early_add {p : UInt32} (h0 : 0 < p.toNat) (hp : p.toNat ≤ 2 ^ 31) (now : UInt32) :
    Early now (now + p) := by
  rw [early_iff, UInt32.toNat_sub, UInt32.toNat_add]
  have := now.toNat_lt
  omega

/-! ## What a call does -/

/-- The phase is over, and the ones behind it that the call comes to. -/
def Over (w : Wheel) (now p : UInt32) : Prop :=
  match w.phase with
  | .idle => True
  | .low => ¬Early now w.nextTick ∧ ¬Early now (w.nextTick + p)
  | .high => ¬Early now w.nextTick

/-- What a call leaves of the wheel. -/
inductive Advanced (w : Wheel) (now p : UInt32) : Wheel → Prop where
  | waits (hphase : w.phase ≠ .idle) (he : Early now w.nextTick) : Advanced w now p w
  | rises (hl : w.LowOver now) (he : Early now (w.nextTick + p)) :
      Advanced w now p { w with phase := .high, nextTick := w.nextTick + p }
  | rests (ho : Over w now p) (hp : ¬w.Pending) (nextTick : UInt32) :
      Advanced w now p ⟨0, w.burstCount, .idle, 0, nextTick⟩
  | begins (ho : Over w now p) (hp : w.Pending) (mask : UInt8) (hm : mask = 4 ∨ mask = 8) :
      Advanced w now p ⟨w.burstDirection, w.burstCount - 1, .low, mask, now + p⟩

/-- The round where the phase is idle, whatever it and the tick were before. -/
theorem idleRound_advanced {w : Wheel} {now p : UInt32} (ho : Over w now p) (nextTick : UInt32) :
    Advanced w now p
      (idleRound now p ⟨w.burstDirection, w.burstCount, .idle, w.pulseMask, nextTick⟩).2 := by
  by_cases hp : w.Pending
  · have hp' : Wheel.Pending ⟨w.burstDirection, w.burstCount, .idle, w.pulseMask, nextTick⟩ := hp
    rw [idleRound, if_pos hp']
    refine .begins ho hp _ ?_
    by_cases hd : 0 < w.burstDirection
    · exact .inl (if_pos hd)
    · exact .inr (if_neg hd)
  · have hp' : ¬Wheel.Pending ⟨w.burstDirection, w.burstCount, .idle, w.pulseMask, nextTick⟩ := hp
    rw [idleRound, if_neg hp']
    exact .rests ho hp nextTick

theorem advance_advanced (w : Wheel) (now phaseTicks : UInt32) :
    Advanced w now (ticks phaseTicks) (advanceNativeWheelBurst w now phaseTicks).2 := by
  obtain ⟨d, c, phase, m, n⟩ := w
  cases phase with
  | idle => exact idleRound_advanced (w := ⟨d, c, .idle, m, n⟩) trivial n
  | high =>
      simp only [advanceNativeWheelBurst, highRound]
      by_cases he : Early now n
      · rw [if_pos he]
        exact .waits (by simp) he
      · rw [if_neg he]
        exact idleRound_advanced (w := ⟨d, c, .high, m, n⟩) he n
  | low =>
      simp only [advanceNativeWheelBurst, lowRound, highRound]
      by_cases he : Early now n
      · rw [if_pos he]
        exact .waits (by simp) he
      · rw [if_neg he]
        by_cases he' : Early now (n + ticks phaseTicks)
        · rw [if_pos he']
          exact .rises ⟨rfl, he⟩ he'
        · rw [if_neg he']
          exact idleRound_advanced (w := ⟨d, c, .low, m, n⟩) ⟨he, he'⟩ _

/-! ## What is seen -/

/-- The lines of the mask are low in the low phase, whatever the joystick port shows. -/
theorem lowLines_apply {mask : UInt8} (hm : mask = 0 ∨ mask = 4 ∨ mask = 8) (mouseJoy : UInt8)
    (phase : Phase) :
    lowLines (applyWheelPulseMask mouseJoy phase mask) = if phase = .low then mask else 0 := by
  have h0 : lowLines (mouseJoy ||| 0x0C) = 0 :=
    Petscii.byte_forall (fun b => lowLines (b ||| 0x0C) = 0) (by decide +kernel) mouseJoy
  have h4 : lowLines ((mouseJoy ||| 0x0C) &&& ~~~4) = 4 :=
    Petscii.byte_forall (fun b => lowLines ((b ||| 0x0C) &&& ~~~4) = 4) (by decide +kernel)
      mouseJoy
  have h8 : lowLines ((mouseJoy ||| 0x0C) &&& ~~~8) = 8 :=
    Petscii.byte_forall (fun b => lowLines ((b ||| 0x0C) &&& ~~~8) = 8) (by decide +kernel)
      mouseJoy
  rw [applyWheelPulseMask]
  obtain rfl | rfl | rfl := hm <;> cases phase <;> simp [h0, h4, h8]

section Looks

variable {p t : Nat} {l : UInt8} {seen : Seen}

/-- Lines that stay as they were. -/
theorem Separate.same (h : Separate p seen) : Separate p ((t, lines seen) :: seen) :=
  ⟨h, fun hne => absurd rfl hne⟩

theorem since_same : since ((t, lines seen) :: seen) = since seen := if_pos rfl

theorem pulses_same : pulses ((t, lines seen) :: seen) = pulses seen := by
  simp [pulses]

theorem since_change (h : l ≠ lines seen) : since ((t, l) :: seen) = some t := if_neg h

/-- The end of a pulse is none. -/
theorem pulses_high : pulses ((t, 0) :: seen) = pulses seen := by
  simp [pulses]

theorem pulses_low (h0 : l ≠ 0) (h : l ≠ lines seen) :
    pulses ((t, l) :: seen) = pulses seen + 1 := by
  simp [pulses, h0, h]

theorem pulses_le (t : Nat) (l : UInt8) (seen : Seen) : pulses ((t, l) :: seen) ≤ pulses seen + 1 := by
  rw [pulses]
  split <;> omega

end Looks

/-! ## The invariant of a run in time -/

section Steps

variable {phaseTicks : UInt32} {maxBurst : UInt8}

/-- What the lines show, and when the phase that goes on is over. -/
structure Run.Inv (p : UInt32) (r : Run) : Prop where
  separate : Separate p.toNat r.seen
  shown : (pulses r.seen : Int) + r.wheel.burstCount.toNat = r.accepted - r.replaced
  mask : r.wheel.pulseMask = 0 ∨ r.wheel.pulseMask = 4 ∨ r.wheel.pulseMask = 8
  lines : lines r.seen = if r.wheel.phase = .low then r.wheel.pulseMask else 0
  low : r.wheel.phase = .low → r.wheel.pulseMask ≠ 0 ∧
    ∃ s ≤ r.time, since r.seen = some s ∧ r.wheel.nextTick = UInt32.ofNat (s + p.toNat)
  high : r.wheel.phase = .high → ∃ a ≤ r.time, since r.seen = some a ∧
    (r.late = false → r.wheel.nextTick = UInt32.ofNat (a + p.toNat))
  idle : r.wheel.phase = .idle → r.late = false → ∀ a ∈ since r.seen, a + p.toNat ≤ r.time

theorem init_inv (p : UInt32) : Run.Inv p .init where
  separate := trivial
  shown := rfl
  mask := .inl rfl
  lines := rfl
  low h := nomatch h
  high h := nomatch h
  idle _ _ _ h := nomatch h

/-- Of the wheel, merging touches the burst only. -/
theorem merge_frame (steps : Int) (maxBurst : UInt8) (w : Wheel) :
    (mergeNativeWheelBurst steps maxBurst w).phase = w.phase ∧
      (mergeNativeWheelBurst steps maxBurst w).pulseMask = w.pulseMask ∧
      (mergeNativeWheelBurst steps maxBurst w).nextTick = w.nextTick := by
  rw [mergeNativeWheelBurst]
  split <;> exact ⟨rfl, rfl, rfl⟩

/-- What is taken in and what takes its place add up to what there is. -/
theorem merge_inv {p : UInt32} {r : Run} (h : r.Inv p) (steps : Int) :
    Run.Inv p (r.step phaseTicks maxBurst (.merge steps)) := by
  obtain ⟨hphase, hmask, htick⟩ := merge_frame steps maxBurst r.wheel
  have hshown := h.shown
  exact
    { separate := h.separate
      shown := by
        simp only [Run.step]
        omega
      mask := by
        simp only [Run.step, hmask]
        exact h.mask
      lines := by
        simp only [Run.step, hphase, hmask]
        exact h.lines
      low := by
        simp only [Run.step, hphase, hmask, htick]
        exact h.low
      high := by
        simp only [Run.step, hphase, htick]
        exact h.high
      idle := by
        simp only [Run.step, hphase]
        exact h.idle }

/-! ## A call -/

/-- The run after a call that leaves the wheel so. -/
def Run.after (r : Run) (t : Nat) (w : Wheel) : Run :=
  { r with
    wheel := w
    seen := (t, if w.phase = .low then w.pulseMask else 0) :: r.seen
    time := t
    late := if r.wheel.LowOver (UInt32.ofNat t) then UInt32.ofNat t != r.wheel.nextTick
      else r.late }

theorem Advanced.mask {w w' : Wheel} {now p : UInt32} (h : Advanced w now p w')
    (hm : w.pulseMask = 0 ∨ w.pulseMask = 4 ∨ w.pulseMask = 8) :
    w'.pulseMask = 0 ∨ w'.pulseMask = 4 ∨ w'.pulseMask = 8 := by
  cases h with
  | waits _ _ => exact hm
  | rises _ _ => exact hm
  | rests _ _ _ => exact .inl rfl
  | begins _ _ mask hm => exact .inr hm

/-- A call is one of the four kinds. -/
theorem step_advance (phaseTicks : UInt32) (maxBurst : UInt8) {r : Run} (hm : r.wheel.pulseMask = 0 ∨ r.wheel.pulseMask = 4 ∨
    r.wheel.pulseMask = 8) (t : Nat) (mouseJoy : UInt8) :
    ∃ w, Advanced r.wheel (UInt32.ofNat t) (ticks phaseTicks) w ∧
      r.step phaseTicks maxBurst (.advance t mouseJoy) = r.after t w := by
  have ha := advance_advanced r.wheel (UInt32.ofNat t) phaseTicks
  refine ⟨_, ha, ?_⟩
  simp only [Run.step, Run.after, lowLines_apply (ha.mask hm)]

/-- An early call leaves all as it was. -/
theorem waits_inv {p : UInt32} {r : Run} {t : Nat} (h : r.Inv p) (ht : r.time ≤ t)
    (hphase : r.wheel.phase ≠ .idle) (he : Early (UInt32.ofNat t) r.wheel.nextTick) :
    Run.Inv p (r.after t r.wheel) := by
  have hl : ¬r.wheel.LowOver (UInt32.ofNat t) := fun hl => hl.2 he
  have hlines := h.lines
  rw [Run.after, if_neg hl, ← hlines]
  exact
    { separate := h.separate.same
      shown := by simpa only [pulses_same] using h.shown
      mask := h.mask
      lines := hlines
      low := fun hlow => by
        obtain ⟨h0, s, hs, hsince, hn⟩ := h.low hlow
        exact ⟨h0, s, Nat.le_trans hs ht, since_same.trans hsince, hn⟩
      high := fun hhigh => by
        obtain ⟨a, has, hsince, hn⟩ := h.high hhigh
        exact ⟨a, Nat.le_trans has ht, since_same.trans hsince, hn⟩
      idle := fun hidle => absurd hidle hphase }

/-- The end of a low phase is `p` after its begin. -/
theorem lowOver_due {p : UInt32} {r : Run} {t : Nat} (h : r.Inv p) (hp : p.toNat ≤ 2 ^ 31)
    (ht : r.time ≤ t) (hl : r.wheel.LowOver (UInt32.ofNat t)) :
    lines r.seen ≠ 0 ∧ ∀ s ∈ since r.seen, s + p.toNat ≤ t := by
  obtain ⟨h0, s, hs, hsince, hn⟩ := h.low hl.1
  refine ⟨?_, ?_⟩
  · rw [h.lines, if_pos hl.1]
    exact h0
  · intro s' hs'
    have heq : s = s' := by simpa [hsince] using hs'
    subst heq
    exact due_of_not_early hp (Nat.le_trans hs ht) (hn ▸ hl.2)

/-- A line that goes up does so after its time. -/
theorem rises_inv {p : UInt32} {r : Run} {t : Nat} (h : r.Inv p) (hp : p.toNat ≤ 2 ^ 31)
    (ht : r.time ≤ t) (hl : r.wheel.LowOver (UInt32.ofNat t)) :
    Run.Inv p (r.after t { r.wheel with phase := .high, nextTick := r.wheel.nextTick + p }) := by
  obtain ⟨hne, hdue⟩ := lowOver_due h hp ht hl
  rw [Run.after, if_pos hl]
  exact
    { separate := ⟨h.separate, fun _ => ⟨.inl rfl, hdue⟩⟩
      shown := by
        simp only [reduceCtorEq, if_false, pulses_high]
        exact h.shown
      mask := h.mask
      lines := rfl
      low := fun hlow => nomatch hlow
      high := fun _ => by
        refine ⟨t, Nat.le_refl t, since_change hne.symm, fun hlate => ?_⟩
        -- on time, `next_tick += phase_ticks` is `now + phase_ticks`
        have hnow : UInt32.ofNat t = r.wheel.nextTick := by simpa using hlate
        exact (congrArg (· + p) hnow.symm).trans (ofNat_add t p)
      idle := fun hidle => nomatch hidle }

/-- Where the phase is not low, the lines are high. -/
theorem Run.Inv.lines_high {p : UInt32} {r : Run} (h : r.Inv p) (hphase : r.wheel.phase ≠ .low) :
    WheelPulse.lines r.seen = 0 := by
  rw [h.lines, if_neg hphase]

/-- With the line raised in time, a call that finds the high phase over, or the idle one,
    comes when it has been high for its time. -/
theorem high_due {p : UInt32} {r : Run} {t : Nat} (h : r.Inv p) (hp : p.toNat ≤ 2 ^ 31)
    (ht : r.time ≤ t) (hphase : r.wheel.phase ≠ .low) (ho : Over r.wheel (UInt32.ofNat t) p)
    (hlate : r.late = false) : ∀ a ∈ since r.seen, a + p.toNat ≤ t := by
  intro a ha
  cases hph : r.wheel.phase with
  | low => exact absurd hph hphase
  | idle => exact Nat.le_trans (h.idle hph hlate a ha) ht
  | high =>
      obtain ⟨a', ha', hsince, hn⟩ := h.high hph
      have heq : a' = a := by simpa [hsince] using ha
      subst heq
      simp only [Over, hph] at ho
      exact due_of_not_early hp (Nat.le_trans ha' ht) (hn hlate ▸ ho)

/-- A call that finds nothing to show. -/
theorem rests_inv {p : UInt32} {r : Run} {t : Nat} (h : r.Inv p) (hp : p.toNat ≤ 2 ^ 31)
    (hpos : 0 < p.toNat) (ht : r.time ≤ t) (ho : Over r.wheel (UInt32.ofNat t) p)
    (nextTick : UInt32) :
    Run.Inv p (r.after t ⟨0, r.wheel.burstCount, .idle, 0, nextTick⟩) := by
  have hmain : Separate p.toNat ((t, 0) :: r.seen) ∧
      ((r.after t ⟨0, r.wheel.burstCount, .idle, 0, nextTick⟩).late = false →
        ∀ a ∈ since ((t, 0) :: r.seen), a + p.toNat ≤ t) := by
    by_cases hlow : r.wheel.phase = .low
    · simp only [Over, hlow] at ho
      have hl : r.wheel.LowOver (UInt32.ofNat t) := ⟨hlow, ho.1⟩
      obtain ⟨hne, hdue⟩ := lowOver_due h hp ht hl
      refine ⟨⟨h.separate, fun _ => ⟨.inl rfl, hdue⟩⟩, fun hlate => ?_⟩
      -- both phases were over, so the call was late for the first
      rw [Run.after, if_pos hl] at hlate
      have hnow : UInt32.ofNat t = r.wheel.nextTick := by simpa using hlate
      exact absurd (hnow ▸ early_add hpos hp (UInt32.ofNat t)) ho.2
    · have hl : ¬r.wheel.LowOver (UInt32.ofNat t) := fun hl => hlow hl.1
      have hlines := h.lines_high hlow
      refine ⟨⟨h.separate, fun hne => absurd hlines.symm hne⟩, fun hlate => ?_⟩
      rw [Run.after, if_neg hl] at hlate
      rw [← hlines, since_same]
      exact high_due h hp ht hlow ho hlate
  exact
    { separate := hmain.1
      shown := by
        simp only [Run.after, reduceCtorEq, if_false, pulses_high]
        exact h.shown
      mask := .inl rfl
      lines := rfl
      low := fun hlow => nomatch hlow
      high := fun hhigh => nomatch hhigh
      idle := fun _ => hmain.2 }

/-- A pulse begins after the line has been high for its time. -/
theorem begins_inv {p : UInt32} {r : Run} {t : Nat} (h : r.Inv p) (hpending : r.wheel.Pending)
    (hphase : r.wheel.phase ≠ .low) (hdue : ∀ a ∈ since r.seen, a + p.toNat ≤ t)
    {mask : UInt8} (hm : mask = 4 ∨ mask = 8) :
    Run.Inv p (r.after t
      ⟨r.wheel.burstDirection, r.wheel.burstCount - 1, .low, mask, UInt32.ofNat t + p⟩) := by
  have h0 : mask ≠ 0 := by
    rintro rfl
    exact absurd hm (by decide)
  have hlines := h.lines_high hphase
  have hne : mask ≠ lines r.seen := hlines ▸ h0
  exact
    { separate := ⟨h.separate, fun _ => ⟨.inr hlines, hdue⟩⟩
      shown := by
        have hshown := h.shown
        have hcount : 0 < r.wheel.burstCount.toNat := hpending.1
        have hsub : (r.wheel.burstCount - 1).toNat = r.wheel.burstCount.toNat - 1 := by
          rw [UInt8.toNat_sub_of_le _ _
            (UInt8.le_iff_toNat_le.2 (show (1 : UInt8).toNat ≤ _ from hcount))]
          rfl
        simp only [Run.after, if_true, pulses_low h0 hne, hsub]
        omega
      mask := .inr hm
      lines := rfl
      low := fun _ => ⟨h0, t, Nat.le_refl t, since_change hne, ofNat_add t p⟩
      high := fun hhigh => nomatch hhigh
      idle := fun hidle => nomatch hidle }

/-- What is asked of a call, where a pulse begins. -/
theorem timely_begins {r : Run} {t : Nat} {mouseJoy : UInt8}
    (h : r.Inv (ticks phaseTicks)) (hp : (ticks phaseTicks).toNat ≤ 2 ^ 31) (ht : r.time ≤ t)
    (hpending : r.wheel.Pending) (ho : Over r.wheel (UInt32.ofNat t) (ticks phaseTicks))
    (htimely : r.Timely phaseTicks (.advance t mouseJoy)) :
    r.wheel.phase ≠ .low ∧ ∀ a ∈ since r.seen, a + (ticks phaseTicks).toNat ≤ t := by
  have hc := htimely hpending
  cases hph : r.wheel.phase with
  | low =>
      simp only [Over, hph] at ho hc
      exact absurd (hc ho.1) ho.2
  | idle =>
      refine ⟨by simp, ?_⟩
      simp only [hph] at hc
      cases hlate : r.late with
      | true => exact hc hlate
      | false => exact high_due h hp ht (by simp [hph]) ho hlate
  | high =>
      refine ⟨by simp, ?_⟩
      simp only [hph] at hc
      have ho' : ¬Early (UInt32.ofNat t) r.wheel.nextTick := by simpa only [Over, hph] using ho
      cases hlate : r.late with
      | true => exact hc ho' hlate
      | false => exact high_due h hp ht (by simp [hph]) ho hlate

/-- A call in time keeps the invariant. -/
theorem advance_inv {r : Run} (h : r.Inv (ticks phaseTicks))
    (hp : (ticks phaseTicks).toNat ≤ 2 ^ 31) {t : Nat} {mouseJoy : UInt8} (ht : r.time ≤ t)
    (htimely : r.Timely phaseTicks (.advance t mouseJoy)) :
    Run.Inv (ticks phaseTicks) (r.step phaseTicks maxBurst (.advance t mouseJoy)) := by
  obtain ⟨w, ha, hstep⟩ := step_advance phaseTicks maxBurst h.mask t mouseJoy
  rw [hstep]
  cases ha with
  | waits hphase he => exact waits_inv h ht hphase he
  | rises hl he => exact rises_inv h hp ht hl
  | rests ho hp' nextTick => exact rests_inv h hp (ticks_pos phaseTicks) ht ho nextTick
  | begins ho hpending mask hm =>
      obtain ⟨hphase, hdue⟩ := timely_begins h hp ht hpending ho htimely
      exact begins_inv h hpending hphase hdue hm

/-! ## What is lost is not made good -/

/-- What the lines show of the wheel, in time or not. -/
structure Run.Looks (r : Run) : Prop where
  mask : r.wheel.pulseMask = 0 ∨ r.wheel.pulseMask = 4 ∨ r.wheel.pulseMask = 8
  lines : lines r.seen = if r.wheel.phase = .low then r.wheel.pulseMask else 0

theorem Run.Inv.looks {p : UInt32} {r : Run} (h : r.Inv p) : r.Looks := ⟨h.mask, h.lines⟩

/-- The steps that are neither seen nor still to be shown. -/
def Run.lost (r : Run) : Int :=
  r.accepted - r.replaced - (pulses r.seen + r.wheel.burstCount.toNat)

/-- The lines have changed too soon, or a step is lost. -/
def Run.Broken (p : Nat) (r : Run) : Prop := ¬Separate p r.seen ∨ 0 < r.lost

theorem Run.Broken.not_shown {r : Run} (h : r.Broken (ticks phaseTicks).toNat) :
    ¬r.Shown phaseTicks := by
  rintro ⟨hsep, hcount⟩
  obtain hb | hb := h
  · exact hb hsep
  · simp only [Run.lost] at hb
    omega

theorem merge_lost (r : Run) (steps : Int) :
    (r.step phaseTicks maxBurst (.merge steps)).lost = r.lost := by
  simp only [Run.lost, Run.step]
  omega

theorem Pending.toNat_sub {w : Wheel} (h : w.Pending) :
    (w.burstCount - 1).toNat + 1 = w.burstCount.toNat := by
  have hcount : 0 < w.burstCount.toNat := h.1
  rw [UInt8.toNat_sub_of_le _ _ (UInt8.le_iff_toNat_le.2 (show (1 : UInt8).toNat ≤ _ from hcount))]
  exact Nat.sub_add_cancel hcount

/-- A call shows no more than it takes. -/
theorem after_lost {p : UInt32} {r : Run} {t : Nat} {w : Wheel} (h : r.Looks)
    (ha : Advanced r.wheel (UInt32.ofNat t) p w) : r.lost ≤ (r.after t w).lost := by
  simp only [Run.lost, Run.after]
  cases ha with
  | waits hphase he =>
      rw [← h.lines, pulses_same]
  | rises hl he =>
      simp only [reduceCtorEq, if_false, pulses_high]
      omega
  | rests ho hp nextTick =>
      simp only [reduceCtorEq, if_false, pulses_high]
      omega
  | begins ho hp mask hm =>
      have hcount := Pending.toNat_sub hp
      have hle := pulses_le t mask r.seen
      simp only [if_true]
      omega

theorem step_looks {r : Run} (h : r.Looks) (e : Event) :
    (r.step phaseTicks maxBurst e).Looks ∧ r.lost ≤ (r.step phaseTicks maxBurst e).lost := by
  cases e with
  | merge steps =>
      obtain ⟨hphase, hmask, -⟩ := merge_frame steps maxBurst r.wheel
      refine ⟨⟨?_, ?_⟩, (merge_lost r steps).ge⟩
      · simp only [Run.step, hmask]
        exact h.mask
      · simp only [Run.step, hphase, hmask]
        exact h.lines
  | advance t mouseJoy =>
      obtain ⟨w, ha, hstep⟩ := step_advance phaseTicks maxBurst h.mask t mouseJoy
      rw [hstep]
      exact ⟨⟨ha.mask h.mask, rfl⟩, after_lost h ha⟩

theorem step_broken {p : Nat} {r : Run} (h : r.Looks) (hb : r.Broken p) (e : Event) :
    (r.step phaseTicks maxBurst e).Broken p := by
  obtain hb | hb := hb
  · refine .inl fun hsep => hb ?_
    cases e with
    | merge steps => exact hsep
    | advance t mouseJoy => exact hsep.1
  · exact .inr (Int.lt_of_lt_of_le hb (step_looks h e).2)

theorem run_broken {p : Nat} {r : Run} (h : r.Looks) (hb : r.Broken p) (events : List Event) :
    (r.run phaseTicks maxBurst events).Broken p := by
  induction events generalizing r with
  | nil => exact hb
  | cons e events ih => exact ih (step_looks h e).1 (step_broken h hb e)

/-- What there is to a call that is not in time. -/
theorem not_timely {r : Run} {t : Nat} {mouseJoy : UInt8}
    (hnot : ¬r.Timely phaseTicks (.advance t mouseJoy)) :
    r.wheel.Pending ∧ Over r.wheel (UInt32.ofNat t) (ticks phaseTicks) ∧
      (r.wheel.phase = .low ∨ ∃ a ∈ since r.seen, ¬a + (ticks phaseTicks).toNat ≤ t) := by
  simp only [Run.Timely, Classical.not_imp] at hnot
  obtain ⟨hpending, hnot⟩ := hnot
  refine ⟨hpending, ?_⟩
  cases hph : r.wheel.phase with
  | low =>
      simp only [hph, Classical.not_imp] at hnot
      refine ⟨?_, .inl rfl⟩
      simpa only [Over, hph] using hnot
  | idle =>
      simp only [hph, Classical.not_imp, not_forall] at hnot
      obtain ⟨-, a, ha, hlt⟩ := hnot
      refine ⟨?_, .inr ⟨a, ha, hlt⟩⟩
      simp only [Over, hph]
  | high =>
      simp only [hph, Classical.not_imp, not_forall] at hnot
      obtain ⟨hover, -, a, ha, hlt⟩ := hnot
      refine ⟨?_, .inr ⟨a, ha, hlt⟩⟩
      simpa only [Over, hph] using hover

/-- A pulse that begins where the last one is still on, or too soon behind it. -/
theorem begins_broken {p : UInt32} {r : Run} {t : Nat} (h : r.Inv p)
    (hpending : r.wheel.Pending) {mask : UInt8} (hm : mask = 4 ∨ mask = 8)
    (hbad : r.wheel.phase = .low ∨ ∃ a ∈ since r.seen, ¬a + p.toNat ≤ t) :
    (r.after t ⟨r.wheel.burstDirection, r.wheel.burstCount - 1, .low, mask,
      UInt32.ofNat t + p⟩).Broken p.toNat := by
  have h0 : mask ≠ 0 := by
    rintro rfl
    exact absurd hm (by decide)
  have hcount := Pending.toNat_sub hpending
  have hshown := h.shown
  by_cases hsame : mask = lines r.seen
  · -- the two pulses are seen as one
    refine .inr ?_
    simp only [Run.lost, Run.after, if_true, hsame, pulses_same]
    omega
  · refine .inl fun hsep => ?_
    obtain ⟨-, hchange⟩ := hsep
    obtain ⟨hhigh, hdue⟩ := hchange hsame
    obtain hlow | ⟨a, ha, hlt⟩ := hbad
    · have hne := (h.low hlow).1
      rw [h.lines, if_pos hlow] at hhigh
      exact hhigh.elim h0 hne
    · exact hlt (hdue a ha)

/-- A call that is not in time breaks the run. -/
theorem advance_broken {r : Run} {t : Nat} {mouseJoy : UInt8} (h : r.Inv (ticks phaseTicks))
    (hnot : ¬r.Timely phaseTicks (.advance t mouseJoy)) :
    (r.step phaseTicks maxBurst (.advance t mouseJoy)).Broken (ticks phaseTicks).toNat := by
  obtain ⟨hpending, ho, hbad⟩ := not_timely hnot
  obtain ⟨w, ha, hstep⟩ := step_advance phaseTicks maxBurst h.mask t mouseJoy
  rw [hstep]
  cases ha with
  | waits hphase he =>
      cases hph : r.wheel.phase with
      | idle => exact absurd hph hphase
      | low => exact absurd he (by simp only [Over, hph] at ho; exact ho.1)
      | high => exact absurd he (by simpa only [Over, hph] using ho)
  | rises hl he => exact absurd he (by simp only [Over, hl.1] at ho; exact ho.2)
  | rests _ hp _ => exact absurd hpending hp
  | begins _ _ mask hm => exact begins_broken h hpending hm hbad

/-- Each step is shown as a pulse of its own just when all calls are in time. -/
theorem run_shown_iff {r : Run} (h : r.Inv (ticks phaseTicks))
    (hp : (ticks phaseTicks).toNat ≤ 2 ^ 31) (events : List Event)
    (ho : Run.Each phaseTicks maxBurst Run.Orderly r events) :
    (r.run phaseTicks maxBurst events).Shown phaseTicks ↔
      Run.Each phaseTicks maxBurst (Run.Timely phaseTicks) r events := by
  induction events generalizing r with
  | nil => exact ⟨fun _ => trivial, fun _ => ⟨h.separate, h.shown⟩⟩
  | cons e events ih =>
      obtain ⟨ht, ho⟩ := ho
      by_cases htimely : r.Timely phaseTicks e
      · have hstep : Run.Inv (ticks phaseTicks) (r.step phaseTicks maxBurst e) := by
          cases e with
          | merge steps => exact merge_inv h steps
          | advance t mouseJoy => exact advance_inv h hp ht htimely
        refine (ih hstep ho).trans ?_
        simp only [Run.Each, htimely, true_and]
      · have hbroken : (r.step phaseTicks maxBurst e).Broken (ticks phaseTicks).toNat := by
          cases e with
          | merge steps => exact absurd trivial htimely
          | advance t mouseJoy => exact advance_broken h htimely
        have hrun : Run.Broken (ticks phaseTicks).toNat
            (Run.run phaseTicks maxBurst (r.step phaseTicks maxBurst e) events) :=
          run_broken (step_looks h.looks e).1 hbroken events
        exact iff_of_false hrun.not_shown fun hall => htimely hall.1

/-- Whatever steps come and however late the calls are: each step taken in and not
    replaced is one pulse of its own, or is still to be shown, just when all calls are in
    time. -/
theorem nativeWheel_shown_iff (phaseTicks : UInt32) (maxBurst : UInt8)
    (hp : phaseTicks.toNat ≤ 2 ^ 31) (events : List Event)
    (ho : Run.Each phaseTicks maxBurst Run.Orderly .init events) :
    (Run.init.run phaseTicks maxBurst events).Shown phaseTicks ↔
      Run.Each phaseTicks maxBurst (Run.Timely phaseTicks) .init events := by
  refine run_shown_iff (init_inv _) ?_ events ho
  rw [ticks]
  split
  · decide
  · exact hp

/-- One step, and calls at the begin and the end of its pulse. -/
theorem nativeWheel_shown_once :
    (Run.init.run 10 16 [.merge 1, .advance 0 0x1F, .advance 10 0x1F]).Shown 10 := by
  have ho : Run.Each 10 16 Run.Orderly .init [.merge 1, .advance 0 0x1F, .advance 10 0x1F] :=
    ⟨trivial, Nat.le_refl 0, Nat.zero_le 10, trivial⟩
  refine (nativeWheel_shown_iff 10 16 (by decide) _ ho).2 ⟨trivial, ?_, ?_, trivial⟩
  · exact fun _ hlate => nomatch hlate
  · exact fun hpending => absurd hpending.1 (by decide)

/-- Two steps, and a call that comes when the high phase of the first should be over: both
    pulses are seen as one. -/
theorem nativeWheel_not_shown :
    ¬ ∀ (phaseTicks : UInt32) (maxBurst : UInt8) (events : List Event),
      Run.Each phaseTicks maxBurst Run.Orderly .init events →
        (Run.init.run phaseTicks maxBurst events).Shown phaseTicks := by
  intro h
  have ho : Run.Each 10 16 Run.Orderly .init [.merge 2, .advance 0 0x1F, .advance 20 0x1F] :=
    ⟨trivial, Nat.le_refl 0, Nat.zero_le 20, trivial⟩
  exact absurd (h 10 16 _ ho).2 (by decide)

end Steps

end WheelPulse
