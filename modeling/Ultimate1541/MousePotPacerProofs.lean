import Mathlib

/-! # The pacer of the mouse's POT lines

    A driver on the C64 sees seven bits of the position of a mouse, and takes the change since
    its last look as a move of -64 to +63.  `mouse_pot_pacer.h` keeps, for each axis, how many
    counts it has shown in each of the last milliseconds, and shows no more than `maxStep` of
    them within `windowMs`; what does not fit waits, up to `maxBehind` counts.

    The counts that were shown since some moment are in the first places of `shownAt`, one more
    with each millisecond (`Within`), as long as no more than the window has passed.  The clock
    has 16 bits: the calls are given with the true time. -/

namespace MousePot

def maxStep : Nat := 63

def maxBehind : Int := 4 * maxStep

def windowMs : Nat := 24

/-- `(int16_t)n`. -/
def toInt16 (n : Int) : Int := n.bmod (2 ^ 16)

/-- `Axis`; `shown_at` has `windowMs` places. -/
structure Axis where
  position : Int
  shown : Int
  behind : Int
  shownAt : Nat → UInt8

/-- The counts in the first places. -/
def spent (shownAt : Nat → UInt8) : Nat → Nat
  | 0 => 0
  | n + 1 => spent shownAt n + (shownAt n).toNat

namespace Axis

/-- `resetAxis`. -/
def reset (position : Int) (spent : UInt8) : Axis :=
  ⟨position, position, 0, fun i => if i = 0 then spent else 0⟩

/-- The counts that are pending when the position is given, before the cap. -/
def pending (axis : Axis) (position : Int) : Int := axis.behind + toInt16 (position - axis.position)

def follow (axis : Axis) (position : Int) : Axis :=
  let behind := axis.pending position
  { axis with
    position := position
    behind := toInt16 (if behind > maxBehind then maxBehind else if behind < -maxBehind then -maxBehind else behind) }

def age (axis : Axis) (milliseconds : Nat) : Axis :=
  { axis with shownAt := fun i => if i ≥ milliseconds then axis.shownAt (i - milliseconds) else 0 }

def room (axis : Axis) : Int := maxStep - spent axis.shownAt windowMs

/-- What of the waiting movement has room. -/
def change (axis : Axis) : Int :=
  if axis.behind > axis.room then axis.room
  else if axis.behind < -axis.room then -axis.room
  else axis.behind

def step (axis : Axis) : Bool × Axis :=
  if axis.behind = 0 then (false, axis)
  else if axis.room ≤ 0 then (false, axis)
  else
    (true,
      { axis with
        shown := toInt16 (axis.shown + axis.change)
        behind := toInt16 (axis.behind - axis.change)
        shownAt := fun i =>
          if i = 0 then UInt8.ofNat ((axis.shownAt 0).toNat + axis.change.natAbs) else axis.shownAt i })

/-- `potX`, `potY`. -/
def pot (axis : Axis) : Nat := (axis.shown % 2 ^ 7).toNat

end Axis

/-- `MousePotPacer`, with the window that is not for tests. -/
structure Pacer where
  xAxis : Axis
  yAxis : Axis
  latest : UInt16

inductive Side where
  | x
  | y

namespace Pacer

def axis (p : Pacer) : Side → Axis
  | .x => p.xAxis
  | .y => p.yAxis

/-- `MousePotPacer()`. -/
def initialState : Pacer := ⟨.reset 0 0, .reset 0 0, 0⟩

def reset (x y : Int) (now : UInt16) : Pacer :=
  ⟨.reset (toInt16 x) (UInt8.ofNat maxStep), .reset (toInt16 y) (UInt8.ofNat maxStep), now⟩

def setTarget (p : Pacer) (x y : Int) : Pacer :=
  { p with xAxis := p.xAxis.follow (toInt16 x), yAxis := p.yAxis.follow (toInt16 y) }

/-- The aging of `advance`. -/
def aged (p : Pacer) (now : UInt16) : Pacer :=
  let elapsed := now - p.latest
  if elapsed = 0 then p
  else
    let milliseconds := if elapsed.toNat < windowMs then elapsed.toNat else windowMs
    ⟨p.xAxis.age milliseconds, p.yAxis.age milliseconds, now⟩

def advance (p : Pacer) (now : UInt16) : Bool × Pacer :=
  let p := p.aged now
  (p.xAxis.step.1 || p.yAxis.step.1, { p with xAxis := p.xAxis.step.2, yAxis := p.yAxis.step.2 })

end Pacer

/-- A call, with the true time where it takes the clock. -/
inductive Call where
  | reset (x y : Int) (time : Nat)
  | setTarget (x y : Int)
  | advance (time : Nat)

def Pacer.call (p : Pacer) : Call → Pacer
  | .reset x y time => Pacer.reset x y (UInt16.ofNat time)
  | .setTarget x y => p.setTarget x y
  | .advance time => (p.advance (UInt16.ofNat time)).2

def Pacer.run (p : Pacer) (calls : List Call) : Pacer := calls.foldl Pacer.call p

/-- The pacer after some calls. -/
def after (calls : List Call) : Pacer := Pacer.initialState.run calls

def Call.time : Call → Option Nat
  | .reset _ _ time => some time
  | .setTarget _ _ => none
  | .advance time => some time

def times (calls : List Call) : List Nat := calls.filterMap Call.time

def Call.isReset : Call → Bool
  | .reset .. => true
  | _ => false

/-! ## One axis -/

theorem toInt16_of_range {n : Int} (hlow : -2 ^ 15 ≤ n) (hhigh : n < 2 ^ 15) : toInt16 n = n := by
  rw [toInt16, Int.bmod_eq_of_le] <;> omega

theorem toInt16_add_toInt16 (n m : Int) : toInt16 (toInt16 n + m) = toInt16 (n + m) :=
  Int.bmod_add_bmod

theorem spent_mono (shownAt : Nat → UInt8) {n m : Nat} (h : n ≤ m) : spent shownAt n ≤ spent shownAt m := by
  induction h with
  | refl => exact Nat.le_refl _
  | step _ ih => exact Nat.le_trans ih (Nat.le_add_right _ _)

/-- What was shown before is found some places behind. -/
theorem spent_age (axis : Axis) (milliseconds n : Nat) :
    spent (axis.age milliseconds).shownAt (milliseconds + n) = spent axis.shownAt n := by
  have hnew : ∀ k ≤ milliseconds, spent (axis.age milliseconds).shownAt k = 0 := by
    intro k hk
    induction k with
    | zero => rfl
    | succ k ih =>
        rw [spent, ih (by omega)]
        simp only [Axis.age, if_neg (show ¬ k ≥ milliseconds by omega)]
        rfl
  induction n with
  | zero => exact hnew milliseconds (Nat.le_refl _)
  | succ n ih =>
      rw [← Nat.add_assoc, spent, ih, spent]
      simp only [Axis.age, if_pos (Nat.le_add_right milliseconds n), Nat.add_sub_cancel_left]

/-- What an axis keeps between the calls. -/
structure Good (axis : Axis) : Prop where
  shown : toInt16 axis.shown = axis.shown
  behind : -maxBehind ≤ axis.behind ∧ axis.behind ≤ maxBehind
  spent : spent axis.shownAt windowMs ≤ maxStep

theorem spent_reset (position : Int) (start : UInt8) (n : Nat) :
    spent (Axis.reset position start).shownAt (n + 1) = start.toNat := by
  induction n with
  | zero => exact Nat.zero_add _
  | succ n ih =>
      rw [spent, ih]
      exact Nat.add_zero _

theorem Good.reset (position : Int) {start : UInt8} (h : start.toNat ≤ maxStep) :
    Good (.reset (toInt16 position) start) where
  shown := Int.bmod_bmod
  behind := by
    change -maxBehind ≤ 0 ∧ 0 ≤ maxBehind
    decide
  spent := Nat.le_trans (Nat.le_of_eq (spent_reset _ start 23)) h

/-- The pending counts after `follow`: the cap, or all of them. -/
theorem follow_behind (axis : Axis) (position : Int) :
    (axis.follow position).behind = max (-maxBehind) (min maxBehind (axis.pending position)) := by
  have hcap : maxBehind = 252 := rfl
  simp only [Axis.follow]
  rw [hcap]
  split
  · rw [toInt16_of_range] <;> omega
  · split
    · rw [toInt16_of_range] <;> omega
    · rw [toInt16_of_range] <;> omega

theorem Good.follow {axis : Axis} (h : Good axis) (position : Int) : Good (axis.follow position) where
  shown := h.shown
  behind := by
    have hcap : maxBehind = 252 := rfl
    rw [follow_behind]
    omega
  spent := h.spent

theorem Good.age {axis : Axis} (h : Good axis) (milliseconds : Nat) (hle : milliseconds ≤ windowMs) :
    Good (axis.age milliseconds) where
  shown := h.shown
  behind := h.behind
  spent := by
    have hshift := spent_age axis milliseconds (windowMs - milliseconds)
    rw [Nat.add_sub_cancel' hle] at hshift
    rw [hshift]
    exact Nat.le_trans (spent_mono _ (Nat.sub_le _ _)) h.spent

/-- What a step shows: part of what is pending, in its direction, and it is counted. -/
theorem step_spec {axis : Axis} (h : Good axis) :
    ∃ change : Int, (0 ≤ change ∧ change ≤ axis.behind ∨ axis.behind ≤ change ∧ change ≤ 0) ∧
      axis.step.2.shown = toInt16 (axis.shown + change) ∧ axis.step.2.behind = axis.behind - change ∧
      axis.step.2.position = axis.position ∧
      (∀ n, spent axis.step.2.shownAt (n + 1) = spent axis.shownAt (n + 1) + change.natAbs) ∧
      spent axis.shownAt windowMs + change.natAbs ≤ maxStep := by
  have hcap : maxBehind = 252 := rfl
  have hbehind := h.behind
  have hspent := h.spent
  have hnone : ∃ change : Int,
      (0 ≤ change ∧ change ≤ axis.behind ∨ axis.behind ≤ change ∧ change ≤ 0) ∧
      axis.shown = toInt16 (axis.shown + change) ∧ axis.behind = axis.behind - change ∧
      axis.position = axis.position ∧
      (∀ n, spent axis.shownAt (n + 1) = spent axis.shownAt (n + 1) + change.natAbs) ∧
      spent axis.shownAt windowMs + change.natAbs ≤ maxStep := by
    refine ⟨0, by omega, ?_, by omega, rfl, fun n => rfl, hspent⟩
    rw [Int.add_zero, h.shown]
  rw [Axis.step]
  split
  · exact hnone
  · split
    · exact hnone
    next hmoves hroom =>
      have hstep : maxStep = 63 := rfl
      have hlimit : axis.room ≤ maxStep := by
        rw [Axis.room]
        omega
      have hfirst : (axis.shownAt 0).toNat ≤ spent axis.shownAt windowMs := by
        refine Nat.le_trans (Nat.le_of_eq ?_) (spent_mono axis.shownAt (show 1 ≤ windowMs by decide))
        exact (Nat.zero_add _).symm
      have hchange : (0 ≤ axis.change ∧ axis.change ≤ axis.behind ∨ axis.behind ≤ axis.change ∧ axis.change ≤ 0) ∧
          axis.change.natAbs ≤ axis.room := by
        rw [Axis.change]
        split
        · omega
        · split <;> omega
      have hcount : (axis.shownAt 0).toNat + axis.change.natAbs < 2 ^ 8 := by
        rw [Axis.room] at hchange
        omega
      have htotal : spent axis.shownAt windowMs + axis.change.natAbs ≤ maxStep := by
        rw [Axis.room] at hchange
        omega
      refine ⟨axis.change, hchange.1, rfl, toInt16_of_range (by omega) (by omega), rfl, fun n => ?_, htotal⟩
      induction n with
      | zero =>
          change 0 + (UInt8.ofNat _).toNat = 0 + (axis.shownAt 0).toNat + _
          rw [UInt8.toNat_ofNat_of_lt' hcount, Nat.zero_add, Nat.zero_add]
      | succ n ih =>
          rw [spent, ih, spent]
          exact Nat.add_right_comm ..

theorem Good.step {axis : Axis} (h : Good axis) : Good axis.step.2 := by
  obtain ⟨change, hchange, hshown, hbehind, -, hspent, htotal⟩ := step_spec h
  have hbound := h.behind
  refine ⟨?_, by omega, ?_⟩
  · rw [hshown]
    exact Int.bmod_bmod
  · exact (hspent 23).symm ▸ htotal

/-! ## Both axes -/

theorem reset_axis (x y : Int) (now : UInt16) (side : Side) :
    ∃ position, (Pacer.reset x y now).axis side = .reset (toInt16 position) (UInt8.ofNat maxStep) := by
  cases side with
  | x => exact ⟨x, rfl⟩
  | y => exact ⟨y, rfl⟩

/-- The position that is given for an axis. -/
def target (x y : Int) : Side → Int
  | .x => toInt16 x
  | .y => toInt16 y

theorem setTarget_axis (p : Pacer) (x y : Int) (side : Side) :
    (p.setTarget x y).axis side = (p.axis side).follow (target x y side) := by
  cases side <;> rfl

theorem advance_axis (p : Pacer) (now : UInt16) (side : Side) :
    (p.advance now).2.axis side = ((p.aged now).axis side).step.2 := by
  cases side <;> rfl

/-- An axis ages by the time that has passed, up to the window. -/
theorem aged_axis (p : Pacer) (now : UInt16) (side : Side) :
    (p.aged now).axis side = (p.axis side).age (min (now - p.latest).toNat windowMs) := by
  rw [Pacer.aged]
  by_cases hzero : now - p.latest = 0
  · rw [hzero, if_pos rfl]
    cases side <;> rfl
  · rw [if_neg hzero]
    have hmin : (if (now - p.latest).toNat < windowMs then (now - p.latest).toNat else windowMs) =
        min (now - p.latest).toNat windowMs := by
      split <;> omega
    rw [hmin]
    cases side <;> rfl

theorem run_advance (p : Pacer) (time : Nat) (side : Side) :
    (p.run [.advance time]).axis side =
      ((p.axis side).age (min (UInt16.ofNat time - p.latest).toNat windowMs)).step.2 :=
  (advance_axis p _ side).trans (congrArg (fun axis => axis.step.2) (aged_axis p _ side))

theorem advance_latest (p : Pacer) (now : UInt16) : (p.advance now).2.latest = now := by
  change (p.aged now).latest = now
  rw [Pacer.aged]
  split
  next hzero =>
    have hnow := UInt16.sub_add_cancel now p.latest
    rw [hzero, UInt16.zero_add] at hnow
    exact hnow
  · rfl

theorem good_call {p : Pacer} (h : ∀ side, Good (p.axis side)) (c : Call) (side : Side) :
    Good ((p.call c).axis side) := by
  cases c with
  | reset x y time =>
      obtain ⟨position, hposition⟩ := reset_axis x y (UInt16.ofNat time) side
      change Good ((Pacer.reset x y (UInt16.ofNat time)).axis side)
      rw [hposition]
      exact Good.reset position (by decide)
  | setTarget x y =>
      change Good ((p.setTarget x y).axis side)
      rw [setTarget_axis]
      exact (h side).follow _
  | advance time =>
      change Good ((p.advance (UInt16.ofNat time)).2.axis side)
      rw [advance_axis, aged_axis]
      exact ((h side).age _ (Nat.min_le_right _ _)).step

theorem good_run {p : Pacer} (h : ∀ side, Good (p.axis side)) (calls : List Call) (side : Side) :
    Good ((p.run calls).axis side) := by
  induction calls generalizing p with
  | nil => exact h side
  | cons c calls ih => exact ih (good_call h c)

theorem good_after (calls : List Call) (side : Side) : Good ((after calls).axis side) := by
  refine good_run (fun side => ?_) calls side
  cases side <;> exact Good.reset 0 (by decide)

/-! ## The window -/

/-- Since an axis was as it was, it has shown no more counts than the first places hold. -/
def Within (axis₀ axis : Axis) (n : Nat) : Prop :=
  ∃ moved : Int, moved.natAbs ≤ spent axis.shownAt n ∧ axis.shown = toInt16 (axis₀.shown + moved)

theorem Within.follow {axis₀ axis : Axis} {n : Nat} (h : Within axis₀ axis n) (position : Int) :
    Within axis₀ (axis.follow position) n := h

theorem Within.age {axis₀ axis : Axis} {n : Nat} (h : Within axis₀ axis n) (milliseconds : Nat) :
    Within axis₀ (axis.age milliseconds) (milliseconds + n) := by
  obtain ⟨moved, hmoved, hshown⟩ := h
  exact ⟨moved, (spent_age axis milliseconds n).symm ▸ hmoved, hshown⟩

theorem Within.step {axis₀ axis : Axis} {n : Nat} (h : Within axis₀ axis (n + 1)) (hgood : Good axis) :
    Within axis₀ axis.step.2 (n + 1) := by
  obtain ⟨moved, hmoved, hshown⟩ := h
  obtain ⟨change, -, hstep, -, -, hspent, -⟩ := step_spec hgood
  refine ⟨moved + change, ?_, ?_⟩
  · rw [hspent]
    omega
  · rw [hstep, hshown, toInt16_add_toInt16, Int.add_assoc]

/-- The clock gives the time between two calls. -/
theorem clock_sub {before now : Nat} (h : before ≤ now) (hnear : now < before + 2 ^ 16) :
    (UInt16.ofNat now - UInt16.ofNat before).toNat = now - before := by
  rw [UInt16.toNat_sub, UInt16.toNat_ofNat', UInt16.toNat_ofNat']
  omega

/-- Behind a call at `latest`, calls that stay in the window. -/
theorem within_run {axis₀ : Axis} {side : Side} {p : Pacer} {latest n : Nat} {calls : List Call}
    (hwithin : Within axis₀ (p.axis side) (n + 1)) (hgood : ∀ side, Good (p.axis side))
    (hlatest : p.latest = UInt16.ofNat latest) (hreset : ∀ c ∈ calls, c.isReset = false)
    (hsorted : (times calls).Pairwise (· ≤ ·))
    (hnear : ∀ time ∈ times calls, latest ≤ time ∧ time + n < latest + windowMs) (hn : n < windowMs) :
    ∃ m < windowMs, Within axis₀ ((p.run calls).axis side) (m + 1) := by
  induction calls generalizing p latest n with
  | nil => exact ⟨n, hn, hwithin⟩
  | cons c calls ih =>
      have hgoods := good_call hgood c
      cases c with
      | reset x y time => exact nomatch hreset _ List.mem_cons_self
      | setTarget x y =>
          refine ih ?_ hgoods hlatest (fun d hd => hreset d (List.mem_cons_of_mem _ hd)) hsorted hnear hn
          change Within axis₀ ((p.setTarget x y).axis side) (n + 1)
          rw [setTarget_axis]
          exact hwithin.follow _
      | advance time =>
          have htimes : times (.advance time :: calls) = time :: times calls := rfl
          rw [htimes] at hsorted hnear
          have htime := hnear time List.mem_cons_self
          have hwindow : windowMs = 24 := rfl
          have hpassed : min (UInt16.ofNat time - p.latest).toNat windowMs = time - latest := by
            rw [hlatest, clock_sub htime.1 (by omega)]
            omega
          refine @ih _ time (time - latest + n) ?_ hgoods (advance_latest p _)
            (fun d hd => hreset d (List.mem_cons_of_mem _ hd)) hsorted.of_cons (fun later hlater => ?_) (by omega)
          · change Within axis₀ ((p.advance (UInt16.ofNat time)).2.axis side) (time - latest + n + 1)
            rw [advance_axis, aged_axis, hpassed]
            exact (hwithin.age (time - latest)).step ((hgood side).age _ (by omega))
          · have hlate := hnear later (List.mem_cons_of_mem _ hlater)
            have horder := List.rel_of_pairwise_cons hsorted hlater
            omega

/-- Calls within one window, from any state. -/
theorem window_run {side : Side} {p : Pacer} {t : Nat} {calls : List Call}
    (hgood : ∀ side, Good (p.axis side)) (hreset : ∀ c ∈ calls, c.isReset = false)
    (hsorted : (times calls).Pairwise (· ≤ ·)) (hnear : ∀ time ∈ times calls, t ≤ time ∧ time < t + windowMs) :
    ∃ moved : Int, moved.natAbs ≤ maxStep ∧
      ((p.run calls).axis side).shown = toInt16 ((p.axis side).shown + moved) := by
  -- until the first `advance` nothing is shown
  have hrun : ∀ axis₀, Good axis₀ → axis₀.shown = (p.axis side).shown →
      ∃ moved : Int, moved.natAbs ≤ maxStep ∧ ((p.run calls).axis side).shown = toInt16 (axis₀.shown + moved) := by
    intro axis₀ hgood₀ hsame
    induction calls generalizing p with
    | nil =>
        refine ⟨0, Nat.zero_le _, ?_⟩
        rw [Int.add_zero, hgood₀.shown, hsame]
        rfl
    | cons c calls ih =>
        have hgoods := good_call hgood c
        have hresets : ∀ d ∈ calls, d.isReset = false := fun d hd => hreset d (List.mem_cons_of_mem _ hd)
        cases c with
        | reset x y time => exact nomatch hreset _ List.mem_cons_self
        | setTarget x y =>
            refine ih hgoods hresets hsorted hnear ?_
            change axis₀.shown = ((p.setTarget x y).axis side).shown
            rw [setTarget_axis]
            exact hsame
        | advance time =>
            have htimes : times (.advance time :: calls) = time :: times calls := rfl
            rw [htimes] at hsorted hnear
            have htime := hnear time List.mem_cons_self
            have hfirst : Within axis₀ ((p.call (.advance time)).axis side) 1 := by
              change Within axis₀ ((p.advance (UInt16.ofNat time)).2.axis side) (0 + 1)
              rw [advance_axis, aged_axis]
              refine Within.step ⟨0, Nat.zero_le _, ?_⟩ ((hgood side).age _ (Nat.min_le_right _ _))
              rw [Int.add_zero, hgood₀.shown, hsame]
              rfl
            obtain ⟨m, hm, moved, hmoved, hshown⟩ := within_run (n := 0) hfirst hgoods
              (advance_latest p _) hresets hsorted.of_cons
              (fun later hlater => ⟨List.rel_of_pairwise_cons hsorted hlater, by
                have hlate := hnear later (List.mem_cons_of_mem _ hlater)
                omega⟩) (by decide)
            refine ⟨moved, Nat.le_trans hmoved ?_, hshown⟩
            exact Nat.le_trans (spent_mono _ hm) (good_run hgoods calls side).spent
  exact hrun _ (hgood side) rfl

/-- What a driver makes of two looks at a POT line. -/
def driverMove (before now : Nat) : Int := Int.bmod (now - before) (2 ^ 7)

theorem driverMove_eq {axis axis' : Axis} {moved : Int} (hmoved : moved.natAbs ≤ maxStep)
    (hshown : axis'.shown = toInt16 (axis.shown + moved)) : driverMove axis.pot axis'.pot = moved := by
  have hstep : maxStep = 63 := rfl
  rw [driverMove, Axis.pot, Axis.pot, hshown, toInt16]
  have hlow : ((axis.shown + moved).bmod (2 ^ 16) % 2 ^ 7 : Int) = (axis.shown + moved) % 2 ^ 7 := by
    rw [Int.bmod_def]
    split <;> omega
  rw [hlow, Int.toNat_of_nonneg (by omega), Int.toNat_of_nonneg (by omega), Int.bmod_def]
  split <;> omega

/-! ## The target -/

/-- A position that is given without a cap. -/
def Uncapped (axis : Axis) (position : Int) : Prop := (axis.pending position).natAbs ≤ maxBehind

instance (axis : Axis) (position : Int) : Decidable (Uncapped axis position) :=
  inferInstanceAs (Decidable (_ ≤ _))

/-- Since the start or the last reset, no position was capped for the axis. -/
def Clean (side : Side) : Pacer → List Call → Bool → Prop
  | _, [], clean => clean = true
  | p, .reset x y time :: calls, _ => Clean side (p.call (.reset x y time)) calls true
  | p, .setTarget x y :: calls, clean =>
      Clean side (p.call (.setTarget x y)) calls (clean && decide (Uncapped (p.axis side) (target x y side)))
  | p, .advance time :: calls, clean => Clean side (p.call (.advance time)) calls clean

/-- What is shown and what is pending make the position. -/
def OnTarget (axis : Axis) : Prop :=
  toInt16 axis.position = axis.position ∧ axis.position = toInt16 (axis.shown + axis.behind)

theorem OnTarget.follow {axis : Axis} (h : OnTarget axis) {position : Int} (hposition : toInt16 position = position)
    (hfit : Uncapped axis position) : OnTarget (axis.follow position) := by
  have hcap : maxBehind = 252 := rfl
  rw [Uncapped] at hfit
  have hbehind : (axis.follow position).behind = axis.pending position := by
    rw [follow_behind]
    omega
  refine ⟨hposition, ?_⟩
  rw [hbehind]
  change position = toInt16 (axis.shown + (axis.behind + toInt16 (position - axis.position)))
  rw [← Int.add_assoc, Int.add_comm, toInt16_add_toInt16]
  have hsum : position - axis.position + (axis.shown + axis.behind) = axis.shown + axis.behind + (position - axis.position) :=
    Int.add_comm ..
  rw [hsum, ← toInt16_add_toInt16, ← h.2, Int.add_comm axis.position, Int.sub_add_cancel, hposition]

theorem OnTarget.step {axis : Axis} (h : OnTarget axis) (hgood : Good axis) : OnTarget axis.step.2 := by
  obtain ⟨change, -, hshown, hbehind, hposition, -, -⟩ := step_spec hgood
  refine ⟨hposition.symm ▸ h.1, ?_⟩
  rw [hposition, hshown, hbehind, toInt16_add_toInt16]
  have hsum : axis.shown + change + (axis.behind - change) = axis.shown + axis.behind := by omega
  rw [hsum]
  exact h.2

theorem target_toInt16 (x y : Int) (side : Side) : toInt16 (target x y side) = target x y side := by
  cases side <;> exact Int.bmod_bmod

theorem onTarget_run {side : Side} {p : Pacer} (hgood : ∀ side, Good (p.axis side)) {calls : List Call}
    {clean : Bool} (h : clean = true → OnTarget (p.axis side)) (hclean : Clean side p calls clean) :
    OnTarget ((p.run calls).axis side) := by
  induction calls generalizing p clean with
  | nil => exact h hclean
  | cons c calls ih =>
      have hgoods := good_call hgood c
      cases c with
      | reset x y time =>
          refine ih hgoods (fun _ => ?_) hclean
          obtain ⟨position, hposition⟩ := reset_axis x y (UInt16.ofNat time) side
          change OnTarget ((Pacer.reset x y (UInt16.ofNat time)).axis side)
          rw [hposition]
          refine ⟨Int.bmod_bmod, ?_⟩
          change toInt16 position = toInt16 (toInt16 position + 0)
          rw [Int.add_zero]
          exact Int.bmod_bmod.symm
      | setTarget x y =>
          refine ih hgoods (fun hboth => ?_) hclean
          rw [Bool.and_eq_true, decide_eq_true_eq] at hboth
          change OnTarget ((p.setTarget x y).axis side)
          rw [setTarget_axis]
          exact (h hboth.1).follow (target_toInt16 x y side) hboth.2
      | advance time =>
          refine ih hgoods (fun hc => ?_) hclean
          change OnTarget ((p.advance (UInt16.ofNat time)).2.axis side)
          rw [advance_axis, aged_axis]
          have hold : OnTarget ((p.axis side).age (min (UInt16.ofNat time - p.latest).toNat windowMs)) := h hc
          exact hold.step ((hgood side).age _ (Nat.min_le_right _ _))

/-! ## Any calls -/

/-- What holds of an axis in any order of calls. -/
structure Paced (calls : List Call) (side : Side) : Prop where
  /-- Without a reset, what is shown at two moments within a window differs by `maxStep` at
      most, and a driver reads it so. -/
  window : ∀ before middle rest, calls = before ++ (middle ++ rest) → (∀ c ∈ middle, c.isReset = false) →
    ∀ t, (∀ time ∈ times middle, t ≤ time ∧ time < t + windowMs) →
    ∃ moved : Int, moved.natAbs ≤ maxStep ∧
      ((after (before ++ middle)).axis side).shown = toInt16 (((after before).axis side).shown + moved) ∧
      driverMove ((after before).axis side).pot ((after (before ++ middle)).axis side).pot = moved
  /-- What is shown moves by part of what is pending, in its direction. -/
  moves : ∀ time, ∃ change : Int,
    (0 ≤ change ∧ change ≤ ((after calls).axis side).behind ∨
      ((after calls).axis side).behind ≤ change ∧ change ≤ 0) ∧
    ((after (calls ++ [.advance time])).axis side).shown = toInt16 (((after calls).axis side).shown + change) ∧
    ((after (calls ++ [.advance time])).axis side).behind = ((after calls).axis side).behind - change
  /-- Nothing else but a reset moves it. -/
  still : ∀ x y, ((after (calls ++ [.setTarget x y])).axis side).shown = ((after calls).axis side).shown
  pending : ((after calls).axis side).behind.natAbs ≤ maxBehind
  /-- With no cap since the last reset, what is pending is the way to the target. -/
  onTarget : Clean side Pacer.initialState calls true →
    toInt16 (((after calls).axis side).position - ((after calls).axis side).shown) =
      ((after calls).axis side).behind
  arrived : Clean side Pacer.initialState calls true → ((after calls).axis side).behind = 0 →
    ((after calls).axis side).shown = ((after calls).axis side).position

theorem after_append (calls rest : List Call) : after (calls ++ rest) = (after calls).run rest :=
  List.foldl_append

theorem onTarget_after {side : Side} {calls : List Call} (h : Clean side Pacer.initialState calls true) :
    OnTarget ((after calls).axis side) := by
  refine onTarget_run (fun side => ?_) (fun _ => ?_) h
  · cases side <;> exact Good.reset 0 (by decide)
  · cases side <;> exact ⟨by decide, by decide⟩

theorem calls_paced (calls : List Call) (hsorted : (times calls).Pairwise (· ≤ ·)) (side : Side) :
    Paced calls side where
  window before middle rest hcalls hreset t hnear := by
    have hmiddle : (times middle).Pairwise (· ≤ ·) := by
      rw [hcalls, times, List.filterMap_append, List.filterMap_append] at hsorted
      exact (List.pairwise_append.mp (List.pairwise_append.mp hsorted).2.1).1
    obtain ⟨moved, hmoved, hshown⟩ := @window_run side _ t _ (good_after before) hreset hmiddle hnear
    rw [after_append]
    exact ⟨moved, hmoved, hshown, driverMove_eq hmoved hshown⟩
  moves time := by
    have hgood := (good_after calls side).age (min (UInt16.ofNat time - (after calls).latest).toNat windowMs)
      (Nat.min_le_right _ _)
    obtain ⟨change, hchange, hshown, hbehind, -, -, -⟩ := step_spec hgood
    rw [after_append, run_advance]
    exact ⟨change, hchange, hshown, hbehind⟩
  still x y := by
    rw [after_append]
    have hfollow : (((after calls).setTarget x y).axis side).shown = ((after calls).axis side).shown := by
      rw [setTarget_axis]
      rfl
    exact hfollow
  pending := by
    have hbound := (good_after calls side).behind
    omega
  onTarget hclean := by
    have hcap : maxBehind = 252 := rfl
    have hbound := (good_after calls side).behind
    have hway : ((after calls).axis side).shown + ((after calls).axis side).behind -
        ((after calls).axis side).shown = ((after calls).axis side).behind := by omega
    rw [(onTarget_after hclean).2, toInt16, toInt16, Int.sub_eq_add_neg, Int.bmod_add_bmod, ← Int.sub_eq_add_neg,
      hway]
    exact toInt16_of_range (by omega) (by omega)
  arrived hclean hnone := by
    rw [(onTarget_after hclean).2, hnone, Int.add_zero, (good_after calls side).shown]

theorem calls_paced_there_and_back :
    (times [.reset 10 10 0, .setTarget 200 10, .advance 30, .setTarget 20 10, .advance 54]).Pairwise (· ≤ ·) ∧
      Paced [.reset 10 10 0, .setTarget 200 10, .advance 30, .setTarget 20 10, .advance 54] .x :=
  ⟨by decide, calls_paced _ (by decide) .x⟩

/-- How far the position that was given last is from what is shown. -/
def distance (axis : Axis) : Nat := (toInt16 (axis.position - axis.shown)).natAbs

/-- A reset jumps; and behind a cap, what is shown can move away from the position. -/
theorem reset_jumps_and_cap_turns :
    (¬ ∀ before middle : List Call, (times (before ++ middle)).Pairwise (· ≤ ·) →
      ∀ side t, (∀ time ∈ times middle, t ≤ time ∧ time < t + windowMs) →
      ∃ moved : Int, moved.natAbs ≤ maxStep ∧
        ((after (before ++ middle)).axis side).shown = toInt16 (((after before).axis side).shown + moved)) ∧
    ¬ ∀ (calls : List Call) (time : Nat), (times (calls ++ [.advance time])).Pairwise (· ≤ ·) →
      ∀ side, distance ((after (calls ++ [.advance time])).axis side) ≤ distance ((after calls).axis side) := by
  constructor
  · intro h
    obtain ⟨moved, hmoved, hshown⟩ := h [] [.reset 1000 0 5] (by decide) .x 5 (by decide)
    have hstep : maxStep = 63 := rfl
    have hjump : (1000 : Int) = toInt16 (0 + moved) := hshown
    rw [toInt16_of_range (by omega) (by omega)] at hjump
    omega
  · intro h
    have haway := h [.setTarget 1000 0, .setTarget 500 0] 100 (by decide) .x
    revert haway
    decide

end MousePot
