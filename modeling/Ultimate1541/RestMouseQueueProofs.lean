import Ultimate1541.InputApiProofs

/-! # The queue of the REST mouse

    `rest_mouse_queue.h` keeps the reports that the REST mouse has still to send in a ring of
    1024 places; a report that finds no place is dropped without a word.  A batch of events is
    checked before (`batchFits`), by a walk of its own over the events.

    What a mouse event adds is said once (`Adds`): the number of its reports, their sums and
    the buttons in the end.  Reports that are added one after the other add up
    (`Adds.trans`), and a batch that fits finds room for each event (`Fits`). -/

namespace RestMouse

open RestJson InputApi

/-- `RestMouseReport`. -/
structure Report where
  buttons : UInt8
  dx : Int
  dy : Int
  wheel : Int
  pan : Int
  waitTicks : Nat

/-- A number in a field of 8 bits. -/
def toInt8 (n : Int) : Int := n.bmod (2 ^ 8)

/-- `CAPACITY`. -/
def capacity : Nat := 1024

/-- `RestMouseQueue`; of the reports, the first `capacity` are the places of the ring. -/
structure Queue where
  reports : Nat → Report
  head : Nat
  count : Nat
  tailButtons : UInt8
  head_lt : head < capacity
  count_le : count ≤ capacity

namespace Queue

def push (q : Queue) (buttons : UInt8) (dx dy wheel pan : Int) (waitTicks : Nat) : Queue :=
  if h : q.count ≥ capacity then q
  else
    { q with
      reports := fun i =>
        if i = (q.head + q.count) % capacity then
          ⟨buttons, toInt8 dx, toInt8 dy, toInt8 wheel, toInt8 pan, waitTicks % 2 ^ 16⟩
        else q.reports i
      count := q.count + 1
      tailButtons := buttons
      count_le := Nat.lt_of_not_ge h }

def clear (q : Queue) (buttons : UInt8) : Queue :=
  ⟨q.reports, 0, 0, buttons, by decide, by decide⟩

def room (q : Queue) : Nat := capacity - q.count

end Queue

def ticksFor (milliseconds millisecondsPerTick : Nat) : Nat :=
  let ticks := (milliseconds + millisecondsPerTick - 1) / millisecondsPerTick
  if ticks > 0 then ticks else 1

/-- `reportsFor`. -/
def reportsFor (event : InputParsedEvent) : Nat :=
  match event.kind with
  | .mouseButtons => if event.transition = .tap then 2 else 1
  | .mouseMove => 1
  | .mouseWheel => event.wheelVertical.natAbs + event.wheelHorizontal.natAbs
  | .mousePath => event.pathSteps
  | _ => 0

/-- The loop of `batchFits`: whether the events fit, and what does not. -/
def batchFitsLoop : List InputParsedEvent → Nat → Nat → Bool × Nat × Nat
  | [], needed, roomLeft => (needed ≤ roomLeft, needed, roomLeft)
  | event :: events, needed, roomLeft =>
      if event.kind = .releaseAll then
        if needed > roomLeft then (false, needed, roomLeft)
        else batchFitsLoop events (0 + reportsFor event) capacity
      else batchFitsLoop events (needed + reportsFor event) roomLeft

/-- `batchFits`. -/
def batchFits (events : List InputParsedEvent) (room : Nat) : Bool × Nat × Nat :=
  batchFitsLoop events 0 room

namespace Queue

/-- The loops for a wheel, `n` detents. -/
def pushDetents : Nat → Int → Int → Queue → Queue
  | 0, _, _, q => q
  | n + 1, wheel, pan, q => pushDetents n wheel pan (q.push q.tailButtons 0 0 wheel pan 0)

/-- The loop for a path, from step `i` on. -/
def pushSteps (interval : Nat) : Nat → List Json → Queue → Queue
  | _, [], q => q
  | i, step :: steps, q =>
      pushSteps interval (i + 1) steps (q.push q.tailButtons (stepValues step).1 (stepValues step).2 0 0
        (if i = 0 then 0 else interval))

def append (tapHoldTicks millisecondsPerTick : Nat) (q : Queue) (event : InputParsedEvent) : Queue :=
  match event.kind with
  | .mouseButtons =>
      if event.transition = .release then
        q.push (q.tailButtons &&& ~~~ event.mouseButtons) 0 0 0 0 0
      else
        let q := q.push (q.tailButtons ||| event.mouseButtons) 0 0 0 0 0
        if event.transition = .tap then
          q.push (q.tailButtons &&& ~~~ event.mouseButtons) 0 0 0 0 tapHoldTicks
        else q
  | .mouseMove => q.push q.tailButtons event.mouseX event.mouseY 0 0 0
  | .mouseWheel =>
      let q := pushDetents event.wheelVertical.natAbs (if event.wheelVertical > 0 then 1 else -1) 0 q
      pushDetents event.wheelHorizontal.natAbs 0 (if event.wheelHorizontal > 0 then 1 else -1) q
  | .mousePath =>
      pushSteps (ticksFor event.pathIntervalMs millisecondsPerTick) 0 (event.path.take event.pathSteps) q
  | _ => q

/-- `takeDue`: the next report, when it is due. -/
def takeDue (q : Queue) (ticksSinceLast minTicks : Int) : Option Report × Queue :=
  if q.count = 0 then (none, q)
  else
    let report := q.reports q.head
    if ticksSinceLast < report.waitTicks ∨ ticksSinceLast < minTicks then (none, q)
    else
      (some report, { q with
        head := (q.head + 1) % capacity
        count := q.count - 1
        head_lt := Nat.mod_lt _ (by decide)
        count_le := Nat.le_trans (Nat.sub_le _ _) q.count_le })

end Queue

/-- An event of `apply_batch`, as far as the queue goes. -/
def applyEvent (tapHoldTicks millisecondsPerTick : Nat) (q : Queue) (event : InputParsedEvent) : Queue :=
  match event.kind with
  | .keyboard => q
  | .joystick => q
  | .releaseAll => q.clear 0
  | _ => q.append tapHoldTicks millisecondsPerTick event

/-- `apply_batch`. -/
def applyBatch (tapHoldTicks millisecondsPerTick : Nat) (q : Queue) (events : List InputParsedEvent) : Queue :=
  events.foldl (applyEvent tapHoldTicks millisecondsPerTick) q

/-- The queue after a request. -/
def postInput (tapHoldTicks millisecondsPerTick : Nat) (root : Option Json) (q : Queue) : Queue :=
  match validateBatch root with
  | .error _ => q
  | .ok events =>
      if (batchFits events q.room).1 then applyBatch tapHoldTicks millisecondsPerTick q events else q

/-! ## The reports in the ring -/

namespace Queue

/-- The reports that are pending, in their order. -/
def queued (q : Queue) : List Report :=
  (List.range q.count).map fun i => q.reports ((q.head + i) % capacity)

theorem length_queued (q : Queue) : q.queued.length = q.count := by
  rw [queued, List.length_map, List.length_range]

/-- Two places of the ring that are less than a round apart. -/
theorem place_ne {head i n : Nat} (hi : i < n) (hn : n < capacity) :
    (head + i) % capacity ≠ (head + n) % capacity := by
  intro heq
  have hdvd : capacity ∣ (head + n) - (head + i) :=
    Nat.dvd_of_mod_eq_zero (Nat.sub_mod_eq_zero_of_mod_eq heq.symm)
  have hle := Nat.le_of_dvd (by omega) hdvd
  omega

/-- A report that finds a place is the last one. -/
theorem push_queued {q : Queue} (h : q.count < capacity) (buttons : UInt8) (dx dy wheel pan : Int)
    (waitTicks : Nat) :
    (q.push buttons dx dy wheel pan waitTicks).queued = q.queued ++
        [⟨buttons, toInt8 dx, toInt8 dy, toInt8 wheel, toInt8 pan, waitTicks % 2 ^ 16⟩] ∧
      (q.push buttons dx dy wheel pan waitTicks).tailButtons = buttons := by
  rw [push, dif_neg (Nat.not_le_of_gt h)]
  refine ⟨?_, rfl⟩
  rw [queued, List.range_succ, List.map_append, List.map_singleton, queued]
  dsimp only
  rw [if_pos rfl]
  congr 1
  refine List.map_congr_left fun i hi => ?_
  rw [if_neg (place_ne (List.mem_range.mp hi) h)]

/-- The report that is handed out is the first one, when there is one and it is due. -/
theorem takeDue_spec (q : Queue) (ticksSinceLast minTicks : Int) :
    (match q.queued with
      | [] => q.takeDue ticksSinceLast minTicks = (none, q)
      | r :: rest =>
          if ticksSinceLast < r.waitTicks ∨ ticksSinceLast < minTicks then
            q.takeDue ticksSinceLast minTicks = (none, q)
          else
            (q.takeDue ticksSinceLast minTicks).1 = some r ∧
              (q.takeDue ticksSinceLast minTicks).2.queued = rest) := by
  obtain ⟨reports, head, count, tailButtons, hhead, hcount⟩ := q
  cases count with
  | zero => exact if_pos rfl
  | succ n =>
      have hcons : queued ⟨reports, head, n + 1, tailButtons, hhead, hcount⟩
          = reports head :: (List.range n).map fun i => reports ((head + (i + 1)) % capacity) := by
        rw [queued, List.range_succ_eq_map, List.map_cons, List.map_map]
        exact congrArg₂ List.cons (congrArg reports (Nat.mod_eq_of_lt hhead)) rfl
      rw [hcons, takeDue, if_neg (Nat.succ_ne_zero n)]
      dsimp only
      split
      · rfl
      · refine ⟨rfl, List.map_congr_left fun i _ => congrArg reports ?_⟩
        show ((head + 1) % capacity + i) % capacity = (head + (i + 1)) % capacity
        rw [Nat.mod_add_mod, Nat.add_right_comm, Nat.add_assoc]

/-- Calls of `takeDue`, each at its time: the reports that are handed out. -/
def takeAll : List (Int × Int) → Queue → List Report × Queue
  | [], q => ([], q)
  | (ticksSinceLast, minTicks) :: calls, q =>
      let r := q.takeDue ticksSinceLast minTicks
      let rest := takeAll calls r.2
      (r.1.toList ++ rest.1, rest.2)

/-- The reports are handed out in their order. -/
theorem takeAll_queued (calls : List (Int × Int)) (q : Queue) :
    (takeAll calls q).1 ++ (takeAll calls q).2.queued = q.queued := by
  induction calls generalizing q with
  | nil => rfl
  | cons call calls ih =>
      obtain ⟨ticks, least⟩ := call
      have hspec := q.takeDue_spec ticks least
      have hrest := ih (q.takeDue ticks least).2
      rw [takeAll]
      dsimp only
      rw [List.append_assoc, hrest]
      split at hspec
      · rw [hspec]
        rfl
      next r rest hcons =>
        split at hspec
        · rw [hspec]
          rfl
        · rw [hspec.1, hspec.2, hcons]
          rfl

end Queue

/-! ## What an event adds -/

instance : Add Motion := ⟨fun m n => ⟨m.dx + n.dx, m.dy + n.dy, m.wheel + n.wheel, m.pan + n.pan⟩⟩

/-- The motion of some reports. -/
def motionOf (rs : List Report) : Motion :=
  ⟨(rs.map Report.dx).sum, (rs.map Report.dy).sum, (rs.map Report.wheel).sum, (rs.map Report.pan).sum⟩

theorem motionOf_append (rs ss : List Report) : motionOf (rs ++ ss) = motionOf rs + motionOf ss := by
  rw [motionOf, List.map_append, List.map_append, List.map_append, List.map_append, List.sum_append,
    List.sum_append, List.sum_append, List.sum_append]
  rfl

/-- From one queue to the other `n` reports are added, with a motion and the buttons in the
    end. -/
structure Adds (q : Queue) (n : Nat) (m : Motion) (buttons : UInt8) (q' : Queue) : Prop where
  reports : ∃ rs, q'.queued = q.queued ++ rs ∧ rs.length = n ∧ motionOf rs = m ∧
    ∀ r, rs.getLast? = some r → r.buttons = buttons
  tail : q'.tailButtons = buttons
  none : n = 0 → buttons = q.tailButtons

theorem Adds.count {q q' : Queue} {n : Nat} {m : Motion} {buttons : UInt8}
    (h : Adds q n m buttons q') : q'.count = q.count + n := by
  obtain ⟨rs, hqueued, hlen, -⟩ := h.reports
  rw [← Queue.length_queued, hqueued, List.length_append, Queue.length_queued, hlen]

theorem Adds.refl (q : Queue) : Adds q 0 ⟨0, 0, 0, 0⟩ q.tailButtons q :=
  ⟨⟨[], (List.append_nil _).symm, rfl, rfl, nofun⟩, rfl, fun _ => rfl⟩

theorem Adds.trans {q₁ q₂ q₃ : Queue} {n n' : Nat} {m m' : Motion} {b b' : UInt8}
    (h : Adds q₁ n m b q₂) (h' : Adds q₂ n' m' b' q₃) : Adds q₁ (n + n') (m + m') b' q₃ := by
  obtain ⟨rs, hqueued, hlen, hmotion, hlast⟩ := h.reports
  obtain ⟨ss, hqueued', hlen', hmotion', hlast'⟩ := h'.reports
  refine ⟨⟨rs ++ ss, ?_, ?_, ?_, fun r hr => ?_⟩, h'.tail, fun hnone => ?_⟩
  · rw [hqueued', hqueued, List.append_assoc]
  · rw [List.length_append, hlen, hlen']
  · rw [motionOf_append, hmotion, hmotion']
  · rw [List.getLast?_append] at hr
    cases hss : ss.getLast? with
    | some s =>
        rw [hss] at hr
        cases hr
        exact hlast' _ hss
    | none =>
        -- Nothing came last, so the buttons are those of before.
        rw [hss, Option.none_or] at hr
        have hzero : n' = 0 := by rw [← hlen', List.getLast?_eq_none_iff.mp hss]; rfl
        rw [h'.none hzero, h.tail]
        exact hlast r hr
  · have hz : n = 0 := Nat.eq_zero_of_add_eq_zero_right hnone
    have hz' : n' = 0 := Nat.eq_zero_of_add_eq_zero_left hnone
    rw [h'.none hz', h.tail, h.none hz]

theorem toInt8_of_le {n : Int} (hlow : -128 ≤ n) (hhigh : n ≤ 127) : toInt8 n = n :=
  Int.bmod_eq_of_le (by omega) (by omega)

/-- A report is added as it is. -/
theorem Adds.push {q : Queue} (h : q.count < capacity) (buttons : UInt8) (dx dy wheel pan : Int)
    (hdx : -128 ≤ dx ∧ dx ≤ 127) (hdy : -128 ≤ dy ∧ dy ≤ 127) (hwheel : -128 ≤ wheel ∧ wheel ≤ 127)
    (hpan : -128 ≤ pan ∧ pan ≤ 127) (waitTicks : Nat) :
    Adds q 1 ⟨dx, dy, wheel, pan⟩ buttons (q.push buttons dx dy wheel pan waitTicks) := by
  obtain ⟨hqueued, htail⟩ := Queue.push_queued h buttons dx dy wheel pan waitTicks
  rw [toInt8_of_le hdx.1 hdx.2, toInt8_of_le hdy.1 hdy.2, toInt8_of_le hwheel.1 hwheel.2,
    toInt8_of_le hpan.1 hpan.2] at hqueued
  refine ⟨⟨_, hqueued, rfl, ?_, fun r hr => ?_⟩, htail, nofun⟩
  · simp only [motionOf, List.map_cons, List.map_nil, List.sum_singleton]
  · cases hr
    rfl

/-- The detents of a wheel. -/
theorem Adds.detents {q : Queue} {wheel pan : Int} (hwheel : -128 ≤ wheel ∧ wheel ≤ 127)
    (hpan : -128 ≤ pan ∧ pan ≤ 127) {n : Nat} (h : q.count + n ≤ capacity) :
    Adds q n ⟨0, 0, n * wheel, n * pan⟩ q.tailButtons (q.pushDetents n wheel pan) := by
  induction n generalizing q with
  | zero =>
      have hrefl := Adds.refl q
      simp only [Nat.cast_zero, zero_mul]
      exact hrefl
  | succ n ih =>
      have hone := Adds.push (q := q) (by omega) q.tailButtons 0 0 wheel pan ⟨by decide, by decide⟩
        ⟨by decide, by decide⟩ hwheel hpan 0
      have hcount := hone.count
      have hrest := hone.trans (ih (by omega))
      rw [hone.tail] at hrest
      have hsum : (⟨0, 0, wheel, pan⟩ : Motion) + ⟨0, 0, n * wheel, n * pan⟩
          = ⟨0, 0, (n + 1 : Nat) * wheel, (n + 1 : Nat) * pan⟩ := by
        refine Motion.ext rfl rfl ?_ ?_
        · show wheel + n * wheel = (n + 1 : Nat) * wheel
          push_cast
          ring
        · show pan + n * pan = (n + 1 : Nat) * pan
          push_cast
          ring
      rw [hsum, Nat.add_comm] at hrest
      exact hrest

/-- The steps of a path. -/
theorem Adds.steps {q : Queue} (interval i : Nat) {steps : List Json}
    (hin : ∀ s ∈ steps, -127 ≤ (stepValues s).1 ∧ (stepValues s).1 ≤ 127 ∧
      -127 ≤ (stepValues s).2 ∧ (stepValues s).2 ≤ 127) (h : q.count + steps.length ≤ capacity) :
    Adds q steps.length
      ⟨(steps.map fun s => (stepValues s).1).sum, (steps.map fun s => (stepValues s).2).sum, 0, 0⟩
      q.tailButtons (q.pushSteps interval i steps) := by
  induction steps generalizing q i with
  | nil => exact Adds.refl q
  | cons step steps ih =>
      obtain ⟨hstep, hsteps⟩ := List.forall_mem_cons.mp hin
      rw [List.length_cons] at h
      have hone := Adds.push (q := q) (by omega) q.tailButtons (stepValues step).1
        (stepValues step).2 0 0 ⟨by omega, by omega⟩
        ⟨by omega, by omega⟩ ⟨by decide, by decide⟩ ⟨by decide, by decide⟩
        (if i = 0 then 0 else interval)
      have hcount := hone.count
      have hrest := hone.trans (ih (i + 1) hsteps (by omega))
      rw [hone.tail, Nat.add_comm] at hrest
      rw [List.map_cons, List.map_cons, List.sum_cons, List.sum_cons]
      exact hrest

/-- Buttons that go down and up again are up. -/
theorem tap_buttons (held buttons : UInt8) :
    (held ||| buttons) &&& ~~~ buttons = held &&& ~~~ buttons := by
  refine UInt8.toBitVec_inj.mp (BitVec.eq_of_getLsbD_eq fun i hi => ?_)
  simp only [UInt8.toBitVec_and, UInt8.toBitVec_or, UInt8.toBitVec_not, BitVec.getLsbD_and,
    BitVec.getLsbD_or, BitVec.getLsbD_not, hi, decide_true, Bool.true_and]
  cases held.toBitVec.getLsbD i <;> cases buttons.toBitVec.getLsbD i <;> rfl

/-- The sign of a number, as often as its amount says. -/
theorem natAbs_mul_sign (n : Int) : (n.natAbs : Int) * (if n > 0 then 1 else -1) = n := by
  split <;> omega

/-- A mouse event adds what its object asks for. -/
theorem append_adds {obj : Members} {e : InputParsedEvent} (hkind : e.kind.isMouse = true)
    (hreads : Reads obj e) {q : Queue} (hroom : q.count + reportsFor e ≤ capacity)
    (tapHoldTicks millisecondsPerTick : Nat) :
    0 < reportsFor e ∧ Adds q (reportsFor e) (wantedMotion obj) (wantedButtons obj q.tailButtons)
      (q.append tapHoldTicks millisecondsPerTick e) := by
  have hzero : (-128 : Int) ≤ 0 ∧ (0 : Int) ≤ 127 := by decide
  rw [Reads] at hreads
  rw [reportsFor] at hroom ⊢
  rw [Queue.append]
  cases hk : e.kind with
  | keyboard => rw [hk] at hkind; cases hkind
  | joystick => rw [hk] at hkind; cases hkind
  | releaseAll => rw [hk] at hkind; cases hkind
  | mouseButtons =>
      rw [hk] at hreads hroom
      dsimp only at hreads hroom ⊢
      obtain ⟨hmotion, hbuttons⟩ := hreads
      rw [hmotion, hbuttons]
      cases ht : e.transition with
      | press =>
          rw [ht] at hroom
          exact ⟨Nat.zero_lt_one, Adds.push (q := q) hroom _ 0 0 0 0 hzero hzero hzero hzero 0⟩
      | release =>
          rw [ht] at hroom
          exact ⟨Nat.zero_lt_one, Adds.push (q := q) hroom _ 0 0 0 0 hzero hzero hzero hzero 0⟩
      | tap =>
          rw [ht] at hroom
          have hroom2 : q.count + 2 ≤ capacity := hroom
          have hdown := Adds.push (q := q) (by omega) (q.tailButtons ||| e.mouseButtons) 0 0 0 0
            hzero hzero hzero hzero 0
          have hcount := hdown.count
          have hup := Adds.push (q := q.push (q.tailButtons ||| e.mouseButtons) 0 0 0 0 0) (by omega)
            ((q.push (q.tailButtons ||| e.mouseButtons) 0 0 0 0 0).tailButtons &&& ~~~ e.mouseButtons)
            0 0 0 0 hzero hzero hzero hzero tapHoldTicks
          have hboth := hdown.trans hup
          have hend : (q.push (q.tailButtons ||| e.mouseButtons) 0 0 0 0 0).tailButtons &&&
              ~~~ e.mouseButtons = q.tailButtons &&& ~~~ e.mouseButtons := by
            rw [hdown.tail, tap_buttons]
          refine ⟨Nat.zero_lt_two, ?_⟩
          rw [hend] at hboth
          rw [if_pos rfl, if_neg (by decide), if_neg (by decide), if_pos rfl, hend]
          exact hboth
  | mouseMove =>
      rw [hk] at hreads hroom
      dsimp only at hreads hroom ⊢
      obtain ⟨hmotion, hin, hbuttons⟩ := hreads
      rw [hmotion, hbuttons]
      exact ⟨Nat.zero_lt_one, Adds.push (q := q) hroom _ _ _ 0 0 ⟨by omega, by omega⟩ ⟨by omega, by omega⟩
        hzero hzero 0⟩
  | mouseWheel =>
      rw [hk] at hreads hroom
      dsimp only at hreads hroom ⊢
      obtain ⟨hmotion, hturn, hbuttons⟩ := hreads
      rw [hmotion, hbuttons]
      have hsign : ∀ n : Int, (-128 : Int) ≤ (if n > 0 then 1 else -1) ∧
          (if n > 0 then (1 : Int) else -1) ≤ 127 := fun n => by split <;> decide
      have hfirst := Adds.detents (q := q) (hsign e.wheelVertical) hzero
        (n := e.wheelVertical.natAbs) (by omega)
      have hcount := hfirst.count
      have hboth := hfirst.trans (Adds.detents (q := q.pushDetents e.wheelVertical.natAbs
        (if e.wheelVertical > 0 then 1 else -1) 0) hzero (hsign e.wheelHorizontal)
        (n := e.wheelHorizontal.natAbs) (by omega))
      rw [hfirst.tail, natAbs_mul_sign, natAbs_mul_sign] at hboth
      have hsum : (⟨0, 0, e.wheelVertical, (e.wheelVertical.natAbs : Int) * 0⟩ : Motion) +
          ⟨0, 0, (e.wheelHorizontal.natAbs : Int) * 0, e.wheelHorizontal⟩
          = ⟨0, 0, e.wheelVertical, e.wheelHorizontal⟩ := by
        refine Motion.ext rfl rfl ?_ ?_
        · show e.wheelVertical + (e.wheelHorizontal.natAbs : Int) * 0 = e.wheelVertical
          rw [mul_zero, add_zero]
        · show (e.wheelVertical.natAbs : Int) * 0 + e.wheelHorizontal = e.wheelHorizontal
          rw [mul_zero, zero_add]
      rw [hsum] at hboth
      exact ⟨by omega, hboth⟩
  | mousePath =>
      rw [hk] at hreads hroom
      dsimp only at hreads hroom ⊢
      obtain ⟨hmotion, ⟨hne, hsteps, hin⟩, hbuttons⟩ := hreads
      have hpos := List.length_pos_iff.mpr hne
      rw [hmotion, hbuttons, hsteps, List.take_length]
      rw [hsteps] at hroom
      exact ⟨hpos, Adds.steps _ 0 hin hroom⟩

/-! ## Batches -/

/-- What an event of a batch does to the queue. -/
def Applied (tapHoldTicks millisecondsPerTick : Nat) (q : Queue) (obj : Members)
    (e : InputParsedEvent) : Prop :=
  let q' := applyEvent tapHoldTicks millisecondsPerTick q e
  match e.kind with
  | .keyboard => q' = q
  | .joystick => q' = q
  | .releaseAll => q'.queued = [] ∧ q'.tailButtons = 0
  | _ => 0 < reportsFor e ∧
      Adds q (reportsFor e) (wantedMotion obj) (wantedButtons obj q.tailButtons) q'

/-- What has to be queued before the next release, in a queue that has queued `needed`. -/
theorem needed_le_of_fits {events : List InputParsedEvent} {needed roomLeft : Nat}
    (h : (batchFitsLoop events needed roomLeft).1 = true) : needed ≤ roomLeft := by
  induction events generalizing needed with
  | nil => exact of_decide_eq_true h
  | cons e events ih =>
      rw [batchFitsLoop] at h
      split at h
      · split at h
        · exact nomatch h
        · omega
      · have hnext := ih h
        omega

/-- In a batch that fits, each event does what it asks for: `base` reports were there before
    the batch, or before the last release of it. -/
theorem applied_of_fits {tapHoldTicks millisecondsPerTick : Nat} {objs : List Members}
    {events : List InputParsedEvent} (hreads : List.Forall₂ Reads objs events) {needed roomLeft : Nat}
    {q : Queue} (hcount : q.count + roomLeft ≤ capacity + needed)
    (hfits : (batchFitsLoop events needed roomLeft).1 = true)
    {before after : List (Members × InputParsedEvent)} {obj : Members} {e : InputParsedEvent}
    (hsplit : objs.zip events = before ++ (obj, e) :: after) :
    Applied tapHoldTicks millisecondsPerTick
      (applyBatch tapHoldTicks millisecondsPerTick q (before.map Prod.snd)) obj e := by
  induction hreads generalizing needed roomLeft q before with
  | nil => exact absurd hsplit.symm (List.append_ne_nil_of_right_ne_nil _ (List.cons_ne_nil _ _))
  | @cons first event objs events hfirst hrest ih =>
      rw [List.zip_cons_cons] at hsplit
      have hroom := hfits
      rw [batchFitsLoop] at hroom hfits
      have hzero : event.kind = .keyboard ∨ event.kind = .joystick ∨ event.kind = .releaseAll →
          reportsFor event = 0 := by
        rintro (hk | hk | hk) <;> rw [reportsFor, hk]
      -- What the first event does, and what is left for the others.
      have hdone : Applied tapHoldTicks millisecondsPerTick q first event := by
        rw [Applied]
        cases hk : event.kind with
        | keyboard => rw [applyEvent, hk]
        | joystick => rw [applyEvent, hk]
        | releaseAll =>
            rw [applyEvent, hk]
            exact ⟨rfl, rfl⟩
        | _ =>
            rw [hk, if_neg (by decide)] at hroom
            have hle := needed_le_of_fits hroom
            dsimp only
            rw [applyEvent, hk]
            exact append_adds (by rw [hk]; rfl) hfirst (by omega) _ _
      cases before with
      | nil =>
          cases hsplit
          exact hdone
      | cons b before =>
          obtain ⟨rfl, hlater⟩ := List.cons.inj hsplit
          rw [List.map_cons, applyBatch, List.foldl_cons]
          by_cases hk : event.kind = .releaseAll
          · rw [if_pos hk] at hfits
            split at hfits
            · exact nomatch hfits
            · refine ih (q := applyEvent tapHoldTicks millisecondsPerTick q event) ?_ hfits hlater
              have hclear : (applyEvent tapHoldTicks millisecondsPerTick q event).count = 0 := by
                rw [applyEvent, hk]
                rfl
              rw [hclear, hzero (Or.inr (Or.inr hk))]
              omega
          · rw [if_neg hk] at hfits
            refine ih (q := applyEvent tapHoldTicks millisecondsPerTick q event) ?_ hfits hlater
            have hcount' : (applyEvent tapHoldTicks millisecondsPerTick q event).count
                = q.count + reportsFor event := by
              rw [Applied] at hdone
              cases hkind : event.kind with
              | keyboard =>
                  rw [hkind] at hdone
                  rw [hdone, hzero (Or.inl hkind), Nat.add_zero]
              | joystick =>
                  rw [hkind] at hdone
                  rw [hdone, hzero (Or.inr (Or.inl hkind)), Nat.add_zero]
              | releaseAll => exact absurd hkind hk
              | _ =>
                  rw [hkind] at hdone
                  exact hdone.2.count
            omega

end RestMouse
