import Mathlib

/-! # The keys that the REST interface holds down

    `keyboard_usb.cc` keeps two matrices for the REST interface: the keys that are pressed
    until they are released, and over them the keys of a tap, which a timer of 20 ms lets go
    when their count is down.  Taps of a batch wait in a ring and start one by one, with a gap
    between them; in a chord the keys of the setup go down one tick before the others, and up
    one tick behind them.

    Each function runs with the interrupts off, so any order of calls and ticks is a list of
    `Call`s.  A byte of a matrix is its eight bits: the rows and the columns are independent,
    and the loops over them are written for one key. -/

namespace RestKeyboard

/-- `uint8_t matrix[8]`: bit `col` of byte `row`. -/
abbrev Matrix := Fin 8 → Fin 8 → Bool

def noKeys : Matrix := fun _ _ => false

/-- `1 << col` in byte `row`. -/
def keyBit (row col : UInt8) : Matrix := fun r c => r.val = row.toNat && c.val = col.toNat

/-- Whether a byte of the matrix is not zero. -/
def Matrix.hasAny (m : Matrix) : Bool := decide (∃ row col, m row col = true)

def restTapGapTicks : UInt8 := 1

def restTapChordSetupTicks : UInt8 := 1

def restTapChordReleaseTicks : UInt8 := 1

def restTapQueueSize : Nat := 128

structure RestTapEntry where
  matrix : Matrix
  setupMatrix : Matrix
  holdTicks : UInt8
  restore : Bool

namespace RestTapEntry

def hasSetup (entry : RestTapEntry) : Bool := entry.setupMatrix.hasAny

/-- `first_matrix`: without a setup, all keys. -/
def firstMatrix (entry : RestTapEntry) : Matrix := fun row col =>
  if entry.hasSetup then entry.setupMatrix row col && entry.matrix row col else entry.matrix row col

/-- `deferred_matrix`. -/
def deferredMatrix (entry : RestTapEntry) : Matrix := fun row col =>
  entry.hasSetup && entry.matrix row col && !entry.firstMatrix row col

def hasDeferred (entry : RestTapEntry) : Bool := entry.deferredMatrix.hasAny

/-- The count of the keys that go down first, in 8 bits. -/
def firstHold (entry : RestTapEntry) : UInt8 :=
  entry.holdTicks + (if entry.hasDeferred then restTapChordSetupTicks + restTapChordReleaseTicks else 0)

end RestTapEntry

/-! ## The ring of the taps -/

/-- `rest_tap_queue` with `rest_tap_head` and `rest_tap_tail`. -/
structure TapQueue where
  entries : Nat → RestTapEntry
  head : Nat
  tail : Nat
  head_lt : head < restTapQueueSize
  tail_lt : tail < restTapQueueSize

namespace TapQueue

/-- The place behind a place. -/
def next (i : Nat) : Nat := if i + 1 ≥ restTapQueueSize then 0 else i + 1

theorem next_lt (i : Nat) : next i < restTapQueueSize := by
  rw [next]
  split
  · decide
  · omega

theorem next_eq {i : Nat} (h : i < restTapQueueSize) : next i = (i + 1) % restTapQueueSize := by
  rw [next]
  split
  next hlast => rw [show i + 1 = restTapQueueSize by omega, Nat.mod_self]
  next hlast => rw [Nat.mod_eq_of_lt (by omega)]

def clear (q : TapQueue) : TapQueue := ⟨q.entries, 0, 0, by decide, by decide⟩

/-- What `restQueueTap` does with the ring; `none` when it is full. -/
def push (q : TapQueue) (entry : RestTapEntry) : Option TapQueue :=
  if next q.head = q.tail then none
  else
    some
      { q with
        entries := fun i => if i = q.head then entry else q.entries i
        head := next q.head
        head_lt := next_lt q.head }

/-- `rest_tap_queue[rest_tap_tail]`, when the ring is not empty. -/
def front (q : TapQueue) : Option RestTapEntry :=
  if q.head = q.tail then none else some (q.entries q.tail)

def dropFront (q : TapQueue) : TapQueue := { q with tail := next q.tail, tail_lt := next_lt q.tail }

/-- How many taps wait. -/
def count (q : TapQueue) : Nat := (q.head + restTapQueueSize - q.tail) % restTapQueueSize

/-- The taps that wait, the oldest first. -/
def queued (q : TapQueue) : List RestTapEntry :=
  (List.range q.count).map fun i => q.entries ((q.tail + i) % restTapQueueSize)

theorem clear_queued (q : TapQueue) : q.clear.queued = [] := by
  simp [queued, count, clear]

theorem count_push {q q' : TapQueue} {entry : RestTapEntry} (h : q.push entry = some q') :
    q'.count = q.count + 1 ∧ q.count + 1 < restTapQueueSize := by
  have hhead := q.head_lt
  have htail := q.tail_lt
  rw [push] at h
  split at h
  · exact nomatch h
  next hfull =>
    obtain rfl := Option.some.inj h
    rw [next_eq hhead] at hfull
    simp only [count, next_eq hhead]
    simp only [restTapQueueSize] at *
    omega

/-- A tap that is accepted waits behind the others. -/
theorem push_queued {q q' : TapQueue} {entry : RestTapEntry} (h : q.push entry = some q') :
    q'.queued = q.queued ++ [entry] := by
  obtain ⟨hcount, hroom⟩ := count_push h
  have hhead := q.head_lt
  have htail := q.tail_lt
  have hlast : (q.tail + q.count) % restTapQueueSize = q.head := by
    simp only [count, restTapQueueSize] at *
    omega
  rw [push] at h
  split at h
  · exact nomatch h
  obtain rfl := Option.some.inj h
  rw [queued, hcount, List.range_succ, List.map_append, List.map_singleton]
  refine congrArg₂ (· ++ ·) (List.map_congr_left fun i hi => ?_) ?_
  · have hi' := List.mem_range.mp hi
    have hne : ¬ (q.tail + i) % restTapQueueSize = q.head := by
      rw [← hlast]
      simp only [restTapQueueSize] at *
      omega
    exact if_neg hne
  · exact congrArg (fun e => [e]) (if_pos hlast)

/-- The oldest tap is at the front; without it the others wait. -/
theorem front_queued {q : TapQueue} {entry : RestTapEntry} (h : q.front = some entry) :
    q.queued = entry :: q.dropFront.queued := by
  have hhead := q.head_lt
  have htail := q.tail_lt
  rw [front] at h
  split at h
  · exact nomatch h
  next hempty =>
    obtain rfl := Option.some.inj h
    have hcount : q.count = q.dropFront.count + 1 := by
      simp only [count, dropFront, next_eq htail]
      simp only [restTapQueueSize] at *
      omega
    rw [queued, hcount, List.range_succ_eq_map, List.map_cons, List.map_map]
    refine congrArg₂ List.cons (congrArg q.entries ?_) (List.map_congr_left fun i _ => congrArg q.entries ?_)
    · rw [Nat.add_zero, Nat.mod_eq_of_lt htail]
    · simp only [dropFront, next_eq htail]
      rw [Nat.mod_add_mod, Nat.add_right_comm, Nat.add_assoc]

theorem front_none {q : TapQueue} (h : q.front = none) : q.queued = [] := by
  have htail := q.tail_lt
  rw [front] at h
  split at h
  next hempty =>
    have hcount : q.count = 0 := by
      rw [count, hempty, Nat.add_sub_cancel_left, Nat.mod_self]
    rw [queued, hcount, List.range_zero, List.map_nil]
  · exact nomatch h

end TapQueue

/-! ## What the REST interface holds -/

/-- The fields of `Keyboard_USB` that belong to the REST interface. -/
structure Rest where
  restMatrixState : Matrix
  restMatrixOverlay : Matrix
  restOverlayHold : Fin 8 → Fin 8 → UInt8
  restMatrixControl : Bool
  taps : TapQueue
  restTapGapTicks : UInt8
  restPendingTapMatrix : Matrix
  restPendingTapHold : UInt8
  restPendingTapDelay : UInt8
  restRestore : Bool
  restRestoreOverlay : Bool
  restRestoreHold : UInt8

namespace Rest

def restPressMatrix (r : Rest) (pressMatrix : Matrix) : Rest :=
  { r with
    restMatrixState := fun row col => r.restMatrixState row col || pressMatrix row col
    restMatrixOverlay := fun row col => r.restMatrixOverlay row col && !pressMatrix row col
    restOverlayHold := fun row col => if pressMatrix row col then 0 else r.restOverlayHold row col }

def restReleaseMatrix (r : Rest) (releaseMatrix : Matrix) : Rest :=
  { r with restMatrixState := fun row col => r.restMatrixState row col && !releaseMatrix row col }

def restPress (r : Rest) (row col : UInt8) : Rest :=
  if row ≥ 8 ∨ col ≥ 8 then r else r.restPressMatrix (keyBit row col)

def restRelease (r : Rest) (row col : UInt8) : Rest :=
  if row ≥ 8 ∨ col ≥ 8 then r else r.restReleaseMatrix (keyBit row col)

/-- Keys that go down over the persistent ones, for `hold` ticks. -/
def overlay (r : Rest) (matrix : Matrix) (hold : UInt8) : Rest :=
  { r with
    restMatrixOverlay := fun row col =>
      r.restMatrixOverlay row col || (matrix row col && !r.restMatrixState row col)
    restOverlayHold := fun row col => if matrix row col then hold else r.restOverlayHold row col }

def restTap (r : Rest) (row col holdTicks : UInt8) : Rest :=
  if row ≥ 8 ∨ col ≥ 8 ∨ holdTicks = 0 then r else r.overlay (keyBit row col) holdTicks

/-- `restQueueTap`: what it answers, and the rest. -/
def restQueueTap (r : Rest) (matrix setupMatrix : Matrix) (restore : Bool) (holdTicks : UInt8) : Bool × Rest :=
  if holdTicks = 0 then (true, r)
  else if !(restore || matrix.hasAny) then (true, r)
  else
    match r.taps.push ⟨matrix, setupMatrix, holdTicks, restore⟩ with
    | none => (false, r)
    | some taps => (true, { r with taps := taps })

def restTapRestore (r : Rest) (holdTicks : UInt8) : Rest :=
  if holdTicks = 0 then r else { r with restRestoreOverlay := true, restRestoreHold := holdTicks }

def restReleaseAll (r : Rest) : Rest :=
  { restMatrixState := noKeys
    restMatrixOverlay := noKeys
    restOverlayHold := fun _ _ => 0
    restMatrixControl := false
    taps := r.taps.clear
    restTapGapTicks := 0
    restPendingTapMatrix := noKeys
    restPendingTapHold := 0
    restPendingTapDelay := 0
    restRestore := false
    restRestoreOverlay := false
    restRestoreHold := 0 }

def restMatrixActive (r : Rest) : Bool :=
  r.restRestore || r.restRestoreOverlay ||
    decide (∃ row col, (r.restMatrixState row col || r.restMatrixOverlay row col) = true)

def restTapOverlayActive (r : Rest) : Bool :=
  r.restPendingTapHold != 0 || r.restRestoreHold != 0 || decide (∃ row col, r.restOverlayHold row col ≠ 0)

/-- The keys of a chord that wait for its setup. -/
def deferKeys (r : Rest) (entry : RestTapEntry) : Rest :=
  if entry.hasDeferred then
    { r with
      restPendingTapMatrix := entry.deferredMatrix
      restPendingTapHold := entry.holdTicks
      restPendingTapDelay := restTapChordSetupTicks }
  else r

def startRestore (r : Rest) (entry : RestTapEntry) : Rest :=
  if entry.restore then { r with restRestoreOverlay := true, restRestoreHold := entry.holdTicks } else r

def startRestTap (r : Rest) (entry : RestTapEntry) : Rest :=
  ((r.overlay entry.firstMatrix entry.firstHold).deferKeys entry).startRestore entry

/-! ## The timer

    `tickRestOverlays` in its four parts; each says whether it has changed the matrix. -/

/-- The counts of the keys; a count of one runs out. -/
def countKeys (r : Rest) : Bool × Rest :=
  let expired : Bool := decide (∃ row col, r.restOverlayHold row col = 1)
  (expired,
    { r with
      restOverlayHold := fun row col =>
        if r.restOverlayHold row col = 0 then 0 else r.restOverlayHold row col - 1
      restMatrixOverlay := fun row col => r.restMatrixOverlay row col && r.restOverlayHold row col != 1
      restTapGapTicks := if expired then RestKeyboard.restTapGapTicks else r.restTapGapTicks })

def countRestore (r : Rest) : Bool × Rest :=
  if r.restRestoreHold > 0 then
    if r.restRestoreHold - 1 = 0 then
      (true,
        { r with
          restRestoreHold := 0
          restRestoreOverlay := false
          restTapGapTicks := RestKeyboard.restTapGapTicks })
    else (false, { r with restRestoreHold := r.restRestoreHold - 1 })
  else (false, r)

/-- `rest_pending_tap_delay` after a tick. -/
def nextDelay (r : Rest) : UInt8 :=
  if r.restPendingTapDelay > 0 then r.restPendingTapDelay - 1 else r.restPendingTapDelay

/-- The keys of a chord that are still to go down. -/
def countDelay (r : Rest) : Bool × Rest :=
  if r.restPendingTapHold = 0 then (false, r)
  else if r.nextDelay = 0 then
    (true,
      { r.overlay r.restPendingTapMatrix r.restPendingTapHold with
        restPendingTapMatrix := noKeys
        restPendingTapHold := 0
        restPendingTapDelay := 0 })
  else (false, { r with restPendingTapDelay := r.nextDelay })

/-- The tap that starts when the counts are done. -/
def nextTap (r : Rest) : Option RestTapEntry :=
  if r.restTapOverlayActive || r.restTapGapTicks > 0 then none else r.taps.front

/-- The gap, or the tap behind it. -/
def countGap (r : Rest) : Bool × Rest :=
  if r.restTapOverlayActive then (false, r)
  else if r.restTapGapTicks > 0 then (false, { r with restTapGapTicks := r.restTapGapTicks - 1 })
  else
    match r.taps.front with
    | none => (false, r)
    | some entry => (true, { r.startRestTap entry with taps := r.taps.dropFront })

/-- The counts of `tickRestOverlays`, before the gap. -/
def counted (r : Rest) : Rest := r.countKeys.2.countRestore.2.countDelay.2

def tickRestOverlays (r : Rest) : Bool × Rest :=
  let keys := r.countKeys
  let restore := keys.2.countRestore
  let delay := restore.2.countDelay
  let gap := delay.2.countGap
  (keys.1 || restore.1 || delay.1 || gap.1, gap.2)

end Rest

/-! ## The keyboard -/

/-- `Keyboard_USB`, with the registers of the matrix; the keys of the USB keyboard are in
    `localState`. -/
structure Keyboard where
  attached : Bool
  matrix : Matrix
  matrixRestore : Bool
  matrixEnabled : Bool
  localState : Matrix
  usbRestore : Bool
  rest : Rest

namespace Keyboard

/-- Whether a key is down in `matrix[0..7]` when `applyMatrixState` is done. -/
def applied (k : Keyboard) : Matrix := fun row col =>
  (k.matrixEnabled && !(k.rest.restMatrixControl || k.rest.restMatrixActive) && k.localState row col) ||
    (k.rest.restMatrixState row col || k.rest.restMatrixOverlay row col)

/-- `matrix[9]`. -/
def appliedRestore (k : Keyboard) : Bool :=
  (k.matrixEnabled && k.usbRestore) || k.rest.restRestore || k.rest.restRestoreOverlay

def applyMatrixState (k : Keyboard) : Keyboard :=
  { k with
    matrix := if k.attached then k.applied else k.matrix
    matrixRestore := if k.attached then k.appliedRestore else k.matrixRestore }

/-- `restSnapshot`. -/
def restSnapshot (k : Keyboard) : Matrix := fun row col =>
  k.rest.restMatrixState row col || k.rest.restMatrixOverlay row col

/-- `Keyboard_USB()`. -/
def initialState : Keyboard :=
  { attached := false
    matrix := noKeys
    matrixRestore := false
    matrixEnabled := false
    localState := noKeys
    usbRestore := false
    rest :=
      { restMatrixState := noKeys
        restMatrixOverlay := noKeys
        restOverlayHold := fun _ _ => 0
        restMatrixControl := false
        taps := ⟨fun _ => ⟨noKeys, noKeys, 0, false⟩, 0, 0, by decide, by decide⟩
        restTapGapTicks := 0
        restPendingTapMatrix := noKeys
        restPendingTapHold := 0
        restPendingTapDelay := 0
        restRestore := false
        restRestoreOverlay := false
        restRestoreHold := 0 } }

end Keyboard

/-- A call of one of the functions, by the task of the interface or by the timer; `local`
    stands for what the USB keyboard and the user interface do. -/
inductive Call where
  | restPress (row col : UInt8)
  | restRelease (row col : UInt8)
  | restPressMatrix (pressMatrix : Matrix)
  | restReleaseMatrix (releaseMatrix : Matrix)
  | restBeginMatrixControl
  | restEndMatrixControl
  | restTap (row col holdTicks : UInt8)
  | restQueueTap (matrix setupMatrix : Matrix) (restore : Bool) (holdTicks : UInt8)
  | restPressRestore
  | restReleaseRestore
  | restTapRestore (holdTicks : UInt8)
  | restReleaseAll
  | tickRestOverlays
  | local (attached matrixEnabled : Bool) (localState : Matrix) (usbRestore : Bool)

/-- The calls that return at once. -/
def Call.refused : Call → Bool
  | .restPress row col => row ≥ 8 ∨ col ≥ 8
  | .restRelease row col => row ≥ 8 ∨ col ≥ 8
  | .restTap row col holdTicks => row ≥ 8 ∨ col ≥ 8 ∨ holdTicks = 0
  | .restTapRestore holdTicks => holdTicks = 0
  | _ => false

/-- What a call does to the fields of the REST interface. -/
def Rest.call (r : Rest) : Call → Rest
  | .restPress row col => r.restPress row col
  | .restRelease row col => r.restRelease row col
  | .restPressMatrix pressMatrix => r.restPressMatrix pressMatrix
  | .restReleaseMatrix releaseMatrix => r.restReleaseMatrix releaseMatrix
  | .restBeginMatrixControl => { r with restMatrixControl := true }
  | .restEndMatrixControl => { r with restMatrixControl := false }
  | .restTap row col holdTicks => r.restTap row col holdTicks
  | .restQueueTap matrix setupMatrix restore holdTicks => (r.restQueueTap matrix setupMatrix restore holdTicks).2
  | .restPressRestore => { r with restRestore := true }
  | .restReleaseRestore => { r with restRestore := false }
  | .restTapRestore holdTicks => r.restTapRestore holdTicks
  | .restReleaseAll => r.restReleaseAll
  | .tickRestOverlays => r.tickRestOverlays.2
  | .local .. => r

/-- A call, with the registers that it writes. -/
def Keyboard.call (k : Keyboard) (c : Call) : Keyboard :=
  match c with
  | .restQueueTap .. => { k with rest := k.rest.call c }
  | .tickRestOverlays =>
      if k.rest.tickRestOverlays.1 then { k with rest := k.rest.call c }.applyMatrixState
      else { k with rest := k.rest.call c }
  | .local attached matrixEnabled localState usbRestore =>
      { k with
        attached := attached
        matrixEnabled := matrixEnabled
        localState := localState
        usbRestore := usbRestore }.applyMatrixState
  | _ => if c.refused then k else { k with rest := k.rest.call c }.applyMatrixState

def Rest.run (r : Rest) (calls : List Call) : Rest := calls.foldl Rest.call r

def Keyboard.run (k : Keyboard) (calls : List Call) : Keyboard := calls.foldl Keyboard.call k

end RestKeyboard
