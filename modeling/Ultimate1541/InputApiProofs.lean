import Ultimate1541.JsonProofs

/-! # Input events in a REST request

    A request to `/v1/machine:input` is a JSON object with a list of keyboard, joystick and
    mouse events.  `input_api.h` checks all of them before one is applied, and keeps what it
    reads in an `InputParsedEvent` each, with fields of 8 and 16 bits.

    For the mouse, `Wanted` says what an event asks for in terms of the JSON object alone; a
    parsed event has exactly that (`parseEvent_motion`, `parseEvent_buttons`). -/

namespace InputApi

open RestJson

/-- `InputParsedKind`. -/
inductive Kind where
  | keyboard
  | joystick
  | releaseAll
  | mouseButtons
  | mouseMove
  | mouseWheel
  | mousePath
  deriving DecidableEq

/-- `InputParsedTransition`. -/
inductive Transition where
  | press
  | release
  | tap
  deriving DecidableEq

/-- A number in a field of 16 bits. -/
def toInt16 (n : Int) : Int := n.bmod (2 ^ 16)

/-- `InputParsedEvent`, with the zeros of `memset`. -/
structure InputParsedEvent where
  kind : Kind := .keyboard
  transition : Transition := .press
  port : UInt8 := 0
  keyboardIndex : List Nat := []
  joystickMask : UInt8 := 0
  mouseButtons : UInt8 := 0
  mouseX : Int := 0
  mouseY : Int := 0
  wheelVertical : Int := 0
  wheelHorizontal : Int := 0
  path : List Json := []
  pathSteps : Nat := 0
  pathIntervalMs : Nat := 0

def maxEvents : Nat := 64
def maxKeyboardInputs : Nat := 8
def maxJoystickInputs : Nat := 7
def maxMouseMotion : Int := 127
def maxMouseDetents : Int := 64
def maxMousePathSteps : Nat := 256
def minMousePathIntervalMs : Int := 20
def maxMousePathIntervalMs : Int := 1000
def defaultMousePathIntervalMs : Int := 20

/-- The names of `INPUT_API_KEYBOARD_MAP`, and whether the entry is the restore key. -/
def keyboardMap : List (String × Bool) :=
  (["inst_del", "return", "cursor_left_right", "f7", "f1", "f3", "f5", "cursor_up_down",
    "3", "w", "a", "4", "z", "s", "e", "left_shift",
    "5", "r", "d", "6", "c", "f", "t", "x",
    "7", "y", "g", "8", "b", "h", "u", "v",
    "9", "i", "j", "0", "m", "k", "o", "n",
    "plus", "p", "l", "minus", "period", "colon", "at", "comma",
    "pound", "star", "semicolon", "clr_home", "right_shift", "equals", "arrow_up", "slash",
    "1", "arrow_left", "ctrl", "2", "space", "commodore", "q", "run_stop"].map (·, false)) ++
  [("restore", true)]

/-- `INPUT_API_JOYSTICK_MAP`; the bit is the place in the list. -/
def joystickMap : List String := ["up", "down", "left", "right", "fire", "fire2", "fire3"]

/-- `INPUT_API_MOUSE_BUTTON_MAP`. -/
def mouseButtonMap : List (String × UInt8) := [("left", 0x01), ("right", 0x02), ("middle", 0x04)]

/-- `input_api_copy_preview`, for a place of four bytes at least. -/
def copyPreview (size : Nat) (src : Text) : Text :=
  if src.length < size then src else src.take (size - 4) ++ ("..." : Text)

/-- `input_api_set_error`, for a place of `INPUT_API_ERROR_SIZE` bytes. -/
def setError (msg : Text) : Text := copyPreview 160 msg

/-- A check that fails with a message. -/
def refuse (wrong : Prop) [Decidable wrong] (msg : Text) : Except Text Unit :=
  if wrong then .error msg else .ok ()

/-- `input_api_reject_unknown_keys`. -/
def rejectUnknownKeys (obj : Members) (allowed : List Text) : Except Text Unit :=
  match obj.find? fun m => decide (m.1 ∉ allowed) with
  | some m => .error ("Unknown field `" ++ copyPreview 32 m.1 ++ "`." : Text)
  | none => .ok ()

/-- `input_api_get_string_field`. -/
def getStringField (obj : Members) (name : Text) : Except Text Text :=
  match obj.get name with
  | none => .error ("`" ++ name ++ "` is required." : Text)
  | some (.str s) => .ok s
  | some _ => .error ("`" ++ name ++ "` must be a string." : Text)

/-- `input_api_parse_transition`. -/
def parseTransition (obj : Members) : Except Text Transition := do
  let name ← getStringField obj "transition"
  if name = "press" then .ok .press
  else if name = "release" then .ok .release
  else if name = "tap" then .ok .tap
  else .error (setError "`transition` must be one of `press`, `release`, or `tap`.")

/-- A member that has to be a list. -/
def getListField (obj : Members) (name missing wrong : Text) : Except Text (List Json) :=
  match obj.get name with
  | none => .error (setError missing)
  | some (.list l) => .ok l
  | some _ => .error (setError wrong)

/-- The loop of `input_api_parse_keyboard_event`. -/
def keyboardInputs : List Json → List Nat → Except Text (List Nat)
  | [], seen => .ok seen
  | .str name :: rest, seen =>
      match keyboardMap.findIdx? fun e => decide (name = e.1.toList) with
      | none => .error ("`" ++ copyPreview 32 name ++ "` is not a valid keyboard input." : Text)
      | some i =>
          if i ∈ seen then .error ("`" ++ copyPreview 32 name ++ "` appears more than once in `inputs`." : Text)
          else keyboardInputs rest (seen ++ [i])
  | _ :: _, _ => .error (setError "Keyboard inputs must be strings.")

/-- `input_api_parse_keyboard_event`. -/
def parseKeyboardEvent (obj : Members) (out : InputParsedEvent) : Except Text InputParsedEvent := do
  rejectUnknownKeys obj ["kind", "inputs", "transition"]
  refuse ((obj.get "port").isSome) (setError "`port` is not allowed for keyboard events.")
  let transition ← parseTransition obj
  let list ← getListField obj "inputs" "`inputs` is required." "`inputs` must be an array."
  refuse (list.length < 1 ∨ list.length > maxKeyboardInputs)
    (setError "`inputs` must contain 1..8 entries.")
  let index ← keyboardInputs list []
  refuse ((index.any fun i => (keyboardMap.getD i ("", false)).2) ∧ transition ≠ .tap)
    (setError "`restore` is only valid with transition `tap`.")
  .ok { out with kind := .keyboard, transition := transition, keyboardIndex := index }

/-- The loop of `input_api_parse_joystick_event`. -/
def joystickInputs : List Json → UInt8 → Except Text UInt8
  | [], mask => .ok mask
  | .str name :: rest, mask =>
      match joystickMap.findIdx? fun e => decide (name = e.toList) with
      | none => .error ("`" ++ copyPreview 32 name ++ "` is not a valid joystick input." : Text)
      | some i =>
          let bit : UInt8 := 1 <<< UInt8.ofNat i
          if mask &&& bit ≠ 0 then
            .error ("`" ++ copyPreview 32 name ++ "` appears more than once in `inputs`." : Text)
          else joystickInputs rest (mask ||| bit)
  | _ :: _, _ => .error (setError "Joystick inputs must be strings.")

/-- The port of a joystick event. -/
def joystickPort (obj : Members) : Except Text UInt8 :=
  match obj.get "port" with
  | none => .error (setError "`port` is required.")
  | some (.int v) =>
      if v ≠ 1 ∧ v ≠ 2 then .error (setError "`port` must be 1 or 2.")
      else .ok v.toInt.toNat.toUInt8
  | some _ => .error (setError "`port` must be an integer.")

/-- `input_api_parse_joystick_event`. -/
def parseJoystickEvent (obj : Members) (out : InputParsedEvent) : Except Text InputParsedEvent := do
  rejectUnknownKeys obj ["kind", "port", "inputs", "transition"]
  let transition ← parseTransition obj
  let port ← joystickPort obj
  let list ← getListField obj "inputs" "`inputs` is required." "`inputs` must be an array."
  refuse (list.length < 1 ∨ list.length > maxJoystickInputs)
    (setError "`inputs` must contain 1..7 entries.")
  let mask ← joystickInputs list 0
  .ok { out with kind := .joystick, transition := transition, port := port, joystickMask := mask }

/-- `input_api_get_int_member`. -/
def getIntMember (obj : Members) (objectName : Option Text) (name : Text) (low high out : Int) :
    Except Text Int :=
  let field : Text := match objectName with
    | none => name
    | some objectName => objectName ++ ("." : Text) ++ name
  match obj.get name with
  | none => .ok out
  | some (.int v) =>
      if v.toInt < low ∨ v.toInt > high then
        .error ("`" ++ field ++ "` must be " ++ decimal low ++ ".." ++ decimal high ++ "." : Text)
      else .ok v.toInt
  | some _ => .error ("`" ++ field ++ "` must be an integer." : Text)

/-- `input_api_get_object_field`, for a key that is there. -/
def getObjectField (obj : Members) (name : Text) (allowed : List Text) : Except Text Members :=
  match obj.get name with
  | some (.obj member) =>
      match member.find? fun m => decide (m.1 ∉ allowed) with
      | some m => .error ("Unknown field `" ++ name ++ "." ++ copyPreview 32 m.1 ++ "`." : Text)
      | none => .ok member
  | _ => .error ("`" ++ name ++ "` must be an object." : Text)

/-- The mask of a name: that of the last entry with the name, or zero. -/
def mouseMask (name : Text) : UInt8 :=
  mouseButtonMap.foldl (fun mask e => if name = e.1.toList then e.2 else mask) 0

/-- The loop of `input_api_parse_mouse_buttons`. -/
def mouseInputs : List Json → UInt8 → Except Text UInt8
  | [], buttons => .ok buttons
  | .str name :: rest, buttons =>
      let mask := mouseMask name
      if mask = 0 then .error ("`" ++ copyPreview 32 name ++ "` is not a valid mouse input." : Text)
      else if buttons &&& mask ≠ 0 then
        .error ("`" ++ copyPreview 32 name ++ "` appears more than once in `inputs`." : Text)
      else mouseInputs rest (buttons ||| mask)
  | _ :: _, _ => .error (setError "Mouse inputs must be strings.")

/-- `input_api_parse_mouse_buttons`. -/
def parseMouseButtons (obj : Members) (out : InputParsedEvent) : Except Text InputParsedEvent := do
  let transition ← parseTransition obj
  let list ← getListField obj "inputs" "`inputs` must be an array." "`inputs` must be an array."
  refuse (list.length < 1 ∨ list.length > mouseButtonMap.length)
    (setError "`inputs` must contain 1..3 entries.")
  let buttons ← mouseInputs list 0
  .ok { out with kind := .mouseButtons, transition := transition, mouseButtons := buttons }

/-- `input_api_parse_mouse_move`. -/
def parseMouseMove (obj : Members) (out : InputParsedEvent) : Except Text InputParsedEvent := do
  let move ← getObjectField obj "move" ["x", "y"]
  let x ← getIntMember move (some "move") "x" (-maxMouseMotion) maxMouseMotion 0
  let y ← getIntMember move (some "move") "y" (-maxMouseMotion) maxMouseMotion 0
  refuse ((move.get "x").isNone ∧ (move.get "y").isNone)
    (setError "`move` must have `x` or `y`.")
  .ok { out with kind := .mouseMove, mouseX := toInt16 x, mouseY := toInt16 y }

/-- `input_api_parse_mouse_wheel`. -/
def parseMouseWheel (obj : Members) (out : InputParsedEvent) : Except Text InputParsedEvent := do
  let wheel ← getObjectField obj "wheel" ["vertical", "horizontal"]
  let vertical ← getIntMember wheel (some "wheel") "vertical" (-maxMouseDetents) maxMouseDetents 0
  let horizontal ← getIntMember wheel (some "wheel") "horizontal" (-maxMouseDetents) maxMouseDetents 0
  refuse (vertical = 0 ∧ horizontal = 0)
    (setError "`wheel` must turn at least one wheel.")
  .ok { out with kind := .mouseWheel, wheelVertical := toInt16 vertical,
                 wheelHorizontal := toInt16 horizontal }

/-- A number of a step. -/
def checkAxis (i : Nat) : Json → Except Text Unit
  | .int v =>
      if v.toInt < -maxMouseMotion ∨ v.toInt > maxMouseMotion then
        .error ("`path[" ++ decimal i ++ "]` values must be -" ++ decimal maxMouseMotion ++ ".." ++
          decimal maxMouseMotion ++ "." : Text)
      else .ok ()
  | _ => .error ("`path[" ++ decimal i ++ "]` must hold integers." : Text)

/-- The loop of `input_api_parse_mouse_path`, from step `i` on. -/
def checkSteps : Nat → List Json → Except Text Unit
  | _, [] => .ok ()
  | i, .list [x, y] :: rest => do
      checkAxis i x
      checkAxis i y
      checkSteps (i + 1) rest
  | i, _ :: _ => .error ("`path[" ++ decimal i ++ "]` must be an [x, y] pair." : Text)

/-- `input_api_parse_mouse_path`. -/
def parseMousePath (obj : Members) (out : InputParsedEvent) : Except Text InputParsedEvent := do
  let steps ← getListField obj "path" "`path` must be an array of [x, y] steps."
    "`path` must be an array of [x, y] steps."
  refuse (steps.length < 1 ∨ steps.length > maxMousePathSteps)
    ("`path` must contain 1.." ++ decimal maxMousePathSteps ++ " steps." : Text)
  checkSteps 0 steps
  let interval ← getIntMember obj none "interval_ms" minMousePathIntervalMs maxMousePathIntervalMs
    defaultMousePathIntervalMs
  .ok { out with kind := .mousePath, path := steps, pathSteps := steps.length % 2 ^ 16,
                 pathIntervalMs := interval.toNat % 2 ^ 16 }

/-- `input_api_parse_mouse_event`: an event does one thing. -/
def parseMouseEvent (obj : Members) (out : InputParsedEvent) : Except Text InputParsedEvent := do
  rejectUnknownKeys obj ["kind", "inputs", "transition", "move", "wheel", "path", "interval_ms"]
  let inputs := (obj.get "inputs").isSome
  let move := (obj.get "move").isSome
  let wheel := (obj.get "wheel").isSome
  let path := (obj.get "path").isSome
  refuse (inputs.toNat + move.toNat + wheel.toNat + path.toNat ≠ 1)
    (setError "A mouse event needs exactly one of `inputs`, `move`, `wheel`, or `path`.")
  refuse (inputs = false ∧ (obj.get "transition").isSome)
    (setError "`transition` is only valid with `inputs`.")
  refuse (path = false ∧ (obj.get "interval_ms").isSome)
    (setError "`interval_ms` is only valid with `path`.")
  if inputs then parseMouseButtons obj out
  else if move then parseMouseMove obj out
  else if wheel then parseMouseWheel obj out
  else parseMousePath obj out

/-- `input_api_parse_release_all_event`. -/
def parseReleaseAllEvent (obj : Members) (out : InputParsedEvent) : Except Text InputParsedEvent := do
  rejectUnknownKeys obj ["kind"]
  refuse ((obj.get "port").isSome ∨ (obj.get "inputs").isSome ∨ (obj.get "transition").isSome)
    (setError "`release_all` events may only contain `kind`.")
  .ok { out with kind := .releaseAll }

/-- `input_api_parse_event`. -/
def parseEvent : Json → Except Text InputParsedEvent
  | .obj obj => do
      let kind ← getStringField obj "kind"
      if kind = "keyboard" then parseKeyboardEvent obj {}
      else if kind = "joystick" then parseJoystickEvent obj {}
      else if kind = "mouse" then parseMouseEvent obj {}
      else if kind = "release_all" then parseReleaseAllEvent obj {}
      else .error (setError "`kind` must be one of `keyboard`, `joystick`, `mouse`, or `release_all`.")
  | _ => .error (setError "Each event must be an object.")

/-- The loop of `input_api_validate_batch`, from event `i` on. -/
def parseEvents : Nat → List Json → Except (Option Nat × Text) (List InputParsedEvent)
  | _, [] => .ok []
  | i, json :: rest =>
      match parseEvent json with
      | .error err => .error (some i, err)
      | .ok event =>
          match parseEvents (i + 1) rest with
          | .error err => .error err
          | .ok events => .ok (event :: events)

/-- `input_api_validate_batch`: the events, or the index of the event that is wrong, if it is
    one, and the message. -/
def validateBatch : Option Json → Except (Option Nat × Text) (List InputParsedEvent)
  | some (.obj obj) =>
      match rejectUnknownKeys obj ["events"] with
      | .error err => .error (none, err)
      | .ok () =>
          match Members.get obj "events" with
          | none => .error (none, setError "`events` is required.")
          | some (.list list) =>
              if list.length < 1 ∨ list.length > maxEvents then
                .error (none, setError "`events` must contain 1..64 entries.")
              else parseEvents 0 list
          | some _ => .error (none, setError "`events` must be an array.")
  | _ => .error (none, setError "Root must be an object.")

/-! ## What a mouse event asks for -/

/-- A motion of the mouse and its wheels. -/
@[ext] structure Motion where
  dx : Int
  dy : Int
  wheel : Int
  pan : Int
  deriving DecidableEq

/-- The numbers of a step. -/
def stepValues : Json → Int × Int
  | .list [.int x, .int y] => (x.toInt, y.toInt)
  | _ => (0, 0)

/-- The motion that the JSON object asks for. -/
def wantedMotion (obj : Members) : Motion :=
  match obj.get "move", obj.get "wheel", obj.get "path" with
  | some (.obj move), _, _ => ⟨Members.intOr move "x" 0, Members.intOr move "y" 0, 0, 0⟩
  | _, some (.obj wheel), _ =>
      ⟨0, 0, Members.intOr wheel "vertical" 0, Members.intOr wheel "horizontal" 0⟩
  | _, _, some (.list steps) =>
      ⟨(steps.map fun s => (stepValues s).1).sum, (steps.map fun s => (stepValues s).2).sum, 0, 0⟩
  | _, _, _ => ⟨0, 0, 0, 0⟩

/-- The buttons that are named. -/
def namedButtons (names : List Json) : UInt8 :=
  names.foldl (fun mask name => match name with
    | .str name => mask ||| mouseMask name
    | _ => mask) 0

/-- The buttons that are down after the JSON object, when `held` are down before. -/
def wantedButtons (obj : Members) (held : UInt8) : UInt8 :=
  match obj.get "inputs", obj.get "transition" with
  | some (.list names), some (.str transition) =>
      if transition = "press" then held ||| namedButtons names
      else held &&& ~~~ namedButtons names
  | _, _ => held

/-- A mouse event has what its object asks for, and in bounds. -/
def Reads (obj : Members) (e : InputParsedEvent) : Prop :=
  match e.kind with
  | .mouseButtons => wantedMotion obj = ⟨0, 0, 0, 0⟩ ∧
      ∀ held, wantedButtons obj held =
        if e.transition = .press then held ||| e.mouseButtons else held &&& ~~~ e.mouseButtons
  | .mouseMove => wantedMotion obj = ⟨e.mouseX, e.mouseY, 0, 0⟩ ∧
      (-127 ≤ e.mouseX ∧ e.mouseX ≤ 127 ∧ -127 ≤ e.mouseY ∧ e.mouseY ≤ 127) ∧
      ∀ held, wantedButtons obj held = held
  | .mouseWheel => wantedMotion obj = ⟨0, 0, e.wheelVertical, e.wheelHorizontal⟩ ∧
      (e.wheelVertical ≠ 0 ∨ e.wheelHorizontal ≠ 0) ∧ ∀ held, wantedButtons obj held = held
  | .mousePath => wantedMotion obj = ⟨(e.path.map fun s => (stepValues s).1).sum,
        (e.path.map fun s => (stepValues s).2).sum, 0, 0⟩ ∧
      (e.path ≠ [] ∧ e.pathSteps = e.path.length ∧
        ∀ s ∈ e.path, -127 ≤ (stepValues s).1 ∧ (stepValues s).1 ≤ 127 ∧
          -127 ≤ (stepValues s).2 ∧ (stepValues s).2 ≤ 127) ∧
      ∀ held, wantedButtons obj held = held
  | _ => True

/-! ## Checks that succeed -/

theorem bind_ok {α β : Type} {x : Except Text α} {f : α → Except Text β} {b : β} :
    (x >>= f) = .ok b ↔ ∃ a, x = .ok a ∧ f a = .ok b := by
  cases x with
  | error e => exact ⟨(fun h => nomatch h), fun ⟨_, h, _⟩ => nomatch h⟩
  | ok a => exact ⟨fun h => ⟨a, rfl, h⟩, fun ⟨_, h, hf⟩ => by cases h; exact hf⟩

theorem refuse_ok {wrong : Prop} [Decidable wrong] {msg : Text} {u : Unit} :
    refuse wrong msg = .ok u ↔ ¬ wrong := by
  rw [refuse]
  by_cases h : wrong
  · rw [if_pos h]
    exact ⟨nofun, fun hn => absurd h hn⟩
  · rw [if_neg h]
    exact ⟨fun _ => h, fun _ => rfl⟩

theorem toInt16_of_le {n : Int} (hlow : -32768 ≤ n) (hhigh : n ≤ 32767) : toInt16 n = n :=
  Int.bmod_eq_of_le (by omega) (by omega)

/-- A member that is checked has a number in bounds, or is not there. -/
theorem getIntMember_ok {obj : Members} {objectName : Option Text} {name : Text}
    {low high out n : Int} (h : getIntMember obj objectName name low high out = .ok n) :
    n = obj.intOr name out ∧ (low ≤ out ∧ out ≤ high → low ≤ n ∧ n ≤ high) := by
  rw [getIntMember.eq_def] at h
  rw [Members.intOr]
  dsimp only at h
  split at h
  next hnone =>
    rw [hnone]
    cases h
    exact ⟨rfl, id⟩
  next v hsome =>
    rw [hsome]
    split at h
    · exact nomatch h
    next hin =>
      cases h
      exact ⟨rfl, fun _ => by omega⟩
  · exact nomatch h

theorem getObjectField_ok {obj : Members} {name : Text} {allowed : List Text} {member : Members}
    (h : getObjectField obj name allowed = .ok member) : obj.get name = some (.obj member) := by
  rw [getObjectField] at h
  split at h
  next found hsome =>
    split at h
    · exact nomatch h
    · cases h
      exact hsome
  · exact nomatch h

theorem getListField_ok {obj : Members} {name missing wrong : Text} {l : List Json}
    (h : getListField obj name missing wrong = .ok l) : obj.get name = some (.list l) := by
  rw [getListField] at h
  split at h
  · exact nomatch h
  next found hsome =>
    cases h
    exact hsome
  · exact nomatch h

theorem getStringField_ok {obj : Members} {name s : Text} (h : getStringField obj name = .ok s) :
    obj.get name = some (.str s) := by
  rw [getStringField] at h
  split at h
  · exact nomatch h
  next found hsome =>
    cases h
    exact hsome
  · exact nomatch h

theorem parseTransition_ok {obj : Members} {t : Transition} (h : parseTransition obj = .ok t) :
    ∃ name, obj.get "transition" = some (.str name) ∧ (t = .press ↔ name = "press") := by
  obtain ⟨name, hname, h⟩ := bind_ok.mp h
  refine ⟨name, getStringField_ok hname, ?_⟩
  split at h
  next hpress =>
    cases h
    exact ⟨fun _ => hpress, fun _ => rfl⟩
  next hpress =>
    split at h
    · cases h
      exact ⟨nofun, fun hp => absurd hp hpress⟩
    · split at h
      · cases h
        exact ⟨nofun, fun hp => absurd hp hpress⟩
      · exact nomatch h

theorem mouseInputs_ok {names : List Json} {before buttons : UInt8}
    (h : mouseInputs names before = .ok buttons) :
    names.foldl (fun mask name => match name with
      | .str name => mask ||| mouseMask name
      | _ => mask) before = buttons := by
  induction names generalizing before with
  | nil => exact Except.ok.inj h
  | cons name names ih =>
      cases name with
      | str name =>
          rw [mouseInputs] at h
          split at h
          · exact nomatch h
          · split at h
            · exact nomatch h
            · exact ih h
      | int v => exact nomatch h
      | bool b => exact nomatch h
      | obj members => exact nomatch h
      | list members => exact nomatch h

theorem checkAxis_ok {i : Nat} {j : Json} {u : Unit} (h : checkAxis i j = .ok u) :
    ∃ v : Int32, j = .int v ∧ -127 ≤ v.toInt ∧ v.toInt ≤ 127 := by
  cases j with
  | int v =>
      rw [checkAxis] at h
      have hmax : maxMouseMotion = 127 := rfl
      split at h
      · exact nomatch h
      · exact ⟨v, rfl, by omega, by omega⟩
  | str s => exact nomatch h
  | bool b => exact nomatch h
  | obj members => exact nomatch h
  | list members => exact nomatch h

/-- The steps that are checked have two numbers in bounds each. -/
theorem checkSteps_ok {i : Nat} {steps : List Json} {u : Unit} (h : checkSteps i steps = .ok u) :
    ∀ s ∈ steps, -127 ≤ (stepValues s).1 ∧ (stepValues s).1 ≤ 127 ∧
      -127 ≤ (stepValues s).2 ∧ (stepValues s).2 ≤ 127 := by
  fun_induction checkSteps i steps with
  | case1 => exact nofun
  | case2 i x y rest ih =>
      obtain ⟨_, hx, hlater⟩ := bind_ok.mp h
      obtain ⟨_, hy, hrest⟩ := bind_ok.mp hlater
      obtain ⟨v, rfl, hvlow, hvhigh⟩ := checkAxis_ok hx
      obtain ⟨w, rfl, hwlow, hwhigh⟩ := checkAxis_ok hy
      intro s hs
      rcases List.mem_cons.mp hs with rfl | hs
      · exact ⟨hvlow, hvhigh, hwlow, hwhigh⟩
      · exact ih hrest s hs
  | case3 => exact nomatch h

/-! ## Mouse events -/

variable {obj : Members} {out e : InputParsedEvent}

theorem wantedButtons_of_none (h : obj.get "inputs" = none) (held : UInt8) :
    wantedButtons obj held = held := by
  rw [wantedButtons, h]

theorem parseMouseButtons_reads (h : parseMouseButtons obj out = .ok e)
    (hmove : obj.get "move" = none) (hwheel : obj.get "wheel" = none)
    (hpath : obj.get "path" = none) : e.kind = .mouseButtons ∧ Reads obj e := by
  obtain ⟨transition, htransition, h⟩ := bind_ok.mp h
  obtain ⟨names, hnames, h⟩ := bind_ok.mp h
  obtain ⟨_, -, h⟩ := bind_ok.mp h
  obtain ⟨buttons, hbuttons, h⟩ := bind_ok.mp h
  cases h
  obtain ⟨name, hname, hpress⟩ := parseTransition_ok htransition
  refine ⟨rfl, ?_, fun held => ?_⟩
  · rw [wantedMotion, hmove, hwheel, hpath]
  · rw [wantedButtons, getListField_ok hnames, hname]
    dsimp only
    rw [namedButtons, mouseInputs_ok hbuttons]
    by_cases hp : transition = .press
    · rw [if_pos (hpress.mp hp), if_pos hp]
    · rw [if_neg fun hn => hp (hpress.mpr hn), if_neg hp]

theorem parseMouseMove_reads (h : parseMouseMove obj out = .ok e) (hinputs : obj.get "inputs" = none) :
    e.kind = .mouseMove ∧ Reads obj e := by
  obtain ⟨move, hmove, h⟩ := bind_ok.mp h
  obtain ⟨x, hx, h⟩ := bind_ok.mp h
  obtain ⟨y, hy, h⟩ := bind_ok.mp h
  obtain ⟨_, -, h⟩ := bind_ok.mp h
  cases h
  have hmax : maxMouseMotion = 127 := rfl
  obtain ⟨hxeq, hxin⟩ := getIntMember_ok hx
  obtain ⟨hyeq, hyin⟩ := getIntMember_ok hy
  obtain ⟨hxlow, hxhigh⟩ := hxin ⟨by omega, by omega⟩
  obtain ⟨hylow, hyhigh⟩ := hyin ⟨by omega, by omega⟩
  have hx16 : toInt16 x = x := toInt16_of_le (by omega) (by omega)
  have hy16 : toInt16 y = y := toInt16_of_le (by omega) (by omega)
  refine ⟨rfl, ?_, ?_, fun held => wantedButtons_of_none hinputs held⟩
  · rw [wantedMotion, getObjectField_ok hmove]
    dsimp only
    rw [hx16, hy16, ← hxeq, ← hyeq]
  · dsimp only
    rw [hx16, hy16]
    omega

theorem parseMouseWheel_reads (h : parseMouseWheel obj out = .ok e) (hinputs : obj.get "inputs" = none)
    (hmove : obj.get "move" = none) : e.kind = .mouseWheel ∧ Reads obj e := by
  obtain ⟨wheel, hwheel, h⟩ := bind_ok.mp h
  obtain ⟨x, hx, h⟩ := bind_ok.mp h
  obtain ⟨y, hy, h⟩ := bind_ok.mp h
  obtain ⟨_, hturn, h⟩ := bind_ok.mp h
  cases h
  have hmax : maxMouseDetents = 64 := rfl
  obtain ⟨hxeq, hxin⟩ := getIntMember_ok hx
  obtain ⟨hyeq, hyin⟩ := getIntMember_ok hy
  obtain ⟨hxlow, hxhigh⟩ := hxin ⟨by omega, by omega⟩
  obtain ⟨hylow, hyhigh⟩ := hyin ⟨by omega, by omega⟩
  have hx16 : toInt16 x = x := toInt16_of_le (by omega) (by omega)
  have hy16 : toInt16 y = y := toInt16_of_le (by omega) (by omega)
  refine ⟨rfl, ?_, ?_, fun held => wantedButtons_of_none hinputs held⟩
  · rw [wantedMotion, hmove, getObjectField_ok hwheel]
    dsimp only
    rw [hx16, hy16, ← hxeq, ← hyeq]
  · dsimp only
    rw [hx16, hy16]
    have hne := refuse_ok.mp hturn
    omega

theorem parseMousePath_reads (h : parseMousePath obj out = .ok e) (hinputs : obj.get "inputs" = none)
    (hmove : obj.get "move" = none) (hwheel : obj.get "wheel" = none) :
    e.kind = .mousePath ∧ Reads obj e := by
  obtain ⟨steps, hsteps, h⟩ := bind_ok.mp h
  obtain ⟨_, hcount, h⟩ := bind_ok.mp h
  obtain ⟨_, hcheck, h⟩ := bind_ok.mp h
  obtain ⟨interval, -, h⟩ := bind_ok.mp h
  cases h
  have hlen := refuse_ok.mp hcount
  have hmax : maxMousePathSteps = 256 := rfl
  refine ⟨rfl, ?_, ⟨?_, ?_, checkSteps_ok hcheck⟩, fun held => wantedButtons_of_none hinputs held⟩
  · rw [wantedMotion, hmove, hwheel, getListField_ok hsteps]
  · rintro rfl
    exact hlen (Or.inl Nat.zero_lt_one)
  · exact Nat.mod_eq_of_lt (by omega)

/-- The kinds of the mouse. -/
def Kind.isMouse : Kind → Bool
  | mouseButtons | mouseMove | mouseWheel | mousePath => true
  | _ => false

theorem parseMouseEvent_reads (h : parseMouseEvent obj out = .ok e) :
    e.kind.isMouse = true ∧ Reads obj e := by
  obtain ⟨_, -, h⟩ := bind_ok.mp h
  obtain ⟨_, hone, h⟩ := bind_ok.mp h
  obtain ⟨_, -, h⟩ := bind_ok.mp h
  obtain ⟨_, -, h⟩ := bind_ok.mp h
  have hcount := Classical.not_not.mp (refuse_ok.mp hone)
  cases hinputs : obj.get "inputs" with
  | some inputs =>
      -- There is nothing else in the event.
      rw [hinputs] at hcount h
      cases hmove : obj.get "move" with
      | some _ => rw [hmove] at hcount; exact absurd hcount (by simp +arith)
      | none =>
          cases hwheel : obj.get "wheel" with
          | some _ => rw [hwheel] at hcount; exact absurd hcount (by simp +arith)
          | none =>
              cases hpath : obj.get "path" with
              | some _ => rw [hpath] at hcount; exact absurd hcount (by simp +arith)
              | none =>
                  obtain ⟨hkind, hreads⟩ := parseMouseButtons_reads h hmove hwheel hpath
                  exact ⟨by rw [hkind]; rfl, hreads⟩
  | none =>
      rw [hinputs] at h
      cases hmove : obj.get "move" with
      | some _ =>
          rw [hmove] at h
          obtain ⟨hkind, hreads⟩ := parseMouseMove_reads h hinputs
          exact ⟨by rw [hkind]; rfl, hreads⟩
      | none =>
          rw [hmove] at h
          cases hwheel : obj.get "wheel" with
          | some _ =>
              rw [hwheel] at h
              obtain ⟨hkind, hreads⟩ := parseMouseWheel_reads h hinputs hmove
              exact ⟨by rw [hkind]; rfl, hreads⟩
          | none =>
              rw [hwheel] at h
              obtain ⟨hkind, hreads⟩ := parseMousePath_reads h hinputs hmove hwheel
              exact ⟨by rw [hkind]; rfl, hreads⟩

theorem parseKeyboardEvent_kind (h : parseKeyboardEvent obj out = .ok e) : e.kind = .keyboard := by
  obtain ⟨_, -, h⟩ := bind_ok.mp h
  obtain ⟨_, -, h⟩ := bind_ok.mp h
  obtain ⟨_, -, h⟩ := bind_ok.mp h
  obtain ⟨_, -, h⟩ := bind_ok.mp h
  obtain ⟨_, -, h⟩ := bind_ok.mp h
  obtain ⟨_, -, h⟩ := bind_ok.mp h
  obtain ⟨_, -, h⟩ := bind_ok.mp h
  cases h
  rfl

theorem parseJoystickEvent_kind (h : parseJoystickEvent obj out = .ok e) : e.kind = .joystick := by
  obtain ⟨_, -, h⟩ := bind_ok.mp h
  obtain ⟨_, -, h⟩ := bind_ok.mp h
  obtain ⟨_, -, h⟩ := bind_ok.mp h
  obtain ⟨_, -, h⟩ := bind_ok.mp h
  obtain ⟨_, -, h⟩ := bind_ok.mp h
  obtain ⟨_, -, h⟩ := bind_ok.mp h
  cases h
  rfl

theorem parseReleaseAllEvent_kind (h : parseReleaseAllEvent obj out = .ok e) :
    e.kind = .releaseAll := by
  obtain ⟨_, -, h⟩ := bind_ok.mp h
  obtain ⟨_, -, h⟩ := bind_ok.mp h
  cases h
  rfl

/-- An event that is accepted has what its object asks for. -/
theorem parseEvent_reads {json : Json} (h : parseEvent json = .ok e) :
    ∃ obj, json = .obj obj ∧ Reads obj e := by
  cases json with
  | obj obj =>
      refine ⟨obj, rfl, ?_⟩
      obtain ⟨kind, -, h⟩ := bind_ok.mp h
      split at h
      · rw [Reads, parseKeyboardEvent_kind h]
        trivial
      · split at h
        · rw [Reads, parseJoystickEvent_kind h]
          trivial
        · split at h
          · exact (parseMouseEvent_reads h).2
          · split at h
            · rw [Reads, parseReleaseAllEvent_kind h]
              trivial
            · exact nomatch h
  | str s => exact nomatch h
  | int v => exact nomatch h
  | bool b => exact nomatch h
  | list members => exact nomatch h

theorem parseEvents_reads {i : Nat} {list : List Json} {events : List InputParsedEvent}
    (h : parseEvents i list = .ok events) :
    ∃ objs : List Members, list = objs.map .obj ∧ List.Forall₂ Reads objs events := by
  induction list generalizing i events with
  | nil =>
      cases h
      exact ⟨[], rfl, .nil⟩
  | cons json rest ih =>
      rw [parseEvents] at h
      split at h
      · exact nomatch h
      next e hevent =>
        split at h
        · exact nomatch h
        next es hevents =>
          cases h
          obtain ⟨obj, rfl, hreads⟩ := parseEvent_reads hevent
          obtain ⟨objs, rfl, hall⟩ := ih hevents
          exact ⟨obj :: objs, rfl, .cons hreads hall⟩

/-- The events of a request. -/
def Asks (root : Option Json) (objs : List Members) : Prop :=
  ∃ obj, root = some (.obj obj) ∧ Members.get obj "events" = some (.list (objs.map .obj))

theorem validateBatch_reads {root : Option Json} {events : List InputParsedEvent}
    (h : validateBatch root = .ok events) : ∃ objs, Asks root objs ∧ List.Forall₂ Reads objs events := by
  rcases root with _ | json
  · exact nomatch h
  · cases json with
    | obj obj =>
        rw [validateBatch] at h
        split at h
        · exact nomatch h
        · split at h
          · exact nomatch h
          next list hlist =>
            split at h
            · exact nomatch h
            · obtain ⟨objs, rfl, hall⟩ := parseEvents_reads h
              exact ⟨objs, ⟨obj, rfl, hlist⟩, hall⟩
          · exact nomatch h
    | str s => exact nomatch h
    | int v => exact nomatch h
    | bool b => exact nomatch h
    | list members => exact nomatch h

end InputApi
