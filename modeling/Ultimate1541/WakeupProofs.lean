import Ultimate1541.ConnectorProofs
import Ultimate1541.InterferenceProofs

/-! # The connector's queues

    What `connect_thread` shares with the tasks that send it commands and with the
    Wi-Fi event handler: two queues of four entries, one binary semaphore, and two
    flags.  Every sender puts its entry in a queue and then gives the semaphore, in two
    steps; the handler then writes `connected_g` in a third one.  A step of any of them
    may come between any two calls of the thread. -/

namespace Wakeup

open Connector Interaction

/-- `xQueueCreate(4, …)`. -/
def queueLength : Nat := 4

/-- Where the Wi-Fi event handler is with an event. -/
inductive Handler where
  | idle
  | sent (e : ConnectEvent)
  | given (e : ConnectEvent)
  deriving DecidableEq, Repr

/-- What the tasks share.  `owing` counts the senders that have sent a command and not
    yet given the semaphore; `last` is the last Wi-Fi event, and `dropped` says that one
    was dropped by a full queue: nobody reads these two. -/
structure Shared where
  commands : List ConnectCommand
  events : List ConnectEvent
  given : Bool
  owing : Nat
  handler : Handler
  connected : Bool
  userDisconnected : Bool
  last : Option ConnectEvent
  dropped : Bool
  deriving DecidableEq, Repr

/-- `start_connector`. -/
def Shared.start : Shared := ⟨[], [], false, 0, .idle, false, false, none, false⟩

/-! ## The others -/

/-- One step of another task. -/
inductive Act where
  | send (cmd : ConnectCommand)
  | give
  | event (e : ConnectEvent)
  | drop (e : ConnectEvent)
  | eventGive
  | eventDone
  | userDisconnect
  deriving DecidableEq, Repr

/-- What the step does; a send waits for room and fails without any, in which case
    the command is refused and the event is dropped. -/
def Act.step : Act → Shared → Option Shared
  | .send cmd, s =>
      if s.commands.length < queueLength then
        some { s with commands := s.commands ++ [cmd], owing := s.owing + 1 }
      else none
  | .give, s => if 0 < s.owing then some { s with owing := s.owing - 1, given := true } else none
  | .event e, s =>
      if s.handler = .idle ∧ s.events.length < queueLength then
        some { s with events := s.events ++ [e], handler := .sent e, last := some e }
      else none
  | .drop e, s =>
      if s.handler = .idle ∧ queueLength ≤ s.events.length then
        some { s with handler := .sent e, last := some e, dropped := true }
      else none
  | .eventGive, s =>
      match s.handler with
      | .sent e => some { s with handler := .given e, given := true }
      | _ => none
  | .eventDone, s =>
      match s.handler with
      | .given e => some { s with handler := .idle, connected := e == .connected }
      | _ => none
  | .userDisconnect, s => some { s with userDisconnected := true }

/-! ## The thread's calls -/

/-- What is left of the shared state when a call is answered so, if it can be. -/
def answer : (o : Op) → Resp o → Shared → Option Shared
  | .waitCommand, cmd, s =>
      if s.commands.head? = some cmd then some { s with commands := s.commands.tail } else none
  | .pollCommand, c, s =>
      if s.commands.head? = c then some { s with commands := s.commands.tail } else none
  | .waitEvent, e, s =>
      if s.events.head? = some e then some { s with events := s.events.tail } else none
  | .pollEvent, e, s =>
      if s.events.head? = e then some { s with events := s.events.tail } else none
  | .takeSemaphore ticks, taken, s =>
      if taken then if s.given then some { s with given := false } else none
      else if s.given = false ∧ ticks ≠ none then some s else none
  | .readConnected, c, s => if s.connected = c then some s else none
  | .readUserDisconnected, u, s => if s.userDisconnected = u then some s else none
  | .clearUserDisconnected, _, s => some { s with userDisconnected := false }
  | _, _, s => some s

/-! ## What the thread has heard -/

/-- What the answers have told the thread: the last event it has taken in the run, and
    of the current walk the command, whether the driver has accepted an attempt whose
    event is still to be taken, whether the last event it waited for was the connect of
    such an attempt, whether the queue was polled for one, and whether the user has
    asked for a disconnect. -/
structure Ear where
  heard : Option ConnectEvent
  command : Option CommandCode
  accepted : Bool
  joined : Bool
  polled : Bool
  asked : Bool
  deriving DecidableEq, Repr

namespace Ear

/-- Before the thread has heard anything. -/
def start : Ear := ⟨none, none, false, false, false, false⟩

/-- A new walk begins. -/
def fresh (e : Ear) : Ear := ⟨e.heard, none, false, false, false, false⟩

/-- How a call and its answer change it. -/
def next : (o : Op) → Resp o → Ear → Ear
  | .espConnect, ok, e => { e with accepted := ok }
  | .waitEvent, ev, e =>
      { e with heard := some ev, joined := e.accepted && ev == .connected, accepted := false }
  | .pollEvent, some ev, e => { e with heard := some ev, polled := true }
  | .waitCommand, cmd, e => { e with command := some cmd.command }
  | .pollCommand, some cmd, e => { e with command := some cmd.command }
  | .readUserDisconnected, u, e => { e with asked := u }
  | _, _, e => e

end Ear

/-! ## Runs -/

/-- Where the thread is: at the top of an iteration, in the check behind it, or on the
    walk that the check chose. -/
inductive Place where
  | top (v : Vars)
  | checking (state : ConnectState) (p : Connector.Task Vars)
  | walking (rung : ConnectState) (p : Connector.Task Vars)

/-- The thread, what it shares and what it has heard. -/
structure System where
  place : Place
  shared : Shared
  ear : Ear

/-- Terms a run may be held to: when the semaphore is taken, behind the check, and at
    the end of a walk. -/
structure Terms where
  take : Shared → Prop
  check : ConnectState → Ear → Prop
  walk : ConnectState → Ear → Prop

/-- No terms at all. -/
def Terms.none : Terms := ⟨fun _ => True, fun _ _ => True, fun _ _ => True⟩

/-- The semaphore is only taken on the terms. -/
def Terms.lets (t : Terms) (o : Op) (r : Resp o) (s : Shared) : Prop :=
  match o, r with
  | .takeSemaphore _, taken => taken = true → t.take s
  | _, _ => True

/-- The thread among the others, on the given terms. -/
def shared (t : Terms) : Interference.Setting Op Resp Shared where
  others s s' := ∃ a : Act, a.step s = some s'
  answers o s r s' := answer o r s = some s' ∧ t.lets o r s

/-- What a run comes to, step by step, on the given terms. -/
inductive Reached (t : Terms) : System → Prop where
  | boot : Reached t ⟨.top Vars.start, .start, .start⟩
  | other {c : System} {s : Shared} (a : Act) :
      Reached t c → a.step c.shared = some s → Reached t { c with shared := s }
  | check {v : Vars} {s : Shared} {e : Ear} :
      Reached t ⟨.top v, s, e⟩ → Reached t ⟨.checking v.state (checkDisconnect v), s, e⟩
  | checkCall {state : ConnectState} {o : Op} {k : Resp o → Connector.Task Vars} {s s' : Shared} {e : Ear}
      (r : Resp o) :
      Reached t ⟨.checking state (.call o k), s, e⟩ → answer o r s = some s' →
        Reached t ⟨.checking state (k r), s', e.next o r⟩
  | turn {state : ConnectState} {v : Vars} {s : Shared} {e : Ear} :
      Reached t ⟨.checking state (.ret v), s, e⟩ → t.check state e →
        Reached t ⟨.walking v.state (walk v), s, e.fresh⟩
  | walkCall {rung : ConnectState} {o : Op} {k : Resp o → Connector.Task Vars} {s s' : Shared} {e : Ear}
      (r : Resp o) :
      Reached t ⟨.walking rung (.call o k), s, e⟩ → answer o r s = some s' → t.lets o r s →
        Reached t ⟨.walking rung (k r), s', e.next o r⟩
  | round {rung : ConnectState} {v : Vars} {s : Shared} {e : Ear} :
      Reached t ⟨.walking rung (.ret v), s, e⟩ → t.walk rung e → Reached t ⟨.top v, s, e⟩

/-! ## The property -/

/-- Some sender is between its send and its give. -/
def Shared.Promised (s : Shared) : Prop := 0 < s.owing ∨ ∃ e, s.handler = .sent e

/-- The thread is blocked on a semaphore that is not given, in this state. -/
def System.Blocked (c : System) (state : ConnectState) : Prop :=
  c.shared.given = false ∧
    ∃ ticks k, c.place = .walking state (.call (.takeSemaphore ticks) k)

/-- While the thread is blocked and nobody is to give the semaphore both queues are
    empty; and if no event was dropped the state is `Connected` exactly when the last
    event was a connect. -/
def System.Right (c : System) : Prop :=
  ∀ state, c.Blocked state → ¬ c.shared.Promised →
    c.shared.commands = [] ∧ c.shared.events = [] ∧
      (c.shared.dropped = false → (state = .connected ↔ c.shared.last = some .connected))

end Wakeup
