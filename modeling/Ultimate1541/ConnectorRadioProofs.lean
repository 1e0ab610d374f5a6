import Ultimate1541.ConnectorProofs

/-! # The connector and its radio

    The state of `connect_thread` is to tell whether the radio runs.  `radio` watches
    the calls of the thread: it keeps the last successful start or stop, whether an
    enable is still to be tried, and what the answers of the current walk have shown.
    Most rungs of the ladder keep state and radio together; three of them may part
    them, and `Allowed` says on which answers they do not. -/

namespace Connector

open Interaction Interaction.Prog

/-- What the answers of one walk have shown. -/
structure Seen where
  command : Option CommandCode
  startOk : Bool
  stopOk : Bool
  accepted : Bool
  joined : Bool
  deriving DecidableEq, Repr

/-- Nothing yet. -/
def Seen.nothing : Seen := ⟨none, false, false, false, false⟩

/-- The radio, as the calls and their answers have it: it is stopped, or not; and the
    thread owes it an attempt to start. -/
structure Radio where
  stopped : Bool
  owes : Bool
  seen : Seen
  deriving DecidableEq, Repr

namespace Radio

/-- When `connect_thread` starts the radio runs. -/
def boot : Radio := ⟨false, false, .nothing⟩

/-- A command is taken; an enable is owed if the radio is stopped. -/
def takes (s : Radio) (c : CommandCode) : Radio :=
  ⟨s.stopped, s.owes || (s.stopped && c == .wifiEnable), { s.seen with command := some c }⟩

/-- How a call and its answer change it. -/
def next : (o : Op) → Resp o → Radio → Radio
  | .espStart, ok, s => ⟨s.stopped && !ok, false, { s.seen with startOk := s.seen.startOk || ok }⟩
  | .espStop, ok, s => ⟨s.stopped || ok, s.owes, { s.seen with stopOk := s.seen.stopOk || ok }⟩
  | .espConnect, ok, s => ⟨s.stopped, s.owes, { s.seen with accepted := ok }⟩
  | .waitEvent, e, s =>
      ⟨s.stopped, s.owes, { s.seen with joined := s.seen.accepted && e == .connected }⟩
  | .waitCommand, cmd, s => s.takes cmd.command
  | .pollCommand, some cmd, s => s.takes cmd.command
  | _, _, s => s

/-- A call that may be made: no connection on a stopped radio, and nothing before the
    start that is owed. -/
def Permits (s : Radio) (o : Op) : Prop :=
  (o = .espConnect → s.stopped = false) ∧ (s.owes = true → o = .espStart)

/-- The radio runs, and has not been stopped in this walk. -/
def On (s : Radio) : Prop := s.stopped = false ∧ s.owes = false ∧ s.seen.stopOk = false

theorem On.permits {s : Radio} (h : s.On) (o : Op) : s.Permits o :=
  ⟨fun _ => h.1, fun howes => absurd (h.2.1.symm.trans howes) (by simp)⟩

/-- Only a stop can end it. -/
theorem On.next {s : Radio} (h : s.On) {o : Op} (ho : o ≠ .espStop) (r : Resp o) :
    (next o r s).On := by
  obtain ⟨hstopped, howes, hstop⟩ := h
  cases o with
  | espStop => exact absurd rfl ho
  | pollCommand => cases r <;> simp [Radio.next, takes, On, hstopped, howes, hstop]
  | _ => simp [Radio.next, takes, On, hstopped, howes, hstop]

end Radio

/-- The watcher that keeps the radio. -/
def radio : Watcher Op Resp Radio where
  ok o s := s.Permits o
  next := Radio.next

@[simp] theorem radio_ok (o : Op) (s : Radio) : radio.ok o s = s.Permits o := rfl

@[simp] theorem radio_next (o : Op) (r : Resp o) (s : Radio) : radio.next o r s = Radio.next o r s :=
  rfl

/-- The state tells what the radio does, and no start is owed. -/
def Agrees (state : ConnectState) (s : Radio) : Prop := state = .disabled ↔ s.stopped = true

/-- The answers on which a walk from `rung` ends with state and radio together: no
    disable succeeded while the lists were tried; and where a disabled radio was
    started, the thread was asked to start it, or the connection it was asked for came
    about. -/
def Allowed (rung : ConnectState) (s : Radio) : Prop :=
  match rung with
  | .scannedAPs | .storedAPs => s.seen.stopOk = false
  | .disabled =>
      s.seen.startOk = true →
        s.seen.command = some .wifiEnable ∨ s.seen.command = some .wifiAutoconnect ∨
          s.seen.joined = true
  | _ => True

/-- What a walk from `rung` leaves: nothing owed, and agreement exactly where it is
    allowed. -/
def Exact (rung : ConnectState) (v : Vars) (s : Radio) : Prop :=
  s.owes = false ∧ (Agrees v.state s ↔ Allowed rung s)

/-! ## With the radio on -/

section On

variable {α : Type} {Q : α → Radio → Prop} {s : Radio}

/-- The rule for a call that is no stop. -/
theorem on_call {o : Op} {k : Resp o → Task α} (hs : s.On) (ho : o ≠ .espStop)
    (h : ∀ r s', s'.On → Safe radio Q (k r) s') : Safe radio Q (.call o k) s :=
  Safe.call (hs.permits o) fun r => h r _ (hs.next ho r)

theorem leave_on (hs : s.On) : Safe radio (fun _ s' => s'.On) leave s := by
  refine on_call hs (by simp) fun connected s hs => ?_
  cases connected with
  | false => exact hs
  | true =>
      refine on_call hs (by simp) fun ok s hs => ?_
      cases ok with
      | false => exact hs
      | true => exact on_call hs (by simp) fun _ _ hs => hs

theorem attemptConnect_on (hs : s.On) (ssid pw : List UInt8) (authMode : UInt8) :
    Safe radio (fun _ s' => s'.On) (attemptConnect ssid pw authMode) s := by
  refine (leave_on hs).andThen fun _ s hs => ?_
  refine on_call hs (by simp) fun ok s hs => ?_
  cases ok with
  | false => exact hs
  | true => exact on_call hs (by simp) fun _ _ hs => hs

theorem wifiScan_on (hs : s.On) : Safe radio (fun _ s' => s'.On) wifiScan s := by
  refine on_call hs (by simp) fun started s hs => ?_
  cases started with
  | false => exact hs
  | true =>
      refine on_call hs (by simp) fun num s hs => ?_
      obtain ⟨ok, n⟩ := num
      cases ok with
      | false => exact hs
      | true =>
          refine on_call hs (by simp) fun ok s hs => ?_
          cases ok <;> exact hs

/-- A connection to a stored access point leaves the state and the radio. -/
theorem wifiConnectToStored_on (hs : s.On) (index : Int) (v : Vars) :
    Safe radio (fun r s' => s'.On ∧ r.2.state = v.state) (wifiConnectToStored index v) s := by
  rw [wifiConnectToStored]
  split
  · exact ⟨hs, rfl⟩
  · refine on_call hs (by simp) fun stored s hs => ?_
    rcases stored with _ | ⟨ssid, pw, authMode⟩
    · exact ⟨hs, rfl⟩
    · exact (attemptConnect_on hs ssid pw authMode).andThen fun _ _ hs => ⟨hs, rfl⟩

theorem wifiConnectToLast_on (hs : s.On) (v : Vars) :
    Safe radio (fun r s' => s'.On ∧ r.2.state = v.state) (wifiConnectToLast v) s := by
  refine on_call hs (by simp) fun last s hs => ?_
  cases last with
  | none => exact ⟨hs, rfl⟩
  | some index =>
      show Safe radio _ (if index ≥ 0 then wifiConnectToStored index v else Prog.ret (true, v)) s
      split
      · exact wifiConnectToStored_on hs index v
      · exact ⟨hs, rfl⟩

theorem wifiConnectToScanned_on (hs : s.On) (index : Nat) (v : Vars) :
    Safe radio (fun r s' => s'.On ∧ r.2.state = v.state) (wifiConnectToScanned index v) s := by
  refine on_call hs (by simp) fun ap s hs => ?_
  refine on_call hs (by simp) fun p s hs => ?_
  show Safe radio _ (ite (mayConnect ap.2 p (p.pw.getD v.last.pw) = true) _ _) s
  split
  · exact (attemptConnect_on hs ap.1 (p.pw.getD v.last.pw) ap.2).andThen fun _ _ hs => ⟨hs, rfl⟩
  · exact ⟨hs, rfl⟩

theorem wifiConnectToHotspot_on (hs : s.On) (v : Vars) :
    Safe radio (fun r s' => s'.On ∧ r.2.state = v.state) (wifiConnectToHotspot v) s := by
  refine on_call hs (by simp) fun ap s hs => ?_
  exact (attemptConnect_on hs ap.1 ap.2 3).andThen fun _ _ hs => ⟨hs, rfl⟩

end On

/-! ## Commands that come in with the radio on -/

/-- The radio was stopped in this walk, and the state says so. -/
def Off (state : ConnectState) (s : Radio) : Prop :=
  state = .disabled ∧ s.stopped = true ∧ s.owes = false ∧ s.seen.stopOk = true

/-- A walk with the radio on goes on with it, or a disable has ended it. -/
def OnOrOff (state : ConnectState) (s : Radio) : Prop :=
  (s.On ∧ state ≠ .disabled) ∨ Off state s

/-- The same behind a command, where a disable also leaves the loop. -/
def Handled (r : Bool × Vars) (s : Radio) : Prop :=
  (s.On ∧ r.2.state ≠ .disabled) ∨ (r.1 = true ∧ Off r.2.state s)

theorem Handled.onOrOff {r : Bool × Vars} {s : Radio} (h : Handled r s) : OnOrOff r.2.state s :=
  h.imp id And.right

/-- A loop that goes on has the radio on. -/
theorem Handled.on {r : Bool × Vars} {s : Radio} (h : Handled r s) (hr : r.1 = false) :
    s.On ∧ r.2.state ≠ .disabled := by
  rcases h with h | ⟨hleft, -⟩
  · exact h
  · exact absurd (hr.symm.trans hleft) (by simp)

section Commands

variable {s : Radio} {v : Vars}

theorem enableWifiIfNeeded_on {state : ConnectState} (h : state ≠ .disabled) :
    enableWifiIfNeeded state = .ret true := if_neg h

theorem disconnectForDisable_on (hs : s.On) (hv : v.state ≠ .disabled) :
    Safe radio (fun v' s' => s'.On ∧ v'.state ≠ .disabled) (disconnectForDisable v) s := by
  rw [disconnectForDisable]
  by_cases hc : v.state = .connected
  · rw [if_pos hc]
    refine on_call hs (by simp) fun ok s hs => ?_
    cases ok with
    | false => exact ⟨hs, hv⟩
    | true =>
        refine on_call hs (by simp) fun e s hs => ?_
        cases e with
        | connected => exact ⟨hs, hv⟩
        | disconnected => exact ⟨hs, by simp⟩
  · rw [if_neg hc]
    exact ⟨hs, hv⟩

theorem handleDisable_on (hs : s.On) (hv : v.state ≠ .disabled) :
    Safe radio Handled (handleDisable v) s := by
  refine (disconnectForDisable_on hs hv).andThen fun v s h => ?_
  obtain ⟨hs, hv⟩ := h
  refine Safe.call (hs.permits .espStop) fun ok => ?_
  cases ok with
  | false => exact .inl ⟨by simpa [Radio.On, Radio.next] using hs, hv⟩
  | true =>
      -- The two calls behind the stop leave the radio alone.
      refine Safe.call ⟨nofun, fun h => ?_⟩ fun _ => Safe.call ⟨nofun, fun h => ?_⟩ fun _ => ?_
      · exact absurd (hs.2.1.symm.trans h) (by simp)
      · exact absurd (hs.2.1.symm.trans h) (by simp)
      · exact .inr ⟨rfl, rfl, by simp [Radio.next], by simpa [Radio.next] using hs.2.1,
          by simp [Radio.next]⟩

theorem handleEnable_on (hs : s.On) (hv : v.state ≠ .disabled) :
    Safe radio Handled (handleEnable v) s := by
  rw [handleEnable, if_neg hv]
  exact .inl ⟨hs, hv⟩

theorem handleScan_on (hs : s.On) (hv : v.state ≠ .disabled) (cmd : ConnectCommand) :
    Safe radio Handled (handleScan cmd v) s := by
  rw [handleScan, enableWifiIfNeeded_on hv]
  refine (wifiScan_on hs).andThen fun r s hs => ?_
  exact on_call hs (by simp) fun _ _ hs => .inl ⟨hs, hv⟩

theorem handleAutoconnect_on (hs : s.On) (hv : v.state ≠ .disabled) :
    Safe radio Handled (handleAutoconnect v) s := by
  rw [handleAutoconnect, enableWifiIfNeeded_on hv]
  exact on_call hs (by simp) fun _ _ hs => .inl ⟨hs, by simp⟩

theorem awaitConnection_on (hs : s.On) (hv : v.state ≠ .disabled) (cmd : ConnectCommand) :
    Safe radio Handled (awaitConnection cmd v) s := by
  refine on_call hs (by simp) fun e s hs => ?_
  cases e with
  | disconnected => exact .inl ⟨hs, hv⟩
  | connected =>
      refine on_call hs (by simp) fun stored s hs => ?_
      obtain ⟨ok, index⟩ := stored
      cases ok with
      | false => exact .inl ⟨hs, by simp⟩
      | true => exact on_call hs (by simp) fun _ _ hs => .inl ⟨hs, by simp⟩

theorem handleConnect_on (hs : s.On) (hv : v.state ≠ .disabled) (cmd : ConnectCommand) :
    Safe radio Handled (handleConnect cmd v) s := by
  rw [handleConnect, enableWifiIfNeeded_on hv]
  refine on_call hs (by simp) fun _ s hs => ?_
  refine (attemptConnect_on hs cmd.ssid cmd.pw cmd.authMode).andThen fun ok s hs => ?_
  refine on_call hs (by simp) fun _ s hs => ?_
  cases ok with
  | false => exact .inl ⟨hs, hv⟩
  | true =>
      have hv' : ({ v with last := ⟨cmd.ssid, cmd.pw, cmd.authMode, -1⟩ } : Vars).state ≠ .disabled :=
        hv
      exact awaitConnection_on hs hv' cmd

/-- Every command, taken by a rung that is not `Disabled`. -/
theorem handleConnectCommand_on (hs : s.On) (hv : v.state ≠ .disabled) (cmd : ConnectCommand) :
    Safe radio Handled (handleConnectCommand cmd v) s := by
  rw [handleConnectCommand]
  cases cmd.command with
  | wifiDisable => exact handleDisable_on hs hv
  | wifiEnable => exact handleEnable_on hs hv
  | wifiScan => exact handleScan_on hs hv cmd
  | wifiAutoconnect => exact handleAutoconnect_on hs hv
  | wifiConnect => exact handleConnect_on hs hv cmd
  | unknown code => exact .inl ⟨hs, hv⟩

theorem pollForCommand_on (hs : s.On) (hv : v.state ≠ .disabled) :
    Safe radio Handled (pollForCommand v) s := by
  refine on_call hs (by simp) fun c s hs => ?_
  cases c with
  | none => exact .inl ⟨hs, hv⟩
  | some cmd => exact handleConnectCommand_on hs hv cmd

end Commands

/-! ## The rungs -/

section Rungs

variable {s : Radio} {v : Vars}

/-- A rung on which no command is taken. -/
theorem OnOrOff.agrees {state : ConnectState} {s : Radio} (h : OnOrOff state s) :
    s.owes = false ∧ Agrees state s := by
  rcases h with ⟨⟨hstopped, howes, -⟩, hstate⟩ | ⟨hstate, hstopped, howes, -⟩
  · exact ⟨howes, iff_of_false hstate (by simp [hstopped])⟩
  · exact ⟨howes, iff_of_true hstate hstopped⟩

/-- A rung that overwrites what a disable has set. -/
theorem OnOrOff.overwritten {state next : ConnectState} {s : Radio} (h : OnOrOff state s)
    (hnext : next ≠ .disabled) : s.owes = false ∧ (Agrees next s ↔ s.seen.stopOk = false) := by
  rcases h with ⟨⟨hstopped, howes, hstop⟩, -⟩ | ⟨-, hstopped, howes, hstop⟩
  · exact ⟨howes, iff_of_true (iff_of_false hnext (by simp [hstopped])) hstop⟩
  · refine ⟨howes, iff_of_false (fun h => hnext (h.mpr hstopped)) (by simp [hstop])⟩

theorem lastAP_on (hs : s.On) : Safe radio (fun v' s' => OnOrOff v'.state s') (lastAP v) s := by
  refine (wifiConnectToLast_on hs v).andThen fun r s h => ?_
  obtain ⟨ok, v⟩ := r
  cases ok with
  | false => exact .inl ⟨h.1, by simp⟩
  | true =>
      refine on_call h.1 (by simp) fun e s hs => .inl ⟨hs, ?_⟩
      cases e <;> simp

theorem scanning_on (hs : s.On) : Safe radio (fun v' s' => OnOrOff v'.state s') (scanning v) s :=
  (wifiScan_on hs).andThen fun _ _ hs => .inl ⟨hs, by simp⟩

theorem tryScanned_on (hs : s.On) (hv : v.state ≠ .disabled) (i : Nat) :
    Safe radio Handled (tryScanned i v) s := by
  refine (pollForCommand_on hs hv).andThen fun handled s h => ?_
  obtain ⟨left, v⟩ := handled
  cases left with
  | true => exact h
  | false =>
      obtain ⟨hs, hv⟩ := h.on rfl
      refine (wifiConnectToScanned_on hs i v).andThen fun r s h => ?_
      obtain ⟨ok, v'⟩ := r
      obtain ⟨hs, hstate⟩ := h
      have hv' : v'.state ≠ .disabled := fun hoff => hv (hstate.symm.trans hoff)
      cases ok with
      | false => exact .inl ⟨hs, hv'⟩
      | true =>
          refine on_call hs (by simp) fun e s hs => ?_
          cases e with
          | disconnected => exact .inl ⟨hs, hv'⟩
          | connected =>
              show Safe radio _ (ite (v'.last.listIndex ≥ 0) _ _) s
              split
              · exact on_call hs (by simp) fun _ _ hs => .inl ⟨hs, by simp⟩
              · exact .inl ⟨hs, by simp⟩

theorem scannedLoop_on (rounds : Nat) : ∀ (i : Nat) (v : Vars) (s : Radio), s.On →
    v.state ≠ .disabled →
    Safe radio (fun v' s' => OnOrOff v'.state s') (scannedLoop rounds i v) s := by
  induction rounds with
  | zero => exact fun i v s hs hv => .inl ⟨hs, hv⟩
  | succ rounds ih =>
      intro i v s hs hv
      rw [scannedLoop]
      split
      · refine (tryScanned_on hs hv i).andThen fun r s h => ?_
        obtain ⟨left, v⟩ := r
        cases left with
        | true => exact h.onOrOff
        | false => exact ih (i + 1) v s (h.on rfl).1 (h.on rfl).2
      · exact .inl ⟨hs, hv⟩

/-- `ScannedAPs` goes on to `StoredAPs` even behind a disable. -/
theorem scannedAPs_exact (hs : s.On) (hv : v.state ≠ .disabled) :
    Safe radio (Exact .scannedAPs) (scannedAPs v) s := by
  refine (scannedLoop_on 65536 0 v s hs hv).andThen fun v s h => h.overwritten ?_
  by_cases hc : v.state = .connected <;> simp [hc]

theorem tryStored_on (hs : s.On) (hv : v.state ≠ .disabled) (i : Nat) :
    Safe radio Handled (tryStored i v) s := by
  refine (pollForCommand_on hs hv).andThen fun handled s h => ?_
  obtain ⟨left, v⟩ := handled
  cases left with
  | true => exact h
  | false =>
      obtain ⟨hs, hv⟩ := h.on rfl
      refine (wifiConnectToStored_on hs i v).andThen fun r s h => ?_
      obtain ⟨ok, v'⟩ := r
      obtain ⟨hs, hstate⟩ := h
      have hv' : v'.state ≠ .disabled := fun hoff => hv (hstate.symm.trans hoff)
      cases ok with
      | false => exact .inl ⟨hs, hv'⟩
      | true =>
          refine on_call hs (by simp) fun e s hs => ?_
          cases e with
          | disconnected => exact .inl ⟨hs, hv'⟩
          | connected => exact on_call hs (by simp) fun _ _ hs => .inl ⟨hs, by simp⟩

theorem storedLoop_on (rounds : Nat) : ∀ (i : Nat) (v : Vars) (s : Radio), s.On →
    v.state ≠ .disabled →
    Safe radio (fun v' s' => OnOrOff v'.state s') (storedLoop rounds i v) s := by
  induction rounds with
  | zero => exact fun i v s hs hv => .inl ⟨hs, hv⟩
  | succ rounds ih =>
      intro i v s hs hv
      rw [storedLoop]
      refine (tryStored_on hs hv i).andThen fun r s h => ?_
      obtain ⟨left, v⟩ := r
      cases left with
      | true => exact h.onOrOff
      | false => exact ih (i + 1) v s (h.on rfl).1 (h.on rfl).2

/-- Behind a disable the hotspot is not tried. -/
theorem tryHotspot_on (h : OnOrOff v.state s) :
    Safe radio (fun v' s' => OnOrOff v'.state s') (tryHotspot v) s := by
  rw [tryHotspot]
  by_cases hv : v.state = .storedAPs
  · rw [if_pos hv]
    have hs : s.On := by
      rcases h with ⟨hs, -⟩ | ⟨hoff, -⟩
      · exact hs
      · exact absurd (hv.symm.trans hoff) (by simp)
    have hne : v.state ≠ .disabled := by simp [hv]
    refine on_call hs (by simp) fun running s hs => ?_
    cases running with
    | false => exact .inl ⟨hs, hne⟩
    | true =>
        refine (wifiConnectToHotspot_on hs v).andThen fun r s h => ?_
        obtain ⟨ok, v'⟩ := r
        obtain ⟨hs, hstate⟩ := h
        have hne' : v'.state ≠ .disabled := fun hoff => hne (hstate.symm.trans hoff)
        cases ok with
        | false => exact .inl ⟨hs, hne'⟩
        | true =>
            refine on_call hs (by simp) fun e s hs => .inl ⟨hs, ?_⟩
            cases e with
            | connected => simp
            | disconnected => exact hne'
  · rw [if_neg hv]
    exact h

/-- `StoredAPs` goes on to `Disconnected` even behind a disable. -/
theorem storedAPs_exact (hs : s.On) (hv : v.state ≠ .disabled) :
    Safe radio (Exact .storedAPs) (storedAPs v) s := by
  refine (storedLoop_on 16 0 v s hs hv).andThen fun v s h => ?_
  refine (tryHotspot_on h).andThen fun v s h => h.overwritten ?_
  by_cases hc : v.state = .connected <;> simp [hc]

theorem serve_on (hs : s.On) (hv : v.state ≠ .disabled) :
    Safe radio (fun v' s' => OnOrOff v'.state s') (serve v) s := by
  refine (pollForCommand_on hs hv).andThen fun handled s h => ?_
  obtain ⟨left, v⟩ := handled
  cases left with
  | true => exact h.onOrOff
  | false =>
      obtain ⟨hs, hv⟩ := h.on rfl
      refine on_call hs (by simp) fun e s hs => ?_
      rcases e with _ | _ | _
      · exact .inl ⟨hs, hv⟩
      · exact .inl ⟨hs, by simp⟩
      · exact .inl ⟨hs, by simp⟩

theorem idle_on (hs : s.On) (hv : v.state ≠ .disabled) :
    Safe radio (fun v' s' => OnOrOff v'.state s') (idle v) s := by
  refine on_call hs (by simp) fun asked s hs => ?_
  refine on_call hs (by simp) fun woken s hs => ?_
  cases woken with
  | false => exact .inl ⟨hs, by simp⟩
  | true =>
      refine serve_on hs ?_
      by_cases hc : v.state = .connected <;> simp [hc, hv]

end Rungs

/-! ## With the radio off -/

/-- The radio as `Disabled` finds it behind the command it took. -/
def Radio.asked (c : CommandCode) : Radio :=
  ⟨true, c == .wifiEnable, { Seen.nothing with command := some c }⟩

/-- The same with the start that the command brought about. -/
def Radio.started (c : CommandCode) : Radio :=
  ⟨false, false, { Seen.nothing with command := some c, startOk := true }⟩

section Off

variable {s : Radio} {v : Vars}

/-- With the radio off, and no enable owed. -/
theorem permits_off {o : Op} (howes : s.owes = false) (ho : o ≠ .espConnect) : s.Permits o :=
  ⟨fun h => absurd h ho, fun h => absurd (howes.symm.trans h) (by simp)⟩

/-- Starting the radio: it runs, or nothing has changed but that the start is no longer
    owed. -/
theorem enableWifiIfNeeded_off {α : Type} {Q : α → Radio → Prop} {k : Bool → Task α}
    {c : CommandCode} (hok : Safe radio Q (k true) (Radio.started c))
    (hfail : Safe radio Q (k false) ⟨true, false, (Radio.asked c).seen⟩) :
    Safe radio Q ((enableWifiIfNeeded .disabled).andThen k) (Radio.asked c) := by
  refine Safe.call ⟨nofun, fun _ => rfl⟩ fun ok => ?_
  cases ok with
  | false => exact hfail
  | true =>
      exact Safe.call (permits_off rfl (by simp)) fun _ =>
        Safe.call (permits_off rfl (by simp)) fun _ => hok

theorem handleDisable_off (hv : v.state = .disabled) :
    Safe radio (fun r s' => Exact .disabled r.2 s') (handleDisable v) (Radio.asked .wifiDisable) := by
  have hstay : disconnectForDisable v = .ret v := if_neg (by simp [hv])
  rw [handleDisable, hstay]
  refine Safe.call (permits_off rfl (by simp)) fun ok => ?_
  cases ok with
  | false =>
      refine ⟨rfl, iff_of_true (iff_of_true hv rfl) ?_⟩
      simp [Allowed, Radio.next, Radio.asked, Seen.nothing]
  | true =>
      refine Safe.call (permits_off rfl (by simp)) fun _ =>
        Safe.call (permits_off rfl (by simp)) fun _ => ⟨rfl, ?_⟩
      exact iff_of_true (iff_of_true rfl rfl) fun h => absurd h (by simp [Radio.next, Radio.asked, Seen.nothing])

theorem handleEnable_off (hv : v.state = .disabled) :
    Safe radio (fun r s' => Exact .disabled r.2 s') (handleEnable v) (Radio.asked .wifiEnable) := by
  rw [handleEnable, if_pos hv]
  refine Safe.call ⟨nofun, fun _ => rfl⟩ fun ok => ?_
  cases ok with
  | false => exact ⟨rfl, iff_of_true (iff_of_true hv rfl) fun _ => .inl rfl⟩
  | true =>
      refine Safe.call (permits_off rfl (by simp)) fun _ =>
        Safe.call (permits_off rfl (by simp)) fun _ => ⟨rfl, ?_⟩
      exact iff_of_true (iff_of_false nofun nofun) fun _ => .inl rfl

/-- Calls that only a scan makes. -/
theorem wifiScan_quiet (hs : s.owes = false) :
    Safe radio (fun _ s' => s' = s) wifiScan s := by
  refine Safe.call (permits_off hs (by simp)) fun started => ?_
  cases started with
  | false => rfl
  | true =>
      refine Safe.call (permits_off hs (by simp)) fun num => ?_
      obtain ⟨ok, n⟩ := num
      cases ok with
      | false => rfl
      | true =>
          refine Safe.call (permits_off hs (by simp)) fun ok => ?_
          cases ok <;> rfl

/-- A scan that starts the radio leaves `Disabled` as the state. -/
theorem handleScan_off (hv : v.state = .disabled) (cmd : ConnectCommand) :
    Safe radio (fun r s' => Exact .disabled r.2 s') (handleScan cmd v) (Radio.asked .wifiScan) := by
  rw [handleScan, hv]
  refine enableWifiIfNeeded_off ?_ ?_
  · refine (wifiScan_quiet rfl).andThen fun r s h => ?_
    subst h
    refine Safe.call (permits_off rfl (by simp)) fun _ => ⟨rfl, ?_⟩
    refine iff_of_false (fun h => absurd (h.mp rfl) nofun) fun h => ?_
    simpa [Radio.next, Radio.started, Seen.nothing] using h rfl
  · refine Safe.call (permits_off rfl (by simp)) fun _ => ⟨rfl, ?_⟩
    exact iff_of_true (iff_of_true hv rfl) nofun

theorem handleAutoconnect_off (hv : v.state = .disabled) :
    Safe radio (fun r s' => Exact .disabled r.2 s') (handleAutoconnect v)
      (Radio.asked .wifiAutoconnect) := by
  rw [handleAutoconnect, hv]
  refine Safe.call (permits_off rfl (by simp)) fun _ => enableWifiIfNeeded_off ?_ ?_
  · exact ⟨rfl, iff_of_true (iff_of_false nofun nofun) fun _ => .inr (.inl rfl)⟩
  · exact ⟨rfl, iff_of_true (iff_of_true hv rfl) nofun⟩

/-- Before the driver has accepted anything, an event only ends the old network. -/
theorem leave_quiet (hs : s.owes = false) (ha : s.seen.accepted = false)
    (hj : s.seen.joined = false) : Safe radio (fun _ s' => s' = s) leave s := by
  refine Safe.call (permits_off hs (by simp)) fun connected => ?_
  cases connected with
  | false => rfl
  | true =>
      refine Safe.call (permits_off hs (by simp)) fun ok => ?_
      cases ok with
      | false => rfl
      | true =>
          refine Safe.call (permits_off hs (by simp)) fun e => ?_
          obtain ⟨stopped, owes, command, startOk, stopOk, accepted, joined⟩ := s
          simp only at ha hj
          simp [Radio.next, ha, hj]

/-- The attempt on a radio that has just been started. -/
theorem attemptConnect_started (c : CommandCode) (ssid pw : List UInt8) (authMode : UInt8) :
    Safe radio (fun ok s' => s' = ⟨false, false, { (Radio.started c).seen with accepted := ok }⟩)
      (attemptConnect ssid pw authMode) (Radio.started c) := by
  refine (leave_quiet rfl rfl rfl).andThen fun _ s h => ?_
  subst h
  refine Safe.call (permits_off rfl (by simp)) fun ok => ?_
  cases ok with
  | false => rfl
  | true => exact Safe.call ⟨fun _ => rfl, nofun⟩ fun ok => rfl

/-- A connect that starts the radio leaves `Disabled` as the state, unless the
    connection comes about. -/
theorem handleConnect_off (hv : v.state = .disabled) (cmd : ConnectCommand) :
    Safe radio (fun r s' => Exact .disabled r.2 s') (handleConnect cmd v)
      (Radio.asked .wifiConnect) := by
  rw [handleConnect, hv]
  refine Safe.call (permits_off rfl (by simp)) fun _ => enableWifiIfNeeded_off ?_ ?_
  · refine (attemptConnect_started _ _ _ _).andThen fun ok s h => ?_
    subst h
    refine Safe.call (permits_off rfl (by simp)) fun _ => ?_
    -- The state is still `Disabled`, and the radio runs.
    have hparted : ∀ s' : Radio, s'.stopped = false → s'.seen.startOk = true →
        s'.seen.command = some .wifiConnect → s'.seen.joined = false →
        (Agrees .disabled s' ↔ Allowed .disabled s') := by
      intro s' hstopped hstart hcommand hjoined
      refine iff_of_false (fun h => ?_) fun h => ?_
      · exact absurd (hstopped.symm.trans (h.mp rfl)) (by simp)
      · simpa [hcommand, hjoined] using h hstart
    cases ok with
    | false => exact ⟨rfl, hparted _ rfl rfl rfl rfl⟩
    | true =>
        refine Safe.call (permits_off rfl (by simp)) fun e => ?_
        cases e with
        | disconnected => exact ⟨rfl, hparted _ rfl rfl rfl rfl⟩
        | connected =>
            have hdone : ∀ s' : Radio, s'.stopped = false → s'.seen.joined = true →
                (Agrees .connected s' ↔ Allowed .disabled s') := fun s' hstopped hjoined =>
              iff_of_true (iff_of_false nofun (by simp [hstopped])) fun _ => .inr (.inr hjoined)
            refine Safe.call (permits_off rfl (by simp)) fun stored => ?_
            obtain ⟨ok, index⟩ := stored
            cases ok with
            | false => exact ⟨rfl, hdone _ rfl rfl⟩
            | true =>
                exact Safe.call (permits_off rfl (by simp)) fun _ => ⟨rfl, hdone _ rfl rfl⟩
  · exact Safe.call (permits_off rfl (by simp)) fun _ =>
      ⟨rfl, iff_of_true (iff_of_true rfl rfl) nofun⟩

/-- Every command, taken by `Disabled`. -/
theorem disabled_exact (hv : v.state = .disabled) (hstopped : s.stopped = true)
    (howes : s.owes = false) (hseen : s.seen = .nothing) :
    Safe radio (Exact .disabled) (disabled v) s := by
  refine Safe.call (permits_off howes (by simp)) fun cmd => ?_
  have hs : radio.next .waitCommand cmd s = Radio.asked cmd.command := by
    simp [Radio.next, Radio.takes, Radio.asked, hstopped, howes, hseen]
  rw [hs]
  have hcommand : Safe radio (fun r s' => Exact .disabled r.2 s') (handleConnectCommand cmd v)
      (Radio.asked cmd.command) := by
    rw [handleConnectCommand]
    cases cmd.command with
    | wifiDisable => exact handleDisable_off hv
    | wifiEnable => exact handleEnable_off hv
    | wifiScan => exact handleScan_off hv cmd
    | wifiAutoconnect => exact handleAutoconnect_off hv
    | wifiConnect => exact handleConnect_off hv cmd
    | unknown code => exact ⟨rfl, iff_of_true (iff_of_true hv rfl) nofun⟩
  exact hcommand.andThen fun _ _ h => h

end Off

/-! ## What a walk does -/

/-- The check at the top keeps state and radio together. -/
theorem checkDisconnect_agrees {v : Vars} {s : Radio} (howes : s.owes = false)
    (h : Agrees v.state s) :
    Safe radio (fun v' s' => s'.owes = false ∧ Agrees v'.state s') (checkDisconnect v) s := by
  refine Safe.call (permits_off howes (by simp)) fun asked => ?_
  show Safe radio _ (ite ((asked && v.state != .disconnected && v.state != .disabled) = true) _ _) s
  split
  · next hgo =>
      have hon : s.stopped = false := by
        have hne : v.state ≠ .disabled := by simp_all
        simpa [Agrees, hne] using h
      have hagrees : Agrees .disconnected s := iff_of_false nofun (by simp [hon])
      refine Safe.call (permits_off howes (by simp)) fun connected => ?_
      cases connected with
      | false => exact ⟨howes, hagrees⟩
      | true => exact Safe.call (permits_off howes (by simp)) fun _ => ⟨howes, hagrees⟩
  · exact ⟨howes, h⟩

/-- From state and radio together, a walk leaves them so exactly where it is allowed. -/
theorem walk_exact {v : Vars} {s : Radio} (howes : s.owes = false) (hseen : s.seen = .nothing)
    (h : Agrees v.state s) : Safe radio (Exact v.state) (walk v) s := by
  have hon : v.state ≠ .disabled → s.On := fun hne =>
    ⟨by simpa [Agrees, hne] using h, howes, by simp [hseen, Seen.nothing]⟩
  -- On a rung that keeps them together whatever is answered.
  have hkept : ∀ {state : ConnectState} {p : Task Vars}, (∀ s', Allowed state s') →
      Safe radio (fun v' s' => OnOrOff v'.state s') p s → Safe radio (Exact state) p s :=
    fun hall hp => hp.mono fun v' s' h' =>
      ⟨h'.agrees.1, iff_of_true h'.agrees.2 (hall s')⟩
  rw [walk]
  cases hv : v.state with
  | lastAP => exact hkept (fun _ => trivial) (lastAP_on (hon (by simp [hv])))
  | scanning => exact hkept (fun _ => trivial) (scanning_on (hon (by simp [hv])))
  | scannedAPs => exact scannedAPs_exact (hon (by simp [hv])) (by simp [hv])
  | storedAPs => exact storedAPs_exact (hon (by simp [hv])) (by simp [hv])
  | connected => exact hkept (fun _ => trivial) (idle_on (hon (by simp [hv])) (by simp [hv]))
  | disconnected => exact hkept (fun _ => trivial) (idle_on (hon (by simp [hv])) (by simp [hv]))
  | disabled => exact disabled_exact hv (h.mp hv) howes hseen

/-! ## What a run does -/

/-- Where the thread is: at the top of an iteration, in the check behind it, or on the
    walk that the check chose. -/
inductive Place where
  | top (v : Vars)
  | checking (p : Task Vars)
  | walking (rung : ConnectState) (p : Task Vars)

/-- What a run comes to, call by call, if every walk of it ends with answers that
    `allowed` lets pass. -/
inductive Reached (allowed : ConnectState → Radio → Prop) : Place → Radio → Prop where
  | boot : Reached allowed (.top Vars.start) .boot
  | check {v : Vars} {s : Radio} :
      Reached allowed (.top v) s → Reached allowed (.checking (checkDisconnect v)) s
  | checkCall {o : Op} {k : Resp o → Task Vars} {s : Radio} (r : Resp o) :
      Reached allowed (.checking (.call o k)) s →
        Reached allowed (.checking (k r)) (radio.next o r s)
  | turn {v : Vars} {s : Radio} :
      Reached allowed (.checking (.ret v)) s →
        Reached allowed (.walking v.state (walk v)) { s with seen := .nothing }
  | walkCall {rung : ConnectState} {o : Op} {k : Resp o → Task Vars} {s : Radio} (r : Resp o) :
      Reached allowed (.walking rung (.call o k)) s →
        Reached allowed (.walking rung (k r)) (radio.next o r s)
  | round {rung : ConnectState} {v : Vars} {s : Radio} :
      Reached allowed (.walking rung (.ret v)) s → allowed rung s → Reached allowed (.top v) s

/-- At the top of an iteration the state is `Disabled` exactly when the radio is
    stopped, and every enable has been tried; no call is made that connects on a
    stopped radio or passes over the start that is owed. -/
def Right : Place → Radio → Prop
  | .top v, s => s.owes = false ∧ Agrees v.state s
  | .checking (.call o _), s => s.Permits o
  | .walking _ (.call o _), s => s.Permits o
  | _, _ => True

/-- The invariant of a run. -/
def Good : Place → Radio → Prop
  | .top v, s => s.owes = false ∧ Agrees v.state s
  | .checking p, s => Safe radio (fun v' s' => s'.owes = false ∧ Agrees v'.state s') p s
  | .walking rung p, s => Safe radio (Exact rung) p s

theorem Good.right {place : Place} {s : Radio} (h : Good place s) : Right place s := by
  cases place with
  | top v => exact h
  | checking p =>
      cases p with
      | ret v => exact trivial
      | call o k => exact h.1
  | walking rung p =>
      cases p with
      | ret v => exact trivial
      | call o k => exact h.1

theorem Reached.good {place : Place} {s : Radio} (h : Reached Allowed place s) : Good place s := by
  induction h with
  | boot => exact ⟨rfl, iff_of_false nofun nofun⟩
  | check _ ih => exact checkDisconnect_agrees ih.1 ih.2
  | checkCall r _ ih => exact ih.2 r
  | turn _ ih =>
      obtain ⟨howes, hagrees⟩ := ih
      exact walk_exact howes rfl hagrees
  | walkCall r _ ih => exact ih.2 r
  | round _ hallowed ih =>
      obtain ⟨howes, hexact⟩ := ih
      exact ⟨howes, hexact.mpr hallowed⟩

/-- In every run whose walks are allowed the state tells what the radio does, nothing
    connects on a stopped radio, and every enable of one is tried. -/
theorem radio_right {place : Place} {s : Radio} (h : Reached Allowed place s) : Right place s :=
  h.good.right

/-! ## Runs on given answers -/

/-- Answers given beforehand, one call after the other; the first that does not belong
    to the call that is made ends it. -/
def follow : List ((o : Op) × Resp o) → Task Vars → Radio → Task Vars × Radio
  | ⟨o, r⟩ :: rest, .call o' k, s =>
      if h : o = o' then follow rest (k (h ▸ r)) (radio.next o r s) else (.call o' k, s)
  | _, p, s => (p, s)

theorem Reached.walkFollow {allowed : ConnectState → Radio → Prop} {rung : ConnectState}
    (answers : List ((o : Op) × Resp o)) : ∀ (p : Task Vars) (s : Radio),
    Reached allowed (.walking rung p) s →
    Reached allowed (.walking rung (follow answers p s).1) (follow answers p s).2 := by
  induction answers with
  | nil => exact fun p s h => h
  | cons a rest ih =>
      intro p s h
      cases p with
      | ret v => exact h
      | call o k =>
          obtain ⟨o', r⟩ := a
          by_cases ho : o' = o
          · subst ho
            simpa [follow] using ih (k r) _ (h.walkCall r)
          · simpa [follow, ho] using h

/-- One iteration: nobody has asked for a disconnect, and the walk is answered so. -/
theorem Reached.iteration {allowed : ConnectState → Radio → Prop} {v v' : Vars} {s s' : Radio}
    (h : Reached allowed (.top v) s) (answers : List ((o : Op) × Resp o))
    (hwalk : follow answers (walk v) { s with seen := .nothing } = (.ret v', s'))
    (hallowed : allowed v.state s') : Reached allowed (.top v') s' := by
  have hchecked : Reached allowed (.checking (.ret v)) s := h.check.checkCall (o := .readUserDisconnected) false
  have hdone := hchecked.turn.walkFollow answers
  rw [hwalk] at hdone
  exact hdone.round hallowed

/-- A command without anything but its code. -/
def bare (command : CommandCode) : ConnectCommand := ⟨[], [], 0, command, 0, none⟩

/-- A connection to the last access point, and then a disable: the radio is stopped,
    and the state says so. -/
theorem radio_right_disabled :
    ∃ v s, Reached Allowed (.top v) s ∧ s.stopped = true ∧ Right (.top v) s := by
  have hconnected : Reached Allowed (.top { Vars.start with state := .connected, last := ⟨[], [], 3, 0⟩ })
      ⟨false, false, ⟨none, false, false, true, true⟩⟩ :=
    Reached.boot.iteration
      [⟨.readLast, some 0⟩, ⟨.readStored 0, some ([], [], 3)⟩, ⟨.readConnected, false⟩,
        ⟨.espSetConfig [] [] 3, true⟩, ⟨.espConnect, true⟩, ⟨.waitEvent, .connected⟩]
      rfl trivial
  have hdisabled : Reached Allowed (.top { Vars.start with state := .disabled, last := ⟨[], [], 3, 0⟩ })
      ⟨true, false, ⟨some .wifiDisable, false, true, false, false⟩⟩ :=
    hconnected.iteration
      [⟨.readUserDisconnected, false⟩, ⟨.takeSemaphore none, true⟩,
        ⟨.pollCommand, some (bare .wifiDisable)⟩, ⟨.espDisconnect, true⟩,
        ⟨.waitEvent, .disconnected⟩, ⟨.espStop, true⟩, ⟨.sendEvent .disabled, ()⟩,
        ⟨.setDisabled true, ()⟩]
      rfl trivial
  exact ⟨_, _, hdisabled, rfl, radio_right hdisabled⟩

/-- A disable that `ScannedAPs` takes: the radio is stopped, and the next iteration
    begins in `StoredAPs`. -/
theorem scannedAPs_overwrites_disabled :
    ∃ place s, Reached (fun _ _ => True) place s ∧ ¬ Right place s := by
  have hscanning : Reached (fun _ _ => True) (.top { Vars.start with state := .scanning }) .boot :=
    Reached.boot.iteration [⟨.readLast, none⟩] rfl trivial
  have hscanned : Reached (fun _ _ => True)
      (.top { Vars.start with state := .scannedAPs, apCount := 1 }) .boot :=
    hscanning.iteration
      [⟨.scanStart, true⟩, ⟨.scanGetApNum, (true, 1)⟩, ⟨.scanGetApRecords, true⟩] rfl trivial
  have hstored : Reached (fun _ _ => True)
      (.top { Vars.start with state := .storedAPs, apCount := 1 })
      ⟨true, false, ⟨some .wifiDisable, false, true, false, false⟩⟩ :=
    hscanned.iteration
      [⟨.pollCommand, some (bare .wifiDisable)⟩, ⟨.espStop, true⟩, ⟨.sendEvent .disabled, ()⟩,
        ⟨.setDisabled true, ()⟩] rfl trivial
  refine ⟨_, _, hstored, fun h => ?_⟩
  exact absurd (h.2.mpr rfl) (by simp)

end Connector
