import Ultimate1541.WakeupProofs

/-! # What the thread has heard, and its state

    The thread knows of the network only what it takes from its queue of events.  Each
    rung of the ladder is followed with what it has heard; at its end the state and the
    last event agree exactly where `Allowed` holds of what was heard. -/

namespace Wakeup

open Connector Interaction

/-- A call that does not take the semaphore. -/
def Leaves (o : Op) : Prop := ∀ ticks, o ≠ .takeSemaphore ticks

/-- The watcher of everything but the wait for the semaphore. -/
def quiet : Watcher Op Resp Ear := ⟨fun o _ => Leaves o, Ear.next⟩

/-- In a state where the thread waits for the semaphore the last event tells which of
    the two it is. -/
def Agrees (state : ConnectState) (e : Ear) : Prop :=
  (state = .connected → e.heard = some .connected) ∧
    (state = .disconnected → e.heard ≠ some .connected)

/-- What a walk may have heard at its end: the ladder gives up only on a network that it
    has been told the end of; and a connect command that was served while the thread
    waited leaves it where the last event has it, unless an event was served behind. -/
def Allowed (rung : ConnectState) (e : Ear) : Prop :=
  match rung with
  | .storedAPs => e.heard = some .connected → e.joined = true
  | .connected => e.command = some .wifiConnect → e.polled = true ∨ e.heard = some .connected
  | .disconnected =>
      e.command = some .wifiConnect →
        e.polled = true ∨ e.joined = true ∨ e.heard ≠ some .connected
  | _ => True

/-- What a walk from `rung` leaves: agreement exactly where it is allowed. -/
def Exact (rung : ConnectState) (v : Vars) (e : Ear) : Prop := Agrees v.state e ↔ Allowed rung e

/-! ## The Wi-Fi calls -/

namespace Ear

/-- No attempt is under way, and none has just succeeded. -/
def Calm (e : Ear) : Prop := e.accepted = false ∧ e.joined = false

/-- No command and no event was served meanwhile. -/
def Follows (e e' : Ear) : Prop := e'.command = e.command ∧ e'.polled = e.polled

/-- An attempt was made, and accepted or not. -/
def Attempted (e : Ear) (ok : Bool) (e' : Ear) : Prop :=
  e'.joined = false ∧ e'.accepted = ok ∧ e.Follows e'

theorem Attempted.calm {e e' : Ear} (h : e.Attempted false e') : e'.Calm := ⟨h.2.1, h.1⟩

theorem Follows.refl (e : Ear) : e.Follows e := ⟨rfl, rfl⟩

end Ear

section Calls

variable {e : Ear}

/-- The event that ends the old network is no answer to an attempt. -/
theorem leave_quiet (he : e.Calm) :
    Safe quiet (fun _ e' => e'.Calm ∧ e.Follows e') leave e := by
  refine Safe.call nofun fun connected => ?_
  cases connected with
  | false => exact ⟨he, .refl e⟩
  | true =>
      refine Safe.call nofun fun ok => ?_
      cases ok with
      | false => exact ⟨he, .refl e⟩
      | true =>
          refine Safe.call nofun fun ev => ?_
          exact ⟨⟨rfl, by simp [quiet, Ear.next, he.1]⟩, rfl, rfl⟩

theorem attemptConnect_quiet (he : e.Calm) (ssid pw : List UInt8) (authMode : UInt8) :
    Safe quiet (fun ok e' => e.Attempted ok e') (attemptConnect ssid pw authMode) e := by
  refine (leave_quiet he).andThen fun _ e' h => ?_
  refine Safe.call nofun fun ok => ?_
  cases ok with
  | false => exact ⟨h.1.2, h.1.1, h.2⟩
  | true => exact Safe.call nofun fun ok => ⟨h.1.2, rfl, h.2⟩

theorem wifiScan_quiet : Safe quiet (fun _ e' => e' = e) wifiScan e := by
  refine Safe.call nofun fun started => ?_
  cases started with
  | false => rfl
  | true =>
      refine Safe.call nofun fun num => ?_
      obtain ⟨ok, n⟩ := num
      cases ok with
      | false => rfl
      | true =>
          refine Safe.call nofun fun ok => ?_
          cases ok <;> rfl

/-- Connections to stored, scanned and other access points leave the state. -/
theorem wifiConnectToStored_quiet (he : e.Calm) (index : Int) (v : Vars) :
    Safe quiet (fun r e' => r.2.state = v.state ∧ e.Attempted r.1 e')
      (wifiConnectToStored index v) e := by
  rw [wifiConnectToStored]
  split
  · exact ⟨rfl, he.2, he.1, .refl e⟩
  · refine Safe.call nofun fun stored => ?_
    rcases stored with _ | ⟨ssid, pw, authMode⟩
    · exact ⟨rfl, he.2, he.1, .refl e⟩
    · exact (attemptConnect_quiet he ssid pw authMode).andThen fun _ _ h => ⟨rfl, h⟩

theorem wifiConnectToLast_quiet (he : e.Calm) (v : Vars) :
    Safe quiet (fun _ _ => True) (wifiConnectToLast v) e := by
  refine Safe.call nofun fun last => ?_
  cases last with
  | none => exact trivial
  | some index =>
      show Safe quiet _ (if index ≥ 0 then wifiConnectToStored index v else Prog.ret (true, v)) e
      split
      · exact (wifiConnectToStored_quiet he index v).mono fun _ _ _ => trivial
      · exact trivial

theorem wifiConnectToScanned_quiet (he : e.Calm) (index : Nat) (v : Vars) :
    Safe quiet (fun r e' => r.2.state = v.state ∧ e.Attempted r.1 e')
      (wifiConnectToScanned index v) e := by
  refine Safe.call nofun fun ap => ?_
  refine Safe.call nofun fun p => ?_
  show Safe quiet _ (ite (mayConnect ap.2 p (p.pw.getD v.last.pw) = true) _ _) e
  split
  · exact (attemptConnect_quiet he ap.1 (p.pw.getD v.last.pw) ap.2).andThen fun _ _ h => ⟨rfl, h⟩
  · exact ⟨rfl, he.2, he.1, .refl e⟩

theorem wifiConnectToHotspot_quiet (he : e.Calm) (v : Vars) :
    Safe quiet (fun r e' => r.2.state = v.state ∧ e.Attempted r.1 e') (wifiConnectToHotspot v) e := by
  refine Safe.call nofun fun ap => ?_
  exact (attemptConnect_quiet he ap.1 ap.2 3).andThen fun _ _ h => ⟨rfl, h⟩

theorem enableWifiIfNeeded_quiet (state : ConnectState) :
    Safe quiet (fun _ e' => e' = e) (enableWifiIfNeeded state) e := by
  rw [enableWifiIfNeeded]
  split
  · refine Safe.call nofun fun ok => ?_
    cases ok with
    | false => rfl
    | true => exact Safe.call nofun fun _ => Safe.call nofun fun _ => rfl
  · rfl

end Calls

/-! ## Commands -/

/-- The state and the last event, once an accepted attempt has brought the connection. -/
def Joined (v : Vars) (e : Ear) : Prop :=
  v.state = .connected ∧ e.heard = some .connected ∧ e.joined = true

/-- What a command leaves.  If the caller's loop is left, it is for another rung or a
    connection.  If not, the state is as before, and so is the last event except behind
    a connect command; or a disable has ended the network and failed to stop the radio. -/
def Handled (code : CommandCode) (v : Vars) (e : Ear) (r : Bool × Vars) (e' : Ear) : Prop :=
  e.Follows e' ∧
    ((r.1 = true ∧ (((r.2.state = .lastAP ∨ r.2.state = .disabled) ∧ e'.Calm ∧
        code ≠ .wifiConnect) ∨ Joined r.2 e')) ∨
      (r.1 = false ∧ e'.Calm ∧ ((r.2.state = v.state ∧ (code = .wifiConnect ∨ e'.heard = e.heard)) ∨
        (v.state = .connected ∧ r.2.state = .disconnected ∧ e'.heard = some .disconnected ∧
          code ≠ .wifiConnect))))

section Commands

variable {e : Ear} {v : Vars}

/-- Nothing happened. -/
theorem Handled.same (code : CommandCode) (he : e.Calm) : Handled code v e (false, v) e :=
  ⟨.refl e, .inr ⟨rfl, he, .inl ⟨rfl, .inr rfl⟩⟩⟩

theorem disconnectForDisable_quiet (he : e.Calm) (hv : Agrees v.state e) :
    Safe quiet (fun v' e' => e'.Calm ∧ e.Follows e' ∧
      ((v'.state = v.state ∧ e'.heard = e.heard) ∨
        (v.state = .connected ∧ v'.state = .disconnected ∧ e'.heard = some .disconnected)))
      (disconnectForDisable v) e := by
  rw [disconnectForDisable]
  by_cases hc : v.state = .connected
  · rw [if_pos hc]
    refine Safe.call nofun fun ok => ?_
    cases ok with
    | false => exact ⟨he, .refl e, .inl ⟨rfl, rfl⟩⟩
    | true =>
        refine Safe.call nofun fun ev => ?_
        have hcalm : (Ear.next .waitEvent ev e).Calm := ⟨rfl, by simp [Ear.next, he.1]⟩
        cases ev with
        | connected => exact ⟨hcalm, ⟨rfl, rfl⟩, .inl ⟨rfl, (hv.1 hc).symm⟩⟩
        | disconnected => exact ⟨hcalm, ⟨rfl, rfl⟩, .inr ⟨hc, rfl, rfl⟩⟩
  · rw [if_neg hc]
    exact ⟨he, .refl e, .inl ⟨rfl, rfl⟩⟩

theorem handleDisable_quiet (he : e.Calm) (hv : Agrees v.state e) :
    Safe quiet (fun r e' => Handled .wifiDisable v e r e' ∧ (r.1 = true → r.2.state = .disabled))
      (handleDisable v) e := by
  refine (disconnectForDisable_quiet he hv).andThen fun v' e' h => ?_
  obtain ⟨hcalm, hfollows, h⟩ := h
  refine Safe.call nofun fun ok => ?_
  cases ok with
  | false =>
      refine ⟨⟨hfollows, .inr ⟨rfl, hcalm, ?_⟩⟩, nofun⟩
      exact h.imp (fun h => ⟨h.1, .inr h.2⟩) fun h => ⟨h.1, h.2.1, h.2.2, nofun⟩
  | true =>
      refine Safe.call nofun fun _ => Safe.call nofun fun _ => ⟨⟨hfollows, ?_⟩, fun _ => rfl⟩
      exact .inl ⟨rfl, .inl ⟨.inr rfl, hcalm, nofun⟩⟩

theorem handleEnable_quiet (he : e.Calm) :
    Safe quiet (fun r e' => Handled .wifiEnable v e r e') (handleEnable v) e := by
  rw [handleEnable]
  split
  · refine Safe.call nofun fun ok => ?_
    cases ok with
    | false => exact .same _ he
    | true =>
        refine Safe.call nofun fun _ => Safe.call nofun fun _ => ⟨.refl e, ?_⟩
        exact .inl ⟨rfl, .inl ⟨.inl rfl, he, nofun⟩⟩
  · exact .same _ he

theorem handleScan_quiet (he : e.Calm) (cmd : ConnectCommand) :
    Safe quiet (fun r e' => Handled .wifiScan v e r e' ∧ r.1 = false) (handleScan cmd v) e := by
  refine (enableWifiIfNeeded_quiet v.state).andThen fun ok e' h => ?_
  subst h
  cases ok with
  | false => exact Safe.call nofun fun _ => ⟨.same _ he, rfl⟩
  | true =>
      refine wifiScan_quiet.andThen fun r e'' h => ?_
      subst h
      exact Safe.call nofun fun _ => ⟨⟨.refl _, .inr ⟨rfl, he, .inl ⟨rfl, .inr rfl⟩⟩⟩, rfl⟩

theorem handleAutoconnect_quiet (he : e.Calm) :
    Safe quiet (fun r e' => Handled .wifiAutoconnect v e r e') (handleAutoconnect v) e := by
  refine Safe.call nofun fun _ => ?_
  have hleft : ∀ v' : Vars, v'.state = .lastAP ∨ v'.state = .disabled →
      Handled .wifiAutoconnect v e (true, v') e := fun v' h =>
    ⟨.refl e, .inl ⟨rfl, .inl ⟨h, he, nofun⟩⟩⟩
  by_cases hoff : v.state = .disabled
  · refine (enableWifiIfNeeded_quiet v.state).andThen fun ok e' h => ?_
    subst h
    cases ok with
    | false => exact hleft v (.inr hoff)
    | true => exact hleft _ (.inl rfl)
  · rw [enableWifiIfNeeded, if_neg hoff]
    exact hleft _ (.inl rfl)

/-- The event behind an accepted attempt. -/
theorem awaitConnection_quiet {e' : Ear} (he : e.Attempted true e') (cmd : ConnectCommand) {v' : Vars}
    (hv : v'.state = v.state) :
    Safe quiet (fun r e'' => Handled .wifiConnect v e r e'' ∧ (r.1 = true → r.2.state = .connected))
      (awaitConnection cmd v') e' := by
  obtain ⟨-, haccepted, hfollows⟩ := he
  refine Safe.call nofun fun ev => ?_
  cases ev with
  | disconnected =>
      refine ⟨⟨hfollows, .inr ⟨rfl, ⟨rfl, ?_⟩, .inl ⟨hv, .inl rfl⟩⟩⟩, nofun⟩
      simp [quiet, Ear.next]
  | connected =>
      have hjoined : ∀ v'' : Vars, v''.state = .connected →
          Joined v'' (Ear.next .waitEvent .connected e') := fun v'' h =>
        ⟨h, rfl, by simp [Ear.next, haccepted]⟩
      refine Safe.call nofun fun stored => ?_
      obtain ⟨ok, index⟩ := stored
      cases ok with
      | false => exact ⟨⟨hfollows, .inl ⟨rfl, .inr (hjoined _ rfl)⟩⟩, fun _ => rfl⟩
      | true =>
          exact Safe.call nofun fun _ => ⟨⟨hfollows, .inl ⟨rfl, .inr (hjoined _ rfl)⟩⟩, fun _ => rfl⟩

theorem handleConnect_quiet (he : e.Calm) (cmd : ConnectCommand) :
    Safe quiet (fun r e' => Handled .wifiConnect v e r e') (handleConnect cmd v) e := by
  refine Safe.call nofun fun _ => (enableWifiIfNeeded_quiet v.state).andThen fun enabled e' h => ?_
  subst h
  cases enabled with
  | false =>
      exact Safe.call nofun fun _ => ⟨.refl _, .inr ⟨rfl, he, .inl ⟨rfl, .inl rfl⟩⟩⟩
  | true =>
      refine (attemptConnect_quiet he cmd.ssid cmd.pw cmd.authMode).andThen fun ok e'' h => ?_
      refine Safe.call nofun fun _ => ?_
      cases ok with
      | false => exact ⟨h.2.2, .inr ⟨rfl, h.calm, .inl ⟨rfl, .inl rfl⟩⟩⟩
      | true => exact (awaitConnection_quiet h cmd rfl).mono fun _ _ h => h.1

/-- Every command. -/
theorem handleConnectCommand_quiet (he : e.Calm) (hv : Agrees v.state e) (cmd : ConnectCommand) :
    Safe quiet (fun r e' => Handled cmd.command v e r e') (handleConnectCommand cmd v) e := by
  rw [handleConnectCommand]
  cases cmd.command with
  | wifiDisable => exact (handleDisable_quiet he hv).mono fun _ _ h => h.1
  | wifiEnable => exact handleEnable_quiet he
  | wifiScan => exact (handleScan_quiet he cmd).mono fun _ _ h => h.1
  | wifiAutoconnect => exact handleAutoconnect_quiet he
  | wifiConnect => exact handleConnect_quiet he cmd
  | unknown code => exact .same _ he

end Commands

/-! ## The ladder -/

/-- On the ladder: a connection has just come about, or none of the states in which the
    thread waits for the semaphore is reached. -/
def Climbed (v : Vars) (e : Ear) : Prop :=
  Joined v e ∨ (v.state ≠ .connected ∧ v.state ≠ .disconnected ∧ e.Calm)

/-- The same behind a round of a loop, which goes on only without a connection. -/
def Tried (r : Bool × Vars) (e : Ear) : Prop :=
  Climbed r.2 e ∧ (r.1 = false → r.2.state ≠ .connected)

section Ladder

variable {e : Ear} {v : Vars}

theorem Climbed.calm (h : Climbed v e) (hv : v.state ≠ .connected) :
    v.state ≠ .disconnected ∧ e.Calm :=
  h.elim (fun h => absurd h.1 hv) fun h => ⟨h.2.1, h.2.2⟩

/-- Before a connection nothing is to agree. -/
theorem agrees_of_ne (hc : v.state ≠ .connected) (hd : v.state ≠ .disconnected) : Agrees v.state e :=
  ⟨fun h => absurd h hc, fun h => absurd h hd⟩

theorem agrees_of_left (h : v.state = .lastAP ∨ v.state = .disabled) : Agrees v.state e :=
  h.elim (fun h => agrees_of_ne (by simp [h]) (by simp [h])) fun h =>
    agrees_of_ne (by simp [h]) (by simp [h])

theorem lastAP_quiet (he : e.Calm) :
    Safe quiet (fun v' e' => Agrees v'.state e') (lastAP v) e := by
  refine (wifiConnectToLast_quiet he v).andThen fun r e' _ => ?_
  obtain ⟨ok, v'⟩ := r
  cases ok with
  | false => exact ⟨nofun, nofun⟩
  | true =>
      refine Safe.call nofun fun ev => ?_
      cases ev with
      | connected => exact ⟨fun _ => rfl, nofun⟩
      | disconnected => exact ⟨nofun, nofun⟩

theorem scanning_quiet : Safe quiet (fun v' e' => Agrees v'.state e') (scanning v) e :=
  wifiScan_quiet.andThen fun _ _ _ => ⟨nofun, nofun⟩

theorem pollForCommand_climbs (he : e.Calm) (hc : v.state ≠ .connected)
    (hd : v.state ≠ .disconnected) : Safe quiet (fun r e' => Tried r e') (pollForCommand v) e := by
  refine Safe.call nofun fun c => ?_
  cases c with
  | none => exact ⟨.inr ⟨hc, hd, he⟩, fun _ => hc⟩
  | some cmd =>
      have hcalm : (Ear.next .pollCommand (some cmd) e).Calm := he
      refine (handleConnectCommand_quiet hcalm (agrees_of_ne hc hd) cmd).mono fun r e' h => ?_
      rcases h.2 with ⟨hleft, ⟨hstate, hcalm, -⟩ | hjoined⟩ | ⟨hstays, hcalm, ⟨hstate, -⟩ | ⟨hstate, -⟩⟩
      · refine ⟨.inr ⟨?_, ?_, hcalm⟩, fun h => absurd (hleft.symm.trans h) nofun⟩
        · rcases hstate with h | h <;> simp [h]
        · rcases hstate with h | h <;> simp [h]
      · exact ⟨.inl hjoined, fun h => absurd (hleft.symm.trans h) nofun⟩
      · exact ⟨.inr ⟨hstate ▸ hc, hstate ▸ hd, hcalm⟩, fun _ => hstate ▸ hc⟩
      · exact absurd hstate hc

/-- An accepted attempt of the ladder: the event says whether it has brought the
    connection. -/
theorem tried_event {e' : Ear} (he : e.Attempted true e') (ev : ConnectEvent) {r : Bool × Vars}
    (hc : ev = .connected → r.2.state = .connected)
    (hd : ev = .disconnected → r.2.state ≠ .connected ∧ r.2.state ≠ .disconnected)
    (hr : r.1 = false → ev = .disconnected) : Tried r (Ear.next .waitEvent ev e') := by
  obtain ⟨-, haccepted, -⟩ := he
  cases ev with
  | connected =>
      exact ⟨.inl ⟨hc rfl, rfl, by simp [Ear.next, haccepted]⟩, fun h => absurd (hr h) nofun⟩
  | disconnected =>
      exact ⟨.inr ⟨(hd rfl).1, (hd rfl).2, rfl, by simp [Ear.next]⟩, fun _ => (hd rfl).1⟩

theorem tryScanned_quiet (he : e.Calm) (hc : v.state ≠ .connected) (hd : v.state ≠ .disconnected)
    (i : Nat) : Safe quiet (fun r e' => Tried r e') (tryScanned i v) e := by
  refine (pollForCommand_climbs he hc hd).andThen fun handled e' h => ?_
  obtain ⟨left, v'⟩ := handled
  cases left with
  | true => exact h
  | false =>
      have hc' : v'.state ≠ .connected := h.2 rfl
      obtain ⟨hd', he'⟩ := h.1.calm hc'
      refine (wifiConnectToScanned_quiet he' i v').andThen fun r e'' h => ?_
      obtain ⟨ok, v''⟩ := r
      obtain ⟨hstate, hattempted⟩ := h
      have hc'' : v''.state ≠ .connected := fun h => hc' (hstate.symm.trans h)
      have hd'' : v''.state ≠ .disconnected := fun h => hd' (hstate.symm.trans h)
      cases ok with
      | false => exact ⟨.inr ⟨hc'', hd'', hattempted.calm⟩, fun _ => hc''⟩
      | true =>
          refine Safe.call nofun fun ev => ?_
          cases ev with
          | disconnected => exact tried_event hattempted _ nofun (fun _ => ⟨hc'', hd''⟩) fun _ => rfl
          | connected =>
              show Safe quiet _ (ite (v''.last.listIndex ≥ 0) _ _) _
              split
              · exact Safe.call nofun fun _ => tried_event hattempted _ (fun _ => rfl) nofun nofun
              · exact tried_event hattempted _ (fun _ => rfl) nofun nofun

theorem scannedLoop_quiet (rounds : Nat) : ∀ (i : Nat) (v : Vars) (e : Ear), e.Calm →
    v.state ≠ .connected → v.state ≠ .disconnected →
    Safe quiet (fun v' e' => Climbed v' e') (scannedLoop rounds i v) e := by
  induction rounds with
  | zero => exact fun i v e he hc hd => .inr ⟨hc, hd, he⟩
  | succ rounds ih =>
      intro i v e he hc hd
      rw [scannedLoop]
      split
      · refine (tryScanned_quiet he hc hd i).andThen fun r e' h => ?_
        obtain ⟨left, v'⟩ := r
        cases left with
        | true => exact h.1
        | false =>
            have hc' : v'.state ≠ .connected := h.2 rfl
            obtain ⟨hd', he'⟩ := h.1.calm hc'
            exact ih (i + 1) v' e' he' hc' hd'
      · exact .inr ⟨hc, hd, he⟩

theorem scannedAPs_quiet (he : e.Calm) (hv : v.state = .scannedAPs) :
    Safe quiet (fun v' e' => Agrees v'.state e') (scannedAPs v) e := by
  refine (scannedLoop_quiet 65536 0 v e he (by simp [hv]) (by simp [hv])).andThen fun v' e' h => ?_
  rcases h with ⟨hstate, hheard, -⟩ | ⟨hc, -⟩
  · exact ⟨fun _ => hheard, fun h => absurd h (by simp [hstate])⟩
  · show Agrees (ite (v'.state ≠ .connected) _ v').state e'
    rw [if_pos hc]
    exact ⟨nofun, nofun⟩

theorem tryStored_quiet (he : e.Calm) (hc : v.state ≠ .connected) (hd : v.state ≠ .disconnected)
    (i : Nat) : Safe quiet (fun r e' => Tried r e') (tryStored i v) e := by
  refine (pollForCommand_climbs he hc hd).andThen fun handled e' h => ?_
  obtain ⟨left, v'⟩ := handled
  cases left with
  | true => exact h
  | false =>
      have hc' : v'.state ≠ .connected := h.2 rfl
      obtain ⟨hd', he'⟩ := h.1.calm hc'
      refine (wifiConnectToStored_quiet he' i v').andThen fun r e'' h => ?_
      obtain ⟨ok, v''⟩ := r
      obtain ⟨hstate, hattempted⟩ := h
      have hc'' : v''.state ≠ .connected := fun h => hc' (hstate.symm.trans h)
      have hd'' : v''.state ≠ .disconnected := fun h => hd' (hstate.symm.trans h)
      cases ok with
      | false => exact ⟨.inr ⟨hc'', hd'', hattempted.calm⟩, fun _ => hc''⟩
      | true =>
          refine Safe.call nofun fun ev => ?_
          cases ev with
          | disconnected => exact tried_event hattempted _ nofun (fun _ => ⟨hc'', hd''⟩) fun _ => rfl
          | connected =>
              exact Safe.call nofun fun _ => tried_event hattempted _ (fun _ => rfl) nofun nofun

theorem storedLoop_quiet (rounds : Nat) : ∀ (i : Nat) (v : Vars) (e : Ear), e.Calm →
    v.state ≠ .connected → v.state ≠ .disconnected →
    Safe quiet (fun v' e' => Climbed v' e') (storedLoop rounds i v) e := by
  induction rounds with
  | zero => exact fun i v e he hc hd => .inr ⟨hc, hd, he⟩
  | succ rounds ih =>
      intro i v e he hc hd
      rw [storedLoop]
      refine (tryStored_quiet he hc hd i).andThen fun r e' h => ?_
      obtain ⟨left, v'⟩ := r
      cases left with
      | true => exact h.1
      | false =>
          have hc' : v'.state ≠ .connected := h.2 rfl
          obtain ⟨hd', he'⟩ := h.1.calm hc'
          exact ih (i + 1) v' e' he' hc' hd'

theorem tryHotspot_quiet (h : Climbed v e) :
    Safe quiet (fun v' e' => Climbed v' e') (tryHotspot v) e := by
  rw [tryHotspot]
  by_cases hv : v.state = .storedAPs
  · have hc : v.state ≠ .connected := by simp [hv]
    obtain ⟨hd, he⟩ := h.calm hc
    rw [if_pos hv]
    refine Safe.call nofun fun running => ?_
    cases running with
    | false => exact h
    | true =>
        refine (wifiConnectToHotspot_quiet he v).andThen fun r e' h => ?_
        obtain ⟨ok, v'⟩ := r
        obtain ⟨hstate, hattempted⟩ := h
        have hc' : v'.state ≠ .connected := fun h => hc (hstate.symm.trans h)
        have hd' : v'.state ≠ .disconnected := fun h => hd (hstate.symm.trans h)
        cases ok with
        | false => exact .inr ⟨hc', hd', hattempted.calm⟩
        | true =>
            refine Safe.call nofun fun ev => ?_
            cases ev with
            | disconnected =>
                exact .inr ⟨hc', hd', rfl, by simp [quiet, Ear.next]⟩
            | connected =>
                exact .inl ⟨rfl, rfl, by simp [quiet, Ear.next, hattempted.2.1]⟩
  · rw [if_neg hv]
    exact h

/-- Where the ladder gives up, the last event it has heard is to be no connect. -/
theorem storedAPs_quiet (he : e.Calm) (hv : v.state = .storedAPs) :
    Safe quiet (Exact .storedAPs) (storedAPs v) e := by
  refine (storedLoop_quiet 16 0 v e he (by simp [hv]) (by simp [hv])).andThen fun v e h => ?_
  refine (tryHotspot_quiet h).andThen fun v e h => ?_
  show Exact .storedAPs (ite (v.state ≠ .connected) _ v) e
  rcases h with ⟨hstate, hheard, hjoined⟩ | ⟨hc, -, -, hjoined⟩
  · rw [if_neg (not_not.mpr hstate)]
    exact iff_of_true ⟨fun _ => hheard, fun h => absurd h (by simp [hstate])⟩ fun _ => hjoined
  · rw [if_pos hc]
    simp [Exact, Agrees, Allowed, hjoined]

/-- What `Disabled` leaves. -/
theorem disabled_quiet (he : e.Calm) (hv : v.state = .disabled) :
    Safe quiet (fun v' e' => Agrees v'.state e') (disabled v) e := by
  refine Safe.call nofun fun cmd => ?_
  have hcalm : (Ear.next .waitCommand cmd e).Calm := he
  have hagrees : Agrees v.state (Ear.next .waitCommand cmd e) :=
    agrees_of_ne (by simp [hv]) (by simp [hv])
  refine (handleConnectCommand_quiet hcalm hagrees cmd).andThen fun r e' h => ?_
  rcases h.2 with ⟨-, ⟨hstate, -⟩ | ⟨hstate, hheard, -⟩⟩ | ⟨-, -, ⟨hstate, -⟩ | ⟨hstate, -⟩⟩
  · exact agrees_of_left hstate
  · exact ⟨fun _ => hheard, fun h => absurd (hstate.symm.trans h) nofun⟩
  · exact agrees_of_ne (by simp [hstate, hv]) (by simp [hstate, hv])
  · exact absurd (hv.symm.trans hstate) nofun

end Ladder

/-! ## While the thread waits -/

section Idle

variable {e : Ear} {v : Vars}

/-- An event that was in the queue decides the state. -/
theorem pollForEvent_quiet (v : Vars) :
    Safe quiet (fun v' e' => (Agrees v'.state e' ∧ e'.polled = true ∧ e'.command = e.command) ∨
      (v' = v ∧ e' = e)) (pollForEvent v) e := by
  refine Safe.call nofun fun ev => ?_
  rcases ev with _ | _ | _
  · exact .inr ⟨rfl, rfl⟩
  · exact .inl ⟨⟨fun _ => rfl, nofun⟩, rfl, rfl⟩
  · exact .inl ⟨⟨nofun, nofun⟩, rfl, rfl⟩

/-- Behind a served event nothing is asked of a connect command. -/
theorem allowed_of_polled {rung : ConnectState} (hrung : rung = .connected ∨ rung = .disconnected)
    (h : e.polled = true) : Allowed rung e := by
  rcases hrung with rfl | rfl
  · exact fun _ => .inl h
  · exact fun _ => .inl h

theorem allowed_of_command {rung : ConnectState} (hrung : rung = .connected ∨ rung = .disconnected)
    (h : e.command ≠ some .wifiConnect) : Allowed rung e := by
  rcases hrung with rfl | rfl
  · exact fun hc => absurd hc h
  · exact fun hc => absurd hc h

/-- A connect command that has left the state is allowed where the last event agrees. -/
theorem exact_of_stays {v' : Vars} (hrung : v.state = .connected ∨ v.state = .disconnected)
    (hstate : v'.state = v.state) (hcommand : e.command = some .wifiConnect)
    (hpolled : e.polled = false) (he : e.Calm) : Exact v.state v' e := by
  rw [Exact, hstate]
  rcases hrung with h | h <;> simp [h, Agrees, Allowed, hcommand, hpolled, he.2]

/-- One entry of each queue is served. -/
theorem serve_quiet (hrung : v.state = .connected ∨ v.state = .disconnected)
    (hagrees : Agrees v.state e) (he : e.Calm) (hcommand : e.command = none)
    (hpolled : e.polled = false) : Safe quiet (Exact v.state) (serve v) e := by
  -- A polled event makes the state agree, and anything is allowed before it.
  have hevent : ∀ (v' : Vars) (e' : Ear), Exact v.state v' e' →
      Safe quiet (Exact v.state) (pollForEvent v') e' := fun v' e' hstays =>
    (pollForEvent_quiet v').mono fun v'' e'' h => by
      rcases h with ⟨hagrees', hpolled', -⟩ | ⟨rfl, rfl⟩
      · exact iff_of_true hagrees' (allowed_of_polled hrung hpolled')
      · exact hstays
  refine Safe.call nofun fun c => ?_
  cases c with
  | none =>
      refine hevent v e (iff_of_true hagrees (allowed_of_command hrung ?_))
      simp [hcommand]
  | some cmd =>
      have hcalm : (Ear.next .pollCommand (some cmd) e).Calm := he
      have hagrees' : Agrees v.state (Ear.next .pollCommand (some cmd) e) := hagrees
      refine (handleConnectCommand_quiet hcalm hagrees' cmd).andThen fun r e' h => ?_
      obtain ⟨left, v'⟩ := r
      obtain ⟨⟨hcommand', hpolled'⟩, h⟩ := h
      have hcode : e'.command = some cmd.command := hcommand'
      have hnone : e'.polled = false := hpolled'.trans hpolled
      rcases h with ⟨rfl, ⟨hstate, -, hne⟩ | ⟨hstate, hheard, hjoined⟩⟩ | ⟨rfl, hcalm', h⟩
      · -- The thread leaves for another rung.
        exact iff_of_true (agrees_of_left hstate)
          (allowed_of_command hrung (by simpa [hcode] using hne))
      · refine iff_of_true ⟨fun _ => hheard, fun h => absurd (hstate.symm.trans h) nofun⟩ ?_
        rcases hrung with h | h <;> simp [h, Allowed, hheard, hjoined]
      · refine hevent v' e' ?_
        rcases h with ⟨hstate, hconnect | hheard⟩ | ⟨-, hstate, hheard, hne⟩
        · exact exact_of_stays hrung hstate (hcode.trans (congrArg some hconnect)) hnone hcalm'
        · have hheard' : e'.heard = e.heard := hheard
          have hsame : Agrees v'.state e' := by
            rw [hstate, Agrees, hheard']
            exact hagrees
          refine iff_of_true hsame ?_
          rcases hrung with h | h
          · rw [h]
            exact fun _ => .inr (hheard'.trans (hagrees.1 h))
          · rw [h]
            exact fun _ => .inr (.inr fun hc => hagrees.2 h (hheard'.symm.trans hc))
        · refine iff_of_true ⟨fun h => absurd (hstate.symm.trans h) nofun, fun _ => ?_⟩
            (allowed_of_command hrung (by simpa [hcode] using hne))
          simp [hheard]

end Idle

/-! ## A walk -/

/-- The watcher of a walk: where the semaphore is waited for, the last event tells the
    state. -/
def hears (rung : ConnectState) : Watcher Op Resp Ear :=
  ⟨fun o e => (∃ ticks, o = .takeSemaphore ticks) →
    (rung = .connected ↔ e.heard = some .connected), Ear.next⟩

theorem hears_of_quiet {α : Type} {rung : ConnectState} {Q : α → Ear → Prop} {p : Connector.Task α}
    {e : Ear} (h : Safe quiet Q p e) : Safe (hears rung) Q p e := by
  induction p generalizing e with
  | ret a => exact h
  | call o k ih => exact ⟨fun ⟨ticks, ho⟩ => absurd ho (h.1 ticks), fun r => ih r (h.2 r)⟩

theorem agrees_iff {state : ConnectState} {e : Ear}
    (hrung : state = .connected ∨ state = .disconnected) (h : Agrees state e) :
    state = .connected ↔ e.heard = some .connected := by
  rcases hrung with rfl | rfl
  · exact iff_of_true rfl (h.1 rfl)
  · exact iff_of_false nofun (h.2 rfl)

/-- The wait itself, and what is served behind it. -/
theorem idle_hears {v : Vars} {e : Ear} (hrung : v.state = .connected ∨ v.state = .disconnected)
    (h : Agrees v.state e) : Safe (hears v.state) (Exact v.state) (idle v) e.fresh := by
  have hwait : ∀ v' : Vars, v'.state = v.state → Safe (hears v.state) (Exact v.state)
      (do
        let userDisconnected ← perform .readUserDisconnected
        let woken ← perform (.takeSemaphore (ticksToWait v' userDisconnected))
        if woken then serve v'
        else pure { v' with retryDelayMs := min (v'.retryDelayMs * 2) retryMaxMs, state := .lastAP })
      e.fresh := by
    intro v' hv'
    refine Safe.call (fun ⟨_, ho⟩ => absurd ho nofun) fun asked => ?_
    refine Safe.call (fun _ => agrees_iff hrung h) fun woken => ?_
    cases woken with
    | true =>
        rw [← hv'] at hrung h ⊢
        exact hears_of_quiet (serve_quiet hrung h ⟨rfl, rfl⟩ rfl rfl)
    | false =>
        exact iff_of_true ⟨nofun, nofun⟩ (allowed_of_command hrung nofun)
  refine hwait (if v.state = .connected then { v with retryDelayMs := retryMinMs } else v) ?_
  split <;> rfl

/-- From a state that agrees with the last event, a walk leaves one exactly where it is
    allowed. -/
theorem walk_hears {v : Vars} {e : Ear} (h : Agrees v.state e) :
    Safe (hears v.state) (Exact v.state) (walk v) e.fresh := by
  have hcalm : e.fresh.Calm := ⟨rfl, rfl⟩
  -- A rung behind which nothing is asked of what was heard.
  have hfree : ∀ {state : ConnectState} {p : Connector.Task Vars},
      (∀ e', Allowed state e') → Safe quiet (fun v' e' => Agrees v'.state e') p e.fresh →
      Safe (hears state) (Exact state) p e.fresh := fun hall hp =>
    hears_of_quiet (hp.mono fun _ e' h' => iff_of_true h' (hall e'))
  rw [walk]
  cases hv : v.state with
  | lastAP => exact hfree (fun _ => trivial) (lastAP_quiet hcalm)
  | scanning => exact hfree (fun _ => trivial) scanning_quiet
  | scannedAPs => exact hfree (fun _ => trivial) (scannedAPs_quiet hcalm hv)
  | storedAPs => exact hears_of_quiet (storedAPs_quiet hcalm hv)
  | connected => simpa only [hv] using idle_hears (.inl hv) h
  | disconnected => simpa only [hv] using idle_hears (.inr hv) h
  | disabled => exact hfree (fun _ => trivial) (disabled_quiet hcalm hv)

/-- The check moves the thread to `Disconnected` only if the user has asked for it. -/
theorem checkDisconnect_quiet (v : Vars) (e : Ear) :
    Safe quiet (fun v' e' => e'.heard = e.heard ∧
      (v'.state = v.state ∨ (e'.asked = true ∧ v'.state = .disconnected ∧
        v.state ≠ .disconnected ∧ v.state ≠ .disabled))) (checkDisconnect v) e := by
  refine Safe.call nofun fun asked => ?_
  show Safe quiet _ (ite ((asked && v.state != .disconnected && v.state != .disabled) = true) _ _) _
  split
  · next hgo =>
      obtain ⟨⟨hasked, hd⟩, hoff⟩ : (asked = true ∧ v.state ≠ .disconnected) ∧ v.state ≠ .disabled := by
        simpa using hgo
      refine Safe.call nofun fun connected => ?_
      cases connected with
      | false => exact ⟨rfl, .inr ⟨hasked, rfl, hd, hoff⟩⟩
      | true => exact Safe.call nofun fun _ => ⟨rfl, .inr ⟨hasked, rfl, hd, hoff⟩⟩
  · exact ⟨rfl, .inl rfl⟩

end Wakeup
