import Ultimate1541.WakeupEarProofs

/-! # Nothing is left in the queues

    One take of the semaphore serves at most one entry of each queue.  As long as each
    take finds no more than that, or another sender is still to give, the thread only
    blocks with entries in its queues if the semaphore is given or about to be. -/

namespace Wakeup

open Connector Interaction Interference

/-! ## What stays covered -/

/-- The semaphore is given, or somebody is to give it. -/
def Shared.Covered (s : Shared) : Prop := s.given = true ∨ s.Promised

/-- What is in the queues is covered, or it is no more than so many entries. -/
def Shared.Left (commands events : Nat) (s : Shared) : Prop :=
  s.Covered ∨ (s.commands.length ≤ commands ∧ s.events.length ≤ events)

section Steps

variable {s s' : Shared}

theorem Shared.Left.mono {c c' e e' : Nat} (h : s.Left c e) (hc : c ≤ c') (he : e ≤ e') :
    s.Left c' e' := h.imp id fun h => ⟨Nat.le_trans h.1 hc, Nat.le_trans h.2 he⟩

/-- Whoever puts something in a queue is to give the semaphore. -/
theorem Act.step_covered {a : Act} (h : a.step s = some s') :
    s'.Covered ∨ (¬ s.Covered ∧ s'.commands = s.commands ∧ s'.events = s.events) := by
  cases a with
  | send cmd =>
      obtain ⟨-, rfl⟩ : _ ∧ _ = s' := by simpa [Act.step] using h
      exact .inl (.inr (.inl (Nat.succ_pos _)))
  | give =>
      obtain ⟨-, rfl⟩ : _ ∧ _ = s' := by simpa [Act.step] using h
      exact .inl (.inl rfl)
  | event e =>
      obtain ⟨-, rfl⟩ : _ ∧ _ = s' := by simpa [Act.step] using h
      exact .inl (.inr (.inr ⟨e, rfl⟩))
  | drop e =>
      obtain ⟨-, rfl⟩ : _ ∧ _ = s' := by simpa [Act.step] using h
      exact .inl (.inr (.inr ⟨e, rfl⟩))
  | eventGive =>
      cases hh : s.handler with
      | sent e =>
          obtain rfl : _ = s' := by simpa [Act.step, hh] using h
          exact .inl (.inl rfl)
      | _ => simp [Act.step, hh] at h
  | eventDone =>
      cases hh : s.handler with
      | given e =>
          obtain rfl : _ = s' := by simpa [Act.step, hh] using h
          by_cases hc : s.Covered
          · refine .inl (hc.imp id fun hp => hp.imp id fun ⟨x, hx⟩ => ?_)
            exact absurd (hh.symm.trans hx) nofun
          · exact .inr ⟨hc, rfl, rfl⟩
      | _ => simp [Act.step, hh] at h
  | userDisconnect =>
      obtain rfl : _ = s' := by simpa [Act.step] using h
      by_cases hc : s.Covered
      · exact .inl hc
      · exact .inr ⟨hc, rfl, rfl⟩

/-- What is said of the queues while nothing is covered the others keep. -/
theorem keeps_covered_or (t : Terms) (P : List ConnectCommand → List ConnectEvent → Prop) :
    (shared t).Keeps fun s => s.Covered ∨ P s.commands s.events := by
  rintro s s' ⟨a, ha⟩ h
  rcases Act.step_covered ha with hc | ⟨hn, hcommands, hevents⟩
  · exact .inl hc
  · refine .inr ?_
    rw [hcommands, hevents]
    exact h.resolve_left hn

theorem keeps_left (t : Terms) (c e : Nat) : (shared t).Keeps (Shared.Left c e) :=
  keeps_covered_or t fun commands events => commands.length ≤ c ∧ events.length ≤ e

/-- Such a call leaves what covers the queues, and puts nothing in them. -/
theorem answer_leaves {o : Op} {r : Resp o} (ho : Leaves o) (h : answer o r s = some s') :
    (s.Covered → s'.Covered) ∧ s'.commands.length ≤ s.commands.length ∧
      s'.events.length ≤ s.events.length := by
  have hsame : s = s' → (s.Covered → s'.Covered) ∧ s'.commands.length ≤ s.commands.length ∧
      s'.events.length ≤ s.events.length := by
    rintro rfl
    exact ⟨id, Nat.le_refl _, Nat.le_refl _⟩
  cases o with
  | waitCommand | pollCommand | waitEvent | pollEvent =>
      obtain ⟨-, rfl⟩ : _ ∧ _ = s' := by simpa [answer] using h
      exact ⟨id, by simp, by simp⟩
  | takeSemaphore ticks => exact absurd rfl (ho ticks)
  | readConnected | readUserDisconnected =>
      exact hsame (by simpa [answer] using h : _ ∧ s = s').2
  | clearUserDisconnected =>
      obtain rfl : _ = s' := by simpa [answer] using h
      exact ⟨id, Nat.le_refl _, Nat.le_refl _⟩
  | _ => exact hsame (by simpa [answer] using h)

theorem Shared.Left.leaves {c e : Nat} {o : Op} {r : Resp o} (hs : s.Left c e) (ho : Leaves o)
    (h : answer o r s = some s') : s'.Left c e := by
  obtain ⟨hcovered, hcommands, hevents⟩ := answer_leaves ho h
  exact hs.imp hcovered fun hs => ⟨Nat.le_trans hcommands hs.1, Nat.le_trans hevents hs.2⟩

end Steps

/-! ## What a walk leaves -/

/-- When the semaphore is taken somebody else is to give it, or no queue holds more than
    one entry; and no autoconnect, which leaves at once, is before an event. -/
def Shared.Serves (s : Shared) : Prop :=
  s.Promised ∨ (s.commands.length ≤ 1 ∧ s.events.length ≤ 1 ∧
    (s.events ≠ [] → ∀ cmd ∈ s.commands, cmd.command ≠ .wifiAutoconnect))

/-- The terms on which nothing is left, and the state is the last event's. -/
def Terms.kept : Terms where
  take := Shared.Serves
  check state e :=
    e.asked = true → state = .disconnected ∨ state = .disabled ∨ e.heard ≠ some .connected
  walk := Allowed

/-- What is asked where the thread waits for the semaphore: nothing is left uncovered. -/
def AtTake (o : Op) (s : Shared) : Prop := (∃ ticks, o = .takeSemaphore ticks) → s.Left 0 0

/-- How many events may be left uncovered: a thread that is disabled is woken by a
    command's own give. -/
def slack (state : ConnectState) : Nat := if state = .disabled then 1 else 0

theorem slack_of_ne {state : ConnectState} (h : state ≠ .disabled) : slack state = 0 := if_neg h

section Walks

variable {α : Type} {Q : α → Shared → Prop} {s : Shared} {v : Vars} {c n : Nat}

/-- The rule for a call that does not take the semaphore. -/
theorem left_call {o : Op} {k : Resp o → Connector.Task α} (hs : s.Left c n) (ho : Leaves o)
    (h : ∀ r s', s'.Left c n → Steady (shared .kept) AtTake Q (k r) s') :
    Steady (shared .kept) AtTake Q (.call o k) s :=
  Steady.call (keeps_left .kept c n) hs (fun _ _ ⟨ticks, htake⟩ => absurd htake (ho ticks))
    fun _ r _ hs hr => h r _ (hs.leaves ho hr.1)

/-- The rule for a value. -/
theorem left_ret {a : α} (hs : s.Left c n) (hQ : ∀ s, s.Left c n → Q a s) :
    Steady (shared .kept) AtTake Q (.ret a) s := Steady.ret (keeps_left .kept c n) hs hQ

/-- The rule for a part that does not take the semaphore: what is left stays so. -/
theorem left_quiet {p : Connector.Task α} {P : α → Ear → Prop} {e : Ear} (h : Safe quiet P p e)
    (hs : s.Left c n) :
    Steady (shared .kept) AtTake (fun a s => s.Left c n ∧ ∃ e, P a e) p s :=
  Steady.of_safe h (keeps_left .kept c n) (fun _ _ ho _ _ _ hs hr => hs.leaves ho hr.1)
    (fun _ _ ho _ _ ⟨ticks, htake⟩ => absurd htake (ho ticks)) hs

theorem tail_of_length_le_one {β : Type} {l : List β} (h : l.length ≤ 1) : l.tail.length ≤ 0 := by
  rw [List.length_tail]
  omega

/-- An entry of the queue of events is taken, if there is one. -/
theorem left_tail (hs : s.Left 0 1) : Shared.Left 0 0 { s with events := s.events.tail } :=
  hs.imp id fun h => ⟨h.1, tail_of_length_le_one h.2⟩

theorem pollForEvent_left (hs : s.Left 0 1) :
    Steady (shared .kept) AtTake (fun _ s => s.Left 0 0) (pollForEvent v) s := by
  refine Steady.call (keeps_left .kept 0 1) hs (fun _ _ ⟨_, htake⟩ => absurd htake nofun)
    fun s ev s' hs hr => ?_
  obtain ⟨-, rfl⟩ : _ ∧ { s with events := s.events.tail } = s' := by
    simpa [shared, answer] using hr.1
  rcases ev with _ | _ | _ <;> exact left_ret (left_tail hs) fun _ h => h

theorem awaitConnection_left (hs : s.Left 0 1) (cmd : ConnectCommand) :
    Steady (shared .kept) AtTake (fun _ s => s.Left 0 0) (awaitConnection cmd v) s := by
  refine Steady.call (keeps_left .kept 0 1) hs (fun _ _ ⟨_, htake⟩ => absurd htake nofun)
    fun s ev s' hs hr => ?_
  obtain ⟨-, rfl⟩ : _ ∧ { s with events := s.events.tail } = s' := by
    simpa [shared, answer] using hr.1
  have hs' : Shared.Left 0 0 { s with events := s.events.tail } := left_tail hs
  cases ev with
  | disconnected => exact left_ret hs' fun _ h => h
  | connected =>
      refine left_call hs' nofun fun stored s hs => ?_
      obtain ⟨ok, index⟩ := stored
      cases ok with
      | false => exact left_ret hs fun _ h => h
      | true => exact left_call hs nofun fun _ s hs => left_ret hs fun _ h => h

/-- Some ear that agrees with a state. -/
def Ear.agreeing (state : ConnectState) : Ear :=
  { Ear.start with heard := if state = .connected then some .connected else none }

theorem agrees_agreeing (state : ConnectState) : Agrees state (Ear.agreeing state) := by
  cases state <;> exact ⟨by simp [Ear.agreeing], by simp [Ear.agreeing]⟩

/-- Behind a command one event may be left uncovered, but only if the caller goes on to
    the queue of events, or the radio is off. -/
theorem handleConnectCommand_left (hs : s.Left 0 1) (hv : v.state ≠ .disabled)
    {cmd : ConnectCommand} (hcmd : cmd.command ≠ .wifiAutoconnect) :
    Steady (shared .kept) AtTake
      (fun r s => s.Left 0 1 ∧ (r.1 = true → s.Left 0 (slack r.2.state)))
      (handleConnectCommand cmd v) s := by
  have hcalm : (Ear.agreeing v.state).Calm := ⟨rfl, rfl⟩
  have hagrees := agrees_agreeing v.state
  rw [handleConnectCommand]
  cases hcode : cmd.command with
  | wifiDisable =>
      refine (left_quiet (handleDisable_quiet hcalm hagrees) hs).mono fun r s h => ⟨h.1, fun hr => ?_⟩
      obtain ⟨hs, e, -, hstate⟩ := h
      rw [hstate hr]
      exact hs
  | wifiEnable =>
      rw [show handleEnable v = .ret (false, v) from if_neg hv]
      exact left_ret hs fun _ h => ⟨h, fun h => by cases h⟩
  | wifiScan =>
      refine (left_quiet (handleScan_quiet (v := v) hcalm cmd) hs).mono fun r s h => ⟨h.1, fun hr => ?_⟩
      obtain ⟨-, e, -, hstays⟩ := h
      exact absurd (hstays.symm.trans hr) (fun h => by cases h)
  | wifiAutoconnect => exact absurd hcode hcmd
  | wifiConnect =>
      rw [handleConnect, enableWifiIfNeeded, if_neg hv]
      refine left_call hs (fun _ h => by cases h) fun _ s hs => ?_
      refine (left_quiet (attemptConnect_quiet hcalm cmd.ssid cmd.pw cmd.authMode) hs).andThen
        fun ok s h => ?_
      refine left_call h.1 (fun _ h => by cases h) fun _ s hs => ?_
      cases ok with
      | false => exact left_ret hs fun _ h => ⟨h, fun h => by cases h⟩
      | true =>
          refine (awaitConnection_left hs cmd).mono fun r s h => ?_
          exact ⟨h.mono (Nat.le_refl 0) (Nat.zero_le 1), fun _ => h.mono (Nat.le_refl 0) (Nat.zero_le _)⟩
  | unknown code => exact left_ret hs fun _ h => ⟨h, fun h => by cases h⟩

/-- One entry of each queue is served. -/
theorem serve_left (hv : v.state ≠ .disabled) (hs : s.Covered ∨ (s.commands.length ≤ 1 ∧
    s.events.length ≤ 1 ∧ (s.events ≠ [] → ∀ cmd ∈ s.commands, cmd.command ≠ .wifiAutoconnect))) :
    Steady (shared .kept) AtTake (fun v' s => s.Left 0 (slack v'.state)) (serve v) s := by
  have hpolled : ∀ (v' : Vars) (s : Shared), s.Left 0 1 → Steady (shared .kept) AtTake
      (fun v' s => s.Left 0 (slack v'.state)) (pollForEvent v') s := fun v' s hs =>
    (pollForEvent_left hs).mono fun _ _ h => h.mono (Nat.le_refl 0) (Nat.zero_le _)
  refine Steady.call (keeps_covered_or .kept fun commands events => commands.length ≤ 1 ∧
    events.length ≤ 1 ∧ (events ≠ [] → ∀ cmd ∈ commands, cmd.command ≠ .wifiAutoconnect)) hs
    (fun _ _ ⟨_, htake⟩ => absurd htake nofun) fun s taken s' hs hr => ?_
  obtain ⟨hhead, rfl⟩ : s.commands.head? = taken ∧ { s with commands := s.commands.tail } = s' := by
    simpa [shared, answer] using hr.1
  have hleft : Shared.Left 0 1 { s with commands := s.commands.tail } :=
    hs.imp id fun h => ⟨tail_of_length_le_one h.1, h.2.1⟩
  cases taken with
  | none => exact hpolled v _ hleft
  | some cmd =>
      by_cases hcmd : cmd.command = .wifiAutoconnect
      · -- No event is left, or the semaphore is given again.
        have hnone : Shared.Left 0 0 { s with commands := s.commands.tail } := by
          refine hs.imp id fun h => ⟨tail_of_length_le_one h.1, ?_⟩
          by_cases hevents : s.events = []
          · simp [hevents]
          · exact absurd hcmd (h.2.2 hevents cmd (List.mem_of_mem_head? hhead))
        refine (left_quiet (handleConnectCommand_quiet (v := v) ⟨rfl, rfl⟩
          (agrees_agreeing v.state) cmd) hnone).andThen fun r s h => ?_
        obtain ⟨left, v'⟩ := r
        cases left with
        | true => exact left_ret h.1 fun _ h => h.mono (Nat.le_refl 0) (Nat.zero_le _)
        | false => exact hpolled v' s (h.1.mono (Nat.le_refl 0) (Nat.zero_le 1))
      · refine (handleConnectCommand_left hleft hv hcmd).andThen fun r s h => ?_
        obtain ⟨left, v'⟩ := r
        cases left with
        | true => exact left_ret (h.2 rfl) fun _ h => h
        | false => exact hpolled v' s h.1

/-- The wait, and what is served behind it. -/
theorem idle_left (hv : v.state ≠ .disabled) (hs : s.Left 0 0) :
    Steady (shared .kept) AtTake (fun v' s => s.Left 0 (slack v'.state)) (idle v) s := by
  have hwait : ∀ v' : Vars, v'.state ≠ .disabled → Steady (shared .kept) AtTake
      (fun v' s => s.Left 0 (slack v'.state))
      (do
        let userDisconnected ← perform .readUserDisconnected
        let woken ← perform (.takeSemaphore (ticksToWait v' userDisconnected))
        if woken then serve v'
        else pure { v' with retryDelayMs := min (v'.retryDelayMs * 2) retryMaxMs, state := .lastAP })
      s := by
    intro v' hv'
    refine left_call hs nofun fun asked s hs => ?_
    refine Steady.call (keeps_left .kept 0 0) hs (fun _ h _ => h) fun s woken s' hs hr => ?_
    obtain ⟨hr, hterms⟩ := hr
    cases woken with
    | true =>
        obtain ⟨-, rfl⟩ : _ ∧ { s with given := false } = s' := by simpa [answer] using hr
        exact serve_left hv' ((hterms rfl).imp .inr id)
    | false =>
        obtain ⟨-, rfl⟩ : _ ∧ s = s' := by simpa [answer] using hr
        exact left_ret hs fun _ h => h.mono (Nat.le_refl 0) (Nat.zero_le _)
  refine hwait (if v.state = .connected then { v with retryDelayMs := retryMinMs } else v) ?_
  split
  · exact hv
  · exact hv

/-- A command that arrives comes with its own give. -/
theorem disabled_left (hs : s.Left 0 1) (v : Vars) :
    Steady (shared .kept) AtTake (fun v' s => s.Left 0 (slack v'.state)) (disabled v) s := by
  refine Steady.call (keeps_left .kept 0 1) hs (fun _ _ ⟨_, htake⟩ => absurd htake nofun)
    fun s cmd s' hs hr => ?_
  obtain ⟨hhead, rfl⟩ : s.commands.head? = some cmd ∧ { s with commands := s.commands.tail } = s' := by
    simpa [shared, answer] using hr.1
  have hcovered : Shared.Left 0 0 { s with commands := s.commands.tail } := by
    refine .inl (hs.resolve_right fun h => ?_)
    rw [List.eq_nil_of_length_eq_zero (Nat.le_zero.mp h.1)] at hhead
    exact absurd hhead nofun
  refine (left_quiet (handleConnectCommand_quiet (v := v) ⟨rfl, rfl⟩ (agrees_agreeing v.state) cmd)
    hcovered).andThen fun r s h => ?_
  exact left_ret h.1 fun _ h => h.mono (Nat.le_refl 0) (Nat.zero_le _)

/-- A walk leaves nothing uncovered. -/
theorem walk_left (hs : s.Left 0 (slack v.state)) :
    Steady (shared .kept) AtTake (fun v' s => s.Left 0 (slack v'.state)) (walk v) s := by
  have hcalm : Ear.start.Calm := ⟨rfl, rfl⟩
  have hnone : v.state ≠ .disabled → s.Left 0 0 := fun h => slack_of_ne h ▸ hs
  -- On the ladder nobody takes the semaphore.
  have hclimb : ∀ {p : Connector.Task Vars} {P : Vars → Ear → Prop}, v.state ≠ .disabled →
      Safe quiet P p .start → Steady (shared .kept) AtTake (fun v' s => s.Left 0 (slack v'.state)) p s :=
    fun hv hp => (left_quiet hp (hnone hv)).mono fun _ _ h => h.1.mono (Nat.le_refl 0) (Nat.zero_le _)
  rw [walk]
  cases hv : v.state with
  | lastAP => exact hclimb (by simp [hv]) (lastAP_quiet hcalm)
  | scanning => exact hclimb (by simp [hv]) scanning_quiet
  | scannedAPs => exact hclimb (by simp [hv]) (scannedAPs_quiet hcalm hv)
  | storedAPs => exact hclimb (by simp [hv]) (storedAPs_quiet hcalm hv)
  | connected => exact idle_left (by simp [hv]) (hnone (by simp [hv]))
  | disconnected => exact idle_left (by simp [hv]) (hnone (by simp [hv]))
  | disabled => exact disabled_left (by simpa [hv, slack] using hs) v

/-- So does the check before it. -/
theorem checkDisconnect_left (hs : s.Left 0 (slack v.state)) :
    Steady (shared .kept) AtTake (fun v' s => s.Left 0 (slack v'.state)) (checkDisconnect v) s := by
  refine (left_quiet (checkDisconnect_quiet v .start) hs).mono fun v' s h => ?_
  obtain ⟨hs, e, -, hsame | ⟨-, hmoved, -, hoff⟩⟩ := h
  · rw [hsame]
    exact hs
  · rw [hmoved]
    rw [slack_of_ne hoff] at hs
    exact hs

end Walks

end Wakeup
