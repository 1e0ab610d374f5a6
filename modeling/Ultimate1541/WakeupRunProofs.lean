import Ultimate1541.WakeupQueuesProofs

/-! # Runs of the connector

    Step by step the thread, the senders and the event handler keep three things: what
    is left in the queues is covered, what the thread has heard agrees with its state,
    and the last event is the last one in the queue or, if that is empty, the last one
    heard.  Where the thread blocks they make the property. -/

namespace Wakeup

open Connector Interaction Interference

/-! ## The last event -/

/-- Unless an event was dropped, the last one is in the queue or has been heard. -/
def Known (s : Shared) (e : Ear) : Prop :=
  s.dropped = false → s.last = s.events.getLast?.or e.heard

section Last

variable {s s' : Shared} {e : Ear}

theorem Known.other {a : Act} (h : Known s e) (ha : a.step s = some s') : Known s' e := by
  cases a with
  | send cmd =>
      obtain ⟨-, rfl⟩ : _ ∧ _ = s' := by simpa [Act.step] using ha
      exact h
  | give =>
      obtain ⟨-, rfl⟩ : _ ∧ _ = s' := by simpa [Act.step] using ha
      exact h
  | event ev =>
      obtain ⟨-, rfl⟩ : _ ∧ _ = s' := by simpa [Act.step] using ha
      intro _
      simp
  | drop ev =>
      obtain ⟨-, rfl⟩ : _ ∧ _ = s' := by simpa [Act.step] using ha
      intro h
      cases h
  | eventGive =>
      cases hh : s.handler with
      | sent ev =>
          obtain rfl : _ = s' := by simpa [Act.step, hh] using ha
          exact h
      | _ => simp [Act.step, hh] at ha
  | eventDone =>
      cases hh : s.handler with
      | given ev =>
          obtain rfl : _ = s' := by simpa [Act.step, hh] using ha
          exact h
      | _ => simp [Act.step, hh] at ha
  | userDisconnect =>
      obtain rfl : _ = s' := by simpa [Act.step] using ha
      exact h

/-- An event that is taken was the last one, or leaves the last one in the queue. -/
theorem Known.taken {ev : ConnectEvent} (h : Known s e) (hhead : s.events.head? = some ev) :
    Known { s with events := s.events.tail } { e with heard := some ev } := by
  intro hdropped
  have hlast : s.last = s.events.getLast?.or e.heard := h hdropped
  show s.last = s.events.tail.getLast?.or (some ev)
  rw [hlast]
  cases hevents : s.events with
  | nil => simp [hevents] at hhead
  | cons first rest =>
      obtain rfl : first = ev := by simpa [hevents] using hhead
      rw [List.getLast?_cons]
      show some (rest.getLast?.getD first) = rest.getLast?.or (some first)
      cases rest.getLast? <;> rfl

theorem Known.answered {o : Op} {r : Resp o} (h : Known s e) (hr : answer o r s = some s') :
    Known s' (e.next o r) := by
  cases o with
  | waitCommand =>
      obtain ⟨-, rfl⟩ : _ ∧ _ = s' := by simpa [answer] using hr
      exact h
  | pollCommand =>
      obtain ⟨-, rfl⟩ : _ ∧ _ = s' := by simpa [answer] using hr
      cases r <;> exact h
  | waitEvent =>
      obtain ⟨hhead, rfl⟩ : s.events.head? = some r ∧ _ = s' := by simpa [answer] using hr
      exact h.taken hhead
  | pollEvent =>
      obtain ⟨hhead, rfl⟩ : s.events.head? = r ∧ _ = s' := by simpa [answer] using hr
      cases r with
      | none =>
          rw [List.head?_eq_none_iff] at hhead
          simpa [Known, Ear.next, hhead] using h
      | some ev => exact h.taken hhead
  | takeSemaphore ticks =>
      cases r with
      | false =>
          obtain ⟨-, rfl⟩ : _ ∧ s = s' := by simpa [answer] using hr
          exact h
      | true =>
          obtain ⟨-, rfl⟩ : _ ∧ { s with given := false } = s' := by simpa [answer] using hr
          exact h
  | readConnected | readUserDisconnected =>
      obtain ⟨-, rfl⟩ : _ ∧ s = s' := by simpa [answer] using hr
      exact h
  | clearUserDisconnected =>
      obtain rfl : { s with userDisconnected := false } = s' := by simpa [answer] using hr
      exact h
  | _ =>
      obtain rfl : s = s' := by simpa [answer] using hr
      exact h

end Last

/-! ## The invariant -/

/-- What the rest of the thread's turn keeps, wherever it is in it. -/
def Place.Good (s : Shared) (e : Ear) : Place → Prop
  | .top v => s.Left 0 (slack v.state) ∧ Agrees v.state e
  | .checking state p =>
      Steady (shared .kept) AtTake (fun v' s => s.Left 0 (slack v'.state)) p s ∧
        Safe quiet (fun v' e' => Terms.kept.check state e' → Agrees v'.state e') p e
  | .walking rung p =>
      Steady (shared .kept) AtTake (fun v' s => s.Left 0 (slack v'.state)) p s ∧
        Safe (hears rung) (Exact rung) p e

/-- The invariant of a run. -/
def System.Good (c : System) : Prop := c.place.Good c.shared c.ear ∧ Known c.shared c.ear

/-- The check keeps the state and the last event together, on the terms. -/
theorem checkDisconnect_agrees {v : Vars} {e : Ear} (h : Agrees v.state e) :
    Safe quiet (fun v' e' => Terms.kept.check v.state e' → Agrees v'.state e')
      (checkDisconnect v) e := by
  refine (checkDisconnect_quiet v e).mono fun v' e' h' hterms => ?_
  obtain ⟨hheard, hsame | ⟨hasked, hmoved, hd, hoff⟩⟩ := h'
  · rw [Agrees, hheard, hsame]
    exact h
  · refine ⟨fun hc => absurd (hmoved.symm.trans hc) (fun h => by cases h), fun _ => ?_⟩
    exact ((hterms hasked).resolve_left hd).resolve_left hoff

/-- The terms are about takes of the semaphore. -/
theorem Terms.lets_of_leaves (t : Terms) {o : Op} (ho : Leaves o) (r : Resp o) (s : Shared) :
    t.lets o r s := by
  cases o with
  | takeSemaphore ticks => exact absurd rfl (ho ticks)
  | _ => exact trivial

/-- Every run on the terms keeps it. -/
theorem Reached.good {c : System} (h : Reached .kept c) : c.Good := by
  induction h with
  | boot =>
      exact ⟨⟨.inr ⟨Nat.le_refl 0, Nat.zero_le _⟩, nofun, nofun⟩, fun _ => rfl⟩
  | @other c s a _ hstep ih =>
      obtain ⟨hgood, hknown⟩ := ih
      refine ⟨?_, hknown.other hstep⟩
      obtain ⟨place, s₀, e⟩ := c
      cases place with
      | top v => exact ⟨keeps_left .kept _ _ _ _ ⟨a, hstep⟩ hgood.1, hgood.2⟩
      | checking state p => exact ⟨hgood.1.others ⟨a, hstep⟩, hgood.2⟩
      | walking rung p => exact ⟨hgood.1.others ⟨a, hstep⟩, hgood.2⟩
  | check _ ih =>
      obtain ⟨⟨hleft, hagrees⟩, hknown⟩ := ih
      exact ⟨⟨checkDisconnect_left hleft, checkDisconnect_agrees hagrees⟩, hknown⟩
  | checkCall r _ hr ih =>
      obtain ⟨⟨hsteady, hsafe⟩, hknown⟩ := ih
      -- The check takes no semaphore, so the terms let its answers pass.
      exact ⟨⟨hsteady.answered ⟨hr, Terms.kept.lets_of_leaves hsafe.1 r _⟩, hsafe.2 r⟩,
        hknown.answered hr⟩
  | turn _ hterms ih =>
      obtain ⟨⟨hsteady, hsafe⟩, hknown⟩ := ih
      exact ⟨⟨walk_left hsteady.value, walk_hears (hsafe hterms)⟩, hknown⟩
  | walkCall r _ hr hterms ih =>
      obtain ⟨⟨hsteady, hsafe⟩, hknown⟩ := ih
      exact ⟨⟨hsteady.answered ⟨hr, hterms⟩, hsafe.2 r⟩, hknown.answered hr⟩
  | round _ hterms ih =>
      obtain ⟨⟨hsteady, hexact⟩, hknown⟩ := ih
      exact ⟨⟨hsteady.value, hexact.mpr hterms⟩, hknown⟩

theorem System.Good.right {c : System} (h : c.Good) : c.Right := by
  rintro state ⟨hgiven, ticks, k, hplace⟩ hpromised
  obtain ⟨hgood, hknown⟩ := h
  rw [hplace] at hgood
  have hleft : c.shared.Left 0 0 := hgood.1.ok_of_call ⟨ticks, rfl⟩
  obtain ⟨hcommands, hevents⟩ := hleft.resolve_left fun h => h.elim (by simp [hgiven]) hpromised
  have hnone : c.shared.events = [] := List.eq_nil_of_length_eq_zero (Nat.le_zero.mp hevents)
  refine ⟨List.eq_nil_of_length_eq_zero (Nat.le_zero.mp hcommands), hnone, fun hdropped => ?_⟩
  rw [hknown hdropped, hnone]
  exact hgood.2.1 ⟨ticks, rfl⟩

/-- In every run on the terms, wherever the thread blocks with nobody to wake it, its
    queues are empty, and its state is what the last event says. -/
theorem blocked_right {c : System} (h : Reached .kept c) : c.Right := h.good.right

/-! ## Runs on given steps -/

/-- A step of a walk that is given beforehand: another task's, or an answer. -/
inductive Move where
  | other (a : Act)
  | answer (o : Op) (r : Resp o)

/-- The call is a take of the semaphore. -/
def isTake : Op → Bool
  | .takeSemaphore _ => true
  | _ => false

theorem leaves_of_isTake {o : Op} (h : isTake o = false) : Leaves o := by
  rintro ticks rfl
  exact absurd h nofun

/-- Steps given beforehand, none of which takes the semaphore. -/
def play : List Move → Connector.Task Vars → Shared → Ear →
    Option (Connector.Task Vars × Shared × Ear)
  | [], p, s, e => some (p, s, e)
  | .other a :: moves, p, s, e => (a.step s).bind fun s' => play moves p s' e
  | .answer o r :: moves, .call o' k, s, e =>
      if h : o = o' ∧ isTake o = false then
        (Wakeup.answer o r s).bind fun s' => play moves (k (h.1 ▸ r)) s' (e.next o r)
      else none
  | _, _, _, _ => none

/-- They are steps of a run. -/
theorem Reached.play {t : Terms} {rung : ConnectState} (moves : List Move) :
    ∀ {p p' : Connector.Task Vars} {s s' : Shared} {e e' : Ear},
      Reached t ⟨.walking rung p, s, e⟩ → play moves p s e = some (p', s', e') →
      Reached t ⟨.walking rung p', s', e'⟩ := by
  induction moves with
  | nil =>
      intro p p' s s' e e' h hplay
      cases hplay
      exact h
  | cons move moves ih =>
      intro p p' s s' e e' h hplay
      cases move with
      | other a =>
          obtain ⟨s₁, hstep, hplay⟩ := Option.bind_eq_some_iff.mp hplay
          exact ih (h.other a hstep) hplay
      | answer o r =>
          cases p with
          | ret v => exact absurd hplay nofun
          | call o' k =>
              by_cases ho : o = o' ∧ isTake o = false
              · obtain ⟨rfl, htake⟩ := ho
                rw [Wakeup.play, dif_pos ⟨rfl, htake⟩] at hplay
                obtain ⟨s₁, hanswer, hplay⟩ := Option.bind_eq_some_iff.mp hplay
                exact ih (h.walkCall r hanswer (t.lets_of_leaves (leaves_of_isTake htake) r s)) hplay
              · rw [Wakeup.play, dif_neg ho] at hplay
                exact absurd hplay nofun

/-- A walk begins while nobody has asked for a disconnect. -/
theorem Reached.begins {t : Terms} {v : Vars} {s : Shared} {e : Ear} (h : Reached t ⟨.top v, s, e⟩)
    (hu : s.userDisconnected = false) (hterms : t.check v.state { e with asked := false }) :
    Reached t ⟨.walking v.state (walk v), s, e.fresh⟩ := by
  have hread : Reached t ⟨.checking v.state (.ret v), s, { e with asked := false }⟩ :=
    h.check.checkCall (o := .readUserDisconnected) false (by simp [answer, hu])
  exact hread.turn hterms

/-- The thread's variables once it is on a network. -/
def onNetwork : Vars := { Vars.start with state := .connected, last := ⟨[], [], 3, 0⟩ }

/-- The answers with which the thread joins the network it was on last, and the events
    of the driver. -/
def joining : List Move :=
  [.answer .readLast (some 0), .answer (.readStored 0) (some ([], [], 3)),
    .answer .readConnected false, .answer (.espSetConfig [] [] 3) true, .answer .espConnect true,
    .other (.event .connected), .answer .waitEvent .connected, .other .eventGive, .other .eventDone]

/-- What is shared then, with some commands sent behind. -/
def joined (commands : List ConnectCommand) : Shared :=
  ⟨commands, [], true, 0, .idle, true, false, some .connected, false⟩

/-- On any terms the thread joins the network, and commands are sent. -/
theorem reached_joined {t : Terms} (hcheck : t.check .lastAP { Ear.start with asked := false })
    (hwalk : ∀ e, t.walk .lastAP e) (sends : List Move) (commands : List ConnectCommand)
    (hsends : play (joining ++ sends) (walk Vars.start) .start Ear.start.fresh =
      some (.ret onNetwork, joined commands, ⟨some .connected, none, false, true, false, false⟩)) :
    Reached t ⟨.top onNetwork, joined commands, ⟨some .connected, none, false, true, false, false⟩⟩ :=
  (((Reached.boot (t := t)).begins rfl hcheck).play (joining ++ sends) hsends).round (hwalk _)

/-- A scan request without anything but its code. -/
def scanCommand : ConnectCommand := ⟨[], [], 0, .wifiScan, 0, none⟩

/-- The driver refuses the scan. -/
def scanned : List Move :=
  [.answer .pollCommand (some scanCommand), .answer .scanStart false,
    .answer (.transmit scanCommand false (some 0)) (), .answer .pollEvent none]

/-- One scan request: it is served, and the thread blocks with empty queues. -/
theorem blocked_right_scan :
    ∃ c : System, Reached .kept c ∧ c.Blocked .connected ∧ ¬ c.shared.Promised ∧ c.Right := by
  have hjoined := reached_joined (t := .kept) nofun (fun _ => trivial)
    [.other (.send scanCommand), .other .give] [scanCommand] rfl
  have hidle := (hjoined.begins rfl nofun).play [.answer .readUserDisconnected false] rfl
  have htaken := hidle.walkCall (o := .takeSemaphore none) true rfl fun _ =>
    .inr ⟨Nat.le_refl 1, Nat.zero_le 1, fun h => absurd rfl h⟩
  have hserved := (htaken.play scanned rfl).round nofun
  have hblocked := (hserved.begins rfl nofun).play [.answer .readUserDisconnected false] rfl
  refine ⟨_, hblocked, ⟨rfl, none, _, rfl⟩, ?_, blocked_right hblocked⟩
  rintro (h | ⟨ev, h⟩)
  · exact absurd h (Nat.lt_irrefl 0)
  · exact absurd h nofun

/-- Two scan requests whose senders both give before the thread takes: one of them is
    served, and the thread blocks with the other one in its queue. -/
theorem blocked_with_command : ∃ c : System, Reached .none c ∧ ¬ c.Right := by
  have hjoined := reached_joined (t := .none) trivial (fun _ => trivial)
    [.other (.send scanCommand), .other (.send scanCommand), .other .give, .other .give]
    [scanCommand, scanCommand] rfl
  have hidle := (hjoined.begins rfl trivial).play [.answer .readUserDisconnected false] rfl
  have htaken := hidle.walkCall (o := .takeSemaphore none) true rfl fun _ => trivial
  have hserved := (htaken.play scanned rfl).round trivial
  have hblocked := (hserved.begins rfl trivial).play [.answer .readUserDisconnected false] rfl
  refine ⟨_, hblocked, fun hright => ?_⟩
  obtain ⟨hcommands, -⟩ := hright .connected ⟨rfl, none, _, rfl⟩ <| by
    rintro (h | ⟨ev, h⟩)
    · exact absurd h (Nat.lt_irrefl 0)
    · exact absurd h nofun
  exact absurd hcommands nofun

end Wakeup
