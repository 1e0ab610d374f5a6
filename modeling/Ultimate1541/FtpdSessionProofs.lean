import Ultimate1541.FtpdProofs

/-! # What a control connection of the FTP server does

    The command buffer holds what its size allows of the unfinished line, so each line that is
    not empty is dispatched once, cut to the size of the buffer.  What the handlers do is
    judged by the log: a command that needs the login has a `PASS` before it that gave the
    password, and a file is renamed from the name of the last `RNFR` that was accepted, which
    serves for one rename only. -/

namespace Ftpd

/-! ## Lines -/

/-- The lines that end among the bytes, except the empty ones; `line` has begun before them. -/
def linesFrom (line : List UInt8) : List UInt8 → List (List UInt8)
  | [] => []
  | b :: bytes =>
      if Thread.isEnd b then
        if line = [] then linesFrom [] bytes else line :: linesFrom [] bytes
      else linesFrom (line ++ [b]) bytes

/-- The lines of a stream, except the empty ones. -/
def lines (bytes : List UInt8) : List (List UInt8) := linesFrom [] bytes

/-- What is dispatched of a line. -/
def cut (line : List UInt8) : List UInt8 := line.take (commandBufferSize - 1)

/-- The lines that were dispatched. -/
def dispatchedLines (log : List Event) : List (List UInt8) :=
  log.filterMap fun
    | .dispatched line => some line
    | _ => none

@[simp] theorem dispatchedLines_append (xs ys : List Event) :
    dispatchedLines (xs ++ ys) = dispatchedLines xs ++ dispatchedLines ys := List.filterMap_append

namespace Thread

/-- The command buffer has the bytes of the unfinished line, as far as it goes. -/
structure At (t : Thread) (line : List UInt8) : Prop where
  idx : t.idx = min line.length (commandBufferSize - 1)
  bytes : ∀ i < t.idx, t.commandBuffer i = line.getD i 0
  noEnd : ∀ b ∈ line, isEnd b = false

theorem At.idx_lt {t : Thread} {line : List UInt8} (h : At t line) : t.idx < commandBufferSize := by
  have := h.idx
  rw [commandBufferSize] at this ⊢
  omega

/-- What is in use of the command buffer is what will be dispatched. -/
theorem At.line_eq {t : Thread} {line : List UInt8} (h : At t line) : t.line t.idx = cut line := by
  have hlen : t.idx = (cut line).length := by rw [cut, List.length_take, Nat.min_comm]; exact h.idx
  refine List.ext_getElem (by rw [Thread.line, List.length_map, List.length_range, hlen]) fun i hi hi' => ?_
  have hin : i < t.idx := by rw [hlen]; exact hi'
  have hline : i < line.length := by have := h.idx; omega
  simp only [Thread.line, List.getElem_map, List.getElem_range, cut, List.getElem_take]
  rw [h.bytes i hin, List.getD_eq_getElem _ _ hline]

/-- A byte that does not end the line goes behind what is in use, or, in a full buffer, on the
    place of the last one. -/
theorem At.byte {t : Thread} {line : List UInt8} {b : UInt8} (h : At t line) (hb : isEnd b = false)
    (password : List UInt8) (env : Nat → Env) : At (t.receive password env b) (line ++ [b]) := by
  have hidx := h.idx
  have hnext : (t.receive password env b).idx = min (line.length + 1) (commandBufferSize - 1) := by
    rw [receive, if_neg (by rw [hb]; exact Bool.false_ne_true)]
    show (if t.idx + 1 ≥ commandBufferSize then commandBufferSize - 1 else t.idx + 1) = _
    rw [commandBufferSize] at hidx ⊢
    split <;> omega
  have hbuf : ∀ a, (t.receive password env b).commandBuffer a =
      if a = t.idx then b else t.commandBuffer a := by
    intro a
    rw [receive, if_neg (by rw [hb]; exact Bool.false_ne_true)]
    rfl
  refine ⟨by rw [hnext, List.length_append]; rfl, fun i hi => ?_, fun x hx => ?_⟩
  · rw [hnext] at hi
    rw [hbuf]
    by_cases hat : i = t.idx
    · -- the place behind the line, since a full buffer does not count its last place
      have hlen : i = line.length := by rw [commandBufferSize] at hidx hi; omega
      rw [if_pos hat, hlen, List.getD_append_right _ _ _ _ (Nat.le_refl _), Nat.sub_self]
      rfl
    · have hlt : i < t.idx := by omega
      rw [if_neg hat, h.bytes i hlt, List.getD_append _ _ _ _ (by omega)]
  · obtain hx | hx := List.mem_append.mp hx
    · exact h.noEnd x hx
    · exact List.mem_singleton.mp hx ▸ hb

/-- The line in the command buffer has no end in it that would be trimmed. -/
theorem At.trim {t : Thread} {line : List UInt8} (h : At t line) {t' : Thread}
    (hsame : ∀ i < t.idx, t'.commandBuffer i = t.commandBuffer i) : Thread.trim t.idx t' = t' := by
  cases hidx : t.idx with
  | zero => rfl
  | succ length =>
      have hlt : length < t.idx := by omega
      have hline : length < line.length := by have := h.idx; omega
      have hbyte : t'.commandBuffer length = (line)[length] := by
        rw [hsame length hlt, h.bytes length hlt, List.getD_eq_getElem _ _ hline]
      have hno := h.noEnd (line)[length] (List.getElem_mem hline)
      have hend : ¬(t'.commandBuffer length = 0x0D ∨ t'.commandBuffer length = 0x0A) := by
        rw [hbyte]
        intro hor
        rw [isEnd, decide_eq_false_iff_not] at hno
        exact hno hor.symm
      rw [Thread.trim, if_neg hend]

end Thread

/-! ## Judging the log -/

/-- `Q before e` holds of every event of the log. -/
def Every (Q : List Event → Event → Prop) (log : List Event) : Prop :=
  ∀ before e after, log = before ++ e :: after → Q before e

theorem every_nil (Q : List Event → Event → Prop) : Every Q [] := fun before _ _ h => by simp at h

theorem every_append {Q : List Event → Event → Prop} {log : List Event} {e : Event} (h : Every Q log)
    (he : Q log e) : Every Q (log ++ [e]) := by
  intro before x after hsplit
  obtain rfl | ⟨init, last, rfl⟩ := List.eq_nil_or_concat after
  · obtain ⟨rfl, hx⟩ := List.append_inj' hsplit rfl
    injection hx with hx
    exact hx ▸ he
  · have hcut : log ++ [e] = (before ++ x :: init) ++ [last] := by
      rw [hsplit, List.concat_eq_append, List.append_assoc, List.cons_append]
    exact h before x init (List.append_inj_left' hcut rfl)

/-- The password was given, if one is set. -/
def LoggedIn (password : List UInt8) (log : List Event) : Prop :=
  ∃ arg, .handled .pass arg ∈ log ∧ (password = [] ∨ arg = password)

/-- The name that the next rename is from, after an event. -/
def pendingAfter (pending : Option (List UInt8)) : Event → Option (List UInt8)
  | .handled .rnfr arg => if arg = [] then pending else some arg
  | .rename _ _ => none
  | _ => pending

/-- The name of the last `RNFR` that was accepted, unless it was renamed from. -/
def pending (log : List Event) : Option (List UInt8) := log.foldl pendingAfter none

/-- The commands that need no login. -/
def needsNoLogin : Command → Bool
  | .user | .pass | .quit => true
  | _ => false

/-- What is asked of an event with the log before it. -/
def Allowed (password : List UInt8) (before : List Event) : Event → Prop
  | .handled command _ => needsNoLogin command = true ∨ LoggedIn password before
  | .rename source _ => ∃ name, source = some name ∧ pending before = some name
  | _ => True

theorem LoggedIn.append {password : List UInt8} {log : List Event} (h : LoggedIn password log)
    (more : List Event) : LoggedIn password (log ++ more) := by
  obtain ⟨arg, hmem, harg⟩ := h
  exact ⟨arg, List.mem_append_left more hmem, harg⟩

@[simp] theorem pending_append (log : List Event) (e : Event) :
    pending (log ++ [e]) = pendingAfter (pending log) e := by
  simp [pending]

/-- A pending name comes from an `RNFR` behind which there is neither another nor a rename. -/
theorem pending_eq_some {log : List Event} {name : List UInt8} (h : pending log = some name) :
    ∃ before after, log = before ++ .handled .rnfr name :: after ∧ name ≠ [] ∧
      (∀ source target, .rename source target ∉ after) ∧
      ∀ arg, .handled .rnfr arg ∈ after → arg = [] := by
  induction log using List.reverseRecOn with
  | nil => exact nomatch h
  | append_singleton log e ih =>
      rw [pending_append] at h
      -- an event that leaves the pending name alone
      have hkeep : pending log = some name → (∀ source target, e ≠ .rename source target) →
          (∀ arg, e = .handled .rnfr arg → arg = []) →
          ∃ before after, log ++ [e] = before ++ .handled .rnfr name :: after ∧ name ≠ [] ∧
            (∀ source target, .rename source target ∉ after) ∧
            ∀ arg, .handled .rnfr arg ∈ after → arg = [] := by
        intro hlog hrename hrnfr
        obtain ⟨before, after, rfl, hname, hno, hlast⟩ := ih hlog
        refine ⟨before, after ++ [e], by simp, hname, fun source target hmem => ?_, fun arg hmem => ?_⟩
        · obtain hmem | hmem := List.mem_append.mp hmem
          · exact hno source target hmem
          · exact hrename source target (List.mem_singleton.mp hmem).symm
        · obtain hmem | hmem := List.mem_append.mp hmem
          · exact hlast arg hmem
          · exact hrnfr arg (List.mem_singleton.mp hmem).symm
      cases e with
      | dispatched line => exact hkeep h nofun nofun
      | reply code => exact hkeep h nofun nofun
      | rename source target => exact nomatch h
      | handled command arg =>
          by_cases hcmd : command = .rnfr
          · subst hcmd
            by_cases hnil : arg = []
            · rw [pendingAfter, if_pos hnil] at h
              refine hkeep h nofun fun x hx => ?_
              injection hx with _ hx
              exact hx ▸ hnil
            · rw [pendingAfter, if_neg hnil] at h
              injection h with h
              subst h
              exact ⟨log, [], rfl, hnil, nofun, nofun⟩
          · have hsame : pendingAfter (pending log) (.handled command arg) = pending log := by
              cases command <;> first | rfl | exact absurd rfl hcmd
            rw [hsame] at h
            refine hkeep h nofun fun x hx => ?_
            injection hx with hx _
            exact absurd hx hcmd

namespace Thread

/-- What a connection keeps: who is logged in gave the password, and in the state for a rename
    there is a name to rename from. -/
structure Session (password : List UInt8) (t : Thread) : Prop where
  login : t.authenticated = true → LoggedIn password t.log
  rnfr : t.state = .rnfr → ∃ name, t.renamefrom = some name ∧ pending t.log = some name
  allowed : Every (Allowed password) t.log

theorem Session.reply {password : List UInt8} {t : Thread} (h : Session password t) (code : Nat) :
    Session password (t.send code) where
  login hauth := (h.login hauth).append _
  rnfr hstate := by
    obtain ⟨name, hname, hpending⟩ := h.rnfr hstate
    exact ⟨name, hname, (pending_append t.log _).trans hpending⟩
  allowed := every_append h.allowed trivial

/-- A handler that only leaves the state for a rename. -/
theorem Session.leave {password : List UInt8} {t t' : Thread} (h : Session password t)
    (hauth : t'.authenticated = t.authenticated) (hlog : t'.log = t.log) (hstate : t'.state ≠ .rnfr) :
    Session password t' where
  login ha := hlog ▸ h.login (hauth ▸ ha)
  rnfr hs := absurd hs hstate
  allowed := hlog ▸ h.allowed

/-- The record that a handler runs leaves a pending name alone, unless it is an `RNFR`. -/
theorem Session.handled {password arg : List UInt8} {command : Command} {t : Thread} (h : Session password t)
    (hlogin : needsNoLogin command = true ∨ t.authenticated = true) (hcmd : command ≠ .rnfr) :
    Session password { t with log := t.log ++ [.handled command arg] } where
  login hauth := (h.login hauth).append _
  rnfr hstate := by
    obtain ⟨name, hname, hpending⟩ := h.rnfr hstate
    have hsame : pendingAfter (pending t.log) (.handled command arg) = pending t.log := by
      cases command <;> first | rfl | exact absurd rfl hcmd
    exact ⟨name, hname, (pending_append t.log _).trans (hsame.trans hpending)⟩
  allowed := every_append h.allowed (hlogin.imp id h.login)

/-- `RNFR`: an argument becomes the pending name. -/
theorem Session.rnfrRuns {password arg : List UInt8} {t : Thread} (h : Session password t)
    (hlogin : t.authenticated = true) :
    Session password (cmdRnfr arg { t with log := t.log ++ [.handled .rnfr arg] }) := by
  have hall : Every (Allowed password) (t.log ++ [.handled .rnfr arg]) :=
    every_append h.allowed (.inr (h.login hlogin))
  rw [cmdRnfr]
  split
  next hnil =>
    refine Session.reply (t := { t with log := t.log ++ [.handled .rnfr arg] })
      ⟨fun hauth => (h.login hauth).append _, fun hstate => ?_, hall⟩ 501
    obtain ⟨name, hname, hpending⟩ := h.rnfr hstate
    refine ⟨name, hname, (pending_append t.log _).trans ?_⟩
    rw [pendingAfter, if_pos hnil, hpending]
  next hne =>
    refine ⟨fun hauth => ((h.login hauth).append _).append _, fun _ => ⟨arg, rfl, ?_⟩, every_append hall trivial⟩
    calc pending (t.log ++ [.handled .rnfr arg] ++ [.reply 350])
        = pending (t.log ++ [.handled .rnfr arg]) := pending_append _ _
      _ = if arg = [] then pending t.log else some arg := pending_append _ _
      _ = some arg := if_neg hne

/-- `RNTO`: a rename is from the pending name, and leaves the state for it. -/
theorem Session.rntoRuns {password arg : List UInt8} {env : Env} {t : Thread} (h : Session password t) :
    Session password (cmdRnto env arg t) := by
  rw [cmdRnto]
  split
  next => exact h.reply 503
  next hstate =>
    obtain ⟨name, hname, hpending⟩ := h.rnfr (not_not.mp hstate)
    split
    next => exact (h.reply 501).leave rfl rfl nofun
    next =>
      have hall : Every (Allowed password)
          (t.log ++ [.rename t.renamefrom arg] ++ [.reply (if env.rename then 250 else 450)]) :=
        every_append (every_append h.allowed ⟨name, hname, hpending⟩) trivial
      refine ⟨fun hauth => (h.login hauth).append _, nofun, ?_⟩
      simpa only [List.append_assoc, List.cons_append, List.nil_append] using hall

/-- `PASS`: who is authenticated by it gave the password. -/
theorem Session.passRuns {password arg : List UInt8} {t : Thread}
    (h : Session password t) (hrecord : .handled .pass arg ∈ t.log) :
    Session password (cmdPass password arg t) := by
  rw [cmdPass]
  split
  next hok =>
    have hlogin : LoggedIn password t.log := ⟨arg, hrecord, hok⟩
    exact ⟨fun _ => hlogin.append _, nofun, (h.reply 230).allowed⟩
  next => exact (h.reply 530).leave rfl rfl nofun

/-- A handler that may run keeps the session. -/
theorem Session.runs {password arg : List UInt8} {env : Env} {command : Command} {t : Thread}
    (h : Session password t) (hlogin : needsNoLogin command = true ∨ t.authenticated = true) :
    Session password (handle password env command arg { t with log := t.log ++ [.handled command arg] }) := by
  by_cases hcmd : command = .rnfr
  · subst hcmd
    exact h.rnfrRuns (hlogin.resolve_left Bool.false_ne_true)
  · have hrecord := @Session.handled password arg command t h hlogin hcmd
    cases command with
    | rnfr => exact absurd rfl hcmd
    | user => exact (hrecord.reply 331).leave rfl rfl nofun
    | pass => exact hrecord.passRuns (List.mem_append_right _ List.mem_cons_self)
    | quit => exact (hrecord.reply 221).leave rfl rfl nofun
    | list | nlst | mlsd =>
        rw [handle, cmdListCommon]
        split
        · exact hrecord.leave rfl rfl nofun
        · exact hrecord.reply 451
    | abrt => exact hrecord.leave rfl rfl nofun
    | rnto => exact hrecord.rntoRuns
    | _ => exact hrecord

/-- The first three entries of the table are the commands that need no login. -/
theorem needsNoLogin_of_findIdx {p : List UInt8 × Command → Bool} {e : List UInt8 × Command}
    (hidx : ¬commands.findIdx p > lastUnauthenticatedCommandIndex) (hfind : commands.find? p = some e) :
    needsNoLogin e.2 = true := by
  rw [commands] at hidx hfind
  rw [List.find?_cons] at hfind
  rw [List.findIdx_cons] at hidx
  cases huser : p (ascii "USER", .user) with
  | true =>
      rw [huser] at hfind
      injection hfind with he
      rw [← he]
      rfl
  | false =>
      rw [huser] at hfind hidx
      rw [List.find?_cons] at hfind
      rw [List.findIdx_cons] at hidx
      cases hpass : p (ascii "PASS", .pass) with
      | true =>
          rw [hpass] at hfind
          injection hfind with he
          rw [← he]
          rfl
      | false =>
          rw [hpass] at hfind hidx
          rw [List.find?_cons] at hfind
          rw [List.findIdx_cons] at hidx
          cases hquit : p (ascii "QUIT", .quit) with
          | true =>
              rw [hquit] at hfind
              injection hfind with he
              rw [← he]
              rfl
          | false =>
              rw [hquit] at hidx
              exact absurd (by simp only [lastUnauthenticatedCommandIndex, cond_false]; omega) hidx

theorem Session.dispatchText {password text : List UInt8} {env : Env} {t : Thread} (h : Session password t) :
    Session password (Thread.dispatchText password env text t) := by
  rw [Thread.dispatchText]
  split
  next => exact h.reply 530
  next hallowed =>
    cases hfind : commands.find? (·.1 = verb text) with
    | none => exact h.reply 502
    | some e =>
        refine h.runs ?_
        by_cases hauth : t.authenticated = false
        · exact .inl (needsNoLogin_of_findIdx (fun hidx => hallowed ⟨hauth, hidx⟩) hfind)
        · exact .inr (Bool.not_eq_false _ ▸ hauth)

/-- What a handler does not touch. -/
structure Frame (t t' : Thread) : Prop where
  commandBuffer : t'.commandBuffer = t.commandBuffer
  idx : t'.idx = t.idx
  writes : t'.writes = t.writes
  dispatched : dispatchedLines t'.log = dispatchedLines t.log

theorem Frame.append {t t' : Thread} {es : List Event} (h : Frame t t') (hes : dispatchedLines es = []) :
    Frame t { t' with log := t'.log ++ es } :=
  ⟨h.commandBuffer, h.idx, h.writes, by rw [dispatchedLines_append, hes, List.append_nil, h.dispatched]⟩

theorem Frame.refl (t : Thread) : Frame t t := ⟨rfl, rfl, rfl, rfl⟩

theorem Frame.handle {password arg : List UInt8} {env : Env} {command : Command} {t t' : Thread} (h : Frame t t') :
    Frame t (Thread.handle password env command arg t') := by
  have hsend : ∀ code, Frame t (t'.send code) := fun code => h.append rfl
  -- every handler sends, renames, or sets fields that are not in the frame
  have hset : ∀ u : Thread, Frame t u → ∀ u' : Thread, u'.commandBuffer = u.commandBuffer → u'.idx = u.idx →
      u'.writes = u.writes → u'.log = u.log → Frame t u' := fun u hu u' h1 h2 h3 h4 =>
    ⟨h1.trans hu.commandBuffer, h2.trans hu.idx, h3.trans hu.writes, h4 ▸ hu.dispatched⟩
  cases command with
  | user => exact hset _ (hsend 331) _ rfl rfl rfl rfl
  | pass =>
      rw [Thread.handle, cmdPass]
      split
      · exact hset _ (hsend 230) _ rfl rfl rfl rfl
      · exact hset _ (hsend 530) _ rfl rfl rfl rfl
  | quit => exact hset _ (hsend 221) _ rfl rfl rfl rfl
  | list | nlst | mlsd =>
      rw [Thread.handle, cmdListCommon]
      split
      · exact hset _ h _ rfl rfl rfl rfl
      · exact hsend 451
  | abrt => exact hset _ h _ rfl rfl rfl rfl
  | rnfr =>
      rw [Thread.handle, cmdRnfr]
      split
      · exact hsend 501
      · exact hset _ (hsend 350) _ rfl rfl rfl rfl
  | rnto =>
      rw [Thread.handle, cmdRnto]
      split
      · exact hsend 503
      · split
        · exact hset _ (hsend 501) _ rfl rfl rfl rfl
        · exact hset _ (@Frame.append _ _ [.rename t'.renamefrom arg, .reply (if env.rename then 250 else 450)] h rfl)
            _ rfl rfl rfl rfl
  | _ => exact h

theorem Frame.dispatchText {password text : List UInt8} {env : Env} {t : Thread} :
    Frame t (Thread.dispatchText password env text t) := by
  rw [Thread.dispatchText]
  split
  next => exact (Frame.refl t).append rfl
  next =>
    cases commands.find? (·.1 = verb text) with
    | none => exact (Frame.refl t).append rfl
    | some e => exact Frame.handle ((Frame.refl t).append rfl)

/-! ## A whole connection -/

/-- What holds of a connection between two bytes, when `line` is the unfinished line. -/
structure Kept (password : List UInt8) (t : Thread) (line : List UInt8) : Prop where
  at_line : At t line
  session : Session password t
  writes : ∀ w ∈ t.writes, w < commandBufferSize

theorem Kept.write_writes {password line : List UInt8} {t : Thread} (h : Kept password t line) (b : UInt8) :
    ∀ w ∈ (t.write t.idx b).writes, w < commandBufferSize := by
  intro w hw
  obtain hw | hw := List.mem_append.mp hw
  · exact h.writes w hw
  · exact List.mem_singleton.mp hw ▸ h.at_line.idx_lt

theorem Kept.idx_pos {password line : List UInt8} {t : Thread} (h : Kept password t line) :
    0 < t.idx ↔ line ≠ [] := by
  have hidx := h.at_line.idx
  rw [← List.length_pos_iff]
  rw [commandBufferSize] at hidx
  omega

/-- A byte that does not end the line. -/
theorem Kept.byte {password line : List UInt8} {t : Thread} {b : UInt8} (h : Kept password t line)
    (hb : isEnd b = false) (env : Nat → Env) :
    Kept password (t.receive password env b) (line ++ [b]) ∧ (t.receive password env b).log = t.log := by
  have hnot : ¬isEnd b = true := by rw [hb]; exact Bool.false_ne_true
  refine ⟨⟨h.at_line.byte hb password env, ?_, ?_⟩, ?_⟩
  · rw [receive, if_neg hnot]
    exact ⟨h.session.login, h.session.rnfr, h.session.allowed⟩
  · rw [receive, if_neg hnot]
    exact h.write_writes b
  · rw [receive, if_neg hnot]
    rfl

/-- The end of an empty line. -/
theorem Kept.emptyLine {password : List UInt8} {t : Thread} {b : UInt8} (h : Kept password t [])
    (hb : isEnd b = true) (env : Nat → Env) :
    Kept password (t.receive password env b) [] ∧ (t.receive password env b).log = t.log := by
  have hzero : ¬t.idx > 0 := fun hpos => h.idx_pos.mp hpos rfl
  have hidx : t.idx = 0 := by omega
  rw [receive, if_pos hb, if_neg hzero]
  refine ⟨⟨⟨hidx, fun i hi => ?_, nofun⟩, ?_, ?_⟩, rfl⟩
  · have hlt : i < t.idx := hi
    omega
  · exact ⟨h.session.login, h.session.rnfr, h.session.allowed⟩
  · intro w hw
    obtain hw | hw := List.mem_append.mp hw
    · exact h.write_writes b w hw
    · exact List.mem_singleton.mp hw ▸ h.at_line.idx_lt

/-- The end of a line that is not empty dispatches it. -/
theorem Kept.endLine {password line : List UInt8} {t : Thread} {b : UInt8} (h : Kept password t line)
    (hline : line ≠ []) (hb : isEnd b = true) (env : Nat → Env) :
    Kept password (t.receive password env b) [] ∧
      dispatchedLines (t.receive password env b).log = dispatchedLines t.log ++ [cut line] := by
  have hpos : t.idx > 0 := h.idx_pos.mpr hline
  obtain ⟨u, hu⟩ : ∃ u : Thread, u = (t.write t.idx b).write t.idx 0 := ⟨_, rfl⟩
  -- the terminator goes behind what is in use
  have hsame : ∀ i < t.idx, u.commandBuffer i = t.commandBuffer i := by
    intro i hi
    have hne : i ≠ t.idx := Nat.ne_of_lt hi
    rw [hu]
    simp [write, hne]
  have hlog : u.log = t.log := by rw [hu]; rfl
  have htrim : Thread.trim t.idx u = u := h.at_line.trim hsame
  have hcut : u.line t.idx = cut line := by
    rw [← h.at_line.line_eq]
    exact List.map_congr_left fun i hi => hsame i (List.mem_range.mp hi)
  have hwrites : ∀ w ∈ u.writes, w < commandBufferSize := by
    intro w hw
    rw [hu] at hw
    obtain hw | hw := List.mem_append.mp hw
    · exact h.write_writes b w hw
    · exact List.mem_singleton.mp hw ▸ h.at_line.idx_lt
  have hsession : Session password { u with log := u.log ++ [.dispatched (u.line t.idx)] } := by
    refine ⟨fun hauth => ?_, fun hstate => ?_, every_append (hlog ▸ h.session.allowed) trivial⟩
    · have : t.authenticated = true := by rw [hu] at hauth; exact hauth
      exact (hlog ▸ h.session.login this).append _
    · have : t.state = .rnfr := by rw [hu] at hstate; exact hstate
      obtain ⟨name, hname, hpending⟩ := h.session.rnfr this
      refine ⟨name, by rw [hu]; exact hname, (pending_append u.log _).trans ?_⟩
      rw [hlog]
      exact hpending
  have hdone := @Session.dispatchText password (u.text t.idx) (env t.count) _ hsession
  have hframe := @Frame.dispatchText password (u.text t.idx) (env t.count)
    { u with log := u.log ++ [.dispatched (u.line t.idx)] }
  have hcount : u.count = t.count := by rw [hu]; rfl
  rw [receive, if_pos hb, if_pos hpos, ← hu, dispatchCommand, htrim, hcount]
  refine ⟨⟨⟨rfl, fun i hi => absurd hi (Nat.not_lt_zero i), nofun⟩,
    ⟨hdone.login, hdone.rnfr, hdone.allowed⟩, ?_⟩, ?_⟩
  · intro w hw
    exact hwrites w (hframe.writes ▸ hw)
  · refine hframe.dispatched.trans ?_
    rw [dispatchedLines_append, hlog, hcut]
    rfl

/-- As long as the socket is open, every line that ends is dispatched. -/
theorem run_kept {password : List UInt8} {env : Nat → Env} {bytes : List UInt8} :
    ∀ {t : Thread} {line : List UInt8}, Kept password t line →
      ∃ line' taken, Kept password (run password env bytes t) line' ∧
        dispatchedLines (run password env bytes t).log = dispatchedLines t.log ++ taken ∧
        taken <+: (linesFrom line bytes).map cut ∧
        ((run password env bytes t).open = true → taken = (linesFrom line bytes).map cut) := by
  induction bytes with
  | nil =>
      intro t line h
      exact ⟨line, [], h, (List.append_nil _).symm, List.nil_prefix, fun _ => rfl⟩
  | cons b bytes ih =>
      intro t line h
      rw [run]
      by_cases hopen : t.open = true
      · rw [if_pos hopen, linesFrom]
        by_cases hb : isEnd b = true
        · rw [if_pos hb]
          by_cases hline : line = []
          · subst hline
            rw [if_pos rfl]
            obtain ⟨hkept, hlog⟩ := h.emptyLine hb env
            obtain ⟨line', taken, hrun, hdisp, htaken⟩ := ih hkept
            exact ⟨line', taken, hrun, by rw [hdisp, hlog], htaken⟩
          · rw [if_neg hline]
            obtain ⟨hkept, hlog⟩ := h.endLine hline hb env
            obtain ⟨line', taken, hrun, hdisp, htaken, hall⟩ := ih hkept
            refine ⟨line', cut line :: taken, hrun, ?_, ?_, fun ho => ?_⟩
            · rw [hdisp, hlog, List.append_assoc]
              rfl
            · rw [List.map_cons]
              exact List.prefix_cons_inj _ |>.mpr htaken
            · rw [List.map_cons, hall ho]
        · rw [if_neg hb]
          obtain ⟨hkept, hlog⟩ := h.byte (Bool.not_eq_true _ ▸ hb) env
          obtain ⟨line', taken, hrun, hdisp, htaken⟩ := ih hkept
          exact ⟨line', taken, hrun, by rw [hdisp, hlog], htaken⟩
      · rw [if_neg hopen]
        exact ⟨line, [], h, (List.append_nil _).symm, List.nil_prefix, fun ho => absurd ho hopen⟩

/-- The socket is open as long as every message is sent. -/
theorem run_open {password : List UInt8} {env : Nat → Env} (hsent : ∀ n, (env n).sent = true)
    {bytes : List UInt8} : ∀ {t : Thread}, t.open = true → (run password env bytes t).open = true := by
  induction bytes with
  | nil => exact fun h => h
  | cons b bytes ih =>
      intro t h
      rw [run, if_pos h]
      refine ih ?_
      rw [receive]
      split
      · split
        · show (t.open && (env t.count).sent) = true
          rw [h, hsent]
          rfl
        · exact h
      · exact h

theorem kept_start (password : List UInt8) (buffer : Nat → UInt8) : Kept password (start buffer) [] where
  at_line := ⟨rfl, fun i hi => absurd hi (Nat.not_lt_zero i), nofun⟩
  session := ⟨nofun, nofun, every_append (every_nil _) trivial⟩
  writes := nofun

/-- On every control connection: the lines that are not empty are dispatched, in order, each
    once and cut to the size of the command buffer, until the server cannot send; the command
    buffer is not written outside; a command that needs the login runs only behind a `PASS`
    with the password; and a rename is from the name of an accepted `RNFR` behind which there
    is neither another accepted one nor a rename. -/
theorem handleConnection_session (password : List UInt8) (env : Nat → Env) (buffer : Nat → UInt8)
    (bytes : List UInt8) :
    (dispatchedLines (run password env bytes (start buffer)).log <+: (lines bytes).map cut ∧
      ((run password env bytes (start buffer)).open = true →
        dispatchedLines (run password env bytes (start buffer)).log = (lines bytes).map cut) ∧
      ((∀ n, (env n).sent = true) → (run password env bytes (start buffer)).open = true)) ∧
    (∀ w ∈ (run password env bytes (start buffer)).writes, w < commandBufferSize) ∧
    (∀ before command arg after,
      (run password env bytes (start buffer)).log = before ++ .handled command arg :: after →
      needsNoLogin command = true ∨ LoggedIn password before) ∧
    (∀ before source target after,
      (run password env bytes (start buffer)).log = before ++ .rename source target :: after →
      ∃ name earlier later, source = some name ∧ before = earlier ++ .handled .rnfr name :: later ∧
        name ≠ [] ∧ (∀ s t, .rename s t ∉ later) ∧ ∀ arg, .handled .rnfr arg ∈ later → arg = []) := by
  obtain ⟨line, taken, hkept, hdisp, hprefix, hall⟩ :=
    @run_kept password env bytes _ _ (kept_start password buffer)
  have hstart : dispatchedLines (start buffer).log = [] := rfl
  rw [hstart, List.nil_append] at hdisp
  refine ⟨⟨hdisp ▸ hprefix, fun ho => hdisp ▸ hall ho, fun hsent => run_open hsent rfl⟩, hkept.writes, fun before command arg after h => ?_,
    fun before source target after h => ?_⟩
  · exact hkept.session.allowed before _ after h
  · obtain ⟨name, hsource, hpending⟩ := hkept.session.allowed before _ after h
    obtain ⟨earlier, later, hsplit, hname, hno, hlast⟩ := pending_eq_some hpending
    exact ⟨name, earlier, later, hsource, hsplit, hname, hno, hlast⟩

end Thread

end Ftpd
