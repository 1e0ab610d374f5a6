import Ultimate1541.RpcDispatchProofs

/-! # Who has the buffer

    A handler has the buffer of its packet until it transmits it, frees it, or passes it
    on with an entry that the connector answers in it.  `owner` watches the accesses: one
    to a buffer that the code no longer has is none it lets pass, nor a second entry.
    Every handler, and the connector behind an entry, ends without the buffer. -/

namespace RpcDispatch

open Interaction Interaction.Prog

/-- Whether the code has the buffer, and whether the queue has taken an entry of it. -/
structure Hold where
  held : Bool
  sent : Bool

/-- An access that leaves the buffer where it is. -/
def Op.Accesses : Op → Prop
  | .load _ | .store .. | .getSize | .setSize _ | .giveString .. | .netTransmit .. => True
  | _ => False

/-- The watcher. -/
def owner : Watcher Op Resp Hold where
  ok o s := match o with
    | .call _ => True
    | .send _ => s.held = true ∧ s.sent = false
    | _ => s.held = true
  next o r s := match o, r with
    | .transmit, _ | .free, _ => ⟨false, s.sent⟩
    | .send e, true => ⟨s.held && !e.usesBuffer, true⟩
    | _, _ => s

/-- No access is made without the buffer, and `Q` holds in the end. -/
def Holds {α : Type} (Q : α → Hold → Prop) (q : Task α) (s : Hold) : Prop := Safe owner Q q s

/-- The code ends without the buffer. -/
def HandsOn (q : Task Unit) (s : Hold) : Prop := Holds (fun _ s => s.held = false) q s

section Rules

variable {α β : Type} {Q : α → Hold → Prop} {s : Hold}

theorem holds_ask {c : Call} {f : Reply c → Task α} (h : ∀ r, Holds Q (f r) s) :
    Holds Q (ask c >>= f) s := Safe.call trivial h

theorem holds_ask_end {c : Call} {Q : Reply c → Hold → Prop} (h : ∀ r, Q r s) :
    Holds Q (ask c) s := Safe.call trivial h

theorem holds_access {o : Op} {f : Resp o → Task α} (ho : o.Accesses) (hs : s.held = true)
    (h : ∀ r, Holds Q (f r) s) : Holds Q (perform o >>= f) s := by
  cases o with
  | transmit => exact ho.elim
  | free => exact ho.elim
  | send e => exact ho.elim
  | call c => exact ho.elim
  | load i => exact Safe.call hs h
  | store i b => exact Safe.call hs h
  | getSize => exact Safe.call hs h
  | setSize n => exact Safe.call hs h
  | giveString use off => exact Safe.call hs h
  | netTransmit off length => exact Safe.call hs h

theorem holds_transmit {f : Unit → Task α} (hs : s.held = true)
    (h : Holds Q (f ()) ⟨false, s.sent⟩) : Holds Q (perform .transmit >>= f) s :=
  Safe.call hs fun _ => h

theorem holds_transmit_end (hs : s.held = true) : HandsOn (perform .transmit) s :=
  Safe.call hs fun _ => rfl

theorem holds_send {e : Entry} {f : Bool → Task α} (hs : s.held = true) (hsent : s.sent = false)
    (hqueued : Holds Q (f true) ⟨!e.usesBuffer, true⟩) (hfull : Holds Q (f false) s) :
    Holds Q (perform (.send e) >>= f) s := by
  refine Safe.call ⟨hs, hsent⟩ fun queued => ?_
  cases queued with
  | false => exact hfull
  | true =>
      have hnext : owner.next (.send e) true s = ⟨!e.usesBuffer, true⟩ := by simp [owner, hs]
      rw [hnext]
      exact hqueued

/-- The rule for one piece of code after another. -/
theorem Holds.bind {R : β → Hold → Prop} {q : Task α} {f : α → Task β} (h : Holds Q q s)
    (hf : ∀ a s', Q a s' → Holds R (f a) s') : Holds R (q >>= f) s := Safe.andThen h hf

theorem holds_storeBytes {off : Nat} {bs : List UInt8} {f : Unit → Task α} (hs : s.held = true)
    (h : Holds Q (f ()) s) : Holds Q (storeBytes off bs >>= f) s := by
  induction bs generalizing off with
  | nil => exact h
  | cons b bs ih => exact holds_access (o := .store off b) trivial hs fun _ => ih

theorem holds_loadBytes (hs : s.held = true) (n : Nat) : ∀ (off : Nat) (f : List UInt8 → Task α),
    (∀ bs, Holds Q (f bs) s) → Holds Q (loadBytes off n >>= f) s := by
  induction n with
  | zero => exact fun _ f h => h []
  | succ n ih =>
      intro off f h
      refine holds_access (o := .load off) trivial hs fun b => ?_
      show Holds Q (((loadBytes (off + 1) n).andThen _).andThen f) s
      rw [Prog.andThen_assoc]
      exact ih (off + 1) (fun bs => f (b :: bs)) fun bs => h (b :: bs)

theorem holds_load32 {off : Nat} {f : UInt32 → Task α} (hs : s.held = true)
    (h : ∀ x, Holds Q (f x) s) : Holds Q (load32 off >>= f) s := by
  show Holds Q (((loadBytes off 4).andThen _).andThen f) s
  rw [Prog.andThen_assoc]
  exact holds_loadBytes hs 4 off _ fun _ => h _

theorem holds_setErr {err : Err} {f : Unit → Task α} (hs : s.held = true) (h : Holds Q (f ()) s) :
    Holds Q (setErr err >>= f) s := holds_storeBytes hs h

theorem holds_transmitSize {n : Nat} {f : Unit → Task α} (hs : s.held = true)
    (h : Holds Q (f ()) ⟨false, s.sent⟩) : Holds Q (transmitSize n >>= f) s :=
  holds_access (o := .setSize n) trivial hs fun _ => holds_transmit hs h

theorem holds_transmitSize_end {n : Nat} (hs : s.held = true) : HandsOn (transmitSize n) s :=
  holds_access (o := .setSize n) trivial hs fun _ => holds_transmit_end hs

theorem holds_respond {err : Err} {f : Unit → Task α} (hs : s.held = true)
    (h : Holds Q (f ()) ⟨false, s.sent⟩) : Holds Q (respond err >>= f) s := by
  show Holds Q ((setErr err >>= fun _ => transmitSize espcmdResp).andThen f) s
  rw [Prog.bind_eq, Prog.andThen_assoc]
  exact holds_setErr hs (holds_transmitSize hs h)

theorem holds_respond_end {err : Err} (hs : s.held = true) : HandsOn (respond err) s :=
  holds_setErr hs (holds_transmitSize_end hs)

theorem holds_refuse {err : Err} (hs : s.held = true) :
    HandsOn (setErr err >>= fun _ => perform .transmit) s :=
  holds_setErr hs (holds_transmit_end hs)

theorem holds_setErr_transmitSize {err : Err} {n : Nat} (hs : s.held = true) :
    HandsOn (setErr err >>= fun _ => transmitSize n) s :=
  holds_setErr hs (holds_transmitSize_end hs)

end Rules

/-! ## The handlers -/

/-- The buffer of a packet that has just come in. -/
def Hold.fresh : Hold := ⟨true, false⟩

theorem handsOn_identify : HandsOn cmdIdentify .fresh :=
  holds_storeBytes rfl <| holds_storeBytes rfl <| holds_storeBytes rfl <|
    holds_transmitSize_end rfl

theorem handsOn_getmac : HandsOn cmdGetmac .fresh := by
  refine holds_ask fun r => ?_
  by_cases hok : r.1 = espOk
  · rw [if_pos hok]
    exact holds_storeBytes rfl (holds_setErr_transmitSize rfl)
  · rw [if_neg hok]
    exact holds_setErr_transmitSize rfl

theorem handsOn_setbaud : HandsOn cmdSetbaud .fresh := by
  have hcalls : Holds (fun _ s => s = .fresh) setbaudCalls .fresh := by
    refine holds_load32 rfl fun baudrate => holds_ask fun err => ?_
    by_cases hok : err = espOk
    · rw [if_pos hok]
      refine holds_access (o := .load 8) trivial rfl fun _ => holds_ask fun err => ?_
      by_cases hok : err = espOk
      · rw [if_pos hok]
        exact holds_access (o := .load 9) trivial rfl fun _ => holds_ask_end fun _ => rfl
      · rw [if_neg hok]
        rfl
    · rw [if_neg hok]
      rfl
  refine hcalls.bind fun err s hs => holds_ask fun _ => ?_
  subst hs
  exact holds_respond_end rfl

/-- An entry that is answered by the connector, or refused at once. -/
theorem handsOn_scan : HandsOn cmdScan .fresh :=
  holds_send rfl rfl (holds_ask_end fun _ => rfl) (holds_refuse rfl)

theorem handsOn_wifiConnect : HandsOn cmdWifiConnect .fresh := by
  refine holds_access (o := .getSize) trivial rfl fun size => ?_
  by_cases hshort : size < 98
  · rw [if_pos hshort]
    exact holds_refuse rfl
  · rw [if_neg hshort]
    refine holds_access (o := .setSize espcmdResp) trivial rfl fun _ => ?_
    refine holds_access (o := .load 4) trivial rfl fun authMode => ?_
    refine holds_loadBytes rfl 32 5 _ fun ssid => holds_loadBytes rfl 64 37 _ fun password => ?_
    exact holds_send rfl rfl (holds_ask_end fun _ => rfl) (holds_refuse rfl)

/-- An entry that is answered here, whose buffer the connector leaves alone. -/
theorem handsOn_queueAndAnswer {code : UInt8} : HandsOn (queueAndAnswer code) .fresh :=
  holds_send rfl rfl
    (holds_setErr rfl (holds_transmit rfl (holds_ask_end fun _ => rfl)))
    (holds_refuse rfl)

theorem handsOn_wifiAutoconnect : HandsOn cmdWifiAutoconnect .fresh :=
  holds_access (o := .setSize espcmdResp) trivial rfl fun _ => handsOn_queueAndAnswer

theorem handsOn_wifiEndisable : HandsOn cmdWifiEndisable .fresh :=
  holds_access (o := .setSize espcmdResp) trivial rfl fun _ =>
    holds_access (o := .load 0) trivial rfl fun _ => handsOn_queueAndAnswer

theorem handsOn_wifiDisconnect : HandsOn cmdWifiDisconnect .fresh :=
  holds_ask fun _ => holds_ask fun _ => holds_respond_end rfl

theorem handsOn_sendEthPacket : HandsOn cmdSendEthPacket .fresh :=
  holds_load32 rfl fun length =>
    holds_access (o := .netTransmit 8 length.toNat) trivial rfl fun _ => Safe.call rfl fun _ => rfl

theorem handsOn_off : HandsOn cmdOff .fresh :=
  holds_respond rfl (holds_ask fun _ => holds_ask_end fun _ => rfl)

theorem handsOn_reboot : HandsOn cmdReboot .fresh :=
  holds_respond rfl <|
    holds_ask fun _ => holds_ask fun _ => holds_ask fun _ => holds_ask_end fun _ => rfl

theorem handsOn_modemOn : HandsOn cmdModemOn .fresh := by
  refine holds_ask fun refused => holds_respond rfl ?_
  cases refused with
  | true => rfl
  | false => exact holds_ask_end fun _ => rfl

theorem handsOn_modemOff : HandsOn cmdModemOff .fresh :=
  holds_respond rfl (holds_ask_end fun _ => rfl)

theorem handsOn_getVoltages : HandsOn cmdGetVoltages .fresh :=
  holds_setErr rfl <| holds_ask fun _ => holds_storeBytes rfl (holds_transmitSize_end rfl)

theorem handsOn_getConnection : HandsOn cmdGetConnection .fresh :=
  holds_setErr rfl <| holds_ask fun status =>
    holds_access (o := .store 8 status) trivial rfl fun _ =>
      holds_transmitSize rfl (holds_ask_end fun _ => rfl)

theorem handsOn_getTime : HandsOn cmdGetTime .fresh :=
  holds_access (o := .giveString .setTimezone 4) trivial rfl fun _ => holds_ask fun _ =>
    holds_storeBytes rfl (holds_setErr_transmitSize rfl)

theorem handsOn_clearAps : HandsOn cmdClearAps .fresh := by
  refine holds_access (o := .setSize espcmdResp) trivial rfl fun _ => holds_ask fun err => ?_
  refine holds_setErr rfl ?_
  by_cases hok : err = espOk
  · rw [if_pos hok]
    exact holds_ask fun _ => holds_refuse rfl
  · rw [if_neg hok]
    exact holds_transmit_end rfl

theorem handsOn_setSerial : HandsOn cmdSetSerial .fresh := by
  have hstore : Holds (fun _ s => s = .fresh) storeSerial .fresh := by
    refine holds_ask fun err => ?_
    by_cases hok : err = espOk
    · rw [if_pos hok]
      refine holds_ask fun err2 => ?_
      by_cases hnew : err2 = espErrNvsNotFound
      · rw [if_pos hnew]
        refine holds_access (o := .store 19 0) trivial rfl fun _ => ?_
        refine holds_access (o := .giveString .nvsSetSerial 4) trivial rfl fun err => ?_
        by_cases hset : err = espOk
        · rw [if_pos hset]
          exact holds_ask_end fun _ => rfl
        · rw [if_neg hset]
          rfl
      · rw [if_neg hnew]
        rfl
    · rw [if_neg hok]
      rfl
  refine hstore.bind fun err s hs => ?_
  subst hs
  exact holds_respond_end rfl

theorem handsOn_getSerial : HandsOn cmdGetSerial .fresh := by
  refine holds_ask fun err => ?_
  by_cases hok : err = espOk
  · rw [if_pos hok]
    refine holds_ask fun r => ?_
    cases r with
    | error err => exact holds_setErr_transmitSize rfl
    | ok serial => exact holds_storeBytes rfl (holds_setErr_transmitSize rfl)
  · rw [if_neg hok]
    exact holds_setErr_transmitSize rfl

theorem handsOn_setByte {store : UInt8 → Call} {errOf : ∀ b, Reply (store b) → Err} :
    HandsOn (setByte store errOf) .fresh := by
  refine holds_access (o := .getSize) trivial rfl fun size => ?_
  by_cases hshort : size < 6
  · rw [if_pos hshort]
    exact holds_respond_end rfl
  · rw [if_neg hshort]
    exact holds_access (o := .load 4) trivial rfl fun _ => holds_ask fun _ => holds_respond_end rfl

theorem handsOn_getPowerMode : HandsOn cmdGetPowerMode .fresh :=
  holds_ask fun mode => holds_access (o := .store 8 mode) trivial rfl fun _ => holds_ask fun last =>
    holds_access (o := .store 9 last) trivial rfl fun _ => holds_setErr_transmitSize rfl

theorem handsOn_getWakeOnWifi : HandsOn cmdGetWakeOnWifi .fresh :=
  holds_ask fun enabled => holds_access (o := .store 8 enabled) trivial rfl fun _ =>
    holds_setErr_transmitSize rfl

theorem handsOn_setRecoveryUrl : HandsOn cmdSetRecoveryUrl .fresh := by
  refine holds_access (o := .getSize) trivial rfl fun size => ?_
  by_cases hshort : size < 4 + recoveryUrlLen
  · rw [if_pos hshort]
    exact holds_respond_end rfl
  · rw [if_neg hshort]
    refine holds_loadBytes rfl _ 4 _ fun url => ?_
    by_cases hzero : 0 ∈ url
    · rw [if_pos hzero]
      exact holds_ask fun _ => holds_respond_end rfl
    · rw [if_neg hzero]
      exact holds_respond_end rfl

theorem handsOn_getRecoveryUrl : HandsOn cmdGetRecoveryUrl .fresh := by
  have hget : Holds (fun _ s => s = .fresh) recoveryGetUrl .fresh := by
    refine holds_access (o := .store 8 0) trivial rfl fun _ => holds_ask fun err => ?_
    by_cases hok : err = espOk
    · rw [if_pos hok]
      refine holds_ask fun r => ?_
      cases r with
      | error err => exact holds_access (o := .store 8 0) trivial rfl fun _ => rfl
      | ok url => exact holds_storeBytes (f := fun _ => pure espOk) rfl rfl
    · rw [if_neg hok]
      exact holds_access (o := .store 8 0) trivial rfl fun _ => rfl
  refine hget.bind fun err s hs => ?_
  subst hs
  exact holds_setErr_transmitSize rfl

/-- Whatever the command is, its handler ends without the buffer. -/
theorem handsOn_handlerOf (command : UInt8) : HandsOn (handlerOf command) .fresh := by
  rw [handlerOf.eq_def]
  split
  · exact holds_transmit_end rfl
  · exact handsOn_identify
  · exact handsOn_setbaud
  · exact handsOn_scan
  · exact handsOn_wifiConnect
  · exact handsOn_wifiDisconnect
  · exact handsOn_getmac
  · exact handsOn_sendEthPacket
  · exact handsOn_modemOn
  · exact handsOn_modemOff
  · exact handsOn_getConnection
  · exact handsOn_getVoltages
  · exact handsOn_wifiEndisable
  · exact handsOn_wifiEndisable
  · exact handsOn_off
  · exact handsOn_getTime
  · exact handsOn_clearAps
  · exact handsOn_wifiAutoconnect
  · exact handsOn_reboot
  · exact handsOn_setSerial
  · exact handsOn_getSerial
  · exact handsOn_setByte
  · exact handsOn_getPowerMode
  · exact handsOn_setByte
  · exact handsOn_getWakeOnWifi
  · exact handsOn_setRecoveryUrl
  · exact handsOn_getRecoveryUrl
  · exact holds_respond_end rfl

theorem handsOn_dispatch : HandsOn dispatch .fresh :=
  holds_access (o := .load 0) trivial rfl handsOn_handlerOf

/-! ## The connector -/

/-- Behind an entry that the queue has taken. -/
def Hold.queued (e : Entry) : Hold := ⟨e.usesBuffer, true⟩

theorem holds_wifiScan {s : Hold} (hs : s.held = true) :
    Holds (fun _ s' => s' = s) wifiScan s := by
  refine holds_access (o := .store 9 0) trivial hs fun _ =>
    holds_access (o := .store 8 0) trivial hs fun _ => holds_ask fun err => ?_
  by_cases hok : err = espOk
  · rw [if_pos hok]
    refine holds_ask fun num => ?_
    by_cases hnum : num.1 = espOk
    · rw [if_pos hnum]
      refine holds_ask fun aps => ?_
      by_cases haps : aps.1 = espOk
      · rw [if_pos haps]
        exact holds_storeBytes hs (holds_access (o := .store 8 _) trivial hs fun _ => rfl)
      · rw [if_neg haps]
        rfl
    · rw [if_neg hnum]
      rfl
  · rw [if_neg hok]
    rfl

theorem handsOn_serveScan : HandsOn serveScan (.queued .scan) := by
  refine holds_ask fun err => ?_
  by_cases hok : err = espOk
  · rw [if_pos hok]
    refine (holds_wifiScan rfl).bind fun r s hs => ?_
    subst hs
    exact holds_setErr_transmitSize rfl
  · rw [if_neg hok]
    exact holds_setErr rfl (holds_access (o := .store 8 0) trivial rfl fun _ => holds_transmitSize_end rfl)

theorem handsOn_serveConnect {ssid pw : List UInt8} {authMode : UInt8} :
    HandsOn (serveConnect ssid pw authMode) (.queued (.connect ssid pw authMode)) := by
  have hanswer : ∀ err, HandsOn
      (setErr err >>= fun _ => perform .transmit >>= fun _ =>
        if err = espOk then ask .waitEvent >>= fun connected =>
          if connected = true then ask (.storeAp ssid pw authMode) >>= fun err =>
            if err = espOk then ask .setLastAp else pure ()
          else pure ()
        else pure ()) (.queued (.connect ssid pw authMode)) := by
    intro err
    refine holds_setErr rfl (holds_transmit rfl ?_)
    by_cases hok : err = espOk
    · rw [if_pos hok]
      refine holds_ask fun connected => ?_
      cases connected with
      | false => rfl
      | true =>
          refine holds_ask fun err => ?_
          by_cases hok : err = espOk
          · rw [if_pos hok]
            exact holds_ask_end fun _ => rfl
          · rw [if_neg hok]
            rfl
    · rw [if_neg hok]
      rfl
  refine holds_ask fun enabled => ?_
  by_cases hok : enabled = espOk
  · rw [if_pos hok]
    exact holds_ask fun err => hanswer err
  · rw [if_neg hok]
    exact hanswer enabled

theorem handsOn_serve (e : Entry) : HandsOn (serve e) (.queued e) := by
  cases e with
  | scan => exact handsOn_serveScan
  | connect ssid pw authMode => exact handsOn_serveConnect
  | other code => exact holds_ask_end fun _ => rfl

end RpcDispatch
