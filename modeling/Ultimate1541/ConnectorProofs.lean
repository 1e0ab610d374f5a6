import Ultimate1541.InteractionProofs

/-! # The connector of the Wi-Fi module

    `connect_thread` walks a ladder: the access point it was on last, those a scan
    finds, those it has stored, and then waits before it starts again.  It takes
    commands from one queue and Wi-Fi events from another one, and is woken by a
    semaphore that senders give behind each entry.  The thread is modelled as a
    program whose calls are what it asks of FreeRTOS, of the Wi-Fi driver, of the
    store and of the variables it shares; the answers are the environment's. -/

namespace Connector

open Interaction Interaction.Prog

/-- `ConnectState_t`. -/
inductive ConnectState where
  | lastAP
  | scanning
  | scannedAPs
  | storedAPs
  | connected
  | disconnected
  | disabled
  deriving DecidableEq, Repr

/-- The commands that `handle_connect_command` knows, and any other code. -/
inductive CommandCode where
  | wifiScan
  | wifiConnect
  | wifiEnable
  | wifiDisable
  | wifiAutoconnect
  | unknown (code : UInt8)
  deriving DecidableEq, Repr

/-- `ConnectCommand_t`; `buf` is the number of the buffer the request came in. -/
structure ConnectCommand where
  ssid : List UInt8
  pw : List UInt8
  authMode : UInt8
  command : CommandCode
  listIndex : Int
  buf : Option Nat
  deriving DecidableEq, Repr

/-- `ConnectEvent_t`: what `wifi_event_handler` puts in the queue. -/
inductive ConnectEvent where
  | connected
  | disconnected
  deriving DecidableEq, Repr

/-- The RPC events the thread sends to the Ultimate. -/
inductive RpcEvent where
  | disconnected
  | disabled
  deriving DecidableEq, Repr

/-- What `wifi_find_password` leaves. -/
structure Password where
  ok : Bool
  pw : Option (List UInt8)
  listIndex : Int
  deriving DecidableEq, Repr

/-- The calls of the thread.  `true` is `ESP_OK`. -/
inductive Op where
  | espStart
  | espStop
  | espDisconnect
  | espSetConfig (ssid pw : List UInt8) (authMode : UInt8)
  | espConnect
  | scanStart
  | scanGetApNum
  | scanGetApRecords
  | sendEvent (e : RpcEvent)
  | transmit (cmd : ConnectCommand) (ok : Bool) (records : Option Nat)
  | waitCommand
  | pollCommand
  | waitEvent
  | pollEvent
  | takeSemaphore (ticks : Option Nat)
  | readConnected
  | readUserDisconnected
  | clearUserDisconnected
  | setDisabled (disabled : Bool)
  | readLast
  | readStored (index : Nat)
  | apInfo (index : Nat)
  | findPassword (ssid : List UInt8)
  | storeAp (cmd : ConnectCommand)
  | setLastAp (index : Int)
  | recoveryRunning
  | hotspot
  deriving DecidableEq, Repr

/-- What each of them is answered. -/
@[reducible] def Resp : Op → Type
  | .espStart | .espStop | .espDisconnect | .espSetConfig .. | .espConnect => Bool
  | .scanStart | .scanGetApRecords => Bool
  | .scanGetApNum => Bool × Nat
  | .sendEvent _ | .transmit .. => Unit
  | .waitCommand => ConnectCommand
  | .pollCommand => Option ConnectCommand
  | .waitEvent => ConnectEvent
  | .pollEvent => Option ConnectEvent
  | .takeSemaphore _ => Bool
  | .readConnected | .readUserDisconnected => Bool
  | .clearUserDisconnected | .setDisabled _ => Unit
  | .readLast => Option Int
  | .readStored _ => Option (List UInt8 × List UInt8 × UInt8)
  | .apInfo _ => List UInt8 × UInt8
  | .findPassword _ => Password
  | .storeAp _ => Bool × Int
  | .setLastAp _ => Unit
  | .recoveryRunning => Bool
  | .hotspot => List UInt8 × List UInt8

/-- A piece of the thread's code. -/
abbrev Task (α : Type) : Type := Prog Op Resp α

/-- One call. -/
def perform (o : Op) : Task (Resp o) := .call o .ret

@[simp] theorem perform_andThen {α : Type} (o : Op) (f : Resp o → Task α) :
    (perform o).andThen f = .call o f := rfl

/-- `last_connect`, without the command and the buffer, which nobody reads. -/
structure LastConnect where
  ssid : List UInt8
  pw : List UInt8
  authMode : UInt8
  listIndex : Int

/-- The thread's variables and the globals that only the thread writes. -/
structure Vars where
  state : ConnectState
  apCount : Nat
  last : LastConnect
  retryDelayMs : Nat

/-- `WIFI_RETRY_MIN_MS`. -/
def retryMinMs : Nat := 5000

/-- `WIFI_RETRY_MAX_MS`. -/
def retryMaxMs : Nat := 60000

/-- `DEFAULT_SCAN_LIST_SIZE`. -/
def scanListSize : Nat := 24

/-! ## The Wi-Fi calls -/

/-- The head of `attempt_connect`: leave the network there is, and take one event
    for its end, whatever it says. -/
def leave : Task Unit := do
  let connected ← perform .readConnected
  if connected then
    let ok ← perform .espDisconnect
    if ok then
      let _ ← perform .waitEvent
      pure ()
    else pure ()
  else pure ()

/-- The authentication mode `attempt_connect` asks for. -/
def authModeOf (authMode : UInt8) : UInt8 := if authMode > 7 then 7 else authMode

/-- `attempt_connect`. -/
def attemptConnect (ssid pw : List UInt8) (authMode : UInt8) : Task Bool := do
  leave
  let ok ← perform (.espSetConfig ssid pw (authModeOf authMode))
  if ok then perform .espConnect else pure false

/-- `wifi_scan`: the answer and `ap_count`. -/
def wifiScan : Task (Bool × Nat) := do
  let started ← perform .scanStart
  if started then
    let num ← perform .scanGetApNum
    if num.1 then
      let ok ← perform .scanGetApRecords
      if ok then pure (true, min (num.2 % 65536) scanListSize)
      else pure (false, num.2 % 65536)
    else pure (false, num.2 % 65536)
  else pure (false, 0)

/-- `wifi_connect_to_stored`, whose answer is `true` once the driver has accepted
    the attempt. -/
def wifiConnectToStored (index : Int) (v : Vars) : Task (Bool × Vars) :=
  if index ≥ 16 then pure (false, v)
  else do
    let stored ← perform (.readStored index.toNat)
    match stored with
    | none => pure (false, v)
    | some (ssid, pw, authMode) => do
        let ok ← attemptConnect ssid pw authMode
        pure (ok, { v with last := ⟨ssid, pw, authMode, index⟩ })

/-- `wifi_connect_to_last`. -/
def wifiConnectToLast (v : Vars) : Task (Bool × Vars) := do
  let last ← perform .readLast
  match last with
  | none => pure (false, v)
  | some index => if index ≥ 0 then wifiConnectToStored index v else pure (true, v)

/-- Whether a scanned access point may be connected to: its password is known, and
    an open one has no password. -/
def mayConnect (authMode : UInt8) (p : Password) (pw : List UInt8) : Bool :=
  p.ok && (authMode != 0 || pw.isEmpty)

/-- `wifi_connect_to_scanned`. -/
def wifiConnectToScanned (index : Nat) (v : Vars) : Task (Bool × Vars) := do
  let ap ← perform (.apInfo index)
  let p ← perform (.findPassword ap.1)
  let pw := p.pw.getD v.last.pw
  if mayConnect ap.2 p pw then
    let ok ← attemptConnect ap.1 pw ap.2
    pure (ok, { v with last := ⟨ap.1, pw, ap.2, p.listIndex⟩ })
  else pure (false, { v with last := { v.last with pw := pw, listIndex := p.listIndex } })

/-- `wifi_connect_to_hotspot`. -/
def wifiConnectToHotspot (v : Vars) : Task (Bool × Vars) := do
  let ap ← perform .hotspot
  let ok ← attemptConnect ap.1 ap.2 3
  pure (ok, { v with last := ⟨ap.1, ap.2, 3, -1⟩ })

/-! ## Commands -/

/-- `enable_wifi_if_needed`. -/
def enableWifiIfNeeded (state : ConnectState) : Task Bool :=
  if state = .disabled then do
    let ok ← perform .espStart
    if ok then
      perform (.sendEvent .disconnected)
      perform (.setDisabled false)
      pure true
    else pure false
  else pure true

/-- The beginning of `CMD_WIFI_DISABLE`: leave the network, if the state is
    `Connected`. -/
def disconnectForDisable (v : Vars) : Task Vars :=
  if v.state = .connected then do
    let ok ← perform .espDisconnect
    if ok then
      let e ← perform .waitEvent
      if e = .disconnected then pure { v with state := .disconnected } else pure v
    else pure v
  else pure v

/-- `CMD_WIFI_DISABLE`. -/
def handleDisable (v : Vars) : Task (Bool × Vars) := do
  let v ← disconnectForDisable v
  let ok ← perform .espStop
  if ok then
    perform (.sendEvent .disabled)
    perform (.setDisabled true)
    pure (true, { v with state := .disabled })
  else pure (false, v)

/-- `CMD_WIFI_ENABLE`. -/
def handleEnable (v : Vars) : Task (Bool × Vars) :=
  if v.state = .disabled then do
    let ok ← perform .espStart
    if ok then
      perform (.sendEvent .disconnected)
      perform (.setDisabled false)
      pure (true, { v with state := .lastAP })
    else pure (false, v)
  else pure (false, v)

/-- `CMD_WIFI_SCAN`. -/
def handleScan (cmd : ConnectCommand) (v : Vars) : Task (Bool × Vars) := do
  let ok ← enableWifiIfNeeded v.state
  if ok then
    let r ← wifiScan
    perform (.transmit cmd r.1 (some (if r.1 then r.2 else 0)))
    pure (false, { v with apCount := r.2 })
  else
    perform (.transmit cmd false (some 0))
    pure (false, v)

/-- `CMD_WIFI_AUTOCONNECT`. -/
def handleAutoconnect (v : Vars) : Task (Bool × Vars) := do
  perform .clearUserDisconnected
  let ok ← enableWifiIfNeeded v.state
  pure (true, if ok then { v with state := .lastAP } else v)

/-- The end of `CMD_WIFI_CONNECT`: the driver has accepted the attempt. -/
def awaitConnection (cmd : ConnectCommand) (v : Vars) : Task (Bool × Vars) := do
  let e ← perform .waitEvent
  if e = .connected then
    let stored ← perform (.storeAp cmd)
    if stored.1 then
      perform (.setLastAp stored.2)
      pure (true, { v with state := .connected })
    else pure (true, { v with state := .connected })
  else pure (false, v)

/-- `CMD_WIFI_CONNECT`. -/
def handleConnect (cmd : ConnectCommand) (v : Vars) : Task (Bool × Vars) := do
  perform .clearUserDisconnected
  let enabled ← enableWifiIfNeeded v.state
  let v := { v with last := ⟨cmd.ssid, cmd.pw, cmd.authMode, -1⟩ }
  let ok ← if enabled then attemptConnect cmd.ssid cmd.pw cmd.authMode else pure false
  perform (.transmit cmd ok none)
  if ok then awaitConnection cmd v else pure (false, v)

/-- `handle_connect_command`: whether the caller's loop is to be left, and the
    variables. -/
def handleConnectCommand (cmd : ConnectCommand) (v : Vars) : Task (Bool × Vars) :=
  match cmd.command with
  | .wifiDisable => handleDisable v
  | .wifiEnable => handleEnable v
  | .wifiScan => handleScan cmd v
  | .wifiAutoconnect => handleAutoconnect v
  | .wifiConnect => handleConnect cmd v
  | .unknown _ => pure (false, v)

/-- A command that is in the queue, if there is one. -/
def pollForCommand (v : Vars) : Task (Bool × Vars) := do
  let c ← perform .pollCommand
  match c with
  | none => pure (false, v)
  | some cmd => handleConnectCommand cmd v

/-! ## The states -/

/-- `LastAP`. -/
def lastAP (v : Vars) : Task Vars := do
  let r ← wifiConnectToLast v
  if r.1 then
    let e ← perform .waitEvent
    pure { r.2 with state := if e = .connected then .connected else .scanning }
  else pure { r.2 with state := .scanning }

/-- `Scanning`. -/
def scanning (v : Vars) : Task Vars := do
  let r ← wifiScan
  pure { v with apCount := r.2, state := .scannedAPs }

/-- One round of the loop of `ScannedAPs`: whether the loop is left. -/
def tryScanned (i : Nat) (v : Vars) : Task (Bool × Vars) := do
  let handled ← pollForCommand v
  if handled.1 then pure (true, handled.2)
  else do
    let r ← wifiConnectToScanned i handled.2
    if r.1 then
      let e ← perform .waitEvent
      if e = .connected then
        if r.2.last.listIndex ≥ 0 then
          perform (.setLastAp r.2.last.listIndex)
          pure (true, { r.2 with state := .connected })
        else pure (true, { r.2 with state := .connected })
      else pure (false, r.2)
    else pure (false, r.2)

/-- The loop of `ScannedAPs`, with at most `rounds` access points to go; `ap_count`
    has 16 bits. -/
def scannedLoop : Nat → Nat → Vars → Task Vars
  | 0, _, v => pure v
  | rounds + 1, i, v =>
      if i < v.apCount then do
        let r ← tryScanned i v
        if r.1 then pure r.2 else scannedLoop rounds (i + 1) r.2
      else pure v

/-- `ScannedAPs`. -/
def scannedAPs (v : Vars) : Task Vars := do
  let v ← scannedLoop 65536 0 v
  pure (if v.state ≠ .connected then { v with state := .storedAPs } else v)

/-- One round of the loop of `StoredAPs`: whether the loop is left. -/
def tryStored (i : Nat) (v : Vars) : Task (Bool × Vars) := do
  let handled ← pollForCommand v
  if handled.1 then pure (true, handled.2)
  else do
    let r ← wifiConnectToStored i handled.2
    if r.1 then
      let e ← perform .waitEvent
      if e = .connected then
        perform (.setLastAp i)
        pure (true, { r.2 with state := .connected })
      else pure (false, r.2)
    else pure (false, r.2)

/-- The loop of `StoredAPs`, with `rounds` slots to go. -/
def storedLoop : Nat → Nat → Vars → Task Vars
  | 0, _, v => pure v
  | rounds + 1, i, v => do
      let r ← tryStored i v
      if r.1 then pure r.2 else storedLoop rounds (i + 1) r.2

/-- The hotspot of a recovery, behind the stored access points. -/
def tryHotspot (v : Vars) : Task Vars :=
  if v.state = .storedAPs then do
    let running ← perform .recoveryRunning
    if running then
      let r ← wifiConnectToHotspot v
      if r.1 then
        let e ← perform .waitEvent
        pure (if e = .connected then { r.2 with state := .connected } else r.2)
      else pure r.2
    else pure v
  else pure v

/-- `StoredAPs`. -/
def storedAPs (v : Vars) : Task Vars := do
  let v ← storedLoop 16 0 v
  let v ← tryHotspot v
  pure (if v.state ≠ .connected then { v with state := .disconnected } else v)

/-- An event that is in the queue, if there is one. -/
def pollForEvent (v : Vars) : Task Vars := do
  let e ← perform .pollEvent
  match e with
  | some .connected => pure { v with state := .connected }
  | some .disconnected => pure { v with state := .disconnected }
  | none => pure v

/-- How long the thread waits to be woken: for ever, or for the retry delay. -/
def ticksToWait (v : Vars) (userDisconnected : Bool) : Option Nat :=
  if v.state = .connected ∨ userDisconnected = true then none else some v.retryDelayMs

/-- The thread was woken: one entry of each queue is served. -/
def serve (v : Vars) : Task Vars := do
  let handled ← pollForCommand v
  if handled.1 then pure handled.2 else pollForEvent handled.2

/-- `Disconnected` and `Connected`. -/
def idle (v : Vars) : Task Vars := do
  let v := if v.state = .connected then { v with retryDelayMs := retryMinMs } else v
  let userDisconnected ← perform .readUserDisconnected
  let woken ← perform (.takeSemaphore (ticksToWait v userDisconnected))
  if woken then serve v
  else pure { v with retryDelayMs := min (v.retryDelayMs * 2) retryMaxMs, state := .lastAP }

/-- `Disabled`. -/
def disabled (v : Vars) : Task Vars := do
  let cmd ← perform .waitCommand
  let r ← handleConnectCommand cmd v
  pure r.2

/-- The check at the top of the loop: a disconnect the user asked for is not undone. -/
def checkDisconnect (v : Vars) : Task Vars := do
  let asked ← perform .readUserDisconnected
  if asked && v.state != .disconnected && v.state != .disabled then
    let connected ← perform .readConnected
    if connected then
      let _ ← perform .espDisconnect
      pure { v with state := .disconnected }
    else pure { v with state := .disconnected }
  else pure v

/-- The `switch` of the loop. -/
def walk (v : Vars) : Task Vars :=
  match v.state with
  | .lastAP => lastAP v
  | .scanning => scanning v
  | .scannedAPs => scannedAPs v
  | .storedAPs => storedAPs v
  | .connected | .disconnected => idle v
  | .disabled => disabled v

/-- The variables `connect_thread` starts with. -/
def Vars.start : Vars := ⟨.lastAP, 0, ⟨[], [], 0, 0⟩, retryMinMs⟩

end Connector
