import Ultimate1541.InteractionProofs

/-! # The RPC commands of the Wi-Fi module

    `dispatch` takes a packet from the UART and answers it in the buffer it came in: the
    response lies over the request, and what neither of the two has written is what an
    older packet left there.  A handler is modelled as a program whose calls are its
    accesses to the buffer and what it asks of the module; the four commands that go to
    the connector pass the buffer on with their entry. -/

namespace RpcDispatch

open Interaction Interaction.Prog

/-- `CMD_BUF_SIZE`. -/
def cmdBufSize : Nat := 1552

/-- `command_buf_t`: the memory from its first byte on, and the size. -/
structure Buf where
  data : Nat → UInt8
  size : Nat

/-- `esp_err_t`. -/
abbrev Err : Type := UInt32

def espOk : Err := 0
def espErrNoMem : Err := 0x101
def espErrInvalidArg : Err := 0x102
def espErrInvalidState : Err := 0x103
def espErrNotSupported : Err := 0x106
def espErrNvsNotFound : Err := 0x1102

/-- A string that `nvs_get_str` has found to fit in `length` bytes with its zero. -/
structure Fitting (length : Nat) where
  bytes : List UInt8
  fits : bytes.length < length

/-- What the thread puts in `connect_commands`; the code of an `other` is the command it
    was asked for, and its buffer is never looked at. -/
inductive Entry where
  | scan
  | connect (ssid pw : List UInt8) (authMode : UInt8)
  | other (code : UInt8)

/-- Whether the connector answers in the buffer of the entry. -/
def Entry.usesBuffer : Entry → Bool
  | .scan | .connect .. => true
  | .other _ => false

/-- `wifi_ap_record_t`, as far as it is reported. -/
structure ApRecord where
  bssid : Vector UInt8 6
  ssid : Vector UInt8 33
  primary : UInt8
  rssi : UInt8
  authmode : UInt8

/-- `esp_datetime_t`. -/
structure DateTime where
  year : UInt16
  month : UInt8
  day : UInt8
  weekday : UInt8
  hour : UInt8
  minute : UInt8
  second : UInt8

/-- What is asked of the module, without the buffer. -/
inductive Call where
  | wifiGetMac
  | uartSetBaudrate (baudrate : UInt32)
  | uartSetHwFlowCtrl (on : Bool)
  | uartSetLineInverse (inversions : UInt8)
  | delay (ms : Nat)
  | semaphoreGive
  | noteUserDisconnect
  | wifiDisconnect
  | externButtonEvent (on : Bool)
  | recoveryRunning
  | enableHook
  | disableHook
  | readAdcChannels
  | wifiGetConnection
  | sendConnectedEvent
  | localTime
  | clearAps
  | nvsOpenBoard
  | nvsFindSerial
  | nvsCommit
  | nvsGetSerial
  | powerSetMode (mode : UInt8)
  | powerGetMode
  | powerGetLastState
  | powerSetWakeOnWifi (enabled : UInt8)
  | powerGetWakeOnWifi
  | recoverySetUrl (url : List UInt8)
  | nvsOpenRecovery
  | nvsGetUrl
  | enableWifiIfNeeded
  | scanStart
  | scanGetApNum
  | scanGetApRecords
  | attemptConnect (ssid pw : List UInt8) (authMode : UInt8)
  | waitEvent
  | storeAp (ssid pw : List UInt8) (authMode : UInt8)
  | setLastAp
  | changeState (code : UInt8)

/-- What it answers. -/
@[reducible] def Reply : Call → Type
  | .wifiGetMac => Err × Vector UInt8 6
  | .uartSetBaudrate _ | .uartSetHwFlowCtrl _ | .uartSetLineInverse _ => Err
  | .delay _ | .semaphoreGive | .noteUserDisconnect => Unit
  | .wifiDisconnect => Err
  | .externButtonEvent _ => Unit
  | .recoveryRunning => Bool
  | .enableHook | .disableHook => Unit
  | .readAdcChannels => { read : List UInt16 // read.length ≤ 7 }
  | .wifiGetConnection => UInt8
  | .sendConnectedEvent => Unit
  | .localTime => DateTime
  | .clearAps | .nvsOpenBoard | .nvsFindSerial | .nvsCommit => Err
  | .nvsGetSerial => Except Err (Fitting 16)
  | .powerSetMode _ => Err
  | .powerGetMode | .powerGetLastState => UInt8
  | .powerSetWakeOnWifi _ => Err
  | .powerGetWakeOnWifi => UInt8
  | .recoverySetUrl _ => Err
  | .nvsOpenRecovery => Err
  | .nvsGetUrl => Except Err (Fitting 128)
  | .enableWifiIfNeeded | .scanStart => Err
  | .scanGetApNum => Err × UInt16
  | .scanGetApRecords => Err × Vector ApRecord 24
  | .attemptConnect .. => Err
  | .waitEvent => Bool
  | .storeAp .. => Err
  | .setLastAp | .changeState _ => Unit

/-- Who is given a string that lies in the buffer. -/
inductive StringUse where
  | setTimezone
  | nvsSetSerial

/-- The accesses to the buffer, the two ways to hand it back, the entry for the
    connector, and the calls. -/
inductive Op where
  | load (i : Nat)
  | store (i : Nat) (b : UInt8)
  | getSize
  | setSize (n : Nat)
  | giveString (use : StringUse) (off : Nat)
  | netTransmit (off length : Nat)
  | transmit
  | free
  | send (e : Entry)
  | call (c : Call)

@[reducible] def Resp : Op → Type
  | .load _ => UInt8
  | .store .. | .setSize _ => Unit
  | .getSize => Nat
  | .giveString .. => Err
  | .netTransmit .. | .transmit | .free => Unit
  | .send _ => Bool
  | .call c => Reply c

/-- A piece of the code. -/
abbrev Task (α : Type) : Type := Prog Op Resp α

/-- One access or call. -/
def perform (o : Op) : Task (Resp o) := .call o .ret

@[simp] theorem perform_andThen {α : Type} (o : Op) (f : Resp o → Task α) :
    (perform o).andThen f = .call o f := rfl

/-- A call of the module. -/
def ask (c : Call) : Task (Reply c) := .call (.call c) .ret

@[simp] theorem ask_andThen {α : Type} (c : Call) (f : Reply c → Task α) :
    (ask c).andThen f = .call (.call c) f := rfl

/-! ## Fields -/

/-- The bytes of a number, low byte first. -/
def le32 (x : UInt32) : List UInt8 :=
  [x.toUInt8, (x >>> 8).toUInt8, (x >>> 16).toUInt8, (x >>> 24).toUInt8]

def le16 (x : UInt16) : List UInt8 := [x.toUInt8, (x >>> 8).toUInt8]

/-- Bytes are written one behind the other. -/
def storeBytes (off : Nat) : List UInt8 → Task Unit
  | [] => .ret ()
  | b :: bs => .call (.store off b) fun _ => storeBytes (off + 1) bs

/-- Bytes are read one behind the other. -/
def loadBytes (off : Nat) : Nat → Task (List UInt8)
  | 0 => .ret []
  | n + 1 => .call (.load off) fun b => (loadBytes (off + 1) n).andThen fun bs => .ret (b :: bs)

/-- The number in bytes, low byte first. -/
def ofLe (bs : List UInt8) : Nat := bs.foldr (fun b n => b.toNat + 256 * n) 0

def load32 (off : Nat) : Task UInt32 := do
  let bs ← loadBytes off 4
  pure (UInt32.ofNat (ofLe bs))

/-- `resp->esp_err`. -/
def setErr (err : Err) : Task Unit := storeBytes 4 (le32 err)

/-- `sizeof(rpc_espcmd_resp)`. -/
def espcmdResp : Nat := 8

/-- `buf->size = size; my_uart_transmit_packet(…)`. -/
def transmitSize (size : Nat) : Task Unit := do
  perform (.setSize size)
  perform .transmit

/-- `resp->esp_err = err` and then the two lines above. -/
def respond (err : Err) : Task Unit := do
  setErr err
  transmitSize espcmdResp

/-! ## The handlers -/

def cmdEcho : Task Unit := perform .transmit

/-- `IDENT_STRING`: `ESP32 WiFi Bridge V1.21`. -/
def identString : List UInt8 :=
  [0x45, 0x53, 0x50, 0x33, 0x32, 0x20, 0x57, 0x69, 0x46, 0x69, 0x20, 0x42, 0x72, 0x69, 0x64, 0x67,
    0x65, 0x20, 0x56, 0x31, 0x2E, 0x32, 0x31]

/-- `sizeof(rpc_identify_resp)` is 10: one byte of the string and one that only pads. -/
def cmdIdentify : Task Unit := do
  storeBytes 4 (le16 1)
  storeBytes 6 (le16 21)
  storeBytes 8 (identString ++ [0])
  transmitSize (10 + identString.length)

def cmdGetmac : Task Unit := do
  let r ← ask .wifiGetMac
  if r.1 = espOk then storeBytes 8 r.2.toList else pure ()
  setErr r.1
  transmitSize 16

/-- The rest of `cmd_setbaud`: no call is made behind one that has failed. -/
def setbaudCalls : Task Err := do
  let baudrate ← load32 4
  let err ← ask (.uartSetBaudrate baudrate)
  if err = espOk then
    let flowctrl ← perform (.load 8)
    let err ← ask (.uartSetHwFlowCtrl (flowctrl != 0))
    if err = espOk then
      let inversions ← perform (.load 9)
      ask (.uartSetLineInverse inversions)
    else pure err
  else pure err

def cmdSetbaud : Task Unit := do
  let err ← setbaudCalls
  ask (.delay 1000)
  respond err

def cmdScan : Task Unit := do
  let queued ← perform (.send .scan)
  if queued then ask .semaphoreGive
  else do
    setErr espErrNoMem
    perform .transmit

/-- The head of `cmd_wifi_connect`, where the size is checked against 98. -/
def cmdWifiConnect : Task Unit := do
  let size ← perform .getSize
  if size < 98 then
    setErr espErrInvalidArg
    perform .transmit
  else do
    perform (.setSize espcmdResp)
    let authMode ← perform (.load 4)
    let ssid ← loadBytes 5 32
    let password ← loadBytes 37 64
    let queued ← perform (.send (.connect ssid password authMode))
    if queued then ask .semaphoreGive
    else do
      setErr espErrNoMem
      perform .transmit

/-- What `cmd_wifi_autoconnect` and `cmd_wifi_endisable` do with their entry: it is
    answered here. -/
def queueAndAnswer (code : UInt8) : Task Unit := do
  let queued ← perform (.send (.other code))
  if queued then
    setErr espOk
    perform .transmit
    ask .semaphoreGive
  else do
    setErr espErrNoMem
    perform .transmit

def cmdWifiAutoconnect : Task Unit := do
  perform (.setSize espcmdResp)
  queueAndAnswer 0x12

def cmdWifiEndisable : Task Unit := do
  perform (.setSize espcmdResp)
  let command ← perform (.load 0)
  queueAndAnswer command

def cmdWifiDisconnect : Task Unit := do
  ask .noteUserDisconnect
  let err ← ask .wifiDisconnect
  respond err

def cmdSendEthPacket : Task Unit := do
  let length ← load32 4
  perform (.netTransmit 8 length.toNat)
  perform .free

def cmdOff : Task Unit := do
  respond espOk
  ask (.delay 1000)
  ask (.externButtonEvent false)

def cmdReboot : Task Unit := do
  respond espOk
  ask (.delay 1000)
  ask (.externButtonEvent false)
  ask (.delay 2000)
  ask (.externButtonEvent true)

def cmdModemOn : Task Unit := do
  let refused ← ask .recoveryRunning
  respond (if refused then espErrInvalidState else espOk)
  if refused then pure () else ask .enableHook

def cmdModemOff : Task Unit := do
  respond espOk
  ask .disableHook

def cmdGetVoltages : Task Unit := do
  setErr espOk
  let r ← ask .readAdcChannels
  storeBytes 8 (r.1.flatMap le16)
  transmitSize 24

def cmdGetConnection : Task Unit := do
  setErr espOk
  let status ← ask .wifiGetConnection
  perform (.store 8 status)
  transmitSize 12
  ask .sendConnectedEvent

/-- `sntp_get_time`, with the time zone in the buffer. -/
def cmdGetTime : Task Unit := do
  let _ ← perform (.giveString .setTimezone 4)
  let t ← ask .localTime
  storeBytes 8 (le16 t.year ++ [t.month, t.day, t.weekday, t.hour, t.minute, t.second])
  setErr espOk
  transmitSize 16

def cmdClearAps : Task Unit := do
  perform (.setSize espcmdResp)
  let err ← ask .clearAps
  setErr err
  if err = espOk then
    let err ← ask .wifiDisconnect
    setErr err
    perform .transmit
  else perform .transmit

/-- Only a serial number that is not there yet is stored. -/
def storeSerial : Task Err := do
  let err ← ask .nvsOpenBoard
  if err = espOk then
    let err2 ← ask .nvsFindSerial
    if err2 = espErrNvsNotFound then
      perform (.store 19 0)
      let err ← perform (.giveString .nvsSetSerial 4)
      if err = espOk then ask .nvsCommit else pure err
    else pure err
  else pure err

def cmdSetSerial : Task Unit := do
  let err ← storeSerial
  respond err

def cmdGetSerial : Task Unit := do
  let err ← ask .nvsOpenBoard
  if err = espOk then
    let r ← ask .nvsGetSerial
    match r with
    | .ok serial => do
        storeBytes 8 (serial.bytes ++ [0])
        setErr espOk
        transmitSize 24
    | .error err => do
        setErr err
        transmitSize 24
  else do
    setErr err
    transmitSize 24

/-- `cmd_set_power_mode` and `cmd_set_wake_on_wifi`: one byte behind the header is
    stored. -/
def setByte (store : UInt8 → Call) (errOf : ∀ b, Reply (store b) → Err) : Task Unit := do
  let size ← perform .getSize
  if size < 6 then respond espErrInvalidArg
  else do
    let b ← perform (.load 4)
    let r ← ask (store b)
    respond (errOf b r)

def cmdSetPowerMode : Task Unit := setByte .powerSetMode fun _ err => err

def cmdGetPowerMode : Task Unit := do
  let mode ← ask .powerGetMode
  perform (.store 8 mode)
  let last ← ask .powerGetLastState
  perform (.store 9 last)
  setErr espOk
  transmitSize 12

def cmdSetWakeOnWifi : Task Unit := setByte .powerSetWakeOnWifi fun _ err => err

def cmdGetWakeOnWifi : Task Unit := do
  let enabled ← ask .powerGetWakeOnWifi
  perform (.store 8 enabled)
  setErr espOk
  transmitSize 12

/-- `RPC_RECOVERY_URL_LEN`. -/
def recoveryUrlLen : Nat := 128

def cmdSetRecoveryUrl : Task Unit := do
  let size ← perform .getSize
  if size < 4 + recoveryUrlLen then respond espErrInvalidArg
  else do
    let url ← loadBytes 4 recoveryUrlLen
    if 0 ∈ url then
      let err ← ask (.recoverySetUrl (url.takeWhile (· ≠ 0)))
      respond err
    else respond espErrInvalidArg

/-- `recovery_get_url`, into the response. -/
def recoveryGetUrl : Task Err := do
  perform (.store 8 0)
  let err ← ask .nvsOpenRecovery
  if err = espOk then
    let r ← ask .nvsGetUrl
    match r with
    | .ok url => do
        storeBytes 8 (url.bytes ++ [0])
        pure espOk
    | .error err => do
        perform (.store 8 0)
        pure (if err = espErrNvsNotFound then espOk else err)
  else do
    perform (.store 8 0)
    pure (if err = espErrNvsNotFound then espOk else err)

def cmdGetRecoveryUrl : Task Unit := do
  let err ← recoveryGetUrl
  setErr err
  transmitSize (8 + recoveryUrlLen)

def cmdNotImplemented : Task Unit := respond espErrNotSupported

/-- The `switch` of `dispatch`. -/
def handlerOf (command : UInt8) : Task Unit :=
  match command with
  | 0x01 => cmdEcho
  | 0x02 => cmdIdentify
  | 0x03 => cmdSetbaud
  | 0x04 => cmdScan
  | 0x05 => cmdWifiConnect
  | 0x06 => cmdWifiDisconnect
  | 0x07 => cmdGetmac
  | 0x08 => cmdSendEthPacket
  | 0x09 => cmdModemOn
  | 0x0A => cmdModemOff
  | 0x0B => cmdGetConnection
  | 0x0C => cmdGetVoltages
  | 0x0D => cmdWifiEndisable
  | 0x0E => cmdWifiEndisable
  | 0x0F => cmdOff
  | 0x10 => cmdGetTime
  | 0x11 => cmdClearAps
  | 0x12 => cmdWifiAutoconnect
  | 0x13 => cmdReboot
  | 0x14 => cmdSetSerial
  | 0x15 => cmdGetSerial
  | 0x16 => cmdSetPowerMode
  | 0x17 => cmdGetPowerMode
  | 0x18 => cmdSetWakeOnWifi
  | 0x19 => cmdGetWakeOnWifi
  | 0x1A => cmdSetRecoveryUrl
  | 0x1B => cmdGetRecoveryUrl
  | _ => cmdNotImplemented

/-- `dispatch`, with a packet it has received. -/
def dispatch : Task Unit := do
  let command ← perform (.load 0)
  handlerOf command

/-! ## The connector's part -/

/-- `ultimate_ap_record_t`. -/
def ApRecord.toBytes (ap : ApRecord) : List UInt8 :=
  ap.bssid.toList ++ ap.ssid.toList ++ [ap.primary, ap.rssi, ap.authmode]

@[simp] theorem ApRecord.length_toBytes (ap : ApRecord) : ap.toBytes.length = 42 := by
  simp [ApRecord.toBytes]

/-- `wifi_scan`, into `resp->rec`: the error and the number of records. -/
def wifiScan : Task (Err × Nat) := do
  perform (.store 9 0)
  perform (.store 8 0)
  let err ← ask .scanStart
  if err = espOk then
    let num ← ask .scanGetApNum
    if num.1 = espOk then
      let aps ← ask .scanGetApRecords
      if aps.1 = espOk then
        let apCount := min num.2.toNat 24
        storeBytes 10 ((aps.2.toList.take apCount).flatMap ApRecord.toBytes)
        perform (.store 8 (UInt8.ofNat apCount))
        pure (espOk, apCount)
      else pure (aps.1, 0)
    else pure (num.1, 0)
  else pure (err, 0)

/-- `CMD_WIFI_SCAN` of `handle_connect_command`. -/
def serveScan : Task Unit := do
  let err ← ask .enableWifiIfNeeded
  if err = espOk then
    let r ← wifiScan
    setErr r.1
    transmitSize (10 + r.2 * 42)
  else do
    setErr err
    perform (.store 8 0)
    transmitSize 10

/-- `CMD_WIFI_CONNECT` of `handle_connect_command`. -/
def serveConnect (ssid pw : List UInt8) (authMode : UInt8) : Task Unit := do
  let enabled ← ask .enableWifiIfNeeded
  let err ← if enabled = espOk then ask (.attemptConnect ssid pw authMode) else pure enabled
  setErr err
  perform .transmit
  if err = espOk then
    let connected ← ask .waitEvent
    if connected then
      let err ← ask (.storeAp ssid pw authMode)
      if err = espOk then ask .setLastAp else pure ()
    else pure ()
  else pure ()

/-- `handle_connect_command`, as far as it concerns the buffer of the entry. -/
def serve : Entry → Task Unit
  | .scan => serveScan
  | .connect ssid pw authMode => serveConnect ssid pw authMode
  | .other code => ask (.changeState code)

end RpcDispatch
