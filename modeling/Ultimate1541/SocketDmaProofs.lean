import Mathlib

/-! # The socket DMA server

    A client sends commands over a connection: a command word, the length of the payload in
    two bytes (three for disk and cartridge images), and the payload.  The server receives the
    two header fields into a small buffer and the payload into the load buffer, which it keeps
    from command to command and from connection to connection, and performs the command.

    The network delivers what was sent in pieces of its own choice: a `recv` brings any
    positive number of bytes up to what was asked for, and none once the client has closed. -/

namespace SocketDma

/-! ## Receiving -/

/-- The receiving side of a connection: the bytes that are still to come before the client
    closes, and how many the next `recv`s bring if that many are asked for and there. -/
structure Net where
  input : List UInt8
  sizes : List Nat
  deriving DecidableEq, Repr

namespace Net

/-- How many bytes a `recv` of at most `asked` bytes brings, if there are any. -/
def size (net : Net) (asked : Nat) : Nat := min asked (max 1 (net.sizes.headD asked))

/-- `recv`: what it brings, which is nothing when the client has closed. -/
def recv (asked : Nat) (net : Net) : List UInt8 := net.input.take (net.size asked)

/-- The connection after `recv`. -/
def after (asked : Nat) (net : Net) : Net := ⟨net.input.drop (net.size asked), net.sizes.tail⟩

/-- The loop of `SocketDMA::readSocket`, in less than `fuel` turns: what is received, and the
    connection after it. -/
def readLoop : (fuel maxRemain : Nat) → Net → List UInt8 × Net
  | 0, _, net => ([], net)
  | fuel + 1, maxRemain, net =>
      if 0 < maxRemain then
        if net.recv (min maxRemain 8192) = [] then ([], net.after (min maxRemain 8192))
        else
          (net.recv (min maxRemain 8192) ++
              (readLoop fuel (maxRemain - (net.recv (min maxRemain 8192)).length)
                (net.after (min maxRemain 8192))).1,
            (readLoop fuel (maxRemain - (net.recv (min maxRemain 8192)).length)
              (net.after (min maxRemain 8192))).2)
      else ([], net)

/-- `SocketDMA::readSocket`. -/
def readSocket (maxRemain : Nat) (net : Net) : List UInt8 × Net := readLoop maxRemain maxRemain net

end Net

/-! ## Commands -/

/-- `SOCKET_CMD_*`. -/
inductive Command where
  | dma | dmarun | keyb | reset | wait | dmawrite | reuwrite | kernalwrite | dmajump
  | mountImg | runImg | poweroff | runCrt | identify | authenticate
  | vicstreamOn | audiostreamOn | debugstreamOn | vicstreamOff | audiostreamOff | debugstreamOff
  | loadsidcrt | loadbootcrt | readflash | debugReg
  deriving DecidableEq, Repr

namespace Command

def all : List Command :=
  [dma, dmarun, keyb, reset, wait, dmawrite, reuwrite, kernalwrite, dmajump, mountImg, runImg, poweroff,
    runCrt, identify, authenticate, vicstreamOn, audiostreamOn, debugstreamOn, vicstreamOff, audiostreamOff,
    debugstreamOff, loadsidcrt, loadbootcrt, readflash, debugReg]

def code : Command → UInt16
  | dma => 0xFF01
  | dmarun => 0xFF02
  | keyb => 0xFF03
  | reset => 0xFF04
  | wait => 0xFF05
  | dmawrite => 0xFF06
  | reuwrite => 0xFF07
  | kernalwrite => 0xFF08
  | dmajump => 0xFF09
  | mountImg => 0xFF0A
  | runImg => 0xFF0B
  | poweroff => 0xFF0C
  | runCrt => 0xFF0D
  | identify => 0xFF0E
  | authenticate => 0xFF1F
  | vicstreamOn => 0xFF20
  | audiostreamOn => 0xFF21
  | debugstreamOn => 0xFF22
  | vicstreamOff => 0xFF30
  | audiostreamOff => 0xFF31
  | debugstreamOff => 0xFF32
  | loadsidcrt => 0xFF71
  | loadbootcrt => 0xFF72
  | readflash => 0xFF75
  | debugReg => 0xFF76

/-- The command of a command word, if it is one. -/
def ofCode (cmd : UInt16) : Option Command := all.find? (·.code = cmd)

/-- The commands whose length has a third byte. -/
def isWide (cmd : UInt16) : Bool := cmd = mountImg.code ∨ cmd = runImg.code ∨ cmd = runCrt.code

end Command

/-- What a command does outside the server.  A region of the load buffer is given as its
    offset and its length. -/
inductive Effect where
  | reply (bytes : List UInt8)
  | identify
  | dmaBuffer (runcode : Command) (off len : Nat)
  | rawWrite (address off len : Nat)
  | reset (off len : Nat)
  | poweroff (off len : Nat)
  | delay (ticks : Nat)
  | reuWrite (address off len : Nat)
  | enableKernal (off : Nat)
  | sidCart (len : Nat)
  | bootCart (len : Nat)
  | saveTempFile (off len : Nat)
  | mountSaved
  | loadRun
  | startCrt
  | stopStream (stream : Nat)
  | startStream (stream : Nat) (name : Option Nat) (stopAfter : Nat)
  | debugReg (value : Option UInt8)
  | readFlash (what : UInt8) (page : Nat)
  deriving DecidableEq, Repr

/-- The server's configuration and machine: the password, and whether the two cartridges have
    memory of their own. -/
structure Settings where
  password : List UInt8
  sidCart : Bool
  bootCart : Bool
  deriving DecidableEq, Repr

/-- What `performCommand` leaves: its result, the load buffer, whether the client is
    authenticated, the regions of the load buffer that it reads or writes, itself or through
    what it calls, and its effects. -/
structure Outcome where
  ok : Bool
  authenticated : Bool
  load : Nat → UInt8
  accesses : List (Nat × Nat)
  effects : List Effect

/-- The first `len` bytes of the load buffer. -/
def contents (load : Nat → UInt8) (len : Nat) : List UInt8 := (List.range len).map load

/-- The load buffer with `b` stored at `off`. -/
def store (load : Nat → UInt8) (off : Nat) (b : UInt8) : Nat → UInt8 := fun a => if a = off then b else load a

/-- A 16-bit little-endian number. -/
def word (lo hi : UInt8) : Nat := lo.toNat + 256 * hi.toNat

/-- `len - 2` of a `uint32_t`. -/
def minusTwo (len : Nat) : Nat := (len + 2 ^ 32 - 2) % 2 ^ 32

/-- What the three commands that start a stream have in common, after the stream that it
    excludes is stopped: the terminator that is stored behind the payload, the name behind the
    first two bytes, and the time in them. -/
def startStream (stream : Nat) (stopped : List Effect) (load : Nat → UInt8) (len : Nat) : Outcome where
  ok := true
  authenticated := true
  load := store load len 0
  accesses :=
    (len, 1) :: (if len > 2 then [(2, len - 1)] else []) ++ if len ≥ 2 then [(0, 2)] else []
  effects :=
    stopped ++ [.startStream stream (if len > 2 then some 2 else none)
      (if len ≥ 2 ∧ (load 0 ≠ 0 ∨ load 1 ≠ 0) then word (load 0) (load 1) else 0)]

/-- A command that leaves the load buffer as it is. -/
def performed (load : Nat → UInt8) (accesses : List (Nat × Nat)) (effects : List Effect) : Outcome :=
  ⟨true, true, load, accesses, effects⟩

/-- `SOCKET_CMD_AUTHENTICATE`, which compares `length` bytes. -/
def performAuthenticate (s : Settings) (authenticated : Bool) (load : Nat → UInt8) (length : Nat) : Outcome :=
  if s.password = [] ∨ s.password.length = length ∧ contents load length = s.password then
    ⟨true, true, store load 0 1,
      (if s.password = [] then [] else [(0, length)]) ++ [(0, 1)], [.reply [1]]⟩
  else
    ⟨false, authenticated, store load 0 0,
      (if s.password.length = length then [(0, length)] else []) ++ [(0, 1)], [.reply [0]]⟩

/-- The commands of `performCommand` that need authentication, with a payload of `len` bytes,
    on a machine whose menu is not open. -/
def performOther (s : Settings) (load : Nat → UInt8) (len : Nat) : Command → Outcome
  | .authenticate => performed load [] []
  | .identify => performed load [] [.identify]
  | .dma => performed load [(0, len)] [.dmaBuffer .dma 0 len]
  | .dmarun => performed load [(0, len)] [.dmaBuffer .dmarun 0 len]
  -- the jump address is read whatever the length is
  | .dmajump => performed load [(0, len), (0, 2)] [.dmaBuffer .dmajump 0 len]
  | .dmawrite =>
      performed load [(0, 2), (2, minusTwo len)] [.rawWrite (word (load 0) (load 1)) 2 (minusTwo len)]
  | .keyb =>
      { performed load [(0, len), (0, 1)] [.rawWrite 0x0277 0 len, .rawWrite 0x00C6 0 1] with
        load := store load 0 (UInt8.ofNat len) }
  | .reset => performed load [] [.reset 0 len]
  | .poweroff => performed load [] [.poweroff 0 len]
  | .wait => performed load [] [.delay len]
  | .reuwrite =>
      performed load ((0, 3) :: if 3 < len then [(3, len - 3)] else [])
        [.reuWrite (word (load 0) (load 1) + 65536 * (load 2).toNat) 3 (len - 3)]
  | .kernalwrite => performed load [(2, 8192)] [.enableKernal 2]
  | .loadsidcrt =>
      performed load (if s.sidCart then [(0, min len 0x2000)] else [])
        (if s.sidCart then [.sidCart (min len 0x2000)] else [])
  | .loadbootcrt =>
      performed load (if s.bootCart then [(0, min len 0x2000)] else [])
        (if s.bootCart then [.bootCart (min len 0x2000)] else [])
  | .mountImg => performed load [(0, len)] [.saveTempFile 0 len, .mountSaved]
  | .runImg => performed load [(0, len)] [.saveTempFile 0 len, .mountSaved, .loadRun]
  | .runCrt => performed load [(0, len)] [.saveTempFile 0 len, .startCrt]
  | .vicstreamOn => startStream 0 [.stopStream 2] load len
  | .audiostreamOn => startStream 1 [] load len
  | .debugstreamOn => startStream 2 [.stopStream 0] load len
  | .vicstreamOff => performed load [] [.stopStream 0]
  | .audiostreamOff => performed load [] [.stopStream 1]
  | .debugstreamOff => performed load [] [.stopStream 2]
  | .debugReg =>
      performed load (if len > 0 then [(0, 1)] else [])
        [.debugReg (if len > 0 then some (load 0) else none)]
  | .readflash =>
      performed load ((0, 1) :: if load 0 = 2 then [(1, 3)] else [])
        (if load 0 ≤ 2 then
          [.readFlash (load 0) (if load 0 = 2 then word (load 1) (load 2) + 65536 * (load 3).toNat else 0)]
        else [])

/-- `SocketDMA::performCommand`. -/
def performCommand (s : Settings) (authenticated : Bool) (load : Nat → UInt8) (length : Nat) (cmd : UInt16)
    (len : Nat) : Outcome :=
  if cmd = Command.authenticate.code then performAuthenticate s authenticated load length
  else if authenticated = false then ⟨false, false, load, [], []⟩
  else
    match Command.ofCode cmd with
    | some command => performOther s load len command
    | none => performed load [] []

/-! ## The connection loop -/

/-- A call of `performCommand`: its arguments, with the bytes that the load buffer has for the
    command, and what it did. -/
structure Call where
  cmd : UInt16
  length : Nat
  len : Nat
  authenticated : Bool
  payload : List UInt8
  accesses : List (Nat × Nat)
  effects : List Effect
  deriving DecidableEq, Repr

/-- The first three bytes of the header buffer. -/
structure Header where
  b0 : UInt8
  b1 : UInt8
  b2 : UInt8
  deriving DecidableEq, Repr

namespace Header

/-- What a `recv` into `buf` brings. -/
def receive (h : Header) : List UInt8 → Header
  | [] => h
  | [a] => { h with b0 := a }
  | a :: b :: _ => { h with b0 := a, b1 := b }

/-- What a `recv` into `buf + 2` brings. -/
def receiveThird (h : Header) : List UInt8 → Header
  | [] => h
  | a :: _ => { h with b2 := a }

/-- The command word, or the two low bytes of the length. -/
def word (h : Header) : UInt16 := h.b0.toUInt16 ||| h.b1.toUInt16 <<< 8

end Header

/-- A connection that is served, and the calls so far. -/
structure Conn where
  net : Net
  header : Header
  load : Nat → UInt8
  authenticated : Bool
  calls : List Call

/-- `SOCKET_BUFFER_SIZE`. -/
def socketBufferSize : Nat := 200000

/-- The load buffer after `bytes` were received into it. -/
def loaded (load : Nat → UInt8) (bytes : List UInt8) : Nat → UInt8 := fun a => bytes.getD a (load a)

/-- The record of a command that is performed. -/
def Conn.call (s : Settings) (length : Nat) (cmd : UInt16) (len : Nat) (c : Conn) : Call where
  cmd
  length
  len
  authenticated := c.authenticated
  payload := contents c.load len
  accesses := (performCommand s c.authenticated c.load length cmd len).accesses
  effects := (performCommand s c.authenticated c.load length cmd len).effects

/-- A command is performed and recorded.  The connection goes on if it returned `true`. -/
def Conn.perform (s : Settings) (length : Nat) (cmd : UInt16) (len : Nat) (c : Conn) : Conn × Bool :=
  ({ c with
      load := (performCommand s c.authenticated c.load length cmd len).load
      authenticated := (performCommand s c.authenticated c.load length cmd len).authenticated
      calls := c.calls ++ [c.call s length cmd len] },
    (performCommand s c.authenticated c.load length cmd len).ok)

/-- The payload of `len` bytes is received, and the command performed; `n` is what the last
    `recv` of the header brought, which stays the payload's length when there is none to
    receive. -/
def Conn.payload (s : Settings) (cmd : UInt16) (n len : Nat) (c : Conn) : Conn × Bool :=
  if len ≠ 0 then
    if (c.net.readSocket len).1 = [] then ({ c with net := (c.net.readSocket len).2 }, false)
    else
      Conn.perform s (c.net.readSocket len).1.length cmd len
        { c with net := (c.net.readSocket len).2, load := loaded c.load (c.net.readSocket len).1 }
  else if n = 0 then (c, false)
  else c.perform s n cmd len

/-- The length is received. -/
def Conn.length (s : Settings) (cmd : UInt16) (c : Conn) : Conn × Bool :=
  if c.net.recv 2 = [] then ({ c with net := c.net.after 2 }, false)
  else if Command.isWide cmd then
    Conn.payload s cmd ((c.net.after 2).recv 1).length
      (min socketBufferSize ((c.header.receive (c.net.recv 2)).word.toNat +
        65536 * ((c.header.receive (c.net.recv 2)).receiveThird ((c.net.after 2).recv 1)).b2.toNat))
      { c with
        net := (c.net.after 2).after 1
        header := (c.header.receive (c.net.recv 2)).receiveThird ((c.net.after 2).recv 1) }
  else
    Conn.payload s cmd (c.net.recv 2).length
      (min socketBufferSize (c.header.receive (c.net.recv 2)).word.toNat)
      { c with net := c.net.after 2, header := c.header.receive (c.net.recv 2) }

/-- One turn of the loop over a connection in `SocketDMA::dmaThread`: the connection after it,
    and whether the loop goes on. -/
def Conn.turn (s : Settings) (c : Conn) : Conn × Bool :=
  if c.net.recv 2 = [] then ({ c with net := c.net.after 2 }, false)
  else if (c.header.receive (c.net.recv 2)).word &&& 0xFF00 ≠ 0xFF00 then
    -- "Illegal command"
    ({ c with net := c.net.after 2, header := c.header.receive (c.net.recv 2) }, true)
  else
    Conn.length s (c.header.receive (c.net.recv 2)).word
      { c with net := c.net.after 2, header := c.header.receive (c.net.recv 2) }

/-- The loop, in less than `fuel` turns. -/
def Conn.run (s : Settings) : (fuel : Nat) → Conn → Conn
  | 0, c => c
  | fuel + 1, c => if (c.turn s).2 then Conn.run s fuel (c.turn s).1 else (c.turn s).1

/-- A connection from where it is accepted; what the two buffers hold is left from before. -/
def Conn.accepted (s : Settings) (net : Net) (header : Header) (load : Nat → UInt8) : Conn where
  net
  header
  load
  authenticated := s.password = []
  calls := []

/-- All of a connection.  Every turn that goes on takes at least a byte. -/
def serve (s : Settings) (net : Net) (header : Header) (load : Nat → UInt8) : Conn :=
  Conn.run s (net.input.length + 1) (Conn.accepted s net header load)

end SocketDma
