import Mathlib

/-! # The control connection of the FTP server

    The server takes the bytes of a control connection one by one into its command buffer.  At
    the end of a line, which is a carriage return or a line feed, it looks up the verb that
    the line begins with and runs its handler on the rest of the line.  A few handlers change
    the login, the state of the connection and the name that is to be renamed; these are
    modelled in full, the others as running. -/

namespace Ftpd

/-- `COMMAND_BUFFER_SIZE`. -/
def commandBufferSize : Nat := 1024

/-- `ftpd_state_e`. -/
inductive State where
  | user | pass | idle | nlst | list | retr | rnfr | stor | quit
  deriving DecidableEq, Repr

/-- The handlers. -/
inductive Command where
  | user | pass | quit
  | port | cwd | cdup | pwd | nlst | list | retr | stor | noop | syst | abrt | type | mode
  | rnfr | rnto | mkd | rmd | dele | size | pasv | mlst | mlsd | feat
  deriving DecidableEq, Repr

/-- The bytes of a verb. -/
def ascii (s : String) : List UInt8 := s.toList.map fun c => UInt8.ofNat c.toNat

/-- `ftpd_commands`. -/
def commands : List (List UInt8 × Command) :=
  [(ascii "USER", .user), (ascii "PASS", .pass), (ascii "QUIT", .quit),
    (ascii "PORT", .port), (ascii "CWD", .cwd), (ascii "CDUP", .cdup), (ascii "PWD", .pwd),
    (ascii "XPWD", .pwd), (ascii "NLST", .nlst), (ascii "LIST", .list), (ascii "RETR", .retr),
    (ascii "STOR", .stor), (ascii "NOOP", .noop), (ascii "SYST", .syst), (ascii "ABOR", .abrt),
    (ascii "TYPE", .type), (ascii "MODE", .mode), (ascii "RNFR", .rnfr), (ascii "RNTO", .rnto),
    (ascii "MKD", .mkd), (ascii "XMKD", .mkd), (ascii "RMD", .rmd), (ascii "XRMD", .rmd),
    (ascii "DELE", .dele), (ascii "SIZE", .size), (ascii "PASV", .pasv), (ascii "MLST", .mlst),
    (ascii "MLSD", .mlsd), (ascii "FEAT", .feat)]

/-- `ftpd_last_unauthenticated_command_index`. -/
def lastUnauthenticatedCommandIndex : Nat := 2

/-- What the file system and the network answer while one command is handled: whether all
    messages are sent, a directory can be opened, and a file is renamed. -/
structure Env where
  sent : Bool
  opendir : Bool
  rename : Bool
  deriving DecidableEq, Repr

/-- What can be seen of the connection. -/
inductive Event where
  /-- `dispatch_command`, with the bytes of the line. -/
  | dispatched (line : List UInt8)
  /-- A handler runs on its argument. -/
  | handled (command : Command) (arg : List UInt8)
  /-- `vfs_rename`. -/
  | rename (source : Option (List UInt8)) (target : List UInt8)
  /-- `send_msg`, by the code of the message. -/
  | reply (code : Nat)
  deriving DecidableEq, Repr

/-- `container_mode`. -/
inductive IntoMode where
  | filesOnly | dirsOnly | doubleListed
  deriving DecidableEq, Repr

/-- `FTPDaemonThread`: the command buffer and how much of it is in use, the login, the state,
    the name that is to be renamed, whether the socket is open, how many commands were
    dispatched, and where the command buffer was written. -/
structure Thread where
  commandBuffer : Nat → UInt8
  idx : Nat
  authenticated : Bool
  state : State
  renamefrom : Option (List UInt8)
  containerMode : IntoMode
  «open» : Bool
  count : Nat
  writes : List Nat
  log : List Event

namespace Thread

def send (code : Nat) (t : Thread) : Thread := { t with log := t.log ++ [.reply code] }

/-- `toupper`. -/
def toupper (b : UInt8) : UInt8 := if 0x61 ≤ b ∧ b ≤ 0x7A then b - 0x20 else b

/-- `isalpha`. -/
def isalpha (b : UInt8) : Bool := (0x41 ≤ b ∧ b ≤ 0x5A) ∨ (0x61 ≤ b ∧ b ≤ 0x7A)

/-! ## Handlers -/

/-- `cmd_user`. -/
def cmdUser (arg : List UInt8) (t : Thread) : Thread :=
  { t.send 331 with
    containerMode :=
      if arg.map toupper = ascii "DIRS" then .dirsOnly
      else if arg.map toupper = ascii "INTO" then .dirsOnly
      else if arg.map toupper = ascii "BOTH" then .doubleListed
      else t.containerMode
    state := .pass }

/-- `cmd_pass`. -/
def cmdPass (password arg : List UInt8) (t : Thread) : Thread :=
  if password = [] ∨ arg = password then { t.send 230 with authenticated := true, state := .idle }
  else { t.send 530 with state := .idle }

/-- `cmd_quit`. -/
def cmdQuit (t : Thread) : Thread := { t.send 221 with state := .quit }

/-- `cmd_list_common`, as far as the state goes. -/
def cmdListCommon (env : Env) (listed : State) (t : Thread) : Thread :=
  if env.opendir then { t with state := listed } else t.send 451

/-- `cmd_abrt`. -/
def cmdAbrt (t : Thread) : Thread := { t with state := .idle }

/-- `cmd_rnfr`. -/
def cmdRnfr (arg : List UInt8) (t : Thread) : Thread :=
  if arg = [] then t.send 501 else { t.send 350 with renamefrom := some arg, state := .rnfr }

/-- `cmd_rnto`. -/
def cmdRnto (env : Env) (arg : List UInt8) (t : Thread) : Thread :=
  if t.state ≠ .rnfr then t.send 503
  else if arg = [] then { t.send 501 with state := .idle }
  else
    { t with
      state := .idle
      renamefrom := none
      log := t.log ++ [.rename t.renamefrom arg, .reply (if env.rename then 250 else 450)] }

/-- A handler, on its argument. -/
def handle (password : List UInt8) (env : Env) (command : Command) (arg : List UInt8) (t : Thread) : Thread :=
  match command with
  | .user => t.cmdUser arg
  | .pass => t.cmdPass password arg
  | .quit => t.cmdQuit
  | .list => t.cmdListCommon env .list
  | .nlst | .mlsd => t.cmdListCommon env .nlst
  | .abrt => t.cmdAbrt
  | .rnfr => t.cmdRnfr arg
  | .rnto => t.cmdRnto env arg
  | .port | .cwd | .cdup | .pwd | .retr | .stor | .noop | .syst | .type | .mode | .mkd | .rmd | .dele | .size
  | .pasv | .mlst | .feat => t

/-! ## Dispatching -/

/-- The first `length` bytes of the command buffer. -/
def line (t : Thread) (length : Nat) : List UInt8 := (List.range length).map t.commandBuffer

/-- `while (((*pt == '\r') || (*pt == '\n')) && pt >= text) *pt-- = '\0';`, from behind
    `length` bytes on. -/
def trim : (length : Nat) → Thread → Thread
  | 0, t => t
  | length + 1, t =>
      if t.commandBuffer length = 0x0D ∨ t.commandBuffer length = 0x0A then
        trim length
          { t with
            commandBuffer := fun a => if a = length then 0 else t.commandBuffer a
            writes := t.writes ++ [length] }
      else t

/-- The string in the command buffer, whose terminator is at `length` at the latest. -/
def text (t : Thread) (length : Nat) : List UInt8 := (t.line length).takeWhile (· ≠ 0)

/-- The verb that a string begins with: up to four letters, in capitals. -/
def verb (text : List UInt8) : List UInt8 := ((text.take 4).takeWhile isalpha).map toupper

/-- The argument: what stands behind the verb and one more character. -/
def argument (text : List UInt8) : List UInt8 :=
  if text.length < (verb text).length + 1 then [] else text.drop ((verb text).length + 1)

/-- What `dispatch_command` does with a string. -/
def dispatchText (password : List UInt8) (env : Env) (text : List UInt8) (t : Thread) : Thread :=
  if t.authenticated = false ∧
      commands.findIdx (·.1 = verb text) > lastUnauthenticatedCommandIndex then t.send 530
  else
    match commands.find? (·.1 = verb text) with
    | some (_, command) =>
        handle password env command (argument text)
          { t with log := t.log ++ [.handled command (argument text)] }
    | none => t.send 502

/-- `FTPDaemonThread::dispatch_command`.  A message that cannot be sent closes the socket. -/
def dispatchCommand (password : List UInt8) (env : Nat → Env) (length : Nat) (t : Thread) : Thread :=
  { dispatchText password (env t.count) ((trim length t).text length)
      { trim length t with log := t.log ++ [.dispatched (t.line length)] } with
    «open» := t.open && (env t.count).sent
    count := t.count + 1 }

/-- `\n` or `\r`. -/
def isEnd (b : UInt8) : Bool := b = 0x0A ∨ b = 0x0D

/-- The command buffer is written at `off`. -/
def write (off : Nat) (b : UInt8) (t : Thread) : Thread :=
  { t with
    commandBuffer := fun a => if a = off then b else t.commandBuffer a
    writes := t.writes ++ [off] }

/-- The loop of `handle_connection`, on one byte. -/
def receive (password : List UInt8) (env : Nat → Env) (b : UInt8) (t : Thread) : Thread :=
  if isEnd b then
    if t.idx > 0 then
      { ((t.write t.idx b).write t.idx 0).dispatchCommand password env t.idx with idx := 0 }
    else (t.write t.idx b).write t.idx 0
  else
    { t.write t.idx b with
      idx := if t.idx + 1 ≥ commandBufferSize then commandBufferSize - 1 else t.idx + 1 }

/-- `handle_connection`, on the bytes that come before the client closes. -/
def run (password : List UInt8) (env : Nat → Env) : List UInt8 → Thread → Thread
  | [], t => t
  | b :: bytes, t => if t.open then run password env bytes (t.receive password env b) else t

/-- A new connection; the command buffer has what the memory had. -/
def start (buffer : Nat → UInt8) : Thread where
  commandBuffer := buffer
  idx := 0
  authenticated := false
  state := .idle
  renamefrom := none
  containerMode := .filesOnly
  «open» := true
  count := 0
  writes := []
  log := [.reply 220]

end Thread

end Ftpd
