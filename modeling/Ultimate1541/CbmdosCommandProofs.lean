import Ultimate1541.CbmdosNameProofs

/-! # Commands of the software drive

    `IecParser::execute_command` and its handlers.  A handler answers with an error of
    its own, or with what a call of the executor answers; the calls and their arguments
    are the outcome. -/

namespace Cbmdos

open BoundedRead BoundedRead.Read

/-- The calls of `IecCommandExecuter`. -/
inductive Call where
  | doBlockRead (chan part track sector : Nat) (lengthByte : Bool)
  | doBlockWrite (chan part track sector : Nat) (lengthByte : Bool)
  | doBlockAllocate (part track sector : Nat) (allocate : Bool)
  | doBufferPosition (chan pos : Nat)
  | doSetCurrentPartition (part : Nat)
  | doChangeDir (dest : Filename)
  | doMakeDir (dest : Filename)
  | doRemoveDir (dest : Filename)
  | doCopy (dest : Filename) (sources : List Filename)
  | doInitialize
  | doInitializeBuffers
  | doReset (cold : Bool)
  | doFormat (dest : Filename) (id : List UInt8)
  | doRename (src dest : Filename)
  | doScratch (names : List Filename)
  | doCmdResponse (data : List UInt8)
  | doSetPosition (chan : Nat) (pos : UInt32) (recnr recoffset : Nat)
  | doPwdCommand
  | doGetPartitionInfo (part : Int)
  | doSetDeviceNumber (dev : Nat)
  | doRestoreDeviceNumber
  | doSetWriteProtect (on : Bool)
  | getClockOffset
  | setClockOffset (seconds : Int)
  | doToggleAttributes (name : Filename) (bits : UInt8)
  | doSetAttributes (names : List Filename) (attrib mask : UInt8)
  | doSetHeader (dest : Filename) (id : List UInt8)
  | doRenamePartition (newname oldname : List UInt8)
  deriving DecidableEq, Repr

/-- What a command comes to: the calls, one after the other, and the answer; none where
    it is what the last call answers. -/
structure Outcome where
  calls : List Call
  answer : Option Nat
  deriving DecidableEq, Repr

/-- The parser answers itself. -/
def say (err : Nat) : Outcome := ⟨[], some err⟩

/-- A call answers. -/
def exec (c : Call) : Outcome := ⟨[c], none⟩

/-- An error that was found, or what comes of the value. -/
def orSay {α : Type} (r : Except Nat α) (f : α → Outcome) : Outcome :=
  match r with
  | .error err => say err
  | .ok a => f a

/-! ## Block commands -/

/-- `is_block_parameter_separator`. -/
def isBlockParameterSeparator (beforeFirst : Bool) (c : UInt8) : Bool :=
  c == ch ' ' || c == ch ',' || c == 0x1D || (beforeFirst && c == ch ':')

/-- `parse_block_parameters`: at most `count` numbers. -/
def parseBlockParameters : Nat → Bool → List UInt8 → List Nat
  | 0, _, _ => []
  | count + 1, beforeFirst, s =>
      let s := s.dropWhile (isBlockParameterSeparator beforeFirst)
      if isDigit (first s) then
        (clampedNumber 0 s).1 :: parseBlockParameters count false (clampedNumber 0 s).2
      else []

/-- What a block command asks for, by its letter. -/
def blockLetter (letter : UInt8) (params : List UInt8) : Outcome :=
  if letter = ch 'R' then
    match parseBlockParameters 4 true params with
    | [chan, part, track, sector] => exec (.doBlockRead chan part track sector true)
    | _ => say errSyntax
  else if letter = ch 'W' then
    match parseBlockParameters 4 true params with
    | [chan, part, track, sector] => exec (.doBlockWrite chan part track sector true)
    | _ => say errSyntax
  else if letter = ch 'P' then
    match parseBlockParameters 3 true params with
    | [chan, lo] => exec (.doBufferPosition chan (lo % 256))
    | [chan, lo, hi] => exec (.doBufferPosition chan (lo + hi * 256))
    | _ => say errSyntax
  else if letter = ch 'A' ∨ letter = ch 'F' then
    match parseBlockParameters 4 true params with
    | part :: track :: sector :: _ => exec (.doBlockAllocate part track sector (letter == ch 'A'))
    | _ => say errSyntax
  else say errSyntax

/-- `block_command`. -/
def blockCommand (len : Nat) : Reads Outcome := do
  let buffer ← firstBytes len
  pure (match (buffer.drop 1).dropWhile isAlpha with
    | dash :: letter :: rest =>
        if dash = ch '-' then blockLetter letter (rest.dropWhile isAlpha) else say errSyntax
    | _ => say errSyntax)

/-- `cp_command`. -/
def cpCommand (len : Nat) : Reads Outcome := do
  let c1 ← byte 1
  if c1 &&& 0x80 ≠ 0 then
    if len < 3 then pure (say errSyntax)
    else do
      let part ← byte 2
      pure (exec (.doSetCurrentPartition part.toNat))
  else do
    let buffer ← firstBytes len
    pure (match parseBlockParameters 1 true (buffer.drop 2) with
      | part :: _ => exec (.doSetCurrentPartition part)
      | [] => exec (.doSetCurrentPartition 0))

/-! ## Directories -/

/-- Whether `MD` and `RD` have the name they ask for. -/
def dirNameGiven (c0 : UInt8) (cmd : List UInt8) : Bool :=
  if c0 = ch 'M' then
    match split (ch ':') cmd with
    | none => false
    | some (_, name) => first name != 0xA0
  else if c0 = ch 'R' then
    !cmd.contains (ch '/') && first (cmd.dropWhile fun c => c == ch ' ' || isDigit c) == ch ':'
  else true

/-- The call of `CD`, `MD` or `RD`. -/
def dirCall (c0 : UInt8) (dest : Filename) : Outcome :=
  if c0 = ch 'C' then exec (.doChangeDir dest)
  else if c0 = ch 'M' then exec (.doMakeDir dest)
  else if c0 = ch 'R' then exec (.doRemoveDir dest)
  else say errSyntax

/-- A name that `MD` cannot make. -/
def badDirName (dest : Filename) : Bool :=
  dest.hasWildcard || dest.filename.getLast? == some (ch '.') || dest.filename.getLast? == some (ch ' ')

/-- `dir_command`. -/
def dirCommand (len : Nat) : Reads Outcome := do
  let c1 ← byte 1
  if c1 ≠ ch 'D' then pure (say errSyntax)
  else do
    let cmd ← mstring 2 len
    let c0 ← byte 0
    if dirNameGiven c0 cmd = false then pure (say errNoName)
    else
      pure (orSay (parseFullPath false true cmd) fun r =>
        if c0 ≠ ch 'C' ∧ r.1.filename = [] then say errNoName
        else if c0 = ch 'M' ∧ badDirName r.1 = true then say errIllegalName
        else dirCall c0 r.1)

/-! ## Lists of names -/

/-- `parse_name_list`. -/
def parseNameList (buf : List UInt8) : Except Nat (List Filename) :=
  (splitParts (ch ',') (buf.count (ch ',') + 1) buf).mapM fun part => do
    let r ← parseFullPath false false part
    pure r.1

/-- The letters of a command word are skipped, and the rest is copied. -/
def behindWord (len : Nat) : Reads (List UInt8) := do
  let s ← cString 0
  mstring (s.takeWhile isAlpha).length len

/-- `copy_command`. -/
def copyCommand (len : Nat) : Reads Outcome := do
  let cmd ← behindWord len
  pure (match split (ch '=') cmd with
    | none => say errSyntax
    | some (target, sources) =>
        orSay (parseFullPath false false target) fun dest =>
          if dest.1.hasWildcard then say errIllegalName
          else orSay (parseNameList sources) fun names => exec (.doCopy dest.1 names))

/-- `scratch_command`. -/
def scratchCommand (len : Nat) : Reads Outcome := do
  let cmd ← behindWord len
  pure (orSay (parseNameList cmd) fun names => exec (.doScratch names))

/-- `rename_command`. -/
def renameCommand (len : Nat) : Reads Outcome := do
  let cmd ← behindWord len
  pure (match split (ch '=') cmd with
    | none => say errSyntax
    | some (target, source) =>
        orSay (parseFullPath false false target) fun dest =>
          orSay (parseFullPath false false source) fun src =>
            if dest.1.hasWildcard then say errIllegalName
            else if first dest.1.filename = 0xA0 then say errNoName
            else exec (.doRename src.1 dest.1))

/-! ## Headers and attributes -/

/-- `name_and_id`. -/
def nameAndId (arg : List UInt8) : Except Nat (Filename × List UInt8) := do
  let r ← parseFullPath false false arg
  let named : Filename × List UInt8 :=
    match split (ch ',') r.1.filename with
    | none => (r.1, [])
    | some (name, id) => ({ r.1 with filename := name }, id)
  if named.1.filename = [] then .error errNoName else .ok named

/-- `header_command`. -/
def headerCommand (arg : List UInt8) : Outcome :=
  if arg.contains (ch ':') then
    orSay (nameAndId arg) fun r =>
      if containsAny (str "?*") r.1.filename then say errIllegalName
      else exec (.doSetHeader r.1 r.2)
  else say errNoName

/-- `format_command`. -/
def formatCommand (len : Nat) : Reads Outcome := do
  let cmd ← mstring 1 len
  pure (if cmd.contains (ch ':') then orSay (nameAndId cmd) fun r => exec (.doFormat r.1 r.2)
    else say errNoName)

/-- `rename_dashed_command`. -/
def renameDashedCommand (len : Nat) : Reads Outcome := do
  let cmd ← mstring 3 len
  let c2 ← byte 2
  pure (if c2 = ch 'P' then
      match split (ch '=') cmd with
      | none => say errSyntax
      | some (name, rest) =>
          let newname := if first name = ch ':' then name.drop 1 else name
          if newname = [] ∨ rest = [] then say errNoName
          else exec (.doRenamePartition newname rest)
    else if c2 = ch 'H' then headerCommand cmd
    else say errSyntax)

def iecAttrLocked : UInt8 := 0x01
def iecAttrHidden : UInt8 := 0x02
def iecAttrArchive : UInt8 := 0x04

/-- `lock_command`. -/
def lockCommand (len : Nat) : Reads Outcome := do
  let cmd ← mstring 1 len
  pure (orSay (parseFullPath false false cmd) fun r => exec (.doToggleAttributes r.1 iecAttrLocked))

/-- The letters of `A:`. -/
def attributeLetters : List UInt8 → UInt8 → Except Nat UInt8
  | [], attrib => .ok attrib
  | c :: s, attrib =>
      if c = ch 'R' then attributeLetters s (attrib ||| iecAttrLocked)
      else if c = ch 'H' then attributeLetters s (attrib ||| iecAttrHidden)
      else if c = ch 'A' then attributeLetters s (attrib ||| iecAttrArchive)
      else .error errSyntax

/-- `A:[R][H][A]=name`, behind its colon. -/
def setAttributes (letters : List UInt8) : Outcome :=
  match split (ch '=') letters with
  | none => say errUnknownCmd
  | some (set, rest) =>
      orSay (attributeLetters set 0) fun attrib =>
        orSay (parseNameList rest) fun names =>
          exec (.doSetAttributes names attrib (iecAttrLocked ||| iecAttrHidden ||| iecAttrArchive))

/-- `EL` and `EU`, behind the word. -/
def lockAll (lock : Bool) (arg : List UInt8) : Outcome :=
  orSay (parseNameList arg) fun names =>
    exec (.doSetAttributes names (if lock then iecAttrLocked else 0) iecAttrLocked)

/-- `EH`, behind the word. -/
def hide (arg : List UInt8) : Outcome :=
  if first (arg.dropWhile fun c => c == ch ' ' || isDigit c) = ch ':' then headerCommand arg
  else orSay (parseFullPath false false arg) fun r => exec (.doToggleAttributes r.1 iecAttrHidden)

/-- `attribute_command`. -/
def attributeCommand (len : Nat) : Reads Outcome := do
  let cmd ← mstring 0 len
  let c0 ← byte 0
  let c1 ← byte 1
  if c0 = ch 'A' then
    if c1 ≠ ch ':' then pure (say errUnknownCmd)
    else do
      let arg ← behind cmd 2
      pure (setAttributes arg)
  else if c0 = ch 'D' then
    if c1 ≠ ch ':' then pure (say errSyntax)
    else do
      let arg ← behind cmd 1
      pure (headerCommand arg)
  else if c0 = ch 'E' ∨ c0 = ch 'X' then
    if c1 = ch 'L' ∨ c1 = ch 'U' then
      if c0 = ch 'X' then pure (say errSyntax)
      else do
        let arg ← behind cmd 2
        pure (lockAll (c1 == ch 'L') arg)
    else if c1 = ch 'H' then
      if c0 = ch 'X' then
        if len = 3 then pure (say errSyntax)
        else do
          let arg ← behind cmd 2
          pure (headerCommand arg)
      else do
        let arg ← behind cmd 2
        pure (hide arg)
    else if c1 = ch 'P' then
      pure (if cmd = str "XPWD" then exec .doPwdCommand else say errSyntax)
    else pure (say errSyntax)
  else pure (say errSyntax)

/-! ## Other commands -/

/-- `get_command`. -/
def getCommand (len : Nat) : Reads Outcome := do
  let c1 ← byte 1
  if c1 ≠ ch '-' then pure (say errSyntax)
  else do
    let c2 ← byte 2
    if c2 ≠ ch 'P' then pure (say errSyntax)
    else if len = 4 then do
      let wanted ← byte 3
      pure (exec (.doGetPartitionInfo (if wanted = 255 then -1 else wanted.toNat)))
    else if len = 3 then pure (exec (.doGetPartitionInfo (-1)))
    else pure (say errSyntax)

/-- Up to four bytes, the first one lowest. -/
def positionOf (bs : List UInt8) : UInt32 :=
  UInt32.ofNat ((bs.take 4).foldr (fun b n => b.toNat + 256 * n) 0)

/-- `position_command`, which reads the record from the command as sent. -/
def positionCommand (len strippedLen : Nat) : Reads Outcome := do
  let chan ← byte 1
  if len < 3 then pure (say errSyntax)
  else do
    let buffer ← firstBytes len
    let data := buffer.drop 2
    pure (exec (.doSetPosition chan.toNat (positionOf (data.take (strippedLen - 2)))
      ((data.getD 0 0).toNat + 256 * (data.getD 1 0).toNat) (data.getD 2 0).toNat))

/-- `swap_command`. -/
def swapCommand : Reads Outcome := do
  let c2 ← byte 2
  pure (if c2 = ch '8' then exec (.doSetDeviceNumber 8)
    else if c2 = ch '9' then exec (.doSetDeviceNumber 9)
    else if c2 = ch 'D' then exec .doRestoreDeviceNumber
    else say errSyntax)

/-- The number of bytes that `M-R` answers: no count is one, zero is 256, and the page
    ends the read. -/
def memoryCount (count : Option UInt8) (low : UInt8) : Nat :=
  let wanted := match count with
    | none => 1
    | some c => if c = 0 then 256 else c.toNat
  min wanted (256 - low.toNat)

/-- `M-R`. -/
def memoryRead (len : Nat) : Reads Outcome :=
  if len < 5 then pure (say errSyntax)
  else do
    let low ← byte 3
    if 6 ≤ len then do
      let count ← byte 5
      pure (exec (.doCmdResponse (List.replicate (memoryCount (some count) low) 0)))
    else pure (exec (.doCmdResponse (List.replicate (memoryCount none low) 0)))

/-- `M-W`: only the listen address is written. -/
def memoryWrite (len : Nat) : Reads Outcome :=
  if len < 7 then pure (say errSyntax)
  else do
    let buffer ← firstBytes 7
    let dev := (buffer.getD 6 0 &&& 0x1F).toNat
    pure (if buffer.getD 3 0 = 0x77 ∧ buffer.getD 4 0 = 0 ∧ buffer.getD 5 0 ≠ 0 ∧ 8 ≤ dev ∧ dev ≤ 30 then
        exec (.doSetDeviceNumber dev)
      else say errSyntax)

/-- `memory_command`. -/
def memoryCommand (len : Nat) : Reads Outcome := do
  let c2 ← byte 2
  if c2 = ch 'R' then memoryRead len
  else if c2 = ch 'E' then pure (say errUnknownDrivecode)
  else if c2 = ch 'W' then memoryWrite len
  else pure (say errSyntax)

/-- `user_command`, behind its letter. -/
def userLetter (c1 : UInt8) (params : List UInt8) : Outcome :=
  if c1 = ch '1' ∨ c1 = ch 'A' then
    match parseBlockParameters 4 true params with
    | [chan, part, track, sector] => exec (.doBlockRead chan part track sector false)
    | _ => say errSyntax
  else if c1 = ch '2' ∨ c1 = ch 'B' then
    match parseBlockParameters 4 true params with
    | [chan, part, track, sector] => exec (.doBlockWrite chan part track sector false)
    | _ => say errSyntax
  else if c1 = ch '9' ∨ c1 = ch 'I' then
    if first params = ch '+' ∨ first params = ch '-' then say 0 else exec .doInitialize
  else if c1 = ch ':' ∨ c1 = ch 'J' then exec (.doReset false)
  else if c1 = 0xCA then exec (.doReset true)
  else if c1 = ch '0' then
    match params with
    | [select, dev] =>
        if select &&& 0x1F = 0x1E ∧ 8 ≤ dev ∧ dev ≤ 30 then exec (.doSetDeviceNumber dev.toNat)
        else say errSyntax
    | _ => say errSyntax
  else say errSyntax

/-- `user_command`. -/
def userCommand (len : Nat) : Reads Outcome := do
  let c1 ← byte 1
  let buffer ← firstBytes len
  pure (userLetter c1 (buffer.drop 2))

/-! ## The clock -/

/-- `clock_time_t`. -/
structure ClockTime where
  wd : Int
  year : Int
  month : Int
  day : Int
  hour : Int
  min : Int
  sec : Int
  deriving DecidableEq, Repr

/-- `c_weekday_4`. -/
def weekday4 : List (List UInt8) :=
  [str "SUN.", str "MON.", str "TUES", str "WED.", str "THUR", str "FRI.", str "SAT."]

/-- `c_weekday_3`. -/
def weekday3 : List (List UInt8) :=
  [str "SUN", str "MON", str "TUE", str "WED", str "THU", str "FRI", str "SAT"]

/-- A number in decimal digits, the last one first. -/
def digitsReversed : Nat → Nat → List UInt8
  | 0, _ => []
  | fuel + 1, n =>
      UInt8.ofNat (0x30 + n % 10) :: if n / 10 = 0 then [] else digitsReversed fuel (n / 10)

/-- `%0wd`. -/
def padded (w : Nat) (n : Int) : List UInt8 :=
  let digits := (digitsReversed (n.natAbs + 1) n.natAbs).reverse
  let sign := if n < 0 then [ch '-'] else []
  sign ++ List.replicate (w - (sign.length + digits.length)) (ch '0') ++ digits

/-- `bcdbyte`. -/
def bcdbyte (a : Int) : UInt8 :=
  if a > 99 then 0x99 else UInt8.ofNat ((a.tdiv 10 * 16 + a.tmod 10) % 256).toNat

/-- The low byte of a number. -/
def byteOf (n : Int) : UInt8 := UInt8.ofNat (n % 256).toNat

/-- `clock_year_of`. -/
def clockYearOf (twoDigit : Int) : Int := if twoDigit < 80 then 2000 + twoDigit else 1900 + twoDigit

/-- `clock_days_in_month`. -/
def clockDaysInMonth (year month : Int) : Int :=
  if month = 2 ∧ year % 4 = 0 ∧ (year % 100 ≠ 0 ∨ year % 400 = 0) then 29
  else [31, 28, 31, 30, 31, 30, 31, 31, 30, 31, 30, 31].getD (month - 1).toNat 0

/-- `clock_day_of_week`. -/
def clockDayOfWeek (year month day : Int) : Int :=
  let y := if month < 3 then year - 1 else year
  let d := day + if month < 3 then year else year - 2
  ((23 * month).tdiv 9 + d + 4 + y.tdiv 4 - y.tdiv 100 + y.tdiv 400).tmod 7

/-- `clock_time_valid`. -/
def ClockTime.Valid (t : ClockTime) : Prop :=
  (1980 ≤ t.year ∧ t.year ≤ 2079) ∧ (1 ≤ t.month ∧ t.month ≤ 12) ∧
    (1 ≤ t.day ∧ t.day ≤ clockDaysInMonth t.year t.month) ∧ (0 ≤ t.wd ∧ t.wd ≤ 6) ∧
    (0 ≤ t.hour ∧ t.hour ≤ 23) ∧ (0 ≤ t.min ∧ t.min ≤ 59) ∧ (0 ≤ t.sec ∧ t.sec ≤ 59)

instance (t : ClockTime) : Decidable t.Valid := by
  dsimp only [ClockTime.Valid]
  infer_instance

/-- `clock_seconds`. -/
def clockSeconds (t : ClockTime) : Int :=
  let year := t.year - if t.month ≤ 2 then 1 else 0
  let era := year.tdiv 400
  let yoe := year - era * 400
  let doy := (153 * (t.month + if t.month > 2 then -3 else 9) + 2).tdiv 5 + t.day - 1
  let doe := yoe * 365 + yoe.tdiv 4 - yoe.tdiv 100 + doy
  let days := era * 146097 + doe
  days * 86400 + (t.hour * 60 + t.min) * 60 + t.sec

/-- `clock_from_seconds`. -/
def clockFromSeconds (seconds : Int) : ClockTime :=
  let days := seconds.tdiv 86400
  let rest := seconds - days * 86400
  let era := days.tdiv 146097
  let doe := days - era * 146097
  let yoe := (doe - doe.tdiv 1460 + doe.tdiv 36524 - doe.tdiv 146096).tdiv 365
  let doy := doe - (365 * yoe + yoe.tdiv 4 - yoe.tdiv 100)
  let mp := (5 * doy + 2).tdiv 153
  let day := doy - (153 * mp + 2).tdiv 5 + 1
  let month := if mp < 10 then mp + 3 else mp - 9
  let year := yoe + era * 400 + if month ≤ 2 then 1 else 0
  ⟨clockDayOfWeek year month day, year, month, day, rest.tdiv 3600, (rest.tdiv 60).tmod 60,
    rest.tmod 60⟩

/-- `clock_bcd`. -/
def clockBcd (b : UInt8) : Option Int :=
  if (b &&& 0x0F).toNat > 9 ∨ (b >>> 4).toNat > 9 then none
  else some ((b >>> 4).toNat * 10 + (b &&& 0x0F).toNat)

/-- `clock_field`: none where a byte is no digit. -/
def clockField : Nat → Nat → Int → Reads (Option Int)
  | _, 0, value => pure (some value)
  | off, digits + 1, value => do
      let c ← byte off
      if isDigit c = true then clockField (off + 1) digits (value * 10 + digitValue c)
      else pure none

/-- `wd`, the separators and the six fields of the A form, which begins at byte 4. -/
def clockFieldsA : Reads (Option ClockTime) := do
  let month ← clockField 9 2 0
  let day ← clockField 12 2 0
  let year2 ← clockField 15 2 0
  let hour ← clockField 18 2 0
  let min ← clockField 21 2 0
  let sec ← clockField 24 2 0
  pure (match month, day, year2, hour, min, sec with
    | some month, some day, some year2, some hour, some min, some sec =>
        some ⟨0, clockYearOf year2, month, day, hour, min, sec⟩
    | _, _, _, _, _, _ => none)

/-- Where the A form has its separators. -/
def separatedA (p : List UInt8) : Bool :=
  p.getD 4 0 == ch ' ' && p.getD 7 0 == ch '/' && p.getD 10 0 == ch '/' && p.getD 13 0 == ch ' ' &&
    p.getD 16 0 == ch ':' && p.getD 19 0 == ch ':'

/-- The A form of `T-W`. -/
def parseClockA (len : Nat) : Reads (Option ClockTime) :=
  if len ≠ 26 ∧ len ≠ 29 then pure none
  else do
    let buffer ← firstBytes len
    let p := buffer.drop 4
    match weekday4.findIdx? (fun name => p.take 2 == name.take 2) with
    | none => pure none
    | some wd =>
        if separatedA p = false then pure none
        else do
          let t ← clockFieldsA
          pure (t.bind fun t =>
            if len = 29 then
              if p.getD 22 0 = ch ' ' ∧ p.getD 24 0 = ch 'M' ∧
                  (p.getD 23 0 = ch 'A' ∨ p.getD 23 0 = ch 'P') then
                some { t with
                  wd := wd
                  hour := (if t.hour = 12 then 0 else t.hour) + if p.getD 23 0 = ch 'P' then 12 else 0 }
              else none
            else some { t with wd := wd })

/-- The B and D forms of `T-W`, whose fields `field` reads. -/
def clockOfBytes (field : UInt8 → Option Int) (p : List UInt8) : Option ClockTime :=
  match field (p.getD 1 0), field (p.getD 4 0) with
  | some year2, some hour12 =>
      some ⟨(field (p.getD 0 0)).getD (-1), clockYearOf year2, (field (p.getD 2 0)).getD (-1),
        (field (p.getD 3 0)).getD (-1),
        (if hour12 = 12 then 0 else hour12) + (if p.getD 7 0 ≠ 0 then 12 else 0),
        (field (p.getD 5 0)).getD (-1), (field (p.getD 6 0)).getD (-1)⟩
  | _, _ => none

/-- The B and D forms of `T-W`. -/
def parseClockBytes (len : Nat) (field : UInt8 → Option Int) : Reads (Option ClockTime) :=
  if len < 12 then pure none
  else do
    let buffer ← firstBytes 12
    pure (clockOfBytes field (buffer.drop 4))

/-- The six fields of the I form. -/
def clockFieldsI : Reads (Option ClockTime) := do
  let year ← clockField 4 4 0
  let month ← clockField 9 2 0
  let day ← clockField 12 2 0
  let hour ← clockField 15 2 0
  let min ← clockField 18 2 0
  let sec ← clockField 21 2 0
  let field := fun (o : Option Int) => o.getD (-1)
  let t : ClockTime := ⟨0, field year, field month, field day, field hour, field min, field sec⟩
  pure (if t.year < 1980 ∨ t.year > 2079 ∨ t.month < 1 ∨ t.month > 12 then none
    else some { t with wd := clockDayOfWeek t.year t.month t.day })

/-- Where the I form has its separators. -/
def separatedI (p : List UInt8) : Bool :=
  p.getD 4 0 == ch '-' && p.getD 7 0 == ch '-' && p.getD 10 0 == ch 'T' && p.getD 13 0 == ch ':' &&
    p.getD 16 0 == ch ':'

/-- The I form of `T-W`. -/
def parseClockI (len : Nat) : Reads (Option ClockTime) :=
  if len ≠ 23 ∧ len ≠ 27 then pure none
  else do
    let buffer ← firstBytes len
    let p := buffer.drop 4
    if len = 27 ∧ p.getD 19 0 ≠ ch ' ' then pure none
    else if separatedI p = false then pure none
    else clockFieldsI

/-- `parse_clock_write`: none for a syntax error. -/
def parseClockWrite (len : Nat) : Reads (Option ClockTime) := do
  let c3 ← byte 3
  let t ← (if c3 = ch 'A' then parseClockA len
    else if c3 = ch 'B' then parseClockBytes len clockBcd
    else if c3 = ch 'D' then parseClockBytes len fun b => some b.toNat
    else if c3 = ch 'I' then parseClockI len
    else pure none)
  pure (t.bind fun t => if t.Valid then some t else none)

/-- The drive's clock: the system's, moved by the offset that was set. -/
def driveTime (now : ClockTime) (offset : Int) : ClockTime :=
  if offset = 0 then now else clockFromSeconds (clockSeconds now + offset)

/-- The hour on a clock with twelve. -/
def hour12 (hour : Int) : Int := if hour.tmod 12 = 0 then 12 else hour.tmod 12

/-- The eight fields that the D and B forms answer, and the carriage return. -/
def clockBytes (number : Int → UInt8) (year : UInt8) (t : ClockTime) : List UInt8 :=
  [byteOf t.wd, year, number t.month, number t.day, number (hour12 t.hour), number t.min,
    number t.sec, if t.hour ≥ 12 then 1 else 0, 0x0D]

/-- What `T-R` answers in a form. -/
def clockAnswer (form : UInt8) (t : ClockTime) : Option (List UInt8) :=
  if form = ch 'A' then
    some (weekday4.getD t.wd.toNat [] ++ [ch ' '] ++ padded 2 t.month ++ [ch '/'] ++ padded 2 t.day ++
      [ch '/'] ++ padded 2 (t.year.tmod 100) ++ [ch ' '] ++ padded 2 (hour12 t.hour) ++ [ch ':'] ++
      padded 2 t.min ++ [ch ':'] ++ padded 2 t.sec ++ [ch ' '] ++
      (if t.hour ≥ 12 then str "PM" else str "AM") ++ [0x0D])
  else if form = ch 'D' then some (clockBytes byteOf (byteOf (t.year - 1900)) t)
  else if form = ch 'B' then some (clockBytes bcdbyte (bcdbyte (t.year.tmod 100)) t)
  else if form = ch 'I' then
    some (padded 4 t.year ++ [ch '-'] ++ padded 2 t.month ++ [ch '-'] ++ padded 2 t.day ++ [ch 'T'] ++
      padded 2 t.hour ++ [ch ':'] ++ padded 2 t.min ++ [ch ':'] ++ padded 2 t.sec ++ [ch ' '] ++
      weekday3.getD t.wd.toNat [] ++ [0x0D])
  else none

/-- Behind `get_clock_offset`. -/
def asked (o : Outcome) : Outcome := ⟨.getClockOffset :: o.calls, o.answer⟩

/-- `time_command`, at `now` and with the drive's clock moved by `offset`. -/
def timeCommand (now : ClockTime) (offset : Int) (len : Nat) : Reads Outcome := do
  let c1 ← byte 1
  if c1 ≠ ch '-' then pure (say errSyntax)
  else do
    let c2 ← byte 2
    if c2 = ch 'R' then
      if len ≠ 4 then pure (asked (say errSyntax))
      else do
        let form ← byte 3
        pure (asked (match clockAnswer form (driveTime now offset) with
          | none => say errSyntax
          | some data => exec (.doCmdResponse data)))
    else if c2 = ch 'W' then
      if len < 4 then pure (asked (say errSyntax))
      else do
        let t ← parseClockWrite len
        pure (asked (match t with
          | none => say errSyntax
          | some t => ⟨[.setClockOffset (clockSeconds t - clockSeconds now)], some 0⟩))
    else pure (asked (say errSyntax))

/-! ## `execute_command` -/

/-- `strip_terminator`, of a command that has at least one byte. -/
def stripTerminator (len : Nat) : Reads Nat := do
  let buffer ← firstBytes len
  pure (if 1 < len ∧ buffer.take 2 = [ch 'C', 0xD0] then len
    else if len = 4 ∧ buffer.take 3 = str "U0>" then len
    else if 0 < len ∧ buffer.getD (len - 1) 0 = 0x0D then len - 1
    else if 2 < len ∧ buffer.getD (len - 2) 0 = 0x0D ∧ buffer.getD (len - 1) 0 = 0x0A then len - 2
    else len)

/-- The commands that begin with a C. -/
def cCommand (len : Nat) : Reads Outcome := do
  let c1 ← byte 1
  if c1 = ch 'D' then dirCommand len
  else if c1 = ch 'P' ∨ c1 = 0xD0 then cpCommand len
  else copyCommand len

/-- The commands that begin with an M. -/
def mCommand (len : Nat) : Reads Outcome := do
  let c1 ← byte 1
  if c1 = ch '-' then memoryCommand len else dirCommand len

/-- The commands that begin with an R. -/
def rCommand (len : Nat) : Reads Outcome := do
  let c1 ← byte 1
  if c1 = ch 'D' then dirCommand len
  else if 2 < len ∧ c1 = ch '-' then renameDashedCommand len
  else renameCommand len

/-- The commands that begin with an S. -/
def sCommand (len : Nat) : Reads Outcome :=
  if len = 3 then do
    let c1 ← byte 1
    if c1 = ch '-' then swapCommand else scratchCommand len
  else scratchCommand len

/-- The commands that begin with a W. -/
def wCommand (len : Nat) : Reads Outcome :=
  if len = 3 then do
    let c1 ← byte 1
    if c1 = ch '-' then
      let c2 ← byte 2
      pure (if c2 = ch '0' ∨ c2 = ch '1' then exec (.doSetWriteProtect (c2 == ch '1'))
        else say errSyntax)
    else pure (say errSyntax)
  else pure (say errSyntax)

/-- The `switch` of `execute_command`, over the length as sent and as stripped. -/
def commandOf (now : ClockTime) (offset : Int) (c0 : UInt8) (originalLen len : Nat) : Reads Outcome :=
  if c0 = ch 'B' then blockCommand len
  else if c0 = ch 'C' then cCommand len
  else if c0 = ch 'G' then getCommand len
  else if c0 = ch 'I' then pure (exec .doInitializeBuffers)
  else if c0 = ch 'M' then mCommand len
  else if c0 = ch 'N' then formatCommand len
  else if c0 = ch 'P' then positionCommand originalLen len
  else if c0 = ch 'R' then rCommand len
  else if c0 = ch 'S' then sCommand len
  else if c0 = ch 'T' then timeCommand now offset len
  else if c0 = ch 'W' then wCommand len
  else if c0 = ch 'U' then userCommand len
  else if c0 = ch 'A' ∨ c0 = ch 'D' ∨ c0 = ch 'E' ∨ c0 = ch 'X' then attributeCommand len
  else if c0 = ch 'L' then lockCommand len
  else pure (say errUnknownCmd)

/-- `CBMDOS_COMMAND_BUFFER_SIZE`. -/
def commandBufferSize : Nat := 254

/-- `IecParser::execute_command`. -/
def executeCommand (now : ClockTime) (offset : Int) (len : Nat) : Reads Outcome :=
  if commandBufferSize ≤ len then pure (say errCmdTooLong)
  else do
    let stripped ← stripTerminator len
    if stripped = 0 then pure (say errUnknownCmd)
    else do
      let c0 ← byte 0
      commandOf now offset c0 len stripped

end Cbmdos
