import Ultimate1541.BoundedReadProofs

/-! # Names of the software drive

    `cbmdos_parser.cc` reads names and commands that end with a zero in a buffer that
    earlier ones have used.  What the source copies into a string of its own is a list
    here; what it reads from the buffer itself is a `Read`, with no value where it passes
    the end of the buffer.  This file has the names: paths, directory options, and the
    name that a file is opened with. -/

namespace Cbmdos

open BoundedRead BoundedRead.Read

/-- A character constant. -/
def ch (c : Char) : UInt8 := c.toUInt8

/-- A string constant. -/
def str (s : String) : List UInt8 := s.toList.map Char.toUInt8

/-- A read of the buffer. -/
abbrev Reads (α : Type) : Type := Read UInt8 α

/-- A string in the buffer, from `off` on. -/
def cString (off : Nat) : Reads (List UInt8) := Read.string 0 off

/-- `mstring(buffer, first, len - 1)`: with a negative length it has no end. -/
def mstring (first len : Nat) : Reads (List UInt8) :=
  if len < first then overrun else stringUpTo 0 first (len - first)

/-- A pointer `n` behind the beginning of a copied string. -/
def behind (s : List UInt8) (n : Nat) : Reads (List UInt8) :=
  if n ≤ s.length then pure (s.drop n) else overrun

/-! ## Errors -/

def errSyntax : Nat := 30
def errUnknownCmd : Nat := 31
def errCmdTooLong : Nat := 32
def errIllegalName : Nat := 33
def errNoName : Nat := 34
def errReplaceType : Nat := 64
def errUnknownDrivecode : Nat := 98

/-! ## Characters -/

/-- `isdigit`. -/
def isDigit (c : UInt8) : Bool := 0x30 ≤ c && c ≤ 0x39

/-- `isalpha`. -/
def isAlpha (c : UInt8) : Bool := (0x41 ≤ c && c ≤ 0x5A) || (0x61 ≤ c && c ≤ 0x7A)

/-- `isspace`, as `sscanf` skips it. -/
def isSpace (c : UInt8) : Bool := c == 0x20 || (0x09 ≤ c && c ≤ 0x0D)

/-- The value of a digit. -/
def digitValue (c : UInt8) : Nat := c.toNat - 0x30

/-- A decimal number that stays at 65535 once it has passed it, and what follows. -/
def clampedNumber : Nat → List UInt8 → Nat × List UInt8
  | n, [] => (n, [])
  | n, c :: s =>
      if isDigit c then clampedNumber (min (n * 10 + digitValue c) 0xFFFF) s else (n, c :: s)

/-! ## `mstring` -/

/-- `mstring::split(c, &remaining)`. -/
def split (c : UInt8) : List UInt8 → Option (List UInt8 × List UInt8)
  | [] => none
  | b :: s => if b = c then some ([], s) else (split c s).map fun r => (b :: r.1, r.2)

/-- `mstring::split(c, parts, count)`: at most `count` parts. -/
def splitParts (c : UInt8) : Nat → List UInt8 → List (List UInt8)
  | 0, _ => []
  | n + 1, s => match split c s with
    | none => [s]
    | some (part, rest) => part :: splitParts c n rest

/-- `contains_any`. -/
def containsAny (set s : List UInt8) : Bool := s.any set.contains

/-- The first of a string, or the zero behind it. -/
def first (s : List UInt8) : UInt8 := s.headD 0

/-- The first occurrence of a string: what stands before it and what behind it. -/
def strstr (sub : List UInt8) : List UInt8 → Option (List UInt8 × List UInt8)
  | [] => if sub = [] then some ([], []) else none
  | b :: s =>
      if sub.isPrefixOf (b :: s) then some ([], (b :: s).drop sub.length)
      else (strstr sub s).map fun r => (b :: r.1, r.2)

/-! ## Paths -/

/-- `filename_t`. -/
structure Filename where
  partition : Int
  path : List UInt8
  filename : List UInt8
  hasWildcard : Bool
  deriving DecidableEq, Repr

/-- What stands before the colon: the partition and the path.  `whole` is false where a
    colon ends the path. -/
def parsePathHead (pathOnly whole : Bool) (s : List UInt8) : Except Nat (Int × List UInt8) :=
  let s := s.dropWhile (· == ch ' ')
  let number : Int × List UInt8 :=
    if isDigit (first s) then ((clampedNumber 0 s).1, (clampedNumber 0 s).2) else (-1, s)
  let rest := number.2.dropWhile (· == ch ' ')
  if first rest = ch '/' ∨ (pathOnly = true ∧ first rest = ch '_') then
    .ok (number.1, if whole then rest else rest.takeWhile (· != ch ':'))
  else if pathOnly = false ∧ first rest ≠ ch ':' then .error errSyntax
  else .ok (number.1, [])

/-- The end of `parse_full_path`: a name is asked for unless a path is enough. -/
def checkName (pathOnly : Bool) (partition : Int) (path filename : List UInt8) (replace : Bool) :
    Except Nat (Filename × Bool) :=
  if pathOnly = false ∧ filename = [] then .error errNoName
  else .ok (⟨partition, path, filename, containsAny (str "?*") filename⟩, replace)

/-- `parse_full_path`, and whether `*replace` was set; `mayReplace` where there is a
    `replace`. -/
def parseFullPath (mayReplace pathOnly : Bool) (buf : List UInt8) :
    Except Nat (Filename × Bool) :=
  match split (ch ':') buf with
  | none =>
      if pathOnly then
        if first buf = ch '@' then
          if mayReplace then do
            let r ← parsePathHead true true (buf.drop 1)
            checkName true r.1 r.2 [] true
          else .error errSyntax
        else do
          let r ← parsePathHead true true buf
          checkName true r.1 r.2 [] false
      else checkName false (-1) [] buf false
  | some (_, filename) =>
      if first buf = ch '@' then
        if mayReplace then do
          let r ← parsePathHead pathOnly false (buf.drop 1)
          checkName pathOnly r.1 r.2 filename true
        else .error errSyntax
      else do
        let r ← parsePathHead pathOnly false buf
        checkName pathOnly r.1 r.2 filename false

/-! ## Directory options -/

/-- `stream_type_t`. -/
inductive StreamType where
  | file
  | buffer
  | dir
  | partitions
  deriving DecidableEq, Repr

/-- `stamp_format_t`. -/
inductive StampFormat where
  | none
  | short
  | long
  deriving DecidableEq, Repr

/-- `dir_options_t`. -/
structure DirOptions where
  stream : StreamType
  timefmt : StampFormat
  minDatetime : UInt32
  maxDatetime : UInt32
  filetypes : UInt8
  partitionTypes : UInt8
  showHidden : Bool
  deriving DecidableEq, Repr

/-- `c_dir_options_init`. -/
def DirOptions.init : DirOptions := ⟨.file, .none, 0, 0, 0, 0, false⟩

/-- The 32 bits of an `int`. -/
def uint32Of (n : Int) : UInt32 := UInt32.ofNat (n % 4294967296).toNat

/-- `make_fat_time`. -/
def makeFatTime (y M d h m s : Int) : UInt32 :=
  (uint32Of (y - 1980) <<< 25) ||| (uint32Of M <<< 21) ||| (uint32Of d <<< 16) |||
    (uint32Of h <<< 11) ||| (uint32Of m <<< 5) ||| uint32Of (s / 2)

/-- The digits of a number for `%d`. -/
def scanDigits : Nat → List UInt8 → Nat × List UInt8
  | n, [] => (n, [])
  | n, c :: s => if isDigit c then scanDigits (n * 10 + digitValue c) s else (n, c :: s)

/-- `%d`. -/
def scanInt (s : List UInt8) : Option (Int × List UInt8) :=
  let s := s.dropWhile isSpace
  let negative := first s = ch '-'
  let s := if first s = ch '-' ∨ first s = ch '+' then s.drop 1 else s
  if isDigit (first s) then
    let r := scanDigits 0 s
    some (if negative then -(r.1 : Int) else r.1, r.2)
  else none

/-- A character of the format. -/
def scanChar (c : Char) (s : List UInt8) : Option (List UInt8) :=
  if first s = ch c then some (s.drop 1) else none

/-- What `"%d/%d/%d %d:%d %c"` finds, where it finds all six. -/
structure Stamp where
  month : Int
  day : Int
  year : Int
  hour : Int
  minute : Int
  ampm : UInt8

/-- `sscanf(s, "%d/%d/%d %d:%d %c", …) == 6`. -/
def scanStamp (s : List UInt8) : Option Stamp := do
  let (month, s) ← scanInt s
  let s ← scanChar '/' s
  let (day, s) ← scanInt s
  let s ← scanChar '/' s
  let (year, s) ← scanInt s
  let (hour, s) ← scanInt s
  let s ← scanChar ':' s
  let (minute, s) ← scanInt s
  match s.dropWhile isSpace with
  | [] => none
  | c :: _ => some ⟨month, day, year, hour, minute, c⟩

/-- Whether a stamp is one, and its marker is followed by an M in the option. -/
def Stamp.Valid (t : Stamp) (s : List UInt8) : Prop :=
  (t.ampm = ch 'A' ∨ t.ampm = ch 'P') ∧ (1 ≤ t.month ∧ t.month ≤ 12) ∧ (1 ≤ t.day ∧ t.day ≤ 31) ∧
    (1 ≤ t.hour ∧ t.hour ≤ 12) ∧ (0 ≤ t.minute ∧ t.minute ≤ 59) ∧
    first ((split t.ampm s).elim [] Prod.snd) = ch 'M'

instance (t : Stamp) (s : List UInt8) : Decidable (t.Valid s) := by
  dsimp only [Stamp.Valid]
  infer_instance

/-- The time of a stamp. -/
def Stamp.datetime (t : Stamp) : UInt32 :=
  makeFatTime (t.year + if t.year < 80 then 2000 else 1900) t.month t.day
    (t.hour % 12 + if t.ampm = ch 'P' then 12 else 0) t.minute 0

/-- `parse_dir_option`. -/
def parseDirOption (buf : List UInt8) (opt : DirOptions) : Except Nat DirOptions :=
  let c := first buf
  if c = ch 'L' then .ok { opt with timefmt := .long }
  else if c = ch 'P' then .ok { opt with filetypes := opt.filetypes ||| 0x02 }
  else if c = ch 'S' then .ok { opt with filetypes := opt.filetypes ||| 0x04 }
  else if c = ch 'U' then .ok { opt with filetypes := opt.filetypes ||| 0x08 }
  else if c = ch 'R' then .ok { opt with filetypes := opt.filetypes ||| 0x10 }
  else if c = ch 'B' ∨ c = ch 'D' then .ok { opt with filetypes := opt.filetypes ||| 0x20 }
  else if c = ch 'H' then .ok { opt with showHidden := true }
  else if c = ch 'N' then .ok { opt with timefmt := .none }
  else if c = ch '<' ∨ c = ch '>' then
    match scanStamp (buf.drop 1) with
    | none => .error errSyntax
    | some t =>
        if t.Valid (buf.drop 1) then
          .ok (if c = ch '<' then { opt with maxDatetime := t.datetime }
            else { opt with minDatetime := t.datetime })
        else .error errSyntax
  else .error errSyntax

/-- `parse_partition_option`. -/
def parsePartitionOption (buf : List UInt8) (opt : DirOptions) : Except Nat DirOptions :=
  let c := first buf
  if c = ch 'N' then .ok { opt with partitionTypes := opt.partitionTypes ||| 0x02 }
  else if c = ch '4' then .ok { opt with partitionTypes := opt.partitionTypes ||| 0x04 }
  else if c = ch '7' then .ok { opt with partitionTypes := opt.partitionTypes ||| 0x08 }
  else if c = ch '8' then .ok { opt with partitionTypes := opt.partitionTypes ||| 0x10 }
  else if c = ch 'C' then .ok { opt with partitionTypes := opt.partitionTypes ||| 0x20 }
  else .error errSyntax

/-! ## The name a file is opened with -/

/-- `filetype_t`. -/
inductive FileType where
  | any
  | prg
  | seq
  | usr
  | rel
  | folder
  deriving DecidableEq, Repr

/-- `fileaccess_t`. -/
inductive FileAccess where
  | notSet
  | read
  | write
  | append
  deriving DecidableEq, Repr

/-- `open_t`. -/
structure Open where
  file : Filename
  replace : Bool
  filetype : FileType
  access : FileAccess
  dirOpt : DirOptions
  recordSize : UInt8
  buffers : UInt8
  deriving DecidableEq, Repr

/-- The options behind the `=` of a directory's name. -/
def parseOptions (o : Open) : Except Nat Open :=
  match split (ch '=') o.file.filename with
  | none => .ok o
  | some (filename, rest) => do
      let parse := if o.dirOpt.stream = .partitions then parsePartitionOption else parseDirOption
      let dirOpt ← (splitParts (ch ',') 6 rest).foldlM (fun opt part => parse part opt) o.dirOpt
      .ok { o with file := { o.file with filename := filename }, dirOpt := dirOpt }

/-- One file access modifier, but for the record length. -/
def applyModifier (part : List UInt8) (o : Open) : Except Nat Open :=
  let c := first part
  if c = ch 'R' then .ok { o with access := .read }
  else if c = ch 'W' then .ok { o with access := .write }
  else if c = ch 'A' then .ok { o with access := .append }
  else if c = ch 'M' then .ok { o with access := .read }
  else if c = ch 'P' then .ok { o with filetype := .prg }
  else if c = ch 'S' then .ok { o with filetype := .seq }
  else if c = ch 'U' then .ok { o with filetype := .usr }
  else .error errSyntax

/-- The modifiers of a name; the second one of `,L,` is the record length. -/
def applyModifiers (parts : List (List UInt8)) (o : Open) : Except Nat Open :=
  match parts with
  | [] => .ok o
  | part :: rest =>
      if first part = ch 'L' then
        .ok { o with
          filetype := .rel
          recordSize := match rest with
            | [] => o.recordSize
            | length :: _ => first length }
      else do
        let o ← applyModifier part o
        rest.foldlM (fun o part => applyModifier part o) o

/-- The last checks of `parse_open`. -/
def checkOpen (o : Open) : Except Nat Open :=
  if o.replace = true ∧ first o.file.filename = 0xA0 then .error errReplaceType
  else if containsAny (str ",=:\r") o.file.filename then .error errIllegalName
  else .ok o

/-- The modifiers and checks of a file's name; none are read where the record length
    was taken off before. -/
def parseModifiers (recordLengthGiven : Bool) (o : Open) : Except Nat Open :=
  if recordLengthGiven then checkOpen { o with filetype := .rel }
  else
    match splitParts (ch ',') 3 o.file.filename with
    | [] => checkOpen o
    | filename :: modifiers => do
        let o ← applyModifiers modifiers { o with file := { o.file with filename := filename } }
        checkOpen o

/-- What `parse_open` starts from. -/
def Open.init (stream : StreamType) (timefmt : StampFormat) (buffers recordSize : UInt8)
    (r : Filename × Bool) : Open :=
  ⟨r.1, r.2, .any, .notSet, { DirOptions.init with stream := stream, timefmt := timefmt }, recordSize,
    buffers⟩

/-- The number of buffers that `##n` asks for. -/
def chainedBuffers : Reads UInt8 := do
  let c1 ← byte 1
  if c1 = ch '#' then
    let c2 ← byte 2
    if isDigit c2 = true then
      let c3 ← byte 3
      pure (if c3 = 0 then c2 - ch '0' else 0)
    else pure 0
  else pure 0

/-- A file's name, which may carry a record length. -/
def parseFileName (buf : List UInt8) : Except Nat Open :=
  match strstr (str ",L,") buf with
  | some (name, [length]) => do
      let r ← parseFullPath true false name
      parseModifiers true (Open.init .file .none 0 length r)
  | _ => do
      let r ← parseFullPath true false buf
      parseModifiers false (Open.init .file .none 0 0 r)

/-- The name of a directory, behind its `$` and, where there is one, its kind. -/
def parseDirName (stream : StreamType) (timefmt : StampFormat) (buf : List UInt8) :
    Except Nat Open := do
  let r ← parseFullPath true true buf
  parseOptions (Open.init stream timefmt 0 0 r)

/-- `parse_open`. -/
def parseOpen : Reads (Except Nat Open) := do
  let c0 ← byte 0
  if c0 = ch '#' then
    let buffers ← chainedBuffers
    let s ← cString 1
    pure (do
      let r ← parseFullPath false true s
      .ok (Open.init .buffer .none buffers 0 r))
  else if c0 = ch '$' then
    let c1 ← byte 1
    if c1 = ch '=' then
      let c2 ← byte 2
      let s ← cString 3
      pure (parseDirName (if c2 = ch 'P' then .partitions else .dir)
        (if c2 = ch 'T' then .short else .none) s)
    else
      let s ← cString 1
      pure (parseDirName .dir .none s)
  else
    let s ← cString 0
    pure (parseFileName s)

end Cbmdos
