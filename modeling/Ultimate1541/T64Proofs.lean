import Mathlib

/-! # T64 containers

    A T64 container is a file with a header, a table of entries and the data of the entries.
    Its file system reads all of it through one underlying file, whose position the listings
    and the open files share: a listing sets it when it begins, and a file when it is opened. -/

namespace T64

/-- A T64 container: it has the signature and a whole header. -/
structure Image where
  bytes : List UInt8
  signature : bytes.take 3 = [0x43, 0x36, 0x34]
  header : 64 ≤ bytes.length

/-- `t64_file`: the container, opened, with its position. -/
structure T64File where
  image : Image
  pos : Nat

namespace T64File

def seek (pos : Nat) (c : T64File) : T64File := { c with pos }

/-- What `read` of `len` bytes gives. -/
def bytesRead (len : Nat) (c : T64File) : List UInt8 := (c.image.bytes.drop c.pos).take len

/-- The file after `read`. -/
def read (len : Nat) (c : T64File) : T64File := { c with pos := c.pos + (c.bytesRead len).length }

end T64File

/-- `FileInfo`, as far as this file system sets it; `time` has the start address. -/
structure FileInfo where
  lfname : List UInt8
  time : Nat
  cluster : Nat
  size : Nat
  volume : Bool
  extension : List UInt8
  deriving DecidableEq, Repr

/-- `LD_WORD`. -/
def ldWord (buf : Nat → UInt8) (off : Nat) : Nat := (buf off).toNat + 256 * (buf (off + 1)).toNat

/-- `LD_DWORD`. -/
def ldDword (buf : Nat → UInt8) (off : Nat) : Nat := ldWord buf off + 65536 * ldWord buf (off + 2)

/-- A character of an entry's name. -/
def nameChar (c : UInt8) : UInt8 := if c = 0x2F then 0x21 else if c &&& 0x80 ≠ 0 then 0x20 else c

/-- `no trailing spaces please`. -/
def isTrailing (c : UInt8) : Bool := c = 0x20 ∨ c = 0xA0 ∨ c = 0xE0 ∨ c = 0

/-- The name of an entry. -/
def entryName (buf : Nat → UInt8) : List UInt8 :=
  ((((List.range 16).map fun s => nameChar (buf (16 + s))).reverse.dropWhile isTrailing).reverse).takeWhile (· ≠ 0)

/-- `f.size`: from the start address to the end address, and two more. -/
def entrySize (strt stop : Nat) : Nat :=
  (((if stop ≠ 0 then (stop : Int) - strt else 65536 - strt) + 2) % 2 ^ 32).toNat

/-- `strncpy(f.extension, "PRG", 4)`. -/
def prg : List UInt8 := [0x50, 0x52, 0x47]

/-- What an entry of the table sets. -/
def entryInfo (buf : Nat → UInt8) : FileInfo where
  lfname := entryName buf
  time := ldWord buf 2
  cluster := ldDword buf 8
  size := entrySize (ldWord buf 2) (ldWord buf 4)
  volume := false
  extension := prg

/-- What the second half of the header sets: the title. -/
def titleInfo (buf : Nat → UInt8) : FileInfo where
  lfname := ((List.range 23).map fun b => buf (b + 8)).takeWhile (· ≠ 0)
  time := 0
  cluster := 0
  size := 0
  volume := true
  extension := []

/-- `used`, which is one at least. -/
def usedEntries (buf : Nat → UInt8) : Nat := if ldWord buf 4 = 0 then 1 else ldWord buf 4

/-- `FRESULT`. -/
inductive FResult where
  | ok | noFile | noFilesystem
  deriving DecidableEq, Repr

/-- `DirectoryT64`, with the `FileInfo` that it is listed into. -/
structure Directory where
  idx : Nat
  used : Nat
  info : FileInfo
  deriving DecidableEq, Repr

/-- A buffer of 32 bytes: what was read, and behind it what the stack had. -/
def filled (junk : Nat → UInt8) (bytes : List UInt8) : Nat → UInt8 := fun i => bytes.getD i (junk i)

/-- The fields of the `FileInfo` that are always set. -/
def cleared (info : FileInfo) : FileInfo := { info with time := 0, extension := [] }

/-- The header is valid. -/
def validHeader (bytes : List UInt8) : Bool := bytes.length = 32 ∧ bytes.take 3 = [0x43, 0x36, 0x34]

/-- `DirectoryT64::get_entry`. -/
def Directory.getEntry (junk : Nat → UInt8) (d : Directory) (c : T64File) : FResult × Directory × T64File :=
  if d.idx = 0 then
    if validHeader ((c.seek 0).bytesRead 32) then
      (.ok,
        { idx := 1
          used := usedEntries (filled junk (((c.seek 0).read 32).bytesRead 32))
          info := titleInfo (filled junk (((c.seek 0).read 32).bytesRead 32)) },
        ((c.seek 0).read 32).read 32)
    else (.noFilesystem, { d with info := cleared d.info }, (c.seek 0).read 32)
  else if d.idx ≤ d.used then
    -- a free entry leaves the name, the place and the size of the entry before it
    (.ok,
      { d with
        idx := d.idx + 1
        info :=
          if filled junk (c.bytesRead 32) 0 ≠ 0 then entryInfo (filled junk (c.bytesRead 32))
          else cleared d.info },
      c.read 32)
  else (.noFile, { d with info := cleared d.info }, c)

/-- A new `FileInfo` and a new directory. -/
def Directory.opened : Directory := ⟨0, 0, ⟨[], 0, 0, 0, false, []⟩⟩

/-- The search of `walk_path` for an entry whose name is accepted, among less than `fuel`. -/
def Directory.find (junk : Nat → UInt8) (accepts : FileInfo → Bool) :
    (fuel : Nat) → Directory → T64File → Option FileInfo × T64File
  | 0, _, c => (none, c)
  | fuel + 1, d, c =>
      match d.getEntry junk c with
      | (.ok, d', c') =>
          if d'.info.volume then Directory.find junk accepts fuel d' c'
          else if accepts d'.info then (some d'.info, c')
          else Directory.find junk accepts fuel d' c'
      | (_, _, c') => (none, c')

/-- `FileInT64`. -/
structure FileInT64 where
  fileOffset : Nat
  offset : Nat
  length : Int
  startAddr : Nat
  deriving DecidableEq, Repr

namespace FileInT64

/-- `FileInT64::open`: the handle; the file is positioned on its data. -/
def «open» (info : FileInfo) : FileInT64 where
  fileOffset := info.cluster
  offset := 0
  length := (info.size : Int).bmod (2 ^ 32)
  startAddr := info.time

/-- One of the two bytes that are put before the data, if the file is there and there is room:
    the handle, the room left and what was delivered. -/
def prepend (at_ : Nat) (b : UInt8) (s : FileInT64 × Nat × List UInt8) : FileInT64 × Nat × List UInt8 :=
  if s.2.1 ≠ 0 ∧ s.1.offset = at_ then ({ s.1 with offset := s.1.offset + 1 }, s.2.1 - 1, s.2.2 ++ [b])
  else s

/-- The start address, as far as it is still to be delivered. -/
def address (f : FileInT64) (len : Nat) : FileInT64 × Nat × List UInt8 :=
  prepend 1 (UInt8.ofNat (f.startAddr / 256 % 256)) (prepend 0 (UInt8.ofNat (f.startAddr % 256)) (f, len, []))

/-- How many bytes of the container are asked for: the length that is left is compared as an
    unsigned number. -/
def asked (f : FileInT64) (len : Nat) : Nat := min len ((f.length - f.offset) % 2 ^ 32).toNat

/-- The part of `FileInT64::read` behind the start address. -/
def readData (f : FileInT64) (len : Nat) (c : T64File) : List UInt8 × FileInT64 × T64File :=
  if len = 0 then ([], f, c)
  else
    (c.bytesRead (f.asked len), { f with offset := f.offset + (c.bytesRead (f.asked len)).length },
      c.read (f.asked len))

/-- `FileInT64::read`: what is delivered, the handle and the container's file. -/
def read (f : FileInT64) (len : Nat) (c : T64File) : List UInt8 × FileInT64 × T64File :=
  ((f.address len).2.2 ++ ((f.address len).1.readData (f.address len).2.1 c).1,
    ((f.address len).1.readData (f.address len).2.1 c).2)

end FileInT64

/-! ## The file system in use -/

/-- What its users do. -/
inductive Op where
  /-- A file is opened, by the first entry whose name is accepted. -/
  | openFile (accepts : FileInfo → Bool)
  | read (file len : Nat)
  | openDir
  | getEntry (dir : Nat)

/-- What they get. -/
inductive Output where
  | opened (ok : Bool)
  | data (bytes : List UInt8)
  | listed (info : Option FileInfo)
  deriving DecidableEq, Repr

/-- The file system, with what is open in it. -/
structure FileSystem where
  file : T64File
  files : List FileInT64
  dirs : List Directory

/-- The most entries that a directory has, the title and the end. -/
def searchFuel : Nat := 65538

namespace FileSystem

/-- `FileSystemT64::file_open`. -/
def fileOpen (junk : Nat → UInt8) (accepts : FileInfo → Bool) (s : FileSystem) : Output × FileSystem :=
  match Directory.opened.find junk accepts searchFuel s.file with
  | (some info, c) => (.opened true, { s with file := c.seek info.cluster, files := s.files ++ [.open info] })
  | (none, c) => (.opened false, { s with file := c })

/-- One operation. -/
def step (junk : Nat → UInt8) (s : FileSystem) : Op → Output × FileSystem
  | .openFile accepts => s.fileOpen junk accepts
  | .read i len =>
      match s.files[i]? with
      | none => (.data [], s)
      | some f =>
          (.data (f.read len s.file).1,
            { s with file := (f.read len s.file).2.2, files := s.files.set i (f.read len s.file).2.1 })
  | .openDir => (.opened true, { s with dirs := s.dirs ++ [.opened] })
  | .getEntry j =>
      match s.dirs[j]? with
      | none => (.listed none, s)
      | some d =>
          (.listed (if (d.getEntry junk s.file).1 = .ok then some (d.getEntry junk s.file).2.1.info else none),
            { s with
              file := (d.getEntry junk s.file).2.2
              dirs := s.dirs.set j (d.getEntry junk s.file).2.1 })

/-- What a run of operations gives. -/
def run (junk : Nat → UInt8) : FileSystem → List Op → List Output
  | _, [] => []
  | s, op :: ops => (s.step junk op).1 :: run junk (s.step junk op).2 ops

/-- A container that was just mounted. -/
def mounted (image : Image) (pos : Nat) : FileSystem := ⟨⟨image, pos⟩, [], []⟩

end FileSystem

end T64
