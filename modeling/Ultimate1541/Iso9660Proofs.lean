import Mathlib

/-! # Directories of an ISO 9660 image

    A directory is a run of sectors with directory records in them; a record's first byte is
    its length, and a zero in its place ends the sector.  The file system has one sector in
    its buffer, copies the record that it comes to into `dir_record` and takes a file's name,
    place and size from there. -/

namespace Iso9660

/-- A mounted image: its sectors, of which one that cannot be read is `none`. -/
structure Volume where
  sectorSize : Nat
  disk : Nat → Option (Nat → UInt8)
  joliet : Bool
  sectorSize_ge : 512 ≤ sectorSize
  sectorSize_le : sectorSize ≤ 4096

/-- What is read and written. -/
inductive Region where
  | sectorBuffer | dirRecord | lfname | extension
  deriving DecidableEq, Repr

/-- `len` bytes from `off` on. -/
structure Access where
  region : Region
  off : Nat
  len : Nat
  deriving DecidableEq, Repr

/-- The sector buffer, with the memory behind it, and `last_read_sector`, whose content is in
    the buffer if it can be read. -/
structure View (v : Volume) where
  lastReadSector : Nat
  buffer : Nat → UInt8
  coherent : ∀ content, v.disk lastReadSector = some content → ∀ a < v.sectorSize, buffer a = content a

/-- `prt->read` of a sector, if another is in the buffer; an error goes unnoticed. -/
def View.read {v : Volume} (sector : Nat) (w : View v) : View v :=
  if w.lastReadSector ≠ sector then
    match h : v.disk sector with
    | some content =>
        { lastReadSector := sector
          buffer := fun a => if a < v.sectorSize then content a else w.buffer a
          coherent := fun c hc a ha => by
            rw [h] at hc
            rw [if_pos ha, Option.some.inj hc] }
    | none =>
        { lastReadSector := sector
          buffer := w.buffer
          coherent := fun c hc => by rw [h] at hc; exact nomatch hc }
  else w

/-- The file system: its view, the memory of `dir_record` from `actual` on, and what was
    accessed. -/
structure Fs (v : Volume) where
  view : View v
  record : Nat → UInt8
  accesses : List Access

/-- `t_iso_handle`. -/
structure Handle where
  sector : Nat
  remaining : Int
  offset : Nat
  deriving DecidableEq, Repr

/-- `FileInfo`, as far as a directory entry sets it; `lfname` is what is stored there. -/
structure FileInfo where
  cluster : Nat
  size : Nat
  directory : Bool
  lfname : List UInt8
  extension : List UInt8
  deriving DecidableEq, Repr

/-- The name buffer of a `FileInfo`. -/
structure NameBuffer where
  lfsize : Nat
  pos : 0 < lfsize

/-! ## Records -/

/-- `sizeof(struct t_directory_record)`: the identifier is behind it. -/
def actualSize : Nat := 33

/-- `identifier_length`. -/
def identifierLength (record : Nat → UInt8) : Nat := (record 32).toNat

/-- The identifier of a record. -/
def identifier (record : Nat → UInt8) : List UInt8 :=
  (List.range (identifierLength record)).map fun i => record (actualSize + i)

/-- A 32-bit number. -/
def long (record : Nat → UInt8) (off : Nat) : Nat :=
  (record off).toNat + 256 * (record (off + 1)).toNat + 65536 * (record (off + 2)).toNat +
    16777216 * (record (off + 3)).toNat

/-- `FileSystem_ISO9660::get_dir_record`, of what is in the buffer at `off`. -/
def Fs.getDirRecord {v : Volume} (off : Nat) (fs : Fs v) : Fs v :=
  if fs.view.buffer off = 0 then
    { fs with
      record := fun a => if a = 0 then 0 else fs.record a
      accesses := fs.accesses ++ [⟨.sectorBuffer, off, 1⟩, ⟨.dirRecord, 0, 1⟩] }
  else
    { fs with
      record := terminated (copied off fs)
      accesses := fs.accesses ++
        [⟨.sectorBuffer, off, 1⟩, ⟨.sectorBuffer, off, (fs.view.buffer off).toNat⟩,
          ⟨.dirRecord, 0, (fs.view.buffer off).toNat⟩,
          ⟨.dirRecord, actualSize + identifierLength (copied off fs), 1⟩] }
where
  /-- `memcpy` of the record. -/
  copied (off : Nat) (fs : Fs v) : Nat → UInt8 := fun a =>
    if a < (fs.view.buffer off).toNat then fs.view.buffer (off + a) else fs.record a
  /-- The terminator behind the identifier. -/
  terminated (record : Nat → UInt8) : Nat → UInt8 := fun a =>
    if a = actualSize + identifierLength record then 0 else record a

/-- `eliminate version string`, from `dest` down. -/
def eliminateVersion : (dest : Nat) → List UInt8 → List UInt8
  | 0, name => name
  | dest + 1, name => if name.getD dest 0 = 0x3B then name.set dest 0 else eliminateVersion dest name

/-- How many characters of an identifier of `length` bytes are copied. -/
def nameLength (v : Volume) (n : NameBuffer) (length : Nat) : Nat :=
  min (if v.joliet then length / 2 else length) (n.lfsize - 1)

/-- What is stored in `lfname`, with its terminator. -/
def lfname (v : Volume) (n : NameBuffer) (directory : Bool) (ident : List UInt8) : List UInt8 :=
  if directory then copiedName else eliminateVersion (nameLength v n ident.length) copiedName
where
  copiedName : List UInt8 :=
    (List.range (nameLength v n ident.length)).map
      (fun i => ident.getD (if v.joliet then 2 * i + 1 else i) 0) ++ [0]

/-- `(joliet) ? 2 : 1`. -/
def step (v : Volume) : Nat := if v.joliet then 2 else 1

/-- The last dot, from `pos` down but not at 0. -/
def findDot (step : Nat) (ident : List UInt8) : (fuel pos : Nat) → Option Nat
  | 0, _ => none
  | fuel + 1, pos =>
      if pos = 0 then none
      else if ident.getD pos 0 = 0x2E then some pos
      else findDot step ident fuel (pos - step)

def toupper (b : UInt8) : UInt8 := if 0x61 ≤ b ∧ b ≤ 0x7A then b - 0x20 else b

/-- The dot before an identifier's extension. -/
def dotOf (v : Volume) (ident : List UInt8) : Option Nat :=
  findDot (step v) ident ident.length (ident.length - 1)

/-- What can be read from `extension`. -/
def extension (v : Volume) (ident : List UInt8) : List UInt8 :=
  match dotOf v ident with
  | some pos =>
      ([1, 2, 3].map fun i =>
        if pos + i * step v < ident.length then toupper (ident.getD (pos + i * step v) 0) else 0).takeWhile (· ≠ 0)
  | none => []

/-- What `get_dir_entry` takes from `dir_record`. -/
def fileInfo (v : Volume) (n : NameBuffer) (record : Nat → UInt8) : FileInfo where
  cluster := long record 2
  size := long record 10
  directory := record 25 &&& 0x02 ≠ 0
  lfname := lfname v n (record 25 &&& 0x02 ≠ 0) (identifier record)
  extension := extension v (identifier record)

/-- `.` or `..`. -/
def isDot (record : Nat → UInt8) : Bool := identifierLength record = 1 ∧ (record actualSize = 0 ∨ record actualSize = 1)

/-! ## Directories -/

/-- What one turn at `try_next` comes to. -/
inductive Turn (v : Volume) where
  | tryNext (fs : Fs v) (h : Handle)
  | noFile (fs : Fs v)
  | entry (fs : Fs v) (h : Handle) (info : FileInfo)

/-- The handle on the next sector. -/
def Handle.nextSector (v : Volume) (h : Handle) : Handle :=
  ⟨(h.sector + 1) % 2 ^ 32, h.remaining - v.sectorSize, 0⟩

/-- The sector of the handle is read and the record at its offset copied. -/
def Fs.fetch {v : Volume} (h : Handle) (fs : Fs v) : Fs v :=
  Fs.getDirRecord h.offset { fs with view := fs.view.read h.sector }

/-- `FileInfo`'s name and extension are stored. -/
def Fs.fill {v : Volume} (n : NameBuffer) (fs : Fs v) : Fs v :=
  { fs with
    accesses := fs.accesses ++
      [⟨.lfname, 0, (fileInfo v n fs.record).lfname.length⟩, ⟨.extension, 0, 1⟩,
        ⟨.extension, 0, if (dotOf v (identifier fs.record)).isSome then 3 else 0⟩, ⟨.extension, 3, 1⟩] }

/-- One turn at `try_next` in `FileSystem_ISO9660::get_dir_entry`. -/
def turn {v : Volume} (n : NameBuffer) (fs : Fs v) (h : Handle) : Turn v :=
  if h.remaining ≤ h.offset then .noFile fs
  else if (fs.fetch h).record 0 = 0 ∨ v.sectorSize ≤ h.offset then
    if h.offset = 0 then .noFile (fs.fetch h) else .tryNext (fs.fetch h) (h.nextSector v)
  else if isDot (fs.fetch h).record then
    .tryNext (fs.fetch h) { h with offset := h.offset + ((fs.fetch h).record 0).toNat }
  else
    .entry ((fs.fetch h).fill n) { h with offset := h.offset + ((fs.fetch h).record 0).toNat }
      (fileInfo v n (fs.fetch h).record)

/-- `FileSystem_ISO9660::get_dir_entry`, in less than `fuel` turns; it fails with no file. -/
def getDirEntry {v : Volume} (n : NameBuffer) :
    (fuel : Nat) → Fs v → Handle → Option (Fs v × Handle × Option FileInfo)
  | 0, _, _ => none
  | fuel + 1, fs, h =>
      match turn n fs h with
      | .tryNext fs' h' => getDirEntry n fuel fs' h'
      | .noFile fs' => some (fs', h, none)
      | .entry fs' h' info => some (fs', h', some info)

/-- `get_dir_entry` is called until it fails, less than `calls` times. -/
def list {v : Volume} (n : NameBuffer) (fuel : Nat) :
    (calls : Nat) → Fs v → Handle → Option (Fs v × List FileInfo)
  | 0, _, _ => none
  | calls + 1, fs, h =>
      match getDirEntry n fuel fs h with
      | none => none
      | some (fs', _, none) => some (fs', [])
      | some (fs', h', some info) => (list n fuel calls fs' h').map fun r => (r.1, info :: r.2)

/-- The handle that `dir_open` makes of a directory at `sector`; the size becomes an `int`. -/
def dirOpen (sector size : Nat) : Handle := ⟨sector, (size : Int).bmod (2 ^ 32), 0⟩

end Iso9660
