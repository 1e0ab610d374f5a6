import Ultimate1541.CbmOpenProofs

/-! # Directories, and the calls that go through them

    A directory is a chain of sectors with eight entries each, behind a header
    block.  `DirInCBM` walks it with a map of the sectors it has visited;
    `create` looks for an unused slot and appends a sector when there is none.
    `file_open` and `file_delete` find an entry by name first.  Matching a name
    is a parameter, `accepts`: nothing here depends on how names are compared. -/

namespace CbmDir

open CbmLayout CbmBam CbmDisk CbmFile ByteBuffer Footprint

/-- The fields of `FileInfo` the callers look at. -/
structure FileInfo where
  isVolume : Bool
  isDir : Bool
  cluster : Option Nat
  deriving DecidableEq, Repr

/-- `DirInCBM`.  `start` is `none` while `start_track` is negative, and track 0
    stands for the `-1` of `curr_t` when no sector is current. -/
structure DirInCBM where
  idx : Int
  currTrack : Nat
  currSector : Nat
  nextTrack : Nat
  nextSector : Nat
  headerTrack : Nat
  headerSector : Nat
  start : Option (Nat × Nat)
  visited : Nat → Bool
  fs : Fs

namespace DirInCBM

/-- The constructor; cluster 0 is the root. -/
def new (g : Geometry) (junk : Indeterminate) (fs : Fs) (cluster : Nat) : DirInCBM where
  idx := -2
  currTrack := 0
  currSector := 0
  nextTrack := 0
  nextSector := 0
  headerTrack := if cluster = 0 then rootTrack g.kind
    else ((CbmLayout.getTrackSector g cluster).map Prod.fst).getD junk.tr.toNat
  headerSector := if cluster = 0 then rootSector g.kind
    else ((CbmLayout.getTrackSector g cluster).map Prod.snd).getD junk.sec.toNat
  start := if cluster = 0 then (dirTrack g.kind).map fun t => (t, dirSector g.kind) else none
  visited := fun _ => false
  fs := fs

/-- `DirInCBM::open`. -/
def openDir (d : DirInCBM) : DirInCBM := { d with idx := -2, visited := fun _ => false }

/-- `visited[a] = 1`. -/
def mark (d : DirInCBM) (a : Nat) : DirInCBM :=
  { d with visited := Function.update d.visited a true }

/-- `idx & 7`. -/
def slot (d : DirInCBM) : Nat := (d.idx % 8).toNat

/-- Where the entry of slot `i` starts in its sector. -/
def slotOffset (i : Nat) : Nat := 32 * i

/-- What `get_pointer` points to. -/
def pointer (d : DirInCBM) : DirEntryCBM := entryOf d.fs.sectBuffer (slotOffset d.slot)

/-- The link of the sector in view, into `next_t` and `next_s`. -/
def takeLink (d : DirInCBM) : DirInCBM :=
  { d with
    nextTrack := (d.fs.sectBuffer.get 0).toNat
    nextSector := (d.fs.sectBuffer.get 1).toNat }

/-- The position moves on to the next sector of the chain. -/
def stepToNext (d : DirInCBM) : DirInCBM :=
  { d with currTrack := d.nextTrack, currSector := d.nextSector }

/-- `next_t` and `next_s`, set. -/
def withNext (d : DirInCBM) (track sector : Nat) : DirInCBM :=
  { d with nextTrack := track, nextSector := sector }

/-- The first sector with entries into `next_t` and `next_s`: the known one, or
    the link of the header in view. -/
def toFirst (d : DirInCBM) : DirInCBM :=
  match d.start with
  | none => d.takeLink
  | some (t, s) => d.withNext t s

/-! ## Listing -/

/-- No sector is current. -/
def noCurrent (d : DirInCBM) : DirInCBM := { d with currTrack := 0, currSector := 0 }

/-- `fs` with its window moved. -/
def withFs (d : DirInCBM) (fs : Fs) : DirInCBM := { d with fs := fs }

/-- `idx++`. -/
def succ (d : DirInCBM) : DirInCBM := { d with idx := d.idx + 1 }

/-- The first entry of a listing: the header block. -/
def volumeEntry (g : Geometry) (d : DirInCBM) : FResult × Option FileInfo × DirInCBM :=
  let d := d.noCurrent
  match absSector g d.headerTrack d.headerSector with
  | none => (.noFile, none, d)
  | some a =>
      if d.visited a = true then (.noFile, none, d)
      else
        match d.fs.moveWindow g (some a) with
        | (.ok, fs) =>
            let d := (d.mark a).withFs fs
            (.ok, some ⟨true, false, some a⟩, d.toFirst)
        | (_, fs) => (.diskErr, none, (d.mark a).withFs fs)

/-- The part of a round of `get_entry` that brings the sector of the entry into
    view. -/
def bringInEntry (g : Geometry) (d : DirInCBM) : FResult × DirInCBM :=
  if d.idx % 8 = 0 then
    let d := d.stepToNext
    if d.nextTrack = 0 then (.noFile, d) -- end of list
    else
      match absSector g d.currTrack d.currSector with
      | none => (.noFile, d)
      | some a =>
          match d.fs.moveWindow g (some a) with
          | (.ok, fs) =>
              let d := (d.withFs fs).takeLink
              if d.visited a = true then (.noFile, d) else (.ok, d.mark a)
          | (_, fs) => (.diskErr, d.withFs fs)
  else
    match absSector g d.currTrack d.currSector with
    | none => (.noFile, d)
    | some a =>
        match d.fs.moveWindow g (some a) with
        | (.ok, fs) => (.ok, d.withFs fs)
        | (_, fs) => (.diskErr, d.withFs fs)

/-- An entry that is listed: in use, and of a type from 1 to 6. -/
def isListed (de : DirEntryCBM) : Bool :=
  let tp := de.at .stdFileType &&& 0x0F
  decide (1 ≤ tp) && decide (tp ≤ 6)

/-- The `FileInfo` of an entry. -/
def infoOf (g : Geometry) (de : DirEntryCBM) : FileInfo where
  isVolume := false
  isDir := (de.at .stdFileType &&& 0x0F) == 6
  cluster := absSector g (de.at .dataTrack).toNat (de.at .dataSector).toNat

/-- The loop of `get_entry`, which runs once at least. -/
def entryLoop (g : Geometry) : Nat → DirInCBM → FResult × Option FileInfo × DirInCBM
  | 0, d => (.noFile, none, d)
  | rounds + 1, d =>
      match d.bringInEntry g with
      | (.ok, d) =>
          if isListed d.pointer = true then (.ok, some (infoOf g d.pointer), d)
          else if d.succ.idx < 256 then entryLoop g rounds d.succ
          else (.noFile, none, d.succ)
      | (res, d) => (res, none, d)

/-- `DirInCBM::get_entry`.  No listing goes through more than 256 slots in one
    call. -/
def getEntry (g : Geometry) (d : DirInCBM) : FResult × Option FileInfo × DirInCBM :=
  if d.fs.rootValid = false then (.noFile, none, d)
  else
    let d := d.succ
    if d.idx = -1 then d.volumeEntry g else d.entryLoop g 257

/-- The loop of `find_file`. -/
def findLoop (g : Geometry) (accepts : DirEntryCBM → Bool) :
    Nat → DirInCBM → Option (FResult × Option FileInfo × DirInCBM)
  | 0, _ => none
  | fuel + 1, d =>
      match d.getEntry g with
      | (.ok, some info, d) =>
          if info.isVolume = true then findLoop g accepts fuel d
          else if accepts d.pointer = true then some (.ok, some info, d)
          else findLoop g accepts fuel d
      | (res, info, d) => some (res, info, d)

/-- `find_file`. -/
def findFile (g : Geometry) (accepts : DirEntryCBM → Bool) (fuel : Nat) (d : DirInCBM) :
    Option (FResult × Option FileInfo × DirInCBM) :=
  findLoop g accepts fuel d.openDir

/-! ## Creating an entry -/

/-- What a new entry is made of: the type and the name `CbmFileName` found (it
    knows no type 0), and the time. -/
structure NewEntry where
  type : UInt8
  name : List UInt8
  year : Nat
  month : Nat
  day : Nat
  hour : Nat
  minute : Nat
  type_ne : type ≠ 0
  name_le : name.length ≤ 16

/-- The year as an entry stores it. -/
def yearByte (y : Nat) : UInt8 := UInt8.ofNat (if y ≥ 20 then y - 20 else y + 80)

/-- The bytes of the new entry from `std_fileType` on: no data, the name padded
    with shifted spaces, no side sectors, the date, size 0. -/
def NewEntry.bytes (e : NewEntry) : List UInt8 :=
  [e.type, 0, 0] ++ (e.name ++ List.replicate (16 - e.name.length) 0xA0) ++ [0, 0, 0, 0] ++
    [yearByte e.year, UInt8.ofNat e.month, UInt8.ofNat e.day, UInt8.ofNat e.hour,
      UInt8.ofNat e.minute] ++ [0, 0]

/-- The sector in view is linked to the next one. -/
def linkNext (d : DirInCBM) : DirInCBM :=
  d.withFs (d.fs.edit fun b =>
    (b.set 0 (UInt8.ofNat d.nextTrack)).set 1 (UInt8.ofNat d.nextSector))

/-- Allocate a sector for the directory anywhere on the disk. -/
def appendAnywhere (g : Geometry) (d : DirInCBM) : Option (FResult × DirInCBM) :=
  match d.fs.getNextFreeSector g d.nextTrack d.nextSector with
  | none => none
  | some (r, fs) =>
      let d := (d.withNext r.track r.sector).withFs fs
      if r.ok = true then some (.ok, d.linkNext) else some (.diskFull, d)

/-- Allocate a sector for the directory on its track. -/
def appendOnTrack (g : Geometry) (t : Nat) (d : DirInCBM) : Option (FResult × DirInCBM) :=
  match (allocateSectorOnTrack g.kind t).exec d.fs.bam with
  | none => none
  | some (none, m) =>
      some (.diskFull, (d.withNext t (dirSector g.kind)).withFs { d.fs with bam := m })
  | some (some s, m) => some (.ok, ((d.withNext t s).withFs { d.fs with bam := m }).linkNext)

/-- Allocate a sector for the directory and link it to the sector in view.  A
    directory that starts where the root does has to stay on its track. -/
def appendSector (g : Geometry) (d : DirInCBM) : Option (FResult × DirInCBM) :=
  match dirTrack g.kind with
  | some t => if d.start.map Prod.fst = some t then d.appendOnTrack g t else d.appendAnywhere g
  | none => d.appendAnywhere g

/-- Bring the next sector of the chain into view; a sector just appended is
    cleared. -/
def enterSector (g : Geometry) (append : Bool) (d : DirInCBM) : FResult × DirInCBM :=
  let d := d.stepToNext
  match absSector g d.currTrack d.currSector with
  | none => (.diskErr, d)
  | some a =>
      match d.fs.moveWindow g (some a) with
      | (.ok, fs) =>
          let fs := if append then fs.edit fun _ => Buffer.zero.set 1 0xFF else fs
          let d := (d.withFs fs).takeLink
          if d.visited a = true then (.noFile, d) else (.ok, d.mark a)
      | (_, fs) => (.diskErr, d.withFs fs)

/-- The part of a round of `create` that brings the sector of the slot into
    view. -/
def bringInSlot (g : Geometry) (d : DirInCBM) : Option (FResult × DirInCBM) :=
  if d.idx % 8 = 0 then
    if d.nextTrack = 0 then
      match d.appendSector g with
      | none => none
      | some (.ok, d) => some (d.enterSector g true)
      | some (res, d) => some (res, d)
    else some (d.enterSector g false)
  else
    match absSector g d.currTrack d.currSector with
    | none => some (.diskErr, d)
    | some a =>
        match d.fs.moveWindow g (some a) with
        | (.ok, fs) => some (.ok, d.withFs fs)
        | (_, fs) => some (.diskErr, d.withFs fs)

/-- The loop of `create` over the slots; the answer has the offset `p` points
    to.  It also ends, with `p` on the last slot it looked at, when all rounds
    are used up: this is the bound `idx < 256`. -/
def createLoop (g : Geometry) : Nat → Nat → DirInCBM → Option (FResult × Nat × DirInCBM)
  | 0, p, d => some (.ok, p, d)
  | rounds + 1, _, d =>
      match d.bringInSlot g with
      | none => none
      | some (.ok, d) =>
          let p := slotOffset d.slot
          if d.fs.sectBuffer.get (p + Field.stdFileType.offset) = 0 then some (.ok, p, d)
          else createLoop g rounds p d.succ
      | some (res, d) => some (res, 0, d)

/-- `open`, and the index of the first slot. -/
def openSlots (d : DirInCBM) : DirInCBM := { d.openDir with idx := 0 }

/-- The next sector is the first one from now on. -/
def keepStart (d : DirInCBM) : DirInCBM := { d with start := some (d.nextTrack, d.nextSector) }

/-- The start of `create`: the position in front of the first slot. -/
def createBegin (g : Geometry) (d : DirInCBM) : FResult × DirInCBM :=
  let d := d.openSlots
  match absSector g d.headerTrack d.headerSector with
  | none => (.noFile, d)
  | some a =>
      let d := d.mark a
      match d.start with
      | some (t, s) => (.ok, d.withNext t s)
      | none =>
          match d.fs.moveWindow g (some a) with
          | (.ok, fs) => (.ok, (d.withFs fs).takeLink.keepStart)
          | (_, fs) => (.diskErr, d.withFs fs)

/-- The end of `create`: the entry is written where `p` points. -/
def writeEntry (g : Geometry) (e : NewEntry) (p : Nat) (d : DirInCBM) : DirInCBM :=
  d.withFs ((d.fs.edit fun b => b.blit (p + 2) e.bytes).sync g).2

/-- What `create` does behind its loop. -/
def createEnd (g : Geometry) (e : NewEntry) :
    Option (FResult × Nat × DirInCBM) → Option (FResult × DirInCBM)
  | none => none
  | some (.ok, p, d) => some (.ok, d.writeEntry g e p)
  | some (res, _, d) => some (res, d)

/-- `DirInCBM::create`. -/
def create (g : Geometry) (e : NewEntry) (d : DirInCBM) : Option (FResult × DirInCBM) :=
  match d.createBegin g with
  | (.ok, d) => createEnd g e (createLoop g 256 0 d)
  | (res, d) => some (res, d)

end DirInCBM

/-! ## Giving sectors back -/

/-- The outcome of `deallocate_chain`. -/
structure Dealloc where
  res : FResult
  visited : Nat → Bool
  fs : Fs

/-- The loop of `deallocate_chain`.  It ends on a sector it has visited, so it
    has at most one round for every sector. -/
def deallocateLoop (g : Geometry) : Nat → UInt8 → UInt8 → (Nat → Bool) → Fs → Option Dealloc
  | 0, _, _, _, _ => none
  | rounds + 1, track, sector, visited, fs =>
      if track = 0 then some ⟨.ok, visited, fs⟩
      else
        match absSector g track.toNat sector.toNat with
        | none => some ⟨.intErr, visited, fs⟩
        | some a =>
            if visited a = true then some ⟨.loopDetected, visited, fs⟩
            else
              let visited := Function.update visited a true
              match fs.moveWindow g (some a) with
              | (.ok, fs) =>
                  match fs.setSectorAllocation g track.toNat sector.toNat false with
                  | none => none
                  | some (_, fs) =>
                      deallocateLoop g rounds (fs.sectBuffer.get 0) (fs.sectBuffer.get 1)
                        visited fs
              | (res, fs) => some ⟨res, visited, fs⟩

/-- `deallocate_chain`. -/
def deallocateChain (g : Geometry) (track sector : UInt8) (visited : Nat → Bool) (fs : Fs) :
    Option Dealloc :=
  deallocateLoop g (g.numSectors + 2) track sector visited fs

/-- The loop of `deallocate_vlir_records` from entry `i` on. -/
def deallocateRecords (g : Geometry) (rblk : Block) :
    Nat → Nat → (Nat → Bool) → Fs → Option Dealloc
  | _, 0, visited, fs => some ⟨.ok, visited, fs⟩
  | i, left + 1, visited, fs =>
      let t := rblk.get (2 + 2 * i)
      let s := rblk.get (3 + 2 * i)
      if t ≠ 0 then
        match deallocateChain g t s visited fs with
        | none => none
        | some r =>
            if r.res ≠ .ok then some r
            else deallocateRecords g rblk (i + 1) left r.visited r.fs
      else if s = 0 then some ⟨.ok, visited, fs⟩ -- 00 00 ends the list
      else deallocateRecords g rblk (i + 1) left visited fs

/-- A single block, as the record block of a VLIR file has to be. -/
def isRecordBlock (b : Block) : Bool := b.get 0 == 0 && b.get 1 == 0xFF

/-- `deallocate_vlir_records`. -/
def deallocateVlirRecords (g : Geometry) (track sector : UInt8) (visited : Nat → Bool)
    (fs : Fs) : Option Dealloc :=
  match fs.readSector g track.toNat sector.toNat with
  | (.ok, rblk) =>
      if isRecordBlock rblk = true then deallocateRecords g rblk 0 127 visited fs
      else some ⟨.ok, visited, fs⟩
  | (res, _) => some ⟨res, visited, fs⟩

/-- `is_vlir_entry`. -/
def isVlirEntry (de : DirEntryCBM) : Bool :=
  let ty := FileInCBM.typeCode de
  decide (1 ≤ ty) && decide (ty ≤ 3) && de.at .geosFiletype != 0 && de.at .recordSize == 1

/-- The part of `file_delete` behind the checks: the entry is marked as unused
    and its chains are given back. -/
def deleteEntry (g : Geometry) (d : DirInCBM) : Option (FResult × DirInCBM) :=
  let de := d.pointer
  let fs := d.fs.edit fun b => b.set (DirInCBM.slotOffset d.slot + Field.stdFileType.offset) 0
  match (if isVlirEntry de then
      deallocateVlirRecords g (de.at .dataTrack) (de.at .dataSector) d.visited fs
    else some ⟨.ok, d.visited, fs⟩) with
  | none => none
  | some r₁ =>
      match deallocateChain g (de.at .dataTrack) (de.at .dataSector) r₁.visited r₁.fs with
      | none => none
      | some r₂ =>
          match deallocateChain g (de.at .auxTrack) (de.at .auxSector) r₂.visited r₂.fs with
          | none => none
          | some r₃ =>
              let s := r₃.fs.sync g
              let first := if r₁.res ≠ .ok then r₁.res
                else if r₂.res ≠ .ok then r₂.res else r₃.res
              some (if first ≠ .ok then first else s.1,
                { d with visited := r₃.visited, fs := s.2 })

/-- The check of `file_delete` that a directory is empty: its listing has the
    volume entry and nothing else.  The window is moved back afterwards. -/
def checkEmpty (g : Geometry) (junk : Indeterminate) (info : FileInfo) (d : DirInCBM) :
    FResult × DirInCBM :=
  let subdir := (DirInCBM.new g junk d.fs (info.cluster.getD (2 ^ 32 - 1))).openDir
  match subdir.getEntry g with
  | (.ok, _, subdir) =>
      match subdir.getEntry g with
      | (.ok, _, subdir) => (.dirNotEmpty, { d with fs := subdir.fs })
      | (.noFile, _, subdir) =>
          let r := subdir.fs.moveWindow g (absSector g d.currTrack d.currSector)
          (r.1, { d with fs := r.2 })
      | (res, _, subdir) => (res, { d with fs := subdir.fs })
  | (res, _, subdir) => (res, { d with fs := subdir.fs })

/-- `file_delete`, in the directory `d` its path leads to. -/
def fileDelete (g : Geometry) (junk : Indeterminate) (fuel : Nat)
    (accepts : DirEntryCBM → Bool) (d : DirInCBM) : Option (FResult × DirInCBM) :=
  if d.fs.isWritable = false then some (.writeProtected, d)
  else
    match d.findFile g accepts fuel with
    | none => none
    | some (.ok, some info, d) =>
        if info.isDir = true then
          match checkEmpty g junk info d with
          | (.ok, d) => deleteEntry g d
          | (res, d) => some (res, d)
        else deleteEntry g d
    | some (res, _, d) => some (res, d)

/-- The references of the entry in a slot, dropped. -/
def clearFields (slot : Nat) (b : Block) : Block :=
  let p := DirInCBM.slotOffset slot
  ((((b.set (p + Field.dataSector.offset) 0).set (p + Field.dataTrack.offset) 0).set
    (p + Field.auxSector.offset) 0).set (p + Field.auxTrack.offset) 0).set
      (p + Field.recordSize.offset) 0

/-- The part of `file_open` that clears an existing file: the references are
    dropped and the two chains they started are given back. -/
def clearEntry (g : Geometry) (d : DirInCBM) : Option DirInCBM :=
  let de := d.pointer
  let fs := d.fs.edit (clearFields d.slot)
  match deallocateChain g (de.at .dataTrack) (de.at .dataSector) d.visited fs with
  | none => none
  | some r₁ =>
      match deallocateChain g (de.at .auxTrack) (de.at .auxSector) r₁.visited r₁.fs with
      | none => none
      | some r₂ =>
          let fs := (r₂.fs.sync g).2
          let w := fs.moveWindow g (absSector g d.currTrack d.currSector)
          some { d with visited := r₂.visited, fs := w.2 }

/-- The end of `file_open`: a handle on the entry is opened. -/
def openEntry (g : Geometry) (junk : Indeterminate) (fuel : Nat) (flags : UInt8)
    (d : DirInCBM) : Option (FResult × FileInCBM) :=
  (FileInCBM.openFile g junk fuel flags
    (FileInCBM.new g d.fs d.pointer d.currTrack d.currSector (d.idx.tmod 8).toNat)).map
      fun r => (r.res, r.file)

/-- The answer of `file_open`: a handle, or the file system without one. -/
inductive Opened where
  | handle (res : FResult) (file : FileInCBM)
  | failed (res : FResult) (fs : Fs)

/-- The file system behind an answer. -/
def Opened.fs : Opened → Fs
  | .handle _ file => file.fs
  | .failed _ fs => fs

/-- `file_open`, in the directory `d` its path leads to; `e` is the entry it
    makes for a new file. -/
def fileOpen (g : Geometry) (junk : Indeterminate) (fuel : Nat) (flags : UInt8)
    (accepts : DirEntryCBM → Bool) (e : DirInCBM.NewEntry) (d : DirInCBM) : Option Opened :=
  if flags &&& 0x1E ≠ 0 ∧ d.fs.isWritable = false then some (.failed .writeProtected d.fs)
  else
    match d.findFile g accepts fuel with
    | none => none
    | some (.noFile, _, d) =>
        if flags &&& 0x1C = 0 then some (.failed .noFile d.fs)
        else
          match d.create g e with
          | none => none
          | some (.ok, d) =>
              (openEntry g junk fuel flags d).map fun r => .handle r.1 r.2
          | some (res, d) => some (.failed res d.fs)
    | some (.ok, _, d) =>
        if flags &&& 0x04 ≠ 0 then some (.failed .exist d.fs)
        else if flags &&& 0x08 ≠ 0 then
          match clearEntry g d with
          | none => none
          | some d => (openEntry g junk fuel flags d).map fun r => .handle r.1 r.2
        else (openEntry g junk fuel flags d).map fun r => .handle r.1 r.2
    | some (res, _, d) => some (.failed res d.fs)

end CbmDir
