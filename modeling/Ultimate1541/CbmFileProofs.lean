import Ultimate1541.CbmSideSectorProofs

/-! # File handles

    `FileInCBM` as the source has it: a handle is a copy of the directory
    entry, a position in a chain of sectors, and for REL and CVT files a
    synthetic header in front of the chain.  Positions are a track, a sector and
    an offset; `read` and `write` share them, and `write` uses the track and
    sector as the hint of the allocator as well.

    Functions that can run into the allocator answer an `Option`: `none` is an
    access past a buffer.  `open` also follows chains without a bound, so it
    takes fuel, and `none` can mean that the fuel is used up. -/

namespace CbmFile

open CbmLayout CbmBam CbmDisk ByteBuffer

/-! ## Directory entries -/

/-- The fields of `DirEntryCBM`, by their offset in the 32 bytes of an entry. -/
inductive Field where
  | stdFileType
  | dataTrack
  | dataSector
  | name
  | auxTrack
  | auxSector
  | recordSize -- also `geos_structure`
  | geosFiletype
  | year
  | month
  | day
  | hour
  | minute
  | sizeLow
  | sizeHigh
  deriving DecidableEq, Repr

/-- Where a field starts. -/
def Field.offset : Field → Nat
  | .stdFileType => 2
  | .dataTrack => 3
  | .dataSector => 4
  | .name => 5
  | .auxTrack => 21
  | .auxSector => 22
  | .recordSize => 23
  | .geosFiletype => 24
  | .year => 25
  | .month => 26
  | .day => 27
  | .hour => 28
  | .minute => 29
  | .sizeLow => 30
  | .sizeHigh => 31

/-- `DirEntryCBM`. -/
abbrev DirEntryCBM : Type := Buffer 32

/-- One byte of an entry. -/
def DirEntryCBM.at (de : DirEntryCBM) (f : Field) : UInt8 := de.get f.offset

/-- The entry at an offset of a directory sector, copied out. -/
def entryOf (b : Block) (offset : Nat) : DirEntryCBM := fun i => b.get (offset + i.val)

/-! ## The handle -/

/-- The states of a handle. -/
inductive FileState where
  | header
  | linear
  | cvt
  | ended
  deriving DecidableEq, Repr

/-- `cvt_t::sections`. -/
structure Section where
  blocks : Nat
  bytesInLast : Nat
  deriving DecidableEq, Repr

/-- `cvt_t`. -/
structure Cvt where
  recordBlock : Block
  records : Nat
  sections : List Section
  currentSection : Nat

/-- The synthetic header; the largest one has four sectors of data. -/
structure Header where
  pos : Nat
  size : Nat
  data : Buffer 1016

/-- `FileInCBM`, with the file system it belongs to. -/
structure FileInCBM where
  state : FileState
  header : Header
  cvt : Option Cvt
  dirEntry : DirEntryCBM
  startCluster : Option Nat
  currentTrack : Nat
  currentSector : Nat
  offsetInSector : Nat
  numBlocks : Nat
  dirSect : Option Nat
  dirEntryOffset : Nat
  dirEntryModified : Bool
  isRel : Bool
  visited : Nat → Bool
  side : Option SideSectors
  fs : Fs

/-- The answer of a function on a handle. -/
structure Reply where
  res : FResult
  file : FileInCBM

namespace FileInCBM

/-- The constructor. -/
def new (g : Geometry) (fs : Fs) (de : DirEntryCBM) (dirTrack dirSector dirIndex : Nat) :
    FileInCBM where
  state := .linear
  header := ⟨0, 0, Buffer.zero⟩
  cvt := none
  dirEntry := de
  startCluster := some 0
  currentTrack := 0
  currentSector := 0
  offsetInSector := 0
  numBlocks := 0
  dirSect := absSector g dirTrack dirSector
  dirEntryOffset := dirIndex * 32
  dirEntryModified := false
  isRel := false
  visited := fun _ => false
  side := none
  fs := fs

/-- `fs->move_window` to a track and sector. -/
def moveTo (g : Geometry) (f : FileInCBM) (track sector : Nat) : Reply :=
  let r := f.fs.moveWindow g (absSector g track sector)
  ⟨r.1, { f with fs := r.2 }⟩

/-- `fs->sync()`, with its answer dropped. -/
def syncFs (g : Geometry) (f : FileInCBM) : FileInCBM := { f with fs := (f.fs.sync g).2 }

/-- `memset(visited, 0, ...)`. -/
def clearVisited (f : FileInCBM) : FileInCBM := { f with visited := fun _ => false }

/-- `FileInCBM::visit`. -/
def visit (g : Geometry) (f : FileInCBM) : Reply :=
  match absSector g f.currentTrack f.currentSector with
  | none => ⟨.intErr, f⟩
  | some a =>
      if f.visited a then ⟨.intErr, f⟩
      else ⟨.ok, { f with visited := Function.update f.visited a true }⟩

/-! ## Opening -/

/-- The loop of `followChain`; the source puts no bound on it.  The answer is
    the number of sectors and, if the chain ended well, its last byte code. -/
def followLoop (g : Geometry) : Nat → Nat → Nat → Nat → Fs →
    Option (FResult × Nat × Option Nat × Fs)
  | 0, _, _, _, _ => none
  | fuel + 1, track, sector, noSectors, fs =>
      match fs.moveWindow g (absSector g track sector) with
      | (.ok, fs') =>
          let t := fs'.sectBuffer.get 0
          let s := fs'.sectBuffer.get 1
          if t = 0 then some (.ok, noSectors + 1, some s.toNat, fs')
          else followLoop g fuel t.toNat s.toNat (noSectors + 1) fs'
      | (res, fs') => some (res, noSectors + 1, none, fs')

/-- `followChain`. -/
def followChain (g : Geometry) (fuel : Nat) (track sector : Nat) (fs : Fs) :
    Option (FResult × Nat × Option Nat × Fs) :=
  match fs.moveWindow g (absSector g track sector) with
  | (.ok, fs') => followLoop g fuel track sector 0 fs'
  | (res, fs') => some (res, 0, none, fs')

/-- `cvtSignature`, "PRG formatted GEOS file V1.0", with the zero `strcpy` ends
    it with. -/
def cvtSignature : List UInt8 :=
  [0x50, 0x52, 0x47, 0x20, 0x66, 0x6F, 0x72, 0x6D, 0x61, 0x74, 0x74, 0x65,
    0x64, 0x20, 0x47, 0x45, 0x4F, 0x53, 0x20, 0x66, 0x69, 0x6C, 0x65, 0x20,
    0x56, 0x31, 0x2E, 0x30, 0x00]

/-- `cvtSignatureLong`, "PRG GeoConvert98-format V2.0", with its zero. -/
def cvtSignatureLong : List UInt8 :=
  [0x50, 0x52, 0x47, 0x20, 0x47, 0x65, 0x6F, 0x43, 0x6F, 0x6E, 0x76, 0x65,
    0x72, 0x74, 0x39, 0x38, 0x2D, 0x66, 0x6F, 0x72, 0x6D, 0x61, 0x74, 0x20,
    0x56, 0x32, 0x2E, 0x30, 0x00]

/-- One entry of the record table: the length of its chain, or no blocks and
    the byte beside it when it refers to nothing. -/
def recordSection (g : Geometry) (junk : Indeterminate) (fuel track sector : Nat) (fs : Fs) :
    Option (Section × Fs) :=
  match absSector g track sector with
  | none => some (⟨0, sector⟩, fs)
  | some _ =>
      match followChain g fuel track sector fs with
      | none => none
      | some (_, n, last, fs') => some (⟨n, last.getD junk.bytesInLast⟩, fs')

/-- The loop of `create_cvt_header` over the record table from entry `i` on,
    with `left` entries to go. -/
def recordSections (g : Geometry) (junk : Indeterminate) (fuel : Nat) (vlir : Block) :
    Nat → Nat → Fs → Option (List Section × Fs)
  | _, 0, fs => some ([], fs)
  | i, left + 1, fs =>
      let t := vlir.get (2 + 2 * i)
      let s := vlir.get (3 + 2 * i)
      if t = 0 ∧ s = 0 then some ([], fs)
      else
        match recordSection g junk fuel t.toNat s.toNat fs with
        | none => none
        | some (sec, fs') =>
            match recordSections g junk fuel vlir (i + 1) left fs' with
            | none => none
            | some (secs, fs'') => some (sec :: secs, fs'')

/-- `Strip off any skips from the end`: the number of records up to the last
    one that is present, or all of them when none is. -/
def stripRecords (vlir : Block) : Nat → Nat → Nat
  | 0, all => all
  | i + 1, all => if vlir.get (2 + 2 * i) ≠ 0 then i + 1 else stripRecords vlir i all

/-- `Find first sector`: the first record that is present, from entry `i` on. -/
def firstRecord (vlir : Block) : Nat → Nat → Option Nat
  | _, 0 => none
  | i, left + 1 =>
      if vlir.get (2 + 2 * i) ≠ 0 then some i else firstRecord vlir (i + 1) left

/-- The bytes of the length tables, low and high, that replace the references
    of the record table. -/
def lengthsLow (secs : List Section) : List UInt8 :=
  secs.flatMap fun s => [UInt8.ofNat s.blocks, UInt8.ofNat s.bytesInLast]

def lengthsHigh (secs : List Section) : List UInt8 :=
  secs.flatMap fun s => [UInt8.ofNat (s.blocks / 256), 0]

/-- Sector 1 of the header: the directory entry without its references, and
    the signature. -/
def cvtHeaderSector (de : DirEntryCBM) (signature : List UInt8) : Buffer 1016 :=
  ((((((Buffer.zero.blit 0 (de.slice 2 30)).set 1 0).set 2 0).set 19 0).set 20 0).blit 30
    signature)

/-- What `create_cvt_header` leaves: the handle with its header. -/
def withHeader (f : FileInCBM) (data : Buffer 1016) (size : Nat) (cvt : Cvt) (fs : Fs) :
    FileInCBM :=
  { f with header := ⟨0, size, data⟩, cvt := some cvt, fs := fs }

/-- The part of `create_cvt_header` for VLIR files, once the record block is
    read. -/
def createVlirHeader (g : Geometry) (junk : Indeterminate) (fuel : Nat) (f : FileInCBM)
    (info vlir : Block) (fs : Fs) : Option FileInCBM :=
  match recordSections g junk fuel vlir 0 127 fs with
  | none => none
  | some (secs, fs') =>
      let records := stripRecords vlir secs.length secs.length
      let long := secs.any fun s => decide (s.blocks > 255)
      let kept := secs.take records
      let table := vlir.slice 2 254
      let data := ((cvtHeaderSector f.dirEntry
          (if long then cvtSignatureLong else cvtSignature)).blit 254 (info.slice 2 254)).blit
        508 table
      let data := (data.blit 508 (lengthsLow kept)).blit 762
        (if long then lengthsHigh kept ++ table.drop (2 * records) else lengthsHigh kept)
      let first := firstRecord vlir 0 records
      let f := match first with
        | some i => { f with
            currentTrack := (vlir.get (2 + 2 * i)).toNat
            currentSector := (vlir.get (3 + 2 * i)).toNat }
        | none => f
      some (f.withHeader data (if long then 4 * 254 else 3 * 254)
        ⟨vlir, records, secs, first.getD 0⟩ fs')

/-- `create_cvt_header`. -/
def createCvtHeader (g : Geometry) (junk : Indeterminate) (fuel : Nat) (f : FileInCBM) :
    Option FileInCBM :=
  let de := f.dirEntry
  let noCvt : Cvt := ⟨Buffer.zero, 0, [], 0⟩
  let first := cvtHeaderSector de cvtSignature
  match f.fs.moveWindow g
      (absSector g (de.at .auxTrack).toNat (de.at .auxSector).toNat) with
  | (.ok, fs) =>
      let info := fs.sectBuffer
      if de.at .recordSize = 0 then
        -- sequential: the chain is followed for its length only
        match followChain g fuel (de.at .dataTrack).toNat (de.at .dataSector).toNat fs with
        | none => none
        | some (_, n, last, fs') =>
            some ({ f with
                currentTrack := (de.at .dataTrack).toNat
                currentSector := (de.at .dataSector).toNat }.withHeader
              (first.blit 254 (info.slice 2 254)) (2 * 254)
              ⟨Buffer.zero, 1, [⟨n, last.getD junk.bytesInLast⟩], 0⟩ fs')
      else
        match prtReadAt g fs (de.at .dataTrack).toNat (de.at .dataSector).toNat with
        | none => some (f.withHeader (first.blit 254 (info.slice 2 254)) 30 noCvt fs)
        | some vlir => createVlirHeader g junk fuel f info vlir fs
  | (_, fs) => some (f.withHeader first 30 noCvt fs)

/-- `std_fileType & 7`. -/
def typeCode (de : DirEntryCBM) : UInt8 := de.at .stdFileType &&& 7

/-- The entry of a GEOS file, as `open` recognises it. -/
def isGeosEntry (de : DirEntryCBM) : Bool :=
  let tp := typeCode de
  decide (1 ≤ tp) && decide (tp ≤ 3) && (de.at .recordSize == 0 || de.at .recordSize == 1) &&
    de.at .auxTrack != 0

/-- The position `open` starts from. -/
def openPosition (g : Geometry) (f : FileInCBM) : FileInCBM :=
  let de := f.dirEntry
  if de.at .dataTrack = 0 then
    { f with startCluster := none, numBlocks := 0, currentTrack := 0, currentSector := 0 }
  else
    { f with
      startCluster := absSector g (de.at .dataTrack).toNat (de.at .dataSector).toNat
      currentTrack := (de.at .dataTrack).toNat
      currentSector := (de.at .dataSector).toNat
      numBlocks := (de.at .sizeHigh).toNat * 256 + (de.at .sizeLow).toNat
      offsetInSector := 2 }

/-- The REL part of `open`. -/
def openRel (g : Geometry) (fuel : Nat) (f : FileInCBM) : Option FileInCBM :=
  let de := f.dirEntry
  let f := { f with
    isRel := true
    state := .header
    header := ⟨0, 2, (Buffer.zero.set 0 (de.at .recordSize)).set 1 0⟩ }
  if de.at .recordSize = 0 then some f
  else
    let ss := SideSectors.new g (de.at .recordSize)
    if de.at .auxTrack = 0 then some { f with side := some ss }
    else
      match ss.load g fuel (de.at .auxTrack) (de.at .auxSector) f.fs with
      | none => none
      | some (_, ss', fs') => some { f with side := some ss', fs := fs' }

/-- `state = ST_HEADER`. -/
def inHeader (f : FileInCBM) : FileInCBM := { f with state := .header }

/-- The part of `open` all file types share: the position, with its sector
    marked as visited. -/
def openBegin (g : Geometry) (f : FileInCBM) : FileInCBM :=
  ((f.openPosition g).clearVisited.visit g).file

/-- `FileInCBM::open`. -/
def openFile (g : Geometry) (junk : Indeterminate) (fuel : Nat) (flags : UInt8)
    (f : FileInCBM) : Option Reply :=
  let f := f.openBegin g
  let tp := typeCode f.dirEntry
  if tp = 4 then (f.openRel g fuel).map fun f => ⟨.ok, f⟩
  else if isGeosEntry f.dirEntry = true then
    if flags &&& 0x80 = 0 then
      (createCvtHeader g junk fuel f.inHeader).map fun f => ⟨.ok, f⟩
    else some ⟨.ok, f⟩
  else if tp = 7 ∧ flags &&& 0x0C ≠ 0 then
    -- the header block of a new CVT file is kept in memory until it is closed
    some ⟨.ok, { f with
      state := .header
      header := ⟨0, 254, Buffer.zero⟩
      cvt := some ⟨Buffer.zero, 0, [], 0⟩ }⟩
  else some ⟨.ok, f⟩

/-! ## Reading -/

/-- The answer of a function that reads. -/
structure ReadReply where
  res : FResult
  bytes : List UInt8
  file : FileInCBM

/-- `read_header`. -/
def readHeader (len : Nat) (f : FileInCBM) : ReadReply :=
  let tr := min (f.header.size - f.header.pos) len
  let pos := f.header.pos + tr
  ⟨.ok, f.header.data.slice f.header.pos tr,
    { f with
      header := { f.header with pos := pos }
      state := if pos = f.header.size then .linear else f.state }⟩

/-- `merge_cvt_sector`: the sector is not in the last record of a CVT file. -/
def mergeCvtSector (f : FileInCBM) : Bool :=
  match f.cvt with
  | none => false
  | some c => decide (c.currentSection + 1 ≠ c.records)

/-- The loop that joins VLIR records: the next section that is present, or the
    one after the last. -/
def nextSection (c : Cvt) : Nat → Nat → Nat → Nat → Nat × Nat × Nat
  | 0, cur, track, sector => (cur, track, sector)
  | left + 1, cur, track, sector =>
      if cur + 1 ≥ c.records then (cur + 1, track, sector)
      else
        let t := c.recordBlock.get (2 + 2 * (cur + 1))
        let s := c.recordBlock.get (3 + 2 * (cur + 1))
        if t = 0 then nextSection c left (cur + 1) t.toNat s.toNat
        else (cur + 1, t.toNat, s.toNat)

/-- What `read_linear` does at the end of a sector: the next one of the chain,
    the first one of the next record, or the end of the file. -/
def nextPosition (g : Geometry) (f : FileInCBM) : Reply :=
  let t := f.fs.sectBuffer.get 0
  let s := f.fs.sectBuffer.get 1
  if t ≠ 0 then
    { f with currentTrack := t.toNat, currentSector := s.toNat, offsetInSector := 2 }.visit g
  else
    match f.cvt with
    | none => ⟨.ok, { f with state := .ended }⟩
    | some c =>
        if f.mergeCvtSector = true then
          let n := nextSection c (c.records + 1) c.currentSection f.currentTrack f.currentSector
          let f' := { f with
            cvt := some { c with currentSection := n.1 }
            currentTrack := n.2.1
            currentSector := n.2.2
            offsetInSector := 2 }
          if n.2.1 = 0 then ⟨.ok, { f' with state := .ended }⟩ else f'.visit g
        else ⟨.ok, { f with state := .ended }⟩

/-- The bytes left in the sector in view, from the position on; `none` when its
    last byte code is invalid. -/
def bytesLeft (f : FileInCBM) : Option Nat :=
  if f.mergeCvtSector = true ∨ f.fs.sectBuffer.get 0 ≠ 0 then some (256 - f.offsetInSector)
  else if f.fs.sectBuffer.get 1 < 2 then none
  else some (1 + (f.fs.sectBuffer.get 1).toNat - f.offsetInSector)

/-- `offset_in_sector += tr`. -/
def advance (f : FileInCBM) (tr : Nat) : FileInCBM :=
  { f with offsetInSector := f.offsetInSector + tr }

/-- `read_linear` with the current sector in view. -/
def readInView (g : Geometry) (len : Nat) (f : FileInCBM) : ReadReply :=
  match f.bytesLeft with
  | none => ⟨.diskErr, [], f⟩
  | some left =>
      let tr := min left len
      let bytes := f.fs.sectBuffer.slice f.offsetInSector tr
      if f.offsetInSector + tr = 256 then
        let r := (f.advance tr).nextPosition g
        ⟨r.res, bytes, r.file⟩
      else ⟨.ok, bytes, f.advance tr⟩

/-- `read_linear`. -/
def readLinear (g : Geometry) (len : Nat) (f : FileInCBM) : ReadReply :=
  match f.moveTo g f.currentTrack f.currentSector with
  | ⟨.ok, f'⟩ => f'.readInView g len
  | ⟨res, f'⟩ => ⟨res, [], f'⟩

/-- One round of the loop of `read`. -/
def readStep (g : Geometry) (len : Nat) (f : FileInCBM) : ReadReply :=
  match f.state with
  | .header => f.readHeader len
  | .linear => f.readLinear g len
  | .cvt => f.readLinear g len
  | .ended => ⟨.ok, [], f⟩

/-- The loop of `read` with `len` bytes to go, for at most `rounds` rounds. -/
def readLoop (g : Geometry) : Nat → Nat → FileInCBM → Option ReadReply
  | 0, len, f => if len = 0 then some ⟨.ok, [], f⟩ else none
  | rounds + 1, len, f =>
      if len = 0 then some ⟨.ok, [], f⟩
      else
        let r := f.readStep g len
        if r.res ≠ .ok then some ⟨r.res, [], r.file⟩
        else if r.bytes = [] then some ⟨.ok, [], r.file⟩
        else
          match readLoop g rounds (len - r.bytes.length) r.file with
          | none => none
          | some rest => some ⟨rest.res, r.bytes ++ rest.bytes, rest.file⟩

/-- `FileInCBM::read`; the bytes are those `transferred` counts.  Each round but
    the last takes a byte or more, so `len` rounds are enough (`read_isSome`). -/
def read (g : Geometry) (len : Nat) (f : FileInCBM) : Option ReadReply := readLoop g len len f

/-! ## Position and size -/

/-- `fs->get_track_sector(start_cluster, ...)` into the position. -/
def atStart (g : Geometry) (f : FileInCBM) : FileInCBM :=
  match f.startCluster.bind fun a => CbmLayout.getTrackSector g a with
  | some (t, s) => { f with currentTrack := t, currentSector := s }
  | none => f

/-- The loop of `seek` over the chain, `pos` bytes from the position, for at
    most `rounds` rounds. -/
def seekLoop (g : Geometry) : Nat → Nat → FileInCBM → Option Reply
  | 0, _, _ => none
  | rounds + 1, pos, f =>
      if pos < 254 then some ⟨.ok, { f with offsetInSector := pos + 2 }⟩
      else
        match f.visit g with
        | ⟨.ok, f⟩ =>
            match f.moveTo g f.currentTrack f.currentSector with
            | ⟨.ok, f⟩ =>
                let t := f.fs.sectBuffer.get 0
                let s := f.fs.sectBuffer.get 1
                if t ≠ 0 then
                  seekLoop g rounds (pos - 254)
                    { f with currentTrack := t.toNat, currentSector := s.toNat }
                else
                  -- `s - 1` wraps for 0, and so does the sum: 1 either way
                  some ⟨.ok, { f with offsetInSector := s.toNat + 1 }⟩
            | r => some r
        | r => some r

/-- The part of `seek` behind the header. -/
def seekChain (g : Geometry) (junk : Indeterminate) (pos : Nat) (f : FileInCBM) :
    Option Reply :=
  match f.side with
  | some ss =>
      let r := ss.seek g junk pos f.currentTrack f.currentSector f.fs
      some ⟨r.1, { f with
        offsetInSector := r.2.1
        currentTrack := r.2.2.1
        currentSector := r.2.2.2 }⟩
  | none => seekLoop g (pos / 254 + 1) pos f

/-- `FileInCBM::seek`. -/
def seek (g : Geometry) (junk : Indeterminate) (pos : Nat) (f : FileInCBM) : Option Reply :=
  let f := f.syncFs g
  if f.startCluster = none ∧ pos ≤ f.header.size then
    some ⟨.ok, { f with
      header := { f.header with pos := pos }
      state := if pos < f.header.size then .header else .linear }⟩
  else
    let f := (f.atStart g).clearVisited
    match f.moveTo g f.currentTrack f.currentSector with
    | ⟨.ok, f⟩ =>
        if pos < f.header.size then
          seekChain g junk 0
            { f with state := .header, header := { f.header with pos := pos } }
        else seekChain g junk (pos - f.header.size) { f with state := .linear }
    | r => some r

/-- The loop of `get_size`, with at most `rounds` sectors to go. -/
def sizeLoop (g : Geometry) : Nat → Nat → Nat → (Nat → Bool) → Fs → Option (Int × Fs)
  | 0, _, _, _, _ => none
  | rounds + 1, ct, cs, visited, fs =>
      match absSector g ct cs with
      | none => some (0, fs)
      | some a =>
          if visited a then some (0, fs)
          else
            match fs.moveWindow g (some a) with
            | (.ok, fs') =>
                let t := fs'.sectBuffer.get 0
                let s := fs'.sectBuffer.get 1
                if t ≠ 0 then
                  (sizeLoop g rounds t.toNat s.toNat (Function.update visited a true) fs').map
                    fun r => (254 + r.1, r.2)
                else some ((s.toNat : Int) - 1, fs')
            | (_, fs') => some (0, fs')

/-- `get_size`, a `uint32_t`.  The loop never visits more sectors than the image
    has (`sizeLoop_isSome`). -/
def getSize (g : Geometry) (junk : Indeterminate) (f : FileInCBM) : Option (Nat × FileInCBM) :=
  match f.side with
  | some ss => some ((f.header.size + ss.getFileSize g junk f.fs) % 2 ^ 32, f)
  | none =>
      match f.startCluster.bind fun a => CbmLayout.getTrackSector g a with
      | none => some (0, f)
      | some (ct, cs) =>
          (sizeLoop g (g.numSectors + 1) ct cs (fun _ => false) f.fs).map fun r =>
            ((r.1 % 2 ^ 32).toNat, { f with visited := fun _ => false, fs := r.2 })

end FileInCBM

end CbmFile
