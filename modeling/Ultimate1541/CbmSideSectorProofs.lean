import Ultimate1541.CbmDiskProofs

/-! # Side sectors

    A REL file keeps the addresses of its data blocks in side sectors: up to
    six of them form a cluster of 720 references, and on images with more than
    720 sectors a super side block refers to the clusters.  The side sectors of
    an open file live in memory; `load` fills them from the image and `write`
    puts them back, both past the sector window. -/

namespace CbmFile

open CbmLayout CbmBam CbmDisk ByteBuffer

/-- What the locals and heap fields hold that the code reads before it has
    written them. -/
structure Indeterminate where
  tr : Int
  sec : Int
  bytesInLast : Nat

/-- `(uint8_t) n`. -/
def byte (n : Int) : UInt8 := UInt8.ofNat (n % 256).toNat

/-- `prt->read` of the sector at a track and sector, past the window. -/
def prtReadAt (g : Geometry) (fs : Fs) (track sector : Int) : Option Block :=
  let a := getAbsSector g track sector
  if a < 0 then none else fs.prtRead g a.toNat

/-- `CachedBlock`; its `dirty` flag is never used. -/
structure CachedBlock where
  track : UInt8
  sector : UInt8
  data : Block

/-- `SideSectorCluster`.  The array of six pointers is filled from the front,
    so it is the list of the blocks it points to. -/
structure SideSectorCluster where
  datablocks : Nat
  recordSize : UInt8
  blocks : List CachedBlock

namespace SideSectorCluster

/-- The constructor. -/
def new (recordSize : UInt8) : SideSectorCluster := ⟨0, recordSize, []⟩

/-- The block `addDataBlock` allocates for side sector `index`. -/
def newBlock (index : Nat) (recordSize : UInt8) (track sector : Nat) : CachedBlock where
  track := UInt8.ofNat track
  sector := UInt8.ofNat sector
  data := ((Buffer.zero.set 2 (UInt8.ofNat index)).set 3 recordSize)

/-- The first half of `addDataBlock`: the side sector for the next reference,
    allocated if there is none yet. -/
def ensureBlock (g : Geometry) (c : SideSectorCluster) (fs : Fs) :
    Option (Bool × SideSectorCluster × Fs) :=
  let index := c.datablocks / 120
  if index < c.blocks.length then some (true, c, fs)
  else
    match fs.getNextFreeSector g 0 0 with
    | none => none
    | some (r, fs') =>
        if r.ok = true then
          some (true, { c with
            blocks := c.blocks ++ [newBlock index c.recordSize r.track r.sector] }, fs')
        else some (false, c, fs')

/-- Reference number `offset` of a side sector. -/
def setReference (offset track sector : Nat) (b : CachedBlock) : CachedBlock :=
  let data := b.data.set (16 + 2 * offset) (UInt8.ofNat track)
  { b with data := data.set (17 + 2 * offset) (UInt8.ofNat sector) }

/-- The second half of `addDataBlock`: store the reference. -/
def storeReference (c : SideSectorCluster) (track sector : Nat) : SideSectorCluster :=
  let index := c.datablocks / 120
  let offset := c.datablocks - index * 120
  { c with
    datablocks := c.datablocks + 1
    blocks := c.blocks.modify index (setReference offset track sector) }

/-- `SideSectorCluster::addDataBlock`. -/
def addDataBlock (g : Geometry) (c : SideSectorCluster) (track sector : Nat) (fs : Fs) :
    Option (Bool × SideSectorCluster × Fs) :=
  if c.datablocks = 720 then some (false, c, fs)
  else
    match c.ensureBlock g fs with
    | none => none
    | some (false, c', fs') => some (false, c', fs')
    | some (true, c', fs') => some (true, c'.storeReference track sector, fs')

/-- `SideSectorCluster::get_track_sector`. -/
def getTrackSector (c : SideSectorCluster) : UInt8 × UInt8 :=
  match c.blocks with
  | [] => (0, 0)
  | b :: _ => (b.track, b.sector)

/-- `SideSectorCluster::seek`: the result and the two references. -/
def seek (c : SideSectorCluster) (sect : Nat) (track sector : Int) : FResult × Int × Int :=
  if sect ≥ c.datablocks then (.invalidParameter, track, sector)
  else
    match c.blocks[sect / 120]? with
    | none => (.intErr, track, sector)
    | some b =>
        let i := 2 * (sect - sect / 120 * 120) + 16
        let t := b.data.get i
        let s := b.data.get (i + 1)
        (if t = 0 then .intErr else .ok, t.toNat, s.toNat)

/-- `SideSectorCluster::get_file_size`, before it is cut to 32 bits. -/
def getFileSize (g : Geometry) (junk : Indeterminate) (c : SideSectorCluster) (fs : Fs) : Int :=
  if c.datablocks = 720 then 720 * 254
  else
    let size : Int := 254 * ((c.datablocks : Int) - 1)
    -- without data blocks `seek` gets an index past the end and leaves both locals alone
    let ts := if c.datablocks = 0 then (junk.tr, junk.sec)
      else (c.seek (c.datablocks - 1) junk.tr junk.sec).2
    match prtReadAt g fs ts.1 ts.2 with
    | none => size
    | some b => size + (b.get 1).toNat - 1

/-- The track and sector of every block, as the side sectors repeat them. -/
def localReferences (c : SideSectorCluster) : List UInt8 :=
  (c.blocks.flatMap fun b => [b.track, b.sector]) ++ List.replicate (12 - 2 * c.blocks.length) 0

/-- What `validate` writes into side sector `i`. -/
def validateBlock (refs : List UInt8) (recordSize : UInt8) (datablocks : Nat)
    (next : Option CachedBlock) (i : Nat) (b : CachedBlock) : CachedBlock :=
  let remaining : Int := (datablocks : Int) - 120 * i
  let d := (((b.data.blit 4 refs).set 2 (UInt8.ofNat i)).set 3 recordSize).set 1
    (byte (remaining * 2 + 15))
  { b with data := match next with
    | none => d
    | some n => (d.set 0 n.track).set 1 n.sector }

/-- `SideSectorCluster::validate`. -/
def validate (c : SideSectorCluster) (recSize : UInt8) : SideSectorCluster :=
  let recordSize := if recSize = 0 then c.recordSize else recSize
  let refs := c.localReferences
  { c with
    recordSize := recordSize
    blocks := c.blocks.mapIdx fun i b =>
      validateBlock refs recordSize c.datablocks (c.blocks[i + 1]?) i b }

/-- The loop of `SideSectorCluster::load` with `left` side sectors to go, on a
    cluster that was just made. -/
def loadLoop (g : Geometry) (fs : Fs) : Nat → SideSectorCluster → UInt8 → UInt8 →
    FResult × SideSectorCluster × UInt8 × UInt8
  | 0, c, track, sector => (.ok, c, track, sector)
  | left + 1, c, track, sector =>
      if track = 0 then (.ok, c, track, sector)
      else
        match prtReadAt g fs track.toNat sector.toNat with
        | none => (.diskErr,
            { c with blocks := c.blocks ++ [⟨track, sector, Buffer.zero⟩] }, track, sector)
        | some b =>
            let track' := b.get 0
            let sector' := b.get 1
            -- a side sector with a successor is full
            let references := if track' ≠ 0 then 120
              else if sector' > 16 then sector'.toNat / 2 - 7 else 0
            loadLoop g fs left
              { datablocks := c.datablocks + references
                recordSize := b.get 3
                blocks := c.blocks ++ [⟨track, sector, b⟩] } track' sector'

/-- `SideSectorCluster::load`. -/
def load (g : Geometry) (c : SideSectorCluster) (track sector : UInt8) (fs : Fs) :
    FResult × SideSectorCluster × UInt8 × UInt8 :=
  loadLoop g fs 6 c track sector

end SideSectorCluster

/-- `prt->write` of cached blocks; the first one that fails ends the loop. -/
def writeBlocks (g : Geometry) : List CachedBlock → Fs → FResult × Fs
  | [], fs => (.ok, fs)
  | b :: bs, fs =>
      match fs.prtWrite g b.data (absSector g b.track.toNat b.sector.toNat) with
      | none => (.diskErr, fs)
      | some fs' => writeBlocks g bs fs'

/-- `SideSectors`. -/
structure SideSectors where
  datablocks : Nat
  recordSize : UInt8
  doSuper : Bool
  super : Option CachedBlock
  clusters : List SideSectorCluster

namespace SideSectors

/-- The constructor. -/
def new (g : Geometry) (recordSize : UInt8) : SideSectors where
  datablocks := 0
  recordSize := recordSize
  doSuper := decide (g.numSectors > 720)
  super := none
  clusters := []

/-- A new super side block, with its marker. -/
def newSuper (track sector : Nat) : CachedBlock where
  track := UInt8.ofNat track
  sector := UInt8.ofNat sector
  data := Buffer.zero.set 2 0xFE

/-- The super side block, allocated if it is required and there is none yet. -/
def ensureSuper (g : Geometry) (ss : SideSectors) (fs : Fs) :
    Option (Bool × SideSectors × Fs) :=
  if ss.doSuper = true ∧ ss.super.isNone = true then
    match fs.getNextFreeSector g 0 0 with
    | none => none
    | some (r, fs') =>
        if r.ok = true then
          some (true, { ss with super := some (newSuper r.track r.sector) }, fs')
        else some (false, ss, fs')
  else some (true, ss, fs)

/-- The cluster for the next reference, appended if there is none yet. -/
def ensureCluster (ss : SideSectors) : SideSectors :=
  if ss.datablocks / 720 < ss.clusters.length then ss
  else { ss with clusters := ss.clusters ++ [SideSectorCluster.new ss.recordSize] }

/-- The last part of `addDataBlock`: hand the reference to its cluster. -/
def addToCluster (g : Geometry) (ss : SideSectors) (track sector : Nat) (fs : Fs) :
    Option (Bool × SideSectors × Fs) :=
  let index := ss.datablocks / 720
  match ss.clusters[index]? with
  | none => none -- a null pointer
  | some c =>
      match c.addDataBlock g track sector fs with
      | none => none
      | some (ok, c', fs') =>
          some (ok, { ss with
            datablocks := if ok then ss.datablocks + 1 else ss.datablocks
            clusters := ss.clusters.set index c' }, fs')

/-- `SideSectors::addDataBlock`. -/
def addDataBlock (g : Geometry) (ss : SideSectors) (track sector : Nat) (fs : Fs) :
    Option (Bool × SideSectors × Fs) :=
  match ss.ensureSuper g fs with
  | none => none
  | some (false, ss', fs') => some (false, ss', fs')
  | some (true, ss', fs') => ss'.ensureCluster.addToCluster g track sector fs'

/-- `SideSectors::get_track_sector`. -/
def getTrackSector (ss : SideSectors) : UInt8 × UInt8 :=
  match ss.super with
  | some b => (b.track, b.sector)
  | none =>
      match ss.clusters with
      | [] => (0, 0)
      | c :: _ => c.getTrackSector

/-- Link the last side sector of a cluster to the next cluster. -/
def linkLast (target : UInt8 × UInt8) (c : SideSectorCluster) : SideSectorCluster :=
  { c with blocks := c.blocks.modify (c.blocks.length - 1) fun b =>
      { b with data := (b.data.set 0 target.1).set 1 target.2 } }

/-- The loop of `SideSectors::validate` over the clusters: each one is
    validated and its last block linked to the cluster after it. -/
def validateClusters (recSize : UInt8) : List SideSectorCluster → List SideSectorCluster
  | [] => []
  | c :: cs =>
      (match cs with
        | [] => c.validate recSize
        | d :: _ => linkLast d.getTrackSector (c.validate recSize)) ::
      validateClusters recSize cs

/-- The super side block with the references to the clusters, from number `i`
    on. -/
def superReferences : Nat → List SideSectorCluster → Block → Block
  | _, [], b => b
  | i, c :: cs, b =>
      superReferences (i + 1) cs
        ((b.set (3 + 2 * i) c.getTrackSector.1).set (4 + 2 * i) c.getTrackSector.2)

/-- `SideSectors::validate`. -/
def validate (ss : SideSectors) (recSize : UInt8) : SideSectors :=
  match ss.super with
  | some b =>
      let b' := match ss.clusters with
        | [] => b.data
        | c :: _ => (b.data.set 0 c.getTrackSector.1).set 1 c.getTrackSector.2
      { ss with
        super := some { b with data := superReferences 0 ss.clusters b' }
        clusters := validateClusters recSize ss.clusters }
  | none =>
      match ss.clusters with
      | [] => ss
      | c :: cs => { ss with clusters := c.validate recSize :: cs }

/-- `SideSectors::get_file_size`, a `uint32_t`. -/
def getFileSize (g : Geometry) (junk : Indeterminate) (ss : SideSectors) (fs : Fs) : Nat :=
  ((ss.clusters.map fun c => SideSectorCluster.getFileSize g junk c fs).sum % 2 ^ 32).toNat

/-- Every block held in memory. -/
def allBlocks (ss : SideSectors) : List CachedBlock :=
  ss.super.toList ++ ss.clusters.flatMap fun c => c.blocks

/-- `SideSectors::write`. -/
def write (g : Geometry) (ss : SideSectors) (fs : Fs) : FResult × Fs :=
  writeBlocks g ss.allBlocks fs

/-- The loop of `SideSectors::load`; the source puts no bound on it. -/
def loadLoop (g : Geometry) (fs : Fs) : Nat → SideSectors → UInt8 → UInt8 →
    Option (FResult × SideSectors)
  | 0, _, _, _ => none
  | fuel + 1, ss, track, sector =>
      if track = 0 then some (.ok, ss)
      else
        match (SideSectorCluster.new 0).load g track sector fs with
        | (.ok, c, track', sector') =>
            loadLoop g fs fuel { ss with
              datablocks := ss.datablocks + c.datablocks
              clusters := ss.clusters ++ [c] } track' sector'
        | (res, c, _, _) => some (res, { ss with clusters := ss.clusters ++ [c] })

/-- `SideSectors::load`. -/
def load (g : Geometry) (fuel : Nat) (ss : SideSectors) (track sector : UInt8) (fs : Fs) :
    Option (FResult × SideSectors × Fs) :=
  match fs.moveWindow g (absSector g track.toNat sector.toNat) with
  | (.ok, fs') =>
      let b := fs'.sectBuffer
      let isSuper := b.get 2 = 0xFE
      let ss' := if isSuper then
          { ss with super := some ⟨track, sector, b⟩, doSuper := true, datablocks := 0 }
        else { ss with datablocks := 0 }
      let t := if isSuper then b.get 0 else track
      let s := if isSuper then b.get 1 else sector
      (loadLoop g fs' fuel ss' t s).map fun r => (r.1, r.2, fs')
  | (res, fs') => some (res, ss, fs')

/-- `SideSectors::seek`: the result, the offset and the two references. -/
def seek (g : Geometry) (junk : Indeterminate) (ss : SideSectors) (pos : Nat)
    (track sector : Nat) (fs : Fs) : FResult × Nat × Nat × Nat :=
  let sect := pos / 254
  let offset := 2 + (pos - sect * 254)
  -- at the end of a full last sector the position stays in that sector
  let atEnd := sect > 0 ∧ sect = ss.datablocks ∧ offset = 2 ∧ pos = ss.getFileSize g junk fs
  let sect' := if atEnd then sect - 1 else sect
  let offset' := if atEnd then 256 else offset
  match ss.clusters[sect' / 720]? with
  | none => (.invalidParameter, offset', track, sector)
  | some c =>
      let r := c.seek (sect' - sect' / 720 * 720) track sector
      (r.1, offset', r.2.1.toNat, r.2.2.toNat)

end SideSectors

end CbmFile
