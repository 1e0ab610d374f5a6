import Ultimate1541.CbmLayoutProofs
import Ultimate1541.ByteBufferProofs
import Ultimate1541.FootprintProofs

/-! # The block availability map

    Every CBM format keeps one bit per sector, set when the sector is free, and
    all but DNP keep the number of free sectors of a track beside its bits.
    The bits live in buffers of the file system object: the root sector (D64,
    side 0 of D71), a second BAM sector (side 1 of D71), two BAM sectors (D81)
    or thirty-two (DNP).

    The allocation functions are memory programs (`Footprint.Prog`) over the
    bytes of these buffers: an index past a buffer is a fault, and every access
    is recorded.  `freeBit` and `freeCount` read the map back, and each
    function has one lemma that says what it does to them. -/

namespace CbmBam

open CbmLayout ByteBuffer Footprint Footprint.Prog

/-- The buffers that hold allocation data. -/
inductive Buf where
  | root
  | bam2
  | bam
  deriving DecidableEq, Repr

/-- A byte of one of the buffers. -/
structure Addr where
  buf : Buf
  idx : Nat
  deriving DecidableEq, Repr

/-- Pointer arithmetic inside a buffer. -/
def Addr.add (a : Addr) (i : Nat) : Addr := { a with idx := a.idx + i }

/-- The size each subclass allocates for a buffer. -/
def Buf.size : Kind → Buf → Nat
  | _, .root => 256
  | .d71, .bam2 => 256
  | .d81, .bam => 512
  | .dnp, .bam => 8192
  | _, _ => 0

/-- The flags beside the buffers.  `bam_dirty` is a flag in D81 and a mask of
    sectors in DNP. -/
structure Regs where
  rootDirty : Bool
  bam2Dirty : Bool
  bamDirty : Nat
  bamValid : Bool
  deriving DecidableEq, Repr

abbrev Bam : Type := Memory Addr UInt8 Regs

abbrev BamM (α : Type) : Type := Prog Addr UInt8 Regs α

/-- A byte that exists. -/
def valid (k : Kind) (a : Addr) : Bool := decide (a.idx < a.buf.size k)

/-! ## One bit -/

/-- `(*fr)++`. -/
def countUp (k : Kind) : Option Addr → BamM Unit
  | none => pure ()
  | some fr => do
      let c ← load (valid k) fr
      store (valid k) fr (c + 1)

/-- `if ((fr) && (*fr)) (*fr)--`. -/
def countDown (k : Kind) : Option Addr → BamM Unit
  | none => pure ()
  | some fr => do
      let c ← load (valid k) fr
      if c ≠ 0 then store (valid k) fr (c - 1) else pure ()

/-- `modify_allocation_bit`: free or allocate one sector of a bitmap, unless it
    is in that state already. -/
def modifyAllocationBit (k : Kind) (fr : Option Addr) (bits : Addr) (sector : Nat)
    (alloc : Bool) : BamM Bool := do
  let at' := bits.add (sector / 8)
  let b := sector % 8
  let v ← load (valid k) at'
  if alloc = false then
    if hasBit v b = true then pure false
    else do
      store (valid k) at' (v ||| bitMask b)
      countUp k fr
      pure true
  else if hasBit v b = false then pure false
  else do
    store (valid k) at' (v &&& ~~~bitMask b)
    countDown k fr
    pure true

/-! ## One track -/

/-- The loop of `allocate_sector_on_track` from sector `i` on, with `left`
    sectors to go; past the last one the count byte is corrected. -/
def scanTrack (k : Kind) (fr m : Addr) (mark : Regs → Regs) :
    Nat → Nat → BamM (Option Nat)
  | _, 0 => do
      -- the count promised a free sector, but there is none
      store (valid k) fr 0
      modifyRegs mark
      pure none
  | i, left + 1 => do
      let v ← load (valid k) (m.add (i / 8))
      if ((v >>> UInt8.ofNat (i % 8)) &&& 1 != 0) = true then do
        store (valid k) (m.add (i / 8)) (v &&& ~~~bitMask (i % 8))
        let c ← load (valid k) fr
        store (valid k) fr (c - 1)
        modifyRegs mark
        pure (some i)
      else scanTrack k fr m mark (i + 1) left

/-- The body shared by the three `allocate_sector_on_track` functions: `fr` is
    the count byte, `m` the first byte of the bits, `sectors` the loop bound.
    `none` is the answer `false`. -/
def allocateInEntry (k : Kind) (fr m : Addr) (sectors : Nat) (mark : Regs → Regs) :
    BamM (Option Nat) := do
  let c ← load (valid k) fr
  if c ≠ 0 then scanTrack k fr m mark 0 sectors else pure none

namespace FileSystemD64

/-- The count byte of a track; the bits follow it. -/
def entry (track : Nat) : Addr := ⟨.root, 4 * track⟩

def setSectorAllocation (track sector : Nat) (alloc : Bool) : BamM Bool := do
  let m := entry track
  let success ← modifyAllocationBit .d64 (some m) (m.add 1) sector alloc
  modifyRegs fun d => { d with rootDirty := d.rootDirty || success }
  pure success

def allocateSectorOnTrack (track : Nat) : BamM (Option Nat) :=
  allocateInEntry .d64 (entry track) ((entry track).add 1) 21
    fun d => { d with rootDirty := true }

end FileSystemD64

namespace FileSystemD71

/-- The count byte of a track: side 1 keeps its counts at the end of the root
    sector. -/
def count (track : Nat) : Addr :=
  if track > 35 then ⟨.root, 0xDD + (track - 36)⟩ else ⟨.root, 4 * track⟩

/-- The bits of a track: side 1 keeps them in the second BAM sector. -/
def bits (track : Nat) : Addr :=
  if track > 35 then ⟨.bam2, 3 * (track - 36)⟩ else ⟨.root, 4 * track + 1⟩

/-- The flags an allocation on a track raises. -/
def mark (track : Nat) (d : Regs) : Regs :=
  { d with rootDirty := true, bam2Dirty := d.bam2Dirty || decide (track > 35) }

def setSectorAllocation (track sector : Nat) (alloc : Bool) : BamM Bool := do
  let success ← modifyAllocationBit .d71 (some (count track)) (bits track) sector alloc
  modifyRegs fun d => if success then mark track d else d
  pure success

def allocateSectorOnTrack (track : Nat) : BamM (Option Nat) :=
  allocateInEntry .d71 (count track) (bits track) 21 (mark track)

end FileSystemD71

namespace FileSystemD81

/-- The count byte of a track, in the BAM sector of its half of the disk; the
    bits follow it.  `0x10 + 6 * (track - 1)` is written so that it also holds
    for track 0. -/
def entry (track : Nat) : Addr :=
  if track > 40 then ⟨.bam, 0x110 + 6 * (track - 41)⟩ else ⟨.bam, 0x10 + 6 * track - 6⟩

def setSectorAllocation (track sector : Nat) (alloc : Bool) : BamM Bool := do
  let fr := entry track
  let success ← modifyAllocationBit .d81 (some fr) (fr.add 1) sector alloc
  modifyRegs fun d => { d with bamDirty := d.bamDirty ||| success.toNat }
  pure success

def allocateSectorOnTrack (track : Nat) : BamM (Option Nat) :=
  allocateInEntry .d81 (entry track) ((entry track).add 1) 40
    fun d => { d with bamDirty := 1 }

end FileSystemD81

namespace FileSystemDNP

/-- The bits of a track.  Track 1 starts behind the header of 32 bytes. -/
def bits (track : Nat) : Addr := ⟨.bam, track * 32⟩

/-- The bit order of DNP is reversed, hence the exclusive or. -/
def setSectorAllocation (track sector : Nat) (alloc : Bool) : BamM Bool := do
  let success ← modifyAllocationBit .dnp none (bits track) (sector ^^^ 7) alloc
  modifyRegs fun d =>
    if success then { d with bamDirty := d.bamDirty ||| 1 <<< (track * 32 / 256) } else d
  pure success

end FileSystemDNP

/-- The virtual `set_sector_allocation`. -/
def setSectorAllocation : Kind → Nat → Nat → Bool → BamM Bool
  | .d64 => FileSystemD64.setSectorAllocation
  | .d71 => FileSystemD71.setSectorAllocation
  | .d81 => FileSystemD81.setSectorAllocation
  | .dnp => FileSystemDNP.setSectorAllocation

/-- The virtual `allocate_sector_on_track`; DNP inherits the dummy of the base
    class. -/
def allocateSectorOnTrack : Kind → Nat → BamM (Option Nat)
  | .d64 => FileSystemD64.allocateSectorOnTrack
  | .d71 => FileSystemD71.allocateSectorOnTrack
  | .d81 => FileSystemD81.allocateSectorOnTrack
  | .dnp => fun _ => pure none

/-! ## Searching the disk -/

/-- `root_track`. -/
def rootTrack : Kind → Nat
  | .d64 => 18
  | .d71 => 18
  | .d81 => 40
  | .dnp => 1

/-- A `for` loop over tracks that stops at the first successful allocation. -/
def tryTracks (k : Kind) : List Nat → BamM (Option (Nat × Nat))
  | [] => pure none
  | t :: ts => do
      match ← allocateSectorOnTrack k t with
      | some s => pure (some (t, s))
      | none => tryTracks k ts

/-- The answer of `get_next_free_sector`: its result and the two references. -/
structure NextFree where
  ok : Bool
  track : Nat
  sector : Nat
  deriving DecidableEq, Repr

/-- `for (int i = from; i >= 1; i--)`. -/
def downFrom (n : Nat) : List Nat := (List.range' 1 n).reverse

/-- `FileSystemCBM::get_next_free_sector`, used by D64 and D81. -/
def FileSystemCBM.getNextFreeSector (g : Geometry) (track sector : Nat) : BamM NextFree := do
  let root := rootTrack g.kind
  let hint := if track = 0 then root - 1 else track
  match ← allocateSectorOnTrack g.kind hint with
  | some s => pure ⟨true, hint, s⟩
  | none =>
      match ← tryTracks g.kind (downFrom (root - 1)) with
      | some (t, s) => pure ⟨true, t, s⟩
      | none =>
          match getTrackSector g (g.numSectors - 1) with
          | none => fault -- `mt` was never written
          | some (mt, _) =>
              match ← tryTracks g.kind (List.range' (root + 1) (mt - root)) with
              | some (t, s) => pure ⟨true, t, s⟩
              | none => pure ⟨false, hint, sector⟩

/-- The last loop of the D71 search, `for (int i = 35; i > root_track; i++)`.
    `fuel` counts down to the overflow of `i`. -/
def FileSystemD71.lastPass : Nat → Nat → BamM (Option (Nat × Nat))
  | 0, _ => fault
  | fuel + 1, i =>
      if i > rootTrack .d71 then do
        match ← FileSystemD71.allocateSectorOnTrack i with
        | some s => pure (some (i, s))
        | none => FileSystemD71.lastPass fuel (i + 1)
      else pure none

/-- `FileSystemD71::get_next_free_sector`. -/
def FileSystemD71.getNextFreeSector (track sector : Nat) : BamM NextFree := do
  let root := rootTrack .d71
  let hint := if track = 0 then root - 1 else track
  match ← FileSystemD71.allocateSectorOnTrack hint with
  | some s => pure ⟨true, hint, s⟩
  | none =>
      -- side 0, from the directory downwards
      match ← tryTracks .d71 (downFrom (root - 1)) with
      | some (t, s) => pure ⟨true, t, s⟩
      | none =>
          -- side 1, from 36 to 70 without 53
          match ← tryTracks .d71 (List.range' 36 17 ++ List.range' 54 17) with
          | some (t, s) => pure ⟨true, t, s⟩
          | none =>
              match ← FileSystemD71.lastPass (2 ^ 31 - 35) 35 with
              | some (t, s) => pure ⟨true, t, s⟩
              | none => pure ⟨false, hint, sector⟩

/-- The inner loop of the DNP search: the bits of one byte, from the most
    significant down. -/
def FileSystemDNP.firstBit (bb : UInt8) : Nat → Nat → Option Nat
  | _, 0 => none
  | j, left + 1 =>
      if bb &&& (128 >>> UInt8.ofNat j) ≠ 0 then some j
      else FileSystemDNP.firstBit bb (j + 1) left

/-- The outer loop of the DNP search. -/
def FileSystemDNP.scanBytes (g : Geometry) : Nat → Nat → BamM (Option Nat)
  | _, 0 => pure none
  | i, left + 1 => do
      let bb ← load (valid .dnp) ⟨.bam, 32 + i⟩
      match FileSystemDNP.firstBit bb 0 8 with
      | none => FileSystemDNP.scanBytes g (i + 1) left
      | some j => do
          store (valid .dnp) ⟨.bam, 32 + i⟩ (bb &&& ~~~(128 >>> UInt8.ofNat j))
          modifyRegs fun d => { d with bamDirty := d.bamDirty ||| 1 <<< ((i + 32) / 256) }
          pure (some (8 * i + j))

/-- `FileSystemDNP::get_next_free_sector`. -/
def FileSystemDNP.getNextFreeSector (g : Geometry) (track sector : Nat) : BamM NextFree :=
  fun m =>
    if m.regs.bamValid = false then some (⟨false, track, sector⟩, m, [])
    else (do
      match ← FileSystemDNP.scanBytes g 0 (g.numSectors / 8) with
      | none => pure ⟨false, track, sector⟩
      | some abs =>
          match getTrackSector g abs with
          | none => pure ⟨true, track, sector⟩
          | some (t, s) => pure ⟨true, t, s⟩ : BamM NextFree) m

/-- The inner loop of `allocate_sector`, from sector `s` with `left` to go:
    freeing succeeds only on an allocated block, which is allocated again. -/
def probeTrack (k : Kind) (t : Nat) : Nat → Nat → BamM (Option Nat)
  | _, 0 => pure none
  | s, left + 1 => do
      let was ← setSectorAllocation k t s false
      if was = true then do
        let _ ← setSectorAllocation k t s true
        probeTrack k t (s + 1) left
      else pure (some s)

/-- The outer loop of `allocate_sector`, over `left` tracks. -/
def probeTracks (g : Geometry) : Nat → Nat → Nat → BamM (Option (Nat × Nat))
  | _, _, 0 => pure none
  | t, s, left + 1 => do
      match ← probeTrack g.kind t s (getSectorsInTrack g.layout t - s) with
      | some s' => pure (some (t, s'))
      | none => probeTracks g (t + 1) 0 left

/-- The search of `FileSystemCBM::allocate_sector` for the next higher free
    block. -/
def FileSystemCBM.nextHigherFree (g : Geometry) (track sector : Nat) :
    BamM (Option (Nat × Nat)) :=
  probeTracks g track (sector + 1) (getNumTracks g + 1 - track)

/-- The virtual `get_next_free_sector`. -/
def getNextFreeSector (g : Geometry) : Nat → Nat → BamM NextFree :=
  match g.kind with
  | .d64 => FileSystemCBM.getNextFreeSector g
  | .d71 => FileSystemD71.getNextFreeSector
  | .d81 => FileSystemCBM.getNextFreeSector g
  | .dnp => FileSystemDNP.getNextFreeSector g

end CbmBam
