import Mathlib

/-! # The tracks of an MFM disk

    `mfmdisk.cc` keeps what a disk image holds: for each track of each side where its data
    start in the image, how much space is reserved for them, and the headers of its sectors.
    The data of the sectors follow each other, and a sector is found by adding up the sizes
    of the ones before it.

    The main result is what `GetSector` says of a track that `UpdateTrack` has accepted. -/

namespace Mfm

/-- `WD_MAX_SECTORS_PER_TRACK`. -/
abbrev maxSectors : Nat := 32

/-- `WD_MAX_TRACKS_PER_SIDE`. -/
abbrev maxTracks : Nat := 84

/-- `MfmSector`: the address mark of a sector. -/
structure MfmSector where
  track : UInt8
  side : UInt8
  sector : UInt8
  sectorSize : UInt8
  errorByte : UInt8
  deriving DecidableEq

/-- `MfmTrack`. -/
structure MfmTrack where
  numSectors : Nat
  offsetInFile : UInt32
  reservedSpace : UInt32
  actualDataSize : UInt32
  sectors : Vector MfmSector maxSectors

/-- `MfmDisk`. -/
structure MfmDisk where
  side0 : Fin maxTracks → MfmTrack
  side1 : Fin maxTracks → MfmTrack

/-- The bytes of a sector, `1 << (7 + sector_size)`. -/
def sectorBytes (s : MfmSector) : Nat := 1 <<< (7 + s.sectorSize.toNat)

/-- The sectors that a track has. -/
def MfmTrack.defined (t : MfmTrack) : List MfmSector := t.sectors.toList.take t.numSectors

/-- The bytes of all sectors of a track. -/
def MfmTrack.sectorTotal (t : MfmTrack) : Nat := (t.defined.map sectorBytes).sum

/-- The loop of `UpdateTrack` over the sectors. -/
def MfmTrack.requiredSize (t : MfmTrack) : UInt32 :=
  t.defined.foldl (fun size s => size + UInt32.ofNat (sectorBytes s)) 0

namespace MfmDisk

/-- The checks of a track and a side, and the track they are about. -/
def locate (physTrack physSide : Int) : Option (Bool × Fin maxTracks) :=
  if h : physTrack < 0 ∨ physTrack ≥ maxTracks then none
  else if physSide < 0 ∨ physSide > 1 then none
  else some (physSide ≠ 0, ⟨physTrack.toNat, by omega⟩)

def track (d : MfmDisk) (loc : Bool × Fin maxTracks) : MfmTrack :=
  if loc.1 then d.side1 loc.2 else d.side0 loc.2

def setTrack (d : MfmDisk) (loc : Bool × Fin maxTracks) (t : MfmTrack) : MfmDisk :=
  if loc.1 then { d with side1 := fun i => if i = loc.2 then t else d.side1 i }
  else { d with side0 := fun i => if i = loc.2 then t else d.side0 i }

/-- The loop of `GetSector`: the index of the sector, its position and its size. -/
def findSector (logicalSector : MfmSector) : Nat → UInt32 → List MfmSector → Option (Nat × UInt32 × UInt32)
  | _, _, [] => none
  | i, currentPos, s :: rest =>
      if s.sector = logicalSector.sector ∧ s.track = logicalSector.track then
        some (i, currentPos, if s.sectorSize < 4 then UInt32.ofNat (sectorBytes s) else 512)
      else findSector logicalSector (i + 1) (currentPos + UInt32.ofNat (sectorBytes s)) rest

/-- `GetSector`. -/
def getSector (d : MfmDisk) (physTrack physSide : Int) (logicalSector : MfmSector) :
    Option (Nat × UInt32 × UInt32) :=
  match locate physTrack physSide with
  | none => none
  | some loc => findSector logicalSector 0 (d.track loc).offsetInFile (d.track loc).defined

/-- Why `UpdateTrack` does not take a track: -1, -2, or it reads behind the table. -/
inductive Refusal where
  | range
  | space
  | table
  deriving DecidableEq

/-- The track of the disk after `UpdateTrack`; sectors that the new one does not have stay in
    the table. -/
def updated (tr newTrack : MfmTrack) : MfmTrack :=
  { tr with
    actualDataSize := newTrack.requiredSize
    numSectors := newTrack.numSectors
    sectors := Vector.ofFn fun i => if i < newTrack.numSectors then newTrack.sectors[i] else tr.sectors[i] }

/-- `UpdateTrack`: the disk, and the position that the data are written to. -/
def updateTrack (d : MfmDisk) (physTrack physSide : Int) (newTrack : MfmTrack) :
    Except Refusal (MfmDisk × UInt32) :=
  match locate physTrack physSide with
  | none => .error .range
  | some loc =>
      if newTrack.numSectors > maxSectors then .error .table
      else if newTrack.requiredSize > (d.track loc).reservedSpace then .error .space
      else .ok (d.setTrack loc (updated (d.track loc) newTrack), (d.track loc).offsetInFile)

@[simp] theorem track_setTrack (d : MfmDisk) (loc : Bool × Fin maxTracks) (t : MfmTrack) :
    (d.setTrack loc t).track loc = t := by
  obtain ⟨side, i⟩ := loc
  cases side <;> simp [track, setTrack]

@[simp] theorem defined_updated (tr newTrack : MfmTrack) :
    (updated tr newTrack).defined = newTrack.defined := by
  refine List.ext_getElem ?_ ?_
  · simp [MfmTrack.defined, updated]
  · intro i hi _
    have hnum : i < newTrack.numSectors := by
      simp only [MfmTrack.defined, updated, List.length_take] at hi
      omega
    simp [MfmTrack.defined, updated, hnum]

end MfmDisk

/-! ## Sums of sizes -/

theorem requiredSize_eq (t : MfmTrack) : t.requiredSize = UInt32.ofNat t.sectorTotal := by
  have hloop : ∀ (l : List MfmSector) (n : Nat),
      l.foldl (fun size s => size + UInt32.ofNat (sectorBytes s)) (UInt32.ofNat n) =
        UInt32.ofNat (n + (l.map sectorBytes).sum) := by
    intro l
    induction l with
    | nil => intro n; rfl
    | cons s rest ih =>
        intro n
        rw [List.foldl_cons, ← UInt32.ofNat_add, ih, List.map_cons, List.sum_cons, Nat.add_assoc]
  have hstart := hloop t.defined 0
  rwa [Nat.zero_add] at hstart

/-- A sector that is found is one of the list, and the ones before it are passed over. -/
theorem findSector_spec {logical : MfmSector} {l : List MfmSector} {i k : Nat} {pos spos size : UInt32}
    (h : MfmDisk.findSector logical i pos l = some (k, spos, size)) :
    ∃ before s after, l = before ++ s :: after ∧ k = i + before.length ∧
      spos = pos + UInt32.ofNat (before.map sectorBytes).sum ∧
      size = if s.sectorSize < 4 then UInt32.ofNat (sectorBytes s) else 512 := by
  induction l generalizing i pos with
  | nil => exact nomatch h
  | cons s rest ih =>
      rw [MfmDisk.findSector] at h
      split at h
      · cases h
        exact ⟨[], s, rest, rfl, rfl, by simp, rfl⟩
      · obtain ⟨before, s', after, rfl, rfl, rfl, rfl⟩ := ih h
        refine ⟨s :: before, s', after, rfl, ?_, ?_, rfl⟩
        · rw [List.length_cons]
          omega
        · rw [List.map_cons, List.sum_cons, UInt32.ofNat_add, UInt32.add_assoc]

/-- What `GetSector` reports of a track that `UpdateTrack` has taken: the position of a sector
    is where the sizes of those before it end, and its last byte is in the reserved space. -/
theorem getSector_updateTrack {d d' : MfmDisk} {physTrack physSide : Int} {t : MfmTrack} {pos : UInt32}
    (hupdate : d.updateTrack physTrack physSide t = .ok (d', pos)) (htotal : t.sectorTotal < UInt32.size)
    (hsizes : ∀ s ∈ t.defined, s.sectorSize < 4) {logical : MfmSector} {i : Nat} {spos size : UInt32}
    (hget : d'.getSector physTrack physSide logical = some (i, spos, size)) :
    ∃ loc before s after, MfmDisk.locate physTrack physSide = some loc ∧
      t.defined = before ++ s :: after ∧ i = before.length ∧
      (spos - pos).toNat = (before.map sectorBytes).sum ∧ size.toNat = sectorBytes s ∧
      (spos - pos).toNat + size.toNat ≤ (d.track loc).reservedSpace.toNat := by
  rw [MfmDisk.updateTrack] at hupdate
  rw [MfmDisk.getSector] at hget
  cases hlocate : MfmDisk.locate physTrack physSide with
  | none => rw [hlocate] at hget; exact nomatch hget
  | some loc =>
      simp only [hlocate] at hget hupdate
      split at hupdate
      · exact nomatch hupdate
      · split at hupdate
        · exact nomatch hupdate
        next hspace =>
          cases hupdate
          rw [MfmDisk.track_setTrack, MfmDisk.defined_updated] at hget
          obtain ⟨before, s, after, hdef, hi, hpos, hsize⟩ := findSector_spec hget
          rw [Nat.zero_add] at hi
          have hs4 : s.sectorSize < 4 := hsizes s (by rw [hdef]; simp)
          rw [if_pos hs4] at hsize
          have hsum : t.sectorTotal = (before.map sectorBytes).sum + (sectorBytes s + (after.map sectorBytes).sum) := by
            rw [MfmTrack.sectorTotal, hdef, List.map_append, List.sum_append, List.map_cons, List.sum_cons]
          have hdiff : (spos - (d.track loc).offsetInFile).toNat = (before.map sectorBytes).sum := by
            have hsub : spos - (d.track loc).offsetInFile = UInt32.ofNat (before.map sectorBytes).sum := by
              rw [hpos]
              show (d.track loc).offsetInFile + _ - _ = _
              rw [UInt32.add_comm, UInt32.add_sub_cancel]
            rw [hsub, UInt32.toNat_ofNat_of_lt' (by omega)]
          have hbytes : size.toNat = sectorBytes s := by
            rw [hsize, UInt32.toNat_ofNat_of_lt' (by omega)]
          have hroom : t.sectorTotal ≤ (d.track loc).reservedSpace.toNat := by
            have hle := UInt32.not_lt.mp hspace
            rwa [requiredSize_eq, UInt32.le_iff_toNat_le, UInt32.toNat_ofNat_of_lt' htotal] at hle
          refine ⟨loc, before, s, after, rfl, hdef, hi, hdiff, hbytes, ?_⟩
          rw [hdiff, hbytes]
          omega

end Mfm
