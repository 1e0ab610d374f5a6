import Ultimate1541.ByteBufferProofs

/-! # GCR images

    A GCR image is one buffer and a table of half tracks, 84 for each side.  The
    table points into the buffer: where a file was read to, or behind it, where
    blank tracks are added. -/

namespace GcrImage

open ByteBuffer

/-! ## Tracks and regions -/

/-- `GCRIMAGE_MAXUSEDTRACKS`. -/
def maxUsedTracks : Nat := 80

/-- `GCRIMAGE_MAXHDRTRACKS`. -/
def maxHdrTracks : Nat := 168

/-- `GCRIMAGE_FIRSTTRACKSIDE1`. -/
def firstTrackSide1 : Nat := 84

/-- `GCRIMAGE_MAXTRACKLEN`. -/
def maxTrackLen : Nat := 0x1EF8

/-- `GCRIMAGE_MAXMETADATA`. -/
def maxMetadata : Nat := 12 + maxHdrTracks * 10

/-- `GCRIMAGE_MAXSIZE`. -/
def maxSize : Nat := maxTrackLen * maxUsedTracks + maxMetadata

/-- `track_lengths`. -/
def trackLengths (region : Nat) : Nat :=
  [0X1E0C, 0x1BE6, 0x1A0A, 0x186A, 0X1E0C, 0x1BE6, 0x1A0A, 0x186A].getD region 0

/-- `sectors_per_track`. -/
def sectorsPerTrack (region : Nat) : Nat := [21, 19, 18, 17, 21, 19, 18, 17].getD region 0

/-- `region_end`. -/
def regionEnd (region : Nat) : Nat := [17, 24, 30, 35, 52, 59, 65, 70].getD region 0

/-- `sector_gap_lengths`. -/
def sectorGapLengths (region : Nat) : Nat := [9, 19, 13, 10, 9, 19, 13, 10].getD region 0

/-- `region_speed_codes`. -/
def regionSpeedCodes (region : Nat) : UInt32 := [3, 2, 1, 0, 3, 2, 1, 0].getD region 0

/-- The loop of `track_to_region` from region `i` on, with `n` regions to go. -/
def regionFrom (track : Nat) : Nat → Nat → Option Nat
  | 0, _ => none
  | n + 1, i => if track < regionEnd i then some i else regionFrom track n (i + 1)

/-- `track_to_region`. -/
def trackToRegion (track : Nat) (ds : Bool) : Nat :=
  let regions := if ds then 8 else 4
  (regionFrom track regions 0).getD (regions - 1)

/-! ## The image -/

/-- `GcrTrack`; the address is the offset in the buffer, or no address. -/
structure GcrTrack where
  trackAddress : Option Nat
  trackLength : Nat
  speedZone : UInt32
  trackUsed : Bool
  inImageFile : Bool
  trackIsMfm : Bool
  deriving DecidableEq, Repr

/-- A track after `memset`. -/
def GcrTrack.absent : GcrTrack := ⟨none, 0, 0, false, false, false⟩

end GcrImage

open GcrImage in
/-- `GcrImage`: the buffer, the table of half tracks and the flag for two sides. -/
structure GcrImage where
  gcrData : ByteBuffer.Buffer maxSize
  tracks : Nat → GcrTrack
  doubleSided : Bool

namespace GcrImage

open ByteBuffer

/-- `tracks[i] = t`. -/
def setTrack (img : GcrImage) (i : Nat) (t : GcrTrack) : GcrImage :=
  { img with tracks := fun j => if j = i then t else img.tracks j }

/-- `invalidate`. -/
def invalidate (img : GcrImage) : GcrImage :=
  { img with tracks := fun _ => .absent, doubleSided := false }

/-! ## Blank tracks -/

/-- A blank track `i` at `gcr`, if there is no such track yet and it fits; and
    the place for the next one. -/
def addBlankTrack (i length : Nat) (speedZone : UInt32) (img : GcrImage) (gcr : Nat) :
    GcrImage × Nat :=
  if (img.tracks i).trackAddress = none ∧ gcr + length ≤ maxSize then
    (img.setTrack i { img.tracks i with
      trackAddress := some gcr, trackLength := length, speedZone := speedZone }, gcr + length)
  else (img, gcr)

/-- A round of `add_blank_tracks`: whole track `k` of each side. -/
def addBlankSides (k : Nat) (img : GcrImage) (gcr : Nat) : GcrImage × Nat :=
  let region := trackToRegion k false
  let length := trackLengths region
  let speedZone := regionSpeedCodes region
  match addBlankTrack (2 * k) length speedZone img gcr with
  | (img, gcr) =>
      if img.doubleSided then
        addBlankTrack (2 * k + firstTrackSide1) length speedZone img gcr
      else (img, gcr)

/-- The loop of `add_blank_tracks`, for the first `n` whole tracks. -/
def addBlankLoop : Nat → GcrImage → Nat → GcrImage × Nat
  | 0, img, gcr => (img, gcr)
  | n + 1, img, gcr =>
      match addBlankLoop n img gcr with
      | (img, gcr) => addBlankSides n img gcr

/-- `add_blank_tracks` for the first `n` whole tracks. -/
def addBlankWhole (n : Nat) (img : GcrImage) (blankStart : Nat) : GcrImage :=
  let r := addBlankLoop n img blankStart
  { r.1 with gcrData := r.1.gcrData.blit blankStart (List.replicate (r.2 - blankStart) 0) }

/-- `add_blank_tracks`. -/
def addBlankTracks (img : GcrImage) (blankStart : Nat) : GcrImage :=
  addBlankWhole (maxUsedTracks / 2) img blankStart

/-- `blank`. -/
def blank (img : GcrImage) : GcrImage := img.invalidate.addBlankTracks 0

/-! ## Loading -/

/-- A 16 bit word, low byte first. -/
def word16 (b : Buffer maxSize) (o : Nat) : Nat := (b.get o).toNat + 256 * (b.get (o + 1)).toNat

/-- A 32 bit word, low byte first. -/
def word32 (b : Buffer maxSize) (o : Nat) : Nat := word16 b o + 65536 * word16 b (o + 2)

/-- `gcr_track_header_is_readable`. -/
def trackHeaderIsReadable (offset bytesRead : Nat) : Bool :=
  ¬ (offset = 0 ∨ offset > bytesRead) ∧ bytesRead - offset ≥ 2

/-- `gcr_validated_track_length`. -/
def validatedTrackLength (declared offset bytesRead maxLength : Nat) : Nat :=
  let length := declared % 0x8000
  if length = 0 ∨ length > maxLength then 0
  else if offset > bytesRead ∨ bytesRead - offset < 2 then 0
  else if length > bytesRead - offset - 2 then 0
  else length

/-- A track of the file. -/
def fromFile (offset length declared : Nat) : GcrTrack where
  trackAddress := some (offset + 2)
  trackLength := length
  speedZone := 0
  trackUsed := true
  inImageFile := true
  trackIsMfm := 0x8000 ≤ declared

/-- Takes track `i` from the file, if it was delivered whole. -/
def takeTrack (img : GcrImage) (bytesRead i offset w : Nat) : GcrImage :=
  let length := validatedTrackLength w offset bytesRead maxTrackLen
  if length = 0 then img
  else
    { img.setTrack i (fromFile offset length w) with
      doubleSided := img.doubleSided || firstTrackSide1 ≤ i }

/-- A round of the loop of `load`; `none` ends it. -/
def loadTrack (bytesRead i : Nat) (img : GcrImage) : Option GcrImage :=
  let offset := word32 img.gcrData (4 * (i + 3))
  if offset ≥ maxSize then none
  else if ¬ trackHeaderIsReadable offset bytesRead then some img
  else some (img.takeTrack bytesRead i offset (word16 img.gcrData offset))

/-- The loop of `load` for the first `n` tracks, and whether it came to its end. -/
def loadTracks (bytesRead : Nat) : Nat → GcrImage → Bool × GcrImage
  | 0, img => (true, img)
  | n + 1, img =>
      match loadTracks bytesRead n img with
      | (false, img) => (false, img)
      | (true, img) =>
          match loadTrack bytesRead n img with
          | none => (false, img)
          | some img => (true, img)

/-- The loop of `load` over the speed zones. -/
def loadSpeeds (maxTracks : Nat) (img : GcrImage) : GcrImage :=
  let reportedTracks := (img.gcrData.get 9).toNat
  { img with tracks := fun i =>
      if i < maxTracks then
        { img.tracks i with
          speedZone := UInt32.ofNat (word32 img.gcrData (4 * (3 + reportedTracks + i))) }
      else img.tracks i }

/-- The characters of a signature. -/
def bytesOf (s : String) : List UInt8 := s.toList.map fun c => UInt8.ofNat c.toNat

/-- The tracks of a file with this signature. -/
def signatureTracks (b : Buffer maxSize) : Option Nat :=
  if b.slice 0 8 = bytesOf "GCR-1541" then some 84
  else if b.slice 0 8 = bytesOf "GCR-1571" then some 168
  else none

/-- The image after the file was read into the buffer. -/
def readInto (img : GcrImage) (bytes : List UInt8) : GcrImage :=
  { img.invalidate with gcrData := img.gcrData.blit 0 bytes }

/-- `load`, from a file that cannot be read or from its bytes. -/
def load (img : GcrImage) (file : Option (List UInt8)) : Bool × GcrImage :=
  match file with
  | none => (false, img.invalidate)
  | some file =>
      let bytes := file.take maxSize
      let img := img.readInto bytes
      match signatureTracks img.gcrData with
      | none => (false, img)
      | some maxTracks =>
          match loadTracks bytes.length maxTracks img with
          | (false, img) => (false, img)
          | (true, img) => (true, (img.loadSpeeds maxTracks).addBlankTracks bytes.length)

/-! ## Saving -/

/-- The tracks that are written: used ones with an address. -/
def GcrTrack.saved (t : GcrTrack) : Bool := t.trackAddress.isSome && t.trackUsed

/-- `max_tracks`. -/
def maxTracks (img : GcrImage) : Nat := if img.doubleSided then maxHdrTracks else firstTrackSide1

/-- A 32 bit word in the file. -/
def le32 (n : Nat) : List UInt8 :=
  [UInt8.ofNat n, UInt8.ofNat (n / 256), UInt8.ofNat (n / 65536), UInt8.ofNat (n / 16777216)]

/-- `track_start` when the loop comes to track `i`. -/
def trackStart (img : GcrImage) : Nat → Nat
  | 0 => 12 + img.maxTracks * 8
  | i + 1 => trackStart img i + if (img.tracks i).saved then (img.tracks i).trackLength + 2 else 0

/-- The first twelve bytes. -/
def saveSignature (img : GcrImage) : List UInt8 :=
  bytesOf (if img.doubleSided then "GCR-1571" else "GCR-1541") ++
    [0, UInt8.ofNat img.maxTracks, UInt8.ofNat maxTrackLen, UInt8.ofNat (maxTrackLen / 256)]

/-- A track's offset in the header. -/
def saveOffset (img : GcrImage) (i : Nat) : List UInt8 :=
  le32 (if (img.tracks i).saved then img.trackStart i else 0)

/-- A track's speed zone in the header. -/
def saveSpeed (img : GcrImage) (i : Nat) : List UInt8 :=
  le32 (if (img.tracks i).saved then (img.tracks i).speedZone.toNat else 0)

/-- The bytes of a track, from its address on. -/
def trackBytes (img : GcrImage) (i : Nat) : List UInt8 :=
  img.gcrData.slice ((img.tracks i).trackAddress.getD 0) (img.tracks i).trackLength

/-- A track's length word and its bytes. -/
def saveTrack (img : GcrImage) (i : Nat) : List UInt8 :=
  if (img.tracks i).saved then
    let length := (img.tracks i).trackLength
    let high := UInt8.ofNat (length / 256)
    UInt8.ofNat length :: (if (img.tracks i).trackIsMfm then high ||| 0x80 else high) ::
      img.trackBytes i
  else []

/-- `save` without alignment: the bytes of the file. -/
def save (img : GcrImage) : List UInt8 :=
  img.saveSignature ++ (List.range img.maxTracks).flatMap img.saveOffset ++
    (List.range img.maxTracks).flatMap img.saveSpeed ++
    (List.range img.maxTracks).flatMap img.saveTrack

/-- `track_got_written_with_gcr`. -/
def trackGotWrittenWithGcr (img : GcrImage) (track : Nat) : GcrImage :=
  if (img.tracks track).trackAddress = none then img
  else
    let whole := if track < firstTrackSide1 then track / 2 else (track - firstTrackSide1) / 2
    { img.setTrack track { img.tracks track with
        speedZone := regionSpeedCodes (trackToRegion whole false)
        trackUsed := true
        trackIsMfm := false } with
      doubleSided := img.doubleSided || firstTrackSide1 ≤ track }

end GcrImage
