import Ultimate1541.GcrDecodeProofs

/-! # Binary images

    A binary image is a block of memory with the data of the tracks one after the
    other, and a table of error bytes for the sectors, if there is one, behind
    them.  Tracks count from zero; the second side starts at track 35. -/

/-- `BinImage`: memory from `bin_data` on, and where the tracks and the error bytes
    are in it. -/
structure BinImage where
  binData : Nat → UInt8
  trackStart : Nat → Option Nat
  trackSectors : Nat → Nat
  errors : Option Nat
  errorSize : Nat
  doubleSided : Bool
  numTracks : Nat

namespace BinImage

open GcrImage GcrDecode

/-! ## Tracks -/

/-- `BINIMAGE_MAXTRACKS`. -/
def maxTracks : Nat := 80

/-- `C1541_MAX_D64_35_NO_ERRORS`. -/
def maxD64 : Nat := 174848

/-- `C1541_MIN_D71_SIZE`. -/
def minD71 : Nat := 2 * maxD64

/-- The sectors of a track. -/
def sectorsOf (track : Nat) (ds : Bool) : Nat := sectorsPerTrack (trackToRegion track ds)

/-- `total_sectors_before_track`. -/
def totalSectorsBeforeTrack : Nat → Bool → Nat
  | 0, _ => 0
  | track + 1, ds => totalSectorsBeforeTrack track ds + sectorsOf track ds

/-- `gcr_track_to_bin_track`. -/
def gcrTrackToBinTrack (pt : Nat) : Nat :=
  if firstTrackSide1 ≤ pt then 35 + (pt - firstTrackSide1) / 2 else pt / 2

/-! ## Making and loading an image -/

/-- The constructor, for memory with anything in it. -/
def create (binData : Nat → UInt8) (tracks : Nat) : BinImage where
  binData := binData
  trackStart i :=
    if i < tracks then some (256 * totalSectorsBeforeTrack i (42 < tracks)) else none
  trackSectors i := if i < tracks then sectorsOf i (42 < tracks) else 0
  errors := some (256 * totalSectorsBeforeTrack tracks (42 < tracks))
  errorSize := if tracks = 0 then 0 else sectorsOf (tracks - 1) (42 < tracks)
  doubleSided := 42 < tracks
  numTracks := tracks

/-- The loop of `init` over the tracks behind track 35: the number of tracks and
    what is left of the size. -/
def extraTracks : Nat → Nat → Nat → Nat × Nat
  | 0, numTracks, size => (numTracks, size)
  | n + 1, numTracks, size =>
      if 17 * 256 ≤ size then extraTracks n (numTracks + 1) (size - 17 * 256)
      else (numTracks, size)

/-- The end of `init`: the tracks and the error bytes behind them. -/
def layOut (img : BinImage) (ds : Bool) (numTracks errors errorSize : Nat) : BinImage :=
  { img with
    doubleSided := ds
    numTracks := numTracks
    errors := if errorSize = 0 then none else some errors
    errorSize := errorSize
    trackStart := fun i =>
      if i < numTracks then some (256 * totalSectorsBeforeTrack i ds) else img.trackStart i
    trackSectors := fun i => if i < numTracks then sectorsOf i ds else img.trackSectors i }

/-- `init`. -/
def init (img : BinImage) (size : Nat) : Int × BinImage :=
  if size < maxD64 then (-3, img)
  else if minD71 ≤ size then (0, img.layOut true 70 minD71 (size - minD71))
  else
    let r := extraTracks (maxTracks - 35) 35 (size - maxD64)
    (0, img.layOut false r.1 (maxD64 + 17 * 256 * (r.1 - 35)) r.2)

/-! ## Saving -/

/-- The data of a track. -/
def trackData (img : BinImage) (tr : Nat) : List UInt8 :=
  match img.trackStart tr with
  | none => []
  | some bin => (List.range (256 * img.trackSectors tr)).map fun i => img.binData (bin + i)

/-- The sectors of the first `n` tracks. -/
def sectorsSaved (img : BinImage) : Nat → Nat
  | 0 => 0
  | n + 1 => sectorsSaved img n + img.trackSectors n

/-- The error bytes, if they are written: all of them are there and one is not zero. -/
def savedErrors (img : BinImage) : List UInt8 :=
  let secs := img.sectorsSaved img.numTracks
  match img.errors with
  | none => []
  | some errors =>
      let bytes := (List.range secs).map fun i => img.binData (errors + i)
      if secs ≤ img.errorSize ∧ bytes.any (· ≠ 0) then bytes else []

/-- `save`: the bytes of the file. -/
def save (img : BinImage) : List UInt8 :=
  (List.range img.numTracks).flatMap img.trackData ++ img.savedErrors

/-! ## Writing a track -/

/-- What `write_track` asks of the decoder. -/
def request (img : BinImage) (lt bin : Nat) : Request := ⟨lt + 1, img.trackSectors lt, bin⟩

/-- A status pair stored in the error bytes. -/
def recordError (img : BinImage) (errorOffset : Nat) (sector result : UInt8)
    (mem : Nat → UInt8) : Nat → UInt8 :=
  match img.errors with
  | none => mem
  | some errors =>
      if errorOffset + sector.toNat < img.errorSize then
        Function.update mem (errors + errorOffset + sector.toNat) result
      else mem

/-- The loop over the first `n` status pairs. -/
def recordErrors (img : BinImage) (errorOffset : Nat) (status : List UInt8) :
    Nat → (Nat → UInt8) → Nat → UInt8
  | 0, mem => mem
  | n + 1, mem =>
      recordError img errorOffset (status.getD (2 * n) 0) (status.getD (2 * n + 1) 0)
        (recordErrors img errorOffset status n mem)

/-- What `write_track` answers, the image after it, and its two counts. -/
structure Written where
  result : Int
  img : BinImage
  errorcount : Nat
  secs : Nat

/-- `write_track` after the track was decoded; `file` is what writing the file
    answers, if there is one. -/
def finishTrack (img : BinImage) (lt : Nat) (s : Scan) (file : Option Int) (errorcount : Nat) :
    Written where
  result := if s.secs ≠ img.trackSectors lt then -12 else file.getD 0
  img := { img with
    binData := recordErrors img (totalSectorsBeforeTrack lt img.doubleSided) s.status s.secs s.mem }
  errorcount := errorcount
    + ((List.range s.secs).filter fun i => s.status.getD (2 * i + 1) 0 ≠ 0).length
  secs := s.secs

/-- `write_track`, with a bound on the rounds of the decoder. -/
def writeTrack (d : Decoder) (fuel : Nat) (img : BinImage) (physTrack : Nat)
    (track : Option Track) (file : Option Int) (errorcount : Nat) : Option Written :=
  let lt := gcrTrackToBinTrack physTrack
  match img.trackStart lt with
  | none => some ⟨-10, img, errorcount, 0⟩
  | some bin =>
      match track with
      | none => some ⟨-11, img, errorcount, 0⟩
      | some t =>
          (Loop.run (step d t (img.request lt bin)) fuel (Scan.start img.binData 64)).map
            fun s => img.finishTrack lt s file errorcount

/-! ## Where things are -/

theorem total_mono {m n : Nat} (h : m ≤ n) (ds : Bool) :
    totalSectorsBeforeTrack m ds ≤ totalSectorsBeforeTrack n ds := by
  induction h with
  | refl => exact Nat.le_refl _
  | step _ ih => exact ih.trans (Nat.le_add_right _ _)

/-- Every track from 30 on has 17 sectors. -/
theorem sectorsOf_late {lt : Nat} (h : 30 ≤ lt) : sectorsOf lt false = 17 := by
  have hregion : trackToRegion lt false = 3 := by
    rw [trackToRegion]
    simp only [regionFrom, regionEnd, Bool.false_eq_true, if_false]
    by_cases h35 : lt < 35
    · simp [show ¬ lt < 17 by omega, show ¬ lt < 24 by omega, show ¬ lt < 30 by omega, h35]
    · simp [show ¬ lt < 17 by omega, show ¬ lt < 24 by omega, show ¬ lt < 30 by omega, h35]
  rw [sectorsOf, hregion]
  rfl

theorem total_late (k : Nat) : totalSectorsBeforeTrack (35 + k) false = 683 + 17 * k := by
  induction k with
  | zero => decide
  | succ k ih =>
      rw [← Nat.add_assoc, totalSectorsBeforeTrack, ih, sectorsOf_late (by omega)]
      omega

/-- What the loop of `init` leaves. -/
theorem extraTracks_spec (n numTracks size : Nat) :
    ∃ m, m ≤ n ∧ extraTracks n numTracks size = (numTracks + m, size - 17 * 256 * m) ∧
      17 * 256 * m ≤ size ∧ (m = n ∨ size < 17 * 256 * (m + 1)) := by
  induction n generalizing numTracks size with
  | zero => exact ⟨0, Nat.le_refl 0, rfl, Nat.zero_le _, Or.inl rfl⟩
  | succ n ih =>
      rw [extraTracks]
      by_cases h : 17 * 256 ≤ size
      · rw [if_pos h]
        obtain ⟨m, hm, heq, hle, hmax⟩ := ih (numTracks + 1) (size - 17 * 256)
        refine ⟨m + 1, by omega, ?_, by omega, by omega⟩
        rw [heq, Nat.add_right_comm, Nat.add_assoc, Nat.sub_sub]
        congr 2
        omega
      · rw [if_neg h]
        exact ⟨0, Nat.zero_le _, rfl, Nat.zero_le _, Or.inr (by omega)⟩

/-- The tracks are one after the other, and the error bytes behind them. -/
structure Laid (img : BinImage) : Prop where
  start : ∀ lt < img.numTracks,
    img.trackStart lt = some (256 * totalSectorsBeforeTrack lt img.doubleSided)
  sectors : ∀ lt < img.numTracks, img.trackSectors lt = sectorsOf lt img.doubleSided
  errors : ∀ e, img.errors = some e →
    e = 256 * totalSectorsBeforeTrack img.numTracks img.doubleSided

theorem create_laid (mem : Nat → UInt8) (tracks : Nat) : (create mem tracks).Laid where
  start _ h := if_pos h
  sectors _ h := if_pos h
  errors _ h := (Option.some.inj h).symm

theorem layOut_laid (img : BinImage) {ds : Bool} {n errors errorSize : Nat}
    (h : errors = 256 * totalSectorsBeforeTrack n ds) : (img.layOut ds n errors errorSize).Laid where
  start _ hlt := if_pos hlt
  sectors _ hlt := if_pos hlt
  errors e he := by
    have hsome : (if errorSize = 0 then none else some errors) = some e := he
    split at hsome
    · exact nomatch hsome
    · exact (Option.some.inj hsome).symm.trans h

/-- A load that succeeds lays the tracks out. -/
theorem init_laid {img : BinImage} {size : Nat} (h : (img.init size).1 = 0) :
    (img.init size).2.Laid := by
  rw [init] at h ⊢
  split at h
  · exact absurd h (show ¬ (-3 : Int) = 0 by decide)
  · rename_i hsize
    rw [if_neg hsize]
    split
    · exact img.layOut_laid (by decide)
    · obtain ⟨m, _, heq, _, _⟩ := extraTracks_spec (maxTracks - 35) 35 (size - maxD64)
      rw [heq]
      refine img.layOut_laid ?_
      rw [total_late, maxD64]
      omega

/-- The sectors of a track end where those of the next one start. -/
theorem Laid.end_le {img : BinImage} (h : img.Laid) {lt n : Nat} (hn : lt < n)
    (hlt : lt < img.numTracks) :
    256 * totalSectorsBeforeTrack lt img.doubleSided + 256 * img.trackSectors lt
      ≤ 256 * totalSectorsBeforeTrack n img.doubleSided := by
  rw [h.sectors lt hlt, ← Nat.mul_add]
  exact Nat.mul_le_mul_left 256 (total_mono (show lt + 1 ≤ n from hn) img.doubleSided)

/-! ## What is loaded is saved -/

/-- The first tracks are saved as they are in the memory. -/
theorem Laid.flatMap_trackData {img : BinImage} (h : img.Laid) {n : Nat} :
    n ≤ img.numTracks → (List.range n).flatMap img.trackData =
      (List.range (256 * totalSectorsBeforeTrack n img.doubleSided)).map img.binData := by
  induction n with
  | zero => exact fun _ => rfl
  | succ n ih =>
      intro hn
      have htrack : img.trackData n =
          (List.range (256 * sectorsOf n img.doubleSided)).map fun i =>
            img.binData (256 * totalSectorsBeforeTrack n img.doubleSided + i) := by
        rw [trackData, h.start n hn, h.sectors n hn]
      rw [List.range_succ, List.flatMap_append, ih (Nat.le_of_succ_le hn), List.flatMap_singleton,
        htrack, totalSectorsBeforeTrack, Nat.mul_add, List.range_add, List.map_append, List.map_map]
      rfl

theorem Laid.sectorsSaved {img : BinImage} (h : img.Laid) {n : Nat} :
    n ≤ img.numTracks → img.sectorsSaved n = totalSectorsBeforeTrack n img.doubleSided := by
  induction n with
  | zero => exact fun _ => rfl
  | succ n ih =>
      intro hn
      rw [BinImage.sectorsSaved, ih (Nat.le_of_succ_le hn), h.sectors n hn, totalSectorsBeforeTrack]

/-- The error bytes that are worth to be saved: all of them, if one is set. -/
def errorTable (bytes : List UInt8) : List UInt8 := if bytes.any (· ≠ 0) then bytes else []

theorem Laid.save {img : BinImage} (h : img.Laid) {secs : Nat}
    (hsecs : secs = totalSectorsBeforeTrack img.numTracks img.doubleSided) (hpos : 0 < secs)
    (herrors : img.errors = if img.errorSize = 0 then none else some (256 * secs)) :
    img.save = (List.range (256 * secs)).map img.binData ++
      if secs ≤ img.errorSize then
        errorTable ((List.range secs).map fun i => img.binData (256 * secs + i)) else [] := by
  rw [BinImage.save, h.flatMap_trackData (Nat.le_refl _), savedErrors, herrors,
    h.sectorsSaved (Nat.le_refl _), ← hsecs]
  by_cases hnone : img.errorSize = 0
  · rw [if_pos hnone, if_neg (by omega)]
  · rw [if_neg hnone]
    dsimp only
    by_cases hfits : secs ≤ img.errorSize
    · rw [if_pos hfits, errorTable]
      simp only [hfits, true_and]
    · rw [if_neg hfits, if_neg fun hboth => hfits hboth.1]

theorem sectors_d71 : totalSectorsBeforeTrack 70 true = 1366 := by decide +kernel

/-- An image of a size that is accepted is saved as it has been loaded: the sectors of all its
    tracks, as many as there are in the file, and behind them the table of error bytes, where
    the file has all of it and an error is set. -/
theorem save_init {img : BinImage} {size : Nat} (h : (img.init size).1 = 0) :
    ∃ secs, 683 ≤ secs ∧ 256 * secs ≤ size ∧
      (size < 256 * secs + 17 * 256 ∨ (img.init size).2.numTracks = maxTracks ∨
        (img.init size).2.doubleSided = true ∧ secs = 1366) ∧
      (img.init size).2.save = (List.range (256 * secs)).map img.binData ++
        if 257 * secs ≤ size then
          errorTable ((List.range secs).map fun i => img.binData (256 * secs + i)) else [] := by
  have hlaid := init_laid h
  rw [init] at h hlaid ⊢
  split at h
  · exact absurd h (show ¬ (-3 : Int) = 0 by decide)
  next hsize =>
    have hsize' : 174848 ≤ size := Nat.le_of_not_lt hsize
    rw [if_neg hsize] at hlaid ⊢
    by_cases hds : minD71 ≤ size
    · -- two sides
      rw [if_pos hds] at hlaid ⊢
      have hd71 : minD71 = 256 * 1366 := by decide
      rw [hd71] at hds hlaid ⊢
      generalize hn : 1366 = n at hds hlaid ⊢
      have hsave := hlaid.save (hn ▸ sectors_d71.symm) (by omega) rfl
      refine ⟨n, by omega, hds, Or.inr (Or.inr ⟨rfl, rfl⟩), hsave.trans ?_⟩
      have hiff : n ≤ size - 256 * n ↔ 257 * n ≤ size := by omega
      exact congrArg _ (if_congr hiff rfl rfl)
    · -- one side, with as many tracks behind the 35th as there are
      rw [if_neg hds] at hlaid ⊢
      obtain ⟨m, hm, heq, hle, hmax⟩ := extraTracks_spec (maxTracks - 35) 35 (size - maxD64)
      simp only [heq, Nat.add_sub_cancel_left] at hlaid ⊢
      have hsecs := total_late m
      have hmemory : maxD64 + 17 * 256 * m = 256 * (683 + 17 * m) := by
        rw [maxD64]
        omega
      rw [hmemory] at hlaid ⊢
      have hsave := hlaid.save hsecs.symm (by omega) rfl
      rw [maxD64] at hle hmax
      refine ⟨683 + 17 * m, by omega, by omega, ?_, hsave.trans ?_⟩
      · rcases hmax with hall | hless
        · exact Or.inr (Or.inl (congrArg (35 + ·) hall))
        · exact Or.inl (by omega)
      · have hiff : 683 + 17 * m ≤ size - maxD64 - 17 * 256 * m ↔ 257 * (683 + 17 * m) ≤ size := by
          rw [maxD64]
          omega
        exact congrArg _ (if_congr hiff rfl rfl)

theorem save_init_d64 :
    ∃ secs, 683 ≤ secs ∧ 256 * secs ≤ 175531 ∧
      (175531 < 256 * secs + 17 * 256 ∨
        ((create (fun _ => 1) 35).init 175531).2.numTracks = maxTracks ∨
        ((create (fun _ => 1) 35).init 175531).2.doubleSided = true ∧ secs = 1366) ∧
      ((create (fun _ => 1) 35).init 175531).2.save =
        (List.range (256 * secs)).map (create (fun _ => 1) 35).binData ++
        if 257 * secs ≤ 175531 then
          errorTable ((List.range secs).map fun i =>
            (create (fun _ => 1) 35).binData (256 * secs + i)) else [] :=
  save_init (by decide +kernel)

end BinImage
