import Ultimate1541.GcrLoadProofs
import Ultimate1541.SegmentProofs

/-! # Saving GCR images

    The header of a saved file points at each used track; the tracks follow in
    order.  An image that fits the buffer as a file is read back as it was saved
    (`load_save_and_loadSafe`). -/

namespace GcrImage

open ByteBuffer Segment

/-! ## The layout of a saved file -/

theorem length_saveSignature (img : GcrImage) : img.saveSignature.length = 12 := by
  rw [saveSignature, List.length_append]
  split <;> rfl

theorem length_saveTrack (img : GcrImage) (i : Nat) :
    (img.saveTrack i).length
      = if (img.tracks i).saved then (img.tracks i).trackLength + 2 else 0 := by
  rw [saveTrack]
  split
  · rw [List.length_cons, List.length_cons, trackBytes, Buffer.length_slice]
  · rfl

/-- The tracks before track `i` end where it starts. -/
theorem length_saveTracks (img : GcrImage) :
    ∀ i, 12 + img.maxTracks * 8 + ((List.range i).flatMap img.saveTrack).length
      = img.trackStart i
  | 0 => rfl
  | i + 1 => by
      rw [List.range_succ, List.flatMap_append, List.length_append, List.flatMap_singleton,
        length_saveTrack, trackStart, ← length_saveTracks img i, ← Nat.add_assoc]

theorem trackStart_mono (img : GcrImage) {i : Nat} :
    ∀ {j}, i ≤ j → img.trackStart i ≤ img.trackStart j
  | 0, h => Nat.le_of_eq (congrArg img.trackStart (Nat.le_zero.mp h))
  | j + 1, h => by
      by_cases hij : i = j + 1
      · exact Nat.le_of_eq (congrArg img.trackStart hij)
      · exact Nat.le_trans (trackStart_mono img (by omega)) (Nat.le_add_right _ _)

/-- The length of the file. -/
theorem length_save (img : GcrImage) : img.save.length = img.trackStart img.maxTracks := by
  rw [save, List.length_append, List.length_append, List.length_append, length_saveSignature,
    length_flatMap_range (k := 4) (fun _ => rfl), length_flatMap_range (k := 4) (fun _ => rfl),
    ← length_saveTracks]
  omega

theorem sitsAt_signature (img : GcrImage) : SitsAt img.save 0 img.saveSignature :=
  (((SitsAt.refl _).append _).append _).append _

theorem sitsAt_offset (img : GcrImage) {i : Nat} (hi : i < img.maxTracks) :
    SitsAt img.save (4 * (i + 3)) (img.saveOffset i) := by
  have h := (((sitsAt_flatMap_const (f := img.saveOffset) (k := 4) (fun _ => rfl) hi).prepend
    img.saveSignature).append ((List.range img.maxTracks).flatMap img.saveSpeed)).append
    ((List.range img.maxTracks).flatMap img.saveTrack)
  rw [length_saveSignature, show 12 + 4 * i = 4 * (i + 3) by omega] at h
  exact h

theorem sitsAt_speed (img : GcrImage) {i : Nat} (hi : i < img.maxTracks) :
    SitsAt img.save (4 * (3 + img.maxTracks + i)) (img.saveSpeed i) := by
  have h := ((sitsAt_flatMap_const (f := img.saveSpeed) (k := 4) (fun _ => rfl) hi).prepend
    (img.saveSignature ++ (List.range img.maxTracks).flatMap img.saveOffset)).append
    ((List.range img.maxTracks).flatMap img.saveTrack)
  rw [List.length_append, length_saveSignature, length_flatMap_range (k := 4) (fun _ => rfl),
    show 12 + 4 * img.maxTracks + 4 * i = 4 * (3 + img.maxTracks + i) by omega] at h
  exact h

theorem sitsAt_track (img : GcrImage) {i : Nat} (hi : i < img.maxTracks) :
    SitsAt img.save (img.trackStart i) (img.saveTrack i) := by
  have h := (sitsAt_flatMap img.saveTrack hi).prepend
    (img.saveSignature ++ (List.range img.maxTracks).flatMap img.saveOffset ++
      (List.range img.maxTracks).flatMap img.saveSpeed)
  rw [List.length_append, List.length_append, length_saveSignature,
    length_flatMap_range (k := 4) (fun _ => rfl), length_flatMap_range (k := 4) (fun _ => rfl),
    show 12 + 4 * img.maxTracks + 4 * img.maxTracks = 12 + img.maxTracks * 8 by omega,
    length_saveTracks] at h
  exact h

/-- A segment of a list that was copied to the start of a buffer. -/
theorem slice_blit_of_sitsAt {l mid : List UInt8} {o : Nat} (h : SitsAt l o mid)
    (hfit : l.length ≤ maxSize) (b : Buffer maxSize) :
    (b.blit 0 l).slice o mid.length = mid := by
  have hle := h.length_le
  have hall : (b.blit 0 l).slice 0 l.length = l := Buffer.slice_blit b (by omega)
  have hread := h.take_drop
  rw [← hall, Buffer.drop_slice _ (by omega), Buffer.take_slice _ (by omega), Nat.zero_add] at hread
  exact hread

theorem getD_slice {m : Nat} (b : Buffer m) {o n i : Nat} (hi : i < n) (d : UInt8) :
    (b.slice o n).getD i d = b.get (o + i) := by
  rw [List.getD_eq_getElem _ _ (by rw [Buffer.length_slice]; exact hi), Buffer.getElem_slice]

theorem word16_of_slice {b : Buffer maxSize} {o : Nat} {x y : UInt8}
    (h : b.slice o 2 = [x, y]) : word16 b o = x.toNat + 256 * y.toNat := by
  have h' : [b.get o, b.get (o + 1)] = [x, y] := h
  rw [List.cons.injEq, List.cons.injEq] at h'
  rw [word16, h'.1, h'.2.1]

theorem word32_of_slice {b : Buffer maxSize} {o v : Nat} (hv : v < 2 ^ 32)
    (h : b.slice o 4 = le32 v) : word32 b o = v := by
  have h' : [b.get o, b.get (o + 1), b.get (o + 1 + 1), b.get (o + 1 + 1 + 1)] = le32 v := h
  rw [le32, List.cons.injEq, List.cons.injEq, List.cons.injEq, List.cons.injEq] at h'
  obtain ⟨h0, h1, h2, h3, -⟩ := h'
  rw [word32, word16, word16, show o + 2 = o + 1 + 1 from rfl, h0, h1, h2, h3]
  simp only [UInt8.toNat_ofNat']
  omega

/-! ## The invariant -/

/-- The invariant of the table: a track with an address has bytes, one without
    is not used, and a used track on the second side makes the image two-sided. -/
structure Sound (img : GcrImage) : Prop where
  length : ∀ {i}, (img.tracks i).trackAddress ≠ none → 1 ≤ (img.tracks i).trackLength
  used : ∀ {i}, (img.tracks i).trackAddress = none → (img.tracks i).trackUsed = false
  side : ∀ {i}, (img.tracks i).saved → i < img.maxTracks

/-- An image whose used tracks are no longer than the format allows, and fit the
    buffer with the header and their length words. -/
structure Savable (img : GcrImage) : Prop where
  sound : Sound img
  length : ∀ {i}, (img.tracks i).saved → (img.tracks i).trackLength ≤ maxTrackLen
  fits : img.trackStart img.maxTracks ≤ maxSize

variable {img : GcrImage}

/-! ## Reading a saved file -/

theorem GcrTrack.address_of_saved {t : GcrTrack} (h : t.saved) : t.trackAddress ≠ none := by
  intro hnone
  rw [GcrTrack.saved, hnone] at h
  exact Bool.noConfusion h

theorem Savable.length_pos (h : Savable img) {i : Nat} (hs : (img.tracks i).saved) :
    1 ≤ (img.tracks i).trackLength := h.sound.length (GcrTrack.address_of_saved hs)

theorem high_toNat : ∀ n : Fin 128, (UInt8.ofNat n ||| 0x80).toNat = n + 128 := by
  decide

/-- The length word of a saved track. -/
theorem word16_saveTrack (h : Savable img) {i : Nat} (hs : (img.tracks i).saved)
    {b : Buffer maxSize} {o : Nat}
    (hb : b.slice o ((img.tracks i).trackLength + 2) = img.saveTrack i) :
    word16 b o = (img.tracks i).trackLength + if (img.tracks i).trackIsMfm then 0x8000 else 0 := by
  have hmax := h.length hs
  have hmax' : (img.tracks i).trackLength ≤ 7928 := hmax
  have htake := congrArg (List.take 2) hb
  rw [Buffer.take_slice _ (by omega), saveTrack, if_pos hs] at htake
  rw [word16_of_slice htake]
  cases hm : (img.tracks i).trackIsMfm with
  | true =>
      have hhigh := high_toNat ⟨(img.tracks i).trackLength / 256, by omega⟩
      dsimp only at hhigh
      rw [if_pos rfl, if_pos rfl, hhigh, UInt8.toNat_ofNat']
      omega
  | false =>
      rw [if_neg (by decide), if_neg (by decide), UInt8.toNat_ofNat', UInt8.toNat_ofNat']
      omega

theorem trackEnd_le (h : Savable img) {i : Nat} (hs : (img.tracks i).saved) :
    img.trackStart i + (img.tracks i).trackLength + 2 ≤ img.trackStart img.maxTracks := by
  have := trackStart_mono img (h.sound.side hs)
  rw [trackStart, if_pos hs] at this
  omega

theorem validatedTrackLength_eq {n offset bytesRead : Nat} (flag : Nat) (hpos : 1 ≤ n)
    (hmax : n ≤ maxTrackLen) (hflag : flag = 0 ∨ flag = 0x8000)
    (hend : offset + n + 2 ≤ bytesRead) :
    validatedTrackLength (n + flag) offset bytesRead maxTrackLen = n := by
  have hlt : n < 0x8000 := Nat.lt_of_le_of_lt hmax (by decide)
  have hmod : (n + flag) % 0x8000 = n := by
    rcases hflag with rfl | rfl <;> omega
  rw [validatedTrackLength, hmod]
  rw [if_neg (by omega), if_neg (by omega), if_neg (by omega)]

/-- A track as it is read back. -/
def readBack (img : GcrImage) (i : Nat) : GcrTrack where
  trackAddress := some (img.trackStart i + 2)
  trackLength := (img.tracks i).trackLength
  speedZone := 0
  trackUsed := true
  inImageFile := true
  trackIsMfm := (img.tracks i).trackIsMfm

theorem takeTrack_save (h : Savable img) {i : Nat} (hs : (img.tracks i).saved)
    (img' : GcrImage) :
    img'.takeTrack img.save.length i (img.trackStart i)
        ((img.tracks i).trackLength + if (img.tracks i).trackIsMfm then 0x8000 else 0)
      = { img'.setTrack i (img.readBack i) with
          doubleSided := img'.doubleSided || firstTrackSide1 ≤ i } := by
  have hpos := h.length_pos hs
  have hmax := h.length hs
  have hlt : (img.tracks i).trackLength < 0x8000 := Nat.lt_of_le_of_lt hmax (by decide)
  have hend := trackEnd_le h hs
  rw [← length_save] at hend
  have hval := validatedTrackLength_eq (if (img.tracks i).trackIsMfm then 0x8000 else 0)
    hpos hmax (by split; exacts [Or.inr rfl, Or.inl rfl]) hend
  rw [takeTrack, hval]
  dsimp only
  rw [if_neg (by omega), fromFile, readBack]
  have hmfm : decide (0x8000 ≤ (img.tracks i).trackLength
      + if (img.tracks i).trackIsMfm then 0x8000 else 0) = (img.tracks i).trackIsMfm := by
    cases (img.tracks i).trackIsMfm with
    | true => exact decide_eq_true (by rw [if_pos rfl]; omega)
    | false => exact decide_eq_false (by rw [if_neg (by decide)]; omega)
  rw [hmfm]

/-- One round of the loop on a saved file. -/
theorem loadTrack_save (h : Savable img) {i : Nat} (hi : i < img.maxTracks) {img' : GcrImage}
    {b : Buffer maxSize} (hb : img'.gcrData = b.blit 0 img.save) :
    loadTrack img.save.length i img' = some
      (if (img.tracks i).saved then
        { img'.setTrack i (img.readBack i) with
          doubleSided := img'.doubleSided || firstTrackSide1 ≤ i }
      else img') := by
  have hlen := length_save img
  have hfit := h.fits
  have hoff := slice_blit_of_sitsAt (sitsAt_offset img hi) (hlen ▸ hfit) b
  rw [loadTrack, hb]
  by_cases hs : (img.tracks i).saved
  · have hend := trackEnd_le h hs
    have hpos := h.length_pos hs
    have hmax := h.length hs
    have hbase : 12 ≤ img.trackStart i := by
      rw [← length_saveTracks, Nat.add_assoc]
      exact Nat.le_add_right _ _
    have hbig : maxSize < 2 ^ 32 := by decide
    rw [saveOffset, if_pos hs] at hoff
    have hword := word32_of_slice (Nat.lt_of_le_of_lt (by omega) hbig) hoff
    have htrack := slice_blit_of_sitsAt (sitsAt_track img hi) (hlen ▸ hfit) b
    rw [length_saveTrack, if_pos hs] at htrack
    have hread : trackHeaderIsReadable (img.trackStart i) img.save.length = true := by
      rw [trackHeaderIsReadable, hlen, decide_eq_true_eq]
      omega
    rw [hword, if_neg (by omega), if_neg (not_not.mpr hread), word16_saveTrack h hs htrack,
      takeTrack_save h hs, if_pos hs]
  · rw [saveOffset, if_neg hs] at hoff
    have hword := word32_of_slice (by decide) hoff
    rw [hword, if_neg (by decide), if_pos (by rw [trackHeaderIsReadable]; simp), if_neg hs]

/-- The loop on a saved file reads the first `n` tracks back. -/
theorem loadTracks_save (h : Savable img) (img₀ : GcrImage) {b : Buffer maxSize}
    (hb : img₀.gcrData = b.blit 0 img.save) :
    ∀ {n}, n ≤ img.maxTracks → ∃ img', loadTracks img.save.length n img₀ = (true, img') ∧
      img'.gcrData = img₀.gcrData ∧
      ∀ i, img'.tracks i
        = if i < n ∧ (img.tracks i).saved then img.readBack i else img₀.tracks i
  | 0, _ => ⟨img₀, rfl, rfl, fun i => (if_neg (fun hi => Nat.not_lt_zero i hi.1)).symm⟩
  | n + 1, hn => by
      obtain ⟨img', hx, hdata, htracks⟩ := loadTracks_save h img₀ hb (Nat.le_of_succ_le hn)
      have hround := loadTrack_save h (Nat.lt_of_succ_le hn) (hdata.trans hb)
      rw [loadTracks, hx]
      dsimp only
      rw [hround]
      refine ⟨_, rfl, ?_, fun i => ?_⟩
      · split <;> exact hdata
      · by_cases hs : (img.tracks n).saved
        · rw [if_pos hs]
          show (img'.setTrack n (img.readBack n)).tracks i = _
          rw [setTrack_tracks, htracks]
          by_cases hin : i = n
          · subst hin
            rw [if_pos rfl, if_pos ⟨Nat.lt_succ_self i, hs⟩]
          · rw [if_neg hin]
            simp only [show i < n + 1 ↔ i < n by omega]
        · rw [if_neg hs, htracks]
          by_cases hin : i = n
          · subst hin
            rw [if_neg (fun hi => hs hi.2), if_neg (fun hi => hs hi.2)]
          · simp only [show i < n + 1 ↔ i < n by omega]

/-! ## The round trip -/

/-- A used track that was read back: the same bytes, length, flag and speed
    zone. -/
structure SameTrack (img img' : GcrImage) (i : Nat) : Prop where
  bytes : img'.trackBytes i = img.trackBytes i
  length : (img'.tracks i).trackLength = (img.tracks i).trackLength
  mfm : (img'.tracks i).trackIsMfm = (img.tracks i).trackIsMfm
  speedZone : (img'.tracks i).speedZone = (img.tracks i).speedZone

/-- The same used tracks. -/
def SameTracks (img img' : GcrImage) : Prop :=
  ∀ i, (img'.tracks i).saved = (img.tracks i).saved ∧
    ((img.tracks i).saved → SameTrack img img' i)

theorem signatureTracks_save (h : Savable img) (b : Buffer maxSize) :
    signatureTracks (b.blit 0 img.save) = some img.maxTracks := by
  have hsig := slice_blit_of_sitsAt (sitsAt_signature img) (length_save img ▸ h.fits) b
  rw [length_saveSignature] at hsig
  have h8 := congrArg (List.take 8) hsig
  rw [Buffer.take_slice _ (by decide), saveSignature] at h8
  rw [signatureTracks, h8, maxTracks]
  cases img.doubleSided <;> decide +kernel

theorem reportedTracks_save (h : Savable img) (b : Buffer maxSize) :
    ((b.blit 0 img.save).get 9).toNat = img.maxTracks := by
  have hsig := slice_blit_of_sitsAt (sitsAt_signature img) (length_save img ▸ h.fits) b
  rw [length_saveSignature] at hsig
  have h9 := getD_slice (b.blit 0 img.save) (o := 0) (show 9 < 12 by decide) 0
  rw [hsig, Nat.zero_add] at h9
  rw [← h9, saveSignature, maxTracks]
  cases img.doubleSided <;> decide +kernel

theorem loadSpeeds_save (h : Savable img) {i : Nat} (hs : (img.tracks i).saved)
    {img' : GcrImage} {b : Buffer maxSize} (hb : img'.gcrData = b.blit 0 img.save) :
    (img'.loadSpeeds img.maxTracks).tracks i
      = { img'.tracks i with speedZone := (img.tracks i).speedZone } := by
  have hspeed := slice_blit_of_sitsAt (sitsAt_speed img (h.sound.side hs))
    (length_save img ▸ h.fits) b
  rw [saveSpeed, if_pos hs] at hspeed
  have hword := word32_of_slice (img.tracks i).speedZone.toNat_lt hspeed
  rw [loadSpeeds]
  dsimp only
  rw [if_pos (h.sound.side hs), hb, reportedTracks_save h, hword, UInt32.ofNat_toNat]

theorem slice_trackBytes (h : Savable img) {i : Nat} (hs : (img.tracks i).saved)
    (b : Buffer maxSize) :
    (b.blit 0 img.save).slice (img.trackStart i + 2) (img.tracks i).trackLength
      = img.trackBytes i := by
  have htrack := slice_blit_of_sitsAt (sitsAt_track img (h.sound.side hs))
    (length_save img ▸ h.fits) b
  rw [length_saveTrack, if_pos hs] at htrack
  have hdrop := congrArg (List.drop 2) htrack
  rw [Buffer.drop_slice _ (by omega), Nat.add_sub_cancel, saveTrack, if_pos hs] at hdrop
  exact hdrop

/-- The tracks of a saved file, with the speed zones and the blank tracks that
    are added to them. -/
theorem sameTracks_of_blanksAdded (h : Savable img) {img₁ img₂ : GcrImage} {b : Buffer maxSize}
    (hdata : img₁.gcrData = b.blit 0 img.save)
    (htracks : ∀ i, img₁.tracks i
      = if i < img.maxTracks ∧ (img.tracks i).saved then img.readBack i else .absent)
    (hblank : BlanksAdded img.save.length (img₁.loadSpeeds img.maxTracks) img₂) :
    SameTracks img img₂ := by
  intro i
  by_cases hs : (img.tracks i).saved
  · have hback : (img₁.loadSpeeds img.maxTracks).tracks i
        = { img.readBack i with speedZone := (img.tracks i).speedZone } := by
      rw [loadSpeeds_save h hs hdata, htracks, if_pos ⟨h.sound.side hs, hs⟩]
    have hkept := hblank.kept (i := i) (by rw [hback]; exact Option.some_ne_none _)
    rw [hback] at hkept
    have hend := trackEnd_le h hs
    rw [← length_save] at hend
    have hslice := hblank.slice (show img.trackStart i + 2 + (img.tracks i).trackLength
      ≤ img.save.length by omega)
    have hsame : (img₁.loadSpeeds img.maxTracks).gcrData = b.blit 0 img.save := hdata
    refine ⟨?_, fun _ => ⟨?_, ?_, ?_, ?_⟩⟩
    · rw [hkept, hs]
      rfl
    · rw [trackBytes, hkept]
      refine hslice.trans ?_
      rw [hsame, slice_trackBytes h hs]
    · rw [hkept]
      rfl
    · rw [hkept]
      rfl
    · rw [hkept]
  · have hnone : img₁.tracks i = .absent := by
      rw [htracks, if_neg (fun hi => hs hi.2)]
    have haddress : ((img₁.loadSpeeds img.maxTracks).tracks i).trackAddress = none ∧
        ((img₁.loadSpeeds img.maxTracks).tracks i).trackUsed = false := by
      rw [loadSpeeds]
      dsimp only
      rw [hnone]
      split <;> exact ⟨rfl, rfl⟩
    have hused := hblank.used haddress.1
    rw [haddress.2] at hused
    refine ⟨?_, fun hs' => absurd hs' hs⟩
    rw [Bool.not_eq_true] at hs
    rw [hs, GcrTrack.saved, hused, Bool.and_false]

/-- Saving and loading: the tracks of the image that is left by `load`. -/
theorem sameTracks_load (h : Savable img) (img₀ : GcrImage) :
    ∃ img₂, img₀.load (some img.save) = (true, img₂) ∧ SameTracks img img₂ := by
  have hlen := length_save img
  have htake : img.save.take maxSize = img.save := List.take_of_length_le (hlen ▸ h.fits)
  obtain ⟨img₁, hx, hdata, htracks⟩ := loadTracks_save h (img₀.readInto img.save)
    (readInto_gcrData img₀ img.save) (Nat.le_refl img.maxTracks)
  have htaken := (loadTracks_taken img.save.length (img₀.readInto img.save)
    (taken_readInto _ img₀ img.save) img.maxTracks).2
  rw [hx] at htaken
  dsimp only at htaken
  rw [readInto_gcrData] at hdata
  have hsig : signatureTracks (img₀.readInto img.save).gcrData = some img.maxTracks := by
    rw [readInto_gcrData, signatureTracks_save h]
  have hblank := addBlankTracks_spec (placed_of_taken (hlen ▸ h.fits)
    (taken_loadSpeeds htaken img.maxTracks))
  refine ⟨(img₁.loadSpeeds img.maxTracks).addBlankTracks img.save.length, ?_,
    sameTracks_of_blanksAdded h hdata htracks hblank⟩
  rw [load, htake, hsig]
  dsimp only
  rw [hx]

/-- An image of one track with three bytes. -/
def oneTrack : GcrImage where
  gcrData := Buffer.zero.blit 0 [1, 2, 3]
  tracks := fun i => if i = 0 then ⟨some 0, 3, 3, true, false, true⟩ else .absent
  doubleSided := false

theorem oneTrack_tracks {i : Nat} (hi : i ≠ 0) : oneTrack.tracks i = .absent := if_neg hi

theorem oneTrack_savable : Savable oneTrack := by
  have hzero : ∀ {i}, (oneTrack.tracks i).trackAddress ≠ none → i = 0 := by
    intro i hi
    by_contra h0
    rw [oneTrack_tracks h0] at hi
    exact hi rfl
  refine ⟨⟨fun {i} hi => ?_, fun {i} hi => ?_, fun {i} hi => ?_⟩, fun {i} hi => ?_, ?_⟩
  · rw [hzero hi]
    decide
  · by_cases h0 : i = 0
    · rw [h0] at hi
      exact nomatch hi
    · rw [oneTrack_tracks h0]
      rfl
  · rw [hzero (GcrTrack.address_of_saved hi)]
    decide
  · rw [hzero (GcrTrack.address_of_saved hi)]
    decide
  · decide +kernel

end GcrImage
