import Ultimate1541.GcrSaveProofs

/-! # Writing GCR tracks back

    A drive with a G64 file has the image in memory, and writes tracks that have
    changed back to the file, each to the place it was loaded from.  Until one
    of these writes fails, every whole track without a dirty flag stands in the
    file as it is in memory, but for where it begins (`run_stored`).

    A track has one dirty flag with the half track behind it.  The first half
    track that can be written back clears it, so that the busy flag must not be
    dropped between the two (`Poll.Steady`). -/

namespace GcrImage

open ByteBuffer Segment

/-! ## Writing a track -/

/-- The length word of a track. -/
def sizeBytes (t : GcrTrack) : List UInt8 :=
  let high := UInt8.ofNat (t.trackLength / 256)
  [UInt8.ofNat t.trackLength, if t.trackIsMfm then high ||| 0x80 else high]

/-- A track that begins at `start`. -/
def turned (start : Nat) (bytes : List UInt8) : List UInt8 := bytes.drop start ++ bytes.take start

/-- `write_track`, for a track that is found to begin at `start`, with what a
    write that fails leaves of the file. -/
def writeTrack (img : GcrImage) (track start : Nat) (failure : Option (List UInt8))
    (file : List UInt8) : Bool × List UInt8 :=
  match (img.tracks track).trackAddress with
  | none => (false, file)
  | some address =>
      if (img.tracks track).inImageFile = false ∨ address < 2 then (false, file)
      else match failure with
        | some left => (false, left)
        | none => (true, splice file (address - 2)
            (sizeBytes (img.tracks track) ++ turned start (img.trackBytes track)))

/-- Bytes that the hardware writes to a track, inside it. -/
def store (img : GcrImage) (track off : Nat) (bytes : List UInt8) : GcrImage :=
  match (img.tracks track).trackAddress with
  | none => img
  | some address =>
      if off + bytes.length ≤ (img.tracks track).trackLength then
        { img with gcrData := img.gcrData.blit (address + off) bytes }
      else img

/-- `MFM_TRACK_HEADER_SIZE`. -/
def mfmTrackHeaderSize : Nat := 162

/-- What `mfm_update_callback` does to the image; a track that has been
    formatted has a header. -/
def mfmUpdate (img : GcrImage) (track : Nat) (header : Option (List UInt8)) : GcrImage :=
  match (img.tracks track).trackAddress, header with
  | some _, some header =>
      let formatted := { img.setTrack track { img.tracks track with
          trackUsed := true, trackIsMfm := true } with
        doubleSided := img.doubleSided || firstTrackSide1 ≤ track }
      if mfmTrackHeaderSize ≤ (img.tracks track).trackLength then
        formatted.store track 0 (header.take mfmTrackHeaderSize)
      else formatted
  | _, _ => img

/-! ## The drive -/

/-- `C1541`, with a G64 file: the dirty flags of the GCR engine by their register
    and those of the MFM engine by the half track. -/
structure Drive where
  gcrImage : GcrImage
  mountFile : List UInt8
  dirtyFlags : Nat → Bool
  anyDirty : Bool
  writeSkip : Nat
  mfmDirtyBits : Nat → Bool
  upToDate : Bool

/-- What `poll` finds: whether the engine is busy when it comes to a half track,
    which register belongs to the head, where tracks begin, and which writes
    fail; and for MFM tracks whether they can be written, and which fail. -/
structure Poll where
  busy : Nat → Bool
  driveTrack : Nat
  start : Nat → Nat
  failure : Nat → Option (List UInt8)
  mfmFree : Nat → Bool
  mfmFailure : Nat → Option (List UInt8)

/-- The engine does not get ready between two half tracks. -/
def Poll.Steady (p : Poll) : Prop := ∀ k, p.busy (2 * k) = true → p.busy (2 * k + 1) = true

/-- The register with the dirty flag of a half track. -/
def trackRegister (i : Nat) : Nat := (if firstTrackSide1 ≤ i then i + 44 else i) / 2

namespace Drive

/-- `mount_g64`, with a file that is loaded.  `insert_disk` clears the registers of half the
    number of half tracks, and the last ones of the second side keep their flags. -/
def mountG64 (d : Drive) (file : List UInt8) : Drive :=
  ⟨(d.gcrImage.load (some file)).2, file, fun r => d.dirtyFlags r && decide (maxHdrTracks / 2 ≤ r),
    false, d.writeSkip, fun _ => false, true⟩

def writeBack (d : Drive) (track start : Nat) (failure : Option (List UInt8)) : Drive :=
  let r := d.gcrImage.writeTrack track start failure d.mountFile
  { d with mountFile := r.2, upToDate := d.upToDate && r.1 }

/-- A round of the loop of `poll` over the half tracks. -/
def pollTrack (p : Poll) (d : Drive) (i : Nat) : Drive :=
  if d.dirtyFlags (trackRegister i) then
    let d := { d with gcrImage := d.gcrImage.trackGotWrittenWithGcr i }
    if p.busy i = false ∨ p.driveTrack ≠ trackRegister i then
      { d with dirtyFlags := Function.update d.dirtyFlags (trackRegister i) false }.writeBack i
        (p.start i) (p.failure i)
    else { d with writeSkip := d.writeSkip + 1 }
  else d

/-- The loop for the first `n` half tracks. -/
def pollTracks (p : Poll) (d : Drive) : Nat → Drive
  | 0 => d
  | n + 1 => (pollTracks p d n).pollTrack p n

/-- A round of the loop of `poll` over the MFM tracks. -/
def pollMfm (p : Poll) (d : Drive) (i : Nat) : Drive :=
  if d.mfmDirtyBits i && p.mfmFree i then
    { d with mfmDirtyBits := Function.update d.mfmDirtyBits i false }.writeBack i 0 (p.mfmFailure i)
  else d

def pollMfms (p : Poll) (d : Drive) : Nat → Drive
  | 0 => d
  | n + 1 => (pollMfms p d n).pollMfm p n

/-- `poll`. -/
def poll (p : Poll) (d : Drive) : Drive :=
  let d := if d.anyDirty ∨ d.writeSkip ≠ 0 then
      pollTracks p { d with anyDirty := d.anyDirty && d.writeSkip ≠ 0, writeSkip := 0 } maxHdrTracks
    else d
  pollMfms p d maxHdrTracks

end Drive

/-- What happens to a drive: its GCR engine or its MFM engine writes to a half
    track, or it is polled. -/
inductive Event where
  | gcr (track off : Nat) (bytes : List UInt8)
  | mfm (track off : Nat) (bytes : List UInt8) (header : Option (List UInt8))
  | poll (p : Poll)

def Event.Steady : Event → Prop
  | .poll p => p.Steady
  | _ => True

namespace Drive

def step (d : Drive) : Event → Drive
  | .gcr track off bytes =>
      { d with
        gcrImage := d.gcrImage.store track off bytes
        dirtyFlags := Function.update d.dirtyFlags (trackRegister track) true
        anyDirty := true }
  | .mfm track off bytes header =>
      { d with
        gcrImage := (d.gcrImage.store track off bytes).mfmUpdate track header
        mfmDirtyBits := Function.update d.mfmDirtyBits track true }
  | .poll p => d.poll p

def run (d : Drive) (events : List Event) : Drive := events.foldl step d

end Drive

/-! ## Tracks that lie apart -/

/-- The track has its place in the file. -/
def InFile (img : GcrImage) (i a : Nat) : Prop :=
  (img.tracks i).trackAddress = some a ∧ (img.tracks i).inImageFile = true

/-- The tracks of the file, with their length words, lie behind the header and
    apart from each other. -/
structure Apart (header : Nat) (img : GcrImage) : Prop where
  header : ∀ {i a}, InFile img i a → header + 2 ≤ a
  apart : ∀ {i j a b}, i ≠ j → InFile img i a → InFile img j b →
    a + (img.tracks i).trackLength + 2 ≤ b ∨ b + (img.tracks j).trackLength + 2 ≤ a

/-- They lie in the file as well, and no other track overlaps them. -/
structure Tidy (header length : Nat) (img : GcrImage) : Prop extends Apart header img where
  inside : ∀ {i a}, InFile img i a → a + (img.tracks i).trackLength ≤ length
  blank : ∀ {i j a b}, i ≠ j → InFile img i a → (img.tracks j).trackAddress = some b →
    a + (img.tracks i).trackLength ≤ b ∨ b + (img.tracks j).trackLength ≤ a

/-- The tracks lie where they lay. -/
def SamePlaces (img img' : GcrImage) : Prop :=
  ∀ i, (img'.tracks i).trackAddress = (img.tracks i).trackAddress ∧
    (img'.tracks i).trackLength = (img.tracks i).trackLength ∧
    (img'.tracks i).inImageFile = (img.tracks i).inImageFile

variable {header length : Nat} {img img' : GcrImage}

theorem SamePlaces.trans {img₁ img₂ img₃ : GcrImage} (h : SamePlaces img₁ img₂)
    (h' : SamePlaces img₂ img₃) : SamePlaces img₁ img₃ := fun i =>
  ⟨(h' i).1.trans (h i).1, (h' i).2.1.trans (h i).2.1, (h' i).2.2.trans (h i).2.2⟩

theorem SamePlaces.inFile (h : SamePlaces img img') {i a : Nat} : InFile img' i a ↔ InFile img i a := by
  obtain ⟨h1, -, h3⟩ := h i
  rw [InFile, InFile, h1, h3]

theorem SamePlaces.tidy (h : SamePlaces img img') (ht : Tidy header length img) :
    Tidy header length img' where
  header := fun hi => ht.header (h.inFile.mp hi)
  apart := by
    intro i j a b hij hi hj
    rw [(h i).2.1, (h j).2.1]
    exact ht.apart hij (h.inFile.mp hi) (h.inFile.mp hj)
  inside := by
    intro i a hi
    rw [(h i).2.1]
    exact ht.inside (h.inFile.mp hi)
  blank := by
    intro i j a b hij hi hj
    rw [(h i).2.1, (h j).2.1]
    exact ht.blank hij (h.inFile.mp hi) ((h j).1.symm.trans hj)

/-! ## What a write to a track leaves alone -/

/-- What stands in the file for a track. -/
def slot (img : GcrImage) (i start : Nat) : List UInt8 :=
  sizeBytes (img.tracks i) ++ turned start (img.trackBytes i)

theorem length_slot (img : GcrImage) (i start : Nat) :
    (img.slot i start).length = (img.tracks i).trackLength + 2 := by
  have hbytes : (img.trackBytes i).length = (img.tracks i).trackLength := Buffer.length_slice ..
  rw [slot, List.length_append, turned, List.length_append, List.length_drop, List.length_take,
    hbytes, sizeBytes, List.length_cons, List.length_singleton]
  omega

/-- Nothing but track `t` has changed. -/
structure Touched (t : Nat) (img img' : GcrImage) : Prop where
  places : SamePlaces img img'
  slot : ∀ {i a}, i ≠ t → InFile img i a → ∀ start, img'.slot i start = img.slot i start

theorem Touched.refl (t : Nat) (img : GcrImage) : Touched t img img :=
  ⟨fun _ => ⟨rfl, rfl, rfl⟩, fun _ _ _ => rfl⟩

theorem Touched.trans {t : Nat} {img₁ img₂ img₃ : GcrImage} (h : Touched t img₁ img₂)
    (h' : Touched t img₂ img₃) : Touched t img₁ img₃ where
  places := h.places.trans h'.places
  slot := fun hi ha start => (h'.slot hi (h.places.inFile.mpr ha) start).trans (h.slot hi ha start)

/-- New flags of a track. -/
theorem touched_setTrack (img : GcrImage) (t : Nat) (speedZone : UInt32) (used mfm ds : Bool) :
    Touched t img { img.setTrack t { img.tracks t with
      speedZone := speedZone, trackUsed := used, trackIsMfm := mfm } with doubleSided := ds } where
  places := by
    intro i
    rw [setTrack_tracks]
    by_cases hi : i = t
    · rw [if_pos hi, hi]
      exact ⟨rfl, rfl, rfl⟩
    · rw [if_neg hi]
      exact ⟨rfl, rfl, rfl⟩
  slot := by
    intro i a hi _ start
    rw [slot, slot, trackBytes, trackBytes, setTrack_tracks, if_neg hi]
    rfl

theorem touched_gotWritten (img : GcrImage) (t : Nat) : Touched t img (img.trackGotWrittenWithGcr t) := by
  rw [trackGotWrittenWithGcr]
  split
  · exact .refl t img
  · exact touched_setTrack img t _ true false _

theorem Tidy.touched_store (h : Tidy header length img) (t off : Nat) (bytes : List UInt8) :
    Touched t img (img.store t off bytes) := by
  rw [store]
  split
  · exact .refl t img
  next b hb =>
    split
    next hle =>
      refine ⟨fun _ => ⟨rfl, rfl, rfl⟩, fun {i a} hi ha start => ?_⟩
      have haddress : (img.tracks i).trackAddress.getD 0 = a := by rw [ha.1]; rfl
      -- The bytes go to track `t`, which does not overlap this one.
      have happart := h.blank hi ha hb
      show sizeBytes (img.tracks i) ++ turned start ((img.gcrData.blit (b + off) bytes).slice
        ((img.tracks i).trackAddress.getD 0) (img.tracks i).trackLength) = img.slot i start
      rw [haddress, Buffer.slice_blit_outside _ (by omega), slot, trackBytes, haddress]
    · exact .refl t img

theorem Tidy.touched_mfmUpdate (h : Tidy header length img) (t : Nat) (bytes : Option (List UInt8)) :
    Touched t img (img.mfmUpdate t bytes) := by
  unfold mfmUpdate
  split
  next bytes _ _ =>
    have hflags := touched_setTrack img t (img.tracks t).speedZone true true
      (img.doubleSided || firstTrackSide1 ≤ t)
    dsimp only
    split
    · exact hflags.trans ((hflags.places.tidy h).touched_store t 0 _)
    · exact hflags
  · exact .refl t img

/-! ## The file is kept in step -/

/-- The track stands in the file as it is in memory. -/
def Drive.Stored (d : Drive) (i a : Nat) : Prop :=
  ∃ start, SitsAt d.mountFile (a - 2) (d.gcrImage.slot i start)

/-- The invariant of a drive with a file that was mounted as `file`, with the
    image `img`. -/
structure InStep (header : Nat) (file : List UInt8) (img : GcrImage) (d : Drive) : Prop where
  places : SamePlaces img d.gcrImage
  file : d.upToDate = true → d.mountFile.length = file.length ∧
    d.mountFile.take header = file.take header
  stored : d.upToDate = true → ∀ k a, InFile d.gcrImage (2 * k) a →
    d.dirtyFlags (trackRegister (2 * k)) = false → d.mfmDirtyBits (2 * k) = false → d.Stored (2 * k) a

variable {file : List UInt8} {d d' : Drive}

/-- Track `t` has changed, and is marked if it is a whole one. -/
theorem InStep.touched (h : InStep header file img d) {t : Nat}
    (himg : Touched t d.gcrImage d'.gcrImage)
    (hfile : d'.mountFile = d.mountFile) (hup : d'.upToDate = d.upToDate)
    (hgcr : ∀ r, d'.dirtyFlags r = false → d.dirtyFlags r = false)
    (hmfm : ∀ i, d'.mfmDirtyBits i = false → d.mfmDirtyBits i = false)
    (hmark : ∀ k, t = 2 * k →
      d'.dirtyFlags (trackRegister (2 * k)) = true ∨ d'.mfmDirtyBits (2 * k) = true) :
    InStep header file img d' where
  places := h.places.trans himg.places
  file := by
    rw [hfile, hup]
    exact h.file
  stored := by
    intro hupd k a hk h1 h2
    have hne : 2 * k ≠ t := by
      intro ht
      rcases hmark k ht.symm with hm | hm
      · exact absurd (h1.symm.trans hm) Bool.noConfusion
      · exact absurd (h2.symm.trans hm) Bool.noConfusion
    have hk' := himg.places.inFile.mp hk
    obtain ⟨start, hsits⟩ := h.stored (hup ▸ hupd) k a hk' (hgcr _ h1) (hmfm _ h2)
    refine ⟨start, ?_⟩
    rw [hfile, himg.slot hne hk']
    exact hsits

/-- Track `t` has been written back, if that has not failed. -/
theorem InStep.writeBack (h : InStep header file img d) (ht : Tidy header file.length img)
    (d' : Drive) {t : Nat}
    (himg : d'.gcrImage = d.gcrImage) (hfile : d'.mountFile = d.mountFile)
    (hup : d'.upToDate = d.upToDate)
    (hgcr : ∀ k, 2 * k ≠ t → d'.dirtyFlags (trackRegister (2 * k)) = false →
      d.dirtyFlags (trackRegister (2 * k)) = false)
    (hmfm : ∀ k, 2 * k ≠ t → d'.mfmDirtyBits (2 * k) = false → d.mfmDirtyBits (2 * k) = false)
    (start : Nat) (failure : Option (List UInt8)) :
    InStep header file img (d'.writeBack t start failure) := by
  have htidy := h.places.tidy ht
  have hplaces : SamePlaces img (d'.writeBack t start failure).gcrImage := by
    rw [show (d'.writeBack t start failure).gcrImage = d.gcrImage from himg]
    exact h.places
  -- When the drive is still up to date, the track is in the file, and was written.
  have hdone : (d'.writeBack t start failure).upToDate = true → d.upToDate = true ∧
      ∃ b, InFile d.gcrImage t b ∧ (d'.writeBack t start failure).mountFile
        = splice d.mountFile (b - 2) (d.gcrImage.slot t start) := by
    intro hupd
    rw [Drive.writeBack, himg, hfile, hup, Bool.and_eq_true] at hupd
    refine ⟨hupd.1, ?_⟩
    have hok := hupd.2
    rw [Drive.writeBack, himg, hfile]
    dsimp only
    rw [writeTrack] at hok ⊢
    split at hok
    · exact nomatch hok
    next b hb =>
      split at hok
      · exact nomatch hok
      next hin =>
        rw [not_or] at hin
        cases failure with
        | some left => exact nomatch hok
        | none =>
            refine ⟨b, ⟨hb, eq_true_of_ne_false hin.1⟩, ?_⟩
            rw [if_neg (not_or.mpr hin)]
            rfl
  refine ⟨hplaces, fun hupd => ?_, fun hupd k a hk h1 h2 => ?_⟩
  · obtain ⟨hupd', b, hb, hsplice⟩ := hdone hupd
    obtain ⟨hlen, hhead⟩ := h.file hupd'
    have hin := htidy.inside hb
    have hstart := htidy.header hb
    rw [hsplice, length_splice (by rw [length_slot]; omega), take_splice (by omega) (by omega)]
    exact ⟨hlen, hhead⟩
  · obtain ⟨hupd', b, hb, hsplice⟩ := hdone hupd
    obtain ⟨hlen, -⟩ := h.file hupd'
    have hin := htidy.inside hb
    have hstart := htidy.header hb
    have hslot : (d'.writeBack t start failure).gcrImage.slot = d.gcrImage.slot :=
      congrArg slot himg
    have hk' : InFile d.gcrImage (2 * k) a := himg ▸ hk
    rw [Drive.Stored, hslot, hsplice]
    by_cases hkt : 2 * k = t
    · subst hkt
      cases hk'.1.symm.trans hb.1
      exact ⟨start, sitsAt_splice (by omega)⟩
    · obtain ⟨start', hsits⟩ := h.stored hupd' k a hk' (hgcr k hkt h1) (hmfm k hkt h2)
      refine ⟨start', hsits.splice ?_ ?_⟩
      · rw [length_slot]
        omega
      · have happart := htidy.apart hkt hk' hb
        have hstart' := htidy.header hk'
        rw [length_slot, length_slot]
        omega

/-! ## Polling -/

theorem trackRegister_odd (k : Nat) : trackRegister (2 * k + 1) = trackRegister (2 * k) := by
  rw [trackRegister, trackRegister, firstTrackSide1]
  split <;> split <;> omega

theorem trackRegister_inj {j k : Nat} (h : trackRegister (2 * j) = trackRegister (2 * k)) : j = k := by
  rw [trackRegister, trackRegister, firstTrackSide1] at h
  split at h <;> split at h <;> omega

/-- A half track is written back, unless it would clear the flag of the track before. -/
theorem InStep.pollTrack (h : InStep header file img d) (ht : Tidy header file.length img) (p : Poll)
    {i : Nat} (hodd : ∀ k, i = 2 * k + 1 → d.dirtyFlags (trackRegister i) = true →
      p.busy i = true ∧ p.driveTrack = trackRegister i) :
    InStep header file img (d.pollTrack p i) := by
  rw [Drive.pollTrack]
  split
  next hdirty =>
    have hgot : InStep header file img { d with gcrImage := d.gcrImage.trackGotWrittenWithGcr i } :=
      h.touched (touched_gotWritten _ i) rfl rfl (fun _ hr => hr) (fun _ hr => hr)
        fun k hk => Or.inl (hk ▸ hdirty)
    dsimp only
    split
    next hfree =>
      refine hgot.writeBack ht { d with
          gcrImage := d.gcrImage.trackGotWrittenWithGcr i
          dirtyFlags := Function.update d.dirtyFlags (trackRegister i) false }
        rfl rfl rfl (fun k hk hclear => ?_) (fun _ _ hr => hr) _ _
      by_cases hr : trackRegister (2 * k) = trackRegister i
      · exfalso
        rcases Nat.even_or_odd' i with ⟨j, rfl | rfl⟩
        · exact hk (congrArg (2 * ·) (trackRegister_inj hr))
        · obtain ⟨hbusy, hhead⟩ := hodd j rfl hdirty
          rcases hfree with hf | hf
          · exact absurd (hbusy.symm.trans hf) Bool.noConfusion
          · exact hf hhead
      · exact (Function.update_of_ne hr _ _).symm.trans hclear
    · exact ⟨hgot.places, hgot.file, hgot.stored⟩
  · exact h

/-- A flag that is left belongs to the track under the head. -/
theorem pollTrack_pending (p : Poll) (d : Drive) (i : Nat)
    (h : (d.pollTrack p i).dirtyFlags (trackRegister i) = true) :
    p.busy i = true ∧ p.driveTrack = trackRegister i := by
  rw [Drive.pollTrack] at h
  split at h
  · dsimp only at h
    split at h
    · have h' : Function.update d.dirtyFlags (trackRegister i) false (trackRegister i) = true := h
      rw [Function.update_self] at h'
      exact nomatch h'
    next hbusy =>
      rw [not_or, Bool.not_eq_false, not_not] at hbusy
      exact hbusy
  next hclear => exact absurd h hclear

theorem InStep.pollTracks (h : InStep header file img d) (ht : Tidy header file.length img) {p : Poll}
    (hp : p.Steady) : ∀ k, InStep header file img (d.pollTracks p (2 * k))
  | 0 => h
  | k + 1 => by
      have heven := (h.pollTracks ht hp k).pollTrack ht p (i := 2 * k) fun j hj => by omega
      refine heven.pollTrack ht p (i := 2 * k + 1) fun j hj hdirty => ?_
      rw [trackRegister_odd] at hdirty ⊢
      obtain ⟨hbusy, hhead⟩ := pollTrack_pending p _ _ hdirty
      exact ⟨hp k hbusy, hhead⟩

theorem InStep.pollMfms (h : InStep header file img d) (ht : Tidy header file.length img) (p : Poll) :
    ∀ n, InStep header file img (d.pollMfms p n)
  | 0 => h
  | n + 1 => by
      have ih := h.pollMfms ht p n
      rw [Drive.pollMfms, Drive.pollMfm]
      split
      · exact ih.writeBack ht { d.pollMfms p n with
            mfmDirtyBits := Function.update (d.pollMfms p n).mfmDirtyBits n false }
          rfl rfl rfl (fun _ _ hr => hr) (fun k hk hclear => (Function.update_of_ne hk _ _).symm.trans hclear) _ _
      · exact ih

theorem update_true {f : Nat → Bool} {i j : Nat} (h : Function.update f i true j = false) : f j = false := by
  rw [Function.update_apply] at h
  split at h
  · exact nomatch h
  · exact h

theorem InStep.step (h : InStep header file img d) (ht : Tidy header file.length img) {e : Event}
    (he : e.Steady) : InStep header file img (d.step e) := by
  cases e with
  | gcr track off bytes =>
      refine h.touched ((h.places.tidy ht).touched_store track off bytes) rfl rfl
        (fun r hr => update_true hr) (fun _ hr => hr) fun k hk => Or.inl ?_
      rw [← hk]
      exact Function.update_self ..
  | mfm track off bytes bytes' =>
      have hstore := (h.places.tidy ht).touched_store track off bytes
      refine h.touched (hstore.trans ((hstore.places.tidy (h.places.tidy ht)).touched_mfmUpdate
        track bytes')) rfl rfl (fun _ hr => hr) (fun i hi => update_true hi) fun k hk => Or.inr ?_
      rw [← hk]
      exact Function.update_self ..
  | poll p =>
      rw [Drive.step, Drive.poll]
      split
      · have hstart : InStep header file img
            { d with anyDirty := d.anyDirty && d.writeSkip ≠ 0, writeSkip := 0 } :=
          ⟨h.places, h.file, h.stored⟩
        exact (hstart.pollTracks ht he 84).pollMfms ht p _
      · exact h.pollMfms ht p _

theorem InStep.run (ht : Tidy header file.length img) : ∀ {events : List Event} {d : Drive},
    InStep header file img d → (∀ e ∈ events, e.Steady) → InStep header file img (d.run events)
  | [], _, h, _ => h
  | e :: events, d, h, he => by
      obtain ⟨hfirst, hrest⟩ := List.forall_mem_cons.mp he
      show InStep header file img ((d.step e).run events)
      exact InStep.run ht (h.step ht hfirst) hrest

/-! ## Mounting a file -/

/-- A track that is taken from the file stands there, behind its length word. -/
def FromFile (bytes : List UInt8) (t : GcrTrack) : Prop :=
  t.inImageFile = true → ∃ o, t.trackAddress = some (o + 2) ∧
    o + 2 + t.trackLength ≤ bytes.length ∧ (bytes.drop o).take 2 = sizeBytes t

theorem sizeBytes_of_word {t : GcrTrack} (x y : UInt8)
    (hlen : t.trackLength = (x.toNat + 256 * y.toNat) % 0x8000)
    (hmfm : t.trackIsMfm = decide (0x8000 ≤ x.toNat + 256 * y.toNat)) : sizeBytes t = [x, y] := by
  have hx := x.toNat_lt
  have hy := y.toNat_lt
  have hlow : UInt8.ofNat t.trackLength = x := by
    rw [← UInt8.toNat_inj, UInt8.toNat_ofNat']
    omega
  rw [sizeBytes, hlow, hmfm]
  by_cases hbig : 0x8000 ≤ x.toNat + 256 * y.toNat
  · have hhigh := high_toNat ⟨t.trackLength / 256, by omega⟩
    rw [decide_eq_true hbig, if_pos rfl, show UInt8.ofNat (t.trackLength / 256) ||| 0x80 = y from ?_]
    rw [← UInt8.toNat_inj, hhigh]
    show t.trackLength / 256 + 128 = _
    omega
  · rw [decide_eq_false hbig, if_neg Bool.noConfusion, show UInt8.ofNat (t.trackLength / 256) = y from ?_]
    rw [← UInt8.toNat_inj, UInt8.toNat_ofNat']
    omega

theorem slice_blit_list {bytes : List UInt8} {o n : Nat} (h : o + n ≤ bytes.length)
    (hfit : bytes.length ≤ maxSize) (b : Buffer maxSize) :
    (b.blit 0 bytes).slice o n = (bytes.drop o).take n := by
  have hlen : ((bytes.drop o).take n).length = n := by
    rw [List.length_take, List.length_drop]
    omega
  have hslice := slice_blit_of_sitsAt (sitsAt_take_drop (l := bytes) (o := o) (n := n) (by omega)) hfit b
  rwa [hlen] at hslice

variable {bytes : List UInt8} {b : Buffer maxSize}

theorem fromFile_loadTracks (hfit : bytes.length ≤ maxSize)
    (hb : ∀ n, (loadTracks bytes.length n img).2.gcrData = b.blit 0 bytes)
    (h : ∀ i, FromFile bytes (img.tracks i)) :
    ∀ n i, FromFile bytes ((loadTracks bytes.length n img).2.tracks i) := by
  intro n
  induction n with
  | zero => exact h
  | succ n ih =>
      have hdata := hb n
      rw [loadTracks]
      split
      next hx =>
        rw [hx] at ih
        exact ih
      next img₁ hx =>
        rw [hx] at ih hdata
        split
        · exact ih
        next img₂ hy =>
          rw [loadTrack] at hy
          split at hy
          · cases hy
          split at hy
          · cases hy
            exact ih
          -- The round takes the track at this offset, or nothing.
          generalize word32 img₁.gcrData (4 * (n + 3)) = o at hy
          cases hy
          rw [takeTrack]
          dsimp only
          split
          · exact ih
          next hne =>
            intro i
            show FromFile bytes ((img₁.setTrack n _).tracks i)
            rw [setTrack_tracks]
            split
            · obtain ⟨heq, -, hend⟩ := validatedTrackLength_spec hne
              refine fun _ => ⟨o, rfl, ?_, ?_⟩
              · show o + 2 + validatedTrackLength _ o bytes.length maxTrackLen ≤ bytes.length
                rw [heq]
                exact hend
              · rw [← slice_blit_list (by omega) hfit b, ← hdata]
                exact (sizeBytes_of_word _ _ heq rfl).symm
            · exact ih i

theorem addBlankTrack_inImageFile (i n : Nat) (speed : UInt32) (img : GcrImage) (gcr j : Nat) :
    ((addBlankTrack i n speed img gcr).1.tracks j).inImageFile = (img.tracks j).inImageFile := by
  rw [addBlankTrack]
  split
  · rw [setTrack_tracks]
    split
    next hj => rw [hj]
    · rfl
  · rfl

theorem addBlankSides_inImageFile (k : Nat) (img : GcrImage) (gcr j : Nat) :
    ((addBlankSides k img gcr).1.tracks j).inImageFile = (img.tracks j).inImageFile := by
  rw [addBlankSides]
  dsimp only
  split
  · rw [addBlankTrack_inImageFile, addBlankTrack_inImageFile]
  · rw [addBlankTrack_inImageFile]

theorem addBlankLoop_inImageFile (img : GcrImage) (gcr j : Nat) :
    ∀ n, ((addBlankLoop n img gcr).1.tracks j).inImageFile = (img.tracks j).inImageFile
  | 0 => rfl
  | n + 1 => (addBlankSides_inImageFile n _ _ j).trans (addBlankLoop_inImageFile img gcr j n)

theorem addBlankWhole_inImageFile (img : GcrImage) (n gcr j : Nat) :
    ((img.addBlankWhole n gcr).tracks j).inImageFile = (img.tracks j).inImageFile :=
  addBlankLoop_inImageFile img gcr j n

/-- The tracks of the file after `load`: those its loop has taken, with their
    speed zones. -/
theorem inFile_load {file : List UInt8} (hload : (img.load (some file)).1 = true) {i a : Nat}
    (hi : InFile (img.load (some file)).2 i a) : ∃ m img₁ z,
    signatureTracks (img.readInto (file.take maxSize)).gcrData = some m ∧
    loadTracks (file.take maxSize).length m (img.readInto (file.take maxSize)) = (true, img₁) ∧
    (img.load (some file)).2 = (img₁.loadSpeeds m).addBlankTracks (file.take maxSize).length ∧
    (img.load (some file)).2.tracks i = { img₁.tracks i with speedZone := z } ∧
    (img₁.tracks i).trackAddress = some a ∧ (img₁.tracks i).inImageFile = true := by
  have hle : (file.take maxSize).length ≤ maxSize := by
    rw [List.length_take]
    exact Nat.min_le_left _ _
  rw [load] at hload hi ⊢
  split at hload
  · cases hload
  next m hm =>
    have htaken := (loadTracks_taken _ _
      (taken_readInto (file.take maxSize).length img (file.take maxSize)) m).2
    split at hload
    · cases hload
    next img₁ hx =>
      rw [hx] at htaken
      rw [hm] at hi
      dsimp only at hi htaken ⊢
      rw [hx] at hi
      have hblanks := addBlankTracks_spec (placed_of_taken hle (taken_loadSpeeds htaken m))
      obtain ⟨z, hz⟩ : ∃ z, (img₁.loadSpeeds m).tracks i = { img₁.tracks i with speedZone := z } := by
        rw [loadSpeeds]
        dsimp only
        split
        · exact ⟨_, rfl⟩
        · exact ⟨_, rfl⟩
      have hin : ((img₁.loadSpeeds m).tracks i).inImageFile = true :=
        (addBlankWhole_inImageFile (img₁.loadSpeeds m) (maxUsedTracks / 2)
          (file.take maxSize).length i).symm.trans hi.2
      -- A track of the file has an address, so that no blank one takes its entry.
      have haddress : (img₁.tracks i).trackAddress ≠ none := by
        intro hnone
        rw [hz] at hin
        cases htaken i with
        | absent _ hf _ => exact absurd (hf.symm.trans hin) Bool.noConfusion
        | file _ hp _ _ _ => cases hnone.symm.trans hp.1
      have hkept := hblanks.kept (i := i) (by rw [hz]; exact haddress)
      rw [hz] at hkept hin
      refine ⟨m, img₁, z, hm, hx, rfl, hkept, ?_, hin⟩
      have hi' := hi.1
      rw [hkept] at hi'
      exact hi'

/-- After `load`, the tracks of the file are those that stand in it. -/
theorem slot_load {file : List UInt8} (hload : (img.load (some file)).1 = true) {i a : Nat}
    (hi : InFile (img.load (some file)).2 i a) :
    SitsAt file (a - 2) ((img.load (some file)).2.slot i 0) := by
  have hle : (file.take maxSize).length ≤ maxSize := by
    rw [List.length_take]
    exact Nat.min_le_left _ _
  obtain ⟨m, img₁, z, -, hx, hall, htrack, haddress, hin⟩ := inFile_load hload hi
  have hdata := loadTracks_taken (file.take maxSize).length (img.readInto (file.take maxSize))
    (taken_readInto _ img _)
  have hfrom := fromFile_loadTracks (b := img.gcrData) hle (fun n => (hdata n).1)
    (fun i hin => nomatch hin) m
  obtain ⟨hgcr, htaken⟩ := hdata m
  rw [hx] at hgcr htaken hfrom
  obtain ⟨o, ho, hend, hword⟩ := hfrom i hin
  cases haddress.symm.trans ho
  have hbytes : (img.load (some file)).2.trackBytes i
      = ((file.take maxSize).drop (o + 2)).take (img₁.tracks i).trackLength := by
    rw [trackBytes, htrack, ← slice_blit_list hend hle img.gcrData]
    show Buffer.slice _ ((img₁.tracks i).trackAddress.getD 0) _ = _
    rw [haddress, hall]
    refine ((addBlankTracks_spec (placed_of_taken hle (taken_loadSpeeds htaken m))).slice hend).trans ?_
    show img₁.gcrData.slice _ _ = _
    rw [hgcr]
    rfl
  have hsits := (sitsAt_take_drop (l := file.take maxSize) (o := o)
    (n := 2 + (img₁.tracks i).trackLength) (by omega)).append (file.drop maxSize)
  rw [List.take_append_drop, List.take_add, hword, List.drop_drop, ← hbytes] at hsits
  rw [slot, turned, List.drop_zero, List.take_zero, List.append_nil, htrack, Nat.add_sub_cancel]
  exact hsits

theorem Apart.tidy {file : List UInt8} (h : Apart header (img.load (some file)).2) :
    Tidy header file.length (img.load (some file)).2 where
  toApart := h
  inside := fun {i a} hi => Nat.le_trans ((load_loadSafe img (some file)).delivered ⟨hi.1, rfl⟩ hi.2) (by
    rw [delivered, List.length_take]
    exact Nat.min_le_right _ _)
  blank := by
    intro i j a b hij hi hj
    cases hfile : ((img.load (some file)).2.tracks j).inImageFile with
    | true =>
        have := h.apart hij hi ⟨hj, hfile⟩
        omega
    | false => exact ((load_loadSafe img (some file)).apart hij.symm ⟨hj, rfl⟩ ⟨hi.1, rfl⟩ hfile).symm

/-- **THE FILE IS KEPT**: in every run of a drive with a G64 file whose tracks
    lie apart, as long as no write to the file has failed, the file has its size
    and its header, and every whole track of it that is not marked stands where
    it was loaded from, with its length word, beginning anywhere. -/
theorem run_stored {d₀ : Drive} {file : List UInt8} (hload : (d₀.gcrImage.load (some file)).1 = true)
    (hapart : Apart header (d₀.gcrImage.load (some file)).2) {events : List Event}
    (hsteady : ∀ e ∈ events, e.Steady) {d : Drive} (hrun : (d₀.mountG64 file).run events = d)
    (hup : d.upToDate = true) :
    d.mountFile.length = file.length ∧ d.mountFile.take header = file.take header ∧
      ∀ k a, InFile (d₀.gcrImage.load (some file)).2 (2 * k) a →
        d.dirtyFlags (trackRegister (2 * k)) = false → d.mfmDirtyBits (2 * k) = false →
        ∃ start, SitsAt d.mountFile (a - 2)
          (sizeBytes (d.gcrImage.tracks (2 * k)) ++ turned start (d.gcrImage.trackBytes (2 * k))) := by
  have hmount : InStep header file (d₀.gcrImage.load (some file)).2 (d₀.mountG64 file) :=
    ⟨fun _ => ⟨rfl, rfl, rfl⟩, fun _ => ⟨rfl, rfl⟩, fun _ _ _ hi _ _ => ⟨0, slot_load hload hi⟩⟩
  have hend := InStep.run hapart.tidy hmount hsteady
  rw [hrun] at hend
  obtain ⟨hlen, hhead⟩ := hend.file hup
  exact ⟨hlen, hhead, fun k a hi => hend.stored hup k a (hend.places.inFile.mpr hi)⟩

/-- The tracks of a file that was saved lie apart. -/
theorem apart_save (h : Savable img) (img₀ : GcrImage) :
    Apart (12 + img.maxTracks * 8) (img₀.load (some img.save)).2 := by
  obtain ⟨img₂, hload, -⟩ := sameTracks_load h img₀
  have htake : img.save.take maxSize = img.save := List.take_of_length_le (length_save img ▸ h.fits)
  obtain ⟨img', hx', -, htracks⟩ := loadTracks_save h (img₀.readInto img.save)
    (readInto_gcrData img₀ img.save) (Nat.le_refl img.maxTracks)
  have hplace : ∀ {i a}, InFile (img₀.load (some img.save)).2 i a →
      a = img.trackStart i + 2 ∧ img.trackStart (i + 1) = a + (((img₀.load (some img.save)).2).tracks i).trackLength := by
    intro i a hi
    obtain ⟨m, img₁, z, hsig, hx, -, htrack, haddress, hin⟩ := inFile_load (by rw [hload]) hi
    rw [htake, readInto_gcrData, signatureTracks_save h] at hsig
    cases hsig
    rw [htake, hx'] at hx
    cases hx
    rw [htracks] at haddress hin
    split at haddress
    next hs =>
      cases haddress
      refine ⟨rfl, ?_⟩
      rw [htrack, htracks, if_pos hs, trackStart, if_pos hs.2]
      show _ = img.trackStart i + 2 + (img.tracks i).trackLength
      omega
    · cases haddress
  constructor
  · intro i a hi
    rw [(hplace hi).1, ← length_saveTracks]
    omega
  · intro i j a b hij hi hj
    obtain ⟨ha, hai⟩ := hplace hi
    obtain ⟨hb, hbj⟩ := hplace hj
    rcases Nat.lt_or_gt_of_ne hij with hlt | hlt
    · have := trackStart_mono img (show i + 1 ≤ j from hlt)
      omega
    · have := trackStart_mono img (show j + 1 ≤ i from hlt)
      omega

/-- The engine is ready, and every write goes well. -/
def quietPoll : Poll := ⟨fun _ => false, 0, fun _ => 1, fun _ => none, fun _ => true, fun _ => none⟩

def writtenAndPolled : List Event := [.gcr 0 1 [9], .poll quietPoll]

theorem writtenAndPolled_steady : ∀ e ∈ writtenAndPolled, e.Steady := by
  intro e he
  rcases List.mem_cons.mp he with rfl | he
  · trivial
  · cases List.mem_singleton.mp he
    exact fun _ hbusy => nomatch hbusy

def emptyDrive : Drive := ⟨oneTrack, [], fun _ => false, false, 0, fun _ => false, false⟩

/-- A drive with the file of one track, which is written to and polled. -/
def polledDrive : Drive := (emptyDrive.mountG64 oneTrack.save).run writtenAndPolled

theorem polledDrive_upToDate : polledDrive.upToDate = true := by
  decide +kernel

theorem load_oneTrack_ok : (emptyDrive.gcrImage.load (some oneTrack.save)).1 = true := by
  obtain ⟨img₂, hload, -⟩ := sameTracks_load oneTrack_savable emptyDrive.gcrImage
  rw [hload]

theorem run_stored_oneTrack :
    polledDrive.mountFile.length = oneTrack.save.length ∧
      polledDrive.mountFile.take 684 = oneTrack.save.take 684 ∧
      ∀ k a, InFile (emptyDrive.gcrImage.load (some oneTrack.save)).2 (2 * k) a →
        polledDrive.dirtyFlags (trackRegister (2 * k)) = false →
        polledDrive.mfmDirtyBits (2 * k) = false →
        ∃ start, SitsAt polledDrive.mountFile (a - 2) (sizeBytes (polledDrive.gcrImage.tracks (2 * k)) ++
          turned start (polledDrive.gcrImage.trackBytes (2 * k))) :=
  run_stored load_oneTrack_ok (apart_save oneTrack_savable emptyDrive.gcrImage) writtenAndPolled_steady rfl
    polledDrive_upToDate

end GcrImage
