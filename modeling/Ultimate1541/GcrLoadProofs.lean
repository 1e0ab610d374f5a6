import Ultimate1541.GcrImageProofs

/-! # Loading GCR images

    What `load` makes of any file stays inside the buffer, what it takes from the
    file stays inside the bytes the file delivered, and the blank tracks it adds
    overlap nothing (`load_loadSafe`). -/

namespace GcrImage

open ByteBuffer

@[simp] theorem setTrack_tracks (img : GcrImage) (i j : Nat) (t : GcrTrack) :
    (img.setTrack i t).tracks j = if j = i then t else img.tracks j := rfl

@[simp] theorem setTrack_gcrData (img : GcrImage) (i : Nat) (t : GcrTrack) :
    (img.setTrack i t).gcrData = img.gcrData := rfl

@[simp] theorem setTrack_doubleSided (img : GcrImage) (i : Nat) (t : GcrTrack) :
    (img.setTrack i t).doubleSided = img.doubleSided := rfl

@[simp] theorem readInto_gcrData (img : GcrImage) (bytes : List UInt8) :
    (img.readInto bytes).gcrData = img.gcrData.blit 0 bytes := rfl

@[simp] theorem readInto_tracks (img : GcrImage) (bytes : List UInt8) (i : Nat) :
    (img.readInto bytes).tracks i = .absent := rfl

/-! ## What a loaded image looks like -/

/-- The track occupies the bytes from `a` to before `b`. -/
def Occupies (t : GcrTrack) (a b : Nat) : Prop :=
  t.trackAddress = some a ∧ b = a + t.trackLength

/-- The tracks of an image while blank tracks are added: those of the file lie
    in the first `bytesRead` bytes, the blank ones behind, up to `gcr`. -/
structure Placed (bytesRead : Nat) (img : GcrImage) (gcr : Nat) : Prop where
  start_le : bytesRead ≤ gcr
  fresh : ∀ {i}, (img.tracks i).trackAddress = none → (img.tracks i).inImageFile = false
  le_maxSize : gcr ≤ maxSize
  /-- A track of the file. -/
  file : ∀ {i a b}, Occupies (img.tracks i) a b → (img.tracks i).inImageFile →
    2 < a ∧ b ≤ bytesRead
  /-- A blank track. -/
  blank : ∀ {i a b}, Occupies (img.tracks i) a b → (img.tracks i).inImageFile = false →
    bytesRead ≤ a ∧ b ≤ gcr
  /-- Two blank tracks. -/
  apart : ∀ {i j a b c d}, i ≠ j → Occupies (img.tracks i) a b → Occupies (img.tracks j) c d →
    (img.tracks i).inImageFile = false → (img.tracks j).inImageFile = false → b ≤ c ∨ d ≤ a

/-- What `load` promises of any file. -/
structure LoadSafe (bytesRead : Nat) (img : GcrImage) : Prop where
  /-- Every track with an address lies inside the buffer. -/
  inside : ∀ {i a b}, Occupies (img.tracks i) a b → b ≤ maxSize
  /-- A track of the file lies inside the bytes the file delivered. -/
  delivered : ∀ {i a b}, Occupies (img.tracks i) a b → (img.tracks i).inImageFile →
    b ≤ bytesRead
  /-- A blank track overlaps no other track. -/
  apart : ∀ {i j a b c d}, i ≠ j → Occupies (img.tracks i) a b → Occupies (img.tracks j) c d →
    (img.tracks i).inImageFile = false → b ≤ c ∨ d ≤ a

theorem Placed.loadSafe {bytesRead gcr : Nat} {img : GcrImage} (h : Placed bytesRead img gcr) :
    LoadSafe bytesRead img where
  inside := by
    intro i a b ht
    have h1 := h.start_le
    have h2 := h.le_maxSize
    cases hfile : (img.tracks i).inImageFile with
    | true => exact Nat.le_trans (h.file ht hfile).2 (Nat.le_trans h1 h2)
    | false => exact Nat.le_trans (h.blank ht hfile).2 h2
  delivered := fun ht hfile => (h.file ht hfile).2
  apart := by
    intro i j a b c d hij hi hj hblank
    cases hfile : (img.tracks j).inImageFile with
    | true => exact Or.inr (Nat.le_trans (h.file hj hfile).2 (h.blank hi hblank).1)
    | false => exact h.apart hij hi hj hblank hfile

/-! ## Blank tracks -/

/-- A blank track is added behind all others. -/
theorem Placed.addBlankTrack {bytesRead gcr : Nat} {img : GcrImage} (h : Placed bytesRead img gcr)
    (i length : Nat) (speed : UInt32) :
    Placed bytesRead (addBlankTrack i length speed img gcr).1
      (addBlankTrack i length speed img gcr).2 := by
  rw [GcrImage.addBlankTrack]
  by_cases hadd : (img.tracks i).trackAddress = none ∧ gcr + length ≤ maxSize
  · rw [if_pos hadd]
    obtain ⟨hnone, hfit⟩ := hadd
    have hfresh := h.fresh hnone
    have hstart := h.start_le
    -- The new track lies behind `gcr`, all others before it.
    refine ⟨by dsimp only; omega, ?_, hfit, ?_, ?_, ?_⟩
    · intro j hj
      rw [setTrack_tracks] at hj ⊢
      by_cases hji : j = i
      · rw [if_pos hji] at hj
        exact nomatch hj
      · rw [if_neg hji] at hj ⊢
        exact h.fresh hj
    · intro j a b hj hfile
      rw [setTrack_tracks] at hj hfile
      by_cases hji : j = i
      · rw [if_pos hji] at hfile
        exact absurd (hfresh.symm.trans hfile) (by decide)
      · rw [if_neg hji] at hj hfile
        exact h.file hj hfile
    · intro j a b hj hblank
      rw [setTrack_tracks] at hj hblank
      by_cases hji : j = i
      · rw [if_pos hji] at hj
        obtain ⟨ha, rfl⟩ := hj
        cases ha
        exact ⟨hstart, Nat.le_refl _⟩
      · rw [if_neg hji] at hj hblank
        have := h.blank hj hblank
        dsimp only
        omega
    · intro j k a b c d hjk hj hk hjb hkb
      rw [setTrack_tracks] at hj hk hjb hkb
      by_cases hji : j = i
      · rw [if_neg (fun hki => hjk (hji.trans hki.symm))] at hk hkb
        rw [if_pos hji] at hj
        obtain ⟨ha, -⟩ := hj
        cases ha
        exact Or.inr (h.blank hk hkb).2
      · rw [if_neg hji] at hj hjb
        by_cases hki : k = i
        · rw [if_pos hki] at hk
          obtain ⟨hc, -⟩ := hk
          cases hc
          exact Or.inl (h.blank hj hjb).2
        · rw [if_neg hki] at hk hkb
          exact h.apart hjk hj hk hjb hkb
  · rw [if_neg hadd]
    exact h

theorem Placed.addBlankSides {bytesRead gcr : Nat} {img : GcrImage} (h : Placed bytesRead img gcr)
    (k : Nat) :
    Placed bytesRead (addBlankSides k img gcr).1 (addBlankSides k img gcr).2 := by
  have hside := h.addBlankTrack (2 * k) (trackLengths (trackToRegion k false))
    (regionSpeedCodes (trackToRegion k false))
  rw [GcrImage.addBlankSides]
  dsimp only
  split
  · exact hside.addBlankTrack _ _ _
  · exact hside

theorem Placed.addBlankLoop {bytesRead gcr : Nat} {img : GcrImage} (h : Placed bytesRead img gcr) :
    ∀ n, Placed bytesRead (addBlankLoop n img gcr).1 (addBlankLoop n img gcr).2
  | 0 => h
  | n + 1 => (h.addBlankLoop n).addBlankSides n

/-- Adding blank tracks does not touch what is there. -/
structure Kept (img img' : GcrImage) : Prop where
  tracks : ∀ {i}, (img.tracks i).trackAddress ≠ none → img'.tracks i = img.tracks i
  used : ∀ {i}, (img.tracks i).trackAddress = none →
    (img'.tracks i).trackUsed = (img.tracks i).trackUsed
  gcrData : img'.gcrData = img.gcrData
  doubleSided : img'.doubleSided = img.doubleSided

theorem Kept.refl (img : GcrImage) : Kept img img := ⟨fun _ => rfl, fun _ => rfl, rfl, rfl⟩

theorem Kept.addBlankTrack {img img' : GcrImage} (h : Kept img img') (i length : Nat)
    (speed : UInt32) (gcr : Nat) : Kept img (addBlankTrack i length speed img' gcr).1 := by
  rw [GcrImage.addBlankTrack]
  split
  next hadd =>
    refine ⟨?_, ?_, h.gcrData, h.doubleSided⟩
    · intro j hj
      rw [setTrack_tracks, if_neg]
      · exact h.tracks hj
      · rintro rfl
        rw [h.tracks hj] at hadd
        exact hj hadd.1
    · intro j hj
      rw [setTrack_tracks]
      split
      next hji => exact hji ▸ h.used hj
      next => exact h.used hj
  next => exact h

theorem Kept.addBlankSides {img img' : GcrImage} (h : Kept img img') (k gcr : Nat) :
    Kept img (addBlankSides k img' gcr).1 := by
  rw [GcrImage.addBlankSides]
  dsimp only
  split
  · exact (h.addBlankTrack _ _ _ _).addBlankTrack _ _ _ _
  · exact h.addBlankTrack _ _ _ _

theorem kept_addBlankLoop (img : GcrImage) (gcr : Nat) :
    ∀ n, Kept img (addBlankLoop n img gcr).1
  | 0 => .refl img
  | n + 1 => (kept_addBlankLoop img gcr n).addBlankSides n _

/-- `add_blank_tracks` clears only what it adds. -/
structure BlanksAdded (bytesRead : Nat) (img img' : GcrImage) : Prop where
  placed : ∃ gcr, Placed bytesRead img' gcr
  kept : ∀ {i}, (img.tracks i).trackAddress ≠ none → img'.tracks i = img.tracks i
  used : ∀ {i}, (img.tracks i).trackAddress = none →
    (img'.tracks i).trackUsed = (img.tracks i).trackUsed
  slice : ∀ {a n}, a + n ≤ bytesRead → img'.gcrData.slice a n = img.gcrData.slice a n

theorem addBlankWhole_spec {bytesRead : Nat} {img : GcrImage}
    (h : Placed bytesRead img bytesRead) (n : Nat) :
    BlanksAdded bytesRead img (img.addBlankWhole n bytesRead) := by
  have hplaced := h.addBlankLoop n
  have hkept := kept_addBlankLoop img bytesRead n
  refine ⟨⟨(GcrImage.addBlankLoop n img bytesRead).2, hplaced.start_le, hplaced.fresh,
    hplaced.le_maxSize, hplaced.file, hplaced.blank, hplaced.apart⟩, hkept.tracks, hkept.used, ?_⟩
  intro a k hak
  rw [addBlankWhole, Buffer.slice_blit_outside _ (Or.inl hak), hkept.gcrData]

theorem addBlankTracks_spec {bytesRead : Nat} {img : GcrImage}
    (h : Placed bytesRead img bytesRead) :
    BlanksAdded bytesRead img (img.addBlankTracks bytesRead) := addBlankWhole_spec h _

/-! ## Loading -/

/-- A track that `load` leaves absent, or takes from the file. -/
inductive Taken (bytesRead : Nat) (t : GcrTrack) : Prop where
  | absent (address : t.trackAddress = none) (file : t.inImageFile = false)
      (used : t.trackUsed = false)
  | file {a b : Nat} (file : t.inImageFile = true) (place : Occupies t a b) (start : 2 < a)
      (bytes : a < b) (stop : b ≤ bytesRead)

theorem validatedTrackLength_spec {w offset bytesRead max : Nat}
    (h : validatedTrackLength w offset bytesRead max ≠ 0) :
    validatedTrackLength w offset bytesRead max = w % 0x8000 ∧ w % 0x8000 ≤ max ∧
      offset + 2 + w % 0x8000 ≤ bytesRead := by
  rw [validatedTrackLength] at h ⊢
  split at h
  · exact absurd rfl h
  · split at h
    · exact absurd rfl h
    · split at h
      · exact absurd rfl h
      · next h1 h2 h3 =>
        rw [if_neg h1, if_neg h2, if_neg h3]
        omega

/-- A track is taken whole, or nothing changes. -/
theorem takeTrack_cases (img : GcrImage) (bytesRead i : Nat) {offset : Nat} (w : Nat)
    (hpos : offset ≠ 0) :
    img.takeTrack bytesRead i offset w = img ∨ ∃ t, Taken bytesRead t ∧
      img.takeTrack bytesRead i offset w
        = { img.setTrack i t with doubleSided := img.doubleSided || firstTrackSide1 ≤ i } := by
  rw [takeTrack]
  dsimp only
  by_cases hlen : validatedTrackLength w offset bytesRead maxTrackLen = 0
  · rw [if_pos hlen]
    exact Or.inl rfl
  · rw [if_neg hlen]
    obtain ⟨heq, -, hb⟩ := validatedTrackLength_spec hlen
    refine Or.inr ⟨_, .file rfl ⟨rfl, rfl⟩ (by omega)
      (Nat.lt_add_of_pos_right (Nat.pos_of_ne_zero hlen)) ?_, rfl⟩
    show offset + 2 + validatedTrackLength w offset bytesRead maxTrackLen ≤ bytesRead
    rw [heq]
    exact hb

/-- A round of the loop changes nothing or takes a track. -/
theorem loadTrack_cases {bytesRead i : Nat} {img img' : GcrImage}
    (hx : loadTrack bytesRead i img = some img') :
    img' = img ∨ ∃ t, Taken bytesRead t ∧
      img' = { img.setTrack i t with doubleSided := img.doubleSided || firstTrackSide1 ≤ i } := by
  rw [loadTrack] at hx
  generalize word32 img.gcrData (4 * (i + 3)) = offset at hx
  by_cases hfar : offset ≥ maxSize
  · rw [if_pos hfar] at hx
    exact nomatch hx
  · rw [if_neg hfar] at hx
    by_cases hread : trackHeaderIsReadable offset bytesRead
    · rw [if_neg (not_not.mpr hread)] at hx
      obtain rfl := Option.some.inj hx
      rw [trackHeaderIsReadable, decide_eq_true_eq] at hread
      exact takeTrack_cases img bytesRead i _ fun h0 => hread.1 (Or.inl h0)
    · rw [if_pos hread] at hx
      exact Or.inl (Option.some.inj hx).symm

theorem taken_readInto (bytesRead : Nat) (img : GcrImage) (bytes : List UInt8) :
    ∀ i, Taken bytesRead ((img.readInto bytes).tracks i) := fun _ => .absent rfl rfl rfl

/-- The loop keeps the buffer, and every track is absent or taken from the file. -/
theorem loadTracks_taken (bytesRead : Nat) (img : GcrImage)
    (h : ∀ i, Taken bytesRead (img.tracks i)) :
    ∀ (n : Nat), (loadTracks bytesRead n img).2.gcrData = img.gcrData ∧
      ∀ i, Taken bytesRead ((loadTracks bytesRead n img).2.tracks i)
  | 0 => ⟨rfl, h⟩
  | n + 1 => by
      obtain ⟨hdata, ih⟩ := loadTracks_taken bytesRead img h n
      rw [loadTracks]
      split
      · next hx =>
        rw [hx] at hdata ih
        exact ⟨hdata, ih⟩
      · next img₁ hx =>
        rw [hx] at hdata ih
        split
        · exact ⟨hdata, ih⟩
        · next img₂ hy =>
          rcases loadTrack_cases hy with rfl | ⟨t, ht, rfl⟩
          · exact ⟨hdata, ih⟩
          · refine ⟨hdata, fun i => ?_⟩
            show Taken bytesRead ((img₁.setTrack n t).tracks i)
            rw [setTrack_tracks]
            split
            · exact ht
            · exact ih i

theorem Taken.speedZone {bytesRead : Nat} {t : GcrTrack} (h : Taken bytesRead t) (z : UInt32) :
    Taken bytesRead { t with speedZone := z } := by
  cases h with
  | absent h1 h2 h3 => exact .absent h1 h2 h3
  | file h1 h2 h3 h4 h5 => exact .file h1 h2 h3 h4 h5

theorem taken_loadSpeeds {bytesRead : Nat} {img : GcrImage}
    (h : ∀ i, Taken bytesRead (img.tracks i)) (maxTracks : Nat) :
    ∀ i, Taken bytesRead ((img.loadSpeeds maxTracks).tracks i) := by
  intro i
  rw [loadSpeeds]
  dsimp only
  split
  · exact (h i).speedZone _
  · exact h i

theorem placed_of_taken {bytesRead : Nat} {img : GcrImage} (hle : bytesRead ≤ maxSize)
    (h : ∀ i, Taken bytesRead (img.tracks i)) : Placed bytesRead img bytesRead where
  start_le := Nat.le_refl _
  le_maxSize := hle
  fresh := by
    intro i hi
    cases h i with
    | absent _ hf _ => exact hf
    | file _ ht _ _ _ => exact nomatch hi.symm.trans ht.1
  file := by
    intro i a b ht _
    cases h i with
    | absent hn _ _ => exact nomatch hn.symm.trans ht.1
    | file _ ht' hs _ he =>
        obtain ⟨ha, rfl⟩ := ht
        obtain ⟨ha', rfl⟩ := ht'
        cases ha.symm.trans ha'
        exact ⟨hs, he⟩
  blank := by
    intro i a b ht hb
    cases h i with
    | absent hn _ _ => exact nomatch hn.symm.trans ht.1
    | file hf _ _ _ _ => exact nomatch hf.symm.trans hb
  apart := by
    intro i j a b c d _ ht _ hb _
    cases h i with
    | absent hn _ _ => exact nomatch hn.symm.trans ht.1
    | file hf _ _ _ _ => exact nomatch hf.symm.trans hb

/-- The number of bytes `load` reads from a file. -/
def delivered : Option (List UInt8) → Nat
  | none => 0
  | some file => (file.take maxSize).length

/-- Whatever the file holds, what is loaded is safe. -/
theorem load_loadSafe (img : GcrImage) (file : Option (List UInt8)) :
    LoadSafe (delivered file) (img.load file).2 := by
  cases file with
  | none =>
      exact (placed_of_taken (Nat.zero_le _) fun _ => .absent rfl rfl rfl).loadSafe
  | some file =>
      have hle : (file.take maxSize).length ≤ maxSize := by
        rw [List.length_take]
        exact Nat.min_le_left _ _
      rw [load]
      split
      · exact (placed_of_taken hle (taken_readInto _ img (file.take maxSize))).loadSafe
      · next maxTracks _ =>
        obtain ⟨-, htaken⟩ := loadTracks_taken _ _
          (taken_readInto (file.take maxSize).length img (file.take maxSize)) maxTracks
        split
        · next hx =>
          rw [hx] at htaken
          exact (placed_of_taken hle htaken).loadSafe
        · next img₁ hx =>
          rw [hx] at htaken
          have hplaced : Placed (file.take maxSize).length (img₁.loadSpeeds maxTracks) _ :=
            placed_of_taken hle (taken_loadSpeeds htaken maxTracks)
          obtain ⟨gcr, hblanks⟩ := (addBlankTracks_spec hplaced).placed
          exact hblanks.loadSafe

end GcrImage
