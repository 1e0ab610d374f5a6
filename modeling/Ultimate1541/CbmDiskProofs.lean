import Ultimate1541.CbmFreeSearchProofs
import Ultimate1541.ChainWalkProofs

/-! # The sector window and the medium

    A `FileSystemCBM` sees the image through one sector buffer, the window,
    with a dirty flag, and keeps the BAM in buffers of its own that `sync`
    writes back.  What a reader of the file system sees of a sector is its
    `view`: the window where it is positioned, the medium elsewhere.  Moving the
    window and syncing keep the view of every sector but those the BAM buffers
    are written to (`SameView`). -/

namespace CbmDisk

open CbmLayout CbmBam ByteBuffer Footprint Footprint.Prog

/-- `FRESULT`. -/
inductive FResult where
  | ok
  | diskErr
  | intErr
  | notReady
  | noFile
  | noPath
  | invalidName
  | denied
  | exist
  | invalidObject
  | writeProtected
  | invalidDrive
  | notEnabled
  | noFilesystem
  | mkfsAborted
  | timeout
  | locked
  | noMemory
  | tooManyOpenFiles
  | invalidParameter
  | diskFull
  | dirNotEmpty
  | loopDetected
  deriving DecidableEq, Repr

/-- One sector. -/
abbrev Block : Type := Buffer 256

/-- The state of a mounted CBM file system and of the medium below it. -/
structure Fs where
  disk : Nat → Block
  sectBuffer : Block
  currentSector : Option Nat
  dirty : Bool
  bam : Bam
  rootValid : Bool
  writable : Bool

/-- Sector `i` of a BAM buffer. -/
def bufBlock (m : Bam) (buf : Buf) (i : Nat) : Block :=
  fun j => m.cell ⟨buf, 256 * i + j.val⟩

/-- `root_sector`. -/
def rootSector : Kind → Nat
  | .dnp => 1
  | _ => 0

/-- `dir_track`; DNP has none. -/
def dirTrack : Kind → Option Nat
  | .d64 => some 18
  | .d71 => some 18
  | .d81 => some 40
  | .dnp => none

/-- `dir_sector`. -/
def dirSector : Kind → Nat
  | .d64 => 1
  | .d71 => 1
  | .d81 => 3
  | .dnp => 0

namespace Fs

/-- `prt->read` of one sector. -/
def prtRead (g : Geometry) (fs : Fs) (a : Nat) : Option Block :=
  if a < g.numSectors then some (fs.disk a) else none

/-- `prt->write` of one sector; no address is past the end. -/
def prtWrite (g : Geometry) (fs : Fs) (b : Block) : Option Nat → Option Fs
  | none => none
  | some a =>
      if a < g.numSectors then some { fs with disk := Function.update fs.disk a b } else none

/-- `prt->write` of two sectors, which checks the first one only. -/
def prtWrite2 (g : Geometry) (fs : Fs) (b b' : Block) : Option Nat → Option Fs
  | none => none
  | some a =>
      if a < g.numSectors then
        some { fs with disk := Function.update (Function.update fs.disk a b) (a + 1) b' }
      else none

/-- `is_writable`. -/
def isWritable (fs : Fs) : Bool :=
  let version := if fs.rootValid then fs.bam.cell ⟨.root, 2⟩ else 0
  fs.writable && !(version != 0 && decide (version < 0x40))

/-- `move_window`; `none` is a negative sector number. -/
def moveWindow (g : Geometry) (fs : Fs) : Option Nat → FResult × Fs
  | none => (.intErr, fs)
  | some a =>
      if fs.currentSector = some a then (.ok, fs)
      else
        match (if fs.dirty then fs.prtWrite g fs.sectBuffer fs.currentSector else some fs) with
        | none => (.diskErr, fs)
        | some fs' =>
            match fs'.prtRead g a with
            | none => (.diskErr, fs')
            | some b =>
                (.ok, { fs' with sectBuffer := b, currentSector := some a, dirty := false })

/-- The address of the sector `root_buffer` is a copy of. -/
def rootAbs (g : Geometry) : Option Nat := absSector g (rootTrack g.kind) (rootSector g.kind)

/-- `FileSystemCBM::sync`. -/
def syncBase (g : Geometry) (fs : Fs) : FResult × Fs :=
  match (if fs.dirty then fs.prtWrite g fs.sectBuffer fs.currentSector else some fs) with
  | none => (.diskErr, fs)
  | some fs₁ =>
      let fs₂ := { fs₁ with dirty := false }
      if fs₂.bam.regs.rootDirty then
        match fs₂.prtWrite g (bufBlock fs₂.bam .root 0) (rootAbs g) with
        | none => (.diskErr, fs₂)
        | some fs₃ =>
            (.ok, { fs₃ with bam.regs.rootDirty := false })
      else (.ok, fs₂)

/-- `FileSystemD71::sync`. -/
def syncD71 (g : Geometry) (fs : Fs) : FResult × Fs :=
  match fs.syncBase g with
  | (.ok, fs₁) =>
      if fs₁.bam.regs.bam2Dirty then
        match fs₁.prtWrite g (bufBlock fs₁.bam .bam2 0) (absSector g 53 0) with
        | none => (.diskErr, fs₁)
        | some fs₂ => (.ok, { fs₂ with bam.regs.bam2Dirty := false })
      else (.ok, fs₁)
  | r => r

/-- `FileSystemD81::sync`. -/
def syncD81 (g : Geometry) (fs : Fs) : FResult × Fs :=
  match fs.syncBase g with
  | (.ok, fs₁) =>
      if fs₁.bam.regs.bamDirty ≠ 0 then
        match fs₁.prtWrite2 g (bufBlock fs₁.bam .bam 0) (bufBlock fs₁.bam .bam 1)
            (absSector g 40 1) with
        | none => (.diskErr, fs₁)
        | some fs₂ => (.ok, { fs₂ with bam.regs.bamDirty := 0 })
      else (.ok, fs₁)
  | r => r

/-- The loop of `FileSystemDNP::sync`, two BAM sectors a round; `fres` is what
    the base class answered. -/
def syncDnpLoop (g : Geometry) (fres : FResult) (fs : Fs) : Nat → Nat → Nat → FResult × Fs
  | 0, _, _ => (fres, { fs with bam.regs.bamDirty := 0 })
  | left + 1, i, dirty =>
      if dirty = 0 then (fres, { fs with bam.regs.bamDirty := 0 })
      else
        match (if dirty % 4 ≠ 0 then
            fs.prtWrite2 g (bufBlock fs.bam .bam i) (bufBlock fs.bam .bam (i + 1)) (some (2 + i))
          else some fs) with
        | none => (.diskErr, fs)
        | some fs' => fs'.syncDnpLoop g fres left (i + 2) (dirty / 4)

/-- `FileSystemDNP::sync`; `bam_dirty` has 32 bits. -/
def syncDnp (g : Geometry) (fs : Fs) : FResult × Fs :=
  match fs.syncBase g with
  | (fres, fs₁) => fs₁.syncDnpLoop g fres 16 0 fs₁.bam.regs.bamDirty

/-- The virtual `sync`. -/
def sync (g : Geometry) (fs : Fs) : FResult × Fs :=
  match g.kind with
  | .d64 => fs.syncBase g
  | .d71 => fs.syncD71 g
  | .d81 => fs.syncD81 g
  | .dnp => fs.syncDnp g

/-- `get_next_free_sector` on the buffers of this file system. -/
def getNextFreeSector (g : Geometry) (fs : Fs) (track sector : Nat) :
    Option (NextFree × Fs) :=
  ((CbmBam.getNextFreeSector g track sector).exec fs.bam).map
    fun r => (r.1, { fs with bam := r.2 })

/-- `set_sector_allocation` on the buffers of this file system. -/
def setSectorAllocation (g : Geometry) (fs : Fs) (track sector : Nat) (alloc : Bool) :
    Option (Bool × Fs) :=
  ((CbmBam.setSectorAllocation g.kind track sector alloc).exec fs.bam).map
    fun r => (r.1, { fs with bam := r.2 })

/-- `read_sector`, which goes past the window. -/
def readSector (g : Geometry) (fs : Fs) (track sector : Nat) : FResult × Block :=
  match absSector g track sector with
  | none => (.invalidParameter, Buffer.zero)
  | some a =>
      match fs.prtRead g a with
      | none => (.diskErr, Buffer.zero)
      | some b => (.ok, b)

/-- `write_sector`, which goes past the window. -/
def writeSector (g : Geometry) (fs : Fs) (b : Block) (track sector : Nat) : FResult × Fs :=
  if fs.isWritable = false then (.writeProtected, fs)
  else
    match absSector g track sector with
    | none => (.invalidParameter, fs)
    | some a =>
        match fs.prtWrite g b (some a) with
        | none => (.diskErr, fs)
        | some fs' => (.ok, fs')

/-- A store into `sect_buffer` together with `dirty = 1`. -/
def edit (fs : Fs) (f : Block → Block) : Fs :=
  { fs with sectBuffer := f fs.sectBuffer, dirty := true }

/-- What a reader of the file system sees of a sector. -/
def view (fs : Fs) (a : Nat) : Block :=
  if fs.currentSector = some a then fs.sectBuffer else fs.disk a

end Fs

/-- The sectors `sync` writes BAM buffers to. -/
def IsBamSector (g : Geometry) (a : Nat) : Prop :=
  Fs.rootAbs g = some a ∨
  match g.kind with
  | .d64 => False
  | .d71 => absSector g 53 0 = some a
  | .d81 => absSector g 40 1 = some a ∨ ∃ b, absSector g 40 1 = some b ∧ a = b + 1
  | .dnp => 2 ≤ a ∧ a < 34

namespace Fs

variable {g : Geometry}

/-- A sector that holds file or directory data. -/
def IsDataSector (g : Geometry) (a : Nat) : Prop := a < g.numSectors ∧ ¬ IsBamSector g a

/-- The same data, wherever the window is. -/
def SameView (g : Geometry) (fs fs' : Fs) : Prop :=
  ∀ a, IsDataSector g a → fs'.view a = fs.view a

theorem SameView.refl (fs : Fs) : SameView g fs fs := fun _ _ => rfl

/-- The window is on the image, and clean it agrees with the medium. -/
structure Coherent (g : Geometry) (fs : Fs) : Prop where
  inRange : ∀ a, fs.currentSector = some a → a < g.numSectors
  open_of_dirty : fs.dirty = true → ∃ a, fs.currentSector = some a
  clean : fs.dirty = false → ∀ a, fs.currentSector = some a → IsDataSector g a →
    fs.sectBuffer = fs.disk a

/-- Everything but the medium and the window. -/
structure SameBam (fs fs' : Fs) : Prop where
  cell : fs'.bam.cell = fs.bam.cell
  bamValid : fs'.bam.regs.bamValid = fs.bam.regs.bamValid
  rootValid : fs'.rootValid = fs.rootValid
  writable : fs'.writable = fs.writable

theorem SameBam.refl (fs : Fs) : SameBam fs fs := ⟨rfl, rfl, rfl, rfl⟩

theorem view_current {fs : Fs} {a : Nat} (h : fs.currentSector = some a) :
    fs.view a = fs.sectBuffer := if_pos h

theorem view_other {fs : Fs} {a : Nat} (h : fs.currentSector ≠ some a) :
    fs.view a = fs.disk a := if_neg h

/-- A coherent window writes back to where its data is seen. -/
theorem Coherent.disk_eq_view {fs : Fs} (h : Coherent g fs) (hd : fs.dirty = false) {a : Nat}
    (ha : IsDataSector g a) : fs.disk a = fs.view a := by
  by_cases hc : fs.currentSector = some a
  · rw [view_current hc, h.clean hd a hc ha]
  · rw [view_other hc]

/-- Writing a dirty window back. -/
theorem writeBack_spec {fs : Fs} (h : Coherent g fs) :
    ∃ fs', (if fs.dirty then fs.prtWrite g fs.sectBuffer fs.currentSector else some fs)
        = some fs' ∧ fs'.currentSector = fs.currentSector ∧
      fs'.sectBuffer = fs.sectBuffer ∧ fs'.dirty = fs.dirty ∧ fs'.bam = fs.bam ∧
      fs'.rootValid = fs.rootValid ∧ fs'.writable = fs.writable ∧
      ∀ a, IsDataSector g a → fs'.disk a = fs.view a := by
  cases hd : fs.dirty with
  | false =>
      refine ⟨fs, if_neg (by decide), rfl, rfl, hd, rfl, rfl, rfl, ?_⟩
      exact fun a ha => h.disk_eq_view hd ha
  | true =>
      obtain ⟨c, hc⟩ := h.open_of_dirty hd
      refine ⟨{ fs with disk := Function.update fs.disk c fs.sectBuffer }, ?_, rfl, rfl, hd,
        rfl, rfl, rfl, ?_⟩
      · rw [if_pos rfl, hc, prtWrite, if_pos (h.inRange c hc), hc]
      · intro a _
        by_cases ha : a = c
        · subst ha
          rw [view_current hc]
          exact Function.update_self ..
        · rw [view_other (by rw [hc]; exact fun h => ha (Option.some.inj h).symm)]
          exact Function.update_of_ne ha ..

/-- `move_window` to a sector of the image. -/
theorem moveWindow_spec {fs : Fs} (h : Coherent g fs) {a : Nat} (ha : a < g.numSectors) :
    ∃ fs', fs.moveWindow g (some a) = (.ok, fs') ∧ fs'.currentSector = some a ∧
      Coherent g fs' ∧ SameView g fs fs' ∧ SameBam fs fs' ∧
      (IsDataSector g a → fs'.sectBuffer = fs.view a) := by
  by_cases hc : fs.currentSector = some a
  · refine ⟨fs, ?_, hc, h, SameView.refl fs, SameBam.refl fs, fun _ => (view_current hc).symm⟩
    rw [moveWindow, if_pos hc]
  · obtain ⟨fs₁, hw, hcur, -, -, hbam, hrv, hwr, hdisk⟩ := writeBack_spec h
    refine ⟨{ fs₁ with sectBuffer := fs₁.disk a, currentSector := some a, dirty := false },
      ?_, rfl, ⟨?_, ?_, ?_⟩, ?_, ⟨by rw [hbam], by rw [hbam], hrv, hwr⟩, fun hd => hdisk a hd⟩
    · rw [moveWindow, if_neg hc, hw]
      dsimp only
      rw [prtRead, if_pos ha]
    · rintro b hb
      cases hb
      exact ha
    · exact fun hd => nomatch hd
    · rintro - b hb -
      cases hb
      rfl
    · intro b hb
      by_cases hba : a = b
      · subst hba
        exact (view_current rfl).trans (hdisk a hb)
      · exact (view_other (fun h => hba (Option.some.inj h))).trans (hdisk b hb)

/-! ## Writing the BAM back -/

/-- What a step of `sync` may do: it writes BAM sectors only. -/
structure Synced (g : Geometry) (fs fs' : Fs) : Prop where
  currentSector : fs'.currentSector = fs.currentSector
  sectBuffer : fs'.sectBuffer = fs.sectBuffer
  clean : fs'.dirty = false
  disk : ∀ a, IsDataSector g a → fs'.disk a = fs.view a
  sameBam : SameBam fs fs'

theorem Synced.sameView {fs fs' : Fs} (h : Synced g fs fs') : SameView g fs fs' := by
  intro a ha
  by_cases hc : fs.currentSector = some a
  · rw [view_current hc, view_current (h.currentSector.trans hc), h.sectBuffer]
  · rw [view_other (by rw [h.currentSector]; exact hc), h.disk a ha]

theorem Synced.coherent {fs fs' : Fs} (h : Synced g fs fs') (hc : Coherent g fs) :
    Coherent g fs' where
  inRange := fun a ha => hc.inRange a (h.currentSector ▸ ha)
  open_of_dirty := by
    intro hd
    rw [h.clean] at hd
    exact nomatch hd
  clean := by
    intro _ a ha hdata
    rw [h.sectBuffer, h.disk a hdata, view_current (h.currentSector ▸ ha)]

/-- A BAM sector written on top of a synced state. -/
theorem Synced.prtWrite {fs fs₁ fs₂ : Fs} (h : Synced g fs fs₁) {b : Block} {o : Option Nat}
    (hx : fs₁.prtWrite g b o = some fs₂) (hbam : ∀ a, o = some a → IsBamSector g a) :
    Synced g fs fs₂ := by
  cases o with
  | none => exact nomatch hx
  | some a =>
      rw [Fs.prtWrite] at hx
      split at hx
      · cases hx
        refine ⟨h.currentSector, h.sectBuffer, h.clean, ?_,
          ⟨h.sameBam.cell, h.sameBam.bamValid, h.sameBam.rootValid, h.sameBam.writable⟩⟩
        intro c hc
        have hne : c ≠ a := by
          rintro rfl
          exact hc.2 (hbam _ rfl)
        exact (Function.update_of_ne hne ..).trans (h.disk c hc)
      · exact nomatch hx

theorem Synced.prtWrite2 {fs fs₁ fs₂ : Fs} (h : Synced g fs fs₁) {b b' : Block} {o : Option Nat}
    (hx : fs₁.prtWrite2 g b b' o = some fs₂)
    (hbam : ∀ a, o = some a → IsBamSector g a ∧ IsBamSector g (a + 1)) :
    Synced g fs fs₂ := by
  cases o with
  | none => exact nomatch hx
  | some a =>
      rw [Fs.prtWrite2] at hx
      split at hx
      · cases hx
        refine ⟨h.currentSector, h.sectBuffer, h.clean, ?_,
          ⟨h.sameBam.cell, h.sameBam.bamValid, h.sameBam.rootValid, h.sameBam.writable⟩⟩
        intro c hc
        have hne : c ≠ a := by
          rintro rfl
          exact hc.2 (hbam _ rfl).1
        have hne' : c ≠ a + 1 := by
          rintro rfl
          exact hc.2 (hbam _ rfl).2
        exact ((Function.update_of_ne hne' ..).trans (Function.update_of_ne hne ..)).trans
          (h.disk c hc)
      · exact nomatch hx

/-- Clearing a flag of the BAM. -/
theorem Synced.regs {fs fs₁ : Fs} (h : Synced g fs fs₁) (r : Regs)
    (hr : r.bamValid = fs₁.bam.regs.bamValid) :
    Synced g fs { fs₁ with bam.regs := r } :=
  ⟨h.currentSector, h.sectBuffer, h.clean, h.disk,
    ⟨h.sameBam.cell, hr.trans h.sameBam.bamValid, h.sameBam.rootValid, h.sameBam.writable⟩⟩

theorem syncBase_spec {fs : Fs} (h : Coherent g fs) : Synced g fs (fs.syncBase g).2 := by
  obtain ⟨fs₁, hw, hcur, hbuf, -, hbam, hrv, hwr, hdisk⟩ := writeBack_spec h
  have h₂ : Synced g fs { fs₁ with dirty := false } :=
    ⟨hcur, hbuf, rfl, hdisk, ⟨by rw [hbam], by rw [hbam], hrv, hwr⟩⟩
  rw [syncBase, hw]
  dsimp only
  split
  · split
    · exact h₂
    · next fs₃ hx =>
        exact (h₂.prtWrite hx fun a ha => Or.inl ha).regs _ rfl
  · exact h₂

theorem syncD71_spec (hk : g.kind = .d71) {fs : Fs} (h : Coherent g fs) :
    Synced g fs (fs.syncD71 g).2 := by
  have hbase := syncBase_spec h
  rw [syncD71]
  cases hx : fs.syncBase g with
  | mk res fs₁ =>
      rw [hx] at hbase
      cases res
      case ok =>
        dsimp only
        split
        · split
          · exact hbase
          · next fs₂ hw =>
              refine (hbase.prtWrite hw fun a ha => Or.inr ?_).regs _ rfl
              rw [hk]
              exact ha
        · exact hbase
      all_goals exact hbase

theorem syncD81_spec (hk : g.kind = .d81) {fs : Fs} (h : Coherent g fs) :
    Synced g fs (fs.syncD81 g).2 := by
  have hbase := syncBase_spec h
  rw [syncD81]
  cases hx : fs.syncBase g with
  | mk res fs₁ =>
      rw [hx] at hbase
      cases res
      case ok =>
        dsimp only
        split
        · split
          · exact hbase
          · next fs₂ hw =>
              refine (hbase.prtWrite2 hw fun a ha => ?_).regs _ rfl
              unfold IsBamSector
              rw [hk]
              exact ⟨Or.inr (Or.inl ha), Or.inr (Or.inr ⟨a, ha, rfl⟩)⟩
        · exact hbase
      all_goals exact hbase

theorem syncDnpLoop_spec (hk : g.kind = .dnp) (fres : FResult) {fs : Fs} :
    ∀ (left i dirty : Nat) (fs₁ : Fs), i + 2 * left = 32 → Synced g fs fs₁ →
      Synced g fs (fs₁.syncDnpLoop g fres left i dirty).2 := by
  intro left
  induction left with
  | zero => intro i dirty fs₁ _ h; exact h.regs _ rfl
  | succ left ih =>
      intro i dirty fs₁ hi h
      rw [syncDnpLoop]
      split
      · exact h.regs _ rfl
      · split
        · exact h
        · next fs₂ hw =>
            refine ih (i + 2) _ fs₂ (by omega) ?_
            split at hw
            · refine h.prtWrite2 hw fun a ha => ?_
              cases ha
              unfold IsBamSector
              rw [hk]
              exact ⟨Or.inr (by dsimp only; omega), Or.inr (by dsimp only; omega)⟩
            · cases hw
              exact h

/-- `sync` writes the window and the BAM back and changes nothing else. -/
theorem sync_spec {fs : Fs} (h : Coherent g fs) : Synced g fs (fs.sync g).2 := by
  rw [sync]
  cases hk : g.kind with
  | d64 => exact syncBase_spec h
  | d71 => exact syncD71_spec hk h
  | d81 => exact syncD81_spec hk h
  | dnp => exact syncDnpLoop_spec hk _ 16 0 _ _ (by decide) (syncBase_spec h)

/-! ## Editing the window -/

theorem view_edit {fs : Fs} {f : Block → Block} {a : Nat} (ha : fs.currentSector = some a) :
    (fs.edit f).view a = f fs.sectBuffer := if_pos ha

theorem view_edit_other {fs : Fs} {f : Block → Block} {a : Nat}
    (ha : fs.currentSector ≠ some a) : (fs.edit f).view a = fs.view a :=
  (if_neg ha).trans (if_neg ha).symm

/-! ## Between two syncs -/

/-- The window is on the image, and clean it is a copy of its sector.  Unlike
    `Coherent` this holds of the sectors of the BAM too, until `sync` writes
    them behind the window. -/
structure Exact (g : Geometry) (fs : Fs) : Prop where
  inRange : ∀ a, fs.currentSector = some a → a < g.numSectors
  open_of_dirty : fs.dirty = true → ∃ a, fs.currentSector = some a
  clean : fs.dirty = false → ∀ a, fs.currentSector = some a → fs.sectBuffer = fs.disk a

theorem Exact.coherent {fs : Fs} (h : Exact g fs) : Coherent g fs where
  inRange := h.inRange
  open_of_dirty := h.open_of_dirty
  clean := fun hd a ha _ => h.clean hd a ha

theorem Exact.edit {fs : Fs} (h : Exact g fs) {a : Nat} (ha : fs.currentSector = some a)
    (f : Block → Block) : Exact g (fs.edit f) where
  inRange := h.inRange
  open_of_dirty := fun _ => ⟨a, ha⟩
  clean := fun hd => nomatch hd

/-- The map can be changed behind the window. -/
theorem Exact.withBam {fs : Fs} (h : Exact g fs) (m : Bam) : Exact g { fs with bam := m } :=
  ⟨h.inRange, h.open_of_dirty, h.clean⟩

/-- `move_window` keeps what every sector is seen to hold. -/
theorem Exact.moveWindow {fs : Fs} (h : Exact g fs) {a : Nat} (ha : a < g.numSectors) :
    ∃ fs', fs.moveWindow g (some a) = (.ok, fs') ∧ Exact g fs' ∧ fs'.currentSector = some a ∧
      fs'.sectBuffer = fs.view a ∧ fs'.view = fs.view ∧ fs'.bam = fs.bam ∧
      fs'.rootValid = fs.rootValid ∧ fs'.writable = fs.writable := by
  by_cases hc : fs.currentSector = some a
  · refine ⟨fs, ?_, h, hc, (view_current hc).symm, rfl, rfl, rfl, rfl⟩
    rw [Fs.moveWindow, if_pos hc]
  · obtain ⟨fs₁, hw, hbam, hrv, hwr, hdisk⟩ :
        ∃ fs₁, (if fs.dirty then fs.prtWrite g fs.sectBuffer fs.currentSector else some fs)
          = some fs₁ ∧ fs₁.bam = fs.bam ∧ fs₁.rootValid = fs.rootValid ∧
          fs₁.writable = fs.writable ∧ fs₁.disk = fs.view := by
      cases hd : fs.dirty with
      | false =>
          refine ⟨fs, if_neg (by decide), rfl, rfl, rfl, ?_⟩
          funext b
          by_cases hb : fs.currentSector = some b
          · rw [view_current hb, h.clean hd b hb]
          · rw [view_other hb]
      | true =>
          obtain ⟨c, hcur⟩ := h.open_of_dirty hd
          refine ⟨{ fs with disk := Function.update fs.disk c fs.sectBuffer }, ?_, rfl, rfl,
            rfl, ?_⟩
          · rw [if_pos rfl, hcur, prtWrite, if_pos (h.inRange c hcur), hcur]
          · funext b
            by_cases hb : b = c
            · subst hb
              rw [view_current hcur]
              exact Function.update_self ..
            · rw [view_other (by rw [hcur]; exact fun h => hb (Option.some.inj h).symm)]
              exact Function.update_of_ne hb ..
    refine ⟨{ fs₁ with sectBuffer := fs₁.disk a, currentSector := some a, dirty := false },
      ?_, ⟨?_, (fun hd => nomatch hd), ?_⟩, rfl, ?_, ?_, hbam, hrv, hwr⟩
    · rw [Fs.moveWindow, if_neg hc, hw]
      dsimp only
      rw [prtRead, if_pos ha]
    · rintro b hb
      cases hb
      exact ha
    · rintro - b hb
      cases hb
      rfl
    · rw [hdisk]
    · funext b
      by_cases hb : a = b
      · subst hb
        rw [view_current rfl, hdisk]
      · rw [view_other (fun h => hb (Option.some.inj h))]
        exact congrFun hdisk b

/-! ## Only looking -/

/-- Nothing is pending: the window is a copy of the sector it is on. -/
structure Settled (g : Geometry) (fs : Fs) : Prop where
  clean : fs.dirty = false
  inView : ∀ a, fs.currentSector = some a → a < g.numSectors ∧ fs.sectBuffer = fs.disk a

theorem Settled.exact {fs : Fs} (h : Settled g fs) : Exact g fs where
  inRange := fun a ha => (h.inView a ha).1
  open_of_dirty := by
    intro hd
    rw [h.clean] at hd
    exact nomatch hd
  clean := fun _ a ha => (h.inView a ha).2

/-- The window moved, and that is all. -/
structure Moved (g : Geometry) (fs fs' : Fs) : Prop where
  settled : Settled g fs'
  disk : fs'.disk = fs.disk
  bam : fs'.bam = fs.bam
  rootValid : fs'.rootValid = fs.rootValid
  writable : fs'.writable = fs.writable

theorem Moved.refl {fs : Fs} (h : Settled g fs) : Moved g fs fs := ⟨h, rfl, rfl, rfl, rfl⟩

theorem Moved.trans {fs₁ fs₂ fs₃ : Fs} (h₁ : Moved g fs₁ fs₂) (h₂ : Moved g fs₂ fs₃) :
    Moved g fs₁ fs₃ :=
  ⟨h₂.settled, h₂.disk.trans h₁.disk, h₂.bam.trans h₁.bam,
    h₂.rootValid.trans h₁.rootValid, h₂.writable.trans h₁.writable⟩

/-- `move_window` with nothing pending. -/
theorem Settled.moveWindow {fs : Fs} (h : Settled g fs) {a : Nat} (ha : a < g.numSectors) :
    ∃ fs', fs.moveWindow g (some a) = (.ok, fs') ∧ Moved g fs fs' ∧
      fs'.sectBuffer = fs.disk a ∧ fs'.currentSector = some a := by
  by_cases hc : fs.currentSector = some a
  · refine ⟨fs, ?_, Moved.refl h, (h.inView a hc).2, hc⟩
    rw [Fs.moveWindow, if_pos hc]
  · refine ⟨{ fs with sectBuffer := fs.disk a, currentSector := some a, dirty := false }, ?_,
      ⟨⟨rfl, ?_⟩, rfl, rfl, rfl, rfl⟩, rfl, rfl⟩
    · rw [Fs.moveWindow, if_neg hc, h.clean]
      show (match fs.prtRead g a with
        | none => _
        | some b => _) = _
      rw [prtRead, if_pos ha]
    · rintro b hb
      cases hb
      exact ⟨ha, rfl⟩

end Fs

/-! ## Links -/

/-- The sector a block links to: none at the end of a chain, and none for a bad
    link. -/
def linkOf (g : Geometry) (b : Block) : Option Nat :=
  absSector g (b.get 0).toNat (b.get 1).toNat

/-- The links of an image. -/
def links (g : Geometry) (content : Nat → Block) (a : Nat) : Option Nat := linkOf g (content a)

theorem linkOf_lt {g : Geometry} {b : Block} {a : Nat} (h : linkOf g b = some a) :
    a < g.numSectors := absSector_lt h

theorem linkOf_end {g : Geometry} {b : Block} (h : b.get 0 = 0) : linkOf g b = none := by
  rw [linkOf, h]
  exact absSector_zero g _

/-- Over the sectors of an image, a chain of links ends if and only if it never
    comes back to a sector. -/
theorem links_end_iff {g : Geometry} {content : Nat → Block} {t s : Nat} :
    (∃ m, ChainWalk.walk (links g content) (absSector g t s) m = none) ↔
      ChainWalk.Acyclic (links g content) (absSector g t s) := by
  have hnext : ∀ a b, links g content a = some b → b < g.numSectors := fun a b h => linkOf_lt h
  rw [← ChainWalk.chained_iff_acyclic (fun a h => absSector_lt h) hnext]
  constructor
  · rintro ⟨m, h⟩
    obtain ⟨as, -, has⟩ := ChainWalk.exists_chained_of_walk_none _ _ h
    exact ⟨as, has⟩
  · rintro ⟨as, has⟩
    refine ⟨as.length, ?_⟩
    rw [has.walk_eq, List.getElem?_eq_none (Nat.le_refl _)]

/-- An image that was just mounted, with nothing in the window and every sector
    allocated. -/
def mounted (disk : Nat → Block) : Fs where
  disk := disk
  sectBuffer := Buffer.zero
  currentSector := none
  dirty := false
  bam := ⟨fun _ => 0, ⟨false, false, 0, false⟩⟩
  rootValid := true
  writable := true

theorem mounted_settled (g : Geometry) (disk : Nat → Block) : (mounted disk).Settled g where
  clean := rfl
  inView := fun _ h => nomatch h

/-- Its map has no free sector. -/
theorem freeBit_mounted (k : Kind) (disk : Nat → Block) (t s : Nat) :
    freeBit k (mounted disk).bam.cell t s = false :=
  hasBit_zero (bitOf_mod_lt k s)

end CbmDisk
