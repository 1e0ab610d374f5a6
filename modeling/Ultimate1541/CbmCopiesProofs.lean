import Ultimate1541.WriteBackProofs
import Ultimate1541.CbmBamFlagProofs
import Ultimate1541.CbmSideSectorProofs

/-! # The copies a file system keeps

    A mounted CBM file system holds copies of sectors in three places: the
    window, the BAM buffers and the side sectors of open REL files.  Here they
    become buffers over a medium (`WriteBack.Cache`), and `sync` becomes
    writing back: it leaves what was written last readable, and when it
    succeeds nothing is left to be written back (`sync_flushed`). -/

namespace CbmDirect

open CbmLayout CbmBam CbmDisk CbmFile ByteBuffer Footprint Footprint.Prog WriteBack

/-! ## The copies -/

/-- A side sector in the memory of an open REL file; `base` is what it held when
    it was last read or written. -/
structure SideCopy where
  block : CachedBlock
  base : Block

/-- The copies of sectors a mounted file system keeps. -/
inductive Holder where
  | window
  | bam (b : Buf) (i : Nat)
  | side (n : Nat)
  deriving DecidableEq

/-- A mounted image in use: the file system, the side sectors of its open files,
    and what was written. -/
structure Mount where
  fs : Fs
  side : Nat → Option SideCopy
  written : Nat → Block
  stale : Holder → Prop

/-- The sectors of the BAM buffers. -/
def bamSectors : Kind → List (Buf × Nat)
  | .d64 => [(.root, 0)]
  | .d71 => [(.root, 0), (.bam2, 0)]
  | .d81 => [(.root, 0), (.bam, 0), (.bam, 1)]
  | .dnp => (.root, 0) :: (List.range 32).map fun i => (.bam, i)

/-- Where `sync` writes sector `i` of a BAM buffer. -/
def bamHome (g : Geometry) : Buf → Nat → Option Nat
  | .root, 0 => Fs.rootAbs g
  | .bam2, 0 =>
      match g.kind with
      | .d71 => absSector g 53 0
      | _ => none
  | .bam, i =>
      match g.kind with
      | .d81 => if i < 2 then (absSector g 40 1).map fun a => a + i else none
      | .dnp => if i < 32 then some (2 + i) else none
      | _ => none
  | _, _ => none

/-- The sector of the BAM buffers that belongs to a sector of the image. -/
def bamAt (g : Geometry) (a : Nat) : Option (Buf × Nat) :=
  (bamSectors g.kind).find? fun x => bamHome g x.1 x.2 = some a

/-- The sector a side sector copy was read from. -/
def SideCopy.home (g : Geometry) (c : SideCopy) : Option Nat :=
  absSector g c.block.track.toNat c.block.sector.toNat

namespace Mount

/-- The sector a copy belongs to. -/
def home (g : Geometry) (s : Mount) : Holder → Option Nat
  | .window => s.fs.currentSector
  | .bam b i => bamHome g b i
  | .side n => (s.side n).bind (SideCopy.home g)

/-- The content of a copy; what an open REL file has changed in a side sector
    is its own until it writes it. -/
def copy (s : Mount) : Holder → Block
  | .window => s.fs.sectBuffer
  | .bam b i => bufBlock s.fs.bam b i
  | .side n => ((s.side n).map SideCopy.base).getD Buffer.zero

/-- The copies the file system still has to write back. -/
def dirty (g : Geometry) (s : Mount) : Holder → Prop
  | .window => s.fs.dirty = true
  | .bam b i => bamFlag g.kind s.fs.bam.regs b i = true
  | .side _ => False

/-- The copies as buffers over the medium. -/
def cache (g : Geometry) (s : Mount) : Cache Holder Nat (Fin 256) UInt8 where
  medium := s.fs.disk
  copy := s.copy
  home := s.home g
  dirty := s.dirty g
  written := s.written
  stale := s.stale

end Mount

variable {g : Geometry}

/-! ## The sectors of the BAM -/

theorem layout_sectors_dnp (hk : g.kind = .dnp) (t : Nat) : g.layout.sectors t = 256 := by
  show g.kind.layout.sectors t = 256
  rw [hk]
  rfl

theorem absSector_dnp_lt (hk : g.kind = .dnp) {t u a : Nat} (h : absSector g t u = some a) :
    u < 256 := by
  have := (absSector_eq_some.mp h).2.1
  rwa [layout_sectors_dnp hk] at this

theorem rootAbs_d81 (hk : g.kind = .d81) {a b : Nat} (h : Fs.rootAbs g = some a)
    (h' : absSector g 40 1 = some b) : b = a + 1 := by
  rw [Fs.rootAbs, hk] at h
  obtain ⟨-, -, ha, -⟩ := absSector_eq_some.mp h
  obtain ⟨-, -, hb, -⟩ := absSector_eq_some.mp h'
  have hroot : a = g.layout.trackStart 40 + 0 := ha
  omega

theorem rootAbs_dnp (hk : g.kind = .dnp) {a : Nat} (h : Fs.rootAbs g = some a) : a = 1 := by
  rw [Fs.rootAbs, hk] at h
  obtain ⟨-, -, ha, -⟩ := absSector_eq_some.mp h
  rw [ha]
  rfl

/-- The sectors of the BAM buffers, by the kind of image. -/
theorem bamHome_cases {b : Buf} {i a : Nat} (h : bamHome g b i = some a) :
    (b = .root ∧ i = 0 ∧ Fs.rootAbs g = some a) ∨
    (g.kind = .d71 ∧ b = .bam2 ∧ i = 0 ∧ absSector g 53 0 = some a) ∨
    (g.kind = .d81 ∧ b = .bam ∧ i < 2 ∧ ∃ c, absSector g 40 1 = some c ∧ c + i = a) ∨
    (g.kind = .dnp ∧ b = .bam ∧ i < 32 ∧ a = 2 + i) := by
  cases b with
  | root =>
      cases i with
      | zero => exact Or.inl ⟨rfl, rfl, h⟩
      | succ i => exact nomatch h
  | bam2 =>
      cases i with
      | zero =>
          cases hk : g.kind with
          | d71 =>
              simp only [bamHome, hk] at h
              exact Or.inr (Or.inl ⟨rfl, rfl, rfl, h⟩)
          | d64 | d81 | dnp =>
              simp only [bamHome, hk] at h
              exact nomatch h
      | succ i => exact nomatch h
  | bam =>
      cases hk : g.kind with
      | d81 =>
          simp only [bamHome, hk] at h
          split at h
          · next hi =>
              obtain ⟨c, hc, hci⟩ := Option.map_eq_some_iff.mp h
              exact Or.inr (Or.inr (Or.inl ⟨rfl, rfl, hi, c, hc, hci⟩))
          · exact nomatch h
      | dnp =>
          simp only [bamHome, hk] at h
          split at h
          · next hi =>
              cases h
              exact Or.inr (Or.inr (Or.inr ⟨rfl, rfl, hi, rfl⟩))
          · exact nomatch h
      | d64 | d71 =>
          simp only [bamHome, hk] at h
          exact nomatch h

/-- No two BAM sectors share a sector of the image. -/
theorem bamHome_inj {b b' : Buf} {i i' a : Nat} (h : bamHome g b i = some a)
    (h' : bamHome g b' i' = some a) : b = b' ∧ i = i' := by
  have hroot53 : g.kind = .d71 → Fs.rootAbs g = some a → absSector g 53 0 ≠ some a := by
    intro hk hr hb
    rw [Fs.rootAbs, hk] at hr
    exact absurd (absSector_inj hr hb).1 (by decide)
  rcases bamHome_cases h with ⟨rfl, rfl, hr⟩ | ⟨hk, rfl, rfl, hb⟩ | ⟨hk, rfl, hi, c, hc, rfl⟩ |
    ⟨hk, rfl, hi, rfl⟩ <;>
    rcases bamHome_cases h' with ⟨rfl, rfl, hr'⟩ | ⟨hk', rfl, rfl, hb'⟩ |
      ⟨hk', rfl, hi', c', hc', hci⟩ | ⟨hk', rfl, hi', ha⟩
  case inl.inl => exact ⟨rfl, rfl⟩
  case inl.inr.inl => exact absurd hb' (hroot53 hk' hr)
  case inl.inr.inr.inl =>
    have := rootAbs_d81 hk' hr hc'
    omega
  case inl.inr.inr.inr =>
    have := rootAbs_dnp hk' hr
    omega
  case inr.inl.inl => exact absurd hb (hroot53 hk hr')
  case inr.inl.inr.inl => exact ⟨rfl, rfl⟩
  case inr.inr.inl.inl =>
    have := rootAbs_d81 hk hr' hc
    omega
  case inr.inr.inl.inr.inr.inl =>
    rw [hc] at hc'
    cases hc'
    exact ⟨rfl, by omega⟩
  case inr.inr.inr.inl =>
    have := rootAbs_dnp hk hr'
    omega
  case inr.inr.inr.inr.inr.inr => exact ⟨rfl, by omega⟩
  all_goals
    rw [hk] at hk'
    exact nomatch hk'
theorem mem_bamSectors {b : Buf} {i a : Nat} (h : bamHome g b i = some a) :
    (b, i) ∈ bamSectors g.kind := by
  rcases bamHome_cases h with ⟨rfl, rfl, -⟩ | ⟨hk, rfl, rfl, -⟩ | ⟨hk, rfl, hi, -⟩ |
    ⟨hk, rfl, hi, -⟩
  · cases g.kind <;> exact List.mem_cons_self ..
  · rw [hk]
    decide
  · rw [hk]
    have : i = 0 ∨ i = 1 := by omega
    rcases this with rfl | rfl <;> decide
  · rw [hk]
    exact List.mem_cons_of_mem _ (List.mem_map.mpr ⟨i, List.mem_range.mpr hi, rfl⟩)

theorem bamAt_eq {b : Buf} {i a : Nat} (h : bamHome g b i = some a) :
    bamAt g a = some (b, i) := by
  rw [bamAt]
  cases hf : (bamSectors g.kind).find? fun x => bamHome g x.1 x.2 = some a with
  | none =>
      have := List.find?_eq_none.mp hf (b, i) (mem_bamSectors h)
      simp [h] at this
  | some x =>
      have hx : bamHome g x.1 x.2 = some a := by simpa using List.find?_some hf
      obtain ⟨rfl, rfl⟩ := bamHome_inj h hx
      rfl

theorem bamHome_of_bamAt {b : Buf} {i a : Nat} (h : bamAt g a = some (b, i)) :
    bamHome g b i = some a := by
  simpa using List.find?_some h

/-! ## Writing back -/

/-- What writing copies back does: what was written last stays readable. -/
structure Flushed (g : Geometry) (s : Mount) (fs : Fs) : Prop where
  current : (Mount.cache g { s with fs := fs }).Current
  forward : (s.cache g).Forward (Mount.cache g { s with fs := fs })
  currentSector : fs.currentSector = s.fs.currentSector

theorem Flushed.refl {s : Mount} (hc : (s.cache g).Current) : Flushed g s s.fs :=
  ⟨hc, Cache.Forward.refl _, rfl⟩

/-- A sector that is as written stays so. -/
theorem Flushed.keeps {s : Mount} {fs₁ fs₂ : Fs} (h₂ : Flushed g { s with fs := fs₁ } fs₂) {a : Nat}
    (ha : fs₁.disk a = s.written a) : fs₂.disk a = s.written a := by
  funext i
  rcases h₂.forward a i with h | h
  · exact h.trans (congrFun ha i)
  · exact h

theorem Flushed.trans {s : Mount} {fs₁ fs₂ : Fs} (h₁ : Flushed g s fs₁)
    (h₂ : Flushed g { s with fs := fs₁ } fs₂) : Flushed g s fs₂ where
  current := h₂.current
  forward := h₁.forward.trans h₂.forward rfl
  currentSector := h₂.currentSector.trans h₁.currentSector

/-- A dirty copy is written to its sector. -/
theorem flushed_prtWrite {s : Mount} (hc : (s.cache g).Current) {h : Holder}
    (hd : s.dirty g h) {fs : Fs} (hw : s.fs.prtWrite g (s.copy h) (s.home g h) = some fs) :
    Flushed g s fs ∧ fs = { s.fs with disk := fs.disk } ∧
      ∀ a, s.home g h = some a → fs.disk a = s.written a := by
  cases ho : s.home g h with
  | none =>
      rw [ho] at hw
      cases hw
  | some a =>
      rw [ho, Fs.prtWrite] at hw
      split at hw
      · cases hw
        obtain ⟨h1, h2⟩ := hc.flush hd ho
        refine ⟨⟨h1, h2, rfl⟩, rfl, fun b hb => ?_⟩
        cases hb
        exact (Function.update_self ..).trans (hc.copy_eq hd ho)
      · cases hw

/-- Two dirty copies of neighbouring sectors are written in one go. -/
theorem flushed_prtWrite2 {s : Mount} (hc : (s.cache g).Current) {h k : Holder}
    (hd : s.dirty g h) (hd' : s.dirty g k) {a : Nat} (ha : s.home g h = some a)
    (ha' : s.home g k = some (a + 1)) {fs : Fs}
    (hw : s.fs.prtWrite2 g (s.copy h) (s.copy k) (some a) = some fs) :
    Flushed g s fs ∧ fs = { s.fs with disk := fs.disk } ∧
      fs.disk a = s.written a ∧ fs.disk (a + 1) = s.written (a + 1) := by
  rw [Fs.prtWrite2] at hw
  split at hw
  · cases hw
    obtain ⟨h1, h2⟩ := hc.flush hd ha
    obtain ⟨h3, h4⟩ := h1.flush (h := k) hd' ha'
    refine ⟨⟨h3, h2.trans h4 rfl, rfl⟩, rfl, ?_, ?_⟩
    · refine (Function.update_of_ne (by omega) ..).trans ?_
      exact (Function.update_self ..).trans (hc.copy_eq hd ha)
    · exact (Function.update_self ..).trans (hc.copy_eq hd' ha')
  · cases hw

/-- The window flag goes down where the medium is as written. -/
theorem flushed_clean {s : Mount} (hc : (s.cache g).Current)
    (hup : ∀ a, s.fs.currentSector = some a → s.fs.disk a = s.written a) :
    Flushed g s { s.fs with dirty := false } := by
  refine ⟨hc.clean (fun h hd => ?_) fun h a hd hn ha => ?_, fun a i => Or.inl rfl, rfl⟩
  · cases h with
    | window => exact nomatch hd
    | bam b i => exact hd
    | side n => exact hd
  · cases h with
    | window => exact (hup a ha).trans (hc.copy_eq hd ha).symm
    | bam b i => exact absurd hd hn
    | side n => exact absurd hd hn

/-- So do flags of the BAM. -/
theorem flushed_unflag {s : Mount} (hc : (s.cache g).Current) (r : Regs)
    (hle : ∀ b i, bamFlag g.kind r b i = true → bamFlag g.kind s.fs.bam.regs b i = true)
    (hup : ∀ b i a, bamFlag g.kind s.fs.bam.regs b i = true → bamFlag g.kind r b i ≠ true →
      bamHome g b i = some a → s.fs.disk a = s.written a) :
    Flushed g s { s.fs with bam := { s.fs.bam with regs := r } } := by
  refine ⟨hc.clean (fun h hd => ?_) fun h a hd hn ha => ?_, fun a i => Or.inl rfl, rfl⟩
  · cases h with
    | window => exact hd
    | bam b i => exact hle b i hd
    | side n => exact hd
  · cases h with
    | window => exact absurd hd hn
    | bam b i => exact (hup b i a hd hn ha).trans (hc.copy_eq hd ha).symm
    | side n => exact absurd hd hn

/-- The window is written back if it is dirty. -/
theorem flushed_writeBack {s : Mount} (hc : (s.cache g).Current) {fs : Fs}
    (hw : (if s.fs.dirty then s.fs.prtWrite g s.fs.sectBuffer s.fs.currentSector
      else some s.fs) = some fs) :
    Flushed g s fs ∧ fs = { s.fs with disk := fs.disk } ∧
      Flushed g s { fs with dirty := false } := by
  cases hd : s.fs.dirty with
  | false =>
      rw [hd, if_neg (by decide)] at hw
      cases hw
      refine ⟨Flushed.refl hc, rfl, ?_⟩
      have hsame : { s.fs with dirty := false } = s.fs := by
        rw [← hd]
      rw [hsame]
      exact Flushed.refl hc
  | true =>
      rw [hd, if_pos rfl] at hw
      have hd' : s.dirty g .window := hd
      obtain ⟨h1, h2, h3⟩ := flushed_prtWrite hc hd' hw
      refine ⟨h1, h2, h1.trans (flushed_clean h1.current fun a ha => h3 a ?_)⟩
      exact h1.currentSector.symm.trans ha

/-! ## Syncing -/

/-- `FileSystemCBM::sync` writes the window and the root sector. -/
theorem syncBase_flushed {s : Mount} (hc : (s.cache g).Current) :
    Flushed g s (s.fs.syncBase g).2 ∧
      ((s.fs.syncBase g).1 = .ok → (s.fs.syncBase g).2.dirty = false ∧
        (s.fs.syncBase g).2.bam.regs.rootDirty = false) := by
  rw [Fs.syncBase]
  cases hw : (if s.fs.dirty then s.fs.prtWrite g s.fs.sectBuffer s.fs.currentSector
      else some s.fs) with
  | none => exact ⟨Flushed.refl hc, fun h => by cases h⟩
  | some fs₁ =>
      obtain ⟨-, -, h₁⟩ := flushed_writeBack hc hw
      dsimp only
      split
      · next hroot =>
          split
          · exact ⟨h₁, fun h => by cases h⟩
          · next fs₃ hx =>
              obtain ⟨h₂, hfs, h3⟩ := flushed_prtWrite (s := { s with
                fs := { fs₁ with dirty := false } }) h₁.current (h := .bam .root 0) hroot hx
              rw [hfs] at h₂ h3 ⊢
              refine ⟨h₁.trans (h₂.trans (flushed_unflag h₂.current _ (fun b i hh => ?_)
                fun b i a hh hn ha => ?_)), fun _ => ⟨rfl, rfl⟩⟩
              · cases b with
                | root => cases hh
                | bam2 => exact hh
                | bam => exact hh
              · cases b with
                | root =>
                    cases i with
                    | zero => exact h3 a ha
                    | succ i => cases ha
                | bam2 => exact absurd hh hn
                | bam => exact absurd hh hn
      · next hroot => exact ⟨h₁, fun _ => ⟨rfl, Bool.eq_false_iff.mpr hroot⟩⟩

theorem syncD71_flushed (hk : g.kind = .d71) {s : Mount} (hc : (s.cache g).Current) :
    Flushed g s (s.fs.syncD71 g).2 ∧
      ((s.fs.syncD71 g).1 = .ok → (s.fs.syncD71 g).2.dirty = false ∧
        (s.fs.syncD71 g).2.bam.regs.rootDirty = false ∧
        (s.fs.syncD71 g).2.bam.regs.bam2Dirty = false) := by
  obtain ⟨h₁, hok⟩ := syncBase_flushed hc
  rw [Fs.syncD71]
  cases hx : s.fs.syncBase g with
  | mk res fs₁ =>
      rw [hx] at h₁ hok
      cases res
      case ok =>
        obtain ⟨hd, hr⟩ := hok rfl
        dsimp only at h₁ hd hr ⊢
        split
        · next hbam =>
            split
            · exact ⟨h₁, fun h => by cases h⟩
            · next fs₂ hw =>
                have hhome : Mount.home g { s with fs := fs₁ } (.bam .bam2 0)
                    = absSector g 53 0 := by
                  simp only [Mount.home, bamHome, hk]
                obtain ⟨h₂, hfs, h3⟩ := flushed_prtWrite (s := { s with fs := fs₁ }) h₁.current
                  (h := .bam .bam2 0) hbam (by rw [hhome]; exact hw)
                rw [hfs] at h₂ h3 ⊢
                refine ⟨h₁.trans (h₂.trans (flushed_unflag h₂.current _ (fun b i hh => ?_)
                  fun b i a hh hn ha => ?_)), fun _ => ⟨hd, hr, rfl⟩⟩
                · cases b with
                  | root => exact hh
                  | bam2 => cases hh
                  | bam => exact hh
                · cases b with
                  | root => exact absurd hh hn
                  | bam2 =>
                      cases i with
                      | zero => exact h3 a ha
                      | succ i => cases ha
                  | bam => exact absurd hh hn
        · next hbam => exact ⟨h₁, fun _ => ⟨hd, hr, Bool.eq_false_iff.mpr hbam⟩⟩
      all_goals exact ⟨h₁, fun h => by cases h⟩

/-- The two BAM sectors of a D81. -/
theorem bamHome_d81 (hk : g.kind = .d81) {c : Nat} (hc : absSector g 40 1 = some c) {i : Nat}
    (hi : i < 2) : bamHome g .bam i = some (c + i) := by
  simp only [bamHome, hk, if_pos hi, hc, Option.map_some]

theorem bamFlag_d81 (hk : g.kind = .d81) {r : Regs} {i : Nat} :
    bamFlag g.kind r .bam i = true ↔ r.bamDirty ≠ 0 := by
  simp only [bamFlag, hk, decide_eq_true_eq]

theorem syncD81_flushed (hk : g.kind = .d81) {s : Mount} (hc : (s.cache g).Current) :
    Flushed g s (s.fs.syncD81 g).2 ∧
      ((s.fs.syncD81 g).1 = .ok → (s.fs.syncD81 g).2.dirty = false ∧
        (s.fs.syncD81 g).2.bam.regs.rootDirty = false ∧
        (s.fs.syncD81 g).2.bam.regs.bamDirty = 0) := by
  obtain ⟨h₁, hok⟩ := syncBase_flushed hc
  rw [Fs.syncD81]
  cases hx : s.fs.syncBase g with
  | mk res fs₁ =>
      rw [hx] at h₁ hok
      cases res
      case ok =>
        obtain ⟨hd, hr⟩ := hok rfl
        dsimp only at h₁ hd hr ⊢
        split
        · next hbam =>
            split
            · exact ⟨h₁, fun h => by cases h⟩
            · next fs₂ hw =>
                cases ho : absSector g 40 1 with
                | none =>
                    rw [ho] at hw
                    cases hw
                | some c =>
                    rw [ho] at hw
                    obtain ⟨h₂, hfs, h3, h4⟩ := flushed_prtWrite2 (s := { s with fs := fs₁ })
                      (h := .bam .bam 0) (k := .bam .bam 1) h₁.current
                      ((bamFlag_d81 hk).mpr hbam) ((bamFlag_d81 hk).mpr hbam)
                      (bamHome_d81 hk ho (by decide)) (bamHome_d81 hk ho (by decide)) hw
                    rw [hfs] at h₂ h3 h4 ⊢
                    refine ⟨h₁.trans (h₂.trans (flushed_unflag h₂.current _ (fun b i hh => ?_)
                      fun b i a hh hn ha => ?_)), fun _ => ⟨hd, hr, rfl⟩⟩
                    · cases b with
                      | root => exact hh
                      | bam2 => exact hh
                      | bam => exact absurd rfl ((bamFlag_d81 hk).mp hh)
                    · cases b with
                      | root => exact absurd hh hn
                      | bam2 => exact absurd hh hn
                      | bam =>
                          have hi : i < 2 := by
                            by_contra hi
                            simp [bamHome, hk, hi] at ha
                          rw [bamHome_d81 hk ho hi] at ha
                          cases ha
                          have : i = 0 ∨ i = 1 := by omega
                          rcases this with rfl | rfl
                          · exact h3
                          · exact h4
        · next hbam => exact ⟨h₁, fun _ => ⟨hd, hr, of_not_not hbam⟩⟩
      all_goals exact ⟨h₁, fun h => by cases h⟩

/-! ## The loop of DNP -/

theorem bamFlag_dnp (hk : g.kind = .dnp) {r : Regs} {i : Nat} :
    bamFlag g.kind r .bam i = true ↔
      r.bamDirty.testBit (2 * (i / 2)) = true ∨ r.bamDirty.testBit (2 * (i / 2) + 1) = true := by
  simp only [bamFlag, hk, Bool.or_eq_true]

theorem bamHome_dnp (hk : g.kind = .dnp) {i : Nat} (hi : i < 32) :
    bamHome g .bam i = some (2 + i) := by
  simp only [bamHome, hk, if_pos hi]

/-- The flags of the pair a round looks at. -/
theorem bamFlag_shift (hk : g.kind = .dnp) {r : Regs} {i j : Nat} (hi : i % 2 = 0)
    (hj : j = i ∨ j = i + 1) :
    bamFlag g.kind r .bam j = true ↔ (r.bamDirty >>> i) % 4 ≠ 0 := by
  have hpair : 2 * (j / 2) = i := by omega
  have h0 : r.bamDirty.testBit i = (r.bamDirty >>> i).testBit 0 := by
    rw [Nat.testBit_shiftRight, Nat.add_zero]
  have h1 : r.bamDirty.testBit (i + 1) = (r.bamDirty >>> i).testBit 1 := by
    rw [Nat.testBit_shiftRight]
  rw [bamFlag_dnp hk, hpair, h0, h1, Nat.testBit_zero, Nat.testBit_eq_decide_div_mod_eq,
    decide_eq_true_eq, decide_eq_true_eq]
  omega

/-- Past the last bit of the mask no flag is up. -/
theorem bamFlag_done (hk : g.kind = .dnp) {r : Regs} {i j : Nat} (hi : i % 2 = 0) (hij : i ≤ j)
    (h0 : r.bamDirty >>> i = 0) : bamFlag g.kind r .bam j ≠ true := by
  intro hf
  have hbit : ∀ n, i ≤ n → r.bamDirty.testBit n = false := by
    intro n hn
    obtain ⟨d, rfl⟩ := Nat.exists_eq_add_of_le hn
    rw [← Nat.testBit_shiftRight, h0, Nat.zero_testBit]
  rcases (bamFlag_dnp hk).mp hf with h | h
  · rw [hbit _ (by omega)] at h
    exact nomatch h
  · rw [hbit _ (by omega)] at h
    exact nomatch h

/-- The mask is cleared when every flagged sector is on the medium. -/
theorem flushed_dnp_done (hk : g.kind = .dnp) {s : Mount} (hc : (s.cache g).Current) {i : Nat}
    (hi : i % 2 = 0) (hlast : i = 32 ∨ s.fs.bam.regs.bamDirty >>> i = 0)
    (hdone : ∀ j, j < i → bamFlag g.kind s.fs.bam.regs .bam j = true →
      s.fs.disk (2 + j) = s.written (2 + j)) :
    Flushed g s { s.fs with bam.regs.bamDirty := 0 } := by
  refine flushed_unflag hc _ (fun b j hh => ?_) fun b j a hh hn ha => ?_
  · cases b with
    | root => exact hh
    | bam2 => exact hh
    | bam =>
        rcases (bamFlag_dnp hk).mp hh with h | h
        · exact absurd h (by rw [Nat.zero_testBit]; decide)
        · exact absurd h (by rw [Nat.zero_testBit]; decide)
  · cases b with
    | root => exact absurd hh hn
    | bam2 => exact absurd hh hn
    | bam =>
        have hj : j < 32 := by
          by_contra hj
          simp [bamHome, hk, hj] at ha
        rw [bamHome_dnp hk hj] at ha
        cases ha
        refine hdone j ?_ hh
        by_contra hij
        rcases hlast with rfl | h0
        · omega
        · exact bamFlag_done hk hi (by omega) h0 hh

/-- The loop of `FileSystemDNP::sync`: the sectors below `i` are done. -/
theorem syncDnpLoop_flushed (hk : g.kind = .dnp) (fres : FResult) :
    ∀ (left i dirty : Nat) (s : Mount), (s.cache g).Current → i % 2 = 0 → i + 2 * left = 32 →
      dirty = s.fs.bam.regs.bamDirty >>> i →
      (∀ j, j < i → bamFlag g.kind s.fs.bam.regs .bam j = true →
        s.fs.disk (2 + j) = s.written (2 + j)) →
      Flushed g s (s.fs.syncDnpLoop g fres left i dirty).2 ∧
        ((s.fs.syncDnpLoop g fres left i dirty).1 = .ok → fres = .ok ∧
          (s.fs.syncDnpLoop g fres left i dirty).2.dirty = s.fs.dirty ∧
          (s.fs.syncDnpLoop g fres left i dirty).2.bam.regs =
            { s.fs.bam.regs with bamDirty := 0 }) := by
  intro left
  induction left with
  | zero =>
      intro i dirty s hc hi hl _ hdone
      exact ⟨flushed_dnp_done hk hc hi (Or.inl (by omega)) hdone, fun h => ⟨h, rfl, rfl⟩⟩
  | succ left ih =>
      intro i dirty s hc hi hl hdirty hdone
      rw [Fs.syncDnpLoop]
      split
      · next h0 =>
          rw [hdirty] at h0
          exact ⟨flushed_dnp_done hk hc hi (Or.inr h0) hdone, fun h => ⟨h, rfl, rfl⟩⟩
      · have hnext : dirty / 4 = s.fs.bam.regs.bamDirty >>> (i + 2) := by
          rw [hdirty, Nat.shiftRight_add, Nat.shiftRight_eq_div_pow _ 2]
        split
        · exact ⟨Flushed.refl hc, fun h => by cases h⟩
        · next fs' hw =>
            split at hw
            · next h4 =>
                rw [hdirty] at h4
                have hf : bamFlag g.kind s.fs.bam.regs .bam i = true :=
                  (bamFlag_shift hk hi (Or.inl rfl)).mpr h4
                have hf' : bamFlag g.kind s.fs.bam.regs .bam (i + 1) = true :=
                  (bamFlag_shift hk hi (Or.inr rfl)).mpr h4
                obtain ⟨h₁, hfs, h3, h3'⟩ := flushed_prtWrite2 (h := .bam .bam i)
                  (k := .bam .bam (i + 1)) hc hf hf' (bamHome_dnp hk (by omega))
                  (bamHome_dnp hk (by omega)) hw
                rw [hfs] at h₁ h3 h3' ⊢
                obtain ⟨h₂, hok⟩ := ih (i + 2) (dirty / 4) _ h₁.current (by omega) (by omega)
                  hnext (by
                    intro j hj hfj
                    by_cases hji : j < i
                    · exact h₁.keeps (hdone j hji hfj)
                    · have : j = i ∨ j = i + 1 := by omega
                      rcases this with rfl | rfl
                      · exact h3
                      · exact h3')
                exact ⟨h₁.trans h₂, hok⟩
            · next h4 =>
                cases hw
                refine ih (i + 2) (dirty / 4) s hc (by omega) (by omega) hnext ?_
                intro j hj hfj
                refine hdone j ?_ hfj
                by_contra hji
                rw [hdirty] at h4
                exact h4 ((bamFlag_shift hk hi (by omega)).mp hfj)

/-- `sync` writes copies back, and when it succeeds nothing is left to write. -/
theorem sync_flushed {s : Mount} (hc : (s.cache g).Current) :
    Flushed g s (s.fs.sync g).2 ∧
      ((s.fs.sync g).1 = .ok → ∀ h a, Mount.home g { s with fs := (s.fs.sync g).2 } h = some a →
        ¬ Mount.dirty g { s with fs := (s.fs.sync g).2 } h) := by
  have hleft : ∀ fs : Fs, fs.dirty = false → (∀ b i a, bamHome g b i = some a →
      bamFlag g.kind fs.bam.regs b i = false) → ∀ h a, Mount.home g { s with fs := fs } h = some a →
      ¬ Mount.dirty g { s with fs := fs } h := by
    intro fs hd hbam h a ha hdirty
    cases h with
    | window =>
        have hd' : fs.dirty = true := hdirty
        rw [hd] at hd'
        cases hd'
    | bam b i =>
        have hb : bamFlag g.kind fs.bam.regs b i = true := hdirty
        rw [hbam b i a ha] at hb
        cases hb
    | side n => exact hdirty
  rw [Fs.sync]
  cases hk : g.kind with
  | d64 =>
      obtain ⟨h₁, hok⟩ := syncBase_flushed hc
      refine ⟨h₁, fun h => hleft _ (hok h).1 fun b i a ha => ?_⟩
      rcases bamHome_cases ha with ⟨rfl, -⟩ | ⟨hk', -⟩ | ⟨hk', -⟩ | ⟨hk', -⟩
      · exact (hok h).2
      all_goals
        rw [hk] at hk'
        cases hk'
  | d71 =>
      obtain ⟨h₁, hok⟩ := syncD71_flushed hk hc
      refine ⟨h₁, fun h => hleft _ (hok h).1 fun b i a ha => ?_⟩
      rcases bamHome_cases ha with ⟨rfl, -⟩ | ⟨-, rfl, -⟩ | ⟨hk', -⟩ | ⟨hk', -⟩
      · exact (hok h).2.1
      · exact (hok h).2.2
      all_goals
        rw [hk] at hk'
        cases hk'
  | d81 =>
      obtain ⟨h₁, hok⟩ := syncD81_flushed hk hc
      refine ⟨h₁, fun h => hleft _ (hok h).1 fun b i a ha => ?_⟩
      rcases bamHome_cases ha with ⟨rfl, -⟩ | ⟨hk', -⟩ | ⟨-, rfl, -⟩ | ⟨hk', -⟩
      · exact (hok h).2.1
      · rw [hk] at hk'
        cases hk'
      · rw [Bool.eq_false_iff]
        exact fun hf => (bamFlag_d81 hk).mp hf (hok h).2.2
      · rw [hk] at hk'
        cases hk'
  | dnp =>
      obtain ⟨h₁, hok⟩ := syncBase_flushed hc
      obtain ⟨h₂, hloop⟩ := syncDnpLoop_flushed hk (s.fs.syncBase g).1 16 0
        (s.fs.syncBase g).2.bam.regs.bamDirty { s with fs := (s.fs.syncBase g).2 } h₁.current rfl rfl
        (by rw [Nat.shiftRight_zero]) (fun j hj => absurd hj (Nat.not_lt_zero j))
      refine ⟨h₁.trans h₂, fun h => ?_⟩
      obtain ⟨hbase, hd, hr⟩ := hloop h
      refine hleft _ (hd.trans (hok hbase).1) fun b i a ha => ?_
      show bamFlag g.kind ((s.fs.syncBase g).2.syncDnpLoop g (s.fs.syncBase g).1 16 0
        (s.fs.syncBase g).2.bam.regs.bamDirty).2.bam.regs b i = false
      rw [hr]
      rcases bamHome_cases ha with ⟨rfl, -⟩ | ⟨hk', -⟩ | ⟨hk', -⟩ | ⟨-, rfl, -⟩
      · exact (hok hbase).2
      · rw [hk] at hk'
        cases hk'
      · rw [hk] at hk'
        cases hk'
      · rw [Bool.eq_false_iff]
        intro hf
        rcases (bamFlag_dnp hk).mp hf with h | h
        · exact absurd h (by rw [Nat.zero_testBit]; decide)
        · exact absurd h (by rw [Nat.zero_testBit]; decide)

end CbmDirect
