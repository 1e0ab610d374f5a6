import Ultimate1541.CbmBamUpkeepProofs
import Ultimate1541.CbmDeleteProofs
import Ultimate1541.CbmTerminationProofs

/-! # Keeping the map of a mounted disk in order

    The operations that change the map of a D64, D71 or D81 of a standard size,
    in any order: setting one sector, taking one from a track, the direct
    allocation commands, giving a chain back and `sync`.  `InOrder` holds between
    any two of them: the counts are exact, and a BAM buffer that differs from
    its sector on the medium has its dirty flag up. -/

namespace CbmDir

open CbmLayout CbmBam CbmDisk CbmFile ByteBuffer Footprint Footprint.Prog

/-! ## The operations -/

/-- The answer of `allocate_sector`: its result, the two references and the
    file system. -/
structure AllocReply where
  res : FResult
  track : Nat
  sector : Nat
  fs : Fs

/-- `FileSystemCBM::allocate_sector`. -/
def allocateSector (g : Geometry) (fs : Fs) (track sector : Nat) (alloc : Bool) :
    Option AllocReply :=
  if fs.isWritable = false then some ⟨.writeProtected, track, sector, fs⟩
  else
    match absSector g track sector with
    | none => some ⟨.invalidParameter, track, sector, fs⟩
    | some _ =>
        match fs.setSectorAllocation g track sector alloc with
        | none => none
        | some (ok, fs₁) =>
            if ok = true ∨ alloc = false then some ⟨.ok, track, sector, fs₁⟩
            else
              ((FileSystemCBM.nextHigherFree g track sector).exec fs₁.bam).map fun r =>
                match r.1 with
                | some (t, s) => ⟨.exist, t, s, { fs₁ with bam := r.2 }⟩
                | none => ⟨.exist, 0, 0, { fs₁ with bam := r.2 }⟩

/-- An operation on the map. -/
inductive Op where
  | setSectorAllocation (track sector : Nat) (alloc : Bool)
  | allocateSectorOnTrack (track : Nat)
  | allocateSector (track sector : Nat) (alloc : Bool)
  | deallocateChain (track sector : UInt8) (visited : Nat → Bool)
  | sync

/-- One operation, with its answer dropped. -/
def Op.run (g : Geometry) (fs : Fs) : Op → Option Fs
  | .setSectorAllocation t s alloc => (fs.setSectorAllocation g t s alloc).map fun r => r.2
  | .allocateSectorOnTrack t =>
      ((CbmBam.allocateSectorOnTrack g.kind t).exec fs.bam).map fun r => { fs with bam := r.2 }
  | .allocateSector t s alloc => (CbmDir.allocateSector g fs t s alloc).map fun r => r.fs
  | .deallocateChain t s visited =>
      (CbmDir.deallocateChain g t s visited fs).map fun r => r.fs
  | .sync => some (fs.sync g).2

/-- A sequence of operations. -/
def runOps (g : Geometry) : List Op → Fs → Option Fs
  | [], fs => some fs
  | op :: ops, fs => (op.run g fs).bind (runOps g ops)

/-- `get_abs_sector` accepts the sectors an operation names.  A chain may start
    and go on anywhere: `deallocate_chain` checks every link itself. -/
def Op.Accepted (g : Geometry) : Op → Prop
  | .setSectorAllocation t s _ => ∃ a, absSector g t s = some a
  | .allocateSectorOnTrack t => ∃ s a, absSector g t s = some a
  | .allocateSector t s _ => ∃ a, absSector g t s = some a
  | .deallocateChain _ _ _ => True
  | .sync => True

/-- The standard sizes. -/
inductive Standard : Geometry → Prop where
  | d64 : Standard ⟨.d64, 683⟩
  | d71 : Standard ⟨.d71, 1366⟩
  | d81 : Standard ⟨.d81, 3200⟩

/-! ## States -/

/-- The BAM sectors on the medium are the buffers; `flagged` says which buffers
    may differ. -/
structure Recorded (g : Geometry) (fs : Fs) (flagged : Regs) : Prop where
  root : flagged.rootDirty = false → ∀ a, Fs.rootAbs g = some a →
    fs.disk a = bufBlock fs.bam .root 0
  bam2 : g.kind = .d71 → flagged.bam2Dirty = false → ∀ a, absSector g 53 0 = some a →
    fs.disk a = bufBlock fs.bam .bam2 0
  bam : g.kind = .d81 → flagged.bamDirty = 0 → ∀ a, absSector g 40 1 = some a →
    fs.disk a = bufBlock fs.bam .bam 0 ∧ fs.disk (a + 1) = bufBlock fs.bam .bam 1

/-- No buffer is flagged. -/
def noFlags : Regs := ⟨false, false, 0, false⟩

/-- The BAM sectors on the medium are the buffers. -/
def OnMedium (g : Geometry) (fs : Fs) : Prop := Recorded g fs noFlags

/-- A mounted disk: the map is in order, what differs from the medium is
    flagged, and no BAM sector waits in the window to be written. -/
structure Mounted (g : Geometry) (fs : Fs) : Prop where
  consistent : Consistent g.kind fs.bam.cell
  recorded : Recorded g fs fs.bam.regs
  window : fs.dirty = true → ∃ a, fs.currentSector = some a ∧ a < g.numSectors ∧
    ¬ IsBamSector g a

variable {g : Geometry}

theorem Standard.ne_dnp (h : Standard g) : g.kind ≠ .dnp := by
  cases h <;> exact fun h => nomatch h

theorem Standard.numTracks (h : Standard g) : getNumTracks g = lastTrack g.kind := by
  cases h <;> decide

/-- The sectors of a standard image are those of the tracks up to the last. -/
theorem Standard.absSector_iff (h : Standard g) {t s : Nat} :
    (∃ a, absSector g t s = some a) ↔
      1 ≤ t ∧ t ≤ lastTrack g.kind ∧ s < g.kind.layout.sectors t := by
  constructor
  · rintro ⟨a, ha⟩
    have hle := getNumTracks_ge ha
    obtain ⟨h1, hs, -, -⟩ := absSector_eq_some.mp ha
    rw [h.numTracks] at hle
    exact ⟨h1, hle, hs⟩
  · rintro ⟨h1, h2, hs⟩
    have hend := g.layout.trackStart_end_le h1 (show t < lastTrack g.kind + 1 by omega)
    have hall : g.layout.trackStart (lastTrack g.kind + 1) = g.numSectors := by
      cases h <;> decide
    have hs' : s < g.layout.sectors t := hs
    exact ⟨_, absSector_eq_some.mpr ⟨h1, hs, rfl, by omega⟩⟩

theorem bufBlock_congr {m m' : Bam} {b : Buf} (h : ∀ i, m'.cell ⟨b, i⟩ = m.cell ⟨b, i⟩)
    (i : Nat) : bufBlock m' b i = bufBlock m b i := funext fun _ => h _

/-- A step of the map keeps the disk in use. -/
theorem Mounted.withBam {fs : Fs} (h : Mounted g fs) {m : Bam} (hm : Upkeep g.kind fs.bam m) :
    Mounted g { fs with bam := m } where
  consistent := hm.consistent
  recorded := by
    refine ⟨fun hd a ha => ?_, fun hk hd a ha => ?_, fun hk hd a ha => ?_⟩
    · obtain ⟨hd', hc⟩ := hm.kept.root hd
      exact (h.recorded.root hd' a ha).trans (bufBlock_congr hc 0).symm
    · obtain ⟨hd', hc⟩ := hm.kept.bam2 hd
      exact (h.recorded.bam2 hk hd' a ha).trans (bufBlock_congr hc 0).symm
    · obtain ⟨hd', hc⟩ := hm.kept.bam hd
      obtain ⟨h0, h1⟩ := h.recorded.bam hk hd' a ha
      exact ⟨h0.trans (bufBlock_congr hc 0).symm, h1.trans (bufBlock_congr hc 1).symm⟩
  window := h.window

/-- Only sectors that are not of the BAM were written. -/
theorem Mounted.withDisk {fs fs' : Fs} (h : Mounted g fs) (hbam : fs'.bam = fs.bam)
    (hdisk : ∀ a, IsBamSector g a → fs'.disk a = fs.disk a)
    (hwin : fs'.dirty = true → ∃ a, fs'.currentSector = some a ∧ a < g.numSectors ∧
      ¬ IsBamSector g a) : Mounted g fs' where
  consistent := by
    rw [hbam]
    exact h.consistent
  recorded := by
    rw [hbam]
    refine ⟨fun hd a ha => ?_, fun hk hd a ha => ?_, fun hk hd a ha => ?_⟩
    · rw [hbam, hdisk a (Or.inl ha)]
      exact h.recorded.root hd a ha
    · have hs : IsBamSector g a := by
        refine Or.inr ?_
        rw [hk]
        exact ha
      rw [hbam, hdisk a hs]
      exact h.recorded.bam2 hk hd a ha
    · have hs : IsBamSector g a ∧ IsBamSector g (a + 1) := by
        refine ⟨Or.inr ?_, Or.inr ?_⟩ <;> rw [hk]
        · exact Or.inl ha
        · exact Or.inr ⟨a, ha, rfl⟩
      rw [hbam, hdisk a hs.1, hdisk _ hs.2]
      exact h.recorded.bam hk hd a ha
  window := hwin

/-- Writing the window back leaves the BAM sectors alone. -/
theorem Mounted.writeBack {fs : Fs} (h : Mounted g fs) :
    ∃ fs', (if fs.dirty then fs.prtWrite g fs.sectBuffer fs.currentSector else some fs)
        = some fs' ∧ fs'.bam = fs.bam ∧ fs'.currentSector = fs.currentSector ∧
      fs'.rootValid = fs.rootValid ∧ fs'.writable = fs.writable ∧
      ∀ a, IsBamSector g a → fs'.disk a = fs.disk a := by
  cases hd : fs.dirty with
  | false => exact ⟨fs, if_neg (by decide), rfl, rfl, rfl, rfl, fun _ _ => rfl⟩
  | true =>
      obtain ⟨c, hc, hlt, hbam⟩ := h.window hd
      refine ⟨{ fs with disk := Function.update fs.disk c fs.sectBuffer }, ?_, rfl, rfl, rfl,
        rfl, ?_⟩
      · rw [if_pos rfl, hc, Fs.prtWrite, if_pos hlt, hc]
      · intro a ha
        refine Function.update_of_ne ?_ ..
        rintro rfl
        exact hbam ha

theorem Mounted.moveWindow {fs : Fs} (h : Mounted g fs) {a : Nat} (ha : a < g.numSectors) :
    ∃ fs', fs.moveWindow g (some a) = (.ok, fs') ∧ Mounted g fs' := by
  by_cases hc : fs.currentSector = some a
  · refine ⟨fs, ?_, h⟩
    rw [Fs.moveWindow, if_pos hc]
  · obtain ⟨fs₁, hw, hbam, -, -, -, hdisk⟩ := h.writeBack
    refine ⟨{ fs₁ with sectBuffer := fs₁.disk a, currentSector := some a, dirty := false },
      ?_, h.withDisk hbam hdisk fun hd => by cases hd⟩
    rw [Fs.moveWindow, if_neg hc, hw]
    dsimp only
    rw [Fs.prtRead, if_pos ha]

/-! ## Writing the BAM back -/

/-- The sectors the buffers are copies of are on the image and different. -/
structure BamLayout (g : Geometry) (r : Nat) : Prop where
  root : Fs.rootAbs g = some r
  root_lt : r < g.numSectors
  bam2 : g.kind = .d71 → ∃ a, absSector g 53 0 = some a ∧ a < g.numSectors ∧ a ≠ r
  bam : g.kind = .d81 → ∃ a, absSector g 40 1 = some a ∧ a < g.numSectors ∧ a ≠ r ∧ a + 1 ≠ r

theorem Standard.bamLayout (h : Standard g) : ∃ r, BamLayout g r := by
  cases h with
  | d64 =>
      exact ⟨357, by decide, by decide, (fun h => nomatch h), fun h => nomatch h⟩
  | d71 =>
      exact ⟨357, by decide, by decide, fun _ => ⟨1040, by decide, by decide, by decide⟩,
        fun h => nomatch h⟩
  | d81 =>
      exact ⟨1560, by decide, by decide, (fun h => nomatch h),
        fun _ => ⟨1561, by decide, by decide, by decide, by decide⟩⟩

/-- `FileSystemCBM::sync`: the root sector is brought up to date. -/
theorem Mounted.syncBase {fs : Fs} (h : Mounted g fs) {r : Nat} (hl : BamLayout g r) :
    ∃ fs', fs.syncBase g = (.ok, fs') ∧ Mounted g fs' ∧ fs'.dirty = false ∧
      fs'.bam.regs.rootDirty = false := by
  obtain ⟨fs₁, hw, hbam, -, -, -, hdisk⟩ := h.writeBack
  have h₂ : Mounted g { fs₁ with dirty := false } := h.withDisk hbam hdisk fun hd => by cases hd
  rw [Fs.syncBase, hw]
  dsimp only
  cases hd : fs₁.bam.regs.rootDirty with
  | false =>
      refine ⟨{ fs₁ with dirty := false }, ?_, h₂, rfl, hd⟩
      rw [if_neg (by decide)]
  | true =>
      rw [if_pos rfl, hl.root, Fs.prtWrite, if_pos hl.root_lt]
      refine ⟨_, rfl, ⟨h₂.consistent, ⟨?_, ?_, ?_⟩, fun hd => by cases hd⟩, rfl, rfl⟩
      · intro _ a ha
        rw [hl.root] at ha
        cases ha
        exact Function.update_self ..
      · intro hk hd a ha
        obtain ⟨b, hb, -, hne⟩ := hl.bam2 hk
        rw [hb] at ha
        cases ha
        exact (Function.update_of_ne hne ..).trans (h₂.recorded.bam2 hk hd _ hb)
      · intro hk hd a ha
        obtain ⟨b, hb, -, hne, hne'⟩ := hl.bam hk
        rw [hb] at ha
        cases ha
        obtain ⟨h0, h1⟩ := h₂.recorded.bam hk hd _ hb
        exact ⟨(Function.update_of_ne hne ..).trans h0, (Function.update_of_ne hne' ..).trans h1⟩

/-- `sync` brings every BAM sector up to date. -/
theorem Mounted.sync {fs : Fs} (hg : Standard g) (h : Mounted g fs) :
    ∃ fs', fs.sync g = (.ok, fs') ∧ Mounted g fs' ∧ OnMedium g fs' := by
  obtain ⟨r, hl⟩ := hg.bamLayout
  obtain ⟨fs₁, hx, h₁, hclean, hroot⟩ := h.syncBase hl
  cases hg with
  | d64 =>
      refine ⟨fs₁, hx, h₁, fun _ => h₁.recorded.root hroot, (fun h => by cases h),
        fun h => by cases h⟩
  | d71 =>
      rw [Fs.sync]
      dsimp only
      rw [Fs.syncD71, hx]
      dsimp only
      cases hd : fs₁.bam.regs.bam2Dirty with
      | false =>
          rw [if_neg (by decide)]
          exact ⟨fs₁, rfl, h₁, fun _ => h₁.recorded.root hroot,
            fun hk _ => h₁.recorded.bam2 hk hd, fun h => by cases h⟩
      | true =>
          obtain ⟨b, hb, hlt, hne⟩ := hl.bam2 rfl
          rw [if_pos rfl, hb, Fs.prtWrite, if_pos hlt]
          have hrootNow : ∀ a, Fs.rootAbs ⟨.d71, 1366⟩ = some a →
              Function.update fs₁.disk b (bufBlock fs₁.bam .bam2 0) a
                = bufBlock fs₁.bam .root 0 := by
            intro a ha
            rw [hl.root] at ha
            cases ha
            exact (Function.update_of_ne hne.symm ..).trans (h₁.recorded.root hroot _ hl.root)
          have hbamNow : ∀ a, absSector ⟨.d71, 1366⟩ 53 0 = some a →
              Function.update fs₁.disk b (bufBlock fs₁.bam .bam2 0) a
                = bufBlock fs₁.bam .bam2 0 := by
            intro a ha
            rw [hb] at ha
            cases ha
            exact Function.update_self ..
          refine ⟨_, rfl, ⟨h₁.consistent, ⟨fun _ => hrootNow, fun _ _ => hbamNow,
            fun h => by cases h⟩, ?_⟩, fun _ => hrootNow, fun _ _ => hbamNow, fun h => by cases h⟩
          intro hd'
          rw [hclean] at hd'
          cases hd'
  | d81 =>
      rw [Fs.sync]
      dsimp only
      rw [Fs.syncD81, hx]
      dsimp only
      by_cases hd : fs₁.bam.regs.bamDirty ≠ 0
      · obtain ⟨b, hb, hlt, hne, hne'⟩ := hl.bam rfl
        rw [if_pos hd, hb, Fs.prtWrite2, if_pos hlt]
        have hrootNow : ∀ a, Fs.rootAbs ⟨.d81, 3200⟩ = some a →
            Function.update (Function.update fs₁.disk b (bufBlock fs₁.bam .bam 0)) (b + 1)
              (bufBlock fs₁.bam .bam 1) a = bufBlock fs₁.bam .root 0 := by
          intro a ha
          rw [hl.root] at ha
          cases ha
          exact ((Function.update_of_ne hne'.symm ..).trans
            (Function.update_of_ne hne.symm ..)).trans (h₁.recorded.root hroot _ hl.root)
        have hbamNow : ∀ a, absSector ⟨.d81, 3200⟩ 40 1 = some a →
            Function.update (Function.update fs₁.disk b (bufBlock fs₁.bam .bam 0)) (b + 1)
                (bufBlock fs₁.bam .bam 1) a = bufBlock fs₁.bam .bam 0 ∧
              Function.update (Function.update fs₁.disk b (bufBlock fs₁.bam .bam 0)) (b + 1)
                (bufBlock fs₁.bam .bam 1) (a + 1) = bufBlock fs₁.bam .bam 1 := by
          intro a ha
          rw [hb] at ha
          cases ha
          refine ⟨?_, Function.update_self ..⟩
          exact (Function.update_of_ne (by omega) ..).trans (Function.update_self ..)
        refine ⟨_, rfl, ⟨h₁.consistent, ⟨fun _ => hrootNow, (fun h => by cases h),
          fun _ _ => hbamNow⟩, ?_⟩, fun _ => hrootNow, (fun h => by cases h), fun _ _ => hbamNow⟩
        intro hd'
        rw [hclean] at hd'
        cases hd'
      · rw [if_neg hd]
        exact ⟨fs₁, rfl, h₁, fun _ => h₁.recorded.root hroot, (fun h => by cases h),
          fun hk _ => h₁.recorded.bam hk (not_not.mp hd)⟩

/-! ## Every operation -/

theorem Mounted.setSectorAllocation {fs : Fs} (hg : Standard g) (h : Mounted g fs) {t s a : Nat}
    (ha : absSector g t s = some a) (alloc : Bool) :
    ∃ ok m, (CbmBam.setSectorAllocation g.kind t s alloc).exec fs.bam = some (ok, m) ∧
      fs.setSectorAllocation g t s alloc = some (ok, { fs with bam := m }) ∧
      Mounted g { fs with bam := m } := by
  obtain ⟨-, ht, hs⟩ := hg.absSector_iff.mp ⟨a, ha⟩
  obtain ⟨r, m, hx, hm⟩ := setSectorAllocation_upkeep hg.ne_dnp ht hs alloc h.consistent
  refine ⟨r, m, hx, ?_, h.withBam hm⟩
  rw [Fs.setSectorAllocation, hx]
  rfl

/-- `deallocate_chain` goes wherever the links lead and keeps the map in
    order. -/
theorem Mounted.deallocateLoop (hg : Standard g) :
    ∀ (rounds : Nat) (t s : UInt8) (visited : Nat → Bool) (fs : Fs), Mounted g fs →
      unvisited g visited < rounds →
      ∃ r, deallocateLoop g rounds t s visited fs = some r ∧ Mounted g r.fs := by
  intro rounds
  induction rounds with
  | zero => exact fun t s visited fs _ h => absurd h (Nat.not_lt_zero _)
  | succ rounds ih =>
      intro t s visited fs h hlt
      rw [CbmDir.deallocateLoop]
      by_cases ht : t = 0
      · rw [if_pos ht]
        exact ⟨_, rfl, h⟩
      · rw [if_neg ht]
        cases ha : absSector g t.toNat s.toNat with
        | none => exact ⟨_, rfl, h⟩
        | some a =>
            dsimp only
            by_cases hv : visited a = true
            · rw [if_pos hv]
              exact ⟨_, rfl, h⟩
            · obtain ⟨fs₁, hx, h₁⟩ := h.moveWindow (absSector_lt ha)
              obtain ⟨ok, m, -, hy, h₂⟩ := h₁.setSectorAllocation hg ha false
              rw [if_neg hv, hx]
              dsimp only
              rw [hy]
              have := unvisited_update (absSector_lt ha) (Bool.eq_false_iff.mpr hv)
              exact ih _ _ _ _ h₂ (by omega)

/-- What `FR_EXIST` promises: the map is as it was, and the answer is the next
    higher free sector, or 0/0. -/
structure NextHigher (g : Geometry) (fs : Fs) (track sector : Nat) (r : AllocReply) : Prop where
  unchanged : r.fs.bam.cell = fs.bam.cell
  names : (r.track = 0 ∧ r.sector = 0 ∧ ∀ t s a, absSector g t s = some a →
      After track sector t s → freeBit g.kind fs.bam.cell t s = false) ∨
    ((∃ a, absSector g r.track r.sector = some a) ∧ After track sector r.track r.sector ∧
      freeBit g.kind fs.bam.cell r.track r.sector = true ∧
      ∀ t s a, absSector g t s = some a → After track sector t s →
        After t s r.track r.sector → freeBit g.kind fs.bam.cell t s = false)

/-- `allocate_sector` on a disk in use. -/
theorem Mounted.allocateSector {fs : Fs} (hg : Standard g) (h : Mounted g fs) {t s a : Nat}
    (ha : absSector g t s = some a) (alloc : Bool) :
    ∃ r, CbmDir.allocateSector g fs t s alloc = some r ∧ Mounted g r.fs ∧
      (r.res = .exist → NextHigher g fs t s r) := by
  obtain ⟨h1, ht, hs⟩ := hg.absSector_iff.mp ⟨a, ha⟩
  have hs8 : s < 8 * bitBytes g.kind := Nat.lt_of_lt_of_le hs (sectors_le_bits _ t)
  rw [CbmDir.allocateSector]
  by_cases hw : fs.isWritable = false
  · rw [if_pos hw]
    exact ⟨_, rfl, h, fun h => nomatch h⟩
  · obtain ⟨ok, m, hexec, hx, h₁⟩ := h.setSectorAllocation hg ha alloc
    rw [if_neg hw, ha]
    dsimp only
    rw [hx]
    dsimp only
    by_cases hok : ok = true ∨ alloc = false
    · rw [if_pos hok]
      exact ⟨_, rfl, h₁, fun h => nomatch h⟩
    · rw [not_or] at hok
      obtain ⟨hok, halloc⟩ := hok
      have hsame : m = fs.bam := by
        rw [Bool.not_eq_false] at halloc
        subst halloc
        rcases setSectorAllocation_alloc (addressable_of_le ht) hs8 fs.bam with
          ⟨-, hy⟩ | ⟨m', hy, -⟩
        · rw [hy] at hexec
          cases hexec
          rfl
        · rw [hy] at hexec
          cases hexec
          exact absurd rfl hok
      subst hsame
      obtain ⟨r, m', hp, hcell, hkept, hfirst⟩ := probeTracks_unchanged hg.ne_dnp
        (getNumTracks g + 1 - t) t (s + 1) fs.bam h1 (by rw [hg.numTracks]; omega)
        (by omega) h.consistent
      have hup : Upkeep g.kind fs.bam m' := ⟨by rw [hcell]; exact h.consistent, hkept⟩
      rw [if_neg (by rw [not_or]; exact ⟨hok, halloc⟩), FileSystemCBM.nextHigherFree, hp]
      refine ⟨_, rfl, ?_, fun _ => ?_⟩
      · cases r with
        | none => exact h.withBam hup
        | some p => exact h.withBam hup
      · rw [hg.numTracks] at hfirst
        have hafter : ∀ {t' s' : Nat}, After t s t' s' → t ≤ t' ∧ (t' = t → s + 1 ≤ s') := by
          rintro t' s' (hlt | ⟨rfl, hlt⟩)
          · exact ⟨by omega, fun he => by omega⟩
          · exact ⟨Nat.le_refl _, fun _ => hlt⟩
        cases r with
        | none =>
            refine ⟨hcell, Or.inl ⟨rfl, rfl, fun t' s' b hb haft => ?_⟩⟩
            obtain ⟨-, h3, h4⟩ := hg.absSector_iff.mp ⟨b, hb⟩
            exact hfirst t' s' (hafter haft).1 (by omega) h4 (hafter haft).2
        | some p =>
            obtain ⟨t₁, s₁⟩ := p
            obtain ⟨h3, h4, h5, h6, h7, h8⟩ := hfirst
            refine ⟨hcell, Or.inr ⟨hg.absSector_iff.mpr ⟨by dsimp only; omega, ?_, h5⟩, ?_, h7,
              ?_⟩⟩
            · dsimp only
              omega
            · by_cases he : t₁ = t
              · exact Or.inr ⟨he.symm, h6 he⟩
              · exact Or.inl (by dsimp only; omega)
            · intro t' s' b hb haft hbefore
              obtain ⟨-, -, h9⟩ := hg.absSector_iff.mp ⟨b, hb⟩
              exact h8 t' s' (hafter haft).1 h9 (hafter haft).2 hbefore

/-- One operation. -/
theorem Mounted.run {fs : Fs} (hg : Standard g) (h : Mounted g fs) {op : Op} (hop : op.Accepted g) :
    ∃ fs', op.run g fs = some fs' ∧ Mounted g fs' := by
  cases op with
  | setSectorAllocation t s alloc =>
      obtain ⟨a, ha⟩ := hop
      obtain ⟨ok, m, -, hx, h'⟩ := h.setSectorAllocation hg ha alloc
      exact ⟨_, by rw [Op.run, hx]; rfl, h'⟩
  | allocateSectorOnTrack t =>
      obtain ⟨h1, ht, -⟩ := hg.absSector_iff.mp hop.choose_spec
      obtain ⟨r, m, hx, hm⟩ := allocateSectorOnTrack_upkeep hg.ne_dnp h1 ht h.consistent
      exact ⟨_, by rw [Op.run, hx]; rfl, h.withBam hm⟩
  | allocateSector t s alloc =>
      obtain ⟨a, ha⟩ := hop
      obtain ⟨r, hx, h', -⟩ := h.allocateSector hg ha alloc
      exact ⟨_, by rw [Op.run, hx]; rfl, h'⟩
  | deallocateChain t s visited =>
      obtain ⟨r, hx, h'⟩ := Mounted.deallocateLoop hg (g.numSectors + 2) t s visited fs h
        (by have := unvisited_le (g := g) visited; omega)
      exact ⟨_, by rw [Op.run, CbmDir.deallocateChain, hx]; rfl, h'⟩
  | sync =>
      obtain ⟨fs', hx, h', -⟩ := h.sync hg
      exact ⟨_, by rw [Op.run, hx], h'⟩

/-- Any number of operations. -/
theorem Mounted.runOps (hg : Standard g) :
    ∀ (ops : List Op) {fs : Fs}, Mounted g fs → (∀ op ∈ ops, op.Accepted g) →
      ∃ fs', CbmDir.runOps g ops fs = some fs' ∧ Mounted g fs' := by
  intro ops
  induction ops with
  | nil => exact fun h _ => ⟨_, rfl, h⟩
  | cons op ops ih =>
      intro fs h hops
      obtain ⟨fs₁, hx, h₁⟩ := h.run hg (hops op (List.mem_cons_self ..))
      obtain ⟨fs₂, hy, h₂⟩ := ih h₁ fun op hop => hops op (List.mem_cons_of_mem _ hop)
      refine ⟨fs₂, ?_, h₂⟩
      rw [CbmDir.runOps, hx]
      exact hy

/-- **THE MAP STAYS IN ORDER**: after any sequence of operations on a disk of a
    standard size the counts are exact, `FR_EXIST` is answered with the map
    unchanged and the next higher free sector, and a successful `sync` leaves
    the buffers on the medium. -/
theorem map_stays_in_order (hg : Standard g) {fs : Fs} (h : Mounted g fs) (ops : List Op)
    (hops : ∀ op ∈ ops, op.Accepted g) :
    ∃ fs', CbmDir.runOps g ops fs = some fs' ∧
      Consistent g.kind fs'.bam.cell ∧
      (∀ t s a alloc, absSector g t s = some a →
        ∃ r, CbmDir.allocateSector g fs' t s alloc = some r ∧
          (r.res = .exist → NextHigher g fs' t s r)) ∧
      ∀ fs'', fs'.sync g = (.ok, fs'') → OnMedium g fs'' := by
  obtain ⟨fs', hx, h'⟩ := Mounted.runOps hg ops h hops
  refine ⟨fs', hx, h'.consistent, fun t s a alloc ha => ?_, fun fs'' hs => ?_⟩
  · obtain ⟨r, hr, -, hexist⟩ := h'.allocateSector hg ha alloc
    exact ⟨r, hr, hexist⟩
  · obtain ⟨fs₂, hy, -, hm⟩ := h'.sync hg
    rw [hs] at hy
    cases hy
    exact hm

/-- A mounted D64 with every sector allocated, its image all zero: one sector is
    freed, and the next one asked for. -/
theorem map_stays_in_order_d64 :
    ∃ fs', CbmDir.runOps ⟨.d64, 683⟩
        [.setSectorAllocation 17 3 false, .allocateSector 17 2 true, .sync]
        (mounted fun _ => Buffer.zero) = some fs' ∧
      Consistent .d64 fs'.bam.cell ∧
      (∀ t s a alloc, absSector ⟨.d64, 683⟩ t s = some a →
        ∃ r, CbmDir.allocateSector ⟨.d64, 683⟩ fs' t s alloc = some r ∧
          (r.res = .exist → NextHigher ⟨.d64, 683⟩ fs' t s r)) ∧
      ∀ fs'', fs'.sync ⟨.d64, 683⟩ = (.ok, fs'') → OnMedium ⟨.d64, 683⟩ fs'' := by
  refine map_stays_in_order Standard.d64 ⟨?_, ⟨fun _ _ _ => rfl, (fun h => nomatch h),
    fun h => nomatch h⟩, fun h => Bool.noConfusion (show false = true from h)⟩ _ ?_
  · have hbit : ∀ t s, freeBit .d64 (fun _ => 0) t s = false :=
      fun t s => hasBit_zero (bitOf_mod_lt .d64 s)
    refine fun t _ _ => ⟨fun _ => ?_, fun s _ _ => hbit t s⟩
    refine ((List.countP_eq_zero).mpr fun s _ => ?_).symm
    exact Bool.eq_false_iff.mp (hbit t s)
  · intro op hop
    simp only [List.mem_cons, List.not_mem_nil, or_false] at hop
    rcases hop with rfl | rfl | rfl
    · exact ⟨339, by decide⟩
    · exact ⟨338, by decide⟩
    · trivial

end CbmDir
