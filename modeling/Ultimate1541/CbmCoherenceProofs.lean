import Ultimate1541.CbmCopiesProofs
import Ultimate1541.CbmUpkeepProofs

/-! # Direct access to the sectors of a mounted image

    The block commands read and write sectors of an image while its files are
    in use.  `fs_read_sector` and `fs_write_sector` sync the file system and
    then go to the medium; none of the copies the file system keeps is
    invalidated.

    A run is any sequence of the accesses the file operations are made of, with
    direct reads and writes anywhere between them.  `written` remembers for
    every byte what was stored last and `stale` which copies a write went
    past.  As long as nothing is stored in a stale copy, every direct read
    delivers what was written last and nothing on the medium goes back to an
    older content (`direct_access_current`). -/

namespace CbmDirect

open CbmLayout CbmBam CbmDisk CbmFile ByteBuffer Footprint Footprint.Prog WriteBack

/-! ## The direct accesses -/

/-- `FileManager::fs_read_sector`, once the path is resolved. -/
def fsReadSector (g : Geometry) (fs : Fs) (track sector : Nat) : FResult × Block × Fs :=
  match fs.sync g with
  | (.ok, fs') =>
      match fs'.readSector g track sector with
      | (res, b) => (res, b, fs')
  | (res, fs') => (res, Buffer.zero, fs')

/-- `FileManager::fs_write_sector`, once the path is resolved. -/
def fsWriteSector (g : Geometry) (fs : Fs) (b : Block) (track sector : Nat) : FResult × Fs :=
  match fs.sync g with
  | (.ok, fs') => fs'.writeSector g b track sector
  | (res, fs') => (res, fs')

namespace Mount

/-- The copies that are stale after `touched` ones were stored in. -/
def staleAfter (g : Geometry) (s : Mount) (touched : Holder → Prop) (h : Holder) : Prop :=
  s.stale h ∨ ∃ h' a, touched h' ∧ h' ≠ h ∧ s.home g h' = some a ∧ s.home g h = some a

/-- The copies that are stale after `h` was filled: `h` itself only if another
    one still has changes to its sector. -/
def staleFilled (g : Geometry) (s : Mount) (h : Holder) (o : Option Nat) (h' : Holder) : Prop :=
  (h' = h ∧ ∃ a, o = some a ∧ (s.cache g).Pending h a) ∨ (h' ≠ h ∧ s.stale h')

/-- The sectors of the BAM buffers that a change of the map stores in or flags
    for the next `sync`. -/
def bamTouched (g : Geometry) (m m' : Bam) : Holder → Prop
  | .bam b i => bufBlock m' b i ≠ bufBlock m b i ∨
      (bamFlag g.kind m.regs b i = false ∧ bamFlag g.kind m'.regs b i = true)
  | _ => False

/-- The map changed in the buffers. -/
def withBam (g : Geometry) (s : Mount) (m : Bam) : Mount where
  fs := { s.fs with bam := m }
  side := s.side
  written := fun a =>
    match bamAt g a with
    | none => s.written a
    | some (b, i) => overlay (bufBlock s.fs.bam b i) (bufBlock m b i) (s.written a)
  stale := s.staleAfter g (bamTouched g s.fs.bam m)

/-- A sector went to the medium past all copies. -/
def direct (g : Geometry) (s : Mount) (fs : Fs) (b : Block) (a : Nat) : Mount where
  fs := fs
  side := s.side
  written := Function.update s.written a b
  stale := fun h => s.stale h ∨ s.home g h = some a

end Mount

/-! ## The accesses -/

/-- A store into `root_buffer` together with `root_dirty = true`. -/
def editRoot (m : Bam) (f : Block → Block) : Bam where
  cell := fun a =>
    if h : a.buf = .root ∧ a.idx < 256 then f (bufBlock m .root 0) ⟨a.idx, h.2⟩ else m.cell a
  regs := { m.regs with rootDirty := true }

/-- What the file operations of a CBM file system do to the image, and the
    direct accesses. -/
inductive Op where
  | moveWindow (a : Option Nat)
  | edit (f : Block → Block)
  | setSectorAllocation (track sector : Nat) (alloc : Bool)
  | getNextFreeSector (track sector : Nat)
  | allocateSectorOnTrack (track : Nat)
  | allocateSector (track sector : Nat) (alloc : Bool)
  | editRoot (f : Block → Block)
  | sync
  | writeSector (b : Block) (track sector : Nat)
  | sideLoad (n : Nat) (track sector : UInt8)
  | sideCopyWindow (n : Nat) (track sector : UInt8)
  | sideNew (n : Nat) (track sector : UInt8)
  | sideEdit (n : Nat) (f : Block → Block)
  | sideWrite (n : Nat)
  | sideDrop (n : Nat)
  | readDirect (track sector : Nat)
  | writeDirect (b : Block) (track sector : Nat)

/-- Put a side sector in a file's memory. -/
def Mount.setSide (s : Mount) (n : Nat) (c : Option SideCopy) : Mount :=
  { s with side := Function.update s.side n c }

/-- One access, with its answer dropped; `none` is a call no file operation
    makes: the bits of the map are set for sectors of the image only, and a super
    side block is taken from the window that was moved to it. -/
def Op.run (g : Geometry) (s : Mount) : Op → Option Mount
  | .moveWindow a =>
      let fs := (s.fs.moveWindow g a).2
      if fs.currentSector = s.fs.currentSector then some { s with fs := fs }
      else some { s with fs := fs, stale := s.staleFilled g .window fs.currentSector }
  | .edit f => some { s with
      fs := s.fs.edit f
      written :=
        match s.fs.currentSector with
        | none => s.written
        | some a => Function.update s.written a
            (overlay s.fs.sectBuffer (f s.fs.sectBuffer) (s.written a))
      stale := s.staleAfter g fun h => h = .window }
  | .setSectorAllocation t u alloc =>
      if absSector g t u = none then none
      else (s.fs.setSectorAllocation g t u alloc).map fun r => s.withBam g r.2.bam
  | .getNextFreeSector t u => (s.fs.getNextFreeSector g t u).map fun r => s.withBam g r.2.bam
  | .allocateSectorOnTrack t =>
      ((CbmBam.allocateSectorOnTrack g.kind t).exec s.fs.bam).map fun r => s.withBam g r.2
  | .allocateSector t u alloc =>
      (CbmDir.allocateSector g s.fs t u alloc).map fun r => s.withBam g r.fs.bam
  | .editRoot f => some (s.withBam g (CbmDirect.editRoot s.fs.bam f))
  | .sync => some { s with fs := (s.fs.sync g).2 }
  | .writeSector b t u =>
      match absSector g t u, s.fs.writeSector g b t u with
      | some a, (.ok, fs) => some (s.direct g fs b a)
      | _, (_, fs) => some { s with fs := fs }
  | .sideLoad n t u =>
      let b := (s.fs.readSector g t.toNat u.toNat).2
      some { s.setSide n (some ⟨⟨t, u, b⟩, b⟩) with
        stale := s.staleFilled g (.side n) (absSector g t.toNat u.toNat) }
  | .sideCopyWindow n t u =>
      if s.fs.currentSector = none ∨ s.fs.currentSector ≠ absSector g t.toNat u.toNat then none
      else
        let b := s.fs.sectBuffer
        some { s.setSide n (some ⟨⟨t, u, b⟩, b⟩) with
          stale := fun h => (h = .side n ∧ s.stale .window) ∨ (h ≠ .side n ∧ s.stale h) }
  | .sideNew n t u =>
      let b := (s.fs.readSector g t.toNat u.toNat).2
      some { s.setSide n (some ⟨⟨t, u, Buffer.zero⟩, b⟩) with
        stale := s.staleFilled g (.side n) (absSector g t.toNat u.toNat) }
  | .sideEdit n f =>
      (s.side n).map fun c =>
        s.setSide n (some { c with block.data := f c.block.data })
  | .sideWrite n =>
      match s.side n with
      | none => none
      | some c =>
          match c.home g, s.fs.prtWrite g c.block.data (c.home g) with
          | some a, some fs => some { s.setSide n (some { c with base := c.block.data }) with
              fs := fs
              written := Function.update s.written a
                (overlay c.base c.block.data (s.written a))
              stale := s.staleAfter g fun h => h = .side n }
          | _, _ => some s
  | .sideDrop n => some (s.setSide n none)
  | .readDirect t u => some { s with fs := (fsReadSector g s.fs t u).2.2 }
  | .writeDirect b t u =>
      match absSector g t u, fsWriteSector g s.fs b t u with
      | some a, (.ok, fs) => some (Mount.direct g { s with fs := (s.fs.sync g).2 } fs b a)
      | _, (_, fs) => some { s with fs := fs }

/-! ## What a run has to keep to -/

/-- The copies that are stored in are not stale, and no other copy has changes
    to their sectors. -/
def Mount.StoreAllowed (g : Geometry) (s : Mount) (touched : Holder → Prop) : Prop :=
  ∀ h, touched h → ¬ s.stale h ∧
    ∀ a h', s.home g h = some a → h' ≠ h → s.home g h' = some a → ¬ s.dirty g h' ∧ ¬ touched h'

/-- An access from `s` to `s'` stores in no copy that a write went past, and
    writes no sector past a copy that has changes to it.  Direct reads and
    writes, moving the window, syncing and loading are always allowed. -/
def Op.Allowed (g : Geometry) (s s' : Mount) : Op → Prop
  | .edit _ => s.StoreAllowed g fun h => h = .window
  | .setSectorAllocation _ _ _ | .getNextFreeSector _ _ | .allocateSectorOnTrack _
  | .allocateSector _ _ _ | .editRoot _ => s.StoreAllowed g (Mount.bamTouched g s.fs.bam s'.fs.bam)
  | .writeSector _ t u => ∀ h, s.dirty g h → s.home g h ≠ absSector g t u
  | .sideWrite n => s.StoreAllowed g fun h => h = .side n
  | _ => True

/-- One access of a run. -/
def Step (g : Geometry) (s s' : Mount) : Prop := ∃ op : Op, op.run g s = some s'

/-- One that keeps to the rules. -/
def AllowedStep (g : Geometry) (s s' : Mount) : Prop :=
  ∃ op : Op, op.run g s = some s' ∧ op.Allowed g s s'

/-- An image that was just mounted: the BAM buffers hold their sectors, nothing
    else is in memory. -/
structure Mounted (g : Geometry) (s : Mount) : Prop where
  window : s.fs.currentSector = none
  clean : s.fs.dirty = false
  flags : ∀ b i, bamFlag g.kind s.fs.bam.regs b i = false
  bam : ∀ b i a, bamHome g b i = some a → bufBlock s.fs.bam b i = s.fs.disk a
  side : ∀ n, s.side n = none
  written : s.written = s.fs.disk
  stale : ∀ h, ¬ s.stale h

/-- A direct read delivers what was written last. -/
def ReadsLatest (g : Geometry) (s : Mount) : Prop :=
  ∀ t u a b fs, absSector g t u = some a → fsReadSector g s.fs t u = (.ok, b, fs) →
    b = s.written a

/-- What changes on the medium becomes what was written last. -/
def WritesLatest (s s' : Mount) : Prop :=
  ∀ a i, s'.fs.disk a i = s.fs.disk a i ∨ s'.fs.disk a i = s'.written a i

variable {g : Geometry}

/-! ## One access -/

/-- What one access promises. -/
def Good (g : Geometry) (s s' : Mount) : Prop :=
  (s'.cache g).Current ∧ (s.cache g).Forward (s'.cache g)

theorem Flushed.good {s : Mount} {fs : Fs} (h : Flushed g s fs) : Good g s { s with fs := fs } :=
  ⟨h.current, h.forward⟩

/-- `move_window` writes the window back and fills it again. -/
theorem moveWindow_good {s s' : Mount} (hc : (s.cache g).Current) {o : Option Nat}
    (hs : (Op.moveWindow o).run g s = some s') : Good g s s' := by
  have hsame : ∀ {t : Mount}, (Op.moveWindow o).run g s = some t → (s.fs.moveWindow g o).2 = s.fs →
      Good g s t := by
    intro t ht he
    simp only [Op.run, he, if_pos] at ht
    cases ht
    exact (Flushed.refl hc).good
  cases o with
  | none => exact hsame hs rfl
  | some a =>
      by_cases hcur : s.fs.currentSector = some a
      · exact hsame hs (by rw [Fs.moveWindow, if_pos hcur])
      · cases hw : (if s.fs.dirty then s.fs.prtWrite g s.fs.sectBuffer s.fs.currentSector
            else some s.fs) with
        | none =>
            refine hsame hs ?_
            rw [Fs.moveWindow, if_neg hcur, hw]
        | some fs₁ =>
            obtain ⟨h₁, hfs, h₂⟩ := flushed_writeBack hc hw
            cases hr : fs₁.prtRead g a with
            | none =>
                have he : (s.fs.moveWindow g (some a)).2 = fs₁ := by
                  rw [Fs.moveWindow, if_neg hcur, hw]
                  dsimp only
                  rw [hr]
                simp only [Op.run, he, if_pos h₁.currentSector] at hs
                cases hs
                exact h₁.good
            | some b =>
                have he : (s.fs.moveWindow g (some a)).2 =
                    { fs₁ with sectBuffer := b, currentSector := some a, dirty := false } := by
                  rw [Fs.moveWindow, if_neg hcur, hw]
                  dsimp only
                  rw [hr]
                have hb : b = fs₁.disk a := by
                  rw [Fs.prtRead] at hr
                  split at hr
                  · cases hr
                    rfl
                  · cases hr
                simp only [Op.run, he, if_neg (Ne.symm hcur)] at hs
                cases hs
                refine ⟨h₂.current.refill (h := .window) (fun h => by cases h) rfl rfl ?_ ?_ ?_,
                  h₂.forward⟩
                · rfl
                · intro h' hne
                  refine ⟨?_, ?_, ?_⟩
                  · cases h' with
                    | window => exact absurd rfl hne
                    | bam b i => rfl
                    | side n => rfl
                  · cases h' with
                    | window => exact absurd rfl hne
                    | bam b i => rfl
                    | side n => rfl
                  · constructor
                    · rintro (⟨he', -⟩ | ⟨-, hst⟩)
                      · exact absurd he' hne
                      · exact hst
                    · exact fun hst => Or.inr ⟨hne, hst⟩
                · intro c hcur' hst
                  cases hcur'
                  refine hb.trans (h₂.current.medium_eq (h := .window) (fun h => by cases h) ?_)
                  rintro ⟨h', hne, hd, hh⟩
                  refine hst (Or.inl ⟨rfl, a, rfl, h', hne, ?_, ?_⟩)
                  · cases h' with
                    | window => exact absurd rfl hne
                    | bam b i =>
                        rw [hfs] at hd
                        exact hd
                    | side n => exact hd
                  · cases h' with
                    | window => exact absurd rfl hne
                    | bam b i => exact hh
                    | side n => exact hh

/-- Bytes are stored in the window. -/
theorem edit_good {s s' : Mount} (hc : (s.cache g).Current) {f : Block → Block}
    (hs : (Op.edit f).run g s = some s') (hal : s.StoreAllowed g fun h => h = .window) :
    Good g s s' := by
  cases hs
  refine ⟨hc.store (fun h => h = .window) rfl rfl ?_ ?_ ?_ ?_ (fun _ => Iff.rfl)
    (fun h ht => (hal h ht).1) (fun h a h' ht ha hne hh' => (hal h ht).2 a h' ha hne hh'),
    fun _ _ => Or.inl rfl⟩
  · intro h
    cases h with
    | window => exact ⟨fun _ => Or.inr rfl, fun _ => rfl⟩
    | bam b i => exact ⟨Or.inl, fun h => h.elim id fun h => nomatch h⟩
    | side n => exact ⟨Or.inl, fun h => h.elim id fun h => nomatch h⟩
  · intro h hne
    cases h with
    | window => exact absurd rfl hne
    | bam b i => rfl
    | side n => rfl
  · rintro h a rfl ha
    have ha' : s.fs.currentSector = some a := ha
    simp only [Mount.cache, ha']
    exact Function.update_self ..
  · intro a ha
    cases hcur : s.fs.currentSector with
    | none =>
        simp only [Mount.cache]
        rfl
    | some c =>
        simp only [Mount.cache]
        refine Function.update_of_ne (fun hac => ?_) ..
        exact ha .window rfl (hcur.trans (congrArg some hac.symm))

/-- The map changes in its buffers. -/
theorem withBam_good {s : Mount} (hc : (s.cache g).Current) {m : Bam}
    (hm : Marked g.kind s.fs.bam m) (hal : s.StoreAllowed g (Mount.bamTouched g s.fs.bam m)) :
    Good g s (s.withBam g m) := by
  have hflag : ∀ b i, bufBlock m b i ≠ bufBlock s.fs.bam b i →
      bamFlag g.kind m.regs b i = true := by
    intro b i hne
    obtain ⟨j, hj⟩ := Function.ne_iff.mp hne
    have hidx : (256 * i + j.val) / 256 = i := by
      have := j.isLt
      omega
    have := hm.raised ⟨b, 256 * i + j.val⟩ hj
    dsimp only at this
    rwa [hidx] at this
  refine ⟨hc.store (Mount.bamTouched g s.fs.bam m) rfl rfl ?_ ?_ ?_ ?_
    (fun _ => Iff.rfl) (fun h ht => (hal h ht).1)
    (fun h a h' ht ha hne hh' => (hal h ht).2 a h' ha hne hh'), fun _ _ => Or.inl rfl⟩
  · intro h
    cases h with
    | window => exact ⟨Or.inl, fun h => h.elim id fun h => h.elim⟩
    | bam b i =>
        constructor
        · intro hd
          cases hold : bamFlag g.kind s.fs.bam.regs b i with
          | true => exact Or.inl hold
          | false => exact Or.inr (Or.inr ⟨hold, hd⟩)
        · rintro (hd | hne | ⟨-, hd⟩)
          · exact hm.kept b i hd
          · exact hflag b i hne
          · exact hd
    | side n => exact ⟨Or.inl, fun h => h.elim id fun h => h.elim⟩
  · intro h hn
    cases h with
    | window => rfl
    | bam b i => exact of_not_not fun hne => hn (Or.inl hne)
    | side n => rfl
  · intro h a ht ha
    cases h with
    | window => exact ht.elim
    | bam b i =>
        show (match bamAt g a with
          | none => _
          | some (b, i) => _) = _
        rw [bamAt_eq ha]
        rfl
    | side n => exact ht.elim
  · intro a hno
    show (match bamAt g a with
      | none => _
      | some (b, i) => _) = _
    cases hat : bamAt g a with
    | none => rfl
    | some x =>
        obtain ⟨b, i⟩ := x
        have hn := hno (.bam b i)
        have hsame : bufBlock m b i = bufBlock s.fs.bam b i :=
          of_not_not fun hne => hn (Or.inl hne) (bamHome_of_bamAt hat)
        show overlay (bufBlock s.fs.bam b i) (bufBlock m b i) (s.written a) = s.written a
        rw [hsame]
        exact overlay_same _ _

/-- `allocate_sector` flags what it changes. -/
theorem allocateSector_marked {fs : Fs} {t u : Nat} {alloc : Bool} {r : CbmDir.AllocReply}
    (hx : CbmDir.allocateSector g fs t u alloc = some r) : Marked g.kind fs.bam r.fs.bam := by
  rw [CbmDir.allocateSector] at hx
  split at hx
  · cases hx
    exact Marked.refl _
  · split at hx
    · cases hx
      exact Marked.refl _
    · next a ha =>
        split at hx
        · cases hx
        · next ok fs₁ hset =>
            obtain ⟨⟨ok', m⟩, hm, hr⟩ := Option.map_eq_some_iff.mp hset
            cases hr
            have hdnp : g.kind = .dnp → u < 256 := fun hk => absSector_dnp_lt hk ha
            have hfirst := setSectorAllocation_marked hdnp alloc _ _ _ hm
            split at hx
            · cases hx
              exact hfirst
            · obtain ⟨⟨next, m'⟩, hm', hr⟩ := Option.map_eq_some_iff.mp hx
              have hsecond := nextHigherFree_marked (absSector_eq_some.mp ha).1 hdnp _ _ _ hm'
              cases next with
              | some x =>
                  cases hr
                  exact hfirst.trans hsecond
              | none =>
                  cases hr
                  exact hfirst.trans hsecond

/-- A sector to which no copy has changes is written past them. -/
theorem direct_good {s : Mount} (hc : (s.cache g).Current) {b : Block} {a : Nat} {f : Fs}
    (hw : s.fs.prtWrite g b (some a) = some f)
    (hno : ∀ h, s.dirty g h → s.home g h ≠ some a) : Good g s (s.direct g f b a) := by
  rw [Fs.prtWrite] at hw
  split at hw
  · cases hw
    exact hc.direct rfl rfl rfl rfl rfl (fun _ => Iff.rfl) hno
  · cases hw

/-! ## Side sectors -/

/-- A side sector is put in a file's memory. -/
theorem setSide_good {s t : Mount} (hc : (s.cache g).Current) {n : Nat} {c : Option SideCopy}
    (hfs : t.fs = s.fs) (hside : t.side = Function.update s.side n c)
    (hwritten : t.written = s.written)
    (hstale : ∀ h, h ≠ .side n → (t.stale h ↔ s.stale h))
    (hfresh : ∀ x a, c = some x → x.home g = some a → ¬ t.stale (.side n) →
      x.base = s.written a) : Good g s t := by
  have hn : t.side n = c := by
    rw [hside, Function.update_self]
  have hother : ∀ k, k ≠ n → t.side k = s.side k := by
    intro k hk
    rw [hside, Function.update_of_ne hk]
  refine ⟨hc.refill (h := .side n) (fun h => h) (congrArg Fs.disk hfs) hwritten ?_ ?_ ?_, ?_⟩
  · show t.dirty g = s.dirty g
    funext h
    cases h with
    | window => exact congrArg (fun fs => fs.dirty = true) hfs
    | bam b i => exact congrArg (fun fs => bamFlag g.kind fs.bam.regs b i = true) hfs
    | side k => rfl
  · intro h hne
    refine ⟨?_, ?_, hstale h hne⟩
    · cases h with
      | window => exact congrArg Fs.sectBuffer hfs
      | bam b i => exact congrArg (fun fs => bufBlock fs.bam b i) hfs
      | side k =>
          have hk : k ≠ n := fun he => hne (congrArg Holder.side he)
          show ((t.side k).map SideCopy.base).getD Buffer.zero = _
          rw [hother k hk]
          rfl
    · cases h with
      | window => exact congrArg Fs.currentSector hfs
      | bam b i => rfl
      | side k =>
          have hk : k ≠ n := fun he => hne (congrArg Holder.side he)
          show (t.side k).bind (SideCopy.home g) = _
          rw [hother k hk]
          rfl
  · intro a ha hst
    have ha' : (t.side n).bind (SideCopy.home g) = some a := ha
    rw [hn] at ha'
    show ((t.side n).map SideCopy.base).getD Buffer.zero = s.written a
    rw [hn]
    cases c with
    | none => exact nomatch ha'
    | some x => exact hfresh x a rfl ha' hst
  · intro a i
    exact Or.inl (congrFun (congrFun (congrArg Fs.disk hfs) a) i)

/-- What `prt->read` gets of a sector no other copy has changes to. -/
theorem readSector_written {s : Mount} (hc : (s.cache g).Current) {n t u a : Nat}
    (ha : absSector g t u = some a) (hp : ¬ (s.cache g).Pending (.side n) a) :
    (s.fs.readSector g t u).2 = s.written a := by
  have hread : s.fs.prtRead g a = some (s.fs.disk a) := if_pos (absSector_lt ha)
  rw [Fs.readSector, ha]
  dsimp only
  rw [hread]
  exact hc.medium_eq (h := .side n) (fun h => h) hp

/-- Filling a side sector from the medium, whatever the file puts in it. -/
theorem sideFill_good {s : Mount} (hc : (s.cache g).Current) (n : Nat) (t u : UInt8) (b : Block) :
    Good g s { s.setSide n (some ⟨⟨t, u, b⟩, (s.fs.readSector g t.toNat u.toNat).2⟩) with
      stale := s.staleFilled g (.side n) (absSector g t.toNat u.toNat) } := by
  refine setSide_good hc rfl rfl rfl (fun h hne => ?_) fun x a hx ha hst => ?_
  · constructor
    · rintro (⟨he, -⟩ | ⟨-, hst⟩)
      · exact absurd he hne
      · exact hst
    · exact fun hst => Or.inr ⟨hne, hst⟩
  · cases hx
    exact readSector_written hc ha fun hp => hst (Or.inl ⟨rfl, a, ha, hp⟩)

/-- A file writes a side sector. -/
theorem sideWrite_good {s s' : Mount} (hc : (s.cache g).Current) {n : Nat}
    (hs : (Op.sideWrite n).run g s = some s')
    (hal : s.StoreAllowed g fun h => h = .side n) : Good g s s' := by
  cases hn : s.side n with
  | none =>
      simp only [Op.run, hn] at hs
      cases hs
  | some c =>
      simp only [Op.run, hn] at hs
      split at hs
      · next a fs ha hw =>
          cases hs
          rw [ha, Fs.prtWrite] at hw
          split at hw
          · cases hw
            have hhome : s.home g (.side n) = some a := by
              show (s.side n).bind (SideCopy.home g) = some a
              rw [hn]
              exact ha
            obtain ⟨hst, halone⟩ := hal (.side n) rfl
            have hbase : c.base = s.written a := by
              have := hc.fresh (.side n) a hhome hst
              change ((s.side n).map SideCopy.base).getD Buffer.zero = s.written a at this
              rwa [hn] at this
            have hwritten : overlay c.base c.block.data (s.written a) = c.block.data := by
              rw [hbase]
              exact overlay_self _ _
            rw [hwritten]
            -- past all copies, then the file's own copy is filled again
            obtain ⟨h1, h2⟩ := direct_good (f := { s.fs with
              disk := Function.update s.fs.disk a c.block.data }) (b := c.block.data) hc
              (by rw [Fs.prtWrite, if_pos (absSector_lt ha)]) (fun h hd hh => by
                by_cases hne : h = .side n
                · rw [hne] at hd
                  exact hd
                · exact (halone a h hhome hne hh).1 hd)
            obtain ⟨h3, h4⟩ := setSide_good (n := n)
                (c := some { c with base := c.block.data }) (t := {
                fs := { s.fs with disk := Function.update s.fs.disk a c.block.data }
                side := Function.update s.side n (some { c with base := c.block.data })
                written := Function.update s.written a c.block.data
                stale := s.staleAfter g fun h => h = .side n }) h1 rfl rfl rfl
              (fun h hne => by
                constructor
                · rintro (hs | ⟨h', b, rfl, -, hb, hh⟩)
                  · exact Or.inl hs
                  · rw [hhome] at hb
                    cases hb
                    exact Or.inr hh
                · rintro (hs | hh)
                  · exact Or.inl hs
                  · exact Or.inr ⟨.side n, a, rfl, hne.symm, hhome, hh⟩)
              (fun x b hx hb _ => by
                cases hx
                have hab : some a = some b := ha.symm.trans hb
                cases hab
                show c.block.data = Function.update s.written a c.block.data a
                rw [Function.update_self])
            exact ⟨h3, h2.trans h4 rfl⟩
          · cases hw
      · cases hs
        exact (Flushed.refl hc).good

/-! ## Runs -/

/-- What `write_sector` can do. -/
theorem writeSector_cases (g : Geometry) (fs : Fs) (b : Block) (t u : Nat) :
    (∃ a fs', absSector g t u = some a ∧ fs.writeSector g b t u = (.ok, fs') ∧
      fs.prtWrite g b (some a) = some fs') ∨
    ((fs.writeSector g b t u).1 ≠ .ok ∧ (fs.writeSector g b t u).2 = fs) := by
  rw [Fs.writeSector]
  split
  · exact Or.inr ⟨(fun h => nomatch h), rfl⟩
  · cases ha : absSector g t u with
    | none => exact Or.inr ⟨(fun h => nomatch h), rfl⟩
    | some a =>
        dsimp only
        cases hw : fs.prtWrite g b (some a) with
        | none => exact Or.inr ⟨(fun h => nomatch h), rfl⟩
        | some fs' => exact Or.inl ⟨a, fs', rfl, rfl, hw⟩

theorem writeSector_run_of_ne {s : Mount} {b : Block} {t u : Nat}
    (hne : (s.fs.writeSector g b t u).1 ≠ .ok) (hfs : (s.fs.writeSector g b t u).2 = s.fs) :
    (Op.writeSector b t u).run g s = some s := by
  cases hx : s.fs.writeSector g b t u with
  | mk res fs =>
      rw [hx] at hne hfs
      cases hfs
      rw [Op.run, hx]
      cases absSector g t u with
      | none => rfl
      | some a =>
          cases res
          case ok => exact absurd rfl hne
          all_goals rfl

theorem fsReadSector_fs (fs : Fs) (t u : Nat) :
    (fsReadSector g fs t u).2.2 = (fs.sync g).2 := by
  rw [fsReadSector]
  split
  · next hx => rw [hx]
  · next hx => rw [hx]

/-- A direct write is `write_sector` after a `sync` that succeeded. -/
theorem writeDirect_run (s : Mount) (b : Block) (t u : Nat) :
    (Op.writeDirect b t u).run g s =
      if (s.fs.sync g).1 = .ok then (Op.writeSector b t u).run g { s with fs := (s.fs.sync g).2 }
      else some { s with fs := (s.fs.sync g).2 } := by
  cases hx : s.fs.sync g with
  | mk res fs =>
      cases res
      case ok =>
        have hw : fsWriteSector g s.fs b t u = fs.writeSector g b t u := by
          simp only [fsWriteSector, hx]
        simp only [Op.run, hw, hx, if_pos]
      all_goals
        simp only [Op.run, fsWriteSector, hx]
        cases absSector g t u <;> rfl

theorem editRoot_marked (m : Bam) (f : Block → Block) :
    Marked g.kind m (CbmDirect.editRoot m f) where
  kept := by
    intro b i h
    cases b with
    | root => rfl
    | bam2 => exact h
    | bam => exact h
  raised := by
    intro a ha
    have hroot : a.buf = .root := by
      by_contra hne
      exact ha (dif_neg fun h => hne h.1)
    rw [hroot]
    rfl

/-- Each access that keeps to the rules keeps the medium as it should be. -/
theorem Op.good {s s' : Mount} (hc : (s.cache g).Current) {op : Op}
    (hs : op.run g s = some s') (hal : op.Allowed g s s') : Good g s s' := by
  have hdnp : ∀ {t u}, ¬ absSector g t u = none → g.kind = .dnp → u < 256 := by
    intro t u hne hk
    obtain ⟨a, ha⟩ := Option.ne_none_iff_exists'.mp hne
    exact absSector_dnp_lt hk ha
  cases op with
  | moveWindow o => exact moveWindow_good hc hs
  | edit f => exact edit_good hc hs hal
  | setSectorAllocation t u alloc =>
      simp only [Op.run] at hs
      split at hs
      · cases hs
      · next hne =>
          obtain ⟨⟨ok, fs⟩, hx, rfl⟩ := Option.map_eq_some_iff.mp hs
          obtain ⟨⟨ok', m⟩, hm, hr⟩ := Option.map_eq_some_iff.mp hx
          cases hr
          exact withBam_good hc (setSectorAllocation_marked (hdnp hne) alloc _ _ _ hm) hal
  | getNextFreeSector t u =>
      obtain ⟨⟨r, fs⟩, hx, rfl⟩ := Option.map_eq_some_iff.mp hs
      obtain ⟨⟨r', m⟩, hm, hr⟩ := Option.map_eq_some_iff.mp hx
      cases hr
      exact withBam_good hc (getNextFreeSector_marked g t u _ _ _ hm) hal
  | allocateSectorOnTrack t =>
      obtain ⟨⟨r, m⟩, hm, rfl⟩ := Option.map_eq_some_iff.mp hs
      exact withBam_good hc (allocateSectorOnTrack_marked g.kind t _ _ _ hm) hal
  | allocateSector t u alloc =>
      obtain ⟨r, hx, rfl⟩ := Option.map_eq_some_iff.mp hs
      exact withBam_good hc (allocateSector_marked hx) hal
  | editRoot f =>
      cases hs
      exact withBam_good hc (editRoot_marked _ f) hal
  | sync =>
      cases hs
      exact (sync_flushed hc).1.good
  | writeSector b t u =>
      rcases writeSector_cases g s.fs b t u with ⟨a, fs, ha, hx, hw⟩ | ⟨hne, hfs⟩
      · simp only [Op.run, ha, hx] at hs
        cases hs
        refine direct_good hc hw fun h hd => ?_
        rw [← ha]
        exact hal h hd
      · rw [writeSector_run_of_ne hne hfs] at hs
        cases hs
        exact (Flushed.refl hc).good
  | sideLoad n t u =>
      cases hs
      exact sideFill_good hc n t u _
  | sideCopyWindow n t u =>
      simp only [Op.run] at hs
      split at hs
      · cases hs
      · next hcur =>
          cases hs
          rw [not_or, not_not] at hcur
          refine setSide_good hc rfl rfl rfl (fun h hne => ?_) fun x a hx ha hst => ?_
          · constructor
            · rintro (⟨he, -⟩ | ⟨-, hst⟩)
              · exact absurd he hne
              · exact hst
            · exact fun hst => Or.inr ⟨hne, hst⟩
          · cases hx
            exact hc.fresh .window a (hcur.2.trans ha) fun hst' => hst (Or.inl ⟨rfl, hst'⟩)
  | sideNew n t u =>
      cases hs
      exact sideFill_good hc n t u _
  | sideEdit n f =>
      obtain ⟨c, hn, rfl⟩ := Option.map_eq_some_iff.mp hs
      refine setSide_good hc rfl rfl rfl (fun _ _ => Iff.rfl) fun x a hx ha hst => ?_
      cases hx
      have hhome : s.home g (.side n) = some a := by
        show (s.side n).bind (SideCopy.home g) = some a
        rw [hn]
        exact ha
      have := hc.fresh (.side n) a hhome hst
      change ((s.side n).map SideCopy.base).getD Buffer.zero = s.written a at this
      rwa [hn] at this
  | sideWrite n => exact sideWrite_good hc hs hal
  | sideDrop n =>
      cases hs
      exact setSide_good hc rfl rfl rfl (fun _ _ => Iff.rfl) fun x a hx => nomatch hx
  | readDirect t u =>
      cases hs
      rw [fsReadSector_fs]
      exact (sync_flushed hc).1.good
  | writeDirect b t u =>
      obtain ⟨h₁, hclean⟩ := sync_flushed hc
      rw [writeDirect_run] at hs
      split at hs
      · next hok =>
          rcases writeSector_cases g (s.fs.sync g).2 b t u with ⟨a, fs, ha, hx, hw⟩ | ⟨hne, hfs⟩
          · simp only [Op.run, ha, hx] at hs
            cases hs
            obtain ⟨h2, h3⟩ := direct_good (s := { s with fs := (s.fs.sync g).2 }) h₁.current hw
              fun h hd hh => hclean hok h a hh hd
            refine ⟨h2, h₁.forward.trans_of h3 fun c i => ?_⟩
            rw [Fs.prtWrite] at hw
            split at hw
            · cases hw
              by_cases hca : c = a
              · right
                subst hca
                exact congrFun ((Function.update_self ..).trans (Function.update_self ..).symm) i
              · left
                exact congrFun (Function.update_of_ne hca ..) i
            · cases hw
          · rw [writeSector_run_of_ne (s := { s with fs := (s.fs.sync g).2 }) hne hfs] at hs
            cases hs
            exact h₁.good
      · cases hs
        exact h₁.good

/-! ## What a direct access finds -/

theorem Mounted.current {s : Mount} (hs : Mounted g s) : (s.cache g).Current where
  fresh := by
    intro h a ha _
    cases h with
    | window =>
        have ha' : s.fs.currentSector = some a := ha
        rw [hs.window] at ha'
        exact nomatch ha'
    | bam b i => exact (hs.bam b i a ha).trans (congrFun hs.written a).symm
    | side n =>
        have ha' : (s.side n).bind (SideCopy.home g) = some a := ha
        rw [hs.side n] at ha'
        exact nomatch ha'
  dirty_fresh := fun h _ => hs.stale h
  settled := fun a _ => (congrFun hs.written a).symm

/-- What was written last is what a direct read delivers. -/
theorem readsLatest {s : Mount} (hc : (s.cache g).Current) : ReadsLatest g s := by
  intro t u a b fs ha hr
  obtain ⟨h₁, hclean⟩ := sync_flushed hc
  rw [fsReadSector] at hr
  split at hr
  · next fs' hx =>
      rw [hx] at h₁ hclean
      have hdisk : fs'.disk a = s.written a :=
        h₁.current.settled a fun h hd hh => hclean rfl h a hh hd
      rw [Fs.readSector, ha] at hr
      dsimp only at hr
      rw [Fs.prtRead, if_pos (absSector_lt ha)] at hr
      cases hr
      exact hdisk
  · next hne hx =>
      cases hr
      exact (hne rfl).elim

/-- The invariant of a run that never stores in a stale copy. -/
theorem current_of_run {s s' : Mount} (hs : Mounted g s)
    (hrun : Relation.ReflTransGen (AllowedStep g) s s') : (s'.cache g).Current := by
  induction hrun with
  | refl => exact hs.current
  | tail _ hstep ih =>
      obtain ⟨op, hx, hal⟩ := hstep
      exact (Op.good ih hx hal).1

/-- In every run that stores in no stale copy, whatever else it does and in
    whatever order, direct reads deliver what was written last by either route,
    and every write to the medium leaves there what was written last. -/
theorem direct_access_current {s s' : Mount} (hs : Mounted g s)
    (hrun : Relation.ReflTransGen (AllowedStep g) s s') :
    ReadsLatest g s' ∧ ∀ s'', AllowedStep g s' s'' → WritesLatest s' s'' := by
  have hc := current_of_run hs hrun
  refine ⟨readsLatest hc, ?_⟩
  rintro s'' ⟨op, hx, hal⟩
  exact (Op.good hc hx hal).2

/-- Mounting an image: the BAM buffers are read from it. -/
def mount (g : Geometry) (disk : Nat → Block) : Mount where
  fs := { CbmDisk.mounted disk with
    bam.cell := fun a =>
      match bamHome g a.buf (a.idx / 256) with
      | none => 0
      | some x => (disk x).get (a.idx % 256) }
  side := fun _ => none
  written := disk
  stale := fun _ => False

theorem mounted_mount (g : Geometry) (disk : Nat → Block) : Mounted g (mount g disk) where
  window := rfl
  clean := rfl
  flags := by
    intro b i
    cases b with
    | root => rfl
    | bam2 => rfl
    | bam =>
        cases hk : g.kind with
        | dnp =>
            show (Nat.testBit 0 _ || Nat.testBit 0 _) = false
            rw [Nat.zero_testBit, Nat.zero_testBit]
            rfl
        | d64 | d71 | d81 => rfl
  bam := by
    intro b i a ha
    funext j
    have hj := j.isLt
    have hdiv : (256 * i + j.val) / 256 = i := by omega
    have hmod : (256 * i + j.val) % 256 = j.val := by omega
    show (match bamHome g b ((256 * i + j.val) / 256) with
      | none => 0
      | some x => (disk x).get ((256 * i + j.val) % 256)) = disk a j
    rw [hdiv, hmod, ha]
    exact Buffer.get_eq (disk a) hj
  side := fun _ => rfl
  written := rfl
  stale := fun _ h => h

/-- An empty D64. -/
def emptyD64 : Mount := mount ⟨.d64, 683⟩ fun _ => Buffer.zero

/-- A direct write to a data sector. -/
theorem direct_access_current_data :
    ∃ s', (Op.writeDirect (fun _ => 7) 1 0).run ⟨.d64, 683⟩ emptyD64 = some s' ∧
      ReadsLatest ⟨.d64, 683⟩ s' := by
  obtain ⟨s', hs'⟩ : ∃ s', (Op.writeDirect (fun _ => 7) 1 0).run ⟨.d64, 683⟩ emptyD64 = some s' :=
    ⟨_, rfl⟩
  exact ⟨s', hs', (direct_access_current (mounted_mount ⟨.d64, 683⟩ fun _ => Buffer.zero)
    (.single ⟨.writeDirect (fun _ => 7) 1 0, hs', trivial⟩)).1⟩

/-- The root sector is written directly, then a sector is freed: the next direct
    read finds what was in the root buffer. -/
theorem root_buffer_overwrites :
    ¬ ∀ s s' : Mount, Mounted ⟨.d64, 683⟩ s →
      Relation.ReflTransGen (Step ⟨.d64, 683⟩) s s' →
      ReadsLatest ⟨.d64, 683⟩ s' ∧ ∀ s'', Step ⟨.d64, 683⟩ s' s'' → WritesLatest s' s'' := by
  intro h
  obtain ⟨s₁, s₂, h1, h2, hok, hread, hwritten⟩ : ∃ s₁ s₂,
      (Op.writeDirect (fun _ => 7) 18 0).run ⟨.d64, 683⟩ emptyD64 = some s₁ ∧
      (Op.setSectorAllocation 1 0 false).run ⟨.d64, 683⟩ s₁ = some s₂ ∧
      (fsReadSector ⟨.d64, 683⟩ s₂.fs 18 0).1 = .ok ∧
      (fsReadSector ⟨.d64, 683⟩ s₂.fs 18 0).2.1 100 = 0 ∧ s₂.written 357 100 = 7 :=
    ⟨_, _, rfl, rfl, by decide, by decide, by decide⟩
  have hlatest := (h emptyD64 s₂ (mounted_mount _ _) (.tail (.single ⟨_, h1⟩) ⟨_, h2⟩)).1
    18 0 357 (fsReadSector ⟨.d64, 683⟩ s₂.fs 18 0).2.1 _ (by decide) (Prod.ext hok rfl)
  rw [hlatest, hwritten] at hread
  exact absurd hread (by decide)

end CbmDirect
