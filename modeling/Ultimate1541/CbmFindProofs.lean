import Ultimate1541.CbmDeleteProofs

/-! # Deleting and overwriting a file

    `find_file` walks the directory and marks its sectors as visited, so that
    the chains given back afterwards stop at the directory.  What it leaves is
    described by `Listing`; when it finds the file the directory is positioned
    on its entry (`findFile_onEntry`).  The main result compares the two calls
    that give a file's sectors back (`release_iff`). -/

namespace CbmDir

open CbmLayout CbmBam CbmDisk CbmFile ByteBuffer ChainWalk

variable {g : Geometry}

/-! ## The sectors of a directory -/

/-- The first sector with entries. -/
def dirStart (g : Geometry) (content : Nat → Block) (d : DirInCBM) : Option Nat :=
  match d.start with
  | some (t, s) => absSector g t s
  | none => (absSector g d.headerTrack d.headerSector).bind (links g content)

/-- A sector with entries of the directory. -/
def HasEntries (g : Geometry) (content : Nat → Block) (d : DirInCBM) (a : Nat) : Prop :=
  ∃ k, walk (links g content) (dirStart g content d) k = some a

/-- A sector of the directory: its header, or one with entries. -/
def InDirectory (g : Geometry) (content : Nat → Block) (d : DirInCBM) (a : Nat) : Prop :=
  absSector g d.headerTrack d.headerSector = some a ∨ HasEntries g content d a

theorem HasEntries.next {content : Nat → Block} {d : DirInCBM} {a b : Nat}
    (h : HasEntries g content d a) (hb : linkOf g (content a) = some b) :
    HasEntries g content d b := by
  obtain ⟨k, hk⟩ := h
  refine ⟨k + 1, ?_⟩
  show (walk (links g content) (dirStart g content d) k).bind (links g content) = some b
  rw [hk]
  exact hb

/-- A listing of the directory `d₀` under way. -/
structure Listing (g : Geometry) (d₀ d : DirInCBM) : Prop where
  exact : d.fs.Exact g
  view : d.fs.view = d₀.fs.view
  bam : d.fs.bam = d₀.fs.bam
  rootValid : d.fs.rootValid = d₀.fs.rootValid
  writable : d.fs.writable = d₀.fs.writable
  header : absSector g d.headerTrack d.headerSector
    = absSector g d₀.headerTrack d₀.headerSector
  start : d.start = d₀.start
  visited : ∀ a, d.visited a = true → InDirectory g d₀.fs.view d₀ a
  next : -1 ≤ d.idx → ∀ a, absSector g d.nextTrack d.nextSector = some a →
    HasEntries g d₀.fs.view d₀ a
  curr : -1 ≤ d.idx → ∀ a, absSector g d.currTrack d.currSector = some a →
    HasEntries g d₀.fs.view d₀ a ∧ d.visited a = true

/-- A listing that has not begun. -/
theorem Listing.openDir {d : DirInCBM} (h : d.fs.Exact g) : Listing g d d.openDir where
  exact := h
  view := rfl
  bam := rfl
  rootValid := rfl
  writable := rfl
  header := rfl
  start := rfl
  visited := fun _ ha => nomatch ha
  next := fun hidx => absurd (show (-1 : Int) ≤ -2 from hidx) (by decide)
  curr := fun hidx => absurd (show (-1 : Int) ≤ -2 from hidx) (by decide)

/-- Marking a sector of the directory. -/
theorem visited_mark {d₀ d : DirInCBM} {a : Nat}
    (h : ∀ b, d.visited b = true → InDirectory g d₀.fs.view d₀ b)
    (ha : InDirectory g d₀.fs.view d₀ a) :
    ∀ b, (d.mark a).visited b = true → InDirectory g d₀.fs.view d₀ b := by
  intro b hb
  by_cases hba : b = a
  · exact hba ▸ ha
  · have hb' : Function.update d.visited a true b = true := hb
    rw [Function.update_of_ne hba] at hb'
    exact h b hb'

/-- The step to the next index keeps a listing. -/
theorem Listing.succ {d₀ d : DirInCBM} (h : Listing g d₀ d) (hidx : -1 ≤ d.idx) :
    Listing g d₀ d.succ :=
  ⟨h.exact, h.view, h.bam, h.rootValid, h.writable, h.header, h.start, h.visited,
    fun _ => h.next hidx, fun _ => h.curr hidx⟩

/-- Only the next position changes, and it becomes the first sector with
    entries. -/
theorem toFirst_eq (d : DirInCBM) :
    ∃ t s, d.toFirst = { d with nextTrack := t, nextSector := s } ∧
      (d.start = none → t = (d.fs.sectBuffer.get 0).toNat ∧ s = (d.fs.sectBuffer.get 1).toNat) ∧
      ∀ t' s', d.start = some (t', s') → t = t' ∧ s = s' := by
  obtain ⟨idx, ct, cs, nt, ns, ht, hs, start, visited, fs⟩ := d
  rcases start with _ | ⟨t, s⟩
  · exact ⟨_, _, rfl, fun _ => ⟨rfl, rfl⟩, fun _ _ h => nomatch h⟩
  · refine ⟨t, s, rfl, (fun h => nomatch h), ?_⟩
    intro t' s' h
    cases h
    exact ⟨rfl, rfl⟩

/-- The volume entry: the header block is in view, and the position is in front
    of the first sector with entries. -/
theorem volumeEntry_listing {d₀ d d' : DirInCBM} {info : FileInfo} (h : Listing g d₀ d)
    (hidx : d.idx = -2) (hx : d.succ.volumeEntry g = (.ok, some info, d')) :
    Listing g d₀ d' ∧ d'.idx = -1 ∧ info.isVolume = true := by
  rw [DirInCBM.volumeEntry] at hx
  dsimp only at hx
  cases ha : absSector g d.headerTrack d.headerSector with
  | none =>
      rw [show absSector g d.succ.noCurrent.headerTrack d.succ.noCurrent.headerSector = none
        from ha] at hx
      exact nomatch hx
  | some a =>
      rw [show absSector g d.succ.noCurrent.headerTrack d.succ.noCurrent.headerSector = some a
        from ha] at hx
      dsimp only at hx
      by_cases hv : d.succ.noCurrent.visited a = true
      · rw [if_pos hv] at hx
        exact nomatch hx
      · obtain ⟨fs, hw, hex, -, hbuf, hview, hbam, hrv, hwr⟩ :=
          h.exact.moveWindow (absSector_lt ha)
        have hw' : d.succ.noCurrent.fs.moveWindow g (some a) = (.ok, fs) := hw
        rw [if_neg hv, hw'] at hx
        obtain ⟨t, s, hfirst, hnone, hsome⟩ := toFirst_eq ((d.succ.noCurrent.mark a).withFs fs)
        dsimp only at hx
        rw [hfirst] at hx
        cases hx
        have hidx' : d.idx + 1 = -1 := by omega
        have hhead : InDirectory g d₀.fs.view d₀ a := Or.inl (h.header ▸ ha)
        refine ⟨⟨hex, hview.trans h.view, hbam.trans h.bam, hrv.trans h.rootValid,
          hwr.trans h.writable, h.header, h.start, visited_mark (d := d) h.visited hhead,
          fun _ b hb => ⟨0, ?_⟩, fun _ b hb => ?_⟩, hidx', rfl⟩
        · show dirStart g d₀.fs.view d₀ = some b
          have hb' : absSector g t s = some b := hb
          rw [dirStart, ← h.start]
          rcases hs : d.start with _ | ⟨t', s'⟩
          · obtain ⟨rfl, rfl⟩ := hnone hs
            rw [← h.header, ha, ← hb']
            show linkOf g (d₀.fs.view a) = linkOf g fs.sectBuffer
            rw [hbuf, h.view]
          · obtain ⟨rfl, rfl⟩ := hsome t' s' hs
            exact hb'
        · have hb' : absSector g 0 0 = some b := hb
          rw [absSector_zero] at hb'
          exact nomatch hb'

/-- A sector of entries that was brought into view. -/
theorem bringInEntry_listing {d₀ d d' : DirInCBM} (h : Listing g d₀ d) (hidx : -1 ≤ d.idx)
    (hx : d.bringInEntry g = (.ok, d')) :
    Listing g d₀ d' ∧ d'.idx = d.idx ∧ ∃ a, OnEntry g d' a ∧ HasEntries g d₀.fs.view d₀ a := by
  rw [DirInCBM.bringInEntry] at hx
  by_cases hlink : d.idx % 8 = 0
  · rw [if_pos hlink] at hx
    by_cases h0 : d.stepToNext.nextTrack = 0
    · rw [if_pos h0] at hx
      exact nomatch hx
    · rw [if_neg h0] at hx
      cases ha : absSector g d.stepToNext.currTrack d.stepToNext.currSector with
      | none =>
          rw [ha] at hx
          exact nomatch hx
      | some a =>
          obtain ⟨fs, hw, hex, hcur, hbuf, hview, hbam, hrv, hwr⟩ :=
            h.exact.moveWindow (absSector_lt ha)
          have hw' : d.stepToNext.fs.moveWindow g (some a) = (.ok, fs) := hw
          have hent := h.next hidx a ha
          rw [ha] at hx
          dsimp only at hx
          rw [hw'] at hx
          dsimp only at hx
          split at hx
          · exact nomatch hx
          · cases hx
            refine ⟨⟨hex, hview.trans h.view, hbam.trans h.bam, hrv.trans h.rootValid,
              hwr.trans h.writable, h.header, h.start,
              visited_mark (d := d) h.visited (Or.inr hent), fun _ b hb => ?_,
              fun _ b hb => ?_⟩, rfl, a, ⟨hex, hcur, ha, Function.update_self ..⟩, hent⟩
            · refine hent.next ?_
              rw [← h.view, ← hbuf]
              exact hb
            · have hb' : absSector g d.stepToNext.currTrack d.stepToNext.currSector = some b := hb
              rw [ha] at hb'
              cases hb'
              exact ⟨hent, Function.update_self ..⟩
  · rw [if_neg hlink] at hx
    cases ha : absSector g d.currTrack d.currSector with
    | none =>
        rw [ha] at hx
        exact nomatch hx
    | some a =>
        obtain ⟨fs, hw, hex, hcur, -, hview, hbam, hrv, hwr⟩ :=
          h.exact.moveWindow (absSector_lt ha)
        obtain ⟨hent, hvis⟩ := h.curr hidx a ha
        rw [ha] at hx
        dsimp only at hx
        rw [hw] at hx
        cases hx
        exact ⟨⟨hex, hview.trans h.view, hbam.trans h.bam, hrv.trans h.rootValid,
          hwr.trans h.writable, h.header, h.start, h.visited, h.next, h.curr⟩, rfl, a,
          ⟨hex, hcur, ha, hvis⟩, hent⟩

theorem entryLoop_listing {d₀ : DirInCBM} :
    ∀ (rounds : Nat) (d d' : DirInCBM) (info : FileInfo), Listing g d₀ d → -1 ≤ d.idx →
      d.entryLoop g rounds = (.ok, some info, d') →
      Listing g d₀ d' ∧ -1 ≤ d'.idx ∧
        ∃ a, OnEntry g d' a ∧ HasEntries g d₀.fs.view d₀ a := by
  intro rounds
  induction rounds with
  | zero => exact fun d d' info _ _ hx => nomatch hx
  | succ rounds ih =>
      intro d d' info h hidx hx
      rw [DirInCBM.entryLoop] at hx
      rcases hy : d.bringInEntry g with ⟨res, d₁⟩
      rw [hy] at hx
      cases res
      case ok =>
        obtain ⟨h₁, hidx₁, hon⟩ := bringInEntry_listing h hidx hy
        dsimp only at hx
        by_cases hl : DirInCBM.isListed d₁.pointer = true
        · rw [if_pos hl] at hx
          cases hx
          exact ⟨h₁, by omega, hon⟩
        · rw [if_neg hl] at hx
          split at hx
          · refine ih _ d' info (h₁.succ (by omega)) ?_ hx
            show -1 ≤ d₁.idx + 1
            omega
          · exact nomatch hx
      all_goals exact nomatch hx

/-- A `get_entry` that answers something. -/
theorem getEntry_listing {d₀ d d' : DirInCBM} {info : FileInfo} (h : Listing g d₀ d)
    (hidx : -2 ≤ d.idx) (hx : d.getEntry g = (.ok, some info, d')) :
    Listing g d₀ d' ∧ -1 ≤ d'.idx ∧ (info.isVolume = false →
      ∃ a, OnEntry g d' a ∧ HasEntries g d₀.fs.view d₀ a) := by
  rw [DirInCBM.getEntry] at hx
  split at hx
  · exact nomatch hx
  · dsimp only at hx
    by_cases hvol : d.succ.idx = -1
    · rw [if_pos hvol] at hx
      have hvol' : d.idx + 1 = -1 := hvol
      obtain ⟨h', hidx', hv⟩ := volumeEntry_listing h (by omega) hx
      refine ⟨h', by omega, fun hf => ?_⟩
      rw [hv] at hf
      exact nomatch hf
    · rw [if_neg hvol] at hx
      have hvol' : d.idx + 1 ≠ -1 := hvol
      have hidx' : -1 ≤ d.succ.idx := by
        show -1 ≤ d.idx + 1
        omega
      obtain ⟨h', hidx', hon⟩ := entryLoop_listing 257 d.succ d' info (h.succ (by omega)) hidx' hx
      exact ⟨h', hidx', fun _ => hon⟩

/-- **FINDING A FILE** leaves the directory positioned on its entry, with only
    sectors of the directory marked as visited. -/
theorem findLoop_onEntry {accepts : DirEntryCBM → Bool} {d₀ : DirInCBM} :
    ∀ (fuel : Nat) (d d' : DirInCBM) (info : FileInfo), Listing g d₀ d → -2 ≤ d.idx →
      DirInCBM.findLoop g accepts fuel d = some (.ok, some info, d') →
      Listing g d₀ d' ∧ ∃ a, OnEntry g d' a ∧ HasEntries g d₀.fs.view d₀ a := by
  intro fuel
  induction fuel with
  | zero => exact fun d d' info _ _ hx => nomatch hx
  | succ fuel ih =>
      intro d d' info h hidx hx
      rw [DirInCBM.findLoop] at hx
      rcases hy : d.getEntry g with ⟨res, found, d₁⟩
      rw [hy] at hx
      match res, found with
      | .ok, some i =>
          obtain ⟨h₁, hidx₁, hon⟩ := getEntry_listing h hidx hy
          dsimp only at hx
          by_cases hv : i.isVolume = true
          · rw [if_pos hv] at hx
            exact ih d₁ d' info h₁ (by omega) hx
          · rw [if_neg hv] at hx
            split at hx
            · cases hx
              exact ⟨h₁, hon (eq_false_of_ne_true hv)⟩
            · exact ih d₁ d' info h₁ (by omega) hx
      | .ok, none => exact nomatch hx

theorem findFile_onEntry {accepts : DirEntryCBM → Bool} {fuel : Nat} {d d' : DirInCBM}
    {info : FileInfo} (h : d.fs.Exact g)
    (hx : d.findFile g accepts fuel = some (.ok, some info, d')) :
    Listing g d d' ∧ ∃ a, OnEntry g d' a ∧ HasEntries g d.fs.view d a :=
  findLoop_onEntry fuel d.openDir d' info (Listing.openDir h) (Int.le_refl (-2)) hx

/-! ## Deleting and overwriting -/

/-- The sectors of a file were released: exactly these were freed, and what is
    allocated still has another owner. -/
structure Releases (g : Geometry) (as : List Nat) (fs fs' : Fs) : Prop where
  frees : FreesExactly g fs.bam.cell fs'.bam.cell as
  owned : ∀ owner : Nat → Prop, (∀ a, Marked g fs.bam.cell a → a ∈ as ∨ owner a) →
    ∀ a, Marked g fs'.bam.cell a → owner a

/-- Freeing exactly the sectors of a file leaks nothing. -/
theorem FreesExactly.releases {as : List Nat} {fs fs' : Fs}
    (h : FreesExactly g fs.bam.cell fs'.bam.cell as) : Releases g as fs fs' where
  frees := h
  owned := by
    intro owner hcover a hm
    obtain ⟨t, s, habs, hle, hbit⟩ := hm
    have hs : s < 8 * bitBytes g.kind :=
      Nat.lt_of_lt_of_le (absSector_eq_some.mp habs).2.1 (sectors_le_bits _ t)
    rw [h t s hs, Bool.or_eq_false_iff] at hbit
    rcases hcover a ⟨t, s, habs, hle, hbit.1⟩ with ha | ha
    · exact absurd ⟨a, ha, habs⟩ (of_decide_eq_false hbit.2)
    · exact ha

/-- Allocated sectors that were freed exactly twice over are the same ones. -/
theorem FreesExactly.mem_of_mem {cell cell' : Addr → UInt8} {as bs : List Nat} {a : Nat}
    (h₁ : FreesExactly g cell cell' as) (h₂ : FreesExactly g cell cell' bs) (ha : a ∈ as)
    (hm : Marked g cell a) : a ∈ bs := by
  obtain ⟨t, s, habs, -, hbit⟩ := hm
  have hs : s < 8 * bitBytes g.kind :=
    Nat.lt_of_lt_of_le (absSector_eq_some.mp habs).2.1 (sectors_le_bits _ t)
  have heq := (h₁ t s hs).symm.trans (h₂ t s hs)
  rw [hbit, Bool.false_or, Bool.false_or, decide_eq_true ⟨a, ha, habs⟩] at heq
  obtain ⟨b, hb, hb'⟩ := of_decide_eq_true heq.symm
  rw [habs] at hb'
  cases hb'
  exact hb

/-- A record is a chain of one sector at least, and none of its sectors is one
    of the other two chains. -/
theorem FileChains.records_disjoint {content : Nat → Block} {de : DirEntryCBM}
    (c : FileChains g content de) (hne : recordsOf g content de ≠ []) :
    ¬ ∀ b ∈ c.records.flatten, b ∈ c.data ++ c.side := by
  intro hall
  have hdisj := (List.nodup_append.mp c.nodup).2.2
  rcases hr : recordsOf g content de with _ | ⟨r, refs⟩
  · exact hne hr
  · have hchains := c.records_chain
    have hmem : r ∈ recordsOf g content de := hr ▸ List.mem_cons_self ..
    have hzero : r.1 ≠ 0 := recordsOf_ne_zero r hmem
    rw [hr] at hchains
    rcases hc : c.records with _ | ⟨as, css⟩
    · rw [hc] at hchains
      exact nomatch hchains
    · rw [hc] at hchains hall hdisj
      obtain ⟨b, hb⟩ := List.exists_mem_of_ne_nil as
        ((List.forall₂_cons.mp hchains).1.ne_nil hzero)
      have hmem : b ∈ (as :: css).flatten := by
        rw [List.flatten_cons]
        exact List.mem_append_left _ hb
      exact hdisj b hmem b (hall b hmem) rfl

/-- Without records there are the other two chains. -/
theorem FileChains.sectors_of_nil {content : Nat → Block} {de : DirEntryCBM}
    (c : FileChains g content de) (hnil : recordsOf g content de = []) :
    c.sectors = c.data ++ c.side := by
  have hchains := c.records_chain
  rw [hnil] at hchains
  rw [FileChains.sectors, List.forall₂_nil_left_iff.mp hchains]
  rfl

/-- An entry without references is opened at once. -/
theorem openFile_of_cleared (junk : Indeterminate) (fuel : Nat) (flags : UInt8)
    {f : FileInCBM} (haux : f.dirEntry.at .auxTrack = 0) (hsize : f.dirEntry.at .recordSize = 0) :
    ∃ r, FileInCBM.openFile g junk fuel flags f = some r ∧ r.file.fs = f.fs := by
  have hgeos : FileInCBM.isGeosEntry f.dirEntry = false := by
    rw [FileInCBM.isGeosEntry, haux]
    exact Bool.and_false _
  rw [FileInCBM.openFile, FileInCBM.openBegin_dirEntry]
  by_cases h4 : FileInCBM.typeCode f.dirEntry = 4
  · rw [if_pos h4, FileInCBM.openRel, FileInCBM.openBegin_dirEntry, if_pos hsize]
    exact ⟨_, rfl, FileInCBM.openBegin_fs f⟩
  · rw [if_neg h4, hgeos, if_neg (by decide)]
    split
    · exact ⟨_, rfl, FileInCBM.openBegin_fs f⟩
    · exact ⟨_, rfl, FileInCBM.openBegin_fs f⟩

/-- `file_delete` releases all the sectors of the file. -/
theorem fileDelete_spec {d d' : DirInCBM} {a fuel : Nat} {junk : Indeterminate}
    {accepts : DirEntryCBM → Bool} {info : FileInfo} (hwr : d.fs.isWritable = true)
    (hfind : d.findFile g accepts fuel = some (.ok, some info, d')) (hdir : info.isDir = false)
    (hon : OnEntry g d' a) {content : Nat → Block} (hview : d'.fs.view = content)
    (c : FileChains g content d'.pointer) (hvis : ∀ b ∈ c.sectors, d'.visited b = false)
    (hmark : ∀ b ∈ c.sectors, Marked g d'.fs.bam.cell b) :
    ∃ res d'', fileDelete g junk fuel accepts d = some (res, d'') ∧
      FreesExactly g d'.fs.bam.cell d''.fs.bam.cell c.sectors := by
  subst hview
  obtain ⟨res, d'', hx, hback⟩ := deleteEntry_spec hon c hvis hmark
  refine ⟨res, d'', ?_, hback.frees⟩
  rw [fileDelete, if_neg (by rw [hwr]; decide), hfind]
  dsimp only
  rw [if_neg (by rw [hdir]; decide), hx]

/-- `file_open` with `FA_CREATE_ALWAYS` releases the data and side sectors. -/
theorem fileOpen_spec {d d' : DirInCBM} {a fuel : Nat} {junk : Indeterminate}
    {accepts : DirEntryCBM → Bool} {info : FileInfo} {flags : UInt8} {e : DirInCBM.NewEntry}
    (hwr : d.fs.isWritable = true)
    (hfind : d.findFile g accepts fuel = some (.ok, some info, d'))
    (hflags : flags &&& 0x04 = 0 ∧ flags &&& 0x08 ≠ 0)
    (hon : OnEntry g d' a) (hdata : Fs.IsDataSector g a)
    {content : Nat → Block} (hview : d'.fs.view = content)
    (c : FileChains g content d'.pointer) (hvis : ∀ b ∈ c.sectors, d'.visited b = false)
    (hmark : ∀ b ∈ c.sectors, Marked g d'.fs.bam.cell b) :
    ∃ o, fileOpen g junk fuel flags accepts e d = some o ∧
      FreesExactly g d'.fs.bam.cell o.fs.bam.cell (c.data ++ c.side) := by
  subst hview
  obtain ⟨d'', hx, hback, hzero⟩ := clearEntry_spec hon c hvis hmark
  obtain ⟨-, haux, hsize⟩ := hzero hdata
  obtain ⟨r, hy, hfs⟩ := openFile_of_cleared (g := g) junk fuel flags
    (f := FileInCBM.new g d''.fs d''.pointer d''.currTrack d''.currSector (d''.idx.tmod 8).toNat)
    haux hsize
  refine ⟨.handle r.res r.file, ?_, ?_⟩
  · rw [fileOpen, if_neg (by rw [hwr]; exact fun h => nomatch h.2), hfind]
    dsimp only
    rw [if_neg (not_not.mpr hflags.1), if_pos hflags.2, hx]
    dsimp only
    rw [openEntry, hy]
    rfl
  · show FreesExactly g d'.fs.bam.cell r.file.fs.bam.cell (c.data ++ c.side)
    rw [hfs]
    exact hback.frees

/-- The file that `find_file` finds can be released: what holds of the directory
    and the file before the two calls. -/
structure Releasable (g : Geometry) (d d' : DirInCBM) (c : FileChains g d.fs.view d'.pointer) :
    Prop where
  exact : d.fs.Exact g
  writable : d.fs.isWritable = true
  entries : ∀ a, HasEntries g d.fs.view d a → Fs.IsDataSector g a
  disjoint : ∀ a ∈ c.sectors, ¬ InDirectory g d.fs.view d a
  allocated : ∀ a ∈ c.sectors, Marked g d.fs.bam.cell a

/-- What the two calls free. -/
theorem Releasable.frees {d d' : DirInCBM} {fuel : Nat} (junk : Indeterminate)
    {accepts : DirEntryCBM → Bool} {info : FileInfo} {flags : UInt8} (e : DirInCBM.NewEntry)
    {c : FileChains g d.fs.view d'.pointer} (h : Releasable g d d' c)
    (hfind : d.findFile g accepts fuel = some (.ok, some info, d')) (hdir : info.isDir = false)
    (hflags : flags &&& 0x04 = 0 ∧ flags &&& 0x08 ≠ 0) :
    (∃ res d'', fileDelete g junk fuel accepts d = some (res, d'') ∧
      FreesExactly g d.fs.bam.cell d''.fs.bam.cell c.sectors) ∧
    ∃ o, fileOpen g junk fuel flags accepts e d = some o ∧
      FreesExactly g d.fs.bam.cell o.fs.bam.cell (c.data ++ c.side) := by
  obtain ⟨hlist, a, hon, hent⟩ := findFile_onEntry h.exact hfind
  have hvis : ∀ b ∈ c.sectors, d'.visited b = false := by
    intro b hb
    by_contra hv
    exact h.disjoint b hb (hlist.visited b (eq_true_of_ne_false hv))
  have hmark := h.allocated
  rw [← hlist.bam] at hmark ⊢
  exact ⟨fileDelete_spec h.writable hfind hdir hon hlist.view c hvis hmark,
    fileOpen_spec h.writable hfind hflags hon (h.entries a hent) hlist.view c hvis hmark⟩

/-- Overwriting a file that has records does not release it. -/
theorem not_releases_of_records {d d' : DirInCBM} {fs : Fs}
    {c : FileChains g d.fs.view d'.pointer} (h : Releasable g d d' c)
    (hne : recordsOf g d.fs.view d'.pointer ≠ [])
    (hfrees : FreesExactly g d.fs.bam.cell fs.bam.cell (c.data ++ c.side)) :
    ¬ Releases g c.sectors d.fs fs := by
  intro hrel
  refine c.records_disjoint hne fun b hb => ?_
  have hb' : b ∈ c.sectors := List.mem_append_left _ hb
  exact hrel.frees.mem_of_mem hfrees hb' (h.allocated b hb')

/-- **DELETING AND OVERWRITING RELEASE THE SAME SECTORS** exactly for the files
    without VLIR records. -/
theorem release_iff {d d' : DirInCBM} {fuel : Nat} (junk : Indeterminate)
    {accepts : DirEntryCBM → Bool} {info : FileInfo} {flags : UInt8} (e : DirInCBM.NewEntry)
    (c : FileChains g d.fs.view d'.pointer) (h : Releasable g d d' c)
    (hfind : d.findFile g accepts fuel = some (.ok, some info, d')) (hdir : info.isDir = false)
    (hflags : flags &&& 0x04 = 0 ∧ flags &&& 0x08 ≠ 0) :
    ((∃ res d'', fileDelete g junk fuel accepts d = some (res, d'') ∧
        Releases g c.sectors d.fs d''.fs) ∧
      ∃ o, fileOpen g junk fuel flags accepts e d = some o ∧ Releases g c.sectors d.fs o.fs) ↔
    recordsOf g d.fs.view d'.pointer = [] := by
  obtain ⟨⟨res, d₁, hdel, hfrees₁⟩, o, hopen, hfrees₂⟩ := h.frees junk e hfind hdir hflags
  constructor
  · rintro ⟨-, o', ho', hrel⟩
    rw [hopen] at ho'
    cases ho'
    by_contra hne
    exact not_releases_of_records h hne hfrees₂ hrel
  · intro hnil
    rw [← c.sectors_of_nil hnil] at hfrees₂
    exact ⟨⟨res, d₁, hdel, hfrees₁.releases⟩, o, hopen, hfrees₂.releases⟩

/-! ## A disk with one file -/

/-- The directory sector 18/1 of a D64 with one entry. -/
def oneEntry (de : List UInt8) : Block := (Buffer.zero.set 1 0xFF).blit 2 de

/-- A D64 with one file: its blocks are 17/0 to 17/2 (sectors 336 to 338). -/
def oneFile (de : List UInt8) (record : Block) (a : Nat) : Block :=
  if a = 358 then oneEntry de else if a = 336 then record else Buffer.zero.set 1 0xFF

/-- The root directory of that disk; every sector is marked as allocated. -/
def rootDir (disk : Nat → Block) : DirInCBM :=
  DirInCBM.new ⟨.d64, 683⟩ ⟨0, 0, 0⟩ (mounted disk) 0

/-- Its only sector with entries is 18/1. -/
theorem hasEntries_rootDir {de : List UInt8} {record : Block} {a : Nat}
    (hlink : (oneEntry de).get 0 = 0)
    (h : HasEntries ⟨.d64, 683⟩ (rootDir (oneFile de record)).fs.view
      (rootDir (oneFile de record)) a) : a = 358 := by
  obtain ⟨k, hk⟩ := h
  have hstart : dirStart ⟨.d64, 683⟩ (rootDir (oneFile de record)).fs.view
      (rootDir (oneFile de record)) = some 358 := rfl
  have hnext : links ⟨.d64, 683⟩ (rootDir (oneFile de record)).fs.view 358 = none :=
    linkOf_end hlink
  rw [hstart] at hk
  cases k with
  | zero => exact (Option.some.inj hk).symm
  | succ k =>
      rw [walk_succ, Option.bind_some, hnext, walk_none] at hk
      exact nomatch hk

/-- Away from the directory its files can be released. -/
theorem releasable_rootDir {de : List UInt8} {record : Block} {d' : DirInCBM}
    {c : FileChains ⟨.d64, 683⟩ (rootDir (oneFile de record)).fs.view d'.pointer}
    (hlink : (oneEntry de).get 0 = 0) (hc : ∀ a ∈ c.sectors, a = 336 ∨ a = 337 ∨ a = 338) :
    Releasable ⟨.d64, 683⟩ (rootDir (oneFile de record)) d' c where
  exact := (mounted_settled _ _).exact
  writable := rfl
  entries := by
    intro a ha
    rw [hasEntries_rootDir hlink ha]
    exact ⟨by decide, by rintro (h | h); exact absurd h (by decide); exact h⟩
  disjoint := by
    rintro a ha (hhead | hent)
    · have hhead' : absSector ⟨.d64, 683⟩ 18 0 = some a := hhead
      rw [show absSector ⟨.d64, 683⟩ 18 0 = some 357 by decide] at hhead'
      have := hc a ha
      have := Option.some.inj hhead'
      omega
    · have := hc a ha
      have := hasEntries_rootDir hlink hent
      omega
  allocated := by
    intro a ha
    rcases hc a ha with rfl | rfl | rfl
    · exact ⟨17, 0, by decide, by decide, freeBit_mounted _ _ _ _⟩
    · exact ⟨17, 1, by decide, by decide, freeBit_mounted _ _ _ _⟩
    · exact ⟨17, 2, by decide, by decide, freeBit_mounted _ _ _ _⟩

/-- A PRG file of one block, at 17/0. -/
def prgEntry : List UInt8 := [0x82, 17, 0]

/-- A VLIR file with its record block at 17/0 and its info block at 17/1. -/
def vlirEntry : List UInt8 := [0x83, 17, 0] ++ List.replicate 16 0xA0 ++ [17, 1, 1, 6]

/-- A record block with one record, at 17/2. -/
def oneRecord : Block := Buffer.zero.blit 1 [0xFF, 17, 2]

/-- The chains of the PRG file. -/
def prgChains {d' : DirInCBM} (hp : d'.pointer = entryOf (oneEntry prgEntry) 0) :
    FileChains ⟨.d64, 683⟩ (rootDir (oneFile prgEntry (Buffer.zero.set 1 0xFF))).fs.view
      d'.pointer where
  records := []
  data := [336]
  side := []
  records_chain := by
    rw [hp]
    exact List.Forall₂.nil
  data_chain := by
    rw [hp]
    exact ChainFrom.cons (by decide) ChainFrom.nil
  side_chain := by
    rw [hp]
    exact ChainFrom.nil
  nodup := by decide

/-- The chains of the VLIR file. -/
def vlirChains {d' : DirInCBM} (hp : d'.pointer = entryOf (oneEntry vlirEntry) 0) :
    FileChains ⟨.d64, 683⟩ (rootDir (oneFile vlirEntry oneRecord)).fs.view d'.pointer where
  records := [[338]]
  data := [336]
  side := [337]
  records_chain := by
    rw [hp]
    exact List.Forall₂.cons (ChainFrom.cons (by decide) ChainFrom.nil) List.Forall₂.nil
  data_chain := by
    rw [hp]
    exact ChainFrom.cons (by decide) ChainFrom.nil
  side_chain := by
    rw [hp]
    exact ChainFrom.cons (by decide) ChainFrom.nil
  nodup := by decide

/-- A new entry without a name. -/
def unnamed : DirInCBM.NewEntry := ⟨2, [], 26, 1, 1, 0, 0, by decide, by decide⟩

/-- The PRG file is released by both calls. -/
theorem release_prg :
    let d := rootDir (oneFile prgEntry (Buffer.zero.set 1 0xFF))
    (∃ res d'', fileDelete ⟨.d64, 683⟩ ⟨0, 0, 0⟩ 3 (fun _ => true) d = some (res, d'') ∧
      Releases ⟨.d64, 683⟩ [336] d.fs d''.fs) ∧
    ∃ o, fileOpen ⟨.d64, 683⟩ ⟨0, 0, 0⟩ 3 8 (fun _ => true) unnamed d = some o ∧
      Releases ⟨.d64, 683⟩ [336] d.fs o.fs := by
  obtain ⟨d', hfind, hp⟩ : ∃ d', (rootDir (oneFile prgEntry (Buffer.zero.set 1 0xFF))).findFile
      ⟨.d64, 683⟩ (fun _ => true) 3 = some (.ok, some ⟨false, false, some 336⟩, d') ∧
      d'.pointer = entryOf (oneEntry prgEntry) 0 := ⟨_, rfl, rfl⟩
  refine (release_iff ⟨0, 0, 0⟩ unnamed (prgChains hp)
    (releasable_rootDir rfl fun a ha => Or.inl (List.mem_singleton.mp ha)) hfind rfl
    (by decide)).mpr ?_
  rw [hp]
  rfl

/-- The record of the VLIR file stays allocated when the file is overwritten. -/
theorem release_vlir_leaks :
    ∃ d' c, Releasable ⟨.d64, 683⟩ (rootDir (oneFile vlirEntry oneRecord)) d' c ∧
      (rootDir (oneFile vlirEntry oneRecord)).findFile ⟨.d64, 683⟩ (fun _ => true) 3
        = some (.ok, some ⟨false, false, some 336⟩, d') ∧
      c.sectors = [338, 336, 337] ∧
      ¬ ∃ o, fileOpen ⟨.d64, 683⟩ ⟨0, 0, 0⟩ 3 8 (fun _ => true) unnamed
          (rootDir (oneFile vlirEntry oneRecord)) = some o ∧
        Releases ⟨.d64, 683⟩ c.sectors (rootDir (oneFile vlirEntry oneRecord)).fs o.fs := by
  obtain ⟨d', hfind, hp⟩ : ∃ d', (rootDir (oneFile vlirEntry oneRecord)).findFile
      ⟨.d64, 683⟩ (fun _ => true) 3 = some (.ok, some ⟨false, false, some 336⟩, d') ∧
      d'.pointer = entryOf (oneEntry vlirEntry) 0 := ⟨_, rfl, rfl⟩
  have hrel : Releasable ⟨.d64, 683⟩ (rootDir (oneFile vlirEntry oneRecord)) d'
      (vlirChains hp) := by
    refine releasable_rootDir rfl fun a ha => ?_
    have ha' : a ∈ [338, 336, 337] := ha
    simp only [List.mem_cons, List.not_mem_nil, or_false] at ha'
    omega
  refine ⟨d', vlirChains hp, hrel, hfind, rfl, ?_⟩
  obtain ⟨-, o, hopen, hfrees⟩ := hrel.frees ⟨0, 0, 0⟩ unnamed hfind rfl
    (show (8 : UInt8) &&& 0x04 = 0 ∧ (8 : UInt8) &&& 0x08 ≠ 0 by decide)
  rintro ⟨o', ho', hreleases⟩
  rw [hopen] at ho'
  cases ho'
  refine not_releases_of_records hrel ?_ hfrees hreleases
  rw [hp]
  decide

end CbmDir
