import Ultimate1541.ManagedTempCountProofs

/-! # Runs with managed temporary files

    Files are created, opened, closed, renamed and deleted.  What is renamed or deleted
    under a handle that only reads it leaves the handle with a path that is not the one of
    its file, and the counts are wrong from then on; without that they are right. -/

namespace ManagedTemp

open Pattern FileManager

variable {cfg : Config} {s s' : FileManager} {path : CString} {e : ManagedTempEntry}
  {file : Nat}

/-- What is done with temporary files; the file system's answers come with it. -/
inductive Op
  | create (c : Creation) (opened : Nat → FRESULT) (tries : Nat) (answers : Nat → FRESULT)
  | fopen (path : CString) (flags : Flags) (answer : FRESULT)
  | fclose (h : Handle) (answers : Nat → FRESULT)
  | rename (oldPath newPath : CString) (answer : FRESULT)
  | delete (path : CString) (answer : FRESULT)

/-- The state after it, if it returns. -/
def Op.run (cfg : Config) (s : FileManager) : Op → Option FileManager
  | .create c opened tries answers =>
      (s.createTempFile cfg c opened tries answers).map Prod.snd
  | .fopen path flags answer => some (s.fopen cfg path flags answer).2
  | .fclose h answers => if h ∈ s.openFileList then s.fclose cfg h answers else none
  | .rename oldPath newPath answer => some (s.rename cfg oldPath newPath answer).2
  | .delete path answer => some (s.deleteFile path answer).2

/-- The runs from any disk, with operations that are `ok`. -/
inductive Run (cfg : Config) (ok : FileManager → Op → Prop) : FileManager → Prop
  | start {disk : List (CString × Nat)} {next : Nat}
      (hnames : disk.Pairwise fun a b => ¬ sameName a.1 b.1 = true)
      (hfiles : (disk.map Prod.snd).Nodup) (hold : ∀ f ∈ disk.map Prod.snd, f < next) :
      Run cfg ok (FileManager.start disk next)
  | step {s s' : FileManager} {op : Op} (hrun : Run cfg ok s) (hok : ok s op)
      (hstep : op.run cfg s = some s') : Run cfg ok s'

/-! ## What is asked of the runs -/

/-- The count of every entry is the number of handles on its file. -/
def Counts (s : FileManager) : Prop :=
  ∀ e ∈ s.managedTempEntries, ∃ file, s.lookup e.path = some file ∧
    e.openCount = s.openHandles file

/-- No file was deleted that a handle is open on. -/
def NoneOpenDeleted (s s' : FileManager) : Prop :=
  ∀ file ∈ s.files, file ∉ s'.files → s'.openHandles file = 0

/-- The operation closes the last handle on a file. -/
def Op.ClosesLast (s : FileManager) (file : Nat) : Op → Prop
  | .fclose h _ => h.file = file ∧ s.openHandles file = 1
  | _ => False

/-- A marked file is deleted when and only when its last handle closes. -/
def MarkedDeleted (s : FileManager) (op : Op) (s' : FileManager) : Prop :=
  ∀ e ∈ s.managedTempEntries, e.deleteOnLastClose = true →
    ∀ file, s.lookup e.path = some file → (file ∉ s'.files ↔ op.ClosesLast s file)

/-- The file at a path is in use for writing, or no handle is open on it. -/
def Settled (s : FileManager) (path : CString) : Prop :=
  ∀ file, s.lookup path = some file →
    s.inUseForWriting path = true ∨ s.openHandles file = 0

/-- Files are not renamed or deleted under their readers, a created file is a new one,
    and the file system deletes a marked file when it is asked to. -/
def Allowed (cfg : Config) (s : FileManager) : Op → Prop
  | .create c opened tries _ =>
      c.openFlags.createNew = true ∨
        ∀ k, c.suffix cfg s opened tries = some k → s.lookup (c.path cfg s k) = none
  | .fopen _ _ _ => True
  | .fclose h answers =>
      ∀ e ∈ s.managedTempEntries, e.deleteOnLastClose = true →
        sameName e.path h.path = true → e.openCount = 1 → answers 0 = .ok
  | .rename oldPath _ _ => Settled s oldPath
  | .delete path _ => Settled s path

/-! ## Deletions for the limit -/

/-- The books are in order, and what is marked is open. -/
structure Inv (cfg : Config) (s : FileManager) : Prop where
  books : Books cfg s
  marked : MarkedOpen s

/-- Deletions on the way from `s` to `s'`: the handles stay, and the files they are on. -/
structure Sheds (s s' : FileManager) : Prop where
  openFileList : s'.openFileList = s.openFileList
  files : ∀ f ∈ s.files, f ∈ s'.files ∨ s.openHandles f = 0

theorem Sheds.refl (s : FileManager) : Sheds s s := ⟨rfl, fun _ hf => Or.inl hf⟩

theorem Sheds.trans {t : FileManager} (h : Sheds s t) (h' : Sheds t s') : Sheds s s' := by
  refine ⟨h'.openFileList.trans h.openFileList, fun f hf => ?_⟩
  rcases h.files f hf with ht | hzero
  · refine (h'.files f ht).imp id fun hzero => ?_
    rw [openHandles, ← h.openFileList]
    exact hzero
  · exact Or.inr hzero

/-- A deletion that no handle stands against. -/
theorem deleteFile_sheds (h : Books cfg s) (hno : s.handlesAt path = 0) (answer : FRESULT) :
    Books cfg (s.deleteFile path answer).2 ∧ Sheds s (s.deleteFile path answer).2 ∧
      (MarkedOpen s → MarkedOpen (s.deleteFile path answer).2) := by
  rw [deleteFile]
  cases hf : s.lookup path with
  | none => exact ⟨h, .refl s, id⟩
  | some file =>
      dsimp only
      split
      · exact ⟨h, .refl s, id⟩
      · split
        · refine ⟨h.delete hno, ⟨rfl, ?_⟩, ?_⟩
          · -- The file that goes is the one at the path.
            intro f hm
            obtain ⟨d, hd, rfl⟩ := List.mem_map.mp hm
            by_cases hs : sameName d.1 path = true
            · refine Or.inr ?_
              rw [h.openHandles_eq (h.lookup_of_mem hd), Books.handlesAt_congr hs]
              exact hno
            · refine Or.inl (List.mem_map_of_mem (List.mem_filter.mpr ⟨hd, ?_⟩))
              simp [hs]
          · intro hmark e he hm
            rw [noteManagedTempDeleted_eq h.distinct] at he
            exact hmark e (List.mem_of_mem_filter he) hm
        · exact ⟨h, .refl s, id⟩

/-- One round of the limit. -/
theorem enforceStep_sheds {answers : Nat → FRESULT} {b b' : Enforcing} (h : Inv cfg b.s)
    (hstep : b.step (fun k s path => s.deleteFile path (answers k)) = some b') :
    Inv cfg b'.s ∧ Sheds b.s b'.s := by
  rw [Enforcing.step] at hstep
  dsimp only at hstep
  split at hstep
  next => cases hstep
  next =>
    cases hc : b.candidate (b.s.managedTempEntries.length - managedTempMaxFiles) with
    | none =>
        -- Marked is what has open handles.
        rw [hc] at hstep
        cases hstep
        have hmem : ∀ e ∈ markExcess b.s.managedTempEntries
            (b.s.managedTempEntries.length - managedTempMaxFiles),
            ∃ a ∈ b.s.managedTempEntries, e.path = a.path ∧ e.openCount = a.openCount ∧
              (e.deleteOnLastClose = true → 0 < a.openCount) := by
          intro e he
          rcases List.mem_append.mp he with he | he
          · obtain ⟨a, ha, rfl⟩ := List.mem_map.mp he
            have ha := List.mem_of_mem_take ha
            refine ⟨a, ha, ?_⟩
            split
            · exact ⟨rfl, rfl, h.marked a ha⟩
            next hne => exact ⟨rfl, rfl, fun _ => Nat.pos_of_ne_zero hne⟩
          · have ha := List.mem_of_mem_drop he
            exact ⟨e, ha, rfl, rfl, h.marked e ha⟩
        have hbooks := h.books
        refine ⟨⟨⟨hbooks.names, hbooks.files, hbooks.old, hbooks.handles, ?_, ?_, ?_⟩, ?_⟩,
          ⟨rfl, fun _ hf => Or.inl hf⟩⟩
        · have hpaths : (markExcess b.s.managedTempEntries
              (b.s.managedTempEntries.length - managedTempMaxFiles)).map ManagedTempEntry.path
              = b.s.managedTempEntries.map ManagedTempEntry.path := by
            rw [markExcess, List.map_append, List.map_map]
            conv_rhs => rw [← List.take_append_drop
              (b.s.managedTempEntries.length - managedTempMaxFiles) b.s.managedTempEntries,
              List.map_append]
            refine congrArg (· ++ _) (List.map_congr_left fun e _ => ?_)
            rw [Function.comp]
            split <;> rfl
          exact distinct_of_paths hpaths hbooks.distinct
        · intro e he
          obtain ⟨a, ha, hp, -⟩ := hmem e he
          rw [hp]
          exact hbooks.tracked a ha
        · intro e he
          obtain ⟨a, ha, hp, hcount, -⟩ := hmem e he
          rw [hp, hcount]
          exact hbooks.counts a ha
        · intro e he hm
          obtain ⟨a, -, -, hcount, hpos⟩ := hmem e he
          rw [hcount]
          exact hpos hm
    | some t =>
        rw [hc] at hstep
        have ht : t ∈ b.s.managedTempEntries :=
          List.mem_of_mem_take (List.mem_of_find?_eq_some hc)
        have hzero : t.openCount = 0 := by
          have := List.find?_some hc
          simp only [Bool.and_eq_true, beq_iff_eq] at this
          exact this.1
        have hno : b.s.handlesAt t.path = 0 := (h.books.counts t ht).symm.trans hzero
        obtain ⟨hbooks, hsheds, hmark⟩ := deleteFile_sheds h.books hno (answers b.asked)
        have hinv : Inv cfg (b.s.deleteFile t.path (answers b.asked)).2 :=
          ⟨hbooks, hmark h.marked⟩
        dsimp only at hstep
        cases hd : b.s.deleteFile t.path (answers b.asked) with
        | mk r s₁ =>
            rw [hd] at hstep hinv hsheds
            clear hbooks hmark
            cases r with
            | noFile =>
                cases hstep
                refine ⟨⟨hinv.books.forget _, ?_⟩, ⟨hsheds.openFileList, hsheds.files⟩⟩
                intro e he hm
                have hmem : e ∈ noteManagedTempDeleted s₁.managedTempEntries t.path := he
                rw [noteManagedTempDeleted_eq hinv.books.distinct] at hmem
                exact hinv.marked e (List.mem_of_mem_filter hmem) hm
            | _ =>
                cases hstep
                exact ⟨hinv, hsheds⟩

/-- No file is deleted for the limit that a handle is open on. -/
theorem enforce_sheds {answers : Nat → FRESULT} (h : Inv cfg s)
    (hrun : s.enforceTempLimits cfg answers = some s') : Inv cfg s' ∧ Sheds s s' := by
  rw [enforceTempLimits] at hrun
  split at hrun
  · obtain ⟨b, hb, rfl⟩ := Option.map_eq_some_iff.mp hrun
    refine Loop.keeps_of_run (P := fun b => Inv cfg b.s ∧ Sheds s b.s) ?_ hb ⟨h, .refl s⟩
    intro b b' hinv hstep
    obtain ⟨hinv', hsheds⟩ := enforceStep_sheds hinv.1 hstep
    exact ⟨hinv', hinv.2.trans hsheds⟩
  · cases hrun
    exact ⟨h, .refl s⟩

/-! ## One operation -/

/-- The files that are gone have had no handle, and have none. -/
def Keeps (s s' : FileManager) : Prop :=
  ∀ f ∈ s.files, f ∈ s'.files ∨ (s.openHandles f = 0 ∧ s'.openHandles f = 0)

theorem Keeps.of_files (h : ∀ f ∈ s.files, f ∈ s'.files) : Keeps s s' :=
  fun f hf => Or.inl (h f hf)

theorem Keeps.noneOpenDeleted (h : Keeps s s') : NoneOpenDeleted s s' :=
  fun f hf hgone => ((h f hf).resolve_left hgone).2

/-- A marked file has a handle, and stays. -/
theorem Keeps.markedDeleted (h : Keeps s s') (hinv : Inv cfg s) {op : Op}
    (hop : ∀ f, ¬ op.ClosesLast s f) : MarkedDeleted s op s' := by
  intro e he hm f hf
  refine iff_of_false (fun hgone => ?_) (hop f)
  have hpos := hinv.marked e he hm
  rw [hinv.books.openCount_eq he hf, ((h f (lookup_mem_files hf)).resolve_left hgone).1] at hpos
  exact absurd hpos (Nat.lt_irrefl 0)

theorem openHandles_addHandle (path : CString) (writeIntent : Bool) (file f : Nat) :
    s.openHandles f ≤ (s.addHandle cfg path writeIntent file).openHandles f := by
  rw [openHandles, openHandles, FileManager.addHandle, List.countP_append]
  exact Nat.le_add_right _ _

/-- What `fopen` does when it opens a file. -/
theorem fopen_ok {path : CString} {flags : Flags} {answer : FRESULT} (h : Inv cfg s)
    (hok : (s.fopen cfg path flags answer).1 = .ok) :
    Inv cfg (s.fopen cfg path flags answer).2 ∧
      (∀ f ∈ s.files, f ∈ (s.fopen cfg path flags answer).2.files) ∧
      (∀ f, s.openHandles f ≤ (s.fopen cfg path flags answer).2.openHandles f) ∧
      (s.fopen cfg path flags answer).2.managedTempEntries
        = noteManagedTempOpen cfg s.managedTempEntries path ∧
      ((s.fopen cfg path flags answer).2.lookup path).isSome = true ∧
      (s.fopen cfg path flags answer).2.handlesAt path = s.handlesAt path + 1 := by
  have hone : ∀ (t : FileManager) (w : Bool) (f : Nat),
      (t.addHandle cfg path w f).handlesAt path = t.handlesAt path + 1 := by
    intro t w f
    rw [handlesAt, FileManager.addHandle, List.countP_append]
    simp [handlesAt]
  rw [fopen] at hok ⊢
  cases hf : s.lookup path with
  | some file =>
      rw [hf] at hok
      dsimp only at hok ⊢
      split at hok
      next => cases hok
      next hnew =>
        split at hok
        next hans =>
          rw [if_neg hnew, if_pos hans]
          refine ⟨⟨h.books.addHandle _ hf, h.books.addHandle_marked h.marked _⟩, fun _ hf => hf,
            openHandles_addHandle path flags.write file, rfl, ?_, hone s flags.write file⟩
          show (s.lookup path).isSome = true
          rw [hf]
          rfl
        next hans => exact absurd hok hans
  | none =>
      rw [hf] at hok
      dsimp only at hok ⊢
      split at hok
      next hcreate =>
        split at hok
        next hans =>
          rw [if_pos hcreate, if_pos hans]
          have hbooks := h.books.addFile hf
          have hlook : ({ s with disk := s.disk ++ [(path, s.next)], next := s.next + 1 } :
              FileManager).lookup path = some s.next := by
            rw [lookup_append (s := s) rfl, hf]
            simp
          refine ⟨⟨hbooks.addHandle _ hlook, hbooks.addHandle_marked h.marked _⟩, ?_,
            openHandles_addHandle (s := { s with disk := s.disk ++ [(path, s.next)], next := s.next + 1 }) path flags.write s.next, rfl, ?_, hone _ flags.write s.next⟩
          · intro f hm
            rw [FileManager.files, FileManager.addHandle, List.map_append]
            exact List.mem_append_left _ hm
          · show (FileManager.lookup _ path).isSome = true
            exact (congrArg Option.isSome hlook).trans rfl
        next hans => exact absurd hok hans
      next => cases hok

/-- Where it opens none it does nothing. -/
theorem fopen_fails {cfg : Config} {s : FileManager} {path : CString} {flags : Flags}
    {answer : FRESULT}
    (hno : (s.fopen cfg path flags answer).1 ≠ .ok) : (s.fopen cfg path flags answer).2 = s := by
  rw [fopen] at hno ⊢
  cases hf : s.lookup path with
  | some file =>
      rw [hf] at hno
      dsimp only at hno ⊢
      split
      · rfl
      next hnew =>
        rw [if_neg hnew] at hno
        split
        next hans =>
          rw [if_pos hans] at hno
          exact absurd rfl hno
        · rfl
  | none =>
      rw [hf] at hno
      dsimp only at hno ⊢
      split
      next hcreate =>
        rw [if_pos hcreate] at hno
        split
        next hans =>
          rw [if_pos hans] at hno
          exact absurd rfl hno
        · rfl
      · rfl

/-- Where `FA_CREATE_NEW` opens a file there was none. -/
theorem lookup_of_createNew {flags : Flags} {answer : FRESULT} (hnew : flags.createNew = true)
    (hno : (s.fopen cfg path flags answer).1 ≠ .exist) : s.lookup path = none := by
  cases hf : s.lookup path with
  | none => rfl
  | some file =>
      rw [fopen, hf] at hno
      dsimp only at hno
      rw [if_pos hnew] at hno
      exact absurd rfl hno

theorem fopen_kept (h : Inv cfg s) (path : CString) (flags : Flags) (answer : FRESULT) :
    Inv cfg (s.fopen cfg path flags answer).2 ∧ Keeps s (s.fopen cfg path flags answer).2 := by
  by_cases hok : (s.fopen cfg path flags answer).1 = .ok
  · obtain ⟨hinv, hfiles, -⟩ := fopen_ok h hok
    exact ⟨hinv, .of_files hfiles⟩
  · rw [fopen_fails hok]
    exact ⟨h, .of_files fun _ hf => hf⟩

/-- The limit after a file was opened. -/
theorem keeps_of_sheds {t : FileManager} (hfiles : ∀ f ∈ s.files, f ∈ t.files)
    (hhandles : ∀ f, s.openHandles f ≤ t.openHandles f) (h : Sheds t s') : Keeps s s' := by
  intro f hf
  refine (h.files f (hfiles f hf)).imp id fun hzero => ?_
  refine ⟨Nat.le_zero.mp (hzero ▸ hhandles f), ?_⟩
  rw [openHandles, h.openFileList]
  exact hzero

theorem createTempFile_kept {c : Creation} {opened : Nat → FRESULT} {tries : Nat}
    {answers : Nat → FRESULT} {r : FRESULT} (h : Inv cfg s)
    (hok : Allowed cfg s (.create c opened tries answers))
    (hrun : s.createTempFile cfg c opened tries answers = some (r, s')) :
    Inv cfg s' ∧ Keeps s s' := by
  rw [createTempFile] at hrun
  cases hsuf : c.suffix cfg s opened tries with
  | none =>
      rw [hsuf] at hrun
      exact nomatch hrun
  | some k =>
      rw [hsuf] at hrun
      dsimp only at hrun
      have hseq : Inv cfg { s with nextTempSeq := s.nextTempSeq + 1 } := ⟨h.books.seq _, h.marked⟩
      have htried : (c.tried cfg s opened k).1 ≠ .exist := by
        have := List.find?_some hsuf
        simpa using this
      cases ht : c.tried cfg s opened k with
      | mk r₁ s₁ =>
          have hopen : ({ s with nextTempSeq := s.nextTempSeq + 1 } : FileManager).fopen cfg
              (c.path cfg s k) c.openFlags (opened k) = (r₁, s₁) := ht
          rw [ht] at hrun
          by_cases hr : r₁ = .ok
          · subst hr
            have hdone := @fopen_ok cfg _ (c.path cfg s k) c.openFlags (opened k) hseq
              (by rw [hopen])
            rw [hopen] at hdone
            obtain ⟨hinv, hfiles, hhandles, hentries, hsome, hcount⟩ := hdone
            -- The file is a new one.
            have hnone : s.lookup (c.path cfg s k) = none := by
              rcases hok with hnew | hnew
              · exact lookup_of_createNew (s := { s with nextTempSeq := s.nextTempSeq + 1 })
                  hnew htried
              · exact hnew k hsuf
            dsimp only at hrun
            split at hrun
            next hauto =>
              have hfresh : ∀ e ∈ s₁.managedTempEntries,
                  ¬ sameName e.path (c.path cfg s k) = true := by
                intro e he hs
                rw [hentries, noteManagedTempOpen_eq hseq.books.distinct
                  fun e he => (hseq.books.tracked e he).2] at he
                obtain ⟨a, ha, rfl⟩ := List.mem_map.mp he
                rw [recount_path] at hs
                have hlook := (h.books.tracked a ha).1
                rw [lookup_congr hs, hnone] at hlook
                exact nomatch hlook
              have hzero : FileManager.handlesAt
                  { s with nextTempSeq := s.nextTempSeq + 1 } (c.path cfg s k) = 0 :=
                h.books.handlesAt_eq_zero hnone
              rw [hzero] at hcount
              have hbooks := hinv.books.addEntry hsome
                (underRoot_buildTempPath cfg _ _ _ _ _) hcount hfresh s₁.next
              have hinv₂ : Inv cfg { s₁ with
                  managedTempEntries := s₁.managedTempEntries ++ [⟨s₁.next, c.path cfg s k, 1, false⟩]
                  next := s₁.next + 1 } := by
                refine ⟨hbooks, fun e he hm => ?_⟩
                rcases List.mem_append.mp he with he | he
                · exact hinv.marked e he hm
                · cases List.mem_singleton.mp he
                  exact nomatch hm
              split at hrun
              next =>
                obtain ⟨t, ht, heq⟩ := Option.map_eq_some_iff.mp hrun
                cases heq
                obtain ⟨hinv', hsheds⟩ := enforce_sheds hinv₂ ht
                exact ⟨hinv', keeps_of_sheds hfiles hhandles ⟨hsheds.openFileList, hsheds.files⟩⟩
              next =>
                cases hrun
                exact ⟨hinv₂, .of_files hfiles⟩
            next =>
              cases hrun
              exact ⟨hinv, .of_files hfiles⟩
          · -- No file was opened.
            have hsame : s₁ = { s with nextTempSeq := s.nextTempSeq + 1 } := by
              have hfails := @fopen_fails cfg { s with nextTempSeq := s.nextTempSeq + 1 }
                (c.path cfg s k) c.openFlags (opened k) (by rw [hopen]; exact hr)
              rw [hopen] at hfails
              exact hfails
            subst hsame
            have hend : s' = { s with nextTempSeq := s.nextTempSeq + 1 } := by
              cases r₁ <;> first | exact absurd rfl hr | (cases hrun; rfl)
            subst hend
            exact ⟨hseq, .of_files fun _ hf => hf⟩

/-- The file is settled where it is not in use for writing. -/
theorem handlesAt_of_settled (h : Inv cfg s) (hs : Settled s path)
    (huse : ¬ s.inUseForWriting path = true) (hf : s.lookup path = some file) :
    s.handlesAt path = 0 :=
  (h.books.openHandles_eq hf).symm.trans ((hs file hf).resolve_left huse)

theorem deleteFile_kept (h : Inv cfg s) (hs : Settled s path) (answer : FRESULT) :
    Inv cfg (s.deleteFile path answer).2 ∧ Keeps s (s.deleteFile path answer).2 := by
  cases hf : s.lookup path with
  | none =>
      rw [deleteFile, hf]
      exact ⟨h, .of_files fun _ hf => hf⟩
  | some file =>
      by_cases huse : s.inUseForWriting path = true
      · rw [deleteFile, hf]
        dsimp only
        rw [if_pos huse]
        exact ⟨h, .of_files fun _ hf => hf⟩
      · obtain ⟨hbooks, hsheds, hmark⟩ :=
          deleteFile_sheds h.books (handlesAt_of_settled h hs huse hf) answer
        exact ⟨⟨hbooks, hmark h.marked⟩,
          keeps_of_sheds (fun _ hf => hf) (fun _ => Nat.le_refl _) hsheds⟩

theorem rename_kept (h : Inv cfg s) (hs : Settled s path) (newPath : CString) (answer : FRESULT) :
    Inv cfg (s.rename cfg path newPath answer).2 ∧ Keeps s (s.rename cfg path newPath answer).2 := by
  have hsame : Inv cfg s ∧ Keeps s s := ⟨h, .of_files fun _ hf => hf⟩
  rw [FileManager.rename]
  cases hf : s.lookup path with
  | none => exact hsame
  | some file =>
      dsimp only
      split
      · exact hsame
      next huse =>
        have hno := handlesAt_of_settled h hs huse hf
        split
        · exact hsame
        next hnew =>
          have hnone : s.lookup newPath = none := by simpa using hnew
          split
          · refine ⟨⟨h.books.rename hf hno hnone, ?_⟩, .of_files ?_⟩
            · -- The entry that moves has no handle, so it is not marked.
              intro e he hm
              rw [noteManagedTempRenamed, onEntry_eq_flatMap h.books.distinct,
                List.mem_flatMap] at he
              obtain ⟨a, ha, he⟩ := he
              split at he
              · split at he
                · cases List.mem_singleton.mp he
                  exact h.marked a ha hm
                · cases he
              · cases List.mem_singleton.mp he
                exact h.marked e ha hm
            · intro f hm
              obtain ⟨d, hd, rfl⟩ := List.mem_map.mp hm
              rw [FileManager.files, List.map_append, List.mem_append]
              by_cases hp : sameName d.1 path = true
              · have hfile : some d.2 = some file :=
                  (h.books.lookup_of_mem hd).symm.trans ((lookup_congr hp).trans hf)
                cases hfile
                exact Or.inr (List.mem_singleton.mpr rfl)
              · refine Or.inl (List.mem_map_of_mem (List.mem_filter.mpr ⟨hd, ?_⟩))
                simp [hp]
          · exact hsame

/-! ## Closing -/

/-- The state when a handle is closed and the lock not yet given back. -/
def closing (cfg : Config) (s : FileManager) (x : Handle) : FileManager :=
  { s with
    managedTempEntries := (noteManagedTempClose cfg s.managedTempEntries x.path).1
    openFileList := s.openFileList.erase x }

theorem openHandles_closing (cfg : Config) {x : Handle} (hx : x ∈ s.openFileList) (f : Nat) :
    s.openHandles f = (closing cfg s x).openHandles f + if x.file = f then 1 else 0 := by
  have herase := (List.perm_cons_erase hx).countP_eq fun y => y.file == f
  rw [openHandles, herase, List.countP_cons]
  simp [closing, openHandles]

/-- What `fclose` is to do, and the entries when it is to do it. -/
inductive Closes (cfg : Config) (s : FileManager) (x : Handle) : AfterClose → Prop
  | nothing (hm : MarkedOpen (closing cfg s x)) : Closes cfg s x .nothing
  | delete (e : ManagedTempEntry) (he : e ∈ s.managedTempEntries)
      (hp : sameName e.path x.path = true) (hdel : e.deleteOnLastClose = true)
      (hone : e.openCount = 1)
      (hm : ∀ a ∈ (closing cfg s x).managedTempEntries, ¬ sameName a.path e.path = true →
        a.deleteOnLastClose = true → 0 < a.openCount) : Closes cfg s x (.deleteFile e.path)
  | enforce (hm : MarkedOpen (closing cfg s x)) : Closes cfg s x .enforce

/-- The entries of `closing`. -/
theorem closing_entries (h : Inv cfg s) (x : Handle) :
    (closing cfg s x).managedTempEntries
      = s.managedTempEntries.map (ManagedTempEntry.recount x.path (· - 1)) :=
  noteManagedTempClose_eq h.books.distinct fun e he => (h.books.tracked e he).2

/-- An entry that does not have the path of the handle is marked as before. -/
theorem marked_of_ne (h : Inv cfg s) {x : Handle} {a : ManagedTempEntry}
    (ha : a ∈ (closing cfg s x).managedTempEntries) (hne : ¬ sameName a.path x.path = true)
    (hm : a.deleteOnLastClose = true) : 0 < a.openCount := by
  rw [closing_entries h] at ha
  obtain ⟨b, hb, rfl⟩ := List.mem_map.mp ha
  rw [recount_path] at hne
  rw [recount_marked] at hm
  rw [ManagedTempEntry.recount, if_neg hne]
  exact h.marked b hb hm

theorem closes_spec (h : Inv cfg s) {x : Handle} (hx : x ∈ s.openFileList) :
    Closes cfg s x (noteManagedTempClose cfg s.managedTempEntries x.path).2 := by
  -- Where no entry has the path, what is marked is as it was.
  have hnone : (∀ a ∈ s.managedTempEntries, ¬ sameName a.path x.path = true) →
      MarkedOpen (closing cfg s x) := by
    intro hno a ha hm
    refine marked_of_ne h ha (fun hs => ?_) hm
    rw [closing_entries h] at ha
    obtain ⟨b, hb, rfl⟩ := List.mem_map.mp ha
    rw [recount_path] at hs
    exact hno b hb hs
  rw [noteManagedTempClose]
  split
  next hroot =>
    cases hf : findManagedTempEntry s.managedTempEntries x.path with
    | none =>
        exact .nothing (hnone fun a ha hs => List.find?_eq_none.mp hf a ha hs)
    | some e =>
        have he := List.mem_of_find?_eq_some hf
        have hp : sameName e.path x.path = true := by simpa using List.find?_some hf
        -- The handle itself is counted.
        have hpos : 0 < e.openCount := by
          rw [h.books.counts e he, handlesAt, List.countP_pos_iff]
          exact ⟨x, hx, sameName_symm hp⟩
        have hunique : ∀ b ∈ s.managedTempEntries, sameName b.path x.path = true → b = e := by
          intro b hb hs
          exact unique_of_distinct h.books.distinct hb he (sameName_trans hs (sameName_symm hp))
        dsimp only
        split
        next hzero =>
          split
          next hdel =>
            refine .delete e he hp hdel (by omega) ?_
            intro a ha hne hm
            exact marked_of_ne h ha (fun hs => hne (sameName_trans hs (sameName_symm hp))) hm
          next hdel =>
            refine .enforce fun a ha hm => ?_
            rw [closing_entries h] at ha
            obtain ⟨b, hb, rfl⟩ := List.mem_map.mp ha
            rw [recount_marked] at hm
            have hne : ¬ sameName b.path x.path = true := by
              intro hs
              rw [hunique b hb hs] at hm
              exact hdel hm
            rw [ManagedTempEntry.recount, if_neg hne]
            exact h.marked b hb hm
        next hmore =>
          refine .nothing fun a ha hm => ?_
          by_cases hs : sameName a.path x.path = true
          · rw [closing_entries h] at ha
            obtain ⟨b, hb, rfl⟩ := List.mem_map.mp ha
            rw [recount_path] at hs
            rw [ManagedTempEntry.recount, if_pos hs, hunique b hb hs]
            exact Nat.pos_of_ne_zero hmore
          · exact marked_of_ne h ha hs hm
  next hroot =>
    exact .nothing (hnone fun a ha hs =>
      hroot ((underRoot_congr hs).symm.trans (h.books.tracked a ha).2))

/-- A closed handle, and what was deleted after it. -/
theorem fclose_kept {x : Handle} {answers : Nat → FRESULT} (h : Inv cfg s)
    (hok : Allowed cfg s (.fclose x answers)) (hx : x ∈ s.openFileList)
    (hrun : s.fclose cfg x answers = some s') :
    Inv cfg s' ∧ Sheds (closing cfg s x) s' := by
  have hbooks : Books cfg (closing cfg s x) := h.books.close hx
  have hspec := closes_spec h hx
  rw [FileManager.fclose] at hrun
  cases hafter : (noteManagedTempClose cfg s.managedTempEntries x.path).2 with
  | nothing =>
      rw [hafter] at hrun hspec
      cases hrun
      cases hspec with
      | nothing hm => exact ⟨⟨hbooks, hm⟩, .refl _⟩
  | enforce =>
      rw [hafter] at hrun hspec
      cases hspec with
      | enforce hm => exact enforce_sheds ⟨hbooks, hm⟩ hrun
  | deleteFile p =>
      rw [hafter] at hrun hspec
      cases hspec with
      | delete e he hp hdel hone hm =>
          cases hrun
          have hans := hok e he hdel hp hone
          -- The count has come to nothing, and so have the handles.
          have hmem : e.recount x.path (· - 1) ∈ (closing cfg s x).managedTempEntries := by
            rw [closing_entries h]
            exact List.mem_map_of_mem he
          have hzero : (closing cfg s x).handlesAt e.path = 0 := by
            have hcount := hbooks.counts _ hmem
            rw [recount_path, ManagedTempEntry.recount, if_pos hp] at hcount
            rw [← hcount]
            dsimp only
            omega
          obtain ⟨hbooks', hsheds, -⟩ := deleteFile_sheds hbooks hzero (answers 0)
          refine ⟨⟨hbooks', ?_⟩, hsheds⟩
          -- It is deleted, and with it the entry that would be marked without a handle.
          obtain ⟨f, hf⟩ := Option.isSome_iff_exists.mp (h.books.tracked e he).1
          have hlook : (closing cfg s x).lookup e.path = some f := hf
          have huse : ¬ (closing cfg s x).inUseForWriting e.path = true := by
            intro hany
            obtain ⟨y, hy, hw⟩ := List.any_eq_true.mp hany
            rw [Bool.and_eq_true] at hw
            exact List.countP_eq_zero.mp hzero y hy hw.2
          intro a ha hdel'
          have hgone : a ∈ noteManagedTempDeleted (closing cfg s x).managedTempEntries e.path := by
            have hdone : ((closing cfg s x).deleteFile e.path (answers 0)).2.managedTempEntries
                = noteManagedTempDeleted (closing cfg s x).managedTempEntries e.path := by
              rw [deleteFile, hlook]
              dsimp only
              rw [if_neg huse, if_pos hans]
            rw [← hdone]
            exact ha
          rw [noteManagedTempDeleted_eq hbooks.distinct, List.mem_filter] at hgone
          exact hm a hgone.1 (by simpa using hgone.2) hdel'

/-! ## Runs -/

/-- The last handle on a marked file is closed, and the file goes. -/
theorem deleted_of_closesLast {x : Handle} {answers : Nat → FRESULT} (h : Inv cfg s)
    (hok : Allowed cfg s (.fclose x answers)) (hx : x ∈ s.openFileList)
    (hrun : s.fclose cfg x answers = some s') (he : e ∈ s.managedTempEntries)
    (hdel : e.deleteOnLastClose = true) (hf : s.lookup e.path = some file)
    (hfile : x.file = file) (hlast : s.openHandles file = 1) : file ∉ s'.files := by
  have hone : e.openCount = 1 := (h.books.openCount_eq he hf).trans hlast
  have hp : sameName e.path x.path = true :=
    h.books.sameName_of_lookup hf ((h.books.handles x hx).trans (congrArg some hfile))
  have hans := hok e he hdel hp hone
  -- The close finds this entry.
  have hroot : isPathUnderManagedRoot cfg x.path = true :=
    (underRoot_congr hp).symm.trans (h.books.tracked e he).2
  have hfind : findManagedTempEntry s.managedTempEntries x.path = some e := by
    cases hc : findManagedTempEntry s.managedTempEntries x.path with
    | none => exact absurd hp (List.find?_eq_none.mp hc e he)
    | some a =>
        have ha : sameName a.path x.path = true := by simpa using List.find?_some hc
        rw [unique_of_distinct h.books.distinct (List.mem_of_find?_eq_some hc) he
          (sameName_trans ha (sameName_symm hp))]
  have hafter : (noteManagedTempClose cfg s.managedTempEntries x.path).2 = .deleteFile e.path := by
    rw [noteManagedTempClose, if_pos hroot, hfind]
    dsimp only
    rw [if_pos (by omega), if_pos hdel]
  have hbooks : Books cfg (closing cfg s x) := h.books.close hx
  have hlook : (closing cfg s x).lookup e.path = some file := hf
  have hzero : (closing cfg s x).handlesAt e.path = 0 := by
    have hcount := openHandles_closing cfg hx file
    rw [if_pos hfile, hlast, hbooks.openHandles_eq hlook] at hcount
    omega
  have huse : ¬ (closing cfg s x).inUseForWriting e.path = true := by
    intro hany
    obtain ⟨y, hy, hw⟩ := List.any_eq_true.mp hany
    rw [Bool.and_eq_true] at hw
    exact List.countP_eq_zero.mp hzero y hy hw.2
  have hdone : s' = { closing cfg s x with
      disk := (closing cfg s x).disk.filter fun d => !sameName d.1 e.path
      managedTempEntries := noteManagedTempDeleted (closing cfg s x).managedTempEntries e.path } := by
    rw [FileManager.fclose, hafter] at hrun
    dsimp only at hrun
    change some ((closing cfg s x).deleteFile e.path (answers 0)).2 = some s' at hrun
    rw [deleteFile, hlook] at hrun
    dsimp only at hrun
    rw [if_neg huse, if_pos hans] at hrun
    exact (Option.some.inj hrun).symm
  rw [hdone]
  intro hmem
  obtain ⟨d, hd, rfl⟩ := List.mem_map.mp hmem
  rw [List.mem_filter] at hd
  have hname := h.books.sameName_of_lookup (h.books.lookup_of_mem hd.1) hf
  rw [hname] at hd
  cases hd.2

/-- What every allowed operation keeps, and what it deletes. -/
theorem step_kept {op : Op} (h : Inv cfg s) (hok : Allowed cfg s op)
    (hstep : op.run cfg s = some s') :
    Inv cfg s' ∧ NoneOpenDeleted s s' ∧ MarkedDeleted s op s' := by
  have hother : ∀ t, Inv cfg t ∧ Keeps s t → (∀ f, ¬ op.ClosesLast s f) →
      Inv cfg t ∧ NoneOpenDeleted s t ∧ MarkedDeleted s op t :=
    fun t ht hop => ⟨ht.1, ht.2.noneOpenDeleted, ht.2.markedDeleted h hop⟩
  cases op with
  | create c opened tries answers =>
      obtain ⟨⟨r, t⟩, ht, rfl⟩ := Option.map_eq_some_iff.mp hstep
      exact hother t (createTempFile_kept h hok ht) fun _ hop => hop
  | fopen path flags answer =>
      cases hstep
      exact hother _ (fopen_kept h path flags answer) fun _ hop => hop
  | rename oldPath newPath answer =>
      cases hstep
      exact hother _ (rename_kept h hok newPath answer) fun _ hop => hop
  | delete path answer =>
      cases hstep
      exact hother _ (deleteFile_kept h hok answer) fun _ hop => hop
  | fclose x answers =>
      by_cases hx : x ∈ s.openFileList
      · rw [Op.run, if_pos hx] at hstep
        obtain ⟨hinv, hsheds⟩ := fclose_kept h hok hx hstep
        have hgone : ∀ f ∈ s.files, f ∉ s'.files → (closing cfg s x).openHandles f = 0 :=
          fun f hf hno => (hsheds.files f hf).resolve_left hno
        refine ⟨hinv, fun f hf hno => ?_, fun e he hdel f hf => ⟨fun hno => ?_, fun hlast => ?_⟩⟩
        · rw [openHandles, hsheds.openFileList]
          exact hgone f hf hno
        · -- The file had a handle, and has none: it was the closed one.
          have hzero := hgone f (lookup_mem_files hf) hno
          have hpos := h.marked e he hdel
          have hcount := openHandles_closing cfg hx f
          rw [h.books.openCount_eq he hf, hcount, hzero] at hpos
          rw [hzero] at hcount
          split at hpos
          next hfile => exact ⟨hfile, by rw [hcount, if_pos hfile]⟩
          next => exact absurd hpos (Nat.lt_irrefl _)
        · exact deleted_of_closesLast h hok hx hstep he hdel hf hlast.1 hlast.2
      · rw [Op.run, if_neg hx] at hstep
        exact nomatch hstep

theorem inv_of_run (h : Run cfg (Allowed cfg) s) : Inv cfg s := by
  induction h with
  | start hnames hfiles hold =>
      refine ⟨⟨hnames, hfiles, hold, nofun, .nil, nofun, nofun⟩, nofun⟩
  | step hrun hok hstep ih => exact (step_kept ih hok hstep).1

theorem Inv.counts (h : Inv cfg s) : Counts s := by
  intro e he
  obtain ⟨f, hf⟩ := Option.isSome_iff_exists.mp (h.books.tracked e he).1
  exact ⟨f, hf, h.books.openCount_eq he hf⟩

/-- A temporary file without a name of its own. -/
def upload : Creation := ⟨"upload".toList, none, ⟨true, false, true, false⟩⟩

/-- The path it gets, and one to rename it to. -/
def uploadPath : CString := "/Temp/cache/upload/temp0000".toList

def renamedPath : CString := "/Temp/cache/upload/image.d64".toList

/-- It is created, on a disk without files. -/
def created : FileManager :=
  ⟨[⟨2, uploadPath, 1, false⟩], [⟨1, uploadPath, true, 0⟩], [(uploadPath, 0)], 1, 3⟩

theorem run_created {ok : FileManager → Op → Prop}
    (hok : ok (.start [] 0) (.create upload (fun _ => .ok) 1 fun _ => .ok)) :
    Run .initial ok created :=
  .step (s := .start [] 0) (.start .nil .nil nofun) hok rfl

/-- It is closed, opened for reading, renamed and closed again: one handle is still
    counted. -/
def miscounted : FileManager := ⟨[⟨2, renamedPath, 1, false⟩], [], [(renamedPath, 0)], 1, 4⟩

end ManagedTemp
