import Ultimate1541.ManagedTempProofs

/-! # The counts of the managed temporary files

    As long as no file is renamed or deleted under the handles that only read it, the
    path of a handle is the path of its file.  Then the count of an entry is the number of
    handles on its file, and what is deleted for the limit has none. -/

namespace ManagedTemp

open Pattern FileManager

variable {cfg : Config} {s s' : FileManager} {path : CString} {e : ManagedTempEntry}
  {es : List ManagedTempEntry} {file : Nat}

/-- The open handles on a file. -/
def FileManager.openHandles (s : FileManager) (file : Nat) : Nat :=
  s.openFileList.countP fun h => h.file == file

/-- The open handles that were opened at a path. -/
def FileManager.handlesAt (s : FileManager) (path : CString) : Nat :=
  s.openFileList.countP fun h => sameName h.path path

/-- The files on the disk. -/
def FileManager.files (s : FileManager) : List Nat := s.disk.map Prod.snd

/-- Paths, files, handles and entries belong together. -/
structure Books (cfg : Config) (s : FileManager) : Prop where
  names : s.disk.Pairwise fun a b => ¬ sameName a.1 b.1 = true
  files : s.files.Nodup
  old : ∀ f ∈ s.files, f < s.next
  handles : ∀ h ∈ s.openFileList, s.lookup h.path = some h.file
  distinct : Distinct s.managedTempEntries
  tracked : ∀ e ∈ s.managedTempEntries,
    (s.lookup e.path).isSome = true ∧ isPathUnderManagedRoot cfg e.path = true
  counts : ∀ e ∈ s.managedTempEntries, e.openCount = s.handlesAt e.path

/-- What is to be deleted when the last handle closes has one. -/
def MarkedOpen (s : FileManager) : Prop :=
  ∀ e ∈ s.managedTempEntries, e.deleteOnLastClose = true → 0 < e.openCount

/-! ## Looking a path up -/

theorem lookup_congr {p q : CString} (h : sameName p q = true) : s.lookup p = s.lookup q := by
  simp only [lookup, sameName_congr h]

theorem lookup_eq_some (h : s.lookup path = some file) :
    ∃ p, (p, file) ∈ s.disk ∧ sameName p path = true := by
  obtain ⟨d, hd, rfl⟩ := Option.map_eq_some_iff.mp h
  have hname : sameName d.1 path = true := by simpa using List.find?_some hd
  exact ⟨d.1, List.mem_of_find?_eq_some hd, hname⟩

theorem lookup_mem_files (h : s.lookup path = some file) : file ∈ s.files := by
  obtain ⟨p, hp, -⟩ := lookup_eq_some h
  exact List.mem_map_of_mem (f := Prod.snd) hp

/-- Where a file is added at the end. -/
theorem lookup_append {disk : List (CString × Nat)} (hd : s'.disk = s.disk ++ disk) :
    s'.lookup path = (s.lookup path).or ((disk.find? fun d => sameName d.1 path).map Prod.snd) := by
  simp only [lookup, hd, List.find?_append, Option.map_or]

/-- Where the file of a path is taken away. -/
theorem lookup_filter {p : CString} (hd : s'.disk = s.disk.filter fun d => !sameName d.1 p) :
    s'.lookup path = if sameName p path then none else s.lookup path := by
  rw [lookup, lookup, hd]
  induction s.disk with
  | nil => simp
  | cons d ds ih =>
      rw [List.filter_cons, List.find?_cons]
      by_cases hp : sameName d.1 p = true
      · -- Taken away, and found by those that look for the path only.
        rw [if_neg (by simp [hp]), ih]
        split
        · rfl
        next h =>
          have hno : sameName d.1 path = false :=
            Bool.eq_false_iff.mpr fun hs => h (sameName_trans (sameName_symm hp) hs)
          rw [hno]
      · rw [if_pos (by simp [hp]), List.find?_cons]
        cases hs : sameName d.1 path with
        | false => exact ih
        | true =>
            rw [if_neg fun h => hp (sameName_trans hs (sameName_symm h))]

namespace Books

/-- A file has one path. -/
theorem sameName_of_lookup (h : Books cfg s) {p q : CString} (hp : s.lookup p = some file)
    (hq : s.lookup q = some file) : sameName p q = true := by
  obtain ⟨a, ha, hap⟩ := lookup_eq_some hp
  obtain ⟨b, hb, hbq⟩ := lookup_eq_some hq
  have hab : (a, file) = (b, file) := List.inj_on_of_nodup_map h.files ha hb rfl
  cases hab
  exact sameName_trans (sameName_symm hap) hbq

/-- A file is found at its path. -/
theorem lookup_of_mem (h : Books cfg s) {d : CString × Nat} (hd : d ∈ s.disk) :
    s.lookup d.1 = some d.2 := by
  have hnames := h.names
  rw [lookup]
  generalize s.disk = disk at hd hnames ⊢
  induction disk with
  | nil => exact nomatch hd
  | cons a ds ih =>
      obtain ⟨hhead, htail⟩ := List.pairwise_cons.mp hnames
      rcases List.mem_cons.mp hd with rfl | hmem
      · simp
      · have hne : sameName a.1 d.1 = false := Bool.eq_false_iff.mpr (hhead d hmem)
        rw [List.find?_cons, hne]
        exact ih hmem htail

/-- The handles on a file are those opened at its path. -/
theorem openHandles_eq (h : Books cfg s) (hf : s.lookup path = some file) :
    s.openHandles file = s.handlesAt path := by
  refine List.countP_congr fun x hx => ?_
  rw [beq_iff_eq]
  constructor
  · rintro rfl
    exact h.sameName_of_lookup (h.handles x hx) hf
  · intro hs
    exact Option.some.inj ((h.handles x hx).symm.trans ((lookup_congr hs).trans hf))

/-- The entry of a path counts the handles on its file. -/
theorem openCount_eq (h : Books cfg s) (he : e ∈ s.managedTempEntries)
    (hf : s.lookup e.path = some file) : e.openCount = s.openHandles file :=
  (h.counts e he).trans (h.openHandles_eq hf).symm

theorem handlesAt_congr {p q : CString} (h : sameName p q = true) :
    s.handlesAt p = s.handlesAt q := by
  rw [handlesAt, List.countP_congr fun x _ => by rw [sameName_congr h], ← handlesAt]

theorem handlesAt_eq_zero (h : Books cfg s) (hf : s.lookup path = none) : s.handlesAt path = 0 := by
  rw [handlesAt, List.countP_eq_zero]
  intro x hx hs
  exact nomatch (h.handles x hx).symm.trans ((lookup_congr hs).trans hf)

/-! ## A handle more -/

end Books

/-- What is done with the count of the entry of a path. -/
def ManagedTempEntry.recount (path : CString) (g : Nat → Nat) (e : ManagedTempEntry) :
    ManagedTempEntry :=
  if sameName e.path path then { e with openCount := g e.openCount } else e

theorem recount_path (g : Nat → Nat) (e : ManagedTempEntry) : (e.recount path g).path = e.path := by
  rw [ManagedTempEntry.recount]
  split <;> rfl

theorem recount_marked (g : Nat → Nat) (e : ManagedTempEntry) :
    (e.recount path g).deleteOnLastClose = e.deleteOnLastClose := by
  rw [ManagedTempEntry.recount]
  split <;> rfl

theorem onEntry_recount (hd : Distinct es) (g : Nat → Nat) :
    onEntry path (fun e => [{ e with openCount := g e.openCount }]) es
      = es.map (ManagedTempEntry.recount path g) := by
  rw [onEntry_eq_flatMap hd, List.map_eq_flatMap]
  refine List.flatMap_congr fun e _ => ?_
  rw [ManagedTempEntry.recount]
  split <;> rfl

/-- No entry has a path that is not under the root. -/
theorem recount_of_outside (hr : ∀ e ∈ es, isPathUnderManagedRoot cfg e.path = true)
    (hp : ¬ isPathUnderManagedRoot cfg path = true) (g : Nat → Nat) :
    es.map (ManagedTempEntry.recount path g) = es := by
  refine (List.map_congr_left fun e he => ?_).trans (List.map_id es)
  exact if_neg fun hs => hp ((underRoot_congr hs).symm.trans (hr e he))

theorem noteManagedTempOpen_eq (hd : Distinct es)
    (hr : ∀ e ∈ es, isPathUnderManagedRoot cfg e.path = true) :
    noteManagedTempOpen cfg es path = es.map (ManagedTempEntry.recount path (· + 1)) := by
  rw [noteManagedTempOpen]
  split
  · exact onEntry_recount hd _
  next hp => exact (recount_of_outside hr hp _).symm

theorem noteManagedTempClose_eq (hd : Distinct es)
    (hr : ∀ e ∈ es, isPathUnderManagedRoot cfg e.path = true) :
    (noteManagedTempClose cfg es path).1 = es.map (ManagedTempEntry.recount path (· - 1)) := by
  rw [noteManagedTempClose]
  split
  · cases hf : findManagedTempEntry es path with
    | some e => exact onEntry_recount hd (· - 1)
    | none =>
        refine ((List.map_congr_left fun e he => ?_).trans (List.map_id es)).symm
        have hno := List.find?_eq_none.mp hf e he
        exact if_neg hno
  next hp => exact (recount_of_outside hr hp _).symm

theorem noteManagedTempDeleted_eq (hd : Distinct es) :
    noteManagedTempDeleted es path = es.filter fun e => !sameName e.path path := by
  rw [noteManagedTempDeleted, onEntry_eq_flatMap hd]
  clear hd
  induction es with
  | nil => rfl
  | cons e es ih =>
      rw [List.flatMap_cons, ih, List.filter_cons]
      cases sameName e.path path <;> rfl

/-- There is one entry of a path. -/
theorem unique_of_distinct {a b : ManagedTempEntry} (hd : Distinct es) (ha : a ∈ es) (hb : b ∈ es)
    (hs : sameName a.path b.path = true) : a = b :=
  eq_of_pairwise (fun _ _ h => sameName_symm h) hd ha hb hs

/-- It is the paths that are distinct. -/
theorem distinct_of_paths {es' : List ManagedTempEntry}
    (h : es'.map ManagedTempEntry.path = es.map ManagedTempEntry.path) (hd : Distinct es) :
    Distinct es' := by
  have hpaths : (es.map ManagedTempEntry.path).Pairwise fun p q => ¬ sameName p q = true :=
    List.pairwise_map.mpr hd
  rw [← h] at hpaths
  exact List.pairwise_map.mp hpaths

theorem distinct_recount (hd : Distinct es) (g : Nat → Nat) :
    Distinct (es.map (ManagedTempEntry.recount path g)) := by
  refine distinct_of_paths ?_ hd
  rw [List.map_map]
  exact List.map_congr_left fun e _ => recount_path g e

namespace Books

/-- A handle is opened on a file of the disk. -/
theorem addHandle (h : Books cfg s) (writeIntent : Bool) (hf : s.lookup path = some file) :
    Books cfg (s.addHandle cfg path writeIntent file) := by
  have hentries : (s.addHandle cfg path writeIntent file).managedTempEntries
      = s.managedTempEntries.map (ManagedTempEntry.recount path (· + 1)) :=
    noteManagedTempOpen_eq h.distinct fun e he => (h.tracked e he).2
  constructor
  · exact h.names
  · exact h.files
  · exact fun f hf => Nat.lt_succ_of_lt (h.old f hf)
  · intro x hx
    rcases List.mem_append.mp hx with hx | hx
    · exact h.handles x hx
    · cases List.mem_singleton.mp hx
      exact hf
  · rw [hentries]
    exact distinct_recount h.distinct _
  · intro e he
    rw [hentries] at he
    obtain ⟨e, hmem, rfl⟩ := List.mem_map.mp he
    rw [recount_path]
    exact h.tracked e hmem
  · intro e he
    rw [hentries] at he
    obtain ⟨e, hmem, rfl⟩ := List.mem_map.mp he
    rw [recount_path, handlesAt, FileManager.addHandle, List.countP_append, List.countP_singleton,
      ← handlesAt, ← h.counts e hmem, ManagedTempEntry.recount]
    dsimp only
    rw [sameName_comm path]
    split <;> rfl

theorem addHandle_marked (h : Books cfg s) (hm : MarkedOpen s) (writeIntent : Bool) :
    MarkedOpen (s.addHandle cfg path writeIntent file) := by
  intro e he hdel
  have hentries : (s.addHandle cfg path writeIntent file).managedTempEntries
      = s.managedTempEntries.map (ManagedTempEntry.recount path (· + 1)) :=
    noteManagedTempOpen_eq h.distinct fun e he => (h.tracked e he).2
  rw [hentries] at he
  obtain ⟨e, hmem, rfl⟩ := List.mem_map.mp he
  rw [recount_marked] at hdel
  have hpos := hm e hmem hdel
  rw [ManagedTempEntry.recount]
  split
  · exact Nat.succ_pos _
  · exact hpos

/-- A file is added to the disk. -/
theorem addFile (h : Books cfg s) (hf : s.lookup path = none) :
    Books cfg { s with disk := s.disk ++ [(path, s.next)], next := s.next + 1 } := by
  have hfile : ({ s with disk := s.disk ++ [(path, s.next)], next := s.next + 1 } :
      FileManager).files = s.files ++ [s.next] := by
    simp [FileManager.files]
  have hkeep : ∀ {p : CString} {f : Nat}, s.lookup p = some f →
      ({ s with disk := s.disk ++ [(path, s.next)], next := s.next + 1 } :
        FileManager).lookup p = some f := by
    intro p f hp
    rw [lookup_append (s := s) rfl, hp]
    rfl
  constructor
  · refine List.pairwise_append.mpr ⟨h.names, by simp, ?_⟩
    intro a ha b hb hs
    cases List.mem_singleton.mp hb
    have hnone := List.find?_eq_none.mp (Option.map_eq_none_iff.mp hf) a ha
    exact hnone hs
  · rw [hfile]
    refine List.nodup_append.mpr ⟨h.files, by simp, ?_⟩
    intro a ha b hb
    have hlt := h.old a ha
    have hb := List.mem_singleton.mp hb
    omega
  · intro f hm
    rw [hfile, List.mem_append, List.mem_singleton] at hm
    rcases hm with hm | rfl
    · exact Nat.lt_succ_of_lt (h.old f hm)
    · exact Nat.lt_succ_self _
  · exact fun x hx => hkeep (h.handles x hx)
  · exact h.distinct
  · intro e he
    obtain ⟨hsome, hroot⟩ := h.tracked e he
    obtain ⟨f, hlook⟩ := Option.isSome_iff_exists.mp hsome
    exact ⟨by rw [hkeep hlook]; rfl, hroot⟩
  · exact h.counts

/-- A new entry is added for a file that has one handle. -/
theorem addEntry (h : Books cfg s) (hsome : (s.lookup path).isSome = true)
    (hroot : isPathUnderManagedRoot cfg path = true) (hcount : s.handlesAt path = 1)
    (hnew : ∀ e ∈ s.managedTempEntries, ¬ sameName e.path path = true) (id : Nat) :
    Books cfg { s with
      managedTempEntries := s.managedTempEntries ++ [⟨id, path, 1, false⟩]
      next := s.next + 1 } where
  names := h.names
  files := h.files
  old f hf := Nat.lt_succ_of_lt (h.old f hf)
  handles := h.handles
  distinct := by
    refine List.pairwise_append.mpr ⟨h.distinct, by simp, ?_⟩
    intro a ha b hb
    cases List.mem_singleton.mp hb
    exact hnew a ha
  tracked e he := by
    rcases List.mem_append.mp he with he | he
    · exact h.tracked e he
    · cases List.mem_singleton.mp he
      exact ⟨hsome, hroot⟩
  counts e he := by
    rcases List.mem_append.mp he with he | he
    · exact h.counts e he
    · cases List.mem_singleton.mp he
      exact hcount.symm

/-- The counter for names is not looked at. -/
theorem seq (h : Books cfg s) (n : Nat) : Books cfg { s with nextTempSeq := n } :=
  ⟨h.names, h.files, h.old, h.handles, h.distinct, h.tracked, h.counts⟩

/-! ## A handle less -/

/-- A handle is closed. -/
theorem close (h : Books cfg s) {x : Handle} (hx : x ∈ s.openFileList) :
    Books cfg { s with
      managedTempEntries := (noteManagedTempClose cfg s.managedTempEntries x.path).1
      openFileList := s.openFileList.erase x } := by
  rw [noteManagedTempClose_eq h.distinct fun e he => (h.tracked e he).2]
  constructor
  · exact h.names
  · exact h.files
  · exact h.old
  · exact fun y hy => h.handles y (List.mem_of_mem_erase hy)
  · exact distinct_recount h.distinct _
  · intro e he
    obtain ⟨e, hmem, rfl⟩ := List.mem_map.mp he
    rw [recount_path]
    exact h.tracked e hmem
  · intro e he
    obtain ⟨e, hmem, rfl⟩ := List.mem_map.mp he
    have hcount := h.counts e hmem
    -- The handles of the path are the closed one, if it is among them, and the others.
    have herase := (List.perm_cons_erase hx).countP_eq fun y => sameName y.path e.path
    rw [handlesAt, herase, List.countP_cons, sameName_comm] at hcount
    rw [recount_path, ManagedTempEntry.recount]
    split
    next hs =>
      rw [if_pos hs] at hcount
      exact Nat.sub_eq_of_eq_add hcount
    next hs =>
      rw [if_neg hs] at hcount
      exact hcount

/-- Without its files that no handle is open on, and without their entries. -/
theorem delete (h : Books cfg s) (hno : s.handlesAt path = 0) :
    Books cfg { s with
      disk := s.disk.filter fun d => !sameName d.1 path
      managedTempEntries := noteManagedTempDeleted s.managedTempEntries path } := by
  have hentries : noteManagedTempDeleted s.managedTempEntries path
      = s.managedTempEntries.filter fun e => !sameName e.path path :=
    noteManagedTempDeleted_eq h.distinct
  have hkeep : ∀ {p : CString}, ¬ sameName path p = true →
      ({ s with
        disk := s.disk.filter fun d => !sameName d.1 path
        managedTempEntries := noteManagedTempDeleted s.managedTempEntries path } :
        FileManager).lookup p = s.lookup p := by
    intro p hp
    rw [lookup_filter (s := s) rfl, if_neg hp]
  have hother : ∀ x ∈ s.openFileList, ¬ sameName path x.path = true := by
    intro x hx hs
    exact List.countP_eq_zero.mp hno x hx (sameName_symm hs)
  constructor
  · exact h.names.filter _
  · exact h.files.sublist (List.filter_sublist.map Prod.snd)
  · exact fun f hf => h.old f ((List.filter_sublist.map Prod.snd).subset hf)
  · intro x hx
    rw [hkeep (hother x hx)]
    exact h.handles x hx
  · rw [hentries]
    exact h.distinct.filter _
  · intro e he
    rw [hentries, List.mem_filter] at he
    have hne : ¬ sameName path e.path = true := by
      intro hs
      rw [sameName_symm hs] at he
      exact nomatch he.2
    rw [hkeep hne]
    exact h.tracked e he.1
  · intro e he
    rw [hentries] at he
    exact h.counts e (List.mem_of_mem_filter he)

/-- An entry fewer. -/
theorem forget (h : Books cfg s) (path : CString) :
    Books cfg { s with
      managedTempEntries := noteManagedTempDeleted s.managedTempEntries path } := by
  rw [noteManagedTempDeleted_eq h.distinct]
  exact ⟨h.names, h.files, h.old, h.handles, h.distinct.filter _,
    fun e he => h.tracked e (List.mem_of_mem_filter he),
    fun e he => h.counts e (List.mem_of_mem_filter he)⟩

/-! ## Another path -/

/-- A file that no handle is open on gets a path that no file has. -/
theorem rename (h : Books cfg s) {newPath : CString} (hf : s.lookup path = some file)
    (hno : s.handlesAt path = 0) (hnew : s.lookup newPath = none) :
    Books cfg { s with
      disk := (s.disk.filter fun d => !sameName d.1 path) ++ [(newPath, file)]
      managedTempEntries := noteManagedTempRenamed cfg s.managedTempEntries path newPath } := by
  -- The file has no other path, and no other file has the new path.
  have hgone : ∀ d ∈ s.disk, ¬ sameName d.1 path = true → d.2 ≠ file := by
    rintro d hd hne rfl
    obtain ⟨p, hp, hs⟩ := lookup_eq_some hf
    have hdp : d = (p, d.2) := List.inj_on_of_nodup_map h.files hd hp rfl
    rw [hdp] at hne
    exact hne hs
  have hfree : ∀ d ∈ s.disk, ¬ sameName d.1 newPath = true :=
    fun d hd => List.find?_eq_none.mp (Option.map_eq_none_iff.mp hnew) d hd
  have hkeep : ∀ {p : CString} {f : Nat}, ¬ sameName path p = true → s.lookup p = some f →
      ({ s with
        disk := (s.disk.filter fun d => !sameName d.1 path) ++ [(newPath, file)]
        managedTempEntries := noteManagedTempRenamed cfg s.managedTempEntries path newPath } :
        FileManager).lookup p = some f := by
    intro p f hp hl
    rw [lookup_append (s := { s with disk := s.disk.filter fun d => !sameName d.1 path }) rfl,
      lookup_filter (s := s) rfl, if_neg hp, hl]
    rfl
  have hnewLookup : ({ s with
        disk := (s.disk.filter fun d => !sameName d.1 path) ++ [(newPath, file)]
        managedTempEntries := noteManagedTempRenamed cfg s.managedTempEntries path newPath } :
        FileManager).lookup newPath = some file := by
    rw [lookup_append (s := { s with disk := s.disk.filter fun d => !sameName d.1 path }) rfl,
      lookup_filter (s := s) rfl, hnew]
    simp
  have hentry : ∀ e ∈ noteManagedTempRenamed cfg s.managedTempEntries path newPath,
      (e ∈ s.managedTempEntries ∧ ¬ sameName e.path path = true) ∨
      (e.path = newPath ∧ isPathUnderManagedRoot cfg newPath = true ∧
        ∃ a ∈ s.managedTempEntries, sameName a.path path = true ∧ e.openCount = a.openCount) := by
    intro e he
    rw [noteManagedTempRenamed, onEntry_eq_flatMap h.distinct, List.mem_flatMap] at he
    obtain ⟨a, ha, he⟩ := he
    split at he
    next hs =>
      split at he
      next hroot =>
        cases List.mem_singleton.mp he
        exact Or.inr ⟨rfl, hroot, a, ha, hs, rfl⟩
      next => exact nomatch he
    next hs =>
      cases List.mem_singleton.mp he
      exact Or.inl ⟨ha, hs⟩
  have hnotNew : ∀ a ∈ s.managedTempEntries, ¬ sameName a.path newPath = true := by
    intro a ha hs
    have hsome := (h.tracked a ha).1
    rw [lookup_congr hs, hnew] at hsome
    exact nomatch hsome
  constructor
  · refine List.pairwise_append.mpr ⟨h.names.filter _, by simp, ?_⟩
    intro a ha b hb
    cases List.mem_singleton.mp hb
    exact hfree a (List.mem_of_mem_filter ha)
  · rw [FileManager.files, List.map_append]
    refine List.nodup_append.mpr
      ⟨h.files.sublist (List.filter_sublist.map Prod.snd), by simp, ?_⟩
    intro a ha b hb
    obtain ⟨d, hd, rfl⟩ := List.mem_map.mp ha
    rw [List.mem_filter] at hd
    rw [List.mem_singleton.mp hb]
    exact hgone d hd.1 (by simpa using hd.2)
  · intro f hm
    rw [FileManager.files, List.map_append, List.mem_append] at hm
    rcases hm with hm | hm
    · exact h.old f ((List.filter_sublist.map Prod.snd).subset hm)
    · rw [List.mem_singleton.mp hm]
      exact h.old file (lookup_mem_files hf)
  · intro x hx
    refine hkeep (fun hs => ?_) (h.handles x hx)
    exact List.countP_eq_zero.mp hno x hx (sameName_symm hs)
  · rw [noteManagedTempRenamed, onEntry_eq_flatMap h.distinct]
    refine List.pairwise_flatMap.mpr ⟨fun a ha => ?_, h.distinct.imp_of_mem fun {a b} ha hb hab => ?_⟩
    · split
      · split <;> simp
      · simp
    · intro x hx y hy hs
      -- One of the two at most had the path, and the other does not have the new one.
      split at hx
      next hax =>
        split at hx
        next =>
          cases List.mem_singleton.mp hx
          split at hy
          next hby => exact hab (sameName_trans hax (sameName_symm hby))
          next =>
            cases List.mem_singleton.mp hy
            exact hnotNew b hb (sameName_symm hs)
        next => exact nomatch hx
      next =>
        cases List.mem_singleton.mp hx
        split at hy
        next =>
          split at hy
          next =>
            cases List.mem_singleton.mp hy
            exact hnotNew a ha hs
          next => exact nomatch hy
        next =>
          cases List.mem_singleton.mp hy
          exact hab hs
  · intro e he
    rcases hentry e he with ⟨hmem, hne⟩ | ⟨hp, hroot, -⟩
    · obtain ⟨hsome, hr⟩ := h.tracked e hmem
      obtain ⟨f, hl⟩ := Option.isSome_iff_exists.mp hsome
      rw [hkeep (fun hs => hne (sameName_symm hs)) hl]
      exact ⟨rfl, hr⟩
    · rw [hp, hnewLookup]
      exact ⟨rfl, hroot⟩
  · intro e he
    rcases hentry e he with ⟨hmem, -⟩ | ⟨hp, -, a, ha, hs, hc⟩
    · exact h.counts e hmem
    · -- No handle has either path.
      have hzero : s.handlesAt a.path = 0 := (handlesAt_congr hs).trans hno
      rw [hc, h.counts a ha, hzero, hp]
      exact (h.handlesAt_eq_zero hnew).symm

end Books

end ManagedTemp
