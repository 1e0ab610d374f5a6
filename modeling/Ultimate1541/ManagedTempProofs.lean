import Ultimate1541.LoopProofs
import Ultimate1541.PatternProofs

/-! # Managed temporary files

    The file manager keeps at most ten temporary files of its own.  Beside the handles
    it keeps a list of what it has created, with a count of the handles on each, and
    finds the entry of a file by its path: when a file is opened or closed, deleted or
    renamed.  `enforce_temp_limits` deletes what is over the limit and not in use, and
    marks what is in use, to be deleted when the last handle closes.

    Every file has an identity here, which the code does not see: a handle stays on its
    file when the file is renamed, and the entry of a file is the one with the path the
    file has now.  What the file system below answers is part of the event.  Images
    that are entered are left out: the handles are those of `fopen`. -/

namespace ManagedTemp

open Pattern

/-- `FRESULT`. -/
inductive FRESULT
  | ok | diskErr | intErr | notReady | noFile | noPath | invalidName | denied | exist
  | invalidObject | writeProtected | invalidDrive | notEnabled | noFilesystem | mkfsAborted
  | timeout | locked | notEnoughCore | tooManyOpenFiles | invalidParameter
  deriving DecidableEq

/-- `temp_auto_cleanup_enabled` and `temp_use_cache_subfolder_enabled`. -/
structure Config where
  autoCleanup : Bool
  useCacheSubfolder : Bool

/-- Both are set when the file manager starts. -/
def Config.initial : Config := ⟨true, true⟩

/-- `ManagedTempEntry`; `id` is where it is in memory. -/
structure ManagedTempEntry where
  id : Nat
  path : CString
  openCount : Nat
  deleteOnLastClose : Bool
  deriving DecidableEq

/-- A `File` of `open_file_list`, and the file it is on. -/
structure Handle where
  id : Nat
  path : CString
  writeIntent : Bool
  file : Nat
  deriving DecidableEq

/-- The entries, the open files, and the files on the disk under their paths. -/
structure FileManager where
  managedTempEntries : List ManagedTempEntry
  openFileList : List Handle
  disk : List (CString × Nat)
  nextTempSeq : Nat
  /-- for the next entry, handle or file -/
  next : Nat

/-- No temporary files yet. -/
def FileManager.start (disk : List (CString × Nat)) (next : Nat) : FileManager :=
  ⟨[], [], disk, 0, next⟩

/-! ## Paths -/

/-- `fix_filename`. -/
def fixFilename (name : CString) : CString :=
  name.map fun c => if c ∈ ['"', '*', ':', '/', '<', '>', '\\', '?', '|', ',', '\x7F'] then '_' else c

/-- `sanitize_temp_name`, with a buffer of 128 bytes. -/
def sanitizeTempName (suggestedName : Option CString) : CString :=
  match suggestedName with
  | none => []
  | some name =>
      fixFilename ((name.dropWhile fun c => c == '.' || c == '/' || c == '\\').take 127)

/-- Where `strrchr` finds the last dot, if it is not the first character. -/
def dotIndex (name : CString) : Nat :=
  let behind := (name.reverse.takeWhile (· != '.')).length
  if behind + 1 < name.length then name.length - (behind + 1) else name.length

/-- What `%d` prints. -/
def decimal (n : Nat) : CString := Nat.toDigits 10 n

/-- What `temp%04x` prints. -/
def seqName (seq : Nat) : CString :=
  "temp".toList ++ (List.replicate (4 - (Nat.toDigits 16 seq).length) '0') ++ Nat.toDigits 16 seq

/-- `append_temp_name`. -/
def appendTempName (name : CString) (suffix : Nat) : CString :=
  if suffix = 0 then name
  else name.take (dotIndex name) ++ '_' :: decimal suffix ++ name.drop (dotIndex name)

/-- `get_temp_directory_path`. -/
def getTempDirectoryPath (cfg : Config) (category : CString) : CString :=
  if cfg.useCacheSubfolder then
    "/Temp/cache".toList ++ if category = [] then [] else '/' :: category
  else "/Temp".toList

/-- `build_temp_path`. -/
def buildTempPath (cfg : Config) (category : CString) (suggestedName : Option CString)
    (seq : Nat) (uniqueName : Bool) (suffix : Nat) : CString :=
  let sanitized := sanitizeTempName suggestedName
  getTempDirectoryPath cfg category ++ '/' ::
    if uniqueName then
      if sanitized ≠ [] then appendTempName sanitized suffix
      else seqName seq ++ if suffix = 0 then [] else '_' :: decimal suffix
    else if sanitized ≠ [] then sanitized
    else seqName seq

/-- The folder that `is_path_under_managed_root` looks for. -/
def managedRoot (cfg : Config) : CString :=
  if cfg.useCacheSubfolder then "/Temp/cache/".toList else "/Temp/".toList

/-- `is_path_under_managed_root`. -/
def isPathUnderManagedRoot (cfg : Config) (path : CString) : Bool :=
  sameName (path.take (managedRoot cfg).length) (managedRoot cfg)

/-- What `build_temp_path` builds is under the root. -/
theorem underRoot_buildTempPath (cfg : Config) (category : CString)
    (suggestedName : Option CString) (seq : Nat) (uniqueName : Bool) (suffix : Nat) :
    isPathUnderManagedRoot cfg
      (buildTempPath cfg category suggestedName seq uniqueName suffix) = true := by
  have hroot : ∀ root tail : CString, sameName ((root ++ tail).take root.length) root = true := by
    intro root tail
    simp
  obtain ⟨autoCleanup, useCacheSubfolder⟩ := cfg
  cases useCacheSubfolder with
  | false => exact hroot "/Temp/".toList _
  | true =>
      by_cases hc : category = []
      · subst hc
        exact hroot "/Temp/cache/".toList _
      · have hdir : getTempDirectoryPath ⟨autoCleanup, true⟩ category
            = "/Temp/cache/".toList ++ category := by
          simp [getTempDirectoryPath, hc]
        rw [buildTempPath, hdir, List.append_assoc]
        exact hroot "/Temp/cache/".toList _

/-! ## The entries -/

/-- `find_managed_temp_entry`. -/
def findManagedTempEntry (entries : List ManagedTempEntry) (path : CString) :
    Option ManagedTempEntry :=
  entries.find? fun e => sameName e.path path

/-- What is done with the entry of a path: what is to stand in its place. -/
def onEntry (path : CString) (g : ManagedTempEntry → List ManagedTempEntry) :
    List ManagedTempEntry → List ManagedTempEntry
  | [] => []
  | e :: es => if sameName e.path path then g e ++ es else e :: onEntry path g es

/-- `note_managed_temp_open`. -/
def noteManagedTempOpen (cfg : Config) (entries : List ManagedTempEntry) (path : CString) :
    List ManagedTempEntry :=
  if isPathUnderManagedRoot cfg path then
    onEntry path (fun e => [{ e with openCount := e.openCount + 1 }]) entries
  else entries

/-- `note_managed_temp_deleted`. -/
def noteManagedTempDeleted (entries : List ManagedTempEntry) (path : CString) :
    List ManagedTempEntry :=
  onEntry path (fun _ => []) entries

/-- `note_managed_temp_renamed`. -/
def noteManagedTempRenamed (cfg : Config) (entries : List ManagedTempEntry)
    (oldPath newPath : CString) : List ManagedTempEntry :=
  onEntry oldPath
    (fun e => if isPathUnderManagedRoot cfg newPath then [{ e with path := newPath }] else [])
    entries

/-- What `fclose` is still to do when it has given back its lock. -/
inductive AfterClose
  | nothing
  | deleteFile (path : CString)
  | enforce

/-- What `fclose` does with the entry of the file it closes. -/
def noteManagedTempClose (cfg : Config) (entries : List ManagedTempEntry) (path : CString) :
    List ManagedTempEntry × AfterClose :=
  if isPathUnderManagedRoot cfg path then
    match findManagedTempEntry entries path with
    | none => (entries, .nothing)
    | some e =>
        (onEntry path (fun e => [{ e with openCount := e.openCount - 1 }]) entries,
          if e.openCount - 1 = 0 then
            if e.deleteOnLastClose then .deleteFile e.path else .enforce
          else .nothing)
  else (entries, .nothing)

/-! ## Files -/

namespace FileManager

/-- The file at a path. -/
def lookup (s : FileManager) (path : CString) : Option Nat :=
  (s.disk.find? fun d => sameName d.1 path).map Prod.snd

/-- `in_use_for_writing`. -/
def inUseForWriting (s : FileManager) (path : CString) : Bool :=
  s.openFileList.any fun h => h.writeIntent && sameName h.path path

/-- `delete_file`, when the file system answers `answer`. -/
def deleteFile (s : FileManager) (path : CString) (answer : FRESULT) : FRESULT × FileManager :=
  match s.lookup path with
  | none => (if answer = .noPath then .noPath else .noFile, s)
  | some _ =>
      if s.inUseForWriting path then (.locked, s)
      else if answer = .ok then
        (.ok, { s with
          disk := s.disk.filter fun d => !sameName d.1 path
          managedTempEntries := noteManagedTempDeleted s.managedTempEntries path })
      else (answer, s)

/-- `rename_impl`, when the file system answers `answer`. -/
def rename (cfg : Config) (s : FileManager) (oldPath newPath : CString) (answer : FRESULT) :
    FRESULT × FileManager :=
  match s.lookup oldPath with
  | none => (.noFile, s)
  | some file =>
      if s.inUseForWriting oldPath then (.locked, s)
      else if (s.lookup newPath).isSome then (.exist, s)
      else if answer = .ok then
        (.ok, { s with
          disk := (s.disk.filter fun d => !sameName d.1 oldPath) ++ [(newPath, file)]
          managedTempEntries := noteManagedTempRenamed cfg s.managedTempEntries oldPath newPath })
      else (answer, s)

/-- The flags of `fopen`. -/
structure Flags where
  write : Bool
  createNew : Bool
  createAlways : Bool
  openAlways : Bool

/-- A handle on a file, noted in the entries. -/
def addHandle (cfg : Config) (s : FileManager) (path : CString) (writeIntent : Bool) (file : Nat) :
    FileManager :=
  { s with
    openFileList := s.openFileList ++ [⟨s.next, path, writeIntent, file⟩]
    managedTempEntries := noteManagedTempOpen cfg s.managedTempEntries path
    next := s.next + 1 }

/-- `fopen`, when the file system answers `answer`. -/
def fopen (cfg : Config) (s : FileManager) (path : CString) (flags : Flags) (answer : FRESULT) :
    FRESULT × FileManager :=
  match s.lookup path with
  | some file =>
      if flags.createNew then (.exist, s)
      else if answer = .ok then (.ok, s.addHandle cfg path flags.write file)
      else (answer, s)
  | none =>
      if flags.createNew || flags.createAlways || flags.openAlways then
        if answer = .ok then
          (.ok, { s with disk := s.disk ++ [(path, s.next)], next := s.next + 1 }.addHandle cfg
            path flags.write s.next)
        else (answer, s)
      else (.noFile, s)

/-! ## The limit -/

/-- `kManagedTempMaxFiles`. -/
def managedTempMaxFiles : Nat := 10

/-- Where `enforce_temp_limits` stands: the entries it could not delete, and how many
    deletions it has asked for. -/
structure Enforcing where
  s : FileManager
  failedCandidates : List Nat
  asked : Nat
  returned : Bool

/-- The oldest entry over the limit that no handle is open on and that was not tried. -/
def Enforcing.candidate (e : Enforcing) (excess : Nat) : Option ManagedTempEntry :=
  (e.s.managedTempEntries.take excess).find? fun t =>
    t.openCount == 0 && !e.failedCandidates.contains t.id

/-- The entries over the limit that handles are open on are deleted later. -/
def markExcess (entries : List ManagedTempEntry) (excess : Nat) : List ManagedTempEntry :=
  (entries.take excess).map
    (fun t => if t.openCount = 0 then t else { t with deleteOnLastClose := true })
      ++ entries.drop excess

/-- One round of `enforce_temp_limits`, where `del` deletes the file at a path. -/
def Enforcing.step (del : Nat → FileManager → CString → FRESULT × FileManager) (e : Enforcing) :
    Option Enforcing :=
  let excess := e.s.managedTempEntries.length - managedTempMaxFiles
  if e.returned ∨ excess = 0 then none
  else
    match e.candidate excess with
    | some t =>
        match del e.asked e.s t.path with
        | (.ok, s) => some ⟨s, [], e.asked + 1, false⟩
        | (.noFile, s) =>
            some ⟨{ s with
              managedTempEntries := noteManagedTempDeleted s.managedTempEntries t.path },
              [], e.asked + 1, false⟩
        | (_, s) =>
            let failed := e.failedCandidates ++ [t.id]
            some ⟨s, failed, e.asked + 1, excess ≤ failed.length⟩
    | none =>
        some ⟨{ e.s with managedTempEntries := markExcess e.s.managedTempEntries excess },
          e.failedCandidates, e.asked, true⟩

/-- Rounds enough for `n` entries. -/
def enforceRounds (n : Nat) : Nat := (n + 1) * (n + 2) + 2

/-- `enforce_temp_limits`; the file system answers `answers k` when it is asked to delete
    for the `k`-th time. -/
def enforceTempLimits (cfg : Config) (answers : Nat → FRESULT) (s : FileManager) :
    Option FileManager :=
  if cfg.autoCleanup then
    (Loop.run (Enforcing.step fun k s path => s.deleteFile path (answers k))
      (enforceRounds s.managedTempEntries.length) ⟨s, [], 0, false⟩).map Enforcing.s
  else some s

/-! ## Creating and closing -/

/-- What `create_temp_file` is asked for. -/
structure Creation where
  category : CString
  suggestedName : Option CString
  flags : Flags

/-- `create_temp_file` asks for `FA_CREATE_NEW` in place of `FA_CREATE_ALWAYS`. -/
def Creation.openFlags (c : Creation) : Flags :=
  if c.flags.createAlways then { c.flags with createAlways := false, createNew := true }
  else c.flags

/-- The path that is tried with a suffix. -/
def Creation.path (c : Creation) (cfg : Config) (s : FileManager) (suffix : Nat) : CString :=
  buildTempPath cfg c.category c.suggestedName s.nextTempSeq true suffix

/-- What `fopen` answers for it. -/
def Creation.tried (c : Creation) (cfg : Config) (s : FileManager) (opened : Nat → FRESULT)
    (suffix : Nat) : FRESULT × FileManager :=
  { s with nextTempSeq := s.nextTempSeq + 1 }.fopen cfg (c.path cfg s suffix) c.openFlags
    (opened suffix)

/-- The first suffix, of so many, that `fopen` does not answer with `FR_EXIST`. -/
def Creation.suffix (c : Creation) (cfg : Config) (s : FileManager) (opened : Nat → FRESULT)
    (tries : Nat) : Option Nat :=
  (List.range tries).find? fun k => (c.tried cfg s opened k).1 != .exist

/-- `create_temp_file`; the file system answers `opened k` when it is asked for the suffix
    `k`, and then `answers`. -/
def createTempFile (cfg : Config) (s : FileManager) (c : Creation) (opened : Nat → FRESULT)
    (tries : Nat) (answers : Nat → FRESULT) : Option (FRESULT × FileManager) :=
  match c.suffix cfg s opened tries with
  | none => none
  | some suffix =>
      let path := c.path cfg s suffix
      match c.tried cfg s opened suffix with
      | (.ok, s₁) =>
          if cfg.autoCleanup then
            let s₂ := { s₁ with
              managedTempEntries := s₁.managedTempEntries ++ [⟨s₁.next, path, 1, false⟩]
              next := s₁.next + 1 }
            if managedTempMaxFiles < s₂.managedTempEntries.length then
              (s₂.enforceTempLimits cfg answers).map (FRESULT.ok, ·)
            else some (.ok, s₂)
          else some (.ok, s₁)
      | (r, s₁) => some (r, s₁)

/-- `fclose`. -/
def fclose (cfg : Config) (s : FileManager) (h : Handle) (answers : Nat → FRESULT) :
    Option FileManager :=
  let noted := noteManagedTempClose cfg s.managedTempEntries h.path
  let s₁ := { s with
    managedTempEntries := noted.1
    openFileList := s.openFileList.erase h }
  match noted.2 with
  | .nothing => some s₁
  | .deleteFile path => some (s₁.deleteFile path (answers 0)).2
  | .enforce => s₁.enforceTempLimits cfg answers

end FileManager

/-! ## The entry of a path -/

variable {cfg : Config} {s s' : FileManager} {path : CString} {e : ManagedTempEntry}
  {es : List ManagedTempEntry}

/-- Paths that differ in case only are the same to a search. -/
theorem sameName_congr {p q : CString} (h : sameName p q = true) (a : CString) :
    sameName a p = sameName a q := by
  rw [Bool.eq_iff_iff]
  exact ⟨fun ha => sameName_trans ha h, fun ha => sameName_trans ha (sameName_symm h)⟩

theorem sameName_comm (a b : CString) : sameName a b = sameName b a := by
  rw [Bool.eq_iff_iff]
  exact ⟨sameName_symm, sameName_symm⟩

theorem underRoot_congr {p q : CString} (h : sameName p q = true) :
    isPathUnderManagedRoot cfg p = isPathUnderManagedRoot cfg q := by
  have htake : ∀ n, sameName (p.take n) (q.take n) = true := by
    intro n
    rw [sameName_iff] at h ⊢
    rw [List.map_take, List.map_take, h]
  rw [isPathUnderManagedRoot, isPathUnderManagedRoot, sameName_comm (p.take _),
    sameName_comm (q.take _)]
  exact sameName_congr (htake _) _

/-- No two entries have one path. -/
def Distinct (es : List ManagedTempEntry) : Prop :=
  es.Pairwise fun a b => ¬ sameName a.path b.path = true

/-- Where no two entries have one path, it is the entry of the path that is replaced. -/
theorem onEntry_eq_flatMap {g : ManagedTempEntry → List ManagedTempEntry} (h : Distinct es) :
    onEntry path g es = es.flatMap fun e => if sameName e.path path then g e else [e] := by
  induction es with
  | nil => rfl
  | cons e es ih =>
      obtain ⟨hhead, htail⟩ := List.pairwise_cons.mp h
      rw [onEntry, List.flatMap_cons]
      by_cases he : sameName e.path path = true
      · -- No later entry has the path.
        have hrest : ∀ a ∈ es, (if sameName a.path path then g a else [a]) = [a] := by
          intro a ha
          exact if_neg fun hs => hhead a ha (sameName_trans he (sameName_symm hs))
        rw [if_pos he, if_pos he, List.flatMap_congr hrest]
        simp
      · rw [if_neg he, if_neg he, ih htail]
        rfl

/-- An entry of the path there is, so it is deleted. -/
theorem length_noteManagedTempDeleted (he : e ∈ es) (hp : sameName e.path path = true) :
    (noteManagedTempDeleted es path).length + 1 = es.length := by
  rw [noteManagedTempDeleted]
  induction es with
  | nil => exact nomatch he
  | cons a es ih =>
      rw [onEntry]
      by_cases ha : sameName a.path path = true
      · rw [if_pos ha]
        rfl
      · have hmem : e ∈ es := by
          rcases List.mem_cons.mp he with rfl | hmem
          · exact absurd hp ha
          · exact hmem
        rw [if_neg ha, List.length_cons, List.length_cons, ih hmem]

/-! ## The limit is enforced in finitely many rounds -/

/-- What a deletion may do to the entries: it adds none, it takes the one of the path when
    it succeeds, and there is no change where there is no such file. -/
def Deletes (del : Nat → FileManager → CString → FRESULT × FileManager) : Prop :=
  ∀ k (s : FileManager) (t : ManagedTempEntry), t ∈ s.managedTempEntries →
    (del k s t.path).2.managedTempEntries.length ≤ s.managedTempEntries.length ∧
    ((del k s t.path).1 = .ok →
      (del k s t.path).2.managedTempEntries.length < s.managedTempEntries.length) ∧
    ((del k s t.path).1 = .noFile →
      (del k s t.path).2.managedTempEntries = s.managedTempEntries)

/-- The file manager's own deletion, whatever the file system answers. -/
theorem deletes_deleteFile (answers : Nat → FRESULT) :
    Deletes fun k s path => s.deleteFile path (answers k) := by
  intro k s t ht
  have hlen := length_noteManagedTempDeleted ht (sameName_refl t.path)
  dsimp only
  rw [FileManager.deleteFile]
  cases s.lookup t.path with
  | none =>
      dsimp only
      refine ⟨Nat.le_refl _, fun h => ?_, fun _ => rfl⟩
      split at h <;> exact nomatch h
  | some file =>
      dsimp only
      split
      · exact ⟨Nat.le_refl _, nofun, nofun⟩
      · split
        · refine ⟨?_, fun _ => ?_, nofun⟩ <;> dsimp only <;> omega
        next hno => exact ⟨Nat.le_refl _, fun h => absurd h hno, fun _ => rfl⟩

/-- Rounds that may be left, where there were `n` entries. -/
def FileManager.Enforcing.left (n : Nat) (e : FileManager.Enforcing) : Nat :=
  if e.returned then 0
  else e.s.managedTempEntries.length * (n + 2) + (n + 1 - e.failedCandidates.length) + 1

/-- There are no more than `n` entries, and those that failed are among them. -/
def FileManager.Enforcing.Limited (n : Nat) (e : FileManager.Enforcing) : Prop :=
  e.s.managedTempEntries.length ≤ n ∧
    (e.returned = false → e.failedCandidates.length ≤ n)

open FileManager in
/-- Each round of `enforce_temp_limits` is one less to go. -/
theorem step_left {del : Nat → FileManager → CString → FRESULT × FileManager} (hdel : Deletes del)
    {n : Nat} {e e' : Enforcing} (h : e.Limited n) (hstep : e.step del = some e') :
    e'.Limited n ∧ e'.left n < e.left n := by
  rw [Enforcing.step] at hstep
  dsimp only at hstep
  split at hstep
  next => exact nomatch hstep
  next hgo =>
    rw [not_or] at hgo
    obtain ⟨hret, hexcess⟩ := hgo
    have hold : e.left n = e.s.managedTempEntries.length * (n + 2)
        + (n + 1 - e.failedCandidates.length) + 1 := if_neg hret
    have hfailed := h.2 (Bool.eq_false_iff.mpr hret)
    have hn := h.1
    have hpos : 1 ≤ e.s.managedTempEntries.length := by omega
    cases hc : e.candidate (e.s.managedTempEntries.length - managedTempMaxFiles) with
    | none =>
        rw [hc] at hstep
        cases hstep
        refine ⟨⟨?_, nofun⟩, ?_⟩
        · simp only [markExcess, List.length_append, List.length_map, List.length_take,
            List.length_drop]
          omega
        · rw [hold, Enforcing.left, if_pos rfl]
          omega
    | some t =>
        rw [hc] at hstep
        have ht : t ∈ e.s.managedTempEntries :=
          List.mem_of_mem_take (List.mem_of_find?_eq_some hc)
        obtain ⟨hle, hok, hnofile⟩ := hdel e.asked e.s t ht
        -- One entry less pays for starting over.
        have hless : ∀ s₁ : FileManager,
            s₁.managedTempEntries.length < e.s.managedTempEntries.length →
            (Enforcing.Limited n ⟨s₁, [], e.asked + 1, false⟩ ∧
              Enforcing.left n ⟨s₁, [], e.asked + 1, false⟩ < e.left n) := by
          intro s₁ hlt
          have hmul := Nat.mul_le_mul_right (n + 2) hlt
          rw [Nat.succ_mul] at hmul
          refine ⟨⟨by dsimp only; omega, fun _ => Nat.zero_le _⟩, ?_⟩
          rw [hold, Enforcing.left, if_neg Bool.false_ne_true]
          simp only [List.length_nil]
          omega
        dsimp only at hstep
        cases hd : del e.asked e.s t.path with
        | mk r s₁ =>
            rw [hd] at hstep hle hok hnofile
            -- The other answers add a candidate that failed.
            have hother : some (Enforcing.mk s₁ (e.failedCandidates ++ [t.id]) (e.asked + 1)
                (e.s.managedTempEntries.length - managedTempMaxFiles
                  ≤ (e.failedCandidates ++ [t.id]).length : Bool)) = some e' →
                e'.Limited n ∧ e'.left n < e.left n := by
              intro heq
              cases heq
              have hmul := Nat.mul_le_mul_right (n + 2) hle
              refine ⟨⟨by dsimp only at hle ⊢; omega, fun hr => ?_⟩, ?_⟩
              · have hlt := of_decide_eq_false hr
                dsimp only
                omega
              · rw [hold, Enforcing.left]
                dsimp only at hmul ⊢
                split
                · omega
                · rw [List.length_append, List.length_singleton]
                  omega
            cases r with
            | ok =>
                cases hstep
                exact hless s₁ (hok rfl)
            | noFile =>
                cases hstep
                refine hless _ ?_
                have hlen := length_noteManagedTempDeleted ht (sameName_refl t.path)
                dsimp only at hnofile ⊢
                rw [hnofile rfl]
                omega
            | _ => exact hother hstep

open FileManager in
/-- `enforce_temp_limits` returns, whatever becomes of the deletions. -/
theorem enforce_returns {del : Nat → FileManager → CString → FRESULT × FileManager}
    (hdel : Deletes del) (s : FileManager) :
    (Loop.run (Enforcing.step del) (enforceRounds s.managedTempEntries.length)
      ⟨s, [], 0, false⟩).isSome = true := by
  refine Loop.run_isSome_of_measure
    (P := Enforcing.Limited s.managedTempEntries.length)
    (fun e e' h hstep => step_left hdel h hstep) ⟨Nat.le_refl _, fun _ => Nat.zero_le _⟩ ?_
  rw [Enforcing.left, if_neg Bool.false_ne_true, enforceRounds, Nat.succ_mul]
  simp only [List.length_nil]
  omega

theorem enforceTempLimits_isSome (answers : Nat → FRESULT) (s : FileManager) :
    (s.enforceTempLimits cfg answers).isSome = true := by
  rw [FileManager.enforceTempLimits]
  split
  · rw [Option.isSome_map]
    exact enforce_returns (deletes_deleteFile answers) s
  · rfl

end ManagedTemp
