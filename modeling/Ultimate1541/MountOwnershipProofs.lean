import Ultimate1541.MountReleaseProofs

/-! # Who may write a disk image

    A disk image can be changed in two ways: through a file that is open for writing, and
    through the file system in it when it is mounted.  The file manager does not store
    who has it.  It compares paths, over the files that are open and the mounts, each
    time a file is opened, closed, deleted or renamed and each time an image is mounted.

    Every file has a number here, which the code does not see, and every file system its
    directories; the image of a mount is a file, whatever its path has become.  A path is
    given by the images on it, and the rest of it in the last one; its names are those of
    the entries, as `walk_path` puts them in, but for a name that is not there.  What the
    file systems and the factory answer is part of an event.  `fclose` can go on to delete
    temporary files when it has given back its lock: these are events of their own. -/

namespace MountOwnership

open Pattern ManagedTemp MountCache

/-- An entry of a directory. -/
structure Entry where
  number : Nat
  isDir : Bool
  deriving DecidableEq

/-- The entries of a file system with their paths in it. -/
abbrev Tree := List (List CString × Entry)

/-- The entry that is found at a path; the directory at the top has none. -/
def Tree.entry (t : Tree) (sub : List CString) : Option Entry :=
  if sub.isEmpty then none else (t.find? fun e => sameNames e.1 sub).map Prod.snd

/-- A path goes on after another. -/
def under : List CString → List CString → Bool
  | [], sub => !sub.isEmpty
  | _ :: _, [] => false
  | a :: dir, b :: sub => sameName a b && under dir sub

/-- A file or a directory is gone. -/
def Tree.remove (t : Tree) (sub : List CString) : Tree := t.eraseP fun e => sameNames e.1 sub

/-- An entry has another path, and with a directory what is in it. -/
def Tree.move (t : Tree) (src dst : List CString) (entry : Entry) : Tree :=
  (dst, entry) :: (t.remove src).map fun e =>
    if entry.isDir && under src e.1 then (dst ++ e.1.drop src.length, e.2) else e

/-- The contents of an image, with numbers for its files. -/
def numbered (next : Nat) (contents : List (List CString × Bool)) : Tree :=
  (contents.zipIdx next).map fun c => (c.1.1, ⟨c.2, c.1.2⟩)

/-- A `File` of `open_file_list`, with the number of its file. -/
structure Opened extends OpenFile where
  number : Nat
  deriving DecidableEq

/-- The file manager and the file systems.  `image` and `root` give the file that a file
    system was mounted from and its path; `closed` the file system that was next when the
    last file open for writing was closed. -/
structure World where
  fm : MountCache.FileManager
  files : List Opened
  tree : Nat → Tree
  root : Nat → CString
  image : Nat → Nat
  closed : Nat → Nat → Nat
  nextFile : Nat

/-- The file system at the root holds some files, and nothing is open or mounted. -/
def World.start (contents : List (List CString × Bool)) : World where
  fm := .start
  files := []
  tree := fun fs => if fs = 0 then numbered 0 contents else []
  root := fun _ => []
  image := fun _ => 0
  closed := fun _ _ => 0
  nextFile := contents.length

/-- An image on a path: its path in the file system it lies in, whether it can be written,
    what the file system and the factory answer, what is in it, and the calls that
    discarding may take. -/
structure Enter where
  path : List CString
  writable : Bool
  opened : Bool
  recognised : Bool
  contents : List (List CString × Bool)
  calls : Nat

namespace World

variable (cfg : Config)

/-! ## Finding a path -/

/-- The entry at a path of a file system. -/
def entry (w : World) (fs : Nat) (sub : List CString) : Option Entry := (w.tree fs).entry sub

/-- The path from the root. -/
def fullPath (w : World) (fs : Nat) (sub : List CString) : CString :=
  w.root fs ++ sub.flatMap fun name => '/' :: name

/-- What `find_mount_point` is asked for. -/
def lookup (w : World) (fs : Nat) (e : Enter) : FileManager.Lookup where
  fs := fs
  path := e.path
  rootPath := w.fullPath fs e.path
  writable := e.writable
  opened := e.opened
  recognised := e.recognised
  calls := e.calls

/-- The file system that is next has been made for an image. -/
def made (w : World) (fs : Nat) (e : Enter) (image : Nat) : World :=
  { w with
    tree := Function.update w.tree w.fm.nextFs (numbered w.nextFile e.contents)
    root := Function.update w.root w.fm.nextFs (w.fullPath fs e.path)
    image := Function.update w.image w.fm.nextFs image
    nextFile := w.nextFile + e.contents.length }

/-- `find_mount_point` for a file. -/
def enter (w : World) (fs : Nat) (e : Enter) (image : Nat) : Option (Option Nat × World) :=
  (w.fm.findMountPoint cfg (w.lookup fs e)).map fun r =>
    (r.1, { (if r.1 = some w.fm.nextFs then w.made fs e image else w) with fm := r.2 })

/-- Where nothing is found: the directory is there, or it is not. -/
def missing (w : World) (fs : Nat) (sub : List CString) : FRESULT :=
  match sub.dropLast with
  | [] => .noFile
  | dir =>
      match w.entry fs dir with
      | some ⟨_, true⟩ => .noFile
      | _ => .noPath

/-- `find_pathentry`: the last file system, and whether the rest of the path is there.
    With `open_mount` the path can end with an image. -/
def findPathentry (openMount : Bool) (w : World) :
    List Enter → List CString → Nat → Option (Nat × FRESULT × World)
  | [], sub, fs =>
      if sub.isEmpty ∨ (w.entry fs sub).isSome then some (fs, .ok, w)
      else some (fs, w.missing fs sub, w)
  | e :: images, sub, fs =>
      match w.entry fs e.path with
      | some ⟨image, false⟩ =>
          match w.enter cfg fs e image with
          | none => none
          | some (none, w) => some (fs, .noFilesystem, w)
          | some (some fs, w) => w.findPathentry openMount images sub fs
      | _ =>
          let last := openMount && images.isEmpty && sub.isEmpty
          some (fs, if last then w.missing fs e.path else .noPath, w)

/-! ## Files -/

/-- `discard_mounts_of_file`. -/
def discard (w : World) (calls : Nat) (path : CString) : Option World :=
  (w.fm.discardMountsOfFile cfg calls path 0).map fun fm => { w with fm := fm }

/-- `in_use_for_writing`. -/
def inUseForWriting (w : World) (calls : Nat) (path : CString) : Option (Bool × World) :=
  (w.discard cfg calls path).map fun w =>
    ((w.fm.mountPoints.any fun mp => sameName mp.filePath path) ||
      (w.fm.openFileList.any fun f => f.writeIntent && sameName f.path path), w)

/-- A file has been opened. -/
def addFile (w : World) (f : Opened) : World :=
  { w with
    fm := { w.fm with
      openFileList := w.fm.openFileList ++ [f.toOpenFile]
      managedTempEntries := noteManagedTempOpen cfg w.fm.managedTempEntries f.path }
    files := w.files ++ [f] }

/-- A file has been made. -/
def addEntry (w : World) (fs : Nat) (sub : List CString) : World :=
  { w with
    tree := Function.update w.tree fs (w.tree fs ++ [(sub, ⟨w.nextFile, false⟩)])
    nextFile := w.nextFile + 1 }

/-- What `fopen` is called with: the path, and the flags.  The file system stores a new
    file as `stored`. -/
structure Opening where
  images : List Enter
  sub : List CString
  flags : ManagedTemp.FileManager.Flags
  stored : CString
  answer : FRESULT
  calls : Nat

/-- `file_open`, of a file that was `found` or has to be made. -/
def fileOpen (w : World) (fs : Nat) (found : FRESULT) (o : Opening) : FRESULT × World :=
  if o.answer ≠ .ok then (o.answer, w)
  else if found = .ok then
    match w.entry fs o.sub with
    | some ⟨x, false⟩ => (.ok, w.addFile cfg ⟨⟨fs, w.fullPath fs o.sub, o.flags.write⟩, x⟩)
    | _ => (.noFile, w)
  else
    let stored := o.sub.dropLast ++ [o.stored]
    -- It is opened with `FA_CREATE_NEW`.
    if (w.entry fs stored).isSome then (.exist, w)
    else (.ok, (w.addEntry fs stored).addFile cfg
      ⟨⟨fs, w.fullPath fs o.sub, o.flags.write⟩, w.nextFile⟩)

/-- `fopen`. -/
def fopen (w : World) (o : Opening) : Option (FRESULT × World) :=
  match w.findPathentry cfg false o.images o.sub 0 with
  | none => none
  | some (fs, found, w) =>
      if found = .ok ∧ o.flags.createNew then some (.exist, w)
      else if found ≠ .ok ∧
          ¬ (found = .noFile ∧ (o.flags.createNew || o.flags.createAlways || o.flags.openAlways)) then
        some (found, w)
      else if o.flags.write || o.flags.createNew || o.flags.createAlways || o.flags.openAlways then
        match w.discard cfg o.calls (w.fullPath fs o.sub) with
        | none => none
        | some w =>
            if w.fm.mountPoints.any fun mp =>
                sameName mp.filePath (w.fullPath fs o.sub) && !w.fm.isMountEvictable mp then
              some (.locked, w)
            else some (w.fileOpen cfg fs found o)
      else some (w.fileOpen cfg fs found o)

/-- `fclose` of the `i`-th file, as far as it holds its lock. -/
def fclose (w : World) (i calls : Nat) : Option World :=
  match w.files[i]? with
  | none => some w
  | some f =>
      let noted := { w with fm := { w.fm with
        managedTempEntries := (noteManagedTempClose cfg w.fm.managedTempEntries f.path).1 } }
      -- The mounts are discarded while the file is still in the list.
      match if f.writeIntent then noted.discard cfg calls f.path else some noted with
      | none => none
      | some w =>
          some { w with
            fm := { w.fm with openFileList := (w.files.eraseIdx i).map Opened.toOpenFile }
            files := w.files.eraseIdx i
            closed := if f.writeIntent then
                Function.update w.closed f.fs
                  (Function.update (w.closed f.fs) f.number w.fm.nextFs)
              else w.closed }

/-- `open_directory`.  A file that is the last of the path is entered, so the rest of it
    is a directory. -/
def openDirectory (w : World) (images : List Enter) (sub : List CString) (answer : FRESULT) :
    Option (FRESULT × World) :=
  match w.findPathentry cfg true images sub 0 with
  | none => none
  | some (fs, found, w) =>
      if found ≠ .ok then some (found, w)
      else if (w.entry fs sub).any fun e => !e.isDir then some (.noFilesystem, w)
      else if answer ≠ .ok then some (answer, w)
      else some (.ok, { w with
        fm := { w.fm with openDirectoryFs := w.fm.openDirectoryFs ++ [fs] } })

/-- A directory is closed. -/
def closeDirectory (w : World) (fs : Nat) : World :=
  { w with fm := { w.fm with openDirectoryFs := w.fm.openDirectoryFs.erase fs } }

/-- `delete_file`.  A directory can be deleted when nothing is in it. -/
def deleteFile (w : World) (images : List Enter) (sub : List CString) (answer : FRESULT)
    (calls : Nat) : Option (FRESULT × World) :=
  match w.findPathentry cfg false images sub 0 with
  | none => none
  | some (fs, found, w) =>
      if found ≠ .ok then some (found, w)
      else
        match w.inUseForWriting cfg calls (w.fullPath fs sub) with
        | none => none
        | some (true, w) => some (.locked, w)
        | some (false, w) =>
            if answer ≠ .ok then some (answer, w)
            else if (w.tree fs).any fun e => under sub e.1 then some (.denied, w)
            else some (.ok, { w with
              tree := Function.update w.tree fs ((w.tree fs).remove sub)
              fm := { w.fm with managedTempEntries :=
                noteManagedTempDeleted w.fm.managedTempEntries (w.fullPath fs sub) } })

/-- What `rename` is called with: the two paths.  The file system stores the new name as
    `stored`. -/
structure Renaming where
  images : List Enter
  sub : List CString
  toImages : List Enter
  toSub : List CString
  stored : CString
  answer : FRESULT
  calls : Nat

/-- `rename_impl` as far as it has to do with the old path. -/
def renameFrom (w : World) (r : Renaming) : Option (FRESULT × Nat × World) :=
  match w.findPathentry cfg false r.images r.sub 0 with
  | none => none
  | some (fs, found, w) =>
      if found ≠ .ok then some (found, fs, w)
      else
        match w.inUseForWriting cfg r.calls (w.fullPath fs r.sub) with
        | none => none
        | some (true, w) => some (.locked, fs, w)
        | some (false, w) => some (.ok, fs, w)

/-- `file_rename`. -/
def fileRename (w : World) (fs : Nat) (r : Renaming) : FRESULT × World :=
  let dst := r.toSub.dropLast ++ [r.stored]
  match w.entry fs r.sub with
  | none => (.noFile, w)
  | some e =>
      if r.answer ≠ .ok then (r.answer, w)
      -- What would be below a path that is not there is not there either.
      else if (w.tree fs).any fun e => sameNames dst e.1 || under dst e.1 then (.exist, w)
      else (.ok, { w with
        tree := Function.update w.tree fs ((w.tree fs).move r.sub dst e)
        fm := { w.fm with
          managedTempEntries := noteManagedTempRenamed cfg w.fm.managedTempEntries
            (w.fullPath fs r.sub) (w.fullPath fs r.toSub) } })

/-- `rename_impl`. -/
def rename (w : World) (r : Renaming) : Option (FRESULT × World) :=
  match w.renameFrom cfg r with
  | none => none
  | some (found, fs, w) =>
      if found ≠ .ok then some (found, w)
      else
        match w.findPathentry cfg false r.toImages r.toSub 0 with
        | none => none
        | some (toFs, found, w) =>
            if found = .ok then some (.exist, w)
            else if found ≠ .noFile then some (found, w)
            else if toFs ≠ fs then some (.invalidDrive, w)
            else if under r.sub r.toSub then some (.denied, w)
            else some (w.fileRename cfg fs r)

/-! ## Runs -/

/-- A call, with what it finds out. -/
inductive Event
  | lookup (images : List Enter) (sub : List CString)
  | fopen (o : Opening)
  | fclose (i calls : Nat)
  | openDirectory (images : List Enter) (sub : List CString) (answer : FRESULT)
  | closeDirectory (fs : Nat)
  | deleteFile (images : List Enter) (sub : List CString) (answer : FRESULT) (calls : Nat)
  | rename (r : Renaming)

/-- The state after a call. -/
def step (w : World) : Event → Option World
  | .lookup images sub => (w.findPathentry cfg true images sub 0).map fun r => r.2.2
  | .fopen o => (w.fopen cfg o).map Prod.snd
  | .fclose i calls => w.fclose cfg i calls
  | .openDirectory images sub answer => (w.openDirectory cfg images sub answer).map Prod.snd
  | .closeDirectory fs => some (w.closeDirectory fs)
  | .deleteFile images sub answer calls => (w.deleteFile cfg images sub answer calls).map Prod.snd
  | .rename r => (w.rename cfg r).map Prod.snd

/-- Calls in any order, each `ok` in the state it is made in. -/
inductive Run (ok : World → Event → Prop) : World → Prop
  | start (contents : List (List CString × Bool)) : Run ok (start contents)
  | step {w w' : World} {e : Event} (h : Run ok w) (hok : ok w e)
      (hstep : w.step cfg e = some w') : Run ok w'

/-- No file that is open for writing is the image of a mount that can be written. -/
def Owned (w : World) : Prop :=
  ∀ f ∈ w.files, f.writeIntent = true → ∀ mp ∈ w.fm.mountPoints,
    mp.fileFs = f.fs → w.image mp.fs = f.number → mp.writable = false

/-- A lookup that is `ok` uses no mount that was made before a file that was open for
    writing on the image was closed, unless something is open in that mount. -/
def Refreshed (ok : MountCache.FileManager → FileManager.Lookup → Prop) (w : World) : Prop :=
  ∀ fs e image r w', w.fm.Has fs → w.entry fs e.path = some ⟨image, false⟩ →
    ok w.fm (w.lookup fs e) → w.enter cfg fs e image = some (some r, w') →
    w.closed fs image ≤ r ∨ OpenBelow w'.fm r

end World

end MountOwnership
