import Ultimate1541.ManagedTempProofs

/-! # The mount cache

    A disk image stays mounted when its path is left, until more than eight images are
    mounted: then the one that was used longest ago is released, of those that nothing
    uses.  A mount is in use when a file or a directory is open in it, or when the image
    of another mount is a file in it.  When the file of an image changes its mount is
    discarded, with the mounts of the images in it; what is in use stays, marked stale.

    A file system is known by a number that grows with every mount; this is the pointer
    that the code compares.  The closing of an image's file can make the file manager
    delete temporary files, which goes through the cache again while it is being changed:
    that is not followed (`none`). -/

namespace MountCache

open Pattern ManagedTemp

/-- `MountPoint`: the file system in the image (`fs`), the path of the image in the file
    system it lies in (`path` in `fileFs`), its path from the root (`filePath`), and
    whether its contents can be written. -/
structure MountPoint where
  fs : Nat
  path : List CString
  fileFs : Nat
  filePath : CString
  writable : Bool
  lastUsed : UInt32
  stale : Bool
  deriving DecidableEq

/-- A `File` of `open_file_list`. -/
structure OpenFile where
  fs : Nat
  path : CString
  writeIntent : Bool
  deriving DecidableEq

/-- The mounts, what is open, and the temporary files; `nextFs` is the next file system. -/
structure FileManager where
  mountPoints : List MountPoint
  openFileList : List OpenFile
  openDirectoryFs : List Nat
  managedTempEntries : List ManagedTempEntry
  mountUseSeq : UInt32
  nextFs : Nat
  deriving DecidableEq

/-- The file manager starts with no images mounted; 0 is the file system at the root. -/
def FileManager.start : FileManager := ⟨[], [], [], [], 0, 1⟩

/-- `SubPath::match` with the path of a mount. -/
def subPathMatch : List CString → List CString → Bool
  | [], _ => true
  | _ :: _, [] => false
  | name :: sub, search :: path => patternMatch search name false && subPathMatch sub path

/-- `MountPoint::match`. -/
def MountPoint.isMatch (mp : MountPoint) (fs : Nat) (sub : List CString) : Bool :=
  mp.fileFs == fs && subPathMatch sub mp.path

namespace FileManager

/-! ## Releasing a mount -/

/-- A file is open in a file system, or a directory. -/
def hasOpen (s : FileManager) (fs : Nat) : Bool :=
  (s.openFileList.any fun f => f.fs == fs) || s.openDirectoryFs.contains fs

/-- `is_mount_evictable`. -/
def isMountEvictable (s : FileManager) (mp : MountPoint) : Bool :=
  !s.hasOpen mp.fs && !(s.mountPoints.any fun other => other.fs != mp.fs && other.fileFs == mp.fs)

/-- `fclose` of the file of a mount, unless it makes the file manager delete files. -/
def fcloseMount (cfg : Config) (s : FileManager) (path : CString) : Option FileManager :=
  let noted := noteManagedTempClose cfg s.managedTempEntries path
  match noted.2 with
  | .nothing => some { s with managedTempEntries := noted.1 }
  | .enforce =>
      if cfg.autoCleanup ∧ FileManager.managedTempMaxFiles < noted.1.length then none
      else some { s with managedTempEntries := noted.1 }
  | .deleteFile _ => none

/-- The mount is no longer in the list. -/
def removeMount (s : FileManager) (fs : Nat) : FileManager :=
  { s with mountPoints := s.mountPoints.filter fun mp => mp.fs != fs }

/-! ## Eviction -/

/-- `MOUNT_CACHE_MAX`. -/
def mountCacheMax : Nat := 8

/-- The loop that picks the `victim`, of the mounts it has still to look at. -/
def oldest (s : FileManager) : List MountPoint → Option MountPoint → Option MountPoint
  | [], victim => victim
  | mp :: rest, victim =>
      s.oldest rest
        (if s.isMountEvictable mp then
          match victim with
          | none => some mp
          | some v => if mp.lastUsed < v.lastUsed then some mp else some v
        else victim)

/-- `evict_mount_points`, for `n` mounts at most. -/
def evictMountPoints (cfg : Config) : Nat → FileManager → Option FileManager
  | 0, s => some s
  | n + 1, s =>
      if s.mountPoints.length ≤ mountCacheMax then some s
      else
        match s.oldest s.mountPoints none with
        | none => some s
        | some victim =>
            -- The file is closed first, and the mount still in the list.
            match s.fcloseMount cfg victim.filePath with
            | none => none
            | some s => evictMountPoints cfg n (s.removeMount victim.fs)

/-! ## Discarding -/

/-- `mark_stale`. -/
def markStale (s : FileManager) (fs : Nat) : FileManager :=
  { s with
    mountPoints := s.mountPoints.map fun mp => if mp.fs = fs then { mp with stale := true } else mp }

mutual

/-- `discard_mount_tree`, in `n` calls. -/
def discardMountTree (cfg : Config) : Nat → FileManager → MountPoint → Option (Bool × FileManager)
  | 0, _, _ => none
  | n + 1, s, mp =>
      match discardChildren cfg n (s.markStale mp.fs) mp.fs 0 with
      | none => none
      | some s =>
          if s.isMountEvictable mp then
            ((s.removeMount mp.fs).fcloseMount cfg mp.filePath).map (true, ·)
          else some (false, s)

/-- Its loop over the mounts from the `i`-th on: those in the file system are discarded,
    and it starts over when mounts have gone. -/
def discardChildren (cfg : Config) : Nat → FileManager → Nat → Nat → Option FileManager
  | 0, _, _, _ => none
  | n + 1, s, fs, i =>
      match s.mountPoints[i]? with
      | none => some s
      | some child =>
          if child.fs ≠ fs ∧ child.fileFs = fs then
            match discardMountTree cfg n s child with
            | none => none
            | some (_, s') =>
                discardChildren cfg n s' fs
                  (if s'.mountPoints.length = s.mountPoints.length then i + 1 else 0)
          else discardChildren cfg n s fs (i + 1)

end

/-- `discard_mounts_of_file` from the `i`-th mount on, in `n` calls. -/
def discardMountsOfFile (cfg : Config) : Nat → FileManager → CString → Nat → Option FileManager
  | 0, _, _, _ => none
  | n + 1, s, path, i =>
      match s.mountPoints[i]? with
      | none => some s
      | some mp =>
          if sameName mp.filePath path then
            match discardMountTree cfg n s mp with
            | none => none
            | some (_, s') =>
                discardMountsOfFile cfg n s' path
                  (if s'.mountPoints.length = s.mountPoints.length then i + 1 else 0)
          else discardMountsOfFile cfg n s path (i + 1)

/-! ## Finding a mount -/

/-- What `find_mount_point` is asked for: the file system, the path in it and from the
    root, and whether the file can be written; then what the file system and the factory
    answer, and the calls it may take. -/
structure Lookup where
  fs : Nat
  path : List CString
  rootPath : CString
  writable : Bool
  opened : Bool
  recognised : Bool
  calls : Nat

/-- `touch` with the next number. -/
def touch (s : FileManager) (fs : Nat) : FileManager :=
  { s with
    mountUseSeq := s.mountUseSeq + 1
    mountPoints := s.mountPoints.map fun mp =>
      if mp.fs = fs then { mp with lastUsed := s.mountUseSeq + 1 } else mp }

/-- `add_mount_point`, for the file system that was made for it. -/
def addMountPoint (s : FileManager) (l : Lookup) : FileManager :=
  { s with
    mountPoints := s.mountPoints ++ [{
      fs := s.nextFs
      path := l.path
      fileFs := l.fs
      filePath := l.rootPath
      writable := l.writable &&
        !(s.openFileList.any fun f => f.writeIntent && sameName f.path l.rootPath)
      lastUsed := 0
      stale := false }]
    nextFs := s.nextFs + 1 }

/-- What `find_mount_point` does where no mount was found. -/
def mount (cfg : Config) (s : FileManager) (l : Lookup) : Option (Option Nat × FileManager) :=
  if l.opened then
    let s := { s with
      managedTempEntries := noteManagedTempOpen cfg s.managedTempEntries l.rootPath }
    if l.recognised then
      let added := (s.addMountPoint l).touch s.nextFs
      (added.evictMountPoints cfg added.mountPoints.length).map (some s.nextFs, ·)
    else (s.fcloseMount cfg l.rootPath).map (none, ·)
  else some (none, s)

/-- `find_mount_point`: the file system of the mount, if there is one. -/
def findMountPoint (cfg : Config) (s : FileManager) (l : Lookup) :
    Option (Option Nat × FileManager) :=
  match s.mountPoints.find? fun mp => mp.isMatch l.fs l.path with
  | none => s.mount cfg l
  | some cached =>
      if cached.stale then
        match s.discardMountTree cfg l.calls cached with
        | none => none
        | some (true, s) => s.mount cfg l
        | some (false, s) => some (some cached.fs, s.touch cached.fs)
      else some (some cached.fs, s.touch cached.fs)

end FileManager

end MountCache
