import Ultimate1541.MountFindProofs

/-! # What discarding leaves

    Discarding and evicting are sequences of three small steps: a mount is marked, the
    entries of the temporary files change, and a mount that nothing uses is released.
    What these keep is kept by all.  A mount that is not released when it is discarded has
    something open in it, or in a mount that lies in it; and when the mounts of a file
    have been discarded, those that are left are marked and in use. -/

namespace MountCache

open Pattern ManagedTemp FileManager

variable {cfg : Config} {s s' t : FileManager} {mp : MountPoint} {l : Lookup} {n : Nat}
  {path : CString}

/-- One state follows from the other by marks, by changes of the entries, and by the
    release of mounts that nothing uses. -/
inductive Releases : FileManager → FileManager → Prop
  | refl (s : FileManager) : Releases s s
  | mark {s s' : FileManager} (fs : Nat) (h : Releases (s.markStale fs) s') : Releases s s'
  | entries {s s' : FileManager} (es : List ManagedTempEntry)
      (h : Releases { s with managedTempEntries := es } s') : Releases s s'
  | release {s s' : FileManager} (mp : MountPoint) (hfree : s.isMountEvictable mp = true)
      (h : Releases (s.removeMount mp.fs) s') : Releases s s'

theorem Releases.trans (h : Releases s t) (h' : Releases t s') : Releases s s' := by
  induction h with
  | refl => exact h'
  | mark fs _ ih => exact .mark fs (ih h')
  | entries es _ ih => exact .entries es (ih h')
  | release mp hfree _ ih => exact .release mp hfree (ih h')

theorem Releases.shrinks (h : Releases s s') : Shrinks s s' := by
  induction h with
  | refl s => exact .refl s
  | mark fs _ ih => exact (markStale_shrinks _ fs).trans ih
  | entries es _ ih => exact ⟨ih.mounts, ih.openFileList, ih.openDirectoryFs, ih.mountUseSeq, ih.nextFs⟩
  | release mp _ _ ih => exact (removeMount_shrinks _ mp.fs).trans ih

/-- What is left was there, and where it was marked it still is. -/
theorem Releases.mem (h : Releases s s') (hm : mp ∈ s'.mountPoints) :
    ∃ m ∈ s.mountPoints, m.bare = mp.bare ∧ (m.stale = true → mp.stale = true) := by
  induction h with
  | refl => exact ⟨mp, hm, rfl, id⟩
  | mark fs _ ih =>
      obtain ⟨m, hmem, hbare, hstale⟩ := ih hm
      obtain ⟨m₀, hm₀, rfl⟩ := List.mem_map.mp hmem
      refine ⟨m₀, hm₀, ?_, fun h => hstale ?_⟩
      · rw [← hbare]
        split <;> rfl
      · split
        · rfl
        · exact h
  | entries _ _ ih => exact ih hm
  | release _ _ _ ih =>
      obtain ⟨m, hmem, hbare, hstale⟩ := ih hm
      exact ⟨m, List.mem_of_mem_filter hmem, hbare, hstale⟩

/-- A file system is the root or is in the cache. -/
def FileManager.Has (s : FileManager) (fs : Nat) : Prop := fs = 0 ∨ fs ∈ s.ids

/-- What is open is open in a file system there is, and images lie in such. -/
structure Live (s : FileManager) : Prop where
  hosts : ∀ mp ∈ s.mountPoints, s.Has mp.fileFs
  files : ∀ f ∈ s.openFileList, s.Has f.fs
  directories : ∀ fs ∈ s.openDirectoryFs, s.Has fs

theorem has_of_ids {fs : Nat} (h : s.Has fs) (hids : s.ids = t.ids) : t.Has fs := by
  rw [FileManager.Has, ← hids]
  exact h

theorem markStale_ids (s : FileManager) (fs : Nat) : (s.markStale fs).ids = s.ids := by
  rw [ids_eq, ids_eq, markStale_bare]

theorem Live.markStale (h : Live s) (fs : Nat) : Live (s.markStale fs) where
  hosts m hm := by
    obtain ⟨m₀, hm₀, rfl⟩ := List.mem_map.mp hm
    refine has_of_ids (s := s) ?_ (markStale_ids s fs).symm
    split
    · exact h.hosts m₀ hm₀
    · exact h.hosts m₀ hm₀
  files f hf := has_of_ids (h.files f hf) (markStale_ids s fs).symm
  directories f hf := has_of_ids (h.directories f hf) (markStale_ids s fs).symm

theorem has_removeMount {fs f : Nat} (h : s.Has f) (hne : f ≠ fs) : (s.removeMount fs).Has f := by
  rcases h with h | h
  · exact Or.inl h
  · exact Or.inr (mem_ids_removeMount.mpr ⟨h, hne⟩)

theorem Live.release (h : Live s) (hold : Older s) (hfree : s.isMountEvictable mp = true) :
    Live (s.removeMount mp.fs) := by
  have hunused := isMountEvictable_iff.mp hfree
  constructor
  · intro m hm
    have hmem := List.mem_of_mem_filter hm
    refine has_removeMount (h.hosts m hmem) fun heq => ?_
    -- The image of a mount lies in an older one, so the mount is not its own host.
    refine hunused (Or.inr (Or.inr ⟨m, hmem, fun hself => ?_, heq⟩))
    have hlt := hold m hmem
    rw [heq, hself] at hlt
    exact Nat.lt_irrefl _ hlt
  · exact fun f hf => has_removeMount (h.files f hf) fun heq => hunused (Or.inl ⟨f, hf, heq⟩)
  · intro f hf
    refine has_removeMount (h.directories f hf) fun heq => hunused (Or.inr (Or.inl ?_))
    rw [← heq]
    exact hf

/-- No ground is pulled from under what is open. -/
theorem Releases.live (h : Releases s s') (hl : Live s) (hold : Older s) : Live s' := by
  induction h with
  | refl => exact hl
  | mark fs _ ih => exact ih (hl.markStale fs) (hold.of_shrinks (markStale_shrinks _ fs))
  | entries es _ ih => exact ih ⟨hl.hosts, hl.files, hl.directories⟩ hold
  | release mp hfree _ ih =>
      exact ih (hl.release hold hfree) (hold.of_shrinks (removeMount_shrinks _ mp.fs))

theorem fcloseMount_releases (h : s.fcloseMount cfg path = some s') : Releases s s' := by
  rw [fcloseMount] at h
  split at h
  · cases h
    exact .entries _ (.refl _)
  · split at h
    · cases h
    · cases h
      exact .entries _ (.refl _)
  · cases h

theorem evictMountPoints_releases (h : s.evictMountPoints cfg n = some s') : Releases s s' := by
  have hev := evictMountPoints_evictions h
  clear h
  induction hev with
  | done s => exact .refl s
  | @evict s t _ mp hm hfree hclose _ ih =>
      obtain ⟨hshrinks, hsame⟩ := fcloseMount_shrinks hclose
      refine (fcloseMount_releases hclose).trans (.release mp ?_ ih)
      -- Closing the file leaves the mounts and what is open as they are.
      rw [isMountEvictable, hshrinks.hasOpen, hsame, ← isMountEvictable]
      exact isMountEvictable_iff.mpr hfree

/-! ## What is open below a mount -/

/-- Something is open in a mount, or in a mount that lies in it. -/
inductive OpenBelow (s : FileManager) : Nat → Prop
  | opened {fs : Nat} (h : s.hasOpen fs = true) : OpenBelow s fs
  | inside {child : MountPoint} (hc : child ∈ s.mountPoints) (h : OpenBelow s child.fs) :
      OpenBelow s child.fileFs

/-- Nothing but marks has changed. -/
def SameMounts (s s' : FileManager) : Prop :=
  s'.mountPoints.map MountPoint.bare = s.mountPoints.map MountPoint.bare

theorem SameMounts.mem (h : SameMounts s s') (hm : mp ∈ s.mountPoints) :
    ∃ m ∈ s'.mountPoints, m.bare = mp.bare := by
  have hmem := List.mem_map_of_mem (f := MountPoint.bare) hm
  rw [← h] at hmem
  exact List.mem_map.mp hmem

theorem SameMounts.ids (h : SameMounts s s') : s'.ids = s.ids := by
  rw [ids_eq, ids_eq, h]

theorem bare_injects {a b : MountPoint} (h : a.bare = b.bare) :
    a.fs = b.fs ∧ a.path = b.path ∧ a.fileFs = b.fileFs ∧ a.filePath = b.filePath ∧
      a.writable = b.writable := by
  rw [MountPoint.bare, MountPoint.bare, MountPoint.mk.injEq] at h
  exact ⟨h.1, h.2.1, h.2.2.1, h.2.2.2.1, h.2.2.2.2.1⟩

theorem mem_bare_of_shrinks (h : Shrinks s s') (hm : mp ∈ s'.mountPoints) :
    ∃ m ∈ s.mountPoints, m.bare = mp.bare :=
  List.mem_map.mp (h.mounts.subset (List.mem_map_of_mem hm))

theorem sizes_of_shrinks {size : Nat → Nat} (h : Shrinks s s')
    (hsize : ∀ m ∈ s.mountPoints, size m.fileFs < size m.fs) :
    ∀ m ∈ s'.mountPoints, size m.fileFs < size m.fs := by
  intro m hm
  obtain ⟨m₀, hm₀, hfs, hfile, -⟩ := h.mem hm
  rw [← hfs, ← hfile]
  exact hsize m₀ hm₀

theorem OpenBelow.of_sameMounts {fs : Nat} (h : OpenBelow s fs) (hs : Shrinks s s')
    (hsame : SameMounts s s') : OpenBelow s' fs := by
  induction h with
  | opened h => exact .opened ((hs.hasOpen _).trans h)
  | inside hc _ ih =>
      obtain ⟨c, hmem, hbare⟩ := hsame.mem hc
      obtain ⟨hfs, -, hfile, -⟩ := bare_injects hbare
      rw [← hfs] at ih
      rw [← hfile]
      exact .inside hmem ih

/-- A mount that cannot be evicted, when something is open in each mount in it. -/
theorem openBelow_of_inUse (h : ¬ s.isMountEvictable mp = true)
    (hchildren : ∀ c ∈ s.mountPoints, c.fs ≠ mp.fs → c.fileFs = mp.fs → OpenBelow s c.fs) :
    OpenBelow s mp.fs := by
  rw [isMountEvictable_iff, not_not] at h
  rcases h with ⟨f, hf, hfs⟩ | hdir | ⟨c, hc, hne, hfile⟩
  · refine .opened ?_
    rw [FileManager.hasOpen, Bool.or_eq_true]
    exact Or.inl (List.any_eq_true.mpr ⟨f, hf, beq_iff_eq.mpr hfs⟩)
  · refine .opened ?_
    rw [FileManager.hasOpen, Bool.or_eq_true]
    exact Or.inr (List.contains_iff_mem.mpr hdir)
  · rw [← hfile]
    exact .inside hc (hchildren c hc hne hfile)

theorem sameMounts_of_length (hs : Shrinks s s')
    (hlen : s'.mountPoints.length = s.mountPoints.length) : SameMounts s s' :=
  hs.mounts.eq_of_length (by simpa using hlen)

/-! ## Discarding -/

/-- A mount that discarding has left, though it tried. -/
structure Left (s : FileManager) (fs : Nat) : Prop where
  opened : OpenBelow s fs
  stale : ∀ m ∈ s.mountPoints, m.fs = fs → m.stale = true

theorem Left.of_sameMounts {fs : Nat} (h : Left s fs) (hr : Releases s s')
    (hsame : SameMounts s s') : Left s' fs where
  opened := h.opened.of_sameMounts hr.shrinks hsame
  stale m hm hfs := by
    obtain ⟨m₀, hm₀, hbare, hstale⟩ := hr.mem hm
    exact hstale (h.stale m₀ hm₀ ((bare_injects hbare).1.trans hfs))

/-- Of the mounts that are looked for, those before the `i`-th have been left. -/
def Passed (s : FileManager) (sought : MountPoint → Prop) (i : Nat) : Prop :=
  ∀ m ∈ s.mountPoints, sought m → m.fs ∈ s.ids.take i → Left s m.fs

/-- A property of mounts that does not depend on the mark. -/
def Unmarked (sought : MountPoint → Prop) : Prop := ∀ a b, a.bare = b.bare → sought a → sought b

theorem passed_zero (s : FileManager) (sought : MountPoint → Prop) : Passed s sought 0 :=
  fun _ _ _ h => absurd h List.not_mem_nil

theorem eq_of_fs {a b : MountPoint} (hids : s.ids.Nodup) (ha : a ∈ s.mountPoints)
    (hb : b ∈ s.mountPoints) (h : a.fs = b.fs) : a = b :=
  List.inj_on_of_nodup_map hids ha hb h

theorem Passed.succ {sought : MountPoint → Prop} {i : Nat} (h : Passed s sought i)
    (hids : s.ids.Nodup) (hmp : s.mountPoints[i]? = some mp)
    (hleft : sought mp → Left s mp.fs) : Passed s sought (i + 1) := by
  intro m hm hs hmem
  have hid : s.ids[i]? = some mp.fs := by
    rw [FileManager.ids, List.getElem?_map, hmp]
    rfl
  rw [List.take_add_one, hid, List.mem_append] at hmem
  rcases hmem with hmem | hmem
  · exact h m hm hs hmem
  · have hfs : m.fs = mp.fs := List.mem_singleton.mp hmem
    rw [eq_of_fs hids hm (List.mem_of_getElem? hmp) hfs] at hs ⊢
    exact hleft hs

theorem Passed.of_sameMounts {sought : MountPoint → Prop} {i : Nat} (h : Passed s sought i)
    (hsought : Unmarked sought) (hr : Releases s s') (hsame : SameMounts s s') :
    Passed s' sought i := by
  intro m hm hs hmem
  obtain ⟨m₀, hm₀, hbare, -⟩ := hr.mem hm
  have hfs := (bare_injects hbare).1
  rw [hsame.ids] at hmem
  rw [← hfs] at hmem ⊢
  exact (h m₀ hm₀ (hsought m m₀ hbare.symm hs) hmem).of_sameMounts hr hsame

/-- Past the end all have been left. -/
theorem Passed.all {sought : MountPoint → Prop} {i : Nat} (h : Passed s sought i)
    (hend : s.mountPoints[i]? = none) (hm : mp ∈ s.mountPoints) (hs : sought mp) :
    Left s mp.fs := by
  refine h mp hm hs ?_
  have hle : s.ids.length ≤ i := by
    rw [FileManager.ids, List.length_map]
    exact List.getElem?_eq_none_iff.mp hend
  rw [List.take_of_length_le hle]
  exact List.mem_map_of_mem hm

/-- What discarding a mount does, and what is so where it leaves it. -/
def Settles (s : FileManager) (fs : Nat) (r : Bool × FileManager) : Prop :=
  Releases s r.2 ∧ (r.1 = false → Left r.2 fs)

/-- After the `i`-th mount has been discarded, it goes on where it was, or from the first. -/
theorem Passed.discard {sought : MountPoint → Prop} {i : Nat} {r : Bool × FileManager}
    (h : Passed s sought i) (hsought : Unmarked sought) (hids : s.ids.Nodup) (hold : Older s)
    (hmp : s.mountPoints[i]? = some mp) (ht : s.discardMountTree cfg n mp = some r)
    (hsettles : Settles s mp.fs r) :
    Passed r.2 sought (if r.2.mountPoints.length = s.mountPoints.length then i + 1 else 0) := by
  obtain ⟨hreleases, hleft⟩ := hsettles
  split
  next hlen =>
    have hsame := sameMounts_of_length hreleases.shrinks hlen
    have hin : mp.fs ∈ s.ids := List.mem_map_of_mem (List.mem_of_getElem? hmp)
    have hstays : r.1 = false := by
      -- It is still there, so the answer was not that it is gone.
      cases hr : r.1 with
      | false => rfl
      | true => exact absurd (hsame.ids ▸ hin) ((discardMountTree_spec hold ht).gone hr)
    have hnext : s.mountPoints.map MountPoint.bare = r.2.mountPoints.map MountPoint.bare :=
      hsame.symm
    obtain ⟨m, hm, hbare⟩ : ∃ m, r.2.mountPoints[i]? = some m ∧ m.bare = mp.bare := by
      have hget := congrArg (fun ms => ms[i]?) hnext
      rw [List.getElem?_map, List.getElem?_map, hmp] at hget
      exact Option.map_eq_some_iff.mp hget.symm
    refine (h.of_sameMounts hsought hreleases hsame).succ (hsame.ids ▸ hids) hm fun _ => ?_
    rw [(bare_injects hbare).1]
    exact hleft hstays
  next => exact passed_zero _ _

mutual

/-- A mount that is discarded and not gone has something open in it or below. -/
theorem discardMountTree_settles {n : Nat} {s : FileManager} {mp : MountPoint}
    {r : Bool × FileManager} (hids : s.ids.Nodup) (hold : Older s)
    (h : s.discardMountTree cfg n mp = some r) : Settles s mp.fs r := by
  cases n with
  | zero =>
      rw [discardMountTree] at h
      exact nomatch h
  | succ n =>
      rw [discardMountTree] at h
      cases hc : (s.markStale mp.fs).discardChildren cfg n mp.fs 0 with
      | none =>
          rw [hc] at h
          exact nomatch h
      | some u =>
          rw [hc] at h
          obtain ⟨hreleases, hchildren⟩ := discardChildren_settles
            (by rw [markStale_ids]; exact hids) (hold.of_shrinks (markStale_shrinks s mp.fs)) hc
            (passed_zero _ _)
          dsimp only at h
          split at h
          next hev =>
            obtain ⟨v, hv, rfl⟩ := Option.map_eq_some_iff.mp h
            exact ⟨.mark mp.fs (hreleases.trans (.release mp hev (fcloseMount_releases hv))), nofun⟩
          next hheld =>
            cases h
            refine ⟨.mark mp.fs hreleases, fun _ => ⟨?_, fun m hm hfs => ?_⟩⟩
            · refine openBelow_of_inUse hheld fun c hc hne hfile => ?_
              exact (hchildren c hc ⟨hne, hfile⟩).opened
            · obtain ⟨m₀, hm₀, hbare, hstale⟩ := hreleases.mem hm
              obtain ⟨m₁, -, rfl⟩ := List.mem_map.mp hm₀
              refine hstale ?_
              have hfs₀ := (bare_injects hbare).1.trans hfs
              split at hfs₀
              next heq => rw [if_pos heq]
              next hne => exact absurd hfs₀ hne

/-- The mounts that lie in a file system, when they have been discarded. -/
theorem discardChildren_settles {n : Nat} {s s' : FileManager} {fs i : Nat} (hids : s.ids.Nodup)
    (hold : Older s) (h : s.discardChildren cfg n fs i = some s')
    (hpassed : Passed s (fun m => m.fs ≠ fs ∧ m.fileFs = fs) i) :
    Releases s s' ∧ ∀ m ∈ s'.mountPoints, m.fs ≠ fs ∧ m.fileFs = fs → Left s' m.fs := by
  cases n with
  | zero =>
      rw [discardChildren] at h
      exact nomatch h
  | succ n =>
      rw [discardChildren] at h
      cases hchild : s.mountPoints[i]? with
      | none =>
          rw [hchild] at h
          cases h
          exact ⟨.refl s, fun m hm hs => hpassed.all hchild hm hs⟩
      | some child =>
          rw [hchild] at h
          dsimp only at h
          split at h
          next hbelow =>
            cases ht : s.discardMountTree cfg n child with
            | none =>
                rw [ht] at h
                exact nomatch h
            | some r =>
                rw [ht] at h
                have hsettles := discardMountTree_settles hids hold ht
                have hshrinks := hsettles.1.shrinks
                have hsought : Unmarked fun m => m.fs ≠ fs ∧ m.fileFs = fs := by
                  intro a b hab hs
                  obtain ⟨hfs, -, hfile, -⟩ := bare_injects hab
                  rw [← hfs, ← hfile]
                  exact hs
                obtain ⟨hreleases, hall⟩ := discardChildren_settles
                  (hids.sublist hshrinks.ids) (hold.of_shrinks hshrinks) h
                  (hpassed.discard hsought hids hold hchild ht hsettles)
                exact ⟨hsettles.1.trans hreleases, hall⟩
          next hnot =>
            exact discardChildren_settles hids hold h
              (hpassed.succ hids hchild fun hs => absurd hs hnot)

end

/-- When the mounts of a file have been discarded, those that are left are in use. -/
theorem discardMountsOfFile_settles {i : Nat} (hids : s.ids.Nodup) (hold : Older s)
    (h : s.discardMountsOfFile cfg n path i = some s')
    (hpassed : Passed s (fun m => sameName m.filePath path = true) i) :
    Releases s s' ∧
    ∀ m ∈ s'.mountPoints, sameName m.filePath path = true → Left s' m.fs := by
  induction n generalizing s i with
  | zero =>
      rw [discardMountsOfFile] at h
      cases h
  | succ n ih =>
      rw [discardMountsOfFile] at h
      cases hmp : s.mountPoints[i]? with
      | none =>
          rw [hmp] at h
          cases h
          exact ⟨.refl _, fun m hm hs => hpassed.all hmp hm hs⟩
      | some mp =>
          rw [hmp] at h
          dsimp only at h
          split at h
          · cases ht : s.discardMountTree cfg n mp with
            | none =>
                rw [ht] at h
                cases h
            | some r =>
                rw [ht] at h
                have hsettles := discardMountTree_settles hids hold ht
                have hshrinks := hsettles.1.shrinks
                have hsought : Unmarked fun m => sameName m.filePath path = true := by
                  intro a b hab hs
                  rw [← (bare_injects hab).2.2.2.1]
                  exact hs
                obtain ⟨hreleases, hall⟩ := ih (hids.sublist hshrinks.ids)
                  (hold.of_shrinks hshrinks) h
                  (hpassed.discard hsought hids hold hmp ht hsettles)
                exact ⟨hsettles.1.trans hreleases, hall⟩
          next hnot =>
            exact ih hids hold h (hpassed.succ hids hmp fun hs => absurd hs hnot)

/-! Discarding goes from a mount to what lies in it, never to what it lies in. -/

mutual

/-- By any measure that grows from a file system to the mounts in it, discarding keeps what
    is smaller than the mount. -/
theorem discardMountTree_keeps (size : Nat → Nat) {n : Nat} {s : FileManager} {mp : MountPoint}
    {r : Bool × FileManager} (hold : Older s)
    (hsize : ∀ m ∈ s.mountPoints, size m.fileFs < size m.fs)
    (h : s.discardMountTree cfg n mp = some r) :
    ∀ f ∈ s.ids, size f < size mp.fs → f ∈ r.2.ids := by
  cases n with
  | zero =>
      rw [discardMountTree] at h
      exact nomatch h
  | succ n =>
      rw [discardMountTree] at h
      have hmark := markStale_shrinks s mp.fs
      cases hc : (s.markStale mp.fs).discardChildren cfg n mp.fs 0 with
      | none =>
          rw [hc] at h
          exact nomatch h
      | some u =>
          rw [hc] at h
          have hkeeps := discardChildren_keeps size (hold.of_shrinks hmark)
            (sizes_of_shrinks hmark hsize) hc
          rw [markStale_ids] at hkeeps
          intro f hf hlt
          have hu := hkeeps f hf (Nat.le_of_lt hlt)
          dsimp only at h
          split at h
          · obtain ⟨v, hv, rfl⟩ := Option.map_eq_some_iff.mp h
            have hsame : v.ids = (u.removeMount mp.fs).ids :=
              congrArg (List.map MountPoint.fs) (fcloseMount_shrinks hv).2
            dsimp only
            rw [hsame, mem_ids_removeMount]
            exact ⟨hu, fun heq => Nat.lt_irrefl _ (heq ▸ hlt)⟩
          · cases h
            exact hu

/-- What is mounted from a file system is larger than it. -/
theorem discardChildren_keeps (size : Nat → Nat) {n : Nat} {s s' : FileManager} {fs i : Nat}
    (hold : Older s) (hsize : ∀ m ∈ s.mountPoints, size m.fileFs < size m.fs)
    (h : s.discardChildren cfg n fs i = some s') :
    ∀ f ∈ s.ids, size f ≤ size fs → f ∈ s'.ids := by
  cases n with
  | zero =>
      rw [discardChildren] at h
      exact nomatch h
  | succ n =>
      rw [discardChildren] at h
      cases hchild : s.mountPoints[i]? with
      | none =>
          rw [hchild] at h
          cases h
          exact fun _ hf _ => hf
      | some child =>
          rw [hchild] at h
          dsimp only at h
          split at h
          next hbelow =>
            cases ht : s.discardMountTree cfg n child with
            | none =>
                rw [ht] at h
                exact nomatch h
            | some r =>
                rw [ht] at h
                have hshrinks := (discardMountTree_spec hold ht).shrinks
                have hlarger := hsize child (List.mem_of_getElem? hchild)
                rw [hbelow.2] at hlarger
                intro f hf hle
                exact discardChildren_keeps size (hold.of_shrinks hshrinks)
                  (sizes_of_shrinks hshrinks hsize) h f
                  (discardMountTree_keeps size hold hsize ht f hf (Nat.lt_of_le_of_lt hle hlarger))
                  hle
          next => exact discardChildren_keeps size hold hsize h

end

theorem discardMountsOfFile_keeps (size : Nat → Nat) {i f : Nat} (hold : Older s)
    (hsize : ∀ m ∈ s.mountPoints, size m.fileFs < size m.fs)
    (h : s.discardMountsOfFile cfg n path i = some s') (hf : f ∈ s.ids)
    (hlt : ∀ m ∈ s.mountPoints, sameName m.filePath path = true → size f < size m.fs) :
    f ∈ s'.ids := by
  induction n generalizing s i with
  | zero =>
      rw [discardMountsOfFile] at h
      cases h
  | succ n ih =>
      rw [discardMountsOfFile] at h
      cases hmp : s.mountPoints[i]? with
      | none =>
          rw [hmp] at h
          cases h
          exact hf
      | some mp =>
          rw [hmp] at h
          dsimp only at h
          split at h
          next hname =>
            cases ht : s.discardMountTree cfg n mp with
            | none =>
                rw [ht] at h
                cases h
            | some r =>
                rw [ht] at h
                have hshrinks := (discardMountTree_spec hold ht).shrinks
                refine ih (hold.of_shrinks hshrinks) (sizes_of_shrinks hshrinks hsize) h
                  (discardMountTree_keeps size hold hsize ht f hf
                    (hlt mp (List.mem_of_getElem? hmp) hname)) fun m hm hs => ?_
                obtain ⟨m₀, hm₀, hbare⟩ := mem_bare_of_shrinks hshrinks hm
                obtain ⟨hfs, -, -, hfile, -⟩ := bare_injects hbare
                rw [← hfs]
                exact hlt m₀ hm₀ (hfile ▸ hs)
          next => exact ih hold hsize h hf hlt

/-- What is left cannot be evicted. -/
theorem Left.held (h : Left s mp.fs) (hold : Older s) : ¬ s.isMountEvictable mp = true := by
  rw [isMountEvictable_iff, not_not]
  generalize hfs : mp.fs = fs at h
  cases h.opened with
  | opened ho =>
      rw [FileManager.hasOpen, Bool.or_eq_true] at ho
      rcases ho with ho | ho
      · obtain ⟨f, hf, heq⟩ := List.any_eq_true.mp ho
        exact Or.inl ⟨f, hf, (beq_iff_eq.mp heq).trans hfs.symm⟩
      · exact Or.inr (Or.inl (hfs ▸ List.contains_iff_mem.mp ho))
  | inside hc _ =>
      refine Or.inr (Or.inr ⟨_, hc, fun heq => ?_, hfs.symm⟩)
      have hlt := hold _ hc
      rw [heq, hfs] at hlt
      exact Nat.lt_irrefl _ hlt

/-! ## A lookup -/

/-- What a call of `find_mount_point` does: it uses a mount of the cache, adds one, or
    finds none. -/
inductive Looks (s : FileManager) (l : Lookup) : Option Nat × FileManager → Prop
  | cached {u : FileManager} {mp : MountPoint} (hm : mp ∈ s.mountPoints)
      (hmatch : mp.isMatch l.fs l.path = true) (hr : Releases s u)
      (hstale : mp.stale = true → OpenBelow u mp.fs) :
      Looks s l (some mp.fs, u.touch mp.fs)
  | made {u t : FileManager} (hr : Releases s u) (hhost : s.Has l.fs → u.Has l.fs)
      (ht : Releases (added u l) t) : Looks s l (some s.nextFs, t)
  | failed {u : FileManager} (hr : Releases s u) : Looks s l (none, u)

theorem mount_looks {r : Option Nat × FileManager} {u : FileManager} (hu : Releases s u)
    (hhost : s.Has l.fs → u.Has l.fs) (h : u.mount cfg l = some r) : Looks s l r := by
  rw [FileManager.mount] at h
  have hnoted : Releases s { u with
      managedTempEntries := noteManagedTempOpen cfg u.managedTempEntries l.rootPath } :=
    hu.trans (.entries _ (.refl _))
  have hnext : u.nextFs = s.nextFs := hu.shrinks.nextFs
  split at h
  · dsimp only at h
    split at h
    · obtain ⟨t, ht, rfl⟩ := Option.map_eq_some_iff.mp h
      rw [hnext]
      exact .made hnoted hhost (evictMountPoints_releases ht)
    · obtain ⟨t, ht, rfl⟩ := Option.map_eq_some_iff.mp h
      exact .failed (hnoted.trans (fcloseMount_releases ht))
  · cases h
    exact .failed hu

theorem findMountPoint_looks {r : Option Nat × FileManager} (hids : s.ids.Nodup) (hold : Older s)
    (h : s.findMountPoint cfg l = some r) : Looks s l r := by
  rw [findMountPoint] at h
  cases hfind : s.mountPoints.find? fun mp => mp.isMatch l.fs l.path with
  | none =>
      rw [hfind] at h
      exact mount_looks (.refl s) id h
  | some cached =>
      rw [hfind] at h
      have hmem := List.mem_of_find?_eq_some hfind
      have hmatch : cached.isMatch l.fs l.path = true := by simpa using List.find?_some hfind
      dsimp only at h
      split at h
      · cases ht : s.discardMountTree cfg l.calls cached with
        | none =>
            rw [ht] at h
            exact nomatch h
        | some b =>
            obtain ⟨b, u⟩ := b
            rw [ht] at h
            obtain ⟨hreleases, hleft⟩ := discardMountTree_settles hids hold ht
            cases b with
            | true =>
                refine mount_looks hreleases (fun hhas => hhas.imp id fun hin => ?_) h
                rw [MountPoint.isMatch, Bool.and_eq_true, beq_iff_eq] at hmatch
                -- The image lies in an older file system than the mount that is gone.
                exact (discardMountTree_spec hold ht).older _ hin (hmatch.1 ▸ hold cached hmem)
            | false =>
                cases h
                exact .cached hmem hmatch hreleases fun _ => (hleft rfl).opened
      next hfresh =>
        cases h
        exact .cached hmem hmatch (.refl s) fun hstale => absurd hstale hfresh

end MountCache
