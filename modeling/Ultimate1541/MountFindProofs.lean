import Ultimate1541.MountEvictionProofs

/-! # Looking a mount up

    A call of `find_mount_point` returns a mount of the cache or adds one, and then
    evicts what is too much.  The new mount was used last, so it is evicted only when no
    other can be: when eight others are in use.  The mounts in the cache differ in their
    paths, as long as a lookup matches none but the mount of its own path. -/

namespace MountCache

open Pattern ManagedTemp FileManager

variable {cfg : Config} {s s' t : FileManager} {mp : MountPoint} {l : Lookup} {n : Nat}

/-- Two paths are the same but for case. -/
def sameNames : List CString → List CString → Bool
  | [], [] => true
  | a :: as, b :: bs => sameName a b && sameNames as bs
  | _, _ => false

theorem sameNames_symm {a b : List CString} (h : sameNames a b = true) : sameNames b a = true := by
  induction a generalizing b with
  | nil =>
      cases b with
      | nil => rfl
      | cons y b => exact nomatch h
  | cons x a ih =>
      cases b with
      | nil => exact nomatch h
      | cons y b =>
          rw [sameNames, Bool.and_eq_true] at h ⊢
          exact ⟨sameName_symm h.1, ih h.2⟩

theorem sameNames_trans {a b c : List CString} (h : sameNames a b = true)
    (h' : sameNames b c = true) : sameNames a c = true := by
  induction a generalizing b c with
  | nil =>
      cases b with
      | nil => exact h'
      | cons y b => exact nomatch h
  | cons x a ih =>
      cases b with
      | nil => exact nomatch h
      | cons y b =>
          cases c with
          | nil => exact nomatch h'
          | cons z c =>
              rw [sameNames, Bool.and_eq_true] at h h' ⊢
              exact ⟨sameName_trans h.1 h'.1, ih h.2 h'.2⟩

/-- A mount is found by its own path. -/
theorem subPathMatch_of_sameNames {path sub : List CString} (h : sameNames path sub = true) :
    subPathMatch sub path = true := by
  induction path generalizing sub with
  | nil =>
      cases sub with
      | nil => rfl
      | cons y sub => exact nomatch h
  | cons x path ih =>
      cases sub with
      | nil => exact nomatch h
      | cons y sub =>
          rw [sameNames, Bool.and_eq_true] at h
          rw [subPathMatch, Bool.and_eq_true]
          exact ⟨patternMatch_of_sameName h.1, ih h.2⟩

/-! ## The invariant -/

/-- Two mounts for one path. -/
def SamePath (a b : MountPoint) : Prop := a.fileFs = b.fileFs ∧ sameNames a.path b.path = true

/-- The cache does not hold two mounts for one path. -/
def OncePerPath (s : FileManager) : Prop := s.mountPoints.Pairwise fun a b => ¬ SamePath a b

/-- The file systems of the mounts are different ones, each younger than the one its
    image lies in, and no mount was used later than now. -/
structure Inv (s : FileManager) : Prop where
  ids : s.ids.Nodup
  older : Older s
  below : ∀ mp ∈ s.mountPoints, mp.fs < s.nextFs
  used : ∀ mp ∈ s.mountPoints, mp.lastUsed.toNat ≤ s.mountUseSeq.toNat
  once : OncePerPath s

theorem Inv.of_shrinks (h : Inv s) (hs : Shrinks s s') : Inv s' where
  ids := h.ids.sublist hs.ids
  older := h.older.of_shrinks hs
  below mp hm := by
    obtain ⟨m, hmem, hfs, -⟩ := hs.mem hm
    rw [← hfs, hs.nextFs]
    exact h.below m hmem
  used mp hm := by
    obtain ⟨m, hmem, -, -, hused, -⟩ := hs.mem hm
    rw [← hused, hs.mountUseSeq]
    exact h.used m hmem
  once := by
    have hbare : (s.mountPoints.map MountPoint.bare).Pairwise fun a b => ¬ SamePath a b :=
      List.pairwise_map.mpr h.once
    exact List.pairwise_map.mp (hbare.sublist hs.mounts)

/-- The number of the next use does not start again at zero. -/
def Room (s : FileManager) : Prop := s.mountUseSeq.toNat + 1 < 2 ^ 32

theorem toNat_next (h : Room s) : (s.mountUseSeq + 1).toNat = s.mountUseSeq.toNat + 1 := by
  rw [UInt32.toNat_add]
  exact Nat.mod_eq_of_lt h

theorem touch_ids (s : FileManager) (fs : Nat) : (s.touch fs).ids = s.ids := by
  rw [FileManager.ids, FileManager.ids, FileManager.touch, List.map_map]
  refine List.map_congr_left fun m _ => ?_
  rw [Function.comp]
  split <;> rfl

/-- A mount is used. -/
theorem Inv.touch (h : Inv s) (hroom : Room s) (fs : Nat) : Inv (s.touch fs) := by
  have hmem : ∀ m ∈ (s.touch fs).mountPoints, ∃ m₀ ∈ s.mountPoints, m.fs = m₀.fs ∧
      m.fileFs = m₀.fileFs ∧ m.lastUsed.toNat ≤ s.mountUseSeq.toNat + 1 := by
    intro m hm
    obtain ⟨m₀, hm₀, rfl⟩ := List.mem_map.mp hm
    refine ⟨m₀, hm₀, ?_⟩
    split
    · exact ⟨rfl, rfl, Nat.le_of_eq (toNat_next hroom)⟩
    · exact ⟨rfl, rfl, Nat.le_succ_of_le (h.used m₀ hm₀)⟩
  constructor
  · rw [touch_ids]
    exact h.ids
  · intro m hm
    obtain ⟨m₀, hm₀, hfs, hfile, -⟩ := hmem m hm
    rw [hfs, hfile]
    exact h.older m₀ hm₀
  · intro m hm
    obtain ⟨m₀, hm₀, hfs, -⟩ := hmem m hm
    rw [hfs]
    exact h.below m₀ hm₀
  · intro m hm
    obtain ⟨m₀, hm₀, -, -, hused⟩ := hmem m hm
    exact hused.trans (Nat.le_of_eq (toNat_next hroom).symm)
  · refine List.pairwise_map.mpr (h.once.imp ?_)
    intro a b hab
    split <;> split <;> exact hab

/-! ## A new mount -/

/-- The mount of a lookup, used now. -/
def newMount (s : FileManager) (l : Lookup) : MountPoint where
  fs := s.nextFs
  path := l.path
  fileFs := l.fs
  filePath := l.rootPath
  writable := l.writable &&
    !(s.openFileList.any fun f => f.writeIntent && sameName f.path l.rootPath)
  lastUsed := s.mountUseSeq + 1
  stale := false

/-- The state before eviction. -/
def added (s : FileManager) (l : Lookup) : FileManager := (s.addMountPoint l).touch s.nextFs

theorem added_mountPoints (h : Inv s) (l : Lookup) :
    (added s l).mountPoints = s.mountPoints ++ [newMount s l] := by
  rw [added, FileManager.touch, FileManager.addMountPoint, List.map_append]
  refine congr (congrArg _ ?_) ?_
  · refine (List.map_congr_left fun m hm => ?_).trans (List.map_id _)
    exact if_neg (Nat.ne_of_lt (h.below m hm))
  · exact congrArg (fun m => [m]) (if_pos rfl)

theorem added_inv (h : Inv s) (hroom : Room s) (hfs : l.fs < s.nextFs)
    (hnew : ∀ mp ∈ s.mountPoints, mp.fileFs = l.fs → ¬ sameNames mp.path l.path = true) :
    Inv (added s l) := by
  have hmounts := added_mountPoints h l
  have hcases : ∀ m ∈ (added s l).mountPoints, m ∈ s.mountPoints ∨ m = newMount s l := by
    intro m hm
    rw [hmounts, List.mem_append, List.mem_singleton] at hm
    exact hm
  constructor
  · rw [FileManager.ids, hmounts, List.map_append]
    refine List.nodup_append.mpr ⟨h.ids, by simp, ?_⟩
    intro a ha b hb
    obtain ⟨m, hm, rfl⟩ := List.mem_map.mp ha
    rw [List.mem_singleton.mp hb]
    exact Nat.ne_of_lt (h.below m hm)
  · intro m hm
    rcases hcases m hm with hm | rfl
    · exact h.older m hm
    · exact hfs
  · intro m hm
    rcases hcases m hm with hm | rfl
    · exact Nat.lt_succ_of_lt (h.below m hm)
    · exact Nat.lt_succ_self _
  · intro m hm
    have hseq : (added s l).mountUseSeq.toNat = s.mountUseSeq.toNat + 1 := toNat_next hroom
    rw [hseq]
    rcases hcases m hm with hm | rfl
    · exact Nat.le_succ_of_le (h.used m hm)
    · exact Nat.le_of_eq (toNat_next hroom)
  · rw [OncePerPath, hmounts]
    refine List.pairwise_append.mpr ⟨h.once, by simp, ?_⟩
    intro a ha b hb hab
    rw [List.mem_singleton.mp hb] at hab
    exact hnew a ha hab.1 hab.2

/-- What cannot be released for the lookup of an image in `fs₀`: the mounts something is
    open in, the one the image lies in, and those that the images of such mounts lie in. -/
inductive Pinned (s : FileManager) (fs₀ : Nat) : Nat → Prop
  | opened {mp : MountPoint} (hm : mp ∈ s.mountPoints) (ho : s.hasOpen mp.fs = true) :
      Pinned s fs₀ mp.fs
  | entered {mp : MountPoint} (hm : mp ∈ s.mountPoints) (he : mp.fs = fs₀) : Pinned s fs₀ mp.fs
  | hosts {mp child : MountPoint} (hm : mp ∈ s.mountPoints) (hc : child ∈ s.mountPoints)
      (hp : Pinned s fs₀ child.fs) (hfs : child.fileFs = mp.fs) : Pinned s fs₀ mp.fs

/-- Seven at most. -/
def Few (s : FileManager) (fs₀ : Nat) : Prop :=
  ∀ pinned : List Nat, pinned.Nodup → (∀ fs ∈ pinned, Pinned s fs₀ fs) →
    pinned.length < mountCacheMax

theorem Pinned.of_shrinks {fs₀ fs : Nat} (h : Pinned s' fs₀ fs) (hs : Shrinks s s') :
    Pinned s fs₀ fs := by
  induction h with
  | opened hm ho =>
      obtain ⟨m, hmem, hfs, -⟩ := hs.mem hm
      rw [hs.hasOpen, ← hfs] at ho
      rw [← hfs]
      exact .opened hmem ho
  | entered hm he =>
      obtain ⟨m, hmem, hfs, -⟩ := hs.mem hm
      rw [← hfs] at he ⊢
      exact .entered hmem he
  | hosts hm hc _ hfs ih =>
      obtain ⟨m, hmem, hm', -⟩ := hs.mem hm
      obtain ⟨c, hcmem, hc', hfile, -⟩ := hs.mem hc
      rw [← hc'] at ih
      rw [← hm'] at hfs ⊢
      exact .hosts hmem hcmem ih (hfile.trans hfs)

theorem Few.of_shrinks {fs₀ : Nat} (h : Few s fs₀) (hs : Shrinks s s') : Few s' fs₀ :=
  fun pinned hnodup hp => h pinned hnodup fun fs hfs => (hp fs hfs).of_shrinks hs

/-- Where the others are all in use, they are pinned. -/
theorem pinned_of_inUse (h : Inv s) (ht : Shrinks (added s l) t) (hinv : Inv t)
    (hall : ∀ w ∈ t.mountPoints, w.fs ≠ s.nextFs → InUse t w) {w : MountPoint}
    (hw : w ∈ t.mountPoints) (hne : w.fs ≠ s.nextFs) : Pinned s l.fs w.fs := by
  -- What is left of the others was there before, and what is left of the new one is it.
  have hback : ∀ m ∈ t.mountPoints, m.fs ≠ s.nextFs →
      ∃ m₀ ∈ s.mountPoints, m₀.fs = m.fs ∧ m₀.fileFs = m.fileFs := by
    intro m hm hne
    obtain ⟨m₀, hm₀, hfs, hfile, -⟩ := ht.mem hm
    rw [added_mountPoints h, List.mem_append, List.mem_singleton] at hm₀
    rcases hm₀ with hm₀ | rfl
    · exact ⟨m₀, hm₀, hfs, hfile⟩
    · exact absurd hfs.symm hne
  have hnew : ∀ m ∈ t.mountPoints, m.fs = s.nextFs → m.fileFs = l.fs := by
    intro m hm heq
    obtain ⟨m₀, hm₀, hfs, hfile, -⟩ := ht.mem hm
    rw [added_mountPoints h, List.mem_append, List.mem_singleton] at hm₀
    rcases hm₀ with hm₀ | rfl
    · exact absurd (hfs.trans heq) (Nat.ne_of_lt (h.below m₀ hm₀))
    · exact hfile.symm
  have hopen : ∀ fs, t.hasOpen fs = s.hasOpen fs := fun fs => ht.hasOpen fs
  have hnext : t.nextFs = s.nextFs + 1 := ht.nextFs
  -- From the youngest on: a child is younger than its host.
  induction hk : s.nextFs - w.fs using Nat.strong_induction_on generalizing w with
  | _ k ih =>
      obtain ⟨m₀, hm₀, hfs, hfile⟩ := hback w hw hne
      rcases hall w hw hne with ⟨f, hf, hfile'⟩ | hdir | ⟨c, hc, -, hcw⟩
      · rw [← hfs]
        refine .opened hm₀ ?_
        rw [hfs, ← hopen, FileManager.hasOpen, Bool.or_eq_true]
        exact Or.inl (List.any_eq_true.mpr ⟨f, hf, beq_iff_eq.mpr hfile'⟩)
      · rw [← hfs]
        refine .opened hm₀ ?_
        rw [hfs, ← hopen, FileManager.hasOpen, Bool.or_eq_true]
        exact Or.inr (List.contains_iff_mem.mpr hdir)
      · by_cases hcn : c.fs = s.nextFs
        · rw [← hfs]
          exact .entered hm₀ (hfs.trans (hcw.symm.trans (hnew c hc hcn)))
        · have hyoung := hinv.older c hc
          have hbelow := hinv.below c hc
          have hpin := ih (s.nextFs - c.fs) (by omega) hc hcn rfl
          obtain ⟨c₀, hc₀, hcfs, hcfile⟩ := hback c hc hcn
          rw [← hfs]
          rw [← hcfs] at hpin
          exact .hosts hm₀ hc₀ hpin (hcfile.trans (hcw.trans hfs.symm))

/-- With more than eight mounts and few of them pinned, there is one to release beside
    the new one. -/
theorem exists_evictable (h : Inv s) (hfew : Few s l.fs) (ht : Shrinks (added s l) t)
    (hinv : Inv t) (hlen : mountCacheMax < t.mountPoints.length) :
    ∃ w ∈ t.mountPoints, w.fs ≠ s.nextFs ∧ t.isMountEvictable w = true := by
  by_contra hnone
  have hall : ∀ w ∈ t.mountPoints, w.fs ≠ s.nextFs → InUse t w := by
    intro w hw hne
    by_contra hfree
    exact hnone ⟨w, hw, hne, isMountEvictable_iff.mpr hfree⟩
  have hcount := hfew (t.ids.erase s.nextFs) (hinv.ids.erase _) (by
    intro fs hfs
    have hne := (hinv.ids.mem_erase_iff.mp hfs).1
    obtain ⟨w, hw, rfl⟩ := List.mem_map.mp (List.mem_of_mem_erase hfs)
    exact pinned_of_inUse h ht hinv hall hw hne)
  have herase : t.ids.length ≤ (t.ids.erase s.nextFs).length + 1 := by
    rw [List.length_erase]
    split <;> omega
  have hlength : t.ids.length = t.mountPoints.length := List.length_map _
  omega

/-- The new mount is not evicted. -/
theorem evict_keeps_new (h : Inv s) (hroom : Room s) (hfew : Few s l.fs)
    (hinv : Inv (added s l)) (ht : Shrinks (added s l) t) (hmem : s.nextFs ∈ t.ids)
    (hrun : t.evictMountPoints cfg n = some s') : s.nextFs ∈ s'.ids := by
  induction n generalizing t with
  | zero =>
      cases hrun
      exact hmem
  | succ n ih =>
      rw [evictMountPoints] at hrun
      split at hrun
      · cases hrun
        exact hmem
      next hlen =>
        cases hv : t.oldest t.mountPoints none with
        | none =>
            rw [hv] at hrun
            cases hrun
            exact hmem
        | some v =>
            rw [hv] at hrun
            dsimp only at hrun
            cases hclose : t.fcloseMount cfg v.filePath with
            | none =>
                rw [hclose] at hrun
                cases hrun
            | some u =>
                rw [hclose] at hrun
                obtain ⟨hu, hsame⟩ := fcloseMount_shrinks hclose
                have hids : u.ids = t.ids := congrArg (List.map MountPoint.fs) hsame
                -- Another one can be released, and was used before the new one.
                obtain ⟨w, hw, hwne, hev⟩ := exists_evictable h hfew ht (hinv.of_shrinks ht)
                  (Nat.lt_of_not_le hlen)
                obtain ⟨m, hm, hle⟩ := (oldest_spec t.mountPoints none).2 w (Or.inr ⟨hw, hev⟩)
                cases hm.symm.trans hv
                have hvmem := ((oldest_spec t.mountPoints none).1 v hv).resolve_left (fun h => by cases h)
                have hne : v.fs ≠ s.nextFs := by
                  intro heq
                  obtain ⟨m₀, hm₀, hfs, -, hused, -⟩ := ht.mem hvmem.1
                  obtain ⟨w₀, hw₀, hwfs, -, hwused, -⟩ := ht.mem hw
                  rw [added_mountPoints h, List.mem_append, List.mem_singleton] at hm₀ hw₀
                  rcases hm₀ with hm₀ | rfl
                  · exact Nat.ne_of_lt (h.below m₀ hm₀) (hfs.trans heq)
                  · rcases hw₀ with hw₀ | rfl
                    · have hlast := h.used w₀ hw₀
                      have hnext : v.lastUsed.toNat = s.mountUseSeq.toNat + 1 := by
                        rw [← hused]
                        exact toNat_next hroom
                      rw [hwused] at hlast
                      have hle' : v.lastUsed.toNat ≤ w.lastUsed.toNat := hle
                      omega
                    · exact hwne hwfs.symm
                refine ih ((ht.trans hu).trans (removeMount_shrinks u v.fs)) ?_ hrun
                rw [mem_ids_removeMount, hids]
                exact ⟨hmem, Ne.symm hne⟩

end MountCache
