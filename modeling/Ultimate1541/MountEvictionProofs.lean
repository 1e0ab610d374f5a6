import Ultimate1541.MountCacheProofs

/-! # What the mount cache keeps

    Discarding and evicting take mounts out of the list and change nothing else of it but
    the marks.  Eviction takes only what nothing uses, and of that what was used longest
    ago: the mount that was just added goes last. -/

namespace MountCache

open Pattern ManagedTemp FileManager

variable {cfg : Config} {s s' t : FileManager} {mp : MountPoint} {n : Nat}

/-- The file systems of the mounts. -/
def FileManager.ids (s : FileManager) : List Nat := s.mountPoints.map MountPoint.fs

/-- A mount without its mark. -/
def MountPoint.bare (mp : MountPoint) : MountPoint := { mp with stale := false }

/-- Some mounts are gone, and some are marked. -/
structure Shrinks (s s' : FileManager) : Prop where
  mounts : (s'.mountPoints.map MountPoint.bare).Sublist (s.mountPoints.map MountPoint.bare)
  openFileList : s'.openFileList = s.openFileList
  openDirectoryFs : s'.openDirectoryFs = s.openDirectoryFs
  mountUseSeq : s'.mountUseSeq = s.mountUseSeq
  nextFs : s'.nextFs = s.nextFs

theorem Shrinks.refl (s : FileManager) : Shrinks s s := ⟨.refl _, rfl, rfl, rfl, rfl⟩

theorem Shrinks.trans (h : Shrinks s t) (h' : Shrinks t s') : Shrinks s s' :=
  ⟨h'.mounts.trans h.mounts, h'.openFileList.trans h.openFileList,
    h'.openDirectoryFs.trans h.openDirectoryFs, h'.mountUseSeq.trans h.mountUseSeq,
    h'.nextFs.trans h.nextFs⟩

/-- What is left was there, but for its mark. -/
theorem Shrinks.mem (h : Shrinks s s') (hm : mp ∈ s'.mountPoints) :
    ∃ m ∈ s.mountPoints, m.fs = mp.fs ∧ m.fileFs = mp.fileFs ∧ m.lastUsed = mp.lastUsed ∧
      m.path = mp.path := by
  obtain ⟨m, hmem, heq⟩ := List.mem_map.mp (h.mounts.subset (List.mem_map_of_mem hm))
  rw [MountPoint.bare, MountPoint.bare, MountPoint.mk.injEq] at heq
  exact ⟨m, hmem, heq.1, heq.2.2.1, heq.2.2.2.2.2.1, heq.2.1⟩

theorem ids_eq (s : FileManager) :
    s.ids = (s.mountPoints.map MountPoint.bare).map MountPoint.fs := by
  rw [List.map_map]
  rfl

theorem Shrinks.ids (h : Shrinks s s') : s'.ids.Sublist s.ids := by
  rw [ids_eq, ids_eq]
  exact h.mounts.map _

theorem Shrinks.length_le (h : Shrinks s s') : s'.mountPoints.length ≤ s.mountPoints.length := by
  simpa using h.mounts.length_le

theorem Shrinks.hasOpen (h : Shrinks s s') (fs : Nat) : s'.hasOpen fs = s.hasOpen fs := by
  rw [FileManager.hasOpen, FileManager.hasOpen, h.openFileList, h.openDirectoryFs]

theorem fcloseMount_shrinks {path : CString} (h : s.fcloseMount cfg path = some s') :
    Shrinks s s' ∧ s'.mountPoints = s.mountPoints := by
  rw [fcloseMount] at h
  split at h
  · cases h
    exact ⟨⟨.refl _, rfl, rfl, rfl, rfl⟩, rfl⟩
  · split at h
    · exact nomatch h
    · cases h
      exact ⟨⟨.refl _, rfl, rfl, rfl, rfl⟩, rfl⟩
  · exact nomatch h

theorem removeMount_shrinks (s : FileManager) (fs : Nat) : Shrinks s (s.removeMount fs) :=
  ⟨List.filter_sublist.map _, rfl, rfl, rfl, rfl⟩

theorem markStale_bare (s : FileManager) (fs : Nat) :
    (s.markStale fs).mountPoints.map MountPoint.bare = s.mountPoints.map MountPoint.bare := by
  rw [FileManager.markStale, List.map_map]
  refine List.map_congr_left fun m _ => ?_
  rw [Function.comp]
  split <;> rfl

theorem markStale_shrinks (s : FileManager) (fs : Nat) : Shrinks s (s.markStale fs) :=
  ⟨by rw [markStale_bare], rfl, rfl, rfl, rfl⟩

theorem mem_ids_removeMount {fs f : Nat} :
    f ∈ (s.removeMount fs).ids ↔ f ∈ s.ids ∧ f ≠ fs := by
  simp only [FileManager.ids, FileManager.removeMount, List.mem_map, List.mem_filter, bne_iff_ne]
  constructor
  · rintro ⟨m, ⟨hm, hne⟩, rfl⟩
    exact ⟨⟨m, hm, rfl⟩, hne⟩
  · rintro ⟨⟨m, hm, rfl⟩, hne⟩
    exact ⟨m, ⟨hm, hne⟩, rfl⟩

/-! ## Discarding -/

/-- The image of a mount lies in an older file system. -/
def Older (s : FileManager) : Prop := ∀ mp ∈ s.mountPoints, mp.fileFs < mp.fs

theorem Older.of_shrinks (h : Older s) (hs : Shrinks s s') : Older s' := by
  intro mp hm
  obtain ⟨m, hmem, hfs, hfile, -⟩ := hs.mem hm
  rw [← hfs, ← hfile]
  exact h m hmem

/-- What discarding a mount does: the older ones stay, and it is gone if the answer says
    so, and else it is where it was. -/
structure Discards (s : FileManager) (mp : MountPoint) (r : Bool × FileManager) : Prop where
  shrinks : Shrinks s r.2
  older : ∀ f ∈ s.ids, f < mp.fs → f ∈ r.2.ids
  gone : r.1 = true → mp.fs ∉ r.2.ids
  stays : r.1 = false → mp.fs ∈ s.ids → mp.fs ∈ r.2.ids

mutual

/-- Discarding a mount with those below it. -/
theorem discardMountTree_spec {n : Nat} {s : FileManager} {mp : MountPoint}
    {r : Bool × FileManager} (hold : Older s) (h : s.discardMountTree cfg n mp = some r) :
    Discards s mp r := by
  cases n with
  | zero =>
      rw [discardMountTree] at h
      exact nomatch h
  | succ n =>
      rw [discardMountTree] at h
      have hmark := markStale_shrinks s mp.fs
      cases hc : (s.markStale mp.fs).discardChildren cfg n mp.fs 0 with
      | none =>
          rw [hc] at h
          exact nomatch h
      | some u =>
          rw [hc] at h
          obtain ⟨hshrinks, hkeeps⟩ := discardChildren_spec (hold.of_shrinks hmark) hc
          have hids : (s.markStale mp.fs).ids = s.ids := by
            rw [ids_eq, ids_eq, markStale_bare]
          rw [hids] at hkeeps
          dsimp only at h
          split at h
          · obtain ⟨v, hv, rfl⟩ := Option.map_eq_some_iff.mp h
            obtain ⟨hclose, hsame⟩ := fcloseMount_shrinks hv
            have hv' : v.ids = (u.removeMount mp.fs).ids := by
              rw [FileManager.ids, hsame, ← FileManager.ids]
            refine ⟨(hmark.trans hshrinks).trans ((removeMount_shrinks u mp.fs).trans hclose),
              ?_, ?_, nofun⟩
            · intro f hf hlt
              rw [hv', mem_ids_removeMount]
              exact ⟨hkeeps f hf (Nat.le_of_lt hlt), Nat.ne_of_lt hlt⟩
            · intro _ hmem
              rw [hv', mem_ids_removeMount] at hmem
              exact hmem.2 rfl
          · cases h
            exact ⟨hmark.trans hshrinks, fun f hf hlt => hkeeps f hf (Nat.le_of_lt hlt), nofun,
              fun _ hmem => hkeeps _ hmem (Nat.le_refl _)⟩

/-- Discarding what is mounted from a file system leaves it and what is older. -/
theorem discardChildren_spec {n : Nat} {s s' : FileManager} {fs i : Nat} (hold : Older s)
    (h : s.discardChildren cfg n fs i = some s') :
    Shrinks s s' ∧ ∀ f ∈ s.ids, f ≤ fs → f ∈ s'.ids := by
  cases n with
  | zero =>
      rw [discardChildren] at h
      exact nomatch h
  | succ n =>
      rw [discardChildren] at h
      cases hchild : s.mountPoints[i]? with
      | none =>
          rw [hchild] at h
          cases h
          exact ⟨.refl s, fun _ hf _ => hf⟩
      | some child =>
          rw [hchild] at h
          dsimp only at h
          split at h
          next hbelow =>
            cases ht : s.discardMountTree cfg n child with
            | none =>
                rw [ht] at h
                exact nomatch h
            | some r =>
                rw [ht] at h
                have htree := discardMountTree_spec hold ht
                obtain ⟨hshrinks, hkeeps⟩ :=
                  discardChildren_spec (hold.of_shrinks htree.shrinks) h
                refine ⟨htree.shrinks.trans hshrinks, fun f hf hle => ?_⟩
                -- The child is younger than the file system that its image lies in.
                have hyoung := hold child (List.mem_of_getElem? hchild)
                exact hkeeps f (htree.older f hf (by omega)) hle
          next => exact discardChildren_spec hold h

end

theorem discardMountsOfFile_shrinks {path : CString} {i : Nat} (hold : Older s)
    (h : s.discardMountsOfFile cfg n path i = some s') : Shrinks s s' := by
  induction n generalizing s i with
  | zero =>
      rw [discardMountsOfFile] at h
      exact nomatch h
  | succ n ih =>
      rw [discardMountsOfFile] at h
      cases hmp : s.mountPoints[i]? with
      | none =>
          rw [hmp] at h
          cases h
          exact .refl _
      | some mp =>
          rw [hmp] at h
          dsimp only at h
          split at h
          · cases ht : s.discardMountTree cfg n mp with
            | none =>
                rw [ht] at h
                exact nomatch h
            | some r =>
                rw [ht] at h
                have htree := discardMountTree_spec hold ht
                exact htree.shrinks.trans (ih (hold.of_shrinks htree.shrinks) h)
          · exact ih hold h

/-! ## Eviction -/

/-- Something is open in a mount, or another mount's image lies in it. -/
def InUse (s : FileManager) (mp : MountPoint) : Prop :=
  (∃ f ∈ s.openFileList, f.fs = mp.fs) ∨ mp.fs ∈ s.openDirectoryFs ∨
    ∃ child ∈ s.mountPoints, child.fs ≠ mp.fs ∧ child.fileFs = mp.fs

theorem isMountEvictable_iff : s.isMountEvictable mp = true ↔ ¬ InUse s mp := by
  simp only [isMountEvictable, hasOpen, InUse, not_or, Bool.and_eq_true, Bool.not_eq_true',
    Bool.or_eq_true, Bool.eq_false_iff, ne_eq, List.any_eq_true, List.contains_iff_mem,
    beq_iff_eq, bne_iff_ne, and_assoc]

/-- Mounts are released one after the other, each when nothing uses it. -/
inductive Evictions (cfg : Config) : FileManager → FileManager → Prop
  | done (s : FileManager) : Evictions cfg s s
  | evict {s t s' : FileManager} {mp : MountPoint} (hm : mp ∈ s.mountPoints)
      (hfree : ¬ InUse s mp) (hclose : s.fcloseMount cfg mp.filePath = some t)
      (hrest : Evictions cfg (t.removeMount mp.fs) s') : Evictions cfg s s'

theorem oldest_cons (a : MountPoint) (l : List MountPoint) (v : Option MountPoint) :
    s.oldest (a :: l) v = s.oldest l
      (if s.isMountEvictable a then
        match v with
        | none => some a
        | some v => if a.lastUsed < v.lastUsed then some a else some v
      else v) := rfl

/-- The `victim` is one of the mounts that nothing uses, and was used longest ago. -/
theorem oldest_spec (l : List MountPoint) (v : Option MountPoint) :
    (∀ m, s.oldest l v = some m → v = some m ∨ (m ∈ l ∧ s.isMountEvictable m = true)) ∧
    (∀ w, (v = some w ∨ (w ∈ l ∧ s.isMountEvictable w = true)) →
      ∃ m, s.oldest l v = some m ∧ m.lastUsed ≤ w.lastUsed) := by
  induction l generalizing v with
  | nil =>
      refine ⟨fun m h => Or.inl h, fun w h => ?_⟩
      rcases h with h | ⟨h, -⟩
      · exact ⟨w, h, UInt32.le_refl _⟩
      · exact nomatch h
  | cons a l ih =>
      rw [oldest_cons]
      by_cases ha : s.isMountEvictable a = true
      · rw [if_pos ha]
        cases v with
        | none =>
            obtain ⟨hfrom, hleast⟩ := ih (some a)
            refine ⟨fun m h => ?_, fun w h => ?_⟩
            · rcases hfrom m h with he | ⟨hm, hev⟩
              · cases he
                exact Or.inr ⟨List.mem_cons_self .., ha⟩
              · exact Or.inr ⟨List.mem_cons_of_mem _ hm, hev⟩
            · rcases h with h | ⟨h, hev⟩
              · exact nomatch h
              · rcases List.mem_cons.mp h with rfl | h
                · exact hleast w (Or.inl rfl)
                · exact hleast w (Or.inr ⟨h, hev⟩)
        | some b =>
            dsimp only
            split
            next hlt =>
              obtain ⟨hfrom, hleast⟩ := ih (some a)
              refine ⟨fun m h => ?_, fun w h => ?_⟩
              · rcases hfrom m h with he | ⟨hm, hev⟩
                · cases he
                  exact Or.inr ⟨List.mem_cons_self .., ha⟩
                · exact Or.inr ⟨List.mem_cons_of_mem _ hm, hev⟩
              · rcases h with h | ⟨h, hev⟩
                · cases h
                  obtain ⟨m, hm, hle⟩ := hleast a (Or.inl rfl)
                  exact ⟨m, hm, UInt32.le_trans hle (UInt32.le_of_lt hlt)⟩
                · rcases List.mem_cons.mp h with rfl | h
                  · exact hleast w (Or.inl rfl)
                  · exact hleast w (Or.inr ⟨h, hev⟩)
            next hge =>
              obtain ⟨hfrom, hleast⟩ := ih (some b)
              refine ⟨fun m h => ?_, fun w h => ?_⟩
              · rcases hfrom m h with he | ⟨hm, hev⟩
                · exact Or.inl he
                · exact Or.inr ⟨List.mem_cons_of_mem _ hm, hev⟩
              · rcases h with h | ⟨h, hev⟩
                · exact hleast w (Or.inl h)
                · rcases List.mem_cons.mp h with rfl | h
                  · obtain ⟨m, hm, hle⟩ := hleast b (Or.inl rfl)
                    exact ⟨m, hm, UInt32.le_trans hle (UInt32.not_lt.mp hge)⟩
                  · exact hleast w (Or.inr ⟨h, hev⟩)
      · rw [if_neg ha]
        obtain ⟨hfrom, hleast⟩ := ih v
        refine ⟨fun m h => ?_, fun w h => ?_⟩
        · rcases hfrom m h with he | ⟨hm, hev⟩
          · exact Or.inl he
          · exact Or.inr ⟨List.mem_cons_of_mem _ hm, hev⟩
        · rcases h with h | ⟨h, hev⟩
          · exact hleast w (Or.inl h)
          · rcases List.mem_cons.mp h with rfl | h
            · exact absurd hev ha
            · exact hleast w (Or.inr ⟨h, hev⟩)

/-- Eviction releases mounts, and those only that nothing uses. -/
theorem evictMountPoints_evictions (h : s.evictMountPoints cfg n = some s') :
    Evictions cfg s s' := by
  induction n generalizing s with
  | zero =>
      cases h
      exact .done _
  | succ n ih =>
      rw [evictMountPoints] at h
      split at h
      · cases h
        exact .done _
      · cases hv : s.oldest s.mountPoints none with
        | none =>
            rw [hv] at h
            cases h
            exact .done _
        | some v =>
            rw [hv] at h
            dsimp only at h
            cases hclose : s.fcloseMount cfg v.filePath with
            | none =>
                rw [hclose] at h
                exact nomatch h
            | some t =>
                rw [hclose] at h
                obtain ⟨hmem, hev⟩ := ((oldest_spec _ _).1 v hv).resolve_left nofun
                exact .evict hmem (isMountEvictable_iff.mp hev) hclose (ih h)

theorem Evictions.shrinks (h : Evictions cfg s s') : Shrinks s s' := by
  induction h with
  | done s => exact .refl s
  | evict _ _ hclose _ ih =>
      exact ((fcloseMount_shrinks hclose).1.trans (removeMount_shrinks _ _)).trans ih

end MountCache
