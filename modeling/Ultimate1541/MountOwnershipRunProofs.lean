import Ultimate1541.MountTreeProofs
import Ultimate1541.MountRunProofs

/-! # Who may write a disk image, over runs

    The file manager finds the mounts of an image, and the files that are open on it, by
    their paths.  That is right as long as these paths are where the files are: a mount
    was made for the file that is at its path now, and a file that is open for writing is
    at the path it was opened by.  It stays so while no directory is renamed that such a
    file is in, and no file is made under another name than the one it was opened by. -/

namespace MountOwnership

open Pattern ManagedTemp MountCache World

variable {cfg : Config} {w w' : World} {fm : MountCache.FileManager} {fs x n : Nat} {e : Enter}
  {sub : List CString} {mp m : MountPoint} {f : Opened}

/-! ## The invariant -/

/-- What is so of a mount: its image is the file at its path, it cannot be written while
    the file is open for writing, and if it is not marked it was made after the file was
    last closed. -/
structure MountOk (w : World) (mp : MountPoint) : Prop where
  entry : w.entry mp.fileFs mp.path = some ⟨w.image mp.fs, false⟩
  filePath : mp.filePath = w.fullPath mp.fileFs mp.path
  root : w.root mp.fs = mp.filePath
  owned : ∀ f ∈ w.files, f.writeIntent = true → mp.fileFs = f.fs → w.image mp.fs = f.number →
    mp.writable = false
  fresh : mp.stale = true ∨ w.closed mp.fileFs (w.image mp.fs) ≤ mp.fs

/-- A file that is open for writing is at the path it was opened by. -/
def WriterOk (w : World) (f : Opened) : Prop :=
  ∃ sub, w.entry f.fs sub = some ⟨f.number, false⟩ ∧
    sameName f.path (w.fullPath f.fs sub) = true

structure Facts (w : World) : Prop where
  live : Live w.fm
  started : 0 < w.fm.nextFs
  listed : w.fm.openFileList = w.files.map Opened.toOpenFile
  distinct : ∀ fs, Distinct (w.tree fs)
  below : ∀ fs, ∀ e ∈ w.tree fs, e.2.number < w.nextFile
  mounts : ∀ mp ∈ w.fm.mountPoints, MountOk w mp
  writers : ∀ f ∈ w.files, f.writeIntent = true → WriterOk w f
  past : ∀ fs x, w.closed fs x ≤ w.fm.nextFs

structure Inv (w : World) : Prop extends Facts w where
  cache : MountCache.Inv w.fm

theorem sameName_append {a b c d : CString} (h : sameName a b = true) (h' : sameName c d = true) :
    sameName (a ++ c) (b ++ d) = true := by
  rw [sameName_iff] at *
  rw [List.map_append, List.map_append, h, h']

theorem fullPath_congr {a b : List CString} (h : sameNames a b = true) (w : World) (fs : Nat) :
    sameName (w.fullPath fs a) (w.fullPath fs b) = true := by
  refine sameName_append (sameName_refl _) ?_
  induction a generalizing b with
  | nil =>
      cases b with
      | nil => exact sameName_refl _
      | cons => exact nomatch h
  | cons x a ih =>
      cases b with
      | nil => exact nomatch h
      | cons y b =>
          rw [sameNames, Bool.and_eq_true] at h
          rw [List.flatMap_cons, List.flatMap_cons]
          exact sameName_append (sameName_append (a := ['/']) (sameName_refl _) h.1) (ih h.2)

/-- The paths of one file are the same. -/
theorem fullPath_of_entry {a b : List CString} {d : Entry} {d' : Entry} (h : Facts w)
    (ha : w.entry fs a = some d) (hb : w.entry fs b = some d') (hn : d.number = d'.number) :
    sameName (w.fullPath fs a) (w.fullPath fs b) = true :=
  fullPath_congr (sameNames_of_entry (h.distinct fs) ha hb hn) w fs

theorem has_lt (h : Facts w) (hc : MountCache.Inv w.fm) (hfs : w.fm.Has fs) : fs < w.fm.nextFs := by
  rcases hfs with rfl | hfs
  · exact h.started
  · obtain ⟨mp, hm, rfl⟩ := List.mem_map.mp hfs
    exact hc.below mp hm

theorem MountOk.of_bare (h : MountOk w m) (hbare : m.bare = mp.bare)
    (hstale : m.stale = true → mp.stale = true) : MountOk w mp := by
  obtain ⟨hfs, hpath, hfile, hfilePath, hwritable⟩ := bare_injects hbare
  refine ⟨?_, ?_, ?_, ?_, ?_⟩
  · rw [← hfs, ← hpath, ← hfile]
    exact h.entry
  · rw [← hpath, ← hfile, ← hfilePath]
    exact h.filePath
  · rw [← hfs, ← hfilePath]
    exact h.root
  · rw [← hfs, ← hfile, ← hwritable]
    exact h.owned
  · rw [← hfs, ← hfile]
    exact h.fresh.imp hstale id

/-- Marks and releases. -/
theorem Facts.releases (h : Facts w) (hold : Older w.fm) (hr : Releases w.fm fm) :
    Facts { w with fm := fm } where
  live := hr.live h.live hold
  started := hr.shrinks.nextFs ▸ h.started
  listed := hr.shrinks.openFileList.trans h.listed
  distinct := h.distinct
  below := h.below
  mounts mp hm := by
    obtain ⟨m, hmem, hbare, hstale⟩ := hr.mem hm
    have hok := (h.mounts m hmem).of_bare hbare hstale
    exact ⟨hok.entry, hok.filePath, hok.root, hok.owned, hok.fresh⟩
  writers := h.writers
  past fs x := (h.past fs x).trans (Nat.le_of_eq hr.shrinks.nextFs.symm)

theorem Inv.releases (h : Inv w) (hr : Releases w.fm fm) : Inv { w with fm := fm } :=
  { h.toFacts.releases h.cache.older hr with cache := h.cache.of_shrinks hr.shrinks }

/-- What changes neither the mounts nor the files that are open. -/
theorem Inv.change (h : Inv w) (hmounts : fm.mountPoints = w.fm.mountPoints)
    (hseq : fm.mountUseSeq = w.fm.mountUseSeq) (hnext : fm.nextFs = w.fm.nextFs)
    (hfiles : fm.openFileList = w.fm.openFileList)
    (hdirectories : ∀ fs ∈ fm.openDirectoryFs, w.fm.Has fs) : Inv { w with fm := fm } := by
  have hids : w.fm.ids = fm.ids := congrArg (List.map MountPoint.fs) hmounts.symm
  have hhas : ∀ fs, w.fm.Has fs → fm.Has fs := fun fs hfs => has_of_ids hfs hids
  refine ⟨⟨⟨?_, ?_, fun fs hfs => hhas fs (hdirectories fs hfs)⟩, hnext ▸ h.started,
    hfiles.trans h.listed, h.distinct, h.below, ?_, h.writers, hnext ▸ h.past⟩, ?_⟩
  · rw [hmounts]
    exact fun mp hm => hhas _ (h.live.hosts mp hm)
  · rw [hfiles]
    exact fun f hf => hhas _ (h.live.files f hf)
  · rw [hmounts]
    intro mp hm
    have hok := h.mounts mp hm
    exact ⟨hok.entry, hok.filePath, hok.root, hok.owned, hok.fresh⟩
  · refine ⟨hids ▸ h.cache.ids, ?_, ?_, ?_, ?_⟩
    · rw [Older, hmounts]
      exact h.cache.older
    · rw [hmounts, hnext]
      exact h.cache.below
    · rw [hmounts, hseq]
      exact h.cache.used
    · rw [OncePerPath, hmounts]
      exact h.cache.once

theorem has_touch {s : MountCache.FileManager} {f : Nat} (h : s.Has f) (fs : Nat) :
    (s.touch fs).Has f :=
  has_of_ids h (touch_ids s fs).symm

theorem mem_touch {s : MountCache.FileManager} (h : mp ∈ (s.touch fs).mountPoints) :
    ∃ m ∈ s.mountPoints, m.fs = mp.fs ∧ m.path = mp.path ∧ m.fileFs = mp.fileFs ∧
      m.filePath = mp.filePath ∧ m.writable = mp.writable ∧ m.stale = mp.stale := by
  obtain ⟨m, hm, rfl⟩ := List.mem_map.mp h
  refine ⟨m, hm, ?_⟩
  split <;> exact ⟨rfl, rfl, rfl, rfl, rfl, rfl⟩

theorem live_touch {s : MountCache.FileManager} (h : Live s) (fs : Nat) : Live (s.touch fs) where
  hosts mp hm := by
    obtain ⟨m, hmem, -, -, hfile, -⟩ := mem_touch hm
    rw [← hfile]
    exact has_touch (h.hosts m hmem) fs
  files f hf := has_touch (h.files f hf) fs
  directories f hf := has_touch (h.directories f hf) fs

/-- A mount is used. -/
theorem Facts.touch (h : Facts w) (fs : Nat) : Facts { w with fm := w.fm.touch fs } where
  live := live_touch h.live fs
  started := h.started
  listed := h.listed
  distinct := h.distinct
  below := h.below
  mounts mp hm := by
    obtain ⟨m, hmem, hfs, hpath, hfile, hfilePath, hwritable, hstale⟩ := mem_touch hm
    have hok : MountOk w { mp with lastUsed := m.lastUsed } := (h.mounts m hmem).of_bare
      (by rw [MountPoint.bare, MountPoint.bare, hfs, hpath, hfile, hfilePath, hwritable])
      (by rw [hstale]; exact id)
    exact ⟨hok.entry, hok.filePath, hok.root, hok.owned, hok.fresh⟩
  writers := h.writers
  past := h.past

theorem openBelow_touch {s : MountCache.FileManager} {f : Nat} (h : OpenBelow s f) (fs : Nat) :
    OpenBelow (s.touch fs) f := by
  induction h with
  | opened h => exact .opened h
  | @inside child hc _ ih =>
      have hmem : (if child.fs = fs then { child with lastUsed := s.mountUseSeq + 1 } else child) ∈
          (s.touch fs).mountPoints :=
        List.mem_map_of_mem (f := fun mp : MountPoint =>
          if mp.fs = fs then { mp with lastUsed := s.mountUseSeq + 1 } else mp) hc
      have hinside := OpenBelow.inside hmem (by
        split
        · exact ih
        · exact ih)
      split at hinside
      · exact hinside
      · exact hinside

/-! ## An image is mounted -/

theorem made_tree {fs' : Nat} (h : fs' ≠ w.fm.nextFs) : (w.made fs e x).tree fs' = w.tree fs' :=
  Function.update_of_ne h _ _

theorem made_root {fs' : Nat} (h : fs' ≠ w.fm.nextFs) : (w.made fs e x).root fs' = w.root fs' :=
  Function.update_of_ne h _ _

theorem made_entry {fs' : Nat} (h : fs' ≠ w.fm.nextFs) :
    (w.made fs e x).entry fs' sub = w.entry fs' sub := by
  rw [World.entry, World.entry, made_tree h]

theorem made_fullPath {fs' : Nat} (h : fs' ≠ w.fm.nextFs) :
    (w.made fs e x).fullPath fs' sub = w.fullPath fs' sub := by
  rw [World.fullPath, World.fullPath, made_root h]

theorem MountOk.made (h : MountOk w mp) (hfs : mp.fs ≠ w.fm.nextFs)
    (hfile : mp.fileFs ≠ w.fm.nextFs) : MountOk (w.made fs e x) mp := by
  have himage : (w.made fs e x).image mp.fs = w.image mp.fs := Function.update_of_ne hfs _ _
  refine ⟨?_, ?_, ?_, ?_, ?_⟩
  · rw [made_entry hfile, himage]
    exact h.entry
  · rw [made_fullPath hfile]
    exact h.filePath
  · rw [made_root hfs]
    exact h.root
  · rw [himage]
    exact h.owned
  · rw [himage]
    exact h.fresh

/-- The new mount can be written only if the image is not open for writing. -/
theorem Facts.newMount (h : Facts w) (hc : MountCache.Inv w.fm) (hhas : w.fm.Has fs)
    (hentry : w.entry fs e.path = some ⟨x, false⟩) :
    MountOk (w.made fs e x) (newMount w.fm (w.lookup fs e)) := by
  have hne : fs ≠ w.fm.nextFs := Nat.ne_of_lt (has_lt h hc hhas)
  have himage : (w.made fs e x).image w.fm.nextFs = x := Function.update_self ..
  refine ⟨?_, ?_, ?_, ?_, Or.inr ?_⟩
  · refine (made_entry hne).trans (hentry.trans ?_)
    exact congrArg (fun i => some (Entry.mk i false)) himage.symm
  · exact (made_fullPath hne).symm
  · exact Function.update_self ..
  · intro f hf hwrite hfs hnumber
    obtain ⟨sub, hsub, hpath⟩ := h.writers f hf hwrite
    have hfile : f.fs = fs := hfs.symm
    rw [hfile] at hsub hpath
    -- The file is at the path of the lookup, so the search among the open files finds it.
    have hsame := fullPath_of_entry h hsub hentry (hnumber.symm.trans himage)
    have hany : (w.fm.openFileList.any fun f =>
        f.writeIntent && sameName f.path (w.fullPath fs e.path)) = true := by
      rw [h.listed, List.any_map, List.any_eq_true]
      refine ⟨f, hf, ?_⟩
      rw [Function.comp, Bool.and_eq_true]
      exact ⟨hwrite, sameName_trans hpath hsame⟩
    show (e.writable && !_) = false
    rw [Bool.and_eq_false_iff]
    exact Or.inr (by rw [Bool.not_eq_false']; exact hany)
  · exact h.past _ _

theorem Facts.made (h : Facts w) (hc : MountCache.Inv w.fm) (hhas : w.fm.Has fs)
    (hentry : w.entry fs e.path = some ⟨x, false⟩) :
    Facts { w.made fs e x with fm := added w.fm (w.lookup fs e) } := by
  have hmounts := added_mountPoints hc (w.lookup fs e)
  have hids : (added w.fm (w.lookup fs e)).ids = w.fm.ids ++ [w.fm.nextFs] := by
    rw [FileManager.ids, hmounts, List.map_append]
    rfl
  have hmore : ∀ f, w.fm.Has f → (added w.fm (w.lookup fs e)).Has f := by
    intro f hf
    refine hf.imp id fun hin => ?_
    rw [hids]
    exact List.mem_append_left _ hin
  have hlt : ∀ f, w.fm.Has f → f ≠ w.fm.nextFs := fun f hf => Nat.ne_of_lt (has_lt h hc hf)
  refine ⟨⟨?_, fun f hf => hmore _ (h.live.files f hf), fun f hf => hmore _ (h.live.directories f hf)⟩,
    Nat.succ_pos _, h.listed, ?_, ?_, ?_, ?_, fun f y => Nat.le_succ_of_le (h.past f y)⟩
  · intro mp hm
    rw [hmounts, List.mem_append, List.mem_singleton] at hm
    rcases hm with hm | rfl
    · exact hmore _ (h.live.hosts mp hm)
    · exact hmore _ hhas
  · intro f
    by_cases hf : f = w.fm.nextFs
    · rw [hf]
      show Distinct (Function.update w.tree w.fm.nextFs _ w.fm.nextFs)
      rw [Function.update_self]
      exact numbered_distinct _ _
    · show Distinct ((w.made fs e x).tree f)
      rw [made_tree hf]
      exact h.distinct f
  · intro f d hd
    by_cases hf : f = w.fm.nextFs
    · rw [hf] at hd
      replace hd : d ∈ Function.update w.tree w.fm.nextFs
        (numbered w.nextFile e.contents) w.fm.nextFs := hd
      rw [Function.update_self] at hd
      exact number_lt hd
    · replace hd : d ∈ (w.made fs e x).tree f := hd
      rw [made_tree hf] at hd
      exact Nat.lt_of_lt_of_le (h.below f d hd) (Nat.le_add_right _ _)
  · intro mp hm
    have hok : MountOk (w.made fs e x) mp := by
      rw [hmounts, List.mem_append, List.mem_singleton] at hm
      rcases hm with hm | rfl
      · exact (h.mounts mp hm).made (Nat.ne_of_lt (hc.below mp hm)) (hlt _ (h.live.hosts mp hm))
      · exact h.newMount hc hhas hentry
    exact ⟨hok.entry, hok.filePath, hok.root, hok.owned, hok.fresh⟩
  · intro f hf hwrite
    obtain ⟨sub, hsub, hpath⟩ := h.writers f hf hwrite
    have hin : f.toOpenFile ∈ w.fm.openFileList := by
      rw [h.listed]
      exact List.mem_map_of_mem hf
    have hne := hlt _ (h.live.files _ hin)
    refine ⟨sub, (@made_entry w fs x e sub f.fs hne).trans hsub, ?_⟩
    show sameName f.path ((w.made fs e x).fullPath f.fs sub) = true
    rw [made_fullPath hne]
    exact hpath

/-! ## A lookup -/

/-- At most seven mounts are pinned, the counter of uses does not wrap, and the path of the
    image matches the mount of its own path only. -/
structure LookupOk (s : MountCache.FileManager) (l : FileManager.Lookup) : Prop where
  few : Few s l.fs
  room : Room s
  path : ∀ mp ∈ s.mountPoints, mp.isMatch l.fs l.path = true → sameNames mp.path l.path = true

/-- What lookups leave as it is.  The images that they mount lie in file systems before
    the last one. -/
structure Walked (w w' : World) (last : Nat) : Prop where
  files : w'.files = w.files
  tree : ∀ fs < w.fm.nextFs, w'.tree fs = w.tree fs
  root : ∀ fs < w.fm.nextFs, w'.root fs = w.root fs
  next : w.fm.nextFs ≤ w'.fm.nextFs
  mounts : ∀ mp ∈ w'.fm.mountPoints, mp.fileFs < last ∨
    ∃ m ∈ w.fm.mountPoints, m.fileFs = mp.fileFs ∧ m.path = mp.path

theorem Walked.refl (w : World) (last : Nat) : Walked w w last :=
  ⟨rfl, fun _ _ => rfl, fun _ _ => rfl, Nat.le_refl _, fun mp hm => Or.inr ⟨mp, hm, rfl, rfl⟩⟩

theorem Walked.trans {u : World} {a b : Nat} (h : Walked w u a) (h' : Walked u w' b)
    (hab : a ≤ b) : Walked w w' b := by
  refine ⟨h'.files.trans h.files, ?_, ?_, h.next.trans h'.next, fun mp hm => ?_⟩
  · intro fs hfs
    rw [h'.tree fs (Nat.lt_of_lt_of_le hfs h.next), h.tree fs hfs]
  · intro fs hfs
    rw [h'.root fs (Nat.lt_of_lt_of_le hfs h.next), h.root fs hfs]
  · rcases h'.mounts mp hm with hlt | ⟨m, hmem, hfile, hpath⟩
    · exact Or.inl hlt
    · rcases h.mounts m hmem with hlt | ⟨m₀, hm₀, hfile₀, hpath₀⟩
      · exact Or.inl (hfile ▸ Nat.lt_of_lt_of_le hlt hab)
      · exact Or.inr ⟨m₀, hm₀, hfile₀.trans hfile, hpath₀.trans hpath⟩

/-- What a lookup of an image finds. -/
structure Found (w w' : World) (fs x r : Nat) : Prop where
  has : w'.fm.Has r
  lt : fs < r
  walked : Walked w w' r
  refreshed : w.closed fs x ≤ r ∨ OpenBelow w'.fm r

theorem Inv.enter {r : Option Nat} (h : Inv w) (hhas : w.fm.Has fs)
    (hentry : w.entry fs e.path = some ⟨x, false⟩) (hok : LookupOk w.fm (w.lookup fs e))
    (hrun : w.enter cfg fs e x = some (r, w')) :
    Inv w' ∧ ∀ i, r = some i → Found w w' fs x i := by
  obtain ⟨⟨r, t⟩, hfind, heq⟩ := Option.map_eq_some_iff.mp hrun
  rw [Prod.mk.injEq] at heq
  obtain ⟨rfl, rfl⟩ := heq
  have hlt := has_lt h.toFacts h.cache hhas
  obtain ⟨hcache, hin⟩ := findMountPoint_kept h.cache hlt hok.few hok.room hok.path hfind
  have hlooks := findMountPoint_looks h.cache.ids h.cache.older hfind
  dsimp only
  cases hlooks with
  | @cached u mp hm hmatch hr hstale =>
      have hfile : mp.fileFs = fs := by
        rw [MountPoint.isMatch, Bool.and_eq_true, beq_iff_eq] at hmatch
        exact hmatch.1
      have hne : ¬ some mp.fs = some w.fm.nextFs := by
        rw [Option.some.injEq]
        exact Nat.ne_of_lt (h.cache.below mp hm)
      rw [if_neg hne]
      have hfacts := (h.toFacts.releases h.cache.older hr).touch mp.fs
      refine ⟨{ hfacts with cache := hcache }, ?_⟩
      rintro i ⟨⟩
      refine ⟨Or.inr (hin _ rfl), hfile ▸ h.cache.older mp hm, ⟨rfl, fun _ _ => rfl, fun _ _ => rfl,
        Nat.le_of_eq hr.shrinks.nextFs.symm, fun m hm => Or.inr ?_⟩, ?_⟩
      · obtain ⟨m₁, hm₁, -, hpath₁, hfile₁, -⟩ := mem_touch hm
        obtain ⟨m₀, hm₀, hbare, -⟩ := hr.mem hm₁
        obtain ⟨-, hpath₀, hfile₀, -⟩ := bare_injects hbare
        exact ⟨m₀, hm₀, hfile₀.trans hfile₁, hpath₀.trans hpath₁⟩
      · -- The mount is one of this image.
        have hmount := h.mounts mp hm
        have himage : w.image mp.fs = x := by
          have hsame := hmount.entry
          rw [hfile, World.entry, entry_congr (hok.path mp hm hmatch)] at hsame
          have heq := hsame.symm.trans hentry
          rw [Option.some.injEq, Entry.mk.injEq] at heq
          exact heq.1
        rcases hmount.fresh with hmark | hle
        · exact Or.inr (openBelow_touch (hstale hmark) _)
        · rw [hfile, himage] at hle
          exact Or.inl hle
  | @made u t hr hhost ht =>
      rw [if_pos rfl]
      have hu := h.releases hr
      have hnext : u.nextFs = w.fm.nextFs := hr.shrinks.nextFs
      have hmade := Facts.made (w := { w with fm := u }) (e := e) hu.toFacts hu.cache (hhost hhas)
        hentry
      have hold : Older (added u (w.lookup fs e)) := by
        intro mp hm
        rw [added_mountPoints hu.cache, List.mem_append, List.mem_singleton] at hm
        rcases hm with hm | rfl
        · exact hu.cache.older mp hm
        · show fs < u.nextFs
          exact hnext.symm ▸ hlt
      have hfacts := hmade.releases hold ht
      have hsame : (w.made fs e x).tree = (World.made { w with fm := u } fs e x).tree ∧
          (w.made fs e x).root = (World.made { w with fm := u } fs e x).root ∧
          (w.made fs e x).image = (World.made { w with fm := u } fs e x).image := by
        rw [World.made, World.made, hnext]
        exact ⟨rfl, rfl, rfl⟩
      have hworld : { w.made fs e x with fm := t } =
          { World.made { w with fm := u } fs e x with fm := t } := by
        rw [World.mk.injEq]
        exact ⟨rfl, rfl, hsame.1, hsame.2.1, hsame.2.2, rfl, rfl⟩
      refine ⟨hworld ▸ { hfacts with cache := hcache }, ?_⟩
      rintro i ⟨⟩
      refine ⟨Or.inr (hin _ rfl), hlt, ⟨rfl, fun f hf => @made_tree w fs x e f (Nat.ne_of_lt hf),
        fun f hf => @made_root w fs x e f (Nat.ne_of_lt hf), ?_, fun m hm => ?_⟩, Or.inl (h.past fs x)⟩
      · have hle : t.nextFs = u.nextFs + 1 := ht.shrinks.nextFs
        show w.fm.nextFs ≤ t.nextFs
        omega
      · obtain ⟨m₁, hm₁, hbare, -⟩ := ht.mem hm
        obtain ⟨-, hpath₁, hfile₁, -⟩ := bare_injects hbare
        rw [added_mountPoints hu.cache, List.mem_append, List.mem_singleton] at hm₁
        rcases hm₁ with hm₁ | rfl
        · obtain ⟨m₀, hm₀, hbare₀, -⟩ := hr.mem hm₁
          obtain ⟨-, hpath₀, hfile₀, -⟩ := bare_injects hbare₀
          exact Or.inr ⟨m₀, hm₀, hfile₀.trans hfile₁, hpath₀.trans hpath₁⟩
        · exact Or.inl (hfile₁ ▸ hlt)
  | failed hr =>
      rw [if_neg (fun h => by cases h)]
      exact ⟨h.releases hr, fun _ h => by cases h⟩

/-- All lookups on a path are `LookupOk`. -/
def LookupsOk (cfg : Config) : World → List Enter → Nat → Prop
  | _, [], _ => True
  | w, e :: images, fs => ∀ x, w.entry fs e.path = some ⟨x, false⟩ →
      LookupOk w.fm (w.lookup fs e) ∧
      ∀ r w', w.enter cfg fs e x = some (some r, w') → LookupsOk cfg w' images r

/-- A path leads to a file system there is, and mounts only what is before it. -/
theorem Inv.findPathentry {openMount : Bool} {images : List Enter} {last : Nat} {found : FRESULT}
    (h : Inv w) (hhas : w.fm.Has fs) (hok : LookupsOk cfg w images fs)
    (hrun : w.findPathentry cfg openMount images sub fs = some (last, found, w')) :
    Inv w' ∧ (found = .ok ∨ found = .noFile → w'.fm.Has last ∧ fs ≤ last ∧ Walked w w' last) ∧
      (openMount = false → found = .noFile → sub ≠ []) := by
  induction images generalizing w fs with
  | nil =>
      rw [World.findPathentry] at hrun
      split at hrun
      · cases hrun
        exact ⟨h, fun _ => ⟨hhas, Nat.le_refl _, .refl _ _⟩, nofun⟩
      next hnot =>
        cases hrun
        refine ⟨h, fun _ => ⟨hhas, Nat.le_refl _, .refl _ _⟩, fun _ _ hempty => hnot (Or.inl ?_)⟩
        rw [hempty]
        rfl
  | cons e images ih =>
      have hstop : ∀ w', w.findPathentry cfg openMount (e :: images) sub fs =
          some (fs, if openMount && images.isEmpty && sub.isEmpty then w.missing fs e.path
            else .noPath, w) →
          w.findPathentry cfg openMount (e :: images) sub fs = some (last, found, w') →
          Inv w' ∧ (found = .ok ∨ found = .noFile → w'.fm.Has last ∧ fs ≤ last ∧ Walked w w' last) ∧
            (openMount = false → found = .noFile → sub ≠ []) := by
        intro w' hthis hrun
        cases hthis.symm.trans hrun
        refine ⟨h, fun _ => ⟨hhas, Nat.le_refl _, .refl _ _⟩, fun hmount hfound => ?_⟩
        rw [hmount] at hfound
        exact nomatch hfound
      cases hentry : w.entry fs e.path with
      | none =>
          refine hstop w' ?_ hrun
          rw [World.findPathentry, hentry]
      | some d =>
          obtain ⟨x, isDir⟩ := d
          cases isDir with
          | true =>
              refine hstop w' ?_ hrun
              rw [World.findPathentry, hentry]
          | false =>
              rw [World.findPathentry, hentry] at hrun
              obtain ⟨hlookup, hrest⟩ := hok x hentry
              dsimp only at hrun
              cases henter : w.enter cfg fs e x with
              | none =>
                  rw [henter] at hrun
                  exact nomatch hrun
              | some r =>
                  obtain ⟨r, u⟩ := r
                  obtain ⟨hu, hfound⟩ := h.enter hhas hentry hlookup henter
                  rw [henter] at hrun
                  cases r with
                  | none =>
                      cases hrun
                      exact ⟨hu, fun hf => hf.elim nofun nofun, fun _ => nofun⟩
                  | some i =>
                      have hi := hfound i rfl
                      obtain ⟨hinv, hgood, hne⟩ := ih hu hi.has (hrest i u henter) hrun
                      refine ⟨hinv, fun hf => ?_, hne⟩
                      obtain ⟨hlast, hle, hwalked⟩ := hgood hf
                      exact ⟨hlast, (Nat.le_of_lt hi.lt).trans hle, hi.walked.trans hwalked hle⟩

/-! ## Discarding the mounts of a file -/

theorem World.discard_eq {path : CString} (h : w.discard cfg n path = some w') :
    w' = { w with fm := w'.fm } ∧ w.fm.discardMountsOfFile cfg n path 0 = some w'.fm := by
  obtain ⟨fm, hfm, rfl⟩ := Option.map_eq_some_iff.mp h
  exact ⟨rfl, hfm⟩

/-- The mounts that are left of a path are marked and cannot be evicted. -/
theorem Inv.discard {path : CString} (h : Inv w) (hrun : w.discard cfg n path = some w') :
    Inv w' ∧ ∀ mp ∈ w'.fm.mountPoints, sameName mp.filePath path = true →
      mp.stale = true ∧ ¬ w'.fm.isMountEvictable mp = true := by
  obtain ⟨hw', hdiscard⟩ := discard_eq hrun
  obtain ⟨hr, hleft⟩ := discardMountsOfFile_settles h.cache.ids h.cache.older hdiscard
    (passed_zero _ _)
  have hinv : Inv w' := by
    rw [hw']
    exact h.releases hr
  refine ⟨hinv, fun mp hm hpath => ?_⟩
  have hl := hleft mp hm hpath
  exact ⟨hl.stale mp hm rfl, hl.held hinv.cache.older⟩

theorem length_fullPath (hsub : sub ≠ []) (w : World) (fs : Nat) :
    (w.root fs).length < (w.fullPath fs sub).length := by
  rw [World.fullPath, List.length_append]
  cases sub with
  | nil => exact absurd rfl hsub
  | cons a sub =>
      rw [List.flatMap_cons, List.length_append, List.length_cons]
      omega

/-- The file system that a file lies in is not discarded with the mounts of the file. -/
theorem Inv.discard_has (h : Inv w) (hhas : w.fm.Has fs) (hsub : sub ≠ [])
    (hrun : w.discard cfg n (w.fullPath fs sub) = some w') : w'.fm.Has fs := by
  obtain ⟨-, hdiscard⟩ := discard_eq hrun
  refine hhas.imp id fun hin => ?_
  refine discardMountsOfFile_keeps (fun f => (w.root f).length) h.cache.older (fun mp hm => ?_)
    hdiscard hin fun mp hm hpath => ?_
  · -- The path of an image is longer than that of what it lies in.
    have hok := h.mounts mp hm
    obtain ⟨-, -, -, hne⟩ := mem_of_entry hok.entry
    rw [hok.root, hok.filePath]
    exact length_fullPath hne w mp.fileFs
  · have hlen := congrArg List.length (sameName_iff.mp hpath)
    rw [List.length_map, List.length_map] at hlen
    rw [(h.mounts mp hm).root, hlen]
    exact length_fullPath hsub w fs

/-- A mount of a file has its path. -/
theorem Inv.filePath_of_entry (h : Inv w) {d : Entry} (hm : mp ∈ w.fm.mountPoints)
    (hfs : mp.fileFs = fs) (hentry : w.entry fs sub = some d) (hn : w.image mp.fs = d.number) :
    sameName mp.filePath (w.fullPath fs sub) = true := by
  have hok := h.mounts mp hm
  have hsame := hok.entry
  rw [hfs] at hsame
  rw [hok.filePath, hfs]
  exact fullPath_of_entry h.toFacts hsame hentry hn

/-- Nothing that `in_use_for_writing` does not find is mounted or open for writing. -/
structure Unused (w : World) (fs : Nat) (sub : List CString) : Prop where
  mounts : ∀ mp ∈ w.fm.mountPoints, mp.fileFs = fs → ¬ sameNames mp.path sub = true
  files : ∀ f ∈ w.files, f.writeIntent = true → f.fs = fs →
    ∀ q, w.entry fs q = some ⟨f.number, false⟩ → ¬ sameNames q sub = true

theorem Inv.inUseForWriting {used : Bool} (h : Inv w)
    (hrun : w.inUseForWriting cfg n (w.fullPath fs sub) = some (used, w')) :
    Inv w' ∧ (used = false → Unused w' fs sub) ∧ w'.fm.nextFs = w.fm.nextFs := by
  obtain ⟨u, hu, heq⟩ := Option.map_eq_some_iff.mp hrun
  rw [Prod.mk.injEq] at heq
  obtain ⟨rfl, rfl⟩ := heq
  obtain ⟨hinv, -⟩ := h.discard hu
  obtain ⟨hw', hdiscard⟩ := discard_eq hu
  have hpath : ∀ q, u.fullPath fs q = w.fullPath fs q := by
    rw [hw']
    exact fun _ => rfl
  refine ⟨hinv, fun hused => ?_, (discardMountsOfFile_shrinks h.cache.older hdiscard).nextFs⟩
  rw [Bool.or_eq_false_iff] at hused
  constructor
  · intro mp hm hfs hsame
    refine Bool.eq_false_iff.mp hused.1 (List.any_eq_true.mpr ⟨mp, hm, ?_⟩)
    rw [(hinv.mounts mp hm).filePath, hfs, ← hpath]
    exact fullPath_congr hsame u fs
  · intro f hf hwrite hfs q hq hsame
    obtain ⟨sub', hsub', hname⟩ := hinv.writers f hf hwrite
    rw [hfs] at hsub' hname
    refine Bool.eq_false_iff.mp hused.2 (List.any_eq_true.mpr ⟨f.toOpenFile, ?_, ?_⟩)
    · rw [hinv.listed]
      exact List.mem_map_of_mem hf
    · rw [Bool.and_eq_true, ← hpath]
      refine ⟨hwrite, sameName_trans hname (sameName_trans ?_ (fullPath_congr hsame u fs))⟩
      exact fullPath_of_entry hinv.toFacts hsub' hq rfl

/-! ## Opening and closing -/

theorem Inv.addFile (h : Inv w) (hhas : w.fm.Has f.fs)
    (hwrite : f.writeIntent = true → WriterOk w f ∧
      ∀ mp ∈ w.fm.mountPoints, mp.fileFs = f.fs → w.image mp.fs = f.number →
        mp.writable = false) : Inv (w.addFile cfg f) := by
  have hcases : ∀ g ∈ w.files ++ [f], g ∈ w.files ∨ g = f := by
    intro g hg
    rw [List.mem_append, List.mem_singleton] at hg
    exact hg
  refine ⟨⟨⟨h.live.hosts, ?_, h.live.directories⟩, h.started, ?_, h.distinct, h.below, ?_, ?_,
    h.past⟩, ⟨h.cache.ids, h.cache.older, h.cache.below, h.cache.used, h.cache.once⟩⟩
  · intro g hg
    rcases List.mem_append.mp hg with hg | hg
    · exact h.live.files g hg
    · rw [List.mem_singleton.mp hg]
      exact hhas
  · show w.fm.openFileList ++ [f.toOpenFile] = (w.files ++ [f]).map Opened.toOpenFile
    rw [h.listed, List.map_append]
    rfl
  · intro mp hm
    have hok := h.mounts mp hm
    refine ⟨hok.entry, hok.filePath, hok.root, fun g hg hw hfs hn => ?_, hok.fresh⟩
    rcases hcases g hg with hg | rfl
    · exact hok.owned g hg hw hfs hn
    · exact (hwrite hw).2 mp hm hfs hn
  · intro g hg hw
    rcases hcases g hg with hg | rfl
    · exact h.writers g hg hw
    · exact (hwrite hw).1

theorem entry_addEntry {q : List CString} {d : Entry} {fs' : Nat} (dst : List CString)
    (hq : w.entry fs' q = some d) :
    (w.addEntry fs dst).entry fs' q = some d := by
  rw [World.entry, World.addEntry]
  by_cases hfs : fs' = fs
  · rw [hfs] at hq
    dsimp only
    rw [hfs, Function.update_self]
    exact entry_append hq dst _
  · dsimp only
    rw [Function.update_of_ne hfs]
    exact hq

theorem Inv.addEntry (h : Inv w) (fs : Nat) (dst : List CString) : Inv (w.addEntry fs dst) := by
  have hold : ∀ {fs' q d}, w.entry fs' q = some d → (w.addEntry fs dst).entry fs' q = some d :=
    fun hq => entry_addEntry dst hq
  have htree : ∀ f, ∀ d ∈ (w.addEntry fs dst).tree f, d ∈ w.tree f ∨ d.2.number = w.nextFile := by
    intro f d hd
    rw [World.addEntry] at hd
    by_cases hf : f = fs
    · rw [hf] at hd ⊢
      dsimp only at hd
      rw [Function.update_self, List.mem_append, List.mem_singleton] at hd
      rcases hd with hd | rfl
      · exact Or.inl hd
      · exact Or.inr rfl
    · dsimp only at hd
      rw [Function.update_of_ne hf] at hd
      exact Or.inl hd
  refine ⟨⟨h.live, h.started, h.listed, ?_, ?_, ?_, ?_, h.past⟩, h.cache⟩
  · intro f
    rw [World.addEntry]
    by_cases hf : f = fs
    · rw [hf]
      dsimp only
      rw [Function.update_self, Distinct, List.map_append]
      refine List.nodup_append.mpr ⟨h.distinct fs, List.nodup_singleton _, ?_⟩
      intro a ha b hb
      obtain ⟨d, hd, rfl⟩ := List.mem_map.mp ha
      rw [List.mem_singleton.mp hb]
      exact Nat.ne_of_lt (h.below fs d hd)
    · dsimp only
      rw [Function.update_of_ne hf]
      exact h.distinct f
  · intro f d hd
    rcases htree f d hd with hd | hd
    · exact Nat.lt_succ_of_lt (h.below f d hd)
    · rw [hd]
      exact Nat.lt_succ_self _
  · intro mp hm
    have hok := h.mounts mp hm
    exact ⟨hold hok.entry, hok.filePath, hok.root, hok.owned, hok.fresh⟩
  · intro f hf hwrite
    obtain ⟨sub, hsub, hpath⟩ := h.writers f hf hwrite
    exact ⟨sub, hold hsub, hpath⟩

/-- The name that a file is opened by is the one it is stored under. -/
def StoredOk (o : Opening) : Prop :=
  o.flags.write = true → sameNames (o.sub.dropLast ++ [o.stored]) o.sub = true

theorem Inv.fileOpen {found : FRESULT} {o : Opening} (h : Inv w) (hstored : StoredOk o)
    (hhas : found = .ok → o.sub ≠ [] → w.fm.Has fs) (hnew : found ≠ .ok → w.fm.Has fs)
    (hfree : o.flags.write = true → ∀ mp ∈ w.fm.mountPoints,
      ¬ sameName mp.filePath (w.fullPath fs o.sub) = true) :
    Inv (w.fileOpen cfg fs found o).2 := by
  rw [World.fileOpen]
  split
  · exact h
  split
  next hfound =>
    split
    next x hentry =>
      obtain ⟨-, -, -, hne⟩ := mem_of_entry hentry
      refine h.addFile (hhas hfound hne) fun hwrite =>
        ⟨⟨o.sub, hentry, sameName_refl _⟩, fun mp hm hfs hn => ?_⟩
      exact absurd (h.filePath_of_entry hm hfs hentry hn) (hfree hwrite mp hm)
    next => exact h
  next hfound =>
    dsimp only
    split
    · exact h
    next hnone =>
      have hentry : w.entry fs (o.sub.dropLast ++ [o.stored]) = none := by
        rw [Option.not_isSome_iff_eq_none] at hnone
        exact hnone
      have hne : o.sub.dropLast ++ [o.stored] ≠ [] := by simp
      refine (h.addEntry fs _).addFile (hnew hfound) fun hwrite =>
        ⟨⟨o.sub.dropLast ++ [o.stored], ?_, ?_⟩, fun mp hm hfs hn => ?_⟩
      · rw [World.entry, World.addEntry]
        dsimp only
        rw [Function.update_self]
        exact entry_append_self hentry hne _
      · exact sameName_symm (fullPath_congr (hstored hwrite) w fs)
      · -- No image has the number of the new file.
        obtain ⟨p, hp, -⟩ := mem_of_entry (h.mounts mp hm).entry
        have hlt := h.below _ _ hp
        exact absurd hn (Nat.ne_of_lt hlt)

theorem Inv.fopen {o : Opening} {r : FRESULT × World} (h : Inv w)
    (hok : LookupsOk cfg w o.images 0) (hstored : StoredOk o) (hrun : w.fopen cfg o = some r) :
    Inv r.2 := by
  rw [World.fopen] at hrun
  cases hpath : w.findPathentry cfg false o.images o.sub 0 with
  | none =>
      rw [hpath] at hrun
      exact nomatch hrun
  | some v =>
      obtain ⟨fs, found, u⟩ := v
      rw [hpath] at hrun
      dsimp only at hrun
      obtain ⟨hu, hgood, hne⟩ := h.findPathentry (Or.inl rfl) hok hpath
      split at hrun
      · cases hrun
        exact hu
      split at hrun
      · cases hrun
        exact hu
      next hcreate =>
        have hfound : found = .ok ∨ found = .noFile := by
          by_cases hf : found = .ok
          · exact Or.inl hf
          · exact Or.inr (Classical.byContradiction fun hno => hcreate ⟨hf, fun hc => hno hc.1⟩)
        have hhas := (hgood hfound).1
        split at hrun
        next hwrites =>
          cases hdiscard : u.discard cfg o.calls (u.fullPath fs o.sub) with
          | none =>
              rw [hdiscard] at hrun
              exact nomatch hrun
          | some v =>
              rw [hdiscard] at hrun
              dsimp only at hrun
              obtain ⟨hv, hleft⟩ := hu.discard hdiscard
              have hroot : v.root = u.root := by
                rw [(discard_eq hdiscard).1]
              split at hrun
              · cases hrun
                exact hv
              next hnone =>
                cases hrun
                have hkept : o.sub ≠ [] → v.fm.Has fs := fun hsub => hu.discard_has hhas hsub hdiscard
                refine hv.fileOpen hstored (fun _ => hkept) (fun hno => ?_) fun _ mp hm hsame => ?_
                · exact hkept (hne rfl (hfound.resolve_left hno))
                · -- A mount that is left would have been found, and the file locked.
                  refine hnone (List.any_eq_true.mpr ⟨mp, hm, ?_⟩)
                  have hpath : u.fullPath fs o.sub = v.fullPath fs o.sub := by
                    rw [World.fullPath, World.fullPath, hroot]
                  rw [← hpath] at hsame
                  rw [← hpath, Bool.and_eq_true, Bool.not_eq_true', Bool.eq_false_iff]
                  exact ⟨hsame, (hleft mp hm hsame).2⟩
        next hreads =>
          cases hrun
          refine hu.fileOpen hstored (fun _ _ => hhas) (fun _ => hhas) fun hwrite => ?_
          rw [hwrite] at hreads
          exact absurd rfl hreads

theorem Inv.eraseFile (h : Inv w) (i : Nat) :
    Inv { w with
      fm := { w.fm with openFileList := (w.files.eraseIdx i).map Opened.toOpenFile }
      files := w.files.eraseIdx i } := by
  refine ⟨⟨⟨h.live.hosts, fun f hf => ?_, h.live.directories⟩, h.started, rfl, h.distinct, h.below,
    fun mp hm => ?_, fun f hf => h.writers f (List.mem_of_mem_eraseIdx hf), h.past⟩,
    ⟨h.cache.ids, h.cache.older, h.cache.below, h.cache.used, h.cache.once⟩⟩
  · obtain ⟨g, hg, rfl⟩ := List.mem_map.mp hf
    refine h.live.files _ ?_
    rw [h.listed]
    exact List.mem_map_of_mem (List.mem_of_mem_eraseIdx hg)
  · have hok := h.mounts mp hm
    exact ⟨hok.entry, hok.filePath, hok.root,
      fun f hf => hok.owned f (List.mem_of_mem_eraseIdx hf), hok.fresh⟩

/-- A file that was open for writing is closed: the mounts of it are marked. -/
theorem Inv.close (h : Inv w) (f : Opened)
    (hstale : ∀ mp ∈ w.fm.mountPoints, mp.fileFs = f.fs → w.image mp.fs = f.number →
      mp.stale = true) :
    Inv { w with
      closed := Function.update w.closed f.fs
        (Function.update (w.closed f.fs) f.number w.fm.nextFs) } where
  live := h.live
  started := h.started
  listed := h.listed
  distinct := h.distinct
  below := h.below
  mounts mp hm := by
    have hok := h.mounts mp hm
    refine ⟨hok.entry, hok.filePath, hok.root, hok.owned, ?_⟩
    by_cases hfs : mp.fileFs = f.fs
    · by_cases hn : w.image mp.fs = f.number
      · exact Or.inl (hstale mp hm hfs hn)
      · refine hok.fresh.imp id fun hle => ?_
        dsimp only
        rw [hfs] at hle ⊢
        rw [Function.update_self, Function.update_of_ne hn]
        exact hle
    · refine hok.fresh.imp id fun hle => ?_
      dsimp only
      rw [Function.update_of_ne hfs]
      exact hle
  writers := h.writers
  cache := h.cache
  past fs x := by
    dsimp only
    by_cases hfs : fs = f.fs
    · rw [hfs, Function.update_self]
      by_cases hn : x = f.number
      · rw [hn, Function.update_self]
      · rw [Function.update_of_ne hn]
        exact h.past _ _
    · rw [Function.update_of_ne hfs]
      exact h.past _ _

theorem Inv.fclose {i : Nat} (h : Inv w) (hrun : w.fclose cfg i n = some w') : Inv w' := by
  rw [World.fclose] at hrun
  cases hf : w.files[i]? with
  | none =>
      rw [hf] at hrun
      cases hrun
      exact h
  | some f =>
      rw [hf] at hrun
      dsimp only at hrun
      have hmem : f ∈ w.files := List.mem_of_getElem? hf
      have hnoted : Inv { w with fm := { w.fm with
          managedTempEntries := (noteManagedTempClose cfg w.fm.managedTempEntries f.path).1 } } :=
        h.releases (.entries _ (.refl _))
      by_cases hwrite : f.writeIntent = true
      · split at hrun
        · exact nomatch hrun
        next u hu =>
          rw [if_pos hwrite] at hu
          cases hrun
          obtain ⟨hinv, hleft⟩ := hnoted.discard hu
          obtain ⟨hw, -⟩ := discard_eq hu
          have hfiles : u.files = w.files := by rw [hw]
          obtain ⟨sub, hsub, hpath⟩ := hinv.writers f (hfiles ▸ hmem) hwrite
          have hmarked : ∀ mp ∈ u.fm.mountPoints, mp.fileFs = f.fs → u.image mp.fs = f.number →
              mp.stale = true := by
            intro mp hm hfs hn
            have hsame := hinv.filePath_of_entry hm hfs hsub hn
            exact (hleft mp hm (sameName_trans hsame (sameName_symm hpath))).1
          rw [if_pos hwrite]
          exact (hinv.close f hmarked).eraseFile i
      · split at hrun
        · exact nomatch hrun
        next u hu =>
          rw [if_neg hwrite] at hu
          cases hu
          cases hrun
          rw [if_neg hwrite]
          exact hnoted.eraseFile i

theorem Inv.openDirectory {images : List Enter} {answer : FRESULT} {r : FRESULT × World} (h : Inv w)
    (hok : LookupsOk cfg w images 0) (hrun : w.openDirectory cfg images sub answer = some r) :
    Inv r.2 := by
  rw [World.openDirectory] at hrun
  cases hpath : w.findPathentry cfg true images sub 0 with
  | none =>
      rw [hpath] at hrun
      exact nomatch hrun
  | some v =>
      obtain ⟨fs, found, u⟩ := v
      rw [hpath] at hrun
      dsimp only at hrun
      obtain ⟨hu, hgood, -⟩ := h.findPathentry (Or.inl rfl) hok hpath
      split at hrun
      · cases hrun
        exact hu
      next hfound =>
        split at hrun
        · cases hrun
          exact hu
        split at hrun
        · cases hrun
          exact hu
        · cases hrun
          have hhas := (hgood (Or.inl (Classical.not_not.mp hfound))).1
          refine hu.change rfl rfl rfl rfl fun f hf => ?_
          rcases List.mem_append.mp hf with hf | hf
          · exact hu.live.directories f hf
          · rw [List.mem_singleton.mp hf]
            exact hhas

theorem Inv.closeDirectory (h : Inv w) (fs : Nat) : Inv (w.closeDirectory fs) :=
  h.change rfl rfl rfl rfl fun f hf => h.live.directories f (List.mem_of_mem_erase hf)

/-! ## Deleting and renaming -/

/-- A file system has other entries, but the same at the paths that matter. -/
theorem Inv.retree (h : Inv w) {t : Tree} (hdistinct : Distinct t)
    (hbelow : ∀ e ∈ t, e.2.number < w.nextFile)
    (hmounts : ∀ mp ∈ w.fm.mountPoints, mp.fileFs = fs →
      t.entry mp.path = w.entry fs mp.path)
    (hfiles : ∀ f ∈ w.files, f.writeIntent = true → f.fs = fs →
      ∀ q, w.entry fs q = some ⟨f.number, false⟩ → t.entry q = w.entry fs q) :
    Inv { w with tree := Function.update w.tree fs t } := by
  have hself : ∀ q, Tree.entry (Function.update w.tree fs t fs) q = t.entry q := by
    intro q
    rw [Function.update_self]
  have hother : ∀ g, g ≠ fs → ∀ q, Tree.entry (Function.update w.tree fs t g) q = w.entry g q := by
    intro g hg q
    rw [Function.update_of_ne hg]
    rfl
  refine ⟨⟨h.live, h.started, h.listed, fun g => ?_, fun g e he => ?_, fun mp hm => ?_,
    fun f hf hwrite => ?_, h.past⟩, h.cache⟩
  · dsimp only
    by_cases hg : g = fs
    · rw [hg, Function.update_self]
      exact hdistinct
    · rw [Function.update_of_ne hg]
      exact h.distinct g
  · dsimp only at he
    by_cases hg : g = fs
    · rw [hg, Function.update_self] at he
      exact hbelow e he
    · rw [Function.update_of_ne hg] at he
      exact h.below g e he
  · have hok := h.mounts mp hm
    refine ⟨?_, hok.filePath, hok.root, hok.owned, hok.fresh⟩
    have hentry := hok.entry
    rw [World.entry]
    dsimp only
    by_cases hg : mp.fileFs = fs
    · rw [hg] at hentry ⊢
      rw [hself, hmounts mp hm hg]
      exact hentry
    · rw [hother _ hg]
      exact hentry
  · obtain ⟨q, hq, hpath⟩ := h.writers f hf hwrite
    refine ⟨q, ?_, hpath⟩
    rw [World.entry]
    dsimp only
    by_cases hg : f.fs = fs
    · rw [hg] at hq ⊢
      rw [hself, hfiles f hf hwrite hg q hq]
      exact hq
    · rw [hother _ hg]
      exact hq

theorem Inv.deleteFile {images : List Enter} {answer : FRESULT} {r : FRESULT × World} (h : Inv w)
    (hok : LookupsOk cfg w images 0) (hrun : w.deleteFile cfg images sub answer n = some r) :
    Inv r.2 := by
  rw [World.deleteFile] at hrun
  cases hpath : w.findPathentry cfg false images sub 0 with
  | none =>
      rw [hpath] at hrun
      exact nomatch hrun
  | some v =>
      obtain ⟨fs, found, u⟩ := v
      rw [hpath] at hrun
      dsimp only at hrun
      obtain ⟨hu, -⟩ := h.findPathentry (Or.inl rfl) hok hpath
      split at hrun
      · cases hrun
        exact hu
      cases huse : u.inUseForWriting cfg n (u.fullPath fs sub) with
      | none =>
          rw [huse] at hrun
          exact nomatch hrun
      | some b =>
          obtain ⟨used, v⟩ := b
          rw [huse] at hrun
          obtain ⟨hv, hunused, -⟩ := hu.inUseForWriting huse
          cases used with
          | true =>
              cases hrun
              exact hv
          | false =>
              have hfree := hunused rfl
              dsimp only at hrun
              split at hrun
              · cases hrun
                exact hv
              split at hrun
              · cases hrun
                exact hv
              · cases hrun
                have hgone : Inv { v with
                    tree := Function.update v.tree fs ((v.tree fs).remove sub) } := by
                  refine hv.retree (remove_distinct (hv.distinct fs))
                    (fun e he => hv.below fs e (mem_of_mem_remove he)) ?_ ?_
                  · exact fun mp hm hfs => entry_remove (hfree.mounts mp hm hfs)
                  · exact fun f hf hwrite hfs q hq => entry_remove (hfree.files f hf hwrite hfs q hq)
                exact hgone.change rfl rfl rfl rfl hgone.live.directories

/-- No file in a directory is mounted or open for writing. -/
def DirUnused (w : World) (fs : Nat) (sub : List CString) : Prop :=
  ∀ d x q, w.entry fs sub = some ⟨d, true⟩ → w.entry fs q = some ⟨x, false⟩ → under sub q = true →
    (∀ f ∈ w.files, f.writeIntent = true → f.fs = fs → f.number ≠ x) ∧
    ∀ mp ∈ w.fm.mountPoints, mp.fileFs = fs → w.image mp.fs ≠ x

theorem Inv.fileRename {r : Renaming} (h : Inv w) (hunused : Unused w fs r.sub)
    (hdir : DirUnused w fs r.sub) : Inv (w.fileRename cfg fs r).2 := by
  rw [World.fileRename]
  cases hentry : w.entry fs r.sub with
  | none => exact h
  | some d =>
      dsimp only
      split
      · exact h
      split
      · exact h
      next hfree =>
        have hperm := numbers_move (r.toSub.dropLast ++ [r.stored]) hentry
        -- A path that is found lies outside of the new one.
        have houtside : ∀ q g, w.entry fs q = some g →
            ¬ sameNames (r.toSub.dropLast ++ [r.stored]) q = true ∧
            ¬ under (r.toSub.dropLast ++ [r.stored]) q = true := by
          intro q g hq
          obtain ⟨p, hp, hsame, -⟩ := mem_of_entry hq
          have hnone : ¬ (sameNames (r.toSub.dropLast ++ [r.stored]) p ||
              under (r.toSub.dropLast ++ [r.stored]) p) = true := fun hmem =>
            hfree (List.any_eq_true.mpr ⟨(p, g), hp, hmem⟩)
          rw [Bool.or_eq_true, not_or] at hnone
          rw [← sameNames_congr hsame, ← under_congr hsame]
          exact hnone
        have hmoved : Inv { w with
            tree := Function.update w.tree fs
              ((w.tree fs).move r.sub (r.toSub.dropLast ++ [r.stored]) d) } := by
          refine h.retree ?_ ?_ ?_ ?_
          · exact hperm.nodup_iff.mpr (h.distinct fs)
          · intro e he
            have hmem := hperm.subset (List.mem_map_of_mem (f := fun e => e.2.number) he)
            obtain ⟨e₀, he₀, heq⟩ := List.mem_map.mp hmem
            rw [← heq]
            exact h.below fs e₀ he₀
          · intro mp hm hfs
            have hat : w.entry fs mp.path = some ⟨w.image mp.fs, false⟩ := hfs ▸ (h.mounts mp hm).entry
            obtain ⟨hto, hbelow⟩ := houtside _ _ hat
            refine entry_move hto hbelow (hunused.mounts mp hm hfs) fun hinside => ?_
            obtain ⟨number, isDir⟩ := d
            rw [Bool.and_eq_true] at hinside
            dsimp only at hinside
            rw [hinside.1] at hentry
            exact (hdir _ _ _ hentry hat hinside.2).2 mp hm hfs rfl
          · intro f hf hwrite hfs q hat
            obtain ⟨hto, hbelow⟩ := houtside _ _ hat
            refine entry_move hto hbelow (hunused.files f hf hwrite hfs q hat) fun hinside => ?_
            obtain ⟨number, isDir⟩ := d
            rw [Bool.and_eq_true] at hinside
            dsimp only at hinside
            rw [hinside.1] at hentry
            exact (hdir _ _ _ hentry hat hinside.2).1 f hf hwrite hfs rfl
        exact hmoved.change rfl rfl rfl rfl hmoved.live.directories

/-- Lookups for another path, before the file system or in it, do not mount the file. -/
theorem Unused.walked (h : Unused w fs sub) (hw : Walked w w' fs) (hlt : fs < w.fm.nextFs) :
    Unused w' fs sub where
  mounts mp hm hfs := by
    rcases hw.mounts mp hm with hbefore | ⟨m, hmem, hfile, hpath⟩
    · exact absurd hfs (Nat.ne_of_lt hbefore)
    · rw [← hpath]
      exact h.mounts m hmem (hfile.trans hfs)
  files f hf hwrite hfs q hq := by
    rw [hw.files] at hf
    rw [World.entry, hw.tree fs hlt] at hq
    exact h.files f hf hwrite hfs q hq

/-- Both paths are looked up as they can be, and no file in a directory that is renamed is
    mounted or open for writing. -/
def RenameOk (cfg : Config) (w : World) (r : Renaming) : Prop :=
  LookupsOk cfg w r.images 0 ∧
  ∀ fs u, w.renameFrom cfg r = some (.ok, fs, u) → LookupsOk cfg u r.toImages 0 ∧
    ∀ found v, u.findPathentry cfg false r.toImages r.toSub 0 = some (fs, found, v) →
      DirUnused v fs r.sub

theorem Inv.renameFrom {r : Renaming} {found : FRESULT} (h : Inv w)
    (hok : LookupsOk cfg w r.images 0) (hrun : w.renameFrom cfg r = some (found, fs, w')) :
    Inv w' ∧ (found = .ok → Unused w' fs r.sub ∧ fs < w'.fm.nextFs) := by
  rw [World.renameFrom] at hrun
  cases hpath : w.findPathentry cfg false r.images r.sub 0 with
  | none =>
      rw [hpath] at hrun
      exact nomatch hrun
  | some v =>
      obtain ⟨i, found, u⟩ := v
      rw [hpath] at hrun
      dsimp only at hrun
      obtain ⟨hu, hgood, -⟩ := h.findPathentry (Or.inl rfl) hok hpath
      split at hrun
      next hno =>
        cases hrun
        exact ⟨hu, fun hf => absurd hf hno⟩
      next hyes =>
        cases huse : u.inUseForWriting cfg r.calls (u.fullPath i r.sub) with
        | none =>
            rw [huse] at hrun
            exact nomatch hrun
        | some b =>
            obtain ⟨used, v⟩ := b
            rw [huse] at hrun
            obtain ⟨hv, hunused, hnext⟩ := hu.inUseForWriting huse
            cases used with
            | true =>
                cases hrun
                exact ⟨hv, nofun⟩
            | false =>
                cases hrun
                have hhas := (hgood (Or.inl (Classical.not_not.mp hyes))).1
                exact ⟨hv, fun _ => ⟨hunused rfl, hnext ▸ has_lt hu.toFacts hu.cache hhas⟩⟩

theorem Inv.rename {r : Renaming} {q : FRESULT × World} (h : Inv w) (hok : RenameOk cfg w r)
    (hrun : w.rename cfg r = some q) : Inv q.2 := by
  rw [World.rename] at hrun
  cases hfrom : w.renameFrom cfg r with
  | none =>
      rw [hfrom] at hrun
      exact nomatch hrun
  | some v =>
      obtain ⟨found, fs, u⟩ := v
      rw [hfrom] at hrun
      dsimp only at hrun
      obtain ⟨hu, hunused⟩ := h.renameFrom hok.1 hfrom
      split at hrun
      · cases hrun
        exact hu
      next hfound =>
        rw [Classical.not_not] at hfound
        subst hfound
        obtain ⟨hfree, hlt⟩ := hunused rfl
        obtain ⟨hlookups, hdir⟩ := hok.2 fs u hfrom
        cases hto : u.findPathentry cfg false r.toImages r.toSub 0 with
        | none =>
            rw [hto] at hrun
            exact nomatch hrun
        | some v =>
            obtain ⟨toFs, found, v⟩ := v
            rw [hto] at hrun
            dsimp only at hrun
            obtain ⟨hv, hgood, -⟩ := hu.findPathentry (Or.inl rfl) hlookups hto
            split at hrun
            · cases hrun
              exact hv
            split at hrun
            · cases hrun
              exact hv
            next hmissing =>
              split at hrun
              · cases hrun
                exact hv
              next hsame =>
                rw [Classical.not_not] at hsame hmissing
                subst hsame
                split at hrun
                · cases hrun
                  exact hv
                · cases hrun
                  have hwalked := (hgood (Or.inr hmissing)).2.2
                  exact hv.fileRename (hfree.walked hwalked hlt) (hdir found v hto)

/-! ## Runs -/

/-- The calls that leave the files where their paths say. -/
def Allowed (cfg : Config) (w : World) : Event → Prop
  | .lookup images _ => LookupsOk cfg w images 0
  | .fopen o => LookupsOk cfg w o.images 0 ∧ StoredOk o
  | .fclose _ _ => True
  | .openDirectory images _ _ => LookupsOk cfg w images 0
  | .closeDirectory _ => True
  | .deleteFile images _ _ _ => LookupsOk cfg w images 0
  | .rename r => RenameOk cfg w r

theorem Inv.step {ev : Event} (h : Inv w) (hok : Allowed cfg w ev)
    (hstep : w.step cfg ev = some w') : Inv w' := by
  cases ev with
  | lookup images sub =>
      obtain ⟨⟨last, found, u⟩, hr, rfl⟩ := Option.map_eq_some_iff.mp hstep
      exact (h.findPathentry (Or.inl rfl) hok hr).1
  | fopen o =>
      obtain ⟨r, hr, rfl⟩ := Option.map_eq_some_iff.mp hstep
      exact h.fopen hok.1 hok.2 hr
  | fclose i calls => exact h.fclose hstep
  | openDirectory images sub answer =>
      obtain ⟨r, hr, rfl⟩ := Option.map_eq_some_iff.mp hstep
      exact h.openDirectory hok hr
  | closeDirectory fs =>
      cases hstep
      exact h.closeDirectory fs
  | deleteFile images sub answer calls =>
      obtain ⟨r, hr, rfl⟩ := Option.map_eq_some_iff.mp hstep
      exact h.deleteFile hok hr
  | rename r =>
      obtain ⟨q, hq, rfl⟩ := Option.map_eq_some_iff.mp hstep
      exact h.rename hok hq

theorem inv_start (contents : List (List CString × Bool)) : Inv (start contents) := by
  refine ⟨⟨⟨nofun, nofun, nofun⟩, Nat.one_pos, rfl, fun fs => ?_, fun fs e he => ?_, nofun, nofun,
    fun _ _ => Nat.zero_le _⟩, ⟨.nil, nofun, nofun, nofun, .nil⟩⟩
  · rw [World.start]
    dsimp only
    split
    · exact numbered_distinct 0 contents
    · exact List.nodup_nil
  · rw [World.start] at he ⊢
    dsimp only at he ⊢
    split at he
    · have hlt := number_lt he
      omega
    · exact nomatch he

theorem inv_of_run (h : World.Run cfg (Allowed cfg) w) : Inv w := by
  induction h with
  | start contents => exact inv_start contents
  | step _ hok hstep ih => exact ih.step hok hstep

/-- A directory with an image in it. -/
def disk : World := start [(["DIR".toList], true), (["DIR".toList, "A.D64".toList], false)]

/-- The image is opened for writing. -/
def openImage : Opening where
  images := []
  sub := ["DIR".toList, "A.D64".toList]
  flags := ⟨true, false, false, false⟩
  stored := "A.D64".toList
  answer := .ok
  calls := 1

/-- The image is open for writing. -/
def written : World := disk.addFile .initial ⟨⟨0, "/DIR/A.D64".toList, true⟩, 1⟩

theorem step_openImage : disk.step .initial (.fopen openImage) = some written := rfl

/-- The directory is given another name. -/
def renameDir : Renaming where
  images := []
  sub := ["DIR".toList]
  toImages := []
  toSub := ["DIR2".toList]
  stored := "DIR2".toList
  answer := .ok
  calls := 1

def renamed : World := (written.fileRename .initial 0 renameDir).2

/-- The image is entered in the directory. -/
def enterImage : Enter where
  path := ["DIR2".toList, "A.D64".toList]
  writable := true
  opened := true
  recognised := true
  contents := []
  calls := 1

def entered : World :=
  { renamed.made 0 enterImage 1 with fm := added renamed.fm (renamed.lookup 0 enterImage) }

end MountOwnership
