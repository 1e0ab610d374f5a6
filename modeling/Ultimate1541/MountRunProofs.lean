import Ultimate1541.MountFindProofs

/-! # Runs of the mount cache

    Paths are looked up, files and directories opened and closed, and images discarded. -/

namespace MountCache

open Pattern ManagedTemp FileManager

variable {cfg : Config} {s s' t : FileManager} {mp : MountPoint} {l : Lookup} {n : Nat}

/-! ## Closing the file of an image -/

/-- No temporary file is to be deleted, nor are there too many. -/
def Quiet (cfg : Config) (es : List ManagedTempEntry) : Prop :=
  (∀ e ∈ es, e.deleteOnLastClose = false) ∧
    (cfg.autoCleanup = true → es.length ≤ FileManager.managedTempMaxFiles)

/-- A count that changes leaves it so. -/
theorem Quiet.onEntry {es : List ManagedTempEntry} (h : Quiet cfg es) (path : CString)
    (g : Nat → Nat) :
    Quiet cfg (onEntry path (fun e => [{ e with openCount := g e.openCount }]) es) := by
  have hlen : ∀ es : List ManagedTempEntry,
      (ManagedTemp.onEntry path (fun e => [{ e with openCount := g e.openCount }]) es).length
        = es.length := by
    intro es
    induction es with
    | nil => rfl
    | cons e es ih =>
        rw [ManagedTemp.onEntry]
        split
        · rfl
        · exact congrArg Nat.succ ih
  have hmark : ∀ es : List ManagedTempEntry, (∀ e ∈ es, e.deleteOnLastClose = false) →
      ∀ e ∈ ManagedTemp.onEntry path (fun e => [{ e with openCount := g e.openCount }]) es,
        e.deleteOnLastClose = false := by
    intro es hes
    induction es with
    | nil =>
        intro e he
        cases he
    | cons a es ih =>
        rw [List.forall_mem_cons] at hes
        rw [ManagedTemp.onEntry]
        split
        · rw [List.singleton_append, List.forall_mem_cons]
          exact hes
        · rw [List.forall_mem_cons]
          exact ⟨hes.1, ih hes.2⟩
  exact ⟨hmark es h.1, fun hauto => (hlen es).trans_le (h.2 hauto)⟩

theorem Quiet.noteOpen {es : List ManagedTempEntry} (h : Quiet cfg es) (path : CString) :
    Quiet cfg (noteManagedTempOpen cfg es path) := by
  rw [noteManagedTempOpen]
  split
  · exact h.onEntry path _
  · exact h

/-- Then the file of a mount is closed without more ado. -/
theorem Quiet.fcloseMount (h : Quiet cfg s.managedTempEntries) (path : CString) :
    ∃ s', s.fcloseMount cfg path = some s' ∧ Quiet cfg s'.managedTempEntries := by
  have hnoted : Quiet cfg (noteManagedTempClose cfg s.managedTempEntries path).1 := by
    rw [noteManagedTempClose]
    split
    · cases findManagedTempEntry s.managedTempEntries path with
      | none => exact h
      | some e => exact h.onEntry path (· - 1)
    · exact h
  have hafter : ∀ p, (noteManagedTempClose cfg s.managedTempEntries path).2 ≠ .deleteFile p := by
    intro p
    rw [noteManagedTempClose]
    split
    · cases hf : findManagedTempEntry s.managedTempEntries path with
      | none => exact nofun
      | some e =>
          have hunmarked := h.1 e (List.mem_of_find?_eq_some hf)
          dsimp only
          rw [hunmarked]
          split <;> exact nofun
    · exact nofun
  rw [FileManager.fcloseMount]
  cases ha : (noteManagedTempClose cfg s.managedTempEntries path).2 with
  | nothing => exact ⟨_, rfl, hnoted⟩
  | deleteFile p => exact absurd ha (hafter p)
  | enforce =>
      dsimp only
      rw [if_neg fun hover => Nat.not_lt.mpr (hnoted.2 hover.1) hover.2]
      exact ⟨_, rfl, hnoted⟩

theorem evictMountPoints_returns (h : Quiet cfg s.managedTempEntries) (n : Nat) :
    (s.evictMountPoints cfg n).isSome = true := by
  induction n generalizing s with
  | zero => rfl
  | succ n ih =>
      rw [evictMountPoints]
      split
      · rfl
      · cases s.oldest s.mountPoints none with
        | none => rfl
        | some v =>
            obtain ⟨t, ht, hquiet⟩ := h.fcloseMount v.filePath
            dsimp only
            rw [ht]
            exact ih (s := t.removeMount v.fs) hquiet

/-! ## Discarding returns -/

mutual

/-- More calls give the same. -/
theorem discardMountTree_more {n : Nat} {s : FileManager} {mp : MountPoint}
    {r : Bool × FileManager} (h : s.discardMountTree cfg n mp = some r) :
    s.discardMountTree cfg (n + 1) mp = some r := by
  cases n with
  | zero =>
      rw [discardMountTree] at h
      exact nomatch h
  | succ n =>
      rw [discardMountTree] at h ⊢
      cases hc : (s.markStale mp.fs).discardChildren cfg n mp.fs 0 with
      | none =>
          rw [hc] at h
          exact nomatch h
      | some u =>
          rw [hc] at h
          rw [discardChildren_more hc]
          exact h

theorem discardChildren_more {n : Nat} {s s' : FileManager} {fs i : Nat}
    (h : s.discardChildren cfg n fs i = some s') :
    s.discardChildren cfg (n + 1) fs i = some s' := by
  cases n with
  | zero =>
      rw [discardChildren] at h
      exact nomatch h
  | succ n =>
      rw [discardChildren] at h ⊢
      cases hchild : s.mountPoints[i]? with
      | none =>
          rw [hchild] at h
          exact h
      | some child =>
          rw [hchild] at h
          dsimp only at h ⊢
          split at h
          next hbelow =>
            rw [if_pos hbelow]
            cases ht : s.discardMountTree cfg n child with
            | none =>
                rw [ht] at h
                exact nomatch h
            | some r =>
                rw [ht] at h
                rw [discardMountTree_more ht]
                exact discardChildren_more h
          next hbelow =>
            rw [if_neg hbelow]
            exact discardChildren_more h

end

theorem discardMountTree_le {k : Nat} {r : Bool × FileManager} (hk : n ≤ k)
    (h : s.discardMountTree cfg n mp = some r) : s.discardMountTree cfg k mp = some r := by
  induction hk with
  | refl => exact h
  | step _ ih => exact discardMountTree_more ih

theorem discardChildren_le {k fs i : Nat} (hk : n ≤ k)
    (h : s.discardChildren cfg n fs i = some s') : s.discardChildren cfg k fs i = some s' := by
  induction hk with
  | refl => exact h
  | step _ ih => exact discardChildren_more ih

/-- How many mounts are younger than a file system. -/
def FileManager.younger (s : FileManager) (fs : Nat) : Nat := s.ids.countP (fs < ·)

theorem younger_of_shrinks (h : Shrinks s s') (fs : Nat) : s'.younger fs ≤ s.younger fs :=
  h.ids.countP_le

/-- Fewer are younger than a younger one. -/
theorem younger_lt {fs f : Nat} (hlt : fs < f) (hmem : f ∈ s.ids) : s.younger f < s.younger fs := by
  have herase := List.perm_cons_erase hmem
  rw [younger, younger, herase.countP_eq (f < ·), herase.countP_eq (fs < ·), List.countP_cons,
    List.countP_cons]
  have hle : (s.ids.erase f).countP (f < ·) ≤ (s.ids.erase f).countP (fs < ·) := by
    refine List.countP_mono_left fun x _ hx => ?_
    simp only [decide_eq_true_eq] at hx ⊢
    omega
  simp only [decide_eq_true_eq, Nat.lt_irrefl, if_false, hlt, if_true]
  omega

/-- The temporary files are quiet, and images lie in older file systems. -/
def Calm (cfg : Config) (s : FileManager) : Prop := Quiet cfg s.managedTempEntries ∧ Older s

/-- Discarding returns from this state, calm. -/
def TreeReturns (cfg : Config) (s : FileManager) (mp : MountPoint) : Prop :=
  ∃ n r, s.discardMountTree cfg n mp = some r ∧ Calm cfg r.2

theorem discardChildren_returns {d : Nat}
    (htree : ∀ s mp, Calm cfg s → s.younger mp.fs < d → TreeReturns cfg s mp) {m : Nat} :
    ∀ {s : FileManager} {fs i : Nat}, Calm cfg s → s.younger fs ≤ d →
      s.mountPoints.length * (s.mountPoints.length + 1) + (s.mountPoints.length - i) ≤ m →
      ∃ n s', s.discardChildren cfg n fs i = some s' ∧ Calm cfg s' := by
  induction m using Nat.strong_induction_on with
  | _ m ih =>
      intro s fs i hcalm hd hm
      cases hchild : s.mountPoints[i]? with
      | none => exact ⟨1, s, by rw [discardChildren, hchild], hcalm⟩
      | some child =>
          have hi : i < s.mountPoints.length := (List.getElem?_eq_some_iff.mp hchild).1
          by_cases hbelow : child.fs ≠ fs ∧ child.fileFs = fs
          · have hmem := List.mem_of_getElem? hchild
            have hlt : fs < child.fs := hbelow.2 ▸ hcalm.2 child hmem
            obtain ⟨n₁, r, hr, hcalm'⟩ := htree s child hcalm
              (Nat.lt_of_lt_of_le (younger_lt hlt (List.mem_map_of_mem hmem)) hd)
            have hshrinks := (discardMountTree_spec hcalm.2 hr).shrinks
            have hlen := hshrinks.length_le
            -- Either nothing has gone, and the next one is looked at, or fewer are left.
            obtain ⟨n₂, s', hs', hdone⟩ := ih _ (by
              show r.2.mountPoints.length * (r.2.mountPoints.length + 1)
                + (r.2.mountPoints.length - if r.2.mountPoints.length = s.mountPoints.length
                  then i + 1 else 0) < m
              split
              next heq =>
                rw [heq]
                omega
              next hne =>
                have hmul := Nat.mul_le_mul (show r.2.mountPoints.length + 1
                  ≤ s.mountPoints.length by omega) (show r.2.mountPoints.length + 1
                  ≤ s.mountPoints.length + 1 by omega)
                rw [Nat.succ_mul] at hmul
                omega) hcalm' ((younger_of_shrinks hshrinks fs).trans hd) (Nat.le_refl _)
            refine ⟨max n₁ n₂ + 1, s', ?_, hdone⟩
            rw [discardChildren, hchild]
            dsimp only
            rw [if_pos hbelow, discardMountTree_le (Nat.le_max_left n₁ n₂) hr]
            exact discardChildren_le (Nat.le_max_right n₁ n₂) hs'
          · obtain ⟨n₂, s', hs', hdone⟩ := ih _ (by
              show s.mountPoints.length * (s.mountPoints.length + 1)
                + (s.mountPoints.length - (i + 1)) < m
              omega) hcalm hd (Nat.le_refl _)
            refine ⟨n₂ + 1, s', ?_, hdone⟩
            rw [discardChildren, hchild]
            dsimp only
            rw [if_neg hbelow]
            exact hs'

/-- `discard_mount_tree` returns. -/
theorem discardMountTree_returns (d : Nat) :
    ∀ s mp, Calm cfg s → s.younger mp.fs < d → TreeReturns cfg s mp := by
  induction d with
  | zero => exact fun s mp _ h => absurd h (Nat.not_lt_zero _)
  | succ d ih =>
      intro s mp hcalm hd
      have hmark := markStale_shrinks s mp.fs
      have hcalm₁ : Calm cfg (s.markStale mp.fs) := ⟨hcalm.1, hcalm.2.of_shrinks hmark⟩
      obtain ⟨n, u, hu, hcalm₂⟩ := discardChildren_returns ih hcalm₁
        ((younger_of_shrinks hmark _).trans (Nat.le_of_lt_succ hd)) (Nat.le_refl _)
      by_cases hev : u.isMountEvictable mp = true
      · obtain ⟨v, hv, hquiet⟩ := Quiet.fcloseMount (s := u.removeMount mp.fs) hcalm₂.1 mp.filePath
        refine ⟨n + 1, (true, v), ?_, hquiet, ?_⟩
        · rw [discardMountTree, hu]
          dsimp only
          rw [if_pos hev, hv]
          rfl
        · exact hcalm₂.2.of_shrinks ((removeMount_shrinks u mp.fs).trans (fcloseMount_shrinks hv).1)
      · refine ⟨n + 1, (false, u), ?_, hcalm₂⟩
        rw [discardMountTree, hu]
        dsimp only
        rw [if_neg hev]

/-! ## A lookup -/

/-- At most seven mounts are pinned, the counter of uses does not wrap, the lookup matches
    the mount of its own path only, and the temporary files are quiet. -/
structure Allowed (cfg : Config) (s : FileManager) (l : Lookup) : Prop where
  few : Few s l.fs
  room : Room s
  path : ∀ mp ∈ s.mountPoints, mp.isMatch l.fs l.path = true → sameNames mp.path l.path = true
  quiet : Quiet cfg s.managedTempEntries

/-- Where no mount has the path, the new one is in the cache. -/
theorem mount_kept {r : Option Nat} (h : Inv s) (hroom : Room s) (hfew : Few s l.fs)
    (hfs : l.fs < s.nextFs)
    (hnew : ∀ mp ∈ s.mountPoints, mp.fileFs = l.fs → ¬ sameNames mp.path l.path = true)
    (hrun : s.mount cfg l = some (r, s')) : Inv s' ∧ ∀ fs, r = some fs → fs ∈ s'.ids := by
  rw [FileManager.mount] at hrun
  split at hrun
  · have hnoted : Shrinks s { s with
        managedTempEntries := noteManagedTempOpen cfg s.managedTempEntries l.rootPath } :=
      ⟨.refl _, rfl, rfl, rfl, rfl⟩
    have hinv := h.of_shrinks hnoted
    dsimp only at hrun
    split at hrun
    · obtain ⟨t, ht, heq⟩ := Option.map_eq_some_iff.mp hrun
      cases heq
      have hadded := added_inv hinv hroom hfs hnew
      refine ⟨hadded.of_shrinks (evictMountPoints_evictions ht).shrinks, ?_⟩
      rintro fs ⟨⟩
      refine evict_keeps_new (s := { s with
        managedTempEntries := noteManagedTempOpen cfg s.managedTempEntries l.rootPath })
        hinv hroom (hfew.of_shrinks hnoted) hadded (.refl _) ?_ ht
      rw [FileManager.ids, added_mountPoints hinv, List.map_append, List.mem_append]
      exact Or.inr (List.mem_singleton.mpr rfl)
    · obtain ⟨t, ht, heq⟩ := Option.map_eq_some_iff.mp hrun
      cases heq
      exact ⟨hinv.of_shrinks (fcloseMount_shrinks ht).1, nofun⟩
  · cases hrun
    exact ⟨h, nofun⟩

/-- What a lookup returns is in the cache. -/
theorem findMountPoint_kept {r : Option Nat} (h : Inv s) (hfs : l.fs < s.nextFs)
    (hfew : Few s l.fs) (hroom : Room s)
    (hpath : ∀ mp ∈ s.mountPoints, mp.isMatch l.fs l.path = true → sameNames mp.path l.path = true)
    (hrun : s.findMountPoint cfg l = some (r, s')) :
    Inv s' ∧ ∀ fs, r = some fs → fs ∈ s'.ids := by
  rw [findMountPoint] at hrun
  cases hfind : s.mountPoints.find? fun mp => mp.isMatch l.fs l.path with
  | none =>
      rw [hfind] at hrun
      refine mount_kept h hroom hfew hfs (fun mp hm hfile hs => ?_) hrun
      refine List.find?_eq_none.mp hfind mp hm ?_
      rw [MountPoint.isMatch, Bool.and_eq_true]
      exact ⟨beq_iff_eq.mpr hfile, subPathMatch_of_sameNames hs⟩
  | some cached =>
      rw [hfind] at hrun
      have hmem := List.mem_of_find?_eq_some hfind
      have hmatch : cached.isMatch l.fs l.path = true := by simpa using List.find?_some hfind
      have htouched : ∀ u : FileManager, Shrinks s u → cached.fs ∈ u.ids →
          Inv (u.touch cached.fs) ∧ ∀ fs, some cached.fs = some fs → fs ∈ (u.touch cached.fs).ids := by
        intro u hu hids
        have hnext : Room u := by
          rw [Room, hu.mountUseSeq]
          exact hroom
        refine ⟨(h.of_shrinks hu).touch hnext _, ?_⟩
        rintro fs ⟨⟩
        rw [touch_ids]
        exact hids
      dsimp only at hrun
      split at hrun
      · cases ht : s.discardMountTree cfg l.calls cached with
        | none =>
            rw [ht] at hrun
            exact nomatch hrun
        | some b =>
            obtain ⟨b, u⟩ := b
            rw [ht] at hrun
            have hspec := discardMountTree_spec h.older ht
            have hshrinks : Shrinks s u := hspec.shrinks
            cases b with
            | false =>
                cases hrun
                exact htouched u hshrinks (hspec.stays rfl (List.mem_map_of_mem hmem))
            | true =>
                have hinv := h.of_shrinks hshrinks
                have hnext : Room u := by
                  rw [Room, hshrinks.mountUseSeq]
                  exact hroom
                refine mount_kept hinv hnext (hfew.of_shrinks hshrinks)
                  (hshrinks.nextFs ▸ hfs) (fun mp hm hfile hs => ?_) hrun
                -- Another mount of the path would be the one that is gone.
                obtain ⟨m₀, hm₀, hfs₀, hfile₀, -, hpath₀⟩ := hshrinks.mem hm
                rw [MountPoint.isMatch, Bool.and_eq_true, beq_iff_eq] at hmatch
                have hsame : m₀ = cached := by
                  refine eq_of_pairwise (fun a b hab => ⟨hab.1.symm, sameNames_symm hab.2⟩)
                    h.once hm₀ hmem ⟨?_, ?_⟩
                  · exact hfile₀.trans (hfile.trans hmatch.1.symm)
                  · rw [hpath₀]
                    refine sameNames_trans hs (sameNames_symm (hpath cached hmem ?_))
                    rw [MountPoint.isMatch, Bool.and_eq_true, beq_iff_eq]
                    exact hmatch
                refine hspec.gone rfl ?_
                rw [← hsame, hfs₀]
                exact List.mem_map_of_mem hm
      · cases hrun
        exact htouched s (.refl s) (List.mem_map_of_mem hmem)

theorem mount_returns (hquiet : Quiet cfg s.managedTempEntries) (l : Lookup) :
    (s.mount cfg l).isSome = true := by
  have hnoted := hquiet.noteOpen l.rootPath
  rw [FileManager.mount]
  split
  · dsimp only
    split
    · rw [Option.isSome_map]
      exact evictMountPoints_returns hnoted _
    · obtain ⟨t, ht, -⟩ := Quiet.fcloseMount (s := { s with
        managedTempEntries := noteManagedTempOpen cfg s.managedTempEntries l.rootPath })
        hnoted l.rootPath
      rw [ht]
      rfl
  · rfl

/-- A lookup returns, with calls enough. -/
theorem findMountPoint_returns (h : Inv s) (hok : Allowed cfg s l) :
    ∃ n, ∀ k, n ≤ k → (s.findMountPoint cfg { l with calls := k }).isSome = true := by
  cases hfind : s.mountPoints.find? fun mp => mp.isMatch l.fs l.path with
  | none =>
      refine ⟨0, fun k _ => ?_⟩
      rw [findMountPoint]
      dsimp only
      rw [hfind]
      exact mount_returns hok.quiet _
  | some cached =>
      obtain ⟨n, r, hr, hcalm⟩ := discardMountTree_returns (s.younger cached.fs + 1) s cached
        ⟨hok.quiet, h.older⟩ (Nat.lt_succ_self _)
      refine ⟨n, fun k hk => ?_⟩
      rw [findMountPoint]
      dsimp only
      rw [hfind]
      dsimp only
      split
      · rw [discardMountTree_le hk hr]
        obtain ⟨b, u⟩ := r
        cases b with
        | false => rfl
        | true => exact mount_returns hcalm.1 _
      · rfl

/-! ## Runs -/

/-- Lookups of images in file systems there are, which are `ok`, and in between anything
    opened and closed, temporary files changed, and images discarded. -/
inductive Run (cfg : Config) (ok : FileManager → Lookup → Prop) : FileManager → Prop
  | start : Run cfg ok .start
  | change {s : FileManager} (openFileList : List OpenFile) (openDirectoryFs : List Nat)
      (managedTempEntries : List ManagedTempEntry) (h : Run cfg ok s) :
      Run cfg ok { s with
        openFileList := openFileList
        openDirectoryFs := openDirectoryFs
        managedTempEntries := managedTempEntries }
  | discard {s s' : FileManager} {n : Nat} {path : CString} (h : Run cfg ok s)
      (hrun : s.discardMountsOfFile cfg n path 0 = some s') : Run cfg ok s'
  | lookup {s s' : FileManager} {l : Lookup} {r : Option Nat} (h : Run cfg ok s)
      (hfs : l.fs < s.nextFs) (hok : ok s l) (hrun : s.findMountPoint cfg l = some (r, s')) :
      Run cfg ok s'

theorem inv_of_run (h : Run cfg (Allowed cfg) s) : Inv s := by
  induction h with
  | start => exact ⟨.nil, nofun, nofun, nofun, .nil⟩
  | change _ _ _ _ ih => exact ⟨ih.ids, ih.older, ih.below, ih.used, ih.once⟩
  | discard _ hrun ih => exact ih.of_shrinks (discardMountsOfFile_shrinks ih.older hrun)
  | lookup _ hfs hok hrun ih => exact (findMountPoint_kept ih hfs hok.few hok.room hok.path hrun).1

/-- What every lookup returns that is `ok` is in the cache. -/
def ReturnsCached (cfg : Config) (ok : FileManager → Lookup → Prop) (s : FileManager) : Prop :=
  ∀ l fs s', l.fs < s.nextFs → ok s l → s.findMountPoint cfg l = some (some fs, s') →
    fs ∈ s'.ids

/-- With few mounts pinned, and paths that match no others, a lookup returns a mount that
    is in the cache, and the cache holds one mount for a path.  Eviction releases nothing
    that is in use, in any state. -/
theorem find_mount_point_cached (h : Run cfg (Allowed cfg) s) :
    ReturnsCached cfg (Allowed cfg) s ∧ OncePerPath s ∧
    (∀ t n t', t.evictMountPoints cfg n = some t' → Evictions cfg t t') ∧
    ∀ l, Allowed cfg s l →
      ∃ n, ∀ k, n ≤ k → (s.findMountPoint cfg { l with calls := k }).isSome = true := by
  have hinv := inv_of_run h
  refine ⟨fun l fs s' hfs hok hrun => ?_, hinv.once, fun t n t' ht => evictMountPoints_evictions ht,
    fun l hok => findMountPoint_returns hinv hok⟩
  exact (findMountPoint_kept hinv hfs hok.few hok.room hok.path hrun).2 fs rfl

/-! ## Eight mounts in use -/

/-- The image with a number, in the root. -/
def imageName (k : Nat) : CString := Char.ofNat ('1'.toNat + k) :: ".d64".toList

def imageLookup (k : Nat) : Lookup where
  fs := 0
  path := [imageName k]
  rootPath := '/' :: imageName k
  writable := true
  opened := true
  recognised := true
  calls := 0

/-- `k` images have been entered, and a directory is open in each. -/
def busy (k : Nat) : FileManager where
  mountPoints := (List.range k).map fun i => {
    fs := i + 1
    path := [imageName i]
    fileFs := 0
    filePath := '/' :: imageName i
    writable := true
    lastUsed := UInt32.ofNat (i + 1)
    stale := false }
  openFileList := []
  openDirectoryFs := (List.range k).map (· + 1)
  managedTempEntries := []
  mountUseSeq := UInt32.ofNat k
  nextFs := k + 1

theorem run_busy {ok : FileManager → Lookup → Prop} {k : Nat} (hk : k ≤ 8)
    (hok : ∀ i < k, ok (busy i) (imageLookup i)) : Run .initial ok (busy k) := by
  induction k with
  | zero => exact .start
  | succ k ih =>
      have hnext : ∀ i < 8, (busy i).findMountPoint .initial (imageLookup i)
          = some (some (i + 1), { busy (i + 1) with openDirectoryFs := (busy i).openDirectoryFs }) := by
        decide +kernel
      have hrun := ih (Nat.le_of_succ_le hk) fun i hi => hok i (Nat.lt_succ_of_lt hi)
      exact (Run.lookup hrun (Nat.succ_pos _) (hok k (Nat.lt_succ_self k)) (hnext k hk)).change
        [] ((List.range (k + 1)).map (· + 1)) []

/-- The second image is entered while a directory is open in the first. -/
theorem find_mount_point_cached_second :
    ReturnsCached .initial (Allowed .initial) (busy 1) ∧ OncePerPath (busy 1) ∧
    (∀ t n t', t.evictMountPoints .initial n = some t' → Evictions .initial t t') ∧
    ∀ l, Allowed .initial (busy 1) l →
      ∃ n, ∀ k, n ≤ k → ((busy 1).findMountPoint .initial { l with calls := k }).isSome = true := by
  refine find_mount_point_cached (run_busy (by decide) fun i hi => ?_)
  cases Nat.lt_one_iff.mp hi
  refine ⟨fun pinned _ hp => ?_, by rw [Room]; decide, nofun, nofun, fun _ => Nat.zero_le _⟩
  -- Nothing is mounted yet.
  cases pinned with
  | nil => decide
  | cons fs _ => cases hp fs (List.mem_cons_self ..) with | _ hm => exact nomatch hm

/-- The ninth mount is evicted by its own lookup, when the other eight are in use. -/
theorem ninth_not_cached :
    ¬ ∀ s, Run .initial (fun _ _ => True) s → ReturnsCached .initial (fun _ _ => True) s := by
  intro h
  have hrun : (busy 8).findMountPoint .initial (imageLookup 8)
      = some (some 9, { busy 8 with mountUseSeq := 9, nextFs := 10 }) := by
    decide +kernel
  have hmem := h (busy 8) (run_busy (Nat.le_refl 8) fun _ _ => trivial) (imageLookup 8) 9 _
    (by decide) trivial hrun
  exact absurd hmem (by decide)

end MountCache
