import Ultimate1541.CbmReferencesProofs
import Ultimate1541.CbmAllocProofs

/-! # Where the side sectors are

    `addDataBlock` asks the file system for a sector whenever the references need
    one more.  In a run of such calls each side sector gets a sector of its own,
    which the map offers to nobody any more (`Adds.placed`); a super side block
    stands in front where the image can hold more than one cluster
    (`Adds.superFits`). -/

namespace CbmFile

open CbmLayout CbmBam CbmDisk ByteBuffer

variable {g : Geometry}

/-- Blocks on different sectors, none of which the map offers any more. -/
structure Placed (g : Geometry) (addrs : List Ref) (fs : Fs) : Prop where
  nodup : addrs.Nodup
  used : ∀ a ∈ addrs, a.2.toNat < 8 * bitBytes g.kind ∧
    freeBit g.kind fs.bam.cell a.1.toNat a.2.toNat = false

/-- No sector is freed. -/
def KeepsUsed (g : Geometry) (fs fs' : Fs) : Prop :=
  ∀ t s, s < 8 * bitBytes g.kind → freeBit g.kind fs.bam.cell t s = false →
    freeBit g.kind fs'.bam.cell t s = false

theorem Placed.keep {addrs : List Ref} {fs fs' : Fs} (h : Placed g addrs fs)
    (hkeep : KeepsUsed g fs fs') : Placed g addrs fs' where
  nodup := h.nodup
  used := fun a ha => ⟨(h.used a ha).1, hkeep _ _ (h.used a ha).1 (h.used a ha).2⟩

theorem Placed.perm {addrs addrs' : List Ref} {fs : Fs} (h : Placed g addrs fs)
    (hp : addrs.Perm addrs') : Placed g addrs' fs where
  nodup := hp.nodup h.nodup
  used := fun a ha => h.used a (hp.mem_iff.mpr ha)

/-- The sector `get_next_free_sector` gives is none of those in use. -/
theorem Placed.cons {addrs : List Ref} {fs fs' : Fs} {r : NextFree} (h : Placed g addrs fs)
    (hnext : fs.getNextFreeSector g 0 0 = some (r, fs')) (hok : r.ok = true) :
    Placed g ((UInt8.ofNat r.track, UInt8.ofNat r.sector) :: addrs) fs' := by
  obtain ⟨-, hfound | ⟨hno, -⟩⟩ := Fs.getNextFreeSector_inv hnext
  · obtain ⟨-, htrack, hf⟩ := hfound
    have hbits : 8 * bitBytes g.kind ≤ 256 := by cases g.kind <;> decide
    have hbound := hf.bound
    have ht : (UInt8.ofNat r.track).toNat = r.track := UInt8.toNat_ofNat_of_lt' htrack
    have hs : (UInt8.ofNat r.sector).toNat = r.sector :=
      UInt8.toNat_ofNat_of_lt' (Nat.lt_of_lt_of_le hbound hbits)
    constructor
    case nodup =>
      refine List.nodup_cons.mpr ⟨fun hmem => ?_, h.nodup⟩
      have hused := (h.used _ hmem).2
      dsimp only at hused
      rw [ht, hs, hf.was_free] at hused
      exact nomatch hused
    case used =>
      intro a ha
      rcases List.mem_cons.mp ha with rfl | ha
      · dsimp only
        rw [ht, hs, hf.bit _ _ hbound, decide_eq_true ⟨rfl, rfl⟩, Bool.not_true, Bool.and_false]
        exact ⟨hbound, rfl⟩
      · obtain ⟨hlt, hused⟩ := h.used a ha
        rw [hf.bit _ _ hlt, hused, Bool.false_and]
        exact ⟨hlt, rfl⟩
  · rw [hok] at hno
    exact nomatch hno

/-- The addresses of the blocks of a cluster. -/
def SideSectorCluster.addrs (c : SideSectorCluster) : List Ref := c.blocks.map CachedBlock.addr

/-- The addresses of all blocks held in memory. -/
def SideSectors.addrs (ss : SideSectors) : List Ref := ss.allBlocks.map CachedBlock.addr

theorem SideSectors.addrs_eq (ss : SideSectors) :
    ss.addrs = ss.super.toList.map CachedBlock.addr ++
      ss.clusters.flatMap SideSectorCluster.addrs := by
  rw [addrs, allBlocks, List.map_append, List.map_flatMap]
  rfl

@[simp] theorem SideSectorCluster.addrs_storeReference (c : SideSectorCluster) (t s : Nat) :
    (c.storeReference t s).addrs = c.addrs := by
  refine List.ext_getElem? fun i => ?_
  simp only [addrs, storeReference, List.getElem?_map, List.getElem?_modify]
  cases c.blocks[i]? with
  | none => rfl
  | some b =>
      show some (CachedBlock.addr (if _ then _ else b)) = some b.addr
      split <;> rfl

/-- A cluster gets at most one sector more, behind the others. -/
theorem SideSectorCluster.addrs_addDataBlock {c c' : SideSectorCluster} {fs fs' : Fs} {t s : Nat}
    (h : c.addDataBlock g t s fs = some (true, c', fs')) :
    (c'.addrs = c.addrs ∧ fs' = fs) ∨
    ∃ r, fs.getNextFreeSector g 0 0 = some (r, fs') ∧ r.ok = true ∧
      c'.addrs = c.addrs ++ [(UInt8.ofNat r.track, UInt8.ofNat r.sector)] := by
  obtain ⟨-, c₁, hensure, rfl⟩ := addDataBlock_cases h
  rw [addrs_storeReference]
  rcases ensureBlock_cases hensure with ⟨-, rfl, rfl⟩ | ⟨-, r, hnext, hok, rfl⟩
  · exact Or.inl ⟨rfl, rfl⟩
  · refine Or.inr ⟨r, hnext, hok, ?_⟩
    simp only [addrs, List.map_append, List.map_singleton]
    rfl

namespace SideSectors

variable {ss ss' : SideSectors} {refs : List Ref}

@[simp] theorem addrs_ensureCluster (ss : SideSectors) : ss.ensureCluster.addrs = ss.addrs := by
  rw [ensureCluster]
  split
  · rfl
  · rw [addrs_eq, addrs_eq]
    simp only [List.flatMap_append, List.flatMap_singleton]
    rw [show (SideSectorCluster.new ss.recordSize).addrs = [] from rfl, List.append_nil]

/-- Adding a data block keeps the side sectors apart. -/
theorem placed_addDataBlock {fs fs' : Fs} {t s : Nat} (h : ss.Has refs)
    (hp : Placed g ss.addrs fs) (hadd : ss.addDataBlock g t s fs = some (true, ss', fs')) :
    Placed g ss'.addrs fs' := by
  obtain ⟨ss₁, fs₁, hsuper, hto⟩ := addDataBlock_cases hadd
  have h₁ : ss₁.Has refs ∧ Placed g ss₁.addrs fs₁ := by
    rcases ensureSuper_cases hsuper with ⟨-, rfl, rfl⟩ | ⟨-, hnone, r, hnext, hok, rfl⟩
    · exact ⟨h, hp⟩
    · refine ⟨⟨h.datablocks, h.length, h.cluster⟩, ?_⟩
      have haddrs := hp.cons hnext hok
      rw [addrs_eq] at haddrs ⊢
      rw [hnone] at haddrs
      exact haddrs
  obtain ⟨hdata, hlen, -⟩ := h₁.1.ensureCluster
  obtain ⟨c, c', hc, hcadd, rfl⟩ := addToCluster_cases hto
  -- the cluster is the last one
  obtain ⟨before, hbefore⟩ : ∃ before, ss₁.ensureCluster.clusters = before ++ [c] := by
    refine ⟨ss₁.ensureCluster.clusters.dropLast, ?_⟩
    have hne : ss₁.ensureCluster.clusters ≠ [] := by
      intro hnil
      rw [hnil] at hlen
      exact nomatch hlen
    have hlast : ss₁.ensureCluster.clusters.getLast hne = c := by
      rw [List.getLast_eq_getElem]
      have hat : ss₁.ensureCluster.clusters.length - 1 = ss₁.ensureCluster.datablocks / 720 := by
        omega
      exact Option.some.inj ((List.getElem?_eq_getElem (by omega)).symm.trans (hat ▸ hc))
    rw [← hlast, List.dropLast_concat_getLast hne]
  have hset : ss₁.ensureCluster.clusters.set (ss₁.ensureCluster.datablocks / 720) c'
      = before ++ [c'] := by
    have hat : ss₁.ensureCluster.datablocks / 720 = before.length := by
      rw [hbefore, List.length_append, List.length_singleton] at hlen
      omega
    rw [hbefore, hat, List.set_append_right _ _ (Nat.le_refl _), Nat.sub_self]
    rfl
  have hplaced := h₁.2
  rw [← addrs_ensureCluster, addrs_eq, hbefore, List.flatMap_append, List.flatMap_singleton,
    ← List.append_assoc] at hplaced
  rw [addrs_eq]
  show Placed g (_ ++ List.flatMap _ (List.set _ _ _)) fs'
  rw [hset, List.flatMap_append, List.flatMap_singleton, ← List.append_assoc]
  rcases SideSectorCluster.addrs_addDataBlock hcadd with ⟨haddrs, rfl⟩ | ⟨r, hnext, hok, haddrs⟩
  · rw [haddrs]
    exact hplaced
  · rw [haddrs, ← List.append_assoc]
    exact (hplaced.cons hnext hok).perm (List.perm_append_singleton _ _).symm

/-- Calls of `addDataBlock` that all succeeded, on an object that was just made.
    Between them the caller uses the image as it likes, but frees no sector. -/
inductive Adds (g : Geometry) : SideSectors → Fs → List Ref → Prop where
  | start (recordSize : UInt8) (fs : Fs) : Adds g (new g recordSize) fs []
  | caller {ss : SideSectors} {fs fs' : Fs} {refs : List Ref} :
      Adds g ss fs refs → KeepsUsed g fs fs' → Adds g ss fs' refs
  | add {ss ss' : SideSectors} {fs fs' : Fs} {refs : List Ref} {r : Ref} :
      Adds g ss fs refs → ss.addDataBlock g r.1.toNat r.2.toNat fs = some (true, ss', fs') →
      Adds g ss' fs' (refs ++ [r])

theorem Adds.has {fs : Fs} (h : Adds g ss fs refs) : ss.Has refs := by
  induction h with
  | start recordSize _ => exact has_new recordSize
  | caller _ _ ih => exact ih
  | @add _ _ _ _ _ r _ hadd ih =>
      have hnext := ih.addDataBlock hadd
      rw [UInt8.ofNat_toNat, UInt8.ofNat_toNat] at hnext
      exact hnext

theorem Adds.placed {fs : Fs} (h : Adds g ss fs refs) : Placed g ss.addrs fs := by
  induction h with
  | start _ _ => exact ⟨List.nodup_nil, fun a ha => absurd ha List.not_mem_nil⟩
  | caller _ hkeep ih => exact ih.keep hkeep
  | add hadds hadd ih => exact placed_addDataBlock hadds.has ih hadd

/-- The super side block: made by the first call where one is required, and kept. -/
theorem super_addDataBlock {fs fs' : Fs} {t s : Nat}
    (hadd : ss.addDataBlock g t s fs = some (true, ss', fs')) :
    ss'.doSuper = ss.doSuper ∧
    ((¬ (ss.doSuper = true ∧ ss.super.isNone = true) ∧ ss'.super = ss.super) ∨
      (ss.doSuper = true ∧ ∃ t' s', ss'.super = some (newSuper t' s'))) := by
  obtain ⟨ss₁, fs₁, hsuper, hto⟩ := addDataBlock_cases hadd
  obtain ⟨c, c', -, -, rfl⟩ := addToCluster_cases hto
  have hsame : ss₁.ensureCluster.doSuper = ss₁.doSuper ∧ ss₁.ensureCluster.super = ss₁.super := by
    rw [ensureCluster]
    split <;> exact ⟨rfl, rfl⟩
  show ss₁.ensureCluster.doSuper = ss.doSuper ∧
    ((_ ∧ ss₁.ensureCluster.super = ss.super) ∨ (_ ∧ ∃ t' s', ss₁.ensureCluster.super = _))
  rw [hsame.1, hsame.2]
  rcases ensureSuper_cases hsuper with ⟨hno, rfl, -⟩ | ⟨hdo, -, r, -, -, rfl⟩
  · exact ⟨rfl, Or.inl ⟨hno, rfl⟩⟩
  · exact ⟨rfl, Or.inr ⟨hdo, _, _, rfl⟩⟩

/-- A super side block has its marker, and none is missing where the image is too
    large for one cluster. -/
structure SuperFits (g : Geometry) (ss : SideSectors) (refs : List Ref) : Prop where
  doSuper : ss.doSuper = decide (g.numSectors > 720)
  marker : ∀ b, ss.super = some b → b.data.get 2 = 0xFE
  super_of_large : ss.super = none → refs = [] ∨ g.numSectors ≤ 720

theorem Adds.superFits {fs : Fs} (h : Adds g ss fs refs) : SuperFits g ss refs := by
  induction h with
  | start _ _ => exact ⟨rfl, (fun _ hb => nomatch hb), fun _ => Or.inl rfl⟩
  | caller _ _ ih => exact ih
  | add _ hadd ih =>
      obtain ⟨hdo, ⟨hno, hsame⟩ | ⟨-, t', s', hnew⟩⟩ := super_addDataBlock hadd
      · refine ⟨hdo.trans ih.doSuper, fun b hb => ih.marker b (hsame ▸ hb), ?_⟩
        intro hnone
        refine Or.inr (Nat.le_of_not_lt fun hlarge => hno ⟨?_, ?_⟩)
        · rw [ih.doSuper, decide_eq_true hlarge]
        · rw [← hsame, hnone]
          rfl
      · refine ⟨hdo.trans ih.doSuper, ?_, ?_⟩
        · intro b hb
          rw [hnew] at hb
          cases hb
          exact Buffer.get_set_self _ (by decide) _
        · intro hnone
          rw [hnew] at hnone
          exact nomatch hnone

end SideSectors

end CbmFile
