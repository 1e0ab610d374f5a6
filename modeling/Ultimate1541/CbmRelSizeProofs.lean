import Ultimate1541.CbmSideSectorReloadProofs
import Ultimate1541.CbmFileProofs

/-! # The size of a REL file

    `get_file_size` adds up the clusters.  A full cluster counts as 720 full
    blocks; in another one the last block is read, past the window, to see how many
    bytes it holds.  So the last block of a file of 720 blocks, or of a multiple of
    720, is taken for full whatever it holds (`getSize_iff`). -/

namespace CbmFile

open CbmLayout CbmBam CbmDisk ByteBuffer

namespace SideSectors

variable {g : Geometry} {fs : Fs} {refs : List Ref}

/-- An open REL file: its blocks are `refs`, and the last of them, on sector `a`,
    holds `b` bytes. -/
structure RelFile (g : Geometry) (f : FileInCBM) (ss : SideSectors) (refs : List Ref)
    (a b : Nat) : Prop where
  side : f.side = some ss
  header : f.header.size = 2
  has : ss.Has refs
  blocks : DataBlocks g refs
  last : ∃ r, refs.getLast? = some r ∧ absSector g r.1.toNat r.2.toNat = some a
  final : (f.fs.view a).get 0 = 0
  bytes : ((f.fs.view a).get 1).toNat = b + 1
  pos : 1 ≤ b

/-- Addresses are two bytes. -/
theorem DataBlocks.length_le_bytes (h : DataBlocks g refs) : refs.length ≤ 65536 := by
  refine length_le_of_number (fun r => 256 * r.1.toNat + r.2.toNat) h.nodup ?_ ?_
  · intro r _ q _ heq
    have heq' : 256 * r.1.toNat + r.2.toNat = 256 * q.1.toNat + q.2.toNat := heq
    have hr := r.2.toNat_lt
    have hq := q.2.toNat_lt
    exact Prod.ext (UInt8.toNat_inj.mp (by omega)) (UInt8.toNat_inj.mp (by omega))
  · intro r _
    have h1 := r.1.toNat_lt
    have h2 := r.2.toNat_lt
    omega

/-- What a cluster adds to the size: a full one 720 blocks, another one what the
    medium says about its last block. -/
theorem cluster_size {c : SideSectorCluster} {part : List Ref} (h : c.Has part) {r : Ref}
    (hr : part.getLast? = some r) {a : Nat} (ha : absSector g r.1.toNat r.2.toNat = some a)
    (junk : Indeterminate) :
    SideSectorCluster.getFileSize g junk c fs =
      if part.length = 720 then 720 * 254
      else 254 * ((part.length : Int) - 1) + ((fs.disk a).get 1).toNat - 1 := by
  rw [SideSectorCluster.getFileSize, h.datablocks]
  by_cases hfull : part.length = 720
  · rw [if_pos hfull, if_pos hfull]
  · rw [if_neg hfull, if_neg hfull]
    have hne : part ≠ [] := by
      rintro rfl
      exact nomatch hr
    have hpos := List.length_pos_iff.mpr hne
    have hlast : part[part.length - 1]? = some r := by
      rw [← List.getLast?_eq_getElem?, hr]
    have htrack : r.1 ≠ 0 := by
      intro hzero
      rw [hzero] at ha
      exact nomatch (absSector_zero g _).symm.trans ha
    have hsector : prtReadAt g fs (r.1.toNat : Int) (r.2.toNat : Int) = some (fs.disk a) := by
      rw [prtReadAt_bind, ha, Option.bind_some, Fs.prtRead, if_pos (absSector_lt ha)]
    dsimp only
    rw [if_neg (Nat.ne_of_gt hpos), h.seek hlast htrack, hsector]

theorem sum_full {cs : List SideSectorCluster} {size : SideSectorCluster → Int}
    (h : ∀ c ∈ cs, size c = 720 * 254) : (cs.map size).sum = 720 * 254 * cs.length := by
  induction cs with
  | nil => rfl
  | cons c cs ih =>
      rw [List.map_cons, List.sum_cons, h c List.mem_cons_self,
        ih fun d hd => h d (List.mem_cons_of_mem _ hd), List.length_cons]
      omega

/-- The last reference is the last one of the last cluster. -/
theorem getLast?_chunk {r : Ref} (hr : refs.getLast? = some r) :
    (chunk refs ((refs.length - 1) / 720)).getLast? = some r := by
  have hne : refs ≠ [] := by
    rintro rfl
    exact nomatch hr
  have hpos := List.length_pos_iff.mpr hne
  rw [List.getLast?_eq_getElem?] at hr ⊢
  rw [length_chunk, getElem?_chunk _ _ (by omega), ← hr]
  congr 1
  omega

/-- The sum over the clusters: all blocks but the last one count 254 bytes. -/
theorem sum_size {ss : SideSectors} (h : ss.Has refs) {r : Ref} (hr : refs.getLast? = some r)
    {a : Nat} (ha : absSector g r.1.toNat r.2.toNat = some a) (junk : Indeterminate) :
    (ss.clusters.map fun c => SideSectorCluster.getFileSize g junk c fs).sum =
      if 720 ∣ refs.length then 254 * (refs.length : Int)
      else 254 * ((refs.length : Int) - 1) + ((fs.disk a).get 1).toNat - 1 := by
  have hlast := getLast?_chunk hr
  have hpos : 0 < refs.length := by
    cases refs with
    | nil => exact nomatch hr
    | cons _ _ => exact Nat.succ_pos _
  have hlength := h.length
  have hne : ss.clusters ≠ [] := by
    rw [← List.length_pos_iff]
    omega
  have hget : ss.clusters[(refs.length - 1) / 720]? = some (ss.clusters.getLast hne) := by
    rw [show (refs.length - 1) / 720 = ss.clusters.length - 1 by omega,
      ← List.getLast?_eq_getElem?, List.getLast?_eq_getLast_of_ne_nil hne]
  have hend := @cluster_size g fs _ _ (h.cluster _ _ hget) r hlast a ha junk
  have hfull : ∀ c ∈ ss.clusters.dropLast,
      SideSectorCluster.getFileSize g junk c fs = 720 * 254 := by
    intro c hc
    obtain ⟨i, hi⟩ := List.getElem?_of_mem hc
    have hlt := (List.getElem?_eq_some_iff.mp hi).1
    rw [List.length_dropLast] at hlt
    rw [List.getElem?_dropLast, if_pos hlt] at hi
    have hdata := (h.cluster i c hi).datablocks
    rw [length_chunk] at hdata
    rw [SideSectorCluster.getFileSize, if_pos (by omega)]
  rw [← List.dropLast_concat_getLast hne, List.map_append, List.sum_append, sum_full hfull,
    List.map_singleton, List.sum_singleton, hend, List.length_dropLast, length_chunk, hlength]
  by_cases hdvd : 720 ∣ refs.length
  · rw [if_pos hdvd, if_pos (by omega)]
    omega
  · rw [if_neg hdvd, if_neg (by omega)]
    omega

/-- **THE SIZE OF A REL FILE** is right if and only if the last block is full where it
    is the 720th of its cluster, and elsewhere the medium has the count of its bytes
    that the file system sees. -/
theorem getSize_iff {f : FileInCBM} {ss : SideSectors} {a b : Nat}
    (h : RelFile g f ss refs a b) (junk : Indeterminate) :
    (ss.getFileSize g junk f.fs = 254 * (refs.length - 1) + b ∧
      f.getSize g junk = some (254 * (refs.length - 1) + b + 2, f)) ↔
    (if 720 ∣ refs.length then b = 254 else (f.fs.disk a).get 1 = (f.fs.view a).get 1) := by
  obtain ⟨r, hr, ha⟩ := h.last
  have hpos : 0 < refs.length := by
    cases hrefs : refs with
    | nil =>
        rw [hrefs] at hr
        exact nomatch hr
    | cons _ _ => exact Nat.succ_pos _
  have hle := h.blocks.length_le_bytes
  have hsize : (ss.getFileSize g junk f.fs : Int) =
      (if 720 ∣ refs.length then 254 * (refs.length : Int)
      else 254 * ((refs.length : Int) - 1) + ((f.fs.disk a).get 1).toNat - 1) % 2 ^ 32 := by
    rw [getFileSize, sum_size h.has hr ha junk]
    exact Int.toNat_of_nonneg (Int.emod_nonneg _ (by decide))
  have hb := h.bytes
  have hbound := ((f.fs.view a).get 1).toNat_lt
  have hdisk := ((f.fs.disk a).get 1).toNat_lt
  have hget : f.getSize g junk = some ((2 + ss.getFileSize g junk f.fs) % 2 ^ 32, f) := by
    rw [FileInCBM.getSize, h.side, h.header]
  have hiff : (ss.getFileSize g junk f.fs = 254 * (refs.length - 1) + b) ↔
      (if 720 ∣ refs.length then b = 254 else (f.fs.disk a).get 1 = (f.fs.view a).get 1) := by
    by_cases hdvd : 720 ∣ refs.length
    · rw [if_pos hdvd] at hsize ⊢
      omega
    · rw [if_neg hdvd] at hsize ⊢
      rw [← UInt8.toNat_inj]
      omega
  rw [hget, ← hiff]
  refine ⟨And.left, fun heq => ⟨heq, ?_⟩⟩
  rw [heq, Nat.mod_eq_of_lt (by omega), Nat.add_comm]

/-! ## Files of one cluster -/

/-- Side sector `i` of a file with these blocks. -/
def sideSector (refs : List Ref) (i : Nat) : CachedBlock where
  track := 0
  sector := 0
  data := fun j =>
    let r := refs.getD (120 * i + (j.val - 16) / 2) (0, 0)
    if j.val % 2 = 0 then r.1 else r.2

/-- The side sectors of a file of at most 720 blocks. -/
def oneCluster (refs : List Ref) : SideSectors where
  datablocks := refs.length
  recordSize := 0
  doSuper := false
  super := none
  clusters := [⟨refs.length, 0, (List.range ((refs.length + 119) / 120)).map (sideSector refs)⟩]

theorem oneCluster_has (hpos : 0 < refs.length) (hbound : refs.length ≤ 720) :
    (oneCluster refs).Has refs where
  datablocks := rfl
  length := by
    show 1 = _
    omega
  cluster := by
    intro i c hc
    cases i with
    | succ i => exact nomatch hc
    | zero =>
        cases hc
        rw [show chunk refs 0 = refs from List.take_of_length_le hbound]
        refine ⟨rfl, hbound, by rw [List.length_map, List.length_range], fun k r hr => ?_⟩
        have hk := (List.getElem?_eq_some_iff.mp hr).1
        refine ⟨sideSector refs (k / 120), ?_, ?_⟩
        · rw [List.getElem?_map, List.getElem?_range (by omega)]
          rfl
        · have hat : 120 * (k / 120) + k % 120 = k := Nat.div_add_mod k 120
          have hd : refs.getD k (0, 0) = r := by rw [List.getD_eq_getElem?_getD, hr, Option.getD_some]
          rw [CachedBlock.reference, Buffer.get_eq _ (by omega), Buffer.get_eq _ (by omega)]
          simp only [sideSector]
          rw [if_pos (by omega), if_neg (by omega),
            show (16 + 2 * (k % 120) - 16) / 2 = k % 120 by omega,
            show (17 + 2 * (k % 120) - 16) / 2 = k % 120 by omega, hat, hd]

/-- A 1581 image whose sector `a` is the end of a chain, with `b` bytes. -/
def endingAt (a b : Nat) : Fs := mounted fun x =>
  if x = a then fun i => if i.val = 1 then UInt8.ofNat (b + 1) else 0 else Buffer.zero

/-- An open REL file with these blocks, the last one on sector `a` with `b` bytes. -/
def relFile (refs : List Ref) (a b : Nat) : FileInCBM :=
  { FileInCBM.new ⟨.d81, 3200⟩ (endingAt a b) (fun _ => 0) 40 3 0 with
    header := ⟨0, 2, Buffer.zero⟩, isRel := true, side := some (oneCluster refs) }

/-- The first `n` sectors of the image. -/
def firstSectors (n : Nat) : List Ref :=
  (List.range n).map fun i => (UInt8.ofNat (1 + i / 40), UInt8.ofNat (i % 40))

theorem firstSectors_blocks : DataBlocks ⟨.d81, 3200⟩ (firstSectors 720) where
  nodup := by
    refine List.Nodup.map_on (fun i hi j hj heq => ?_) List.nodup_range
    rw [List.mem_range] at hi hj
    have ht := congrArg (fun r : Ref => r.1.toNat) heq
    have hs := congrArg (fun r : Ref => r.2.toNat) heq
    dsimp only at ht hs
    rw [UInt8.toNat_ofNat_of_lt' (Nat.lt_of_le_of_lt (show 1 + i / 40 ≤ 18 by omega) (by decide)),
      UInt8.toNat_ofNat_of_lt' (Nat.lt_of_le_of_lt (show 1 + j / 40 ≤ 18 by omega) (by decide))] at ht
    rw [UInt8.toNat_ofNat_of_lt' (Nat.lt_of_le_of_lt (show i % 40 ≤ 39 by omega) (by decide)),
      UInt8.toNat_ofNat_of_lt' (Nat.lt_of_le_of_lt (show j % 40 ≤ 39 by omega) (by decide))] at hs
    omega
  onImage := by
    intro r hr
    obtain ⟨i, hi, rfl⟩ := List.mem_map.mp hr
    have hall : ∀ i < 720, (absSector ⟨.d81, 3200⟩ (UInt8.ofNat (1 + i / 40)).toNat
        (UInt8.ofNat (i % 40)).toNat).isSome = true := by decide +kernel
    exact Option.isSome_iff_exists.mp (hall i (List.mem_range.mp hi))

/-- The size of a file of one block is right. -/
theorem getSize_iff_oneBlock :
    (oneCluster [(1, 0)]).getFileSize ⟨.d81, 3200⟩ ⟨0, 0, 0⟩ (endingAt 0 100) = 254 * (1 - 1) + 100 ∧
      (relFile [(1, 0)] 0 100).getSize ⟨.d81, 3200⟩ ⟨0, 0, 0⟩
        = some (254 * (1 - 1) + 100 + 2, relFile [(1, 0)] 0 100) :=
  (@getSize_iff ⟨.d81, 3200⟩ [(1, 0)] (relFile [(1, 0)] 0 100) (oneCluster [(1, 0)]) 0 100
    { side := rfl
      header := rfl
      has := oneCluster_has (by decide) (by decide)
      blocks := ⟨by decide, fun r hr => ⟨0, by rw [List.mem_singleton.mp hr]; decide +kernel⟩⟩
      last := ⟨(1, 0), rfl, by decide +kernel⟩
      final := by decide +kernel
      bytes := by decide +kernel
      pos := by decide } ⟨0, 0, 0⟩).mpr (by decide +kernel)

/-- The last block of a file of 720 holds 100 bytes, and counts 254. -/
theorem fullCluster_size :
    RelFile ⟨.d81, 3200⟩ (relFile (firstSectors 720) 719 100) (oneCluster (firstSectors 720))
      (firstSectors 720) 719 100 ∧
    (oneCluster (firstSectors 720)).getFileSize ⟨.d81, 3200⟩ ⟨0, 0, 0⟩ (endingAt 719 100)
      ≠ 254 * (720 - 1) + 100 := by
  have hlen : (firstSectors 720).length = 720 := by rw [firstSectors, List.length_map, List.length_range]
  refine ⟨?_, ?_⟩
  · exact
    { side := rfl
      header := rfl
      has := oneCluster_has (by rw [hlen]; decide) (by rw [hlen])
      blocks := firstSectors_blocks
      last := ⟨(18, 39), by decide +kernel, by decide +kernel⟩
      final := by decide +kernel
      bytes := by decide +kernel
      pos := by decide }
  · decide +kernel

end SideSectors

end CbmFile
