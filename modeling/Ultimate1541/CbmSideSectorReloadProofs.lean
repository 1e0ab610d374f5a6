import Ultimate1541.CbmSideSectorLoadProofs

/-! # What was added is what is loaded

    Data blocks are added one by one; then the side sectors are validated and
    written, past the window, and a fresh object loads them from the sector they
    start at.  It finds every reference where it was added (`load_restores`), with
    or without a super side block, as long as the window of the image is not on
    one of the side sectors. -/

namespace CbmFile

open CbmLayout CbmBam CbmDisk ByteBuffer

variable {g : Geometry}

/-! ## Writing past the window -/

/-- The sector a block is written to. -/
def CachedBlock.sectorOf (g : Geometry) (b : CachedBlock) : Option Nat :=
  absSector g b.track.toNat b.sector.toNat

theorem CachedBlock.addr_of_sectorOf {b d : CachedBlock} {a : Nat} (hb : b.sectorOf g = some a)
    (hd : d.sectorOf g = some a) : b.addr = d.addr := by
  obtain ⟨ht, hs⟩ := absSector_inj hb hd
  exact Prod.ext (UInt8.toNat_inj.mp ht) (UInt8.toNat_inj.mp hs)

/-- Blocks that were written are on the image, and no other sector has changed. -/
theorem writeBlocks_ok {bs : List CachedBlock} (hnodup : (bs.map CachedBlock.addr).Nodup) :
    ∀ {fs fs' : Fs}, writeBlocks g bs fs = (.ok, fs') →
      (∃ disk, fs' = { fs with disk := disk }) ∧
      (∀ b ∈ bs, ∃ a, b.sectorOf g = some a ∧ a < g.numSectors ∧ fs'.disk a = b.data) ∧
      ∀ a, (∀ b ∈ bs, b.sectorOf g ≠ some a) → fs'.disk a = fs.disk a := by
  induction bs with
  | nil =>
      intro fs fs' h
      cases h
      exact ⟨⟨fs.disk, rfl⟩, fun b hb => absurd hb List.not_mem_nil, fun _ _ => rfl⟩
  | cons b bs ih =>
      intro fs fs' h
      rw [List.map_cons, List.nodup_cons] at hnodup
      rw [writeBlocks] at h
      cases ha : b.sectorOf g with
      | none =>
          rw [CachedBlock.sectorOf] at ha
          rw [ha] at h
          exact nomatch h
      | some a =>
          have ha' : absSector g b.track.toNat b.sector.toNat = some a := ha
          rw [ha', Fs.prtWrite, if_pos (absSector_lt ha')] at h
          obtain ⟨⟨disk, hdisk⟩, hwritten, hframe⟩ := ih hnodup.2 h
          refine ⟨⟨disk, hdisk⟩, ?_, ?_⟩
          · intro d hd
            rcases List.mem_cons.mp hd with rfl | hd
            · refine ⟨a, ha, absSector_lt ha', ?_⟩
              rw [hframe a fun x hx hxa => hnodup.1 ?_]
              · exact Function.update_self ..
              · rw [CachedBlock.addr_of_sectorOf ha hxa]
                exact List.mem_map_of_mem hx
            · exact hwritten d hd
          · intro x hx
            rw [hframe x fun d hd => hx d (List.mem_cons_of_mem _ hd)]
            exact Function.update_of_ne (show x ≠ a from fun hxa => hx b List.mem_cons_self (hxa ▸ ha)) ..

/-- The window is on none of the sectors, and what it holds can be written back. -/
structure Apart (g : Geometry) (addrs : List Ref) (fs : Fs) : Prop where
  off : ∀ r ∈ addrs, ∀ a, absSector g r.1.toNat r.2.toNat = some a → fs.currentSector ≠ some a
  inRange : fs.dirty = true → ∃ a < g.numSectors, fs.currentSector = some a

/-- Moving the window to a sector reads it, and writes to no sector but its own. -/
theorem moveWindow_off {fs : Fs} (hrange : fs.dirty = true → ∃ a < g.numSectors,
    fs.currentSector = some a) {a : Nat} (ha : a < g.numSectors) (hoff : fs.currentSector ≠ some a) :
    ∃ fs', fs.moveWindow g (some a) = (.ok, fs') ∧ fs'.sectBuffer = fs'.disk a ∧
      ∀ x, fs.currentSector ≠ some x → fs'.disk x = fs.disk x := by
  rw [Fs.moveWindow, if_neg hoff]
  cases hd : fs.dirty with
  | false =>
      rw [if_neg Bool.false_ne_true]
      dsimp only
      rw [Fs.prtRead, if_pos ha]
      exact ⟨_, rfl, rfl, fun _ _ => rfl⟩
  | true =>
      obtain ⟨c, hlt, hc⟩ := hrange hd
      rw [if_pos rfl, hc, Fs.prtWrite, if_pos hlt]
      dsimp only
      rw [Fs.prtRead, if_pos ha]
      refine ⟨_, rfl, rfl, fun x hx => ?_⟩
      exact Function.update_of_ne (show x ≠ c from fun hxc => hx (hxc ▸ rfl)) ..

namespace SideSectors

variable {ss ss' : SideSectors} {refs : List Ref} {fs : Fs}

/-! ## What the calls leave -/

/-- No block of a cluster has a link yet. -/
def Unlinked (ss : SideSectors) : Prop := ∀ c ∈ ss.clusters, ∀ b ∈ c.blocks, b.data.get 0 = 0

theorem unlinked_storeReference {c : SideSectorCluster} (h : ∀ b ∈ c.blocks, b.data.get 0 = 0)
    (t s : Nat) : ∀ b ∈ (c.storeReference t s).blocks, b.data.get 0 = 0 := by
  intro b' hb'
  obtain ⟨i, hi⟩ := List.getElem?_of_mem hb'
  rw [SideSectorCluster.storeReference, List.getElem?_modify] at hi
  obtain ⟨b, hb, rfl⟩ := Option.map_eq_some_iff.mp hi
  have h0 := h b (List.mem_of_getElem? hb)
  split
  · rw [SideSectorCluster.setReference, Buffer.get_set_of_ne _ (by omega),
      Buffer.get_set_of_ne _ (by omega), h0]
  · exact h0

theorem Unlinked.addDataBlock {fs' : Fs} {t s : Nat} (h : ss.Unlinked)
    (hadd : ss.addDataBlock g t s fs = some (true, ss', fs')) : ss'.Unlinked := by
  obtain ⟨ss₁, fs₁, hsuper, hto⟩ := addDataBlock_cases hadd
  have h₁ : ss₁.ensureCluster.Unlinked := by
    have hsame : ss₁.clusters = ss.clusters := by
      rcases ensureSuper_cases hsuper with ⟨-, rfl, -⟩ | ⟨-, -, r, -, -, rfl⟩ <;> rfl
    rw [ensureCluster]
    split
    · exact fun c hc => h c (hsame ▸ hc)
    · intro c hc
      rcases List.mem_append.mp hc with hc | hc
      · exact h c (hsame ▸ hc)
      · rw [List.mem_singleton.mp hc]
        exact fun b hb => absurd hb List.not_mem_nil
  obtain ⟨c, c', hc, hcadd, rfl⟩ := addToCluster_cases hto
  obtain ⟨-, c₁, hensure, rfl⟩ := SideSectorCluster.addDataBlock_cases hcadd
  have hc0 := h₁ c (List.mem_of_getElem? hc)
  intro d hd
  rcases List.mem_or_eq_of_mem_set hd with hd | rfl
  · exact h₁ d hd
  · refine unlinked_storeReference ?_ t s
    rcases SideSectorCluster.ensureBlock_cases hensure with ⟨-, rfl, -⟩ | ⟨-, r, -, -, rfl⟩
    · exact hc0
    · intro b hb
      rcases List.mem_append.mp hb with hb | hb
      · exact hc0 b hb
      · rw [List.mem_singleton.mp hb, SideSectorCluster.newBlock,
          Buffer.get_set_of_ne _ (by decide), Buffer.get_set_of_ne _ (by decide), Buffer.get_zero]

theorem Adds.unlinked (h : Adds g ss fs refs) : ss.Unlinked := by
  induction h with
  | start _ _ => exact fun c hc => absurd hc List.not_mem_nil
  | caller _ _ ih => exact ih
  | add _ hadd ih => exact ih.addDataBlock hadd

theorem Adds.row (h : Adds g ss fs refs) : Row ss.clusters := by
  have hhas := h.has
  have hunlinked := h.unlinked
  have hlength := hhas.length
  constructor
  case built =>
    intro c hc
    obtain ⟨i, hi⟩ := List.getElem?_of_mem hc
    have hlt := (List.getElem?_eq_some_iff.mp hi).1
    have hci := hhas.cluster i c hi
    have hdata := hci.datablocks
    have hblocks := hci.blocks
    rw [length_chunk] at hdata hblocks
    refine ⟨?_, ?_, ?_, hunlinked c hc⟩
    · omega
    · omega
    · rw [hblocks, hdata]
  case full =>
    intro c hc
    obtain ⟨i, hi⟩ := List.getElem?_of_mem hc
    have hlt := (List.getElem?_eq_some_iff.mp hi).1
    rw [List.length_dropLast] at hlt
    rw [List.getElem?_dropLast, if_pos hlt] at hi
    have hdata := (hhas.cluster i c hi).datablocks
    rw [length_chunk] at hdata
    omega

/-! ## What `validate` makes of it -/

/-- The super side block keeps its marker, and leads to the first cluster. -/
theorem get_superReferences {j : Nat} (hj : j < 3) (cs : List SideSectorCluster) :
    ∀ (i : Nat) (b : Block), (superReferences i cs b).get j = b.get j := by
  induction cs with
  | nil => exact fun _ _ => rfl
  | cons c cs ih =>
      intro i b
      rw [superReferences, ih, Buffer.get_set_of_ne _ (by omega), Buffer.get_set_of_ne _ (by omega)]

/-- Without a super side block there is one cluster at most. -/
theorem clusters_validate (recSize : UInt8) (h : ss.super = none → ss.clusters.length ≤ 1) :
    (ss.validate recSize).clusters = validateClusters recSize ss.clusters := by
  rw [validate]
  cases hs : ss.super with
  | some b => rfl
  | none =>
      cases hc : ss.clusters with
      | nil => exact hc
      | cons c cs =>
          have hlen := h hs
          rw [hc] at hlen
          have hnil : cs = [] := List.eq_nil_of_length_eq_zero (Nat.le_zero.mp (Nat.le_of_succ_le_succ hlen))
          rw [hnil]
          rfl

theorem super_validate (recSize : UInt8) :
    (ss.validate recSize).super = ss.super.map fun b =>
      { b with data := superReferences 0 ss.clusters (match ss.clusters with
        | [] => b.data
        | c :: _ => (b.data.set 0 c.getTrackSector.1).set 1 c.getTrackSector.2) } := by
  rw [validate]
  cases hs : ss.super with
  | some b => rfl
  | none =>
      cases ss.clusters with
      | nil => exact hs
      | cons c cs => rfl

theorem flatMap_addrs {cs cs' : List SideSectorCluster} (h : List.Forall₂ SideSectorCluster.Kept cs cs') :
    cs'.flatMap SideSectorCluster.addrs = cs.flatMap SideSectorCluster.addrs := by
  induction h with
  | nil => rfl
  | cons hkept _ ih => rw [List.flatMap_cons, List.flatMap_cons, hkept.addrs, ih]

/-- `validate` moves no block. -/
theorem addrs_validate (recSize : UInt8) (h : ss.super = none → ss.clusters.length ≤ 1)
    (hlen : ∀ c ∈ ss.clusters, c.blocks.length ≤ 6) :
    (ss.validate recSize).addrs = ss.addrs := by
  rw [addrs_eq, addrs_eq, clusters_validate recSize h, super_validate]
  congr 1
  · cases ss.super <;> rfl
  · exact flatMap_addrs (forall₂_validateClusters recSize hlen)

/-- Every side sector carries the table of its cluster. -/
def Tables (cs : List SideSectorCluster) : Prop :=
  ∀ c ∈ cs, ∀ b ∈ c.blocks, b.data.slice 4 12 = c.localReferences

theorem tables_validateClusters (recSize : UInt8) {cs : List SideSectorCluster}
    (hlen : ∀ c ∈ cs, c.blocks.length ≤ 6) : Tables (validateClusters recSize cs) := by
  induction cs with
  | nil => exact fun c hc => absurd hc List.not_mem_nil
  | cons c cs ih =>
      have hc := hlen c List.mem_cons_self
      have hkept := SideSectorCluster.kept_validate hc recSize
      have htable : ∀ b ∈ (c.validate recSize).blocks, b.data.slice 4 12 = c.localReferences := by
        intro b' hb'
        obtain ⟨i, hi⟩ := List.getElem?_of_mem hb'
        rw [SideSectorCluster.getElem?_validate] at hi
        obtain ⟨b, -, rfl⟩ := Option.map_eq_some_iff.mp hi
        exact SideSectorCluster.table_validateBlock _ _ _ _ _
          (SideSectorCluster.length_localReferences hc)
      have hlocal : (c.validate recSize).localReferences = c.localReferences := by
        rw [SideSectorCluster.localReferences_addrs, hkept.addrs,
          ← SideSectorCluster.localReferences_addrs]
      intro d hd
      rcases List.mem_cons.mp hd with rfl | hd
      · cases cs with
        | nil => exact fun b hb => (htable b hb).trans hlocal.symm
        | cons e es =>
            intro b' hb'
            have hlinked := kept_linkLast e.getTrackSector (c.validate recSize)
            rw [SideSectorCluster.localReferences_addrs, hlinked.addrs,
              ← SideSectorCluster.localReferences_addrs, hlocal]
            obtain ⟨i, hi⟩ := List.getElem?_of_mem hb'
            rw [getElem?_linkLast] at hi
            obtain ⟨b, hb, rfl⟩ := Option.map_eq_some_iff.mp hi
            have hb0 := htable b (List.mem_of_getElem? hb)
            split
            · rw [Buffer.slice_set_outside _ _ (by omega), Buffer.slice_set_outside _ _ (by omega),
                hb0]
            · exact hb0
      · exact ih (fun x hx => hlen x (List.mem_cons_of_mem _ hx)) d hd

/-- The clusters hold as many references as were added. -/
theorem sum_datablocks {cs : List SideSectorCluster} (hlength : cs.length = (refs.length + 719) / 720)
    (hcluster : ∀ i (c : SideSectorCluster), cs[i]? = some c → c.Has (chunk refs i)) :
    (cs.map SideSectorCluster.datablocks).sum = refs.length := by
  have hrange : ∀ m, ((List.range m).map fun i => min 720 (refs.length - 720 * i)).sum
      = min refs.length (720 * m) := by
    intro m
    induction m with
    | zero => exact (Nat.min_zero _).symm
    | succ m ih =>
        rw [List.range_succ, List.map_append, List.sum_append, ih, List.map_singleton,
          List.sum_singleton]
        omega
  have heq : cs.map SideSectorCluster.datablocks
      = (List.range cs.length).map fun i => min 720 (refs.length - 720 * i) := by
    refine List.ext_getElem (by rw [List.length_map, List.length_map, List.length_range]) ?_
    intro i hi hi'
    rw [List.length_map] at hi
    rw [List.getElem_map, List.getElem_map, List.getElem_range,
      (hcluster i cs[i] (List.getElem?_eq_getElem hi)).datablocks, length_chunk]
  rw [heq, hrange, hlength]
  omega

/-- Different sectors of the image. -/
structure DataBlocks (g : Geometry) (refs : List Ref) : Prop where
  nodup : refs.Nodup
  onImage : ∀ r ∈ refs, ∃ a, absSector g r.1.toNat r.2.toNat = some a

theorem DataBlocks.track_ne (h : DataBlocks g refs) {r : Ref} (hr : r ∈ refs) : r.1 ≠ 0 := by
  intro hzero
  obtain ⟨a, ha⟩ := h.onImage r hr
  rw [hzero] at ha
  exact nomatch (absSector_zero g _).symm.trans ha

/-- Blocks that can be told apart by a number below `n` are no more than `n`. -/
theorem length_le_of_number (number : Ref → Nat) {n : Nat} (hnodup : refs.Nodup)
    (hinj : ∀ r ∈ refs, ∀ q ∈ refs, number r = number q → r = q)
    (hlt : ∀ r ∈ refs, number r < n) : refs.length ≤ n := by
  have hsub : refs.map number ⊆ List.range n := by
    intro x hx
    obtain ⟨r, hr, rfl⟩ := List.mem_map.mp hx
    exact List.mem_range.mpr (hlt r hr)
  have hle := (List.subperm_of_subset (List.Nodup.map_on hinj hnodup) hsub).length_le
  rwa [List.length_map, List.length_range] at hle

/-- A file has no more blocks than the image has sectors. -/
theorem DataBlocks.length_le (h : DataBlocks g refs) : refs.length ≤ g.numSectors := by
  refine length_le_of_number (fun r => (absSector g r.1.toNat r.2.toNat).getD 0) h.nodup ?_ ?_
  · intro r hr q hq heq
    obtain ⟨a, ha⟩ := h.onImage r hr
    obtain ⟨b, hb⟩ := h.onImage q hq
    rw [ha, hb] at heq
    have hab : a = b := heq
    obtain ⟨ht, hs⟩ := absSector_inj ha (hab ▸ hb)
    exact Prod.ext (UInt8.toNat_inj.mp ht) (UInt8.toNat_inj.mp hs)
  · intro r hr
    obtain ⟨a, ha⟩ := h.onImage r hr
    rw [ha]
    exact absSector_lt ha

/-! ## Loading it again -/

/-- An object holds the references of a file: `seek` finds block `k` at any of its
    bytes, and the side sectors agree on where they are. -/
structure Restores (g : Geometry) (ss : SideSectors) (refs : List Ref) : Prop where
  datablocks : ss.datablocks = refs.length
  seek : ∀ k r, refs[k]? = some r → ∀ offset < 254, ∀ junk t s fs,
    ss.seek g junk (254 * k + offset) t s fs = (.ok, 2 + offset, r.1.toNat, r.2.toNat)
  tables : Tables ss.clusters

theorem Adds.super_nil (h : Adds g ss fs refs) (hnil : refs = []) : ss.super = none := by
  induction h with
  | start _ _ => rfl
  | caller _ _ ih => exact ih hnil
  | add _ _ _ => exact absurd hnil (List.append_ne_nil_of_right_ne_nil _ (List.cons_ne_nil _ _))

/-- On an image of at most 720 sectors a file needs one cluster. -/
theorem Adds.length_le_one (h : Adds g ss fs refs) (hdata : DataBlocks g refs)
    (hnone : ss.super = none) : ss.clusters.length ≤ 1 := by
  have hle := hdata.length_le
  rw [h.has.length]
  rcases h.superFits.super_of_large hnone with rfl | hsmall
  · decide
  · omega

/-- The clusters that `validate` leaves restore the references. -/
theorem Adds.restores (h : Adds g ss fs refs) (hdata : DataBlocks g refs) {recSize : UInt8}
    (hclusters : ss'.clusters = validateClusters recSize ss.clusters)
    (hsum : ss'.datablocks = (ss'.clusters.map SideSectorCluster.datablocks).sum) :
    Restores g ss' refs := by
  have hhas := h.has
  have hlen : ∀ c ∈ ss.clusters, c.blocks.length ≤ 6 := fun c hc => (h.row.built c hc).length_le
  have hall := forall₂_validateClusters recSize hlen
  have hlength : ss'.clusters.length = (refs.length + 719) / 720 := by
    rw [hclusters, ← hall.length_eq, hhas.length]
  have hcluster : ∀ i (c : SideSectorCluster), ss'.clusters[i]? = some c →
      c.Has (chunk refs i) := by
    intro i c' hc'
    rw [hclusters] at hc'
    obtain ⟨hi, rfl⟩ := List.getElem?_eq_some_iff.mp hc'
    have hi' : i < ss.clusters.length := hall.length_eq ▸ hi
    have hkept := (List.forall₂_iff_get.mp hall).2 i hi' hi
    exact (hhas.cluster i _ (List.getElem?_eq_getElem hi')).kept hkept
  have hdatablocks : ss'.datablocks = refs.length := by
    rw [hsum, sum_datablocks hlength hcluster]
  refine ⟨hdatablocks, fun k r hr offset ho junk t s fs' => ?_, ?_⟩
  · have hss' : ss'.Has refs := ⟨hdatablocks, hlength, hcluster⟩
    exact hss'.seek hr (hdata.track_ne (List.mem_of_getElem? hr)) ho junk t s fs'
  · rw [hclusters]
    exact tables_validateClusters recSize hlen

/-- After the side sectors were written, the window can be moved to any of them, and
    all of them are on the image. -/
theorem Adds.window (h : Adds g ss fs refs) (hdata : DataBlocks g refs) {recSize : UInt8}
    {fs₁ : Fs} (hwrite : (ss.validate recSize).write g fs = (.ok, fs₁))
    (hapart : Apart g ss.addrs fs) {b : CachedBlock} (hb : b ∈ (ss.validate recSize).allBlocks) :
    ∃ fs₂, fs₁.moveWindow g (b.sectorOf g) = (.ok, fs₂) ∧ fs₂.sectBuffer = b.data ∧
      ∀ d ∈ (ss.validate recSize).allBlocks, OnDisk g fs₂ d := by
  have haddrs := addrs_validate recSize (h.length_le_one hdata)
    fun c hc => (h.row.built c hc).length_le
  have hnodup : (ss.validate recSize).addrs.Nodup := by
    rw [haddrs]
    exact h.placed.nodup
  obtain ⟨⟨disk, rfl⟩, hwritten, -⟩ := writeBlocks_ok hnodup hwrite
  have hoff : ∀ d ∈ (ss.validate recSize).allBlocks, ∀ a, d.sectorOf g = some a →
      fs.currentSector ≠ some a := by
    intro d hd a ha
    have hmem : d.addr ∈ (ss.validate recSize).addrs := List.mem_map_of_mem hd
    exact hapart.off d.addr (haddrs ▸ hmem) a ha
  obtain ⟨a, ha, hlt, hdata'⟩ := hwritten b hb
  obtain ⟨fs₂, hmove, hbuffer, hframe⟩ := @moveWindow_off g { fs with disk := disk }
    hapart.inRange a hlt (hoff b hb a ha)
  refine ⟨fs₂, ha ▸ hmove, ?_, fun d hd => ?_⟩
  · rw [hbuffer, hframe a (hoff b hb a ha)]
    exact hdata'
  · obtain ⟨x, hx, hxlt, hxdata⟩ := hwritten d hd
    have hx' : absSector g d.track.toNat d.sector.toNat = some x := hx
    rw [OnDisk, prtReadAt_bind, hx', Option.bind_some, Fs.prtRead, if_pos hxlt,
      hframe x (hoff d hd x hx)]
    exact congrArg some hxdata

/-- With the window on the first block, `load` goes on with the chain of clusters. -/
theorem load_at {recordSize : UInt8} {fuel : Nat} {b : CachedBlock} {fs₁ fs₂ : Fs}
    (hmove : fs₁.moveWindow g (b.sectorOf g) = (.ok, fs₂)) (hbuffer : fs₂.sectBuffer = b.data) :
    (new g recordSize).load g fuel b.track b.sector fs₁ =
      (if b.data.get 2 = 0xFE then
        loadLoop g fs₂ fuel { new g recordSize with
          super := some b, doSuper := true, datablocks := 0 } b.link.1 b.link.2
      else loadLoop g fs₂ fuel { new g recordSize with datablocks := 0 } b.track b.sector).map
        fun r => (r.1, r.2, fs₂) := by
  rw [CachedBlock.sectorOf] at hmove
  rw [load, hmove]
  dsimp only
  rw [hbuffer]
  split <;> rfl

section Run

variable {recSize : UInt8}

/-- The loop of `load`, from the first cluster on, reads the file's references. -/
theorem Adds.loop (h : Adds g ss fs refs) (hdata : DataBlocks g refs) {fs₂ : Fs}
    (hdisk : ∀ d ∈ (ss.validate recSize).allBlocks, OnDisk g fs₂ d) {fuel : Nat}
    (hfuel : refs.length < fuel) (start : SideSectors) (hzero : start.datablocks = 0)
    (hnil : start.clusters = []) :
    ∃ ss', loadLoop g fs₂ fuel start (startOr (0, 0) ss.clusters).1
      (startOr (0, 0) ss.clusters).2 = some (.ok, ss') ∧ Restores g ss' refs := by
  have hone := h.length_le_one hdata
  have hlen : ∀ c ∈ ss.clusters, c.blocks.length ≤ 6 := fun c hc => (h.row.built c hc).length_le
  have hclusters := clusters_validate recSize hone
  have hcount : (validateClusters recSize ss.clusters).length < fuel := by
    rw [← (forall₂_validateClusters recSize hlen).length_eq, h.has.length]
    omega
  have htrack : ∀ c ∈ ss.clusters, ∀ a ∈ c.addrs, a.1 ≠ 0 := by
    intro c hc a ha
    have hmem : a ∈ (ss.validate recSize).addrs := by
      rw [addrs_validate recSize hone hlen, addrs_eq]
      exact List.mem_append_right _ (List.mem_flatMap.mpr ⟨c, hc, ha⟩)
    obtain ⟨d, hd, rfl⟩ := List.mem_map.mp hmem
    exact (hdisk d hd).track_ne
  have hload := @Chained.load g fs₂ _ (h.row.chained htrack recSize) fuel start (0, 0) hcount rfl
    fun c hc b hb => hdisk b (List.mem_append_right _
      (List.mem_flatMap.mpr ⟨c, hclusters ▸ hc, hb⟩))
  rw [startOr_validateClusters recSize hlen] at hload
  refine ⟨_, hload, @Adds.restores g ss _ refs fs h hdata recSize ?_ ?_⟩
  · show start.clusters ++ _ = _
    rw [hnil, List.nil_append]
  · show start.datablocks + _ = _
    rw [hzero, Nat.zero_add, hnil]
    rfl

/-- With a super side block `load` starts there, and the block leads to the first
    cluster. -/
theorem Adds.super_block (h : Adds g ss fs refs) {c : SideSectorCluster}
    {cs : List SideSectorCluster} (hcs : ss.clusters = c :: cs) {b₀ : CachedBlock}
    (hs : ss.super = some b₀) :
    ∃ b, (ss.validate recSize).super = some b ∧ b.data.get 2 = 0xFE ∧
      b.link = startOr (0, 0) ss.clusters := by
  refine ⟨_, by rw [super_validate, hs]; rfl, ?_, ?_⟩
  · rw [hcs]
    show (superReferences 0 _ _).get 2 = _
    rw [get_superReferences (by decide), Buffer.get_set_of_ne _ (by decide),
      Buffer.get_set_of_ne _ (by decide)]
    exact h.superFits.marker b₀ hs
  · rw [hcs]
    show ((superReferences 0 _ _).get 0, (superReferences 0 _ _).get 1) = _
    rw [get_superReferences (by decide), get_superReferences (by decide),
      Buffer.get_set_self _ (by decide), Buffer.get_set_of_ne _ (by decide),
      Buffer.get_set_self _ (by decide)]
    rfl

/-- Without one, `load` starts at the first side sector, which is not taken for a
    super side block. -/
theorem Adds.first_block (h : Adds g ss fs refs) {c : SideSectorCluster}
    (hcs : ss.clusters = [c]) (hs : ss.super = none) :
    ∃ b, b ∈ (ss.validate recSize).allBlocks ∧ (ss.validate recSize).getTrackSector = b.addr ∧
      b.data.get 2 ≠ 0xFE ∧ b.addr = startOr (0, 0) ss.clusters := by
  have hbuilt := h.row.built c (hcs ▸ List.mem_cons_self)
  have hvalid : (ss.validate recSize).clusters = [c.validate recSize] := by
    rw [validate, hs, hcs]
  have hnone : (ss.validate recSize).super = none := by
    rw [super_validate, hs]
    rfl
  obtain ⟨b₀, bs, hblocks⟩ : ∃ b₀ bs, c.blocks = b₀ :: bs := by
    have hpos := hbuilt.pos
    have hlen := hbuilt.blocks
    cases hb : c.blocks with
    | nil =>
        rw [hb, List.length_nil] at hlen
        omega
    | cons b bs => exact ⟨b, bs, rfl⟩
  have hb := SideSectorCluster.getElem?_validate c recSize 0
  rw [hblocks, List.getElem?_cons_zero, Option.map_some] at hb
  have hstart : (c.validate recSize).getTrackSector = b₀.addr := by
    rw [SideSectorCluster.getTrackSector_addrs,
      (SideSectorCluster.kept_validate hbuilt.length_le recSize).addrs, SideSectorCluster.addrs,
      hblocks]
    rfl
  refine ⟨SideSectorCluster.validateBlock c.localReferences (c.validate recSize).recordSize
    c.datablocks ((b₀ :: bs)[0 + 1]?) 0 b₀, ?_, ?_, ?_, ?_⟩
  · rw [allBlocks, hvalid]
    exact List.mem_append_right _ (List.mem_flatMap.mpr
      ⟨_, List.mem_singleton_self _, List.mem_of_getElem? hb⟩)
  · rw [getTrackSector, hnone, hvalid]
    exact hstart
  · rw [SideSectorCluster.get_validateBlock _ _ _ _ _ (by decide),
      Buffer.get_set_of_ne _ (by decide), Buffer.get_set_self _ (by decide)]
    decide
  · rw [hcs, startOr, SideSectorCluster.getTrackSector_addrs, SideSectorCluster.addrs, hblocks]
    rfl

/-- **WHAT WAS ADDED IS WHAT IS LOADED**: after any run of `addDataBlock`, the side
    sectors that `validate` and `write` leave on the image give a fresh object the
    same references. -/
theorem load_restores (h : Adds g ss fs refs) (hdata : DataBlocks g refs)
    (recSize recordSize : UInt8) {fs₁ : Fs}
    (hwrite : (ss.validate recSize).write g fs = (.ok, fs₁)) (hapart : Apart g ss.addrs fs)
    {fuel : Nat} (hfuel : refs.length < fuel) :
    ∃ res ss' fs', (new g recordSize).load g fuel (ss.validate recSize).getTrackSector.1
        (ss.validate recSize).getTrackSector.2 fs₁ = some (res, ss', fs') ∧
      (refs ≠ [] → res = .ok) ∧ Restores g ss' refs := by
  have hlength := h.has.length
  cases hcs : ss.clusters with
  | nil =>
      -- nothing was added: there is no sector to load from
      rw [hcs, List.length_nil] at hlength
      have hempty : refs = [] := List.eq_nil_of_length_eq_zero (by omega)
      have hstart : (ss.validate recSize).getTrackSector = (0, 0) := by
        rw [validate, h.super_nil hempty, hcs]
        rw [getTrackSector, h.super_nil hempty, hcs]
      refine ⟨.intErr, new g recordSize, fs₁, ?_, fun hne => absurd hempty hne, ?_⟩
      · rw [hstart, load]
        have hzero : absSector g (0 : UInt8).toNat (0 : UInt8).toNat = none := absSector_zero g 0
        rw [hzero]
        rfl
      · rw [hempty]
        exact ⟨rfl, fun _ _ hr => (nomatch hr), fun c hc => absurd hc List.not_mem_nil⟩
  | cons c cs =>
      cases hs : ss.super with
      | some b₀ =>
          obtain ⟨b, hb, hmarker, hlink⟩ := @Adds.super_block g ss refs fs recSize h c cs hcs b₀ hs
          have hmem : b ∈ (ss.validate recSize).allBlocks := by
            rw [allBlocks, hb]
            exact List.mem_cons_self
          obtain ⟨fs₂, hmove, hbuffer, hdisk⟩ := h.window hdata hwrite hapart hmem
          obtain ⟨ss', hloop, hrestores⟩ := h.loop hdata hdisk hfuel { new g recordSize with
            super := some b, doSuper := true, datablocks := 0 } rfl rfl
          refine ⟨.ok, ss', fs₂, ?_, fun _ => rfl, hrestores⟩
          rw [getTrackSector, hb]
          rw [load_at hmove hbuffer, if_pos hmarker, hlink, hloop]
          rfl
      | none =>
          have hnil : cs = [] := by
            have hle := h.length_le_one hdata hs
            rw [hcs, List.length_cons] at hle
            exact List.eq_nil_of_length_eq_zero (by omega)
          subst hnil
          obtain ⟨b, hmem, hstart, hindex, hfirst⟩ :=
            @Adds.first_block g ss refs fs recSize h c hcs hs
          obtain ⟨fs₂, hmove, hbuffer, hdisk⟩ := h.window hdata hwrite hapart hmem
          obtain ⟨ss', hloop, hrestores⟩ := h.loop hdata hdisk hfuel
            { new g recordSize with datablocks := 0 } rfl rfl
          refine ⟨.ok, ss', fs₂, ?_, fun _ => rfl, hrestores⟩
          rw [← hfirst] at hloop
          rw [hstart]
          show (new g recordSize).load g fuel b.track b.sector fs₁ = _
          rw [load_at hmove hbuffer, if_neg hindex]
          exact (congrArg (Option.map _) hloop).trans rfl

end Run

/-- An image of 35 tracks whose map has sectors free on every track. -/
def blankD64 : Fs :=
  { mounted fun _ => Buffer.zero with bam := ⟨fun _ => 0xFF, ⟨true, true, 0, false⟩⟩ }

/-- A REL file of one block on it, before it is closed. -/
def oneBlock : SideSectors × Fs :=
  match (new ⟨.d64, 683⟩ 10).addDataBlock ⟨.d64, 683⟩ 17 1 blankD64 with
  | some (_, ss, fs) => (ss, fs)
  | none => (new ⟨.d64, 683⟩ 10, blankD64)

theorem oneBlock_added : (new ⟨.d64, 683⟩ 10).addDataBlock ⟨.d64, 683⟩ 17 1 blankD64
    = some (true, oneBlock.1, oneBlock.2) := by
  have hok : ((new ⟨.d64, 683⟩ 10).addDataBlock ⟨.d64, 683⟩ 17 1 blankD64).map Prod.fst
      = some true := by decide +kernel
  rw [oneBlock]
  cases hadd : (new ⟨.d64, 683⟩ 10).addDataBlock ⟨.d64, 683⟩ 17 1 blankD64 with
  | none =>
      rw [hadd] at hok
      exact nomatch hok
  | some r =>
      obtain ⟨ok, ss, fs⟩ := r
      rw [hadd] at hok
      cases hok
      rfl

/-- The file of one block is loaded as it was added. -/
theorem load_restores_oneBlock : ∃ res ss' fs',
    (new ⟨.d64, 683⟩ 0).load ⟨.d64, 683⟩ 2 (oneBlock.1.validate 10).getTrackSector.1
      (oneBlock.1.validate 10).getTrackSector.2
      ((oneBlock.1.validate 10).write ⟨.d64, 683⟩ oneBlock.2).2 = some (res, ss', fs') ∧
    ([(17, 1)] ≠ ([] : List Ref) → res = .ok) ∧ Restores ⟨.d64, 683⟩ ss' [(17, 1)] := by
  have hadds : Adds ⟨.d64, 683⟩ oneBlock.1 oneBlock.2 [(17, 1)] :=
    @Adds.add _ _ _ _ _ [] (17, 1) (.start 10 blankD64) oneBlock_added
  have hdata : DataBlocks ⟨.d64, 683⟩ [(17, 1)] := by
    refine ⟨by decide, fun r hr => ?_⟩
    rw [List.mem_singleton.mp hr]
    exact ⟨337, by decide +kernel⟩
  have hwrite : ((oneBlock.1.validate 10).write ⟨.d64, 683⟩ oneBlock.2).1 = .ok := by
    decide +kernel
  have hwindow : oneBlock.2.currentSector = none := by decide +kernel
  have hclean : oneBlock.2.dirty = false := by decide +kernel
  refine load_restores hadds hdata 10 0 (Prod.ext hwrite rfl) ⟨fun r _ a _ => ?_, ?_⟩ (by decide)
  · rw [hwindow]
    exact nofun
  · rw [hclean]
    exact nofun

end SideSectors

end CbmFile
