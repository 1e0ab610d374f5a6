import Ultimate1541.CbmSideSectorPlaceProofs

/-! # Side sectors written and loaded again

    `validate` links the side sectors of a cluster to each other, the last one to
    the next cluster, and puts the number of its references into the link byte of
    the very last one.  `load` follows these links and counts.  Clusters that are
    linked so and are on the image are loaded as they were (`Chained.load`), and
    `validate` links clusters so (`Row.chained`). -/

namespace CbmFile

open CbmLayout CbmBam CbmDisk ByteBuffer

/-! ## Chains of blocks -/

/-- Where a chain starts: at its first block, or at `next` if it is empty. -/
def headOr (next : Ref) : List CachedBlock → Ref
  | [] => next
  | b :: _ => b.addr

/-- Every block links to the one behind it, the last one to `next`. -/
def LinkedTo (next : Ref) : List CachedBlock → Prop
  | [] => True
  | b :: bs => b.link = headOr next bs ∧ LinkedTo next bs

theorem linkedTo_of_getElem? {next : Ref} {bs : List CachedBlock}
    (h : ∀ i b, bs[i]? = some b → b.link = ((bs[i + 1]?).map CachedBlock.addr).getD next) :
    LinkedTo next bs := by
  induction bs with
  | nil => trivial
  | cons b bs ih =>
      refine ⟨?_, ih fun i d hd => ?_⟩
      · rw [h 0 b rfl]
        cases bs <;> rfl
      · exact h (i + 1) d hd

/-- The number of references `load` reads off a link. -/
def countOf (link : Ref) : Nat :=
  if link.1 ≠ 0 then 120 else if link.2 > 16 then link.2.toNat / 2 - 7 else 0

/-- All blocks of a chain but the last one are full. -/
theorem LinkedTo.sum_countOf {next : Ref} {bs : List CachedBlock} (h : LinkedTo next bs)
    (htrack : ∀ b ∈ bs, b.track ≠ 0) (hne : bs ≠ []) :
    (bs.map fun b => countOf b.link).sum = 120 * (bs.length - 1) + countOf next := by
  induction bs with
  | nil => exact absurd rfl hne
  | cons b bs ih =>
      obtain ⟨hlink, hrest⟩ := h
      rw [List.map_cons, List.sum_cons, hlink]
      cases bs with
      | nil => exact (Nat.add_zero _).trans (Nat.zero_add _).symm
      | cons d ds =>
          have hd : d.track ≠ 0 := htrack d (List.mem_cons_of_mem _ List.mem_cons_self)
          have hfull : countOf (headOr next (d :: ds)) = 120 := if_pos hd
          rw [ih hrest (fun x hx => htrack x (List.mem_cons_of_mem _ hx)) (List.cons_ne_nil _ _),
            hfull]
          simp only [List.length_cons]
          omega

/-- The image holds what the block holds. -/
def OnDisk (g : Geometry) (fs : Fs) (b : CachedBlock) : Prop :=
  prtReadAt g fs b.track.toNat b.sector.toNat = some b.data

theorem prtReadAt_bind (g : Geometry) (fs : Fs) (t s : Nat) :
    prtReadAt g fs t s = (absSector g t s).bind fun a => fs.prtRead g a := by
  rw [prtReadAt, absSector]
  split <;> rfl

theorem OnDisk.track_ne {g : Geometry} {fs : Fs} {b : CachedBlock} (h : OnDisk g fs b) :
    b.track ≠ 0 := by
  intro hzero
  rw [OnDisk, prtReadAt_bind, hzero] at h
  exact nomatch h

namespace SideSectorCluster

variable {g : Geometry} {fs : Fs}

/-- `load` follows a chain of blocks to its end. -/
theorem loadLoop_linked {next : Ref} {recordSize : UInt8} (bs : List CachedBlock) :
    ∀ (left : Nat) (c : SideSectorCluster), (∀ b ∈ bs, OnDisk g fs b) → LinkedTo next bs →
      (∀ b ∈ bs, b.data.get 3 = recordSize) → bs.length ≤ left →
      (bs.length < left → next.1 = 0) →
      loadLoop g fs left c (headOr next bs).1 (headOr next bs).2 =
        (.ok, { datablocks := c.datablocks + (bs.map fun b => countOf b.link).sum
                recordSize := if bs = [] then c.recordSize else recordSize
                blocks := c.blocks ++ bs }, next.1, next.2) := by
  induction bs with
  | nil =>
      intro left c _ _ _ _ hend
      rw [List.append_nil]
      cases left with
      | zero => rfl
      | succ left =>
          show loadLoop g fs (left + 1) c next.1 next.2 = _
          rw [loadLoop, if_pos (hend (Nat.succ_pos left))]
          rfl
  | cons b bs ih =>
      intro left c hdisk hlinked hsize hle hend
      cases left with
      | zero => exact absurd hle (Nat.not_succ_le_zero _)
      | succ left =>
          have hb := hdisk b List.mem_cons_self
          obtain ⟨hlink, hrest⟩ := hlinked
          have hstep := ih left
            { datablocks := c.datablocks + countOf b.link
              recordSize := b.data.get 3
              blocks := c.blocks ++ [b] }
            (fun x hx => hdisk x (List.mem_cons_of_mem _ hx)) hrest
            (fun x hx => hsize x (List.mem_cons_of_mem _ hx)) (Nat.le_of_succ_le_succ hle)
            (fun h => hend (Nat.succ_lt_succ h))
          rw [← hlink] at hstep
          show loadLoop g fs (left + 1) c b.track b.sector = _
          rw [loadLoop, if_neg hb.track_ne, hb]
          refine hstep.trans ?_
          rw [hsize b List.mem_cons_self, ite_self, if_neg (List.cons_ne_nil _ _), List.map_cons,
            List.sum_cons, Nat.add_assoc, List.append_assoc]
          rfl

/-- A cluster as `load` can read it: its blocks are linked, up to `next` behind the
    last one, and the links say how many references there are. -/
structure Whole (next : Ref) (c : SideSectorCluster) : Prop where
  ne : c.blocks ≠ []
  bound : c.blocks.length ≤ 6
  last : c.blocks.length < 6 → next.1 = 0
  linked : LinkedTo next c.blocks
  datablocks : c.datablocks = 120 * (c.blocks.length - 1) + countOf next
  recordSize : ∀ b ∈ c.blocks, b.data.get 3 = c.recordSize

theorem getTrackSector_eq {c : SideSectorCluster} (h : c.blocks ≠ []) (next : Ref) :
    c.getTrackSector = headOr next c.blocks := by
  rw [getTrackSector]
  cases hb : c.blocks with
  | nil => exact absurd hb h
  | cons b bs => rfl

theorem Whole.load {next : Ref} {c : SideSectorCluster} (h : Whole next c)
    (hdisk : ∀ b ∈ c.blocks, OnDisk g fs b) :
    (SideSectorCluster.new 0).load g c.getTrackSector.1 c.getTrackSector.2 fs =
      (.ok, c, next.1, next.2) := by
  rw [SideSectorCluster.load, getTrackSector_eq h.ne next,
    loadLoop_linked c.blocks 6 _ hdisk h.linked h.recordSize h.bound h.last,
    h.linked.sum_countOf (fun b hb => (hdisk b hb).track_ne) h.ne, ← h.datablocks, if_neg h.ne]
  simp only [SideSectorCluster.new, Nat.zero_add, List.nil_append]

end SideSectorCluster

namespace SideSectors

variable {g : Geometry} {fs : Fs}

/-- Where a chain of clusters starts. -/
def startOr (next : Ref) : List SideSectorCluster → Ref
  | [] => next
  | c :: _ => c.getTrackSector

/-- Every cluster leads to the one behind it, the last one to track 0. -/
def Chained : List SideSectorCluster → Prop
  | [] => True
  | c :: cs => (∃ stop : Ref, stop.1 = 0 ∧ c.Whole (startOr stop cs)) ∧ Chained cs

/-- `load` reads a chain of clusters as it was. -/
theorem Chained.load {cs : List SideSectorCluster} (h : Chained cs) :
    ∀ {fuel : Nat} (ss : SideSectors) {stop : Ref}, cs.length < fuel → stop.1 = 0 →
      (∀ c ∈ cs, ∀ b ∈ c.blocks, OnDisk g fs b) →
      loadLoop g fs fuel ss (startOr stop cs).1 (startOr stop cs).2 =
        some (.ok, { ss with
          datablocks := ss.datablocks + (cs.map SideSectorCluster.datablocks).sum
          clusters := ss.clusters ++ cs }) := by
  induction cs with
  | nil =>
      intro fuel ss stop hfuel hstop _
      obtain ⟨fuel, rfl⟩ := Nat.exists_eq_succ_of_ne_zero (Nat.ne_of_gt hfuel)
      rw [loadLoop, startOr, if_pos hstop, List.map_nil, List.sum_nil, List.append_nil]
      rfl
  | cons c cs ih =>
      intro fuel ss stop hfuel _ hdisk
      obtain ⟨⟨stop', hstop', hwhole⟩, hrest⟩ := h
      obtain ⟨fuel, rfl⟩ := Nat.exists_eq_succ_of_ne_zero (Nat.ne_zero_of_lt hfuel)
      have hc := hdisk c List.mem_cons_self
      have htrack : c.getTrackSector.1 ≠ 0 := by
        rw [SideSectorCluster.getTrackSector_eq hwhole.ne stop]
        cases hb : c.blocks with
        | nil => exact absurd hb hwhole.ne
        | cons b bs => exact (hc b (hb ▸ List.mem_cons_self)).track_ne
      rw [startOr, loadLoop, if_neg htrack, hwhole.load hc]
      dsimp only
      rw [ih hrest _ (Nat.lt_of_succ_lt_succ hfuel) hstop'
        (fun d hd => hdisk d (List.mem_cons_of_mem _ hd)), List.map_cons, List.sum_cons,
        Nat.add_assoc, List.append_assoc]
      rfl

end SideSectors

/-! ## What `validate` changes -/

namespace SideSectorCluster

variable {c c' : SideSectorCluster} {refs : List Ref}

theorem length_localReferences (h : c.blocks.length ≤ 6) : c.localReferences.length = 12 := by
  rw [localReferences, List.length_append, List.length_replicate, List.length_flatMap]
  simp only [List.length_cons, List.length_nil, Nat.zero_add, Nat.reduceAdd, List.map_const',
    List.sum_replicate, smul_eq_mul]
  omega

section

variable {locals : List UInt8} (recordSize : UInt8) (n i : Nat)
  (next : Option CachedBlock) (b : CachedBlock)

theorem validateBlock_none : validateBlock locals recordSize n none i b =
    ⟨b.track, b.sector, (((b.data.blit 4 locals).set 2 (UInt8.ofNat i)).set 3 recordSize).set 1
      (byte (((n : Int) - 120 * i) * 2 + 15))⟩ := rfl

theorem validateBlock_some (d : CachedBlock) : validateBlock locals recordSize n (some d) i b =
    ⟨b.track, b.sector, (((((b.data.blit 4 locals).set 2 (UInt8.ofNat i)).set 3 recordSize).set 1
      (byte (((n : Int) - 120 * i) * 2 + 15))).set 0 d.track).set 1 d.sector⟩ := rfl

/-- Behind the link, `validate` writes the same whatever comes next. -/
theorem get_validateBlock {j : Nat} (hj : 2 ≤ j) :
    (validateBlock locals recordSize n next i b).data.get j =
      (((b.data.blit 4 locals).set 2 (UInt8.ofNat i)).set 3 recordSize).get j := by
  cases next with
  | none => rw [validateBlock_none, Buffer.get_set_of_ne _ (by omega)]
  | some d =>
      rw [validateBlock_some, Buffer.get_set_of_ne _ (by omega),
        Buffer.get_set_of_ne _ (by omega), Buffer.get_set_of_ne _ (by omega)]

theorem link_validateBlock :
    (validateBlock locals recordSize n next i b).link =
      (next.map CachedBlock.addr).getD
        (b.data.get 0, byte (((n : Int) - 120 * i) * 2 + 15)) := by
  cases next with
  | none =>
      rw [validateBlock_none, CachedBlock.link, Buffer.get_set_self _ (by decide),
        Buffer.get_set_of_ne _ (by decide), Buffer.get_set_of_ne _ (by decide),
        Buffer.get_set_of_ne _ (by decide), Buffer.get_blit_outside _ (Or.inl (by decide))]
      rfl
  | some d =>
      rw [validateBlock_some, CachedBlock.link, Buffer.get_set_self _ (by decide),
        Buffer.get_set_of_ne _ (by decide), Buffer.get_set_self _ (by decide)]
      rfl

theorem reference_validateBlock (hlen : locals.length = 12) (j : Nat) :
    (validateBlock locals recordSize n next i b).reference j = b.reference j := by
  rw [CachedBlock.reference, get_validateBlock _ _ _ _ _ (by omega),
    get_validateBlock _ _ _ _ _ (by omega), Buffer.get_set_of_ne _ (by omega),
    Buffer.get_set_of_ne _ (by omega), Buffer.get_set_of_ne _ (by omega),
    Buffer.get_set_of_ne _ (by omega), Buffer.get_blit_outside _ (Or.inr (by omega)),
    Buffer.get_blit_outside _ (Or.inr (by omega))]
  rfl

theorem recordSize_validateBlock :
    (validateBlock locals recordSize n next i b).data.get 3 = recordSize := by
  rw [get_validateBlock _ _ _ _ _ (by decide), Buffer.get_set_self _ (by decide)]

theorem table_validateBlock (hlen : locals.length = 12) :
    (validateBlock locals recordSize n next i b).data.slice 4 12 = locals := by
  refine List.ext_getElem (by rw [Buffer.length_slice, hlen]) fun j hj hj' => ?_
  rw [hlen] at hj'
  rw [Buffer.getElem_slice, get_validateBlock _ _ _ _ _ (by omega),
    Buffer.get_set_of_ne _ (by omega), Buffer.get_set_of_ne _ (by omega),
    Buffer.get_blit_inside _ (by omega) (by omega) (by omega), Nat.add_sub_cancel_left,
    List.getD_eq_getElem?_getD, List.getElem?_eq_getElem (by omega), Option.getD_some]

end

/-- `c'` is `c` with other link bytes and tables: its blocks are on the same sectors
    and hold the same references. -/
structure Kept (c c' : SideSectorCluster) : Prop where
  datablocks : c'.datablocks = c.datablocks
  block : ∃ f : Nat → CachedBlock → CachedBlock,
    (∀ i, c'.blocks[i]? = (c.blocks[i]?).map (f i)) ∧
    ∀ i b, (f i b).addr = b.addr ∧ ∀ j, (f i b).reference j = b.reference j

theorem Kept.trans {c'' : SideSectorCluster} (h : Kept c c') (h' : Kept c' c'') :
    Kept c c'' := by
  obtain ⟨f, hf, hfb⟩ := h.block
  obtain ⟨f', hf', hfb'⟩ := h'.block
  refine ⟨h'.datablocks.trans h.datablocks, fun i b => f' i (f i b), fun i => ?_, fun i b => ?_⟩
  · rw [hf', hf, Option.map_map]
    rfl
  · exact ⟨(hfb' i _).1.trans (hfb i b).1, fun j => ((hfb' i _).2 j).trans ((hfb i b).2 j)⟩

theorem Kept.addr (h : Kept c c') (i : Nat) :
    (c'.blocks[i]?).map CachedBlock.addr = (c.blocks[i]?).map CachedBlock.addr := by
  obtain ⟨f, hf, hfb⟩ := h.block
  rw [hf, Option.map_map]
  cases c.blocks[i]? with
  | none => rfl
  | some b => exact congrArg some (hfb i b).1

theorem Kept.addrs (h : Kept c c') : c'.addrs = c.addrs := by
  refine List.ext_getElem? fun i => ?_
  rw [SideSectorCluster.addrs, SideSectorCluster.addrs, List.getElem?_map, List.getElem?_map, h.addr]

theorem Kept.length (h : Kept c c') : c'.blocks.length = c.blocks.length := by
  have haddrs := congrArg List.length h.addrs
  rwa [SideSectorCluster.addrs, SideSectorCluster.addrs, List.length_map, List.length_map] at haddrs

theorem getTrackSector_addrs (c : SideSectorCluster) : c.getTrackSector = c.addrs.headD (0, 0) := by
  rw [getTrackSector, SideSectorCluster.addrs]
  cases c.blocks <;> rfl

theorem localReferences_addrs (c : SideSectorCluster) : c.localReferences =
    (c.addrs.flatMap fun r => [r.1, r.2]) ++ List.replicate (12 - 2 * c.addrs.length) 0 := by
  rw [localReferences, SideSectorCluster.addrs, List.length_map, List.flatMap_map]
  rfl

theorem Has.kept (h : c.Has refs) (hkept : Kept c c') : c'.Has refs where
  datablocks := hkept.datablocks.trans h.datablocks
  bound := h.bound
  blocks := hkept.length.trans h.blocks
  reference := by
    intro k r hr
    obtain ⟨b, hb, href⟩ := h.reference k r hr
    obtain ⟨f, hf, hfb⟩ := hkept.block
    refine ⟨f (k / 120) b, ?_, ((hfb _ b).2 _).trans href⟩
    rw [hf, hb]
    rfl

/-! ## What `validate` leaves -/

theorem getElem?_validate (c : SideSectorCluster) (recSize : UInt8) (i : Nat) :
    (c.validate recSize).blocks[i]? = (c.blocks[i]?).map
      (validateBlock c.localReferences (c.validate recSize).recordSize c.datablocks
        (c.blocks[i + 1]?) i) :=
  List.getElem?_mapIdx

theorem kept_validate (hlen : c.blocks.length ≤ 6) (recSize : UInt8) :
    Kept c (c.validate recSize) where
  datablocks := rfl
  block := ⟨fun i => validateBlock c.localReferences (c.validate recSize).recordSize c.datablocks
      (c.blocks[i + 1]?) i, getElem?_validate c recSize, fun _ b =>
    ⟨rfl, reference_validateBlock _ _ _ _ b (length_localReferences hlen)⟩⟩

/-- The blocks of a validated cluster are linked to each other; the last one says how
    many references it has. -/
theorem linkedTo_validate (h0 : ∀ b ∈ c.blocks, b.data.get 0 = 0) (recSize : UInt8) :
    LinkedTo (0, byte (((c.datablocks : Int) - 120 * (c.blocks.length - 1 : Nat)) * 2 + 15))
      (c.validate recSize).blocks := by
  refine linkedTo_of_getElem? fun i b' hb' => ?_
  rw [getElem?_validate] at hb'
  obtain ⟨b, hb, rfl⟩ := Option.map_eq_some_iff.mp hb'
  rw [link_validateBlock, getElem?_validate]
  cases hnext : c.blocks[i + 1]? with
  | some d => rfl
  | none =>
      have hlast : i = c.blocks.length - 1 := by
        have h1 := (List.getElem?_eq_some_iff.mp hb).1
        have h2 := List.getElem?_eq_none_iff.mp hnext
        omega
      rw [← hlast, h0 b (List.mem_of_getElem? hb)]
      rfl

/-- The link byte of the last side sector counts its references. -/
theorem countOf_byte {n : Nat} (h1 : 1 ≤ n) (h2 : n ≤ 120) :
    countOf (0, byte ((n : Int) * 2 + 15)) = n := by
  have hval : (byte ((n : Int) * 2 + 15)).toNat = n * 2 + 15 := by
    rw [byte, show (((n : Int) * 2 + 15) % 256).toNat = n * 2 + 15 by omega]
    exact UInt8.toNat_ofNat_of_lt' (show n * 2 + 15 < 256 by omega)
  have hgt : byte ((n : Int) * 2 + 15) > 16 := by
    show (16 : UInt8) < _
    rw [UInt8.lt_iff_toNat_lt, hval]
    show 16 < n * 2 + 15
    omega
  rw [countOf, if_neg (fun h => h rfl), if_pos hgt, hval]
  omega

/-- A cluster that was built by `addDataBlock` and holds at least one reference. -/
structure Built (c : SideSectorCluster) : Prop where
  pos : 1 ≤ c.datablocks
  bound : c.datablocks ≤ 720
  blocks : c.blocks.length = (c.datablocks + 119) / 120
  unlinked : ∀ b ∈ c.blocks, b.data.get 0 = 0

theorem Built.length_le (h : c.Built) : c.blocks.length ≤ 6 := by
  have := h.bound
  rw [h.blocks]
  omega

theorem Built.whole (h : c.Built) (recSize : UInt8) :
    ∃ stop : Ref, stop.1 = 0 ∧ (c.validate recSize).Whole stop := by
  have hpos := h.pos
  have hbound := h.bound
  have hblocks := h.blocks
  have hkept := kept_validate h.length_le recSize
  refine ⟨_, rfl, ?_, hkept.length ▸ h.length_le, fun _ => rfl,
    linkedTo_validate h.unlinked recSize, ?_, ?_⟩
  · rw [← List.length_pos_iff, hkept.length]
    omega
  · rw [hkept.length, show (c.datablocks : Int) - 120 * (c.blocks.length - 1 : Nat)
      = ((c.datablocks - 120 * (c.blocks.length - 1) : Nat) : Int) by omega,
      countOf_byte (by omega) (by omega)]
    show c.datablocks = _
    omega
  · intro b' hb'
    obtain ⟨i, hi⟩ := List.getElem?_of_mem hb'
    rw [getElem?_validate] at hi
    obtain ⟨b, -, rfl⟩ := Option.map_eq_some_iff.mp hi
    exact recordSize_validateBlock ..

end SideSectorCluster

/-! ## The chain of clusters -/

theorem LinkedTo.getElem? {next : Ref} {bs : List CachedBlock} (h : LinkedTo next bs) :
    ∀ {i : Nat} {b : CachedBlock}, bs[i]? = some b →
      b.link = ((bs[i + 1]?).map CachedBlock.addr).getD next := by
  induction bs with
  | nil =>
      intro i b hb
      exact nomatch hb
  | cons d ds ih =>
      intro i b hb
      cases i with
      | zero =>
          cases hb
          rw [h.1]
          cases ds <;> rfl
      | succ i => exact ih h.2 hb

namespace SideSectors

open SideSectorCluster (Kept Built Whole)

variable {g : Geometry} {c : SideSectorCluster} {cs : List SideSectorCluster} {target : Ref}

theorem getElem?_linkLast (target : Ref) (c : SideSectorCluster) (i : Nat) :
    (linkLast target c).blocks[i]? = (c.blocks[i]?).map fun b =>
      if c.blocks.length - 1 = i then { b with data := (b.data.set 0 target.1).set 1 target.2 }
      else b :=
  List.getElem?_modify ..

theorem get_linkLast (target : Ref) (b : Block) {j : Nat} (hj : 2 ≤ j) :
    ((b.set 0 target.1).set 1 target.2).get j = b.get j := by
  rw [Buffer.get_set_of_ne _ (by omega), Buffer.get_set_of_ne _ (by omega)]

theorem kept_linkLast (target : Ref) (c : SideSectorCluster) : Kept c (linkLast target c) where
  datablocks := rfl
  block := by
    refine ⟨_, getElem?_linkLast target c, fun i b => ?_⟩
    split
    · refine ⟨rfl, fun j => Prod.ext ?_ ?_⟩
      · exact get_linkLast target b.data (by omega)
      · exact get_linkLast target b.data (by omega)
    · exact ⟨rfl, fun _ => rfl⟩

/-- A full cluster can be linked to another one. -/
theorem whole_linkLast {next : Ref} (h : Whole next c) (hfull : c.datablocks = 720)
    (hsix : c.blocks.length = 6) (htarget : target.1 ≠ 0) : Whole target (linkLast target c) := by
  have hlen := (kept_linkLast target c).length
  refine ⟨?_, hlen ▸ h.bound, fun hlt => absurd hsix (by omega), ?_, ?_, ?_⟩
  · rw [← List.length_pos_iff, hlen, hsix]
    decide
  · refine linkedTo_of_getElem? fun i b' hb' => ?_
    rw [(kept_linkLast target c).addr]
    rw [getElem?_linkLast] at hb'
    obtain ⟨b, hb, rfl⟩ := Option.map_eq_some_iff.mp hb'
    have hi := (List.getElem?_eq_some_iff.mp hb).1
    split
    · rw [List.getElem?_eq_none (by omega), CachedBlock.link, Buffer.get_set_self _ (by decide),
        Buffer.get_set_of_ne _ (by decide), Buffer.get_set_self _ (by decide)]
      rfl
    · rw [h.linked.getElem? hb, List.getElem?_eq_getElem (by omega)]
      rfl
  · rw [hlen, hsix, countOf, if_pos htarget]
    exact hfull
  · intro b' hb'
    obtain ⟨i, hi⟩ := List.getElem?_of_mem hb'
    rw [getElem?_linkLast] at hi
    obtain ⟨b, hb, rfl⟩ := Option.map_eq_some_iff.mp hi
    have hsize := h.recordSize b (List.mem_of_getElem? hb)
    split
    · rw [get_linkLast _ _ (by decide)]
      exact hsize
    · exact hsize

/-- Clusters as `addDataBlock` leaves them: all but the last one are full. -/
structure Row (cs : List SideSectorCluster) : Prop where
  built : ∀ c ∈ cs, c.Built
  full : ∀ c ∈ cs.dropLast, c.datablocks = 720

theorem Row.tail {d : SideSectorCluster} {ds : List SideSectorCluster} (h : Row (c :: d :: ds)) :
    c.datablocks = 720 ∧ Row (d :: ds) := by
  refine ⟨h.full c (by rw [List.dropLast_cons_cons]; exact List.mem_cons_self), ?_, ?_⟩
  · exact fun x hx => h.built x (List.mem_cons_of_mem _ hx)
  · exact fun x hx => h.full x (by rw [List.dropLast_cons_cons]; exact List.mem_cons_of_mem _ hx)

/-- The clusters after `validate` are the same ones with other links. -/
theorem forall₂_validateClusters (recSize : UInt8) (h : ∀ c ∈ cs, c.blocks.length ≤ 6) :
    List.Forall₂ SideSectorCluster.Kept cs (validateClusters recSize cs) := by
  induction cs with
  | nil => exact .nil
  | cons c cs ih =>
      have hvalid := SideSectorCluster.kept_validate (h c List.mem_cons_self) recSize
      refine .cons ?_ (ih fun x hx => h x (List.mem_cons_of_mem _ hx))
      cases cs with
      | nil => exact hvalid
      | cons d ds => exact hvalid.trans (kept_linkLast _ _)

theorem startOr_validateClusters (recSize : UInt8) (h : ∀ c ∈ cs, c.blocks.length ≤ 6)
    (stop : Ref) : startOr stop (validateClusters recSize cs) = startOr stop cs := by
  have hall := forall₂_validateClusters recSize h
  cases hv : validateClusters recSize cs with
  | nil =>
      rw [hv] at hall
      cases hall
      rfl
  | cons c' cs' =>
      rw [hv] at hall
      cases hall with
      | cons hkept _ =>
          rw [startOr, startOr, SideSectorCluster.getTrackSector_addrs, hkept.addrs,
            ← SideSectorCluster.getTrackSector_addrs]

/-- `validate` links the clusters into a chain that `load` can follow. -/
theorem Row.chained (h : Row cs) (htrack : ∀ c ∈ cs, ∀ a ∈ c.addrs, a.1 ≠ 0) (recSize : UInt8) :
    Chained (validateClusters recSize cs) := by
  induction cs with
  | nil => trivial
  | cons c cs ih =>
      have hc := h.built c List.mem_cons_self
      obtain ⟨stop, hstop, hwhole⟩ := hc.whole recSize
      cases cs with
      | nil => exact ⟨⟨stop, hstop, hwhole⟩, trivial⟩
      | cons d ds =>
          obtain ⟨hfull, hrow⟩ := h.tail
          have hd := hrow.built d List.mem_cons_self
          refine ⟨⟨stop, hstop, ?_⟩, ih hrow fun x hx => htrack x (List.mem_cons_of_mem _ hx)⟩
          rw [startOr_validateClusters recSize fun x hx => (hrow.built x hx).length_le]
          refine whole_linkLast hwhole hfull ?_ ?_
          · rw [(SideSectorCluster.kept_validate hc.length_le recSize).length, hc.blocks, hfull]
          · show d.getTrackSector.1 ≠ 0
            rw [SideSectorCluster.getTrackSector_addrs]
            have hne : 0 < d.addrs.length := by
              have hpos := hd.pos
              rw [SideSectorCluster.addrs, List.length_map, hd.blocks]
              omega
            cases haddrs : d.addrs with
            | nil =>
                rw [haddrs] at hne
                exact absurd hne (Nat.lt_irrefl 0)
            | cons a as =>
                exact htrack d (List.mem_cons_of_mem _ List.mem_cons_self) a
                  (haddrs ▸ List.mem_cons_self)

end SideSectors

end CbmFile
