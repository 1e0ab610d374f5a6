import Ultimate1541.CbmSideSectorProofs

/-! # The references of a REL file

    What a cluster and a set of clusters hold, as the list of the addresses that
    were handed to `addDataBlock`.  `Has` says where reference number `k` is to
    be found; `addDataBlock` appends one, and `seek` finds it. -/

namespace CbmFile

open CbmLayout CbmBam CbmDisk ByteBuffer

/-- Track and sector of a block. -/
abbrev Ref : Type := UInt8 × UInt8

namespace CachedBlock

/-- Reference number `i` of a side sector. -/
def reference (b : CachedBlock) (i : Nat) : Ref := (b.data.get (16 + 2 * i), b.data.get (17 + 2 * i))

/-- Where the block is written to. -/
def addr (b : CachedBlock) : Ref := (b.track, b.sector)

/-- The link in its first two bytes. -/
def link (b : CachedBlock) : Ref := (b.data.get 0, b.data.get 1)

end CachedBlock

namespace SideSectorCluster

variable {g : Geometry} {c c' : SideSectorCluster} {refs : List Ref}

/-- The cluster holds the references `refs`, 120 of them in a side sector. -/
structure Has (c : SideSectorCluster) (refs : List Ref) : Prop where
  datablocks : c.datablocks = refs.length
  bound : refs.length ≤ 720
  blocks : c.blocks.length = (refs.length + 119) / 120
  reference : ∀ k r, refs[k]? = some r →
    ∃ b, c.blocks[k / 120]? = some b ∧ b.reference (k % 120) = r

theorem has_new (recordSize : UInt8) : (new recordSize).Has [] where
  datablocks := rfl
  bound := Nat.zero_le _
  blocks := rfl
  reference := by
    intro k r hr
    exact nomatch hr

@[simp] theorem reference_setReference {offset : Nat} (ho : offset < 120) (t s : Nat)
    (b : CachedBlock) :
    (setReference offset t s b).reference offset = (UInt8.ofNat t, UInt8.ofNat s) := by
  simp only [CachedBlock.reference, setReference]
  rw [Buffer.get_set_of_ne _ (by omega), Buffer.get_set_self _ (by omega), Buffer.get_set_self _ (by omega)]

theorem reference_setReference_of_ne {offset i : Nat} (h : i ≠ offset) (t s : Nat)
    (b : CachedBlock) : (setReference offset t s b).reference i = b.reference i := by
  simp only [CachedBlock.reference, setReference]
  rw [Buffer.get_set_of_ne _ (by omega), Buffer.get_set_of_ne _ (by omega), Buffer.get_set_of_ne _ (by omega),
    Buffer.get_set_of_ne _ (by omega)]

/-- Once the side sector for it exists, the next reference is stored behind the
    others. -/
theorem Has.storeReference (hdata : c.datablocks = refs.length) (hbound : refs.length < 720)
    (hblocks : c.blocks.length = (refs.length + 120) / 120)
    (href : ∀ k r, refs[k]? = some r →
      ∃ b, c.blocks[k / 120]? = some b ∧ b.reference (k % 120) = r) (t s : Nat) :
    (c.storeReference t s).Has (refs ++ [(UInt8.ofNat t, UInt8.ofNat s)]) where
  datablocks := by
    rw [List.length_append, List.length_singleton, ← hdata]
    rfl
  bound := by
    rw [List.length_append, List.length_singleton]
    omega
  blocks := by
    rw [List.length_append, List.length_singleton]
    show (c.blocks.modify _ _).length = _
    rw [List.length_modify, hblocks]
  reference := by
    intro k r hr
    have hlt : c.datablocks / 120 < c.blocks.length := by omega
    have hoffset : c.datablocks - c.datablocks / 120 * 120 = c.datablocks % 120 := by omega
    show ∃ b, (c.blocks.modify (c.datablocks / 120) _)[k / 120]? = some b ∧ _
    rw [hoffset]
    rcases Nat.lt_trichotomy k refs.length with hk | rfl | hk
    · -- an earlier reference, of this side sector or of one before it
      rw [List.getElem?_append_left hk] at hr
      obtain ⟨b, hb, hbr⟩ := href k r hr
      by_cases hsame : c.datablocks / 120 = k / 120
      · refine ⟨setReference (c.datablocks % 120) t s b, ?_, ?_⟩
        · rw [hsame, List.getElem?_modify_eq, hb]
          rfl
        · rw [reference_setReference_of_ne (by omega), hbr]
      · exact ⟨b, by rw [List.getElem?_modify_ne _ _ hsame, hb], hbr⟩
    · rw [List.getElem?_append_right (Nat.le_refl _), Nat.sub_self] at hr
      cases hr
      rw [← hdata]
      refine ⟨_, by rw [List.getElem?_modify_eq, List.getElem?_eq_getElem hlt]; rfl, ?_⟩
      exact reference_setReference (by omega) t s _
    · rw [List.getElem?_eq_none (by rw [List.length_append, List.length_singleton]; omega)] at hr
      exact nomatch hr

/-- What `ensureBlock` does: nothing, or it appends the block for the sector it was
    given. -/
theorem ensureBlock_cases {fs fs' : Fs} (h : c.ensureBlock g fs = some (true, c', fs')) :
    (c.datablocks / 120 < c.blocks.length ∧ c' = c ∧ fs' = fs) ∨
    (c.blocks.length ≤ c.datablocks / 120 ∧
      ∃ r, fs.getNextFreeSector g 0 0 = some (r, fs') ∧ r.ok = true ∧
        c' = { c with blocks := c.blocks ++
          [newBlock (c.datablocks / 120) c.recordSize r.track r.sector] }) := by
  rw [ensureBlock] at h
  by_cases hlt : c.datablocks / 120 < c.blocks.length
  · rw [if_pos hlt] at h
    cases h
    exact Or.inl ⟨hlt, rfl, rfl⟩
  · rw [if_neg hlt] at h
    cases hnext : fs.getNextFreeSector g 0 0 with
    | none =>
        rw [hnext] at h
        exact nomatch h
    | some rf =>
        obtain ⟨r, f⟩ := rf
        rw [hnext] at h
        dsimp only at h
        by_cases hok : r.ok = true
        · rw [if_pos hok] at h
          cases h
          exact Or.inr ⟨Nat.le_of_not_lt hlt, r, rfl, hok, rfl⟩
        · rw [if_neg hok] at h
          exact nomatch h

theorem addDataBlock_cases {fs fs' : Fs} {t s : Nat}
    (h : c.addDataBlock g t s fs = some (true, c', fs')) :
    c.datablocks ≠ 720 ∧ ∃ c₁, c.ensureBlock g fs = some (true, c₁, fs') ∧
      c' = c₁.storeReference t s := by
  rw [addDataBlock] at h
  by_cases hfull : c.datablocks = 720
  · rw [if_pos hfull] at h
    exact nomatch h
  · rw [if_neg hfull] at h
    refine ⟨hfull, ?_⟩
    cases hb : c.ensureBlock g fs with
    | none =>
        rw [hb] at h
        exact nomatch h
    | some q =>
        obtain ⟨ok, c₁, f⟩ := q
        rw [hb] at h
        cases ok with
        | false => exact nomatch h
        | true =>
            cases h
            exact ⟨c₁, rfl, rfl⟩

/-- A data block that was added is the last reference. -/
theorem Has.addDataBlock {fs fs' : Fs} {t s : Nat} (h : c.Has refs)
    (hadd : c.addDataBlock g t s fs = some (true, c', fs')) :
    c'.Has (refs ++ [(UInt8.ofNat t, UInt8.ofNat s)]) := by
  obtain ⟨hfull, c₁, hensure, rfl⟩ := addDataBlock_cases hadd
  have hdata := h.datablocks
  have hblocks := h.blocks
  have hbound : refs.length < 720 := by
    have := h.bound
    omega
  rcases ensureBlock_cases hensure with ⟨hlt, rfl, rfl⟩ | ⟨hle, r, -, -, rfl⟩
  · exact Has.storeReference hdata hbound (by omega) h.reference t s
  · refine @Has.storeReference { c with blocks := c.blocks ++
      [newBlock (c.datablocks / 120) c.recordSize r.track r.sector] } refs hdata hbound ?_ ?_ t s
    · show (c.blocks ++ [_]).length = _
      rw [List.length_append, List.length_singleton]
      omega
    · intro k q hq
      obtain ⟨b, hb, hbr⟩ := h.reference k q hq
      refine ⟨b, ?_, hbr⟩
      show (c.blocks ++ [_])[k / 120]? = some b
      rw [List.getElem?_append_left (List.getElem?_eq_some_iff.mp hb).1, hb]

/-- `seek` finds reference number `k`. -/
theorem Has.seek (h : c.Has refs) {k : Nat} {r : Ref} (hr : refs[k]? = some r)
    (ht : r.1 ≠ 0) (a b : Int) : c.seek k a b = (.ok, (r.1.toNat : Int), (r.2.toNat : Int)) := by
  have hk : k < refs.length := (List.getElem?_eq_some_iff.mp hr).1
  obtain ⟨blk, hblk, href⟩ := h.reference k r hr
  have hi : 2 * (k - k / 120 * 120) + 16 = 16 + 2 * (k % 120) := by omega
  have h1 : blk.data.get (16 + 2 * (k % 120)) = r.1 := congrArg Prod.fst href
  have h2 : blk.data.get (16 + 2 * (k % 120) + 1) = r.2 := by
    rw [show 16 + 2 * (k % 120) + 1 = 17 + 2 * (k % 120) by omega]
    exact congrArg Prod.snd href
  rw [SideSectorCluster.seek, if_neg (by rw [h.datablocks]; omega), hblk]
  dsimp only
  rw [hi, h1, h2, if_neg ht]

end SideSectorCluster

namespace SideSectors

variable {g : Geometry} {ss ss' : SideSectors} {refs : List Ref}

/-- The references of cluster `i`. -/
def chunk (refs : List Ref) (i : Nat) : List Ref := (refs.drop (720 * i)).take 720

theorem getElem?_chunk (refs : List Ref) (i : Nat) {j : Nat} (hj : j < 720) :
    (chunk refs i)[j]? = refs[720 * i + j]? := by
  rw [chunk, List.getElem?_take_of_lt hj, List.getElem?_drop]

theorem length_chunk (refs : List Ref) (i : Nat) :
    (chunk refs i).length = min 720 (refs.length - 720 * i) := by
  rw [chunk, List.length_take, List.length_drop]

/-- A reference behind the others goes to the last cluster … -/
theorem chunk_append_last {i : Nat} (hi : refs.length / 720 = i) (r : Ref) :
    chunk (refs ++ [r]) i = chunk refs i ++ [r] := by
  have hlen : (refs.drop (720 * i)).length < 720 := by
    rw [List.length_drop]
    omega
  rw [chunk, chunk, List.drop_append_of_le_length (by omega),
    List.take_of_length_le (by rw [List.length_append, List.length_singleton]; omega),
    List.take_of_length_le (by omega)]

/-- … and leaves those before it alone. -/
theorem chunk_append_of_lt {i : Nat} (hi : i < refs.length / 720) (r : Ref) :
    chunk (refs ++ [r]) i = chunk refs i := by
  rw [chunk, chunk, List.drop_append_of_le_length (by omega),
    List.take_append_of_le_length (by rw [List.length_drop]; omega)]

/-- The side sectors hold the references `refs`, 720 of them in a cluster. -/
structure Has (ss : SideSectors) (refs : List Ref) : Prop where
  datablocks : ss.datablocks = refs.length
  length : ss.clusters.length = (refs.length + 719) / 720
  cluster : ∀ i (c : SideSectorCluster), ss.clusters[i]? = some c → c.Has (chunk refs i)

theorem has_new (recordSize : UInt8) : (new g recordSize).Has [] where
  datablocks := rfl
  length := rfl
  cluster := by
    intro i c hc
    exact nomatch hc

/-- Enough clusters for one more reference. -/
theorem Has.ensureCluster (h : ss.Has refs) :
    ss.ensureCluster.datablocks = refs.length ∧
    ss.ensureCluster.clusters.length = refs.length / 720 + 1 ∧
    ∀ i (c : SideSectorCluster), ss.ensureCluster.clusters[i]? = some c →
      c.Has (chunk refs i) := by
  have hdata := h.datablocks
  have hlen := h.length
  rw [SideSectors.ensureCluster]
  by_cases hlt : ss.datablocks / 720 < ss.clusters.length
  · rw [if_pos hlt]
    exact ⟨hdata, by omega, h.cluster⟩
  · rw [if_neg hlt]
    refine ⟨hdata, ?_, ?_⟩
    · show (ss.clusters ++ [_]).length = _
      rw [List.length_append, List.length_singleton]
      omega
    · intro i c hc
      by_cases hi : i < ss.clusters.length
      · rw [List.getElem?_append_left hi] at hc
        exact h.cluster i c hc
      · rw [List.getElem?_append_right (Nat.le_of_not_lt hi)] at hc
        obtain ⟨hone, hnew⟩ := List.getElem?_eq_some_iff.mp hc
        have hempty : chunk refs i = [] := by
          rw [← List.length_eq_zero_iff, length_chunk]
          omega
        rw [List.getElem_singleton] at hnew
        rw [hempty, ← hnew]
        exact SideSectorCluster.has_new _

theorem addToCluster_cases {fs fs' : Fs} {t s : Nat}
    (h : ss.addToCluster g t s fs = some (true, ss', fs')) :
    ∃ c c', ss.clusters[ss.datablocks / 720]? = some c ∧
      c.addDataBlock g t s fs = some (true, c', fs') ∧
      ss' = { ss with datablocks := ss.datablocks + 1
                      clusters := ss.clusters.set (ss.datablocks / 720) c' } := by
  rw [addToCluster] at h
  cases hc : ss.clusters[ss.datablocks / 720]? with
  | none =>
      rw [hc] at h
      exact nomatch h
  | some c =>
      rw [hc] at h
      dsimp only at h
      cases hadd : c.addDataBlock g t s fs with
      | none =>
          rw [hadd] at h
          exact nomatch h
      | some q =>
          obtain ⟨ok, c', f⟩ := q
          rw [hadd] at h
          cases ok with
          | false => exact nomatch h
          | true =>
              cases h
              exact ⟨c, c', rfl, hadd, rfl⟩

/-- What `ensureSuper` does: nothing, or it makes the super side block on the sector
    it was given. -/
theorem ensureSuper_cases {fs fs' : Fs} (h : ss.ensureSuper g fs = some (true, ss', fs')) :
    (¬ (ss.doSuper = true ∧ ss.super.isNone = true) ∧ ss' = ss ∧ fs' = fs) ∨
    (ss.doSuper = true ∧ ss.super = none ∧
      ∃ r, fs.getNextFreeSector g 0 0 = some (r, fs') ∧ r.ok = true ∧
        ss' = { ss with super := some (newSuper r.track r.sector) }) := by
  rw [ensureSuper] at h
  by_cases hneed : ss.doSuper = true ∧ ss.super.isNone = true
  · rw [if_pos hneed] at h
    cases hnext : fs.getNextFreeSector g 0 0 with
    | none =>
        rw [hnext] at h
        exact nomatch h
    | some rf =>
        obtain ⟨r, f⟩ := rf
        rw [hnext] at h
        dsimp only at h
        by_cases hok : r.ok = true
        · rw [if_pos hok] at h
          cases h
          exact Or.inr ⟨hneed.1, Option.isNone_iff_eq_none.mp hneed.2, r, rfl, hok, rfl⟩
        · rw [if_neg hok] at h
          exact nomatch h
  · rw [if_neg hneed] at h
    cases h
    exact Or.inl ⟨hneed, rfl, rfl⟩

theorem addDataBlock_cases {fs fs' : Fs} {t s : Nat}
    (h : ss.addDataBlock g t s fs = some (true, ss', fs')) :
    ∃ ss₁ fs₁, ss.ensureSuper g fs = some (true, ss₁, fs₁) ∧
      ss₁.ensureCluster.addToCluster g t s fs₁ = some (true, ss', fs') := by
  rw [addDataBlock] at h
  cases hs : ss.ensureSuper g fs with
  | none =>
      rw [hs] at h
      exact nomatch h
  | some q =>
      obtain ⟨ok, ss₁, fs₁⟩ := q
      rw [hs] at h
      cases ok with
      | false => exact nomatch h
      | true => exact ⟨ss₁, fs₁, rfl, h⟩

/-- A data block that was added is the last reference. -/
theorem Has.addDataBlock {fs fs' : Fs} {t s : Nat} (h : ss.Has refs)
    (hadd : ss.addDataBlock g t s fs = some (true, ss', fs')) :
    ss'.Has (refs ++ [(UInt8.ofNat t, UInt8.ofNat s)]) := by
  obtain ⟨ss₁, fs₁, hsuper, hto⟩ := addDataBlock_cases hadd
  have h₁ : ss₁.Has refs := by
    rcases ensureSuper_cases hsuper with ⟨-, rfl, -⟩ | ⟨-, -, r, -, -, rfl⟩
    · exact h
    · exact ⟨h.datablocks, h.length, h.cluster⟩
  obtain ⟨hdata, hlen, hclusters⟩ := h₁.ensureCluster
  obtain ⟨c, c', hc, hcadd, rfl⟩ := addToCluster_cases hto
  rw [hdata] at hc
  constructor
  case datablocks =>
    show ss₁.ensureCluster.datablocks + 1 = _
    rw [hdata, List.length_append, List.length_singleton]
  case length =>
    show (List.set _ _ _).length = _
    rw [List.length_set, hlen, List.length_append, List.length_singleton]
    omega
  case cluster =>
    intro i d hd
    have hd' : (ss₁.ensureCluster.clusters.set (refs.length / 720) c')[i]? = some d := by
      rw [← hdata]
      exact hd
    by_cases hi : refs.length / 720 = i
    · subst hi
      rw [List.getElem?_set_self (by omega)] at hd'
      cases hd'
      rw [chunk_append_last rfl]
      exact (hclusters _ c hc).addDataBlock hcadd
    · rw [List.getElem?_set_ne hi] at hd'
      have hlt := (List.getElem?_eq_some_iff.mp hd').1
      rw [chunk_append_of_lt (by omega)]
      exact hclusters i d hd'

/-- `seek` to a position in block `k` finds reference number `k`. -/
theorem Has.seek (h : ss.Has refs) {k : Nat} {r : Ref} (hr : refs[k]? = some r)
    (ht : r.1 ≠ 0) {offset : Nat} (ho : offset < 254) (junk : Indeterminate) (t s : Nat)
    (fs : Fs) :
    ss.seek g junk (254 * k + offset) t s fs = (.ok, 2 + offset, r.1.toNat, r.2.toNat) := by
  have hk : k < refs.length := (List.getElem?_eq_some_iff.mp hr).1
  have hsect : (254 * k + offset) / 254 = k := by omega
  have hoffset : 254 * k + offset - k * 254 = offset := by omega
  have hend : ¬ (k > 0 ∧ k = ss.datablocks ∧ 2 + offset = 2 ∧
      254 * k + offset = ss.getFileSize g junk fs) := by
    rintro ⟨-, hlast, -⟩
    rw [h.datablocks] at hlast
    omega
  have hlt : k / 720 < ss.clusters.length := by
    rw [h.length]
    omega
  have hc : ss.clusters[k / 720]? = some ss.clusters[k / 720] := List.getElem?_eq_getElem hlt
  have hr' : (chunk refs (k / 720))[k % 720]? = some r := by
    rw [getElem?_chunk _ _ (Nat.mod_lt _ (by decide)), Nat.div_add_mod, hr]
  have hin : k - k / 720 * 720 = k % 720 := by omega
  have hfind := (h.cluster _ _ hc).seek hr' ht t s
  rw [SideSectors.seek]
  simp only [hsect, hoffset, if_neg hend, hc, hin, hfind]
  rfl

end SideSectors

end CbmFile
