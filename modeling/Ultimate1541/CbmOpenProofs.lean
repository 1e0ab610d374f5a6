import Ultimate1541.CbmFileProofs

/-! # Opening a file on any image

    `open` follows chains of links for two purposes: `followChain` measures the
    chains of a GEOS file, and `SideSectors::load` reads the side sectors of a
    REL file.  Neither loop looks out for a sector it has been at before, so
    `open` returns if and only if the chains it follows are acyclic
    (`openFile_returns_iff`).  The other walkers keep a map of the sectors they
    have visited: reading to the end, `seek` and `get_size` return on every
    handle. -/

namespace CbmFile

open CbmLayout CbmBam CbmDisk ByteBuffer ChainWalk

variable {g : Geometry}

/-! ## Following a chain -/

theorem prtReadAt_eq (fs : Fs) (t s : Nat) :
    prtReadAt g fs t s = (absSector g t s).map fs.disk := by
  cases h : absSector g t s with
  | none =>
      have hneg : getAbsSector g t s < 0 := by
        by_contra hge
        rw [absSector, if_neg hge] at h
        cases h
      rw [prtReadAt, if_pos hneg]
      rfl
  | some a =>
      have hlt := absSector_lt h
      have hge : ¬ getAbsSector g t s < 0 := by
        intro hneg
        rw [absSector, if_pos hneg] at h
        cases h
      rw [absSector, if_neg hge] at h
      rw [prtReadAt, if_neg hge, Option.some.inj h, Fs.prtRead, if_pos hlt]
      rfl

namespace FileInCBM

theorem followLoop_bad {fs : Fs} {t s : Nat} (h : absSector g t s = none) (fuel n : Nat) :
    followLoop g (fuel + 1) t s n fs = some (.intErr, n + 1, none, fs) := by
  rw [followLoop, h]
  rfl

/-- One round of `followChain`. -/
theorem followLoop_step {fs : Fs} (hs : fs.Settled g) {t s a : Nat}
    (h : absSector g t s = some a) :
    ∃ fs', Fs.Moved g fs fs' ∧ ∀ fuel n, followLoop g (fuel + 1) t s n fs =
      if (fs.disk a).get 0 = 0 then
        some (.ok, n + 1, some ((fs.disk a).get 1).toNat, fs')
      else followLoop g fuel ((fs.disk a).get 0).toNat ((fs.disk a).get 1).toNat (n + 1) fs' := by
  obtain ⟨fs', hx, hm, hbuf, -⟩ := hs.moveWindow (absSector_lt h)
  refine ⟨fs', hm, fun fuel n => ?_⟩
  rw [followLoop, h, hx]
  dsimp only
  rw [hbuf]

/-- A chain that ends is followed to its end. -/
theorem followLoop_returns :
    ∀ (m fuel t s n : Nat) (fs : Fs), fs.Settled g → m < fuel →
      walk (links g fs.disk) (absSector g t s) m = none →
      ∃ r, followLoop g fuel t s n fs = some r := by
  intro m
  induction m with
  | zero =>
      rintro (_ | fuel) t s n fs - hlt hend
      · exact absurd hlt (Nat.lt_irrefl 0)
      · exact ⟨_, followLoop_bad hend fuel n⟩
  | succ m ih =>
      rintro (_ | fuel) t s n fs hs hlt hend
      · exact absurd hlt (Nat.not_lt_zero _)
      · cases ha : absSector g t s with
        | none => exact ⟨_, followLoop_bad ha fuel n⟩
        | some a =>
            obtain ⟨fs', hm, hstep⟩ := followLoop_step hs ha
            rw [hstep fuel n]
            by_cases h0 : (fs.disk a).get 0 = 0
            · rw [if_pos h0]
              exact ⟨_, rfl⟩
            · rw [if_neg h0]
              refine ih fuel _ _ (n + 1) fs' hm.settled (by omega) ?_
              rw [hm.disk]
              rwa [ha, walk_succ] at hend

/-- The loop returns only at the end of a chain, and only moves the window. -/
theorem followLoop_ends :
    ∀ (fuel t s n : Nat) (fs : Fs) (r : FResult × Nat × Option Nat × Fs), fs.Settled g →
      followLoop g fuel t s n fs = some r →
      (∃ m, walk (links g fs.disk) (absSector g t s) m = none) ∧ Fs.Moved g fs r.2.2.2 := by
  intro fuel
  induction fuel with
  | zero => exact fun t s n fs r _ h => nomatch h
  | succ fuel ih =>
      intro t s n fs r hs h
      cases ha : absSector g t s with
      | none =>
          rw [followLoop_bad ha] at h
          cases h
          exact ⟨⟨0, rfl⟩, Fs.Moved.refl hs⟩
      | some a =>
          obtain ⟨fs', hm, hstep⟩ := followLoop_step hs ha
          rw [hstep fuel n] at h
          by_cases h0 : (fs.disk a).get 0 = 0
          · rw [if_pos h0] at h
            cases h
            refine ⟨⟨1, ?_⟩, hm⟩
            rw [walk_succ]
            exact linkOf_end h0
          · rw [if_neg h0] at h
            obtain ⟨⟨m, hend⟩, hm'⟩ := ih _ _ _ _ _ hm.settled h
            refine ⟨⟨m + 1, ?_⟩, hm.trans hm'⟩
            rw [walk_succ]
            rwa [hm.disk] at hend

/-- An acyclic chain is followed to its end. -/
theorem followChain_returns {content : Nat → Block} {t s : Nat}
    (hac : Acyclic (links g content) (absSector g t s)) :
    ∃ enough, ∀ fuel, enough ≤ fuel → ∀ fs : Fs, fs.Settled g → fs.disk = content →
      ∃ r, followChain g fuel t s fs = some r := by
  obtain ⟨m, hend⟩ := links_end_iff.mpr hac
  refine ⟨m + 1, fun fuel hfuel fs hs hdisk => ?_⟩
  rw [followChain]
  cases ha : absSector g t s with
  | none => exact ⟨_, rfl⟩
  | some a =>
      obtain ⟨fs', hx, hm, -, -⟩ := hs.moveWindow (absSector_lt ha)
      rw [hx]
      refine followLoop_returns m fuel t s 0 fs' hm.settled (by omega) ?_
      rwa [hm.disk, hdisk]

theorem followChain_ends {fs : Fs} (hs : fs.Settled g) {fuel t s : Nat}
    {r : FResult × Nat × Option Nat × Fs} (h : followChain g fuel t s fs = some r) :
    Acyclic (links g fs.disk) (absSector g t s) ∧ Fs.Moved g fs r.2.2.2 := by
  rw [followChain] at h
  cases ha : absSector g t s with
  | none =>
      rw [ha] at h
      cases h
      refine ⟨?_, Fs.Moved.refl hs⟩
      intro i j a hi
      rw [walk_none] at hi
      exact nomatch hi
  | some a =>
      obtain ⟨fs', hx, hm, -, -⟩ := hs.moveWindow (absSector_lt ha)
      rw [ha, hx] at h
      obtain ⟨hend, hm'⟩ := followLoop_ends fuel t s 0 fs' r hm.settled h
      rw [hm.disk] at hend
      exact ⟨ha ▸ links_end_iff.mp hend, hm.trans hm'⟩

/-! ## The record table -/

/-- Entry `i` of a record table belongs to it: no entry up to it is `00 00`. -/
def InTable (vlir : Block) (i : Nat) : Prop :=
  i < 127 ∧ ∀ j ≤ i, ¬ (vlir.get (2 + 2 * j) = 0 ∧ vlir.get (3 + 2 * j) = 0)

/-- The first sector of record `i`. -/
def recordStart (g : Geometry) (vlir : Block) (i : Nat) : Option Nat :=
  absSector g (vlir.get (2 + 2 * i)).toNat (vlir.get (3 + 2 * i)).toNat

theorem recordSection_returns {content : Nat → Block} (junk : Indeterminate) {t s : Nat}
    (hac : Acyclic (links g content) (absSector g t s)) :
    ∃ enough, ∀ fuel, enough ≤ fuel → ∀ fs : Fs, fs.Settled g → fs.disk = content →
      ∃ r, recordSection g junk fuel t s fs = some r := by
  obtain ⟨enough, hreturns⟩ := followChain_returns hac
  refine ⟨enough, fun fuel hfuel fs hs hdisk => ?_⟩
  rw [recordSection]
  cases absSector g t s with
  | none => exact ⟨_, rfl⟩
  | some a =>
      obtain ⟨r, hr⟩ := hreturns fuel hfuel fs hs hdisk
      rw [hr]
      exact ⟨_, rfl⟩

theorem recordSection_ends {fs : Fs} (hs : fs.Settled g) {junk : Indeterminate}
    {fuel t s : Nat} {r : Section × Fs} (h : recordSection g junk fuel t s fs = some r) :
    Acyclic (links g fs.disk) (absSector g t s) ∧ Fs.Moved g fs r.2 := by
  rw [recordSection] at h
  cases ha : absSector g t s with
  | none =>
      rw [ha] at h
      cases h
      exact ⟨fun i j a hi => (by rw [walk_none] at hi; exact nomatch hi), Fs.Moved.refl hs⟩
  | some a =>
      rw [ha] at h
      cases hf : followChain g fuel t s fs with
      | none =>
          rw [hf] at h
          exact nomatch h
      | some x =>
          obtain ⟨hac, hm⟩ := followChain_ends hs hf
          rw [hf] at h
          cases h
          exact ⟨ha ▸ hac, hm⟩

/-- The entries of the table from `i` on, `left` of them at most. -/
def EntriesAcyclic (g : Geometry) (content : Nat → Block) (vlir : Block) (i left : Nat) :
    Prop :=
  ∀ k < left, (∀ j ≤ k, ¬ (vlir.get (2 + 2 * (i + j)) = 0 ∧ vlir.get (3 + 2 * (i + j)) = 0)) →
    Acyclic (links g content) (recordStart g vlir (i + k))

theorem entriesAcyclic_succ {content : Nat → Block} {vlir : Block} {i left : Nat}
    (h0 : ¬ (vlir.get (2 + 2 * i) = 0 ∧ vlir.get (3 + 2 * i) = 0)) :
    EntriesAcyclic g content vlir i (left + 1) ↔
      Acyclic (links g content) (recordStart g vlir i) ∧
        EntriesAcyclic g content vlir (i + 1) left := by
  constructor
  · intro h
    refine ⟨h 0 (Nat.succ_pos _) ?_, ?_⟩
    · intro j hj
      obtain rfl : j = 0 := by omega
      exact h0
    · intro k hk hne
      have := h (k + 1) (by omega) ?_
      · rwa [show i + (k + 1) = i + 1 + k by omega] at this
      · intro j hj
        cases j with
        | zero => exact h0
        | succ j =>
            rw [show i + (j + 1) = i + 1 + j by omega]
            exact hne j (by omega)
  · rintro ⟨hfirst, hrest⟩ k hk hne
    cases k with
    | zero => exact hfirst
    | succ k =>
        rw [show i + (k + 1) = i + 1 + k by omega]
        refine hrest k (by omega) fun j hj => ?_
        rw [show i + 1 + j = i + (j + 1) by omega]
        exact hne (j + 1) (by omega)

theorem recordSections_returns {content : Nat → Block} (junk : Indeterminate) (vlir : Block) :
    ∀ left i, EntriesAcyclic g content vlir i left →
      ∃ enough, ∀ fuel, enough ≤ fuel → ∀ fs : Fs, fs.Settled g → fs.disk = content →
        ∃ r, recordSections g junk fuel vlir i left fs = some r := by
  intro left
  induction left with
  | zero => exact fun i _ => ⟨0, fun fuel _ fs _ _ => ⟨_, rfl⟩⟩
  | succ left ih =>
      intro i hac
      by_cases h0 : vlir.get (2 + 2 * i) = 0 ∧ vlir.get (3 + 2 * i) = 0
      · refine ⟨0, fun fuel _ fs _ _ => ⟨([], fs), ?_⟩⟩
        rw [recordSections]
        exact if_pos h0
      · obtain ⟨hfirst, hrest⟩ := (entriesAcyclic_succ h0).mp hac
        obtain ⟨e₁, h₁⟩ := recordSection_returns junk hfirst
        obtain ⟨e₂, h₂⟩ := ih (i + 1) hrest
        refine ⟨max e₁ e₂, fun fuel hfuel fs hs hdisk => ?_⟩
        obtain ⟨⟨sec, fs'⟩, hx⟩ := h₁ fuel (Nat.le_trans (Nat.le_max_left ..) hfuel) fs hs hdisk
        obtain ⟨-, hm⟩ := recordSection_ends hs hx
        obtain ⟨⟨secs, fs''⟩, hy⟩ :=
          h₂ fuel (Nat.le_trans (Nat.le_max_right ..) hfuel) fs' hm.settled (hm.disk.trans hdisk)
        rw [recordSections, if_neg h0, hx]
        dsimp only
        rw [hy]
        exact ⟨_, rfl⟩

theorem recordSections_ends {junk : Indeterminate} {fuel : Nat} {vlir : Block} :
    ∀ (left i : Nat) (fs : Fs) (r : List Section × Fs), fs.Settled g →
      recordSections g junk fuel vlir i left fs = some r →
      EntriesAcyclic g fs.disk vlir i left ∧ Fs.Moved g fs r.2 := by
  intro left
  induction left with
  | zero =>
      intro i fs r hs h
      cases h
      exact ⟨fun k hk => absurd hk (Nat.not_lt_zero k), Fs.Moved.refl hs⟩
  | succ left ih =>
      intro i fs r hs h
      rw [recordSections] at h
      by_cases h0 : vlir.get (2 + 2 * i) = 0 ∧ vlir.get (3 + 2 * i) = 0
      · rw [if_pos h0] at h
        cases h
        exact ⟨fun k _ hne => absurd h0 (hne 0 (Nat.zero_le k)), Fs.Moved.refl hs⟩
      · rw [if_neg h0] at h
        cases hx : recordSection g junk fuel (vlir.get (2 + 2 * i)).toNat
            (vlir.get (3 + 2 * i)).toNat fs with
        | none =>
            rw [hx] at h
            exact nomatch h
        | some x =>
            obtain ⟨hac, hm⟩ := recordSection_ends hs hx
            rw [hx] at h
            dsimp only at h
            cases hy : recordSections g junk fuel vlir (i + 1) left x.2 with
            | none =>
                rw [hy] at h
                exact nomatch h
            | some y =>
                obtain ⟨hrest, hm'⟩ := ih (i + 1) x.2 y hm.settled hy
                rw [hy] at h
                cases h
                rw [hm.disk] at hrest
                exact ⟨(entriesAcyclic_succ h0).mpr ⟨hac, hrest⟩, hm.trans hm'⟩

end FileInCBM

/-! ## Side sectors -/

namespace SideSectorCluster

theorem loadLoop_bad {fs : Fs} {t s : UInt8} (ht : t ≠ 0)
    (h : absSector g t.toNat s.toNat = none) (left : Nat) (c : SideSectorCluster) :
    loadLoop g fs (left + 1) c t s
      = (.diskErr, { c with blocks := c.blocks ++ [⟨t, s, Buffer.zero⟩] }, t, s) := by
  rw [loadLoop, if_neg ht, prtReadAt_eq, h]
  rfl

/-- A cluster reads as many side sectors of the chain as it has room for, and
    goes on only if all of them are there. -/
theorem loadLoop_walk {fs : Fs} :
    ∀ (left : Nat) (c : SideSectorCluster) (t s : UInt8)
      (r : FResult × SideSectorCluster × UInt8 × UInt8), loadLoop g fs left c t s = r →
      (r.1 = .ok → absSector g r.2.2.1.toNat r.2.2.2.toNat
        = walk (links g fs.disk) (absSector g t.toNat s.toNat) left) ∧
      (r.1 ≠ .ok → walk (links g fs.disk) (absSector g t.toNat s.toNat) left = none) := by
  intro left
  induction left with
  | zero =>
      rintro c t s r rfl
      exact ⟨fun _ => rfl, fun h => absurd rfl h⟩
  | succ left ih =>
      rintro c t s r hr
      by_cases ht : t = 0
      · rw [loadLoop, if_pos ht] at hr
        subst hr ht
        have hnone : walk (links g fs.disk) (absSector g (0 : UInt8).toNat s.toNat) (left + 1)
            = none := by
          rw [UInt8.toNat_zero, absSector_zero, walk_none]
        exact ⟨fun _ => (absSector_zero g _).trans hnone.symm, fun h => absurd rfl h⟩
      · cases ha : absSector g t.toNat s.toNat with
        | none =>
            rw [loadLoop_bad ht ha] at hr
            subst hr
            refine ⟨?_, fun _ => walk_none _⟩
            exact fun h => nomatch h
        | some a =>
            rw [loadLoop, if_neg ht, prtReadAt_eq, ha] at hr
            rw [walk_succ]
            exact ih _ _ _ r hr

end SideSectorCluster

namespace SideSectors

/-- Where the chain of clusters starts: behind the super side block, if the
    first block is one. -/
def start (g : Geometry) (content : Nat → Block) (t s : UInt8) : Option Nat :=
  match absSector g t.toNat s.toNat with
  | none => none
  | some a => if (content a).get 2 = 0xFE then linkOf g (content a) else some a

theorem loadLoop_returns {fs : Fs} :
    ∀ (k fuel : Nat) (ss : SideSectors) (t s : UInt8), k < fuel →
      walk (links g fs.disk) (absSector g t.toNat s.toNat) (6 * k) = none →
      ∃ r, loadLoop g fs fuel ss t s = some r := by
  intro k
  induction k with
  | zero =>
      rintro (_ | fuel) ss t s hlt hend
      · exact absurd hlt (Nat.lt_irrefl 0)
      · by_cases ht : t = 0
        · exact ⟨(.ok, ss), by rw [loadLoop, if_pos ht]⟩
        · rw [loadLoop, if_neg ht, SideSectorCluster.load,
            SideSectorCluster.loadLoop_bad ht hend]
          exact ⟨_, rfl⟩
  | succ k ih =>
      rintro (_ | fuel) ss t s hlt hend
      · exact absurd hlt (Nat.not_lt_zero _)
      · by_cases ht : t = 0
        · exact ⟨(.ok, ss), by rw [loadLoop, if_pos ht]⟩
        · rw [loadLoop, if_neg ht]
          rcases hx : (SideSectorCluster.new 0).load g t s fs with ⟨res, c, t', s'⟩
          obtain ⟨hok, -⟩ := SideSectorCluster.loadLoop_walk _ _ _ _ _ hx
          cases res
          case ok =>
            refine ih fuel _ _ _ (by omega) ?_
            rw [hok rfl, ← walk_add]
            rwa [show 6 + 6 * k = 6 * (k + 1) by omega]
          all_goals exact ⟨_, rfl⟩

theorem loadLoop_ends {fs : Fs} :
    ∀ (fuel : Nat) (ss : SideSectors) (t s : UInt8) (r : FResult × SideSectors),
      loadLoop g fs fuel ss t s = some r →
      ∃ m, walk (links g fs.disk) (absSector g t.toNat s.toNat) m = none := by
  intro fuel
  induction fuel with
  | zero => exact fun ss t s r h => nomatch h
  | succ fuel ih =>
      intro ss t s r h
      by_cases ht : t = 0
      · refine ⟨0, ?_⟩
        rw [walk_zero, ht]
        exact absSector_zero g _
      · rw [loadLoop, if_neg ht] at h
        rcases hx : (SideSectorCluster.new 0).load g t s fs with ⟨res, c, t', s'⟩
        obtain ⟨hok, hbad⟩ := SideSectorCluster.loadLoop_walk _ _ _ _ _ hx
        rw [hx] at h
        cases res
        case ok =>
          obtain ⟨m, hend⟩ := ih _ _ _ _ h
          rw [hok rfl, ← walk_add] at hend
          exact ⟨6 + m, hend⟩
        all_goals exact ⟨6, hbad (fun h => nomatch h)⟩

/-- The side sectors are read to the end of their chain if and only if it is
    acyclic. -/
theorem load_returns {content : Nat → Block} (ss : SideSectors) {t s : UInt8}
    (hac : Acyclic (links g content) (start g content t s)) :
    ∃ enough, ∀ fuel, enough ≤ fuel → ∀ fs : Fs, fs.Settled g → fs.disk = content →
      ∃ r, ss.load g fuel t s fs = some r := by
  cases ha : absSector g t.toNat s.toNat with
  | none =>
      refine ⟨0, fun fuel _ fs _ _ => ⟨(.intErr, ss, fs), ?_⟩⟩
      rw [load, ha]
      rfl
  | some a =>
      obtain ⟨t', s', hstart, ht, hs'⟩ : ∃ t' s' : UInt8,
          start g content t s = absSector g t'.toNat s'.toNat ∧
          t' = (if (content a).get 2 = 0xFE then (content a).get 0 else t) ∧
          s' = (if (content a).get 2 = 0xFE then (content a).get 1 else s) := by
        refine ⟨_, _, ?_, rfl, rfl⟩
        rw [start, ha]
        dsimp only
        by_cases hsup : (content a).get 2 = 0xFE
        · rw [if_pos hsup, if_pos hsup, if_pos hsup]
          rfl
        · rw [if_neg hsup, if_neg hsup, if_neg hsup, ha]
      rw [hstart] at hac
      obtain ⟨m, hend⟩ := links_end_iff.mpr hac
      refine ⟨m + 1, fun fuel hfuel fs hs hdisk => ?_⟩
      obtain ⟨fs', hx, hm, hbuf, -⟩ := hs.moveWindow (absSector_lt ha)
      have hlong : walk (links g fs'.disk) (absSector g t'.toNat s'.toNat) (6 * m) = none := by
        rw [hm.disk, hdisk, show 6 * m = m + 5 * m by omega, walk_add, hend, walk_none]
      rw [load, ha, hx]
      dsimp only
      rw [hbuf, hdisk, ← ht, ← hs']
      obtain ⟨r, hr⟩ := loadLoop_returns m fuel _ t' s' (by omega) hlong
      rw [hr]
      exact ⟨_, rfl⟩

theorem load_ends {fs : Fs} (hs : fs.Settled g) {fuel : Nat} {ss : SideSectors} {t s : UInt8}
    {r : FResult × SideSectors × Fs} (h : ss.load g fuel t s fs = some r) :
    Acyclic (links g fs.disk) (start g fs.disk t s) ∧ Fs.Moved g fs r.2.2 := by
  cases ha : absSector g t.toNat s.toNat with
  | none =>
      rw [load, ha] at h
      cases h
      refine ⟨?_, Fs.Moved.refl hs⟩
      rw [start, ha]
      intro i j a hi
      rw [walk_none] at hi
      exact nomatch hi
  | some a =>
      obtain ⟨fs', hx, hm, hbuf, -⟩ := hs.moveWindow (absSector_lt ha)
      rw [load, ha, hx] at h
      dsimp only at h
      obtain ⟨r', hr', rfl⟩ := Option.map_eq_some_iff.mp h
      refine ⟨?_, hm⟩
      have hend := links_end_iff.mp (loadLoop_ends _ _ _ _ _ hr')
      rw [start, ha]
      dsimp only
      rw [hbuf, hm.disk] at hend
      by_cases hsup : (fs.disk a).get 2 = 0xFE
      · rw [if_pos hsup]
        rwa [if_pos hsup, if_pos hsup] at hend
      · rw [if_neg hsup]
        rwa [if_neg hsup, if_neg hsup, ha] at hend

end SideSectors

/-! ## Opening -/

namespace FileInCBM

/-- The chains `open` follows for an entry never come back to a sector: the side
    sectors of a REL file, the chain of a sequential GEOS file, the chain of
    every record of a VLIR file. -/
structure FollowsNoCycle (g : Geometry) (content : Nat → Block) (de : DirEntryCBM)
    (flags : UInt8) : Prop where
  side : typeCode de = 4 → de.at .recordSize ≠ 0 → de.at .auxTrack ≠ 0 →
    Acyclic (links g content)
      (SideSectors.start g content (de.at .auxTrack) (de.at .auxSector))
  data : isGeosEntry de = true → flags &&& 0x80 = 0 → de.at .recordSize = 0 →
    absSector g (de.at .auxTrack).toNat (de.at .auxSector).toNat ≠ none →
    Acyclic (links g content)
      (absSector g (de.at .dataTrack).toNat (de.at .dataSector).toNat)
  records : isGeosEntry de = true → flags &&& 0x80 = 0 → de.at .recordSize ≠ 0 →
    absSector g (de.at .auxTrack).toNat (de.at .auxSector).toNat ≠ none →
    ∀ b, absSector g (de.at .dataTrack).toNat (de.at .dataSector).toNat = some b →
      ∀ i, InTable (content b) i → Acyclic (links g content) (recordStart g (content b) i)

theorem visit_fs (f : FileInCBM) : (f.visit g).file.fs = f.fs := by
  rw [visit]
  split
  · rfl
  · split <;> rfl

theorem visit_dirEntry (f : FileInCBM) : (f.visit g).file.dirEntry = f.dirEntry := by
  rw [visit]
  split
  · rfl
  · split <;> rfl

theorem openPosition_fs (f : FileInCBM) : (f.openPosition g).fs = f.fs := by
  rw [openPosition]
  split <;> rfl

theorem openPosition_dirEntry (f : FileInCBM) : (f.openPosition g).dirEntry = f.dirEntry := by
  rw [openPosition]
  split <;> rfl

theorem openBegin_fs (f : FileInCBM) : (f.openBegin g).fs = f.fs :=
  (visit_fs _).trans (openPosition_fs f)

theorem openBegin_dirEntry (f : FileInCBM) : (f.openBegin g).dirEntry = f.dirEntry :=
  (visit_dirEntry _).trans (openPosition_dirEntry f)

theorem openBegin_settled {f : FileInCBM} (hs : f.fs.Settled g) : (f.openBegin g).fs.Settled g := by
  rwa [openBegin_fs]

/-- A REL entry has no CVT header. -/
theorem isGeosEntry_rel {de : DirEntryCBM} (h : typeCode de = 4) : isGeosEntry de = false := by
  rw [isGeosEntry, h]
  rfl

theorem entriesAcyclic_iff {content : Nat → Block} {vlir : Block} :
    EntriesAcyclic g content vlir 0 127 ↔
      ∀ i, InTable vlir i → Acyclic (links g content) (recordStart g vlir i) := by
  constructor
  · rintro h i ⟨hi, hne⟩
    have := h i hi fun j hj => by rw [Nat.zero_add]; exact hne j hj
    rwa [Nat.zero_add] at this
  · intro h k hk hne
    rw [Nat.zero_add]
    refine h k ⟨hk, fun j hj => ?_⟩
    have := hne j hj
    rwa [Nat.zero_add] at this

theorem createVlirHeader_isSome {junk : Indeterminate} {fuel : Nat} {f : FileInCBM}
    {info vlir : Block} {fs : Fs} :
    (∃ f', createVlirHeader g junk fuel f info vlir fs = some f') ↔
      ∃ r, recordSections g junk fuel vlir 0 127 fs = some r := by
  rw [createVlirHeader]
  cases recordSections g junk fuel vlir 0 127 fs with
  | none =>
      constructor
      · rintro ⟨_, h⟩
        exact nomatch h
      · rintro ⟨_, h⟩
        exact nomatch h
  | some r => exact ⟨fun _ => ⟨r, rfl⟩, fun _ => ⟨_, rfl⟩⟩

/-- `create_cvt_header` returns if the chains it follows are acyclic. -/
theorem createCvtHeader_returns {content : Nat → Block} (junk : Indeterminate)
    {de : DirEntryCBM} {flags : UInt8} (hac : FollowsNoCycle g content de flags)
    (hgeos : isGeosEntry de = true) (hflags : flags &&& 0x80 = 0) :
    ∃ enough, ∀ fuel, enough ≤ fuel → ∀ f : FileInCBM, f.fs.Settled g → f.fs.disk = content →
      f.dirEntry = de → ∃ f', createCvtHeader g junk fuel f = some f' := by
  cases haux : absSector g (de.at .auxTrack).toNat (de.at .auxSector).toNat with
  | none =>
      refine ⟨0, fun fuel _ f _ _ hde => ?_⟩
      rw [createCvtHeader, hde, haux]
      exact ⟨_, rfl⟩
  | some a =>
      have hvalid : absSector g (de.at .auxTrack).toNat (de.at .auxSector).toNat ≠ none := by
        rw [haux]
        exact fun h => nomatch h
      by_cases hseq : de.at .recordSize = 0
      · obtain ⟨enough, hreturns⟩ := followChain_returns (hac.data hgeos hflags hseq hvalid)
        refine ⟨enough, fun fuel hfuel f hs hdisk hde => ?_⟩
        obtain ⟨fs, hx, hm, -, -⟩ := hs.moveWindow (absSector_lt haux)
        obtain ⟨r, hr⟩ := hreturns fuel hfuel fs hm.settled (hm.disk.trans hdisk)
        rw [createCvtHeader, hde, haux, hx]
        dsimp only
        rw [if_pos hseq, hr]
        exact ⟨_, rfl⟩
      · cases hdata : absSector g (de.at .dataTrack).toNat (de.at .dataSector).toNat with
        | none =>
            refine ⟨0, fun fuel _ f hs _ hde => ?_⟩
            obtain ⟨fs, hx, hm, -, -⟩ := hs.moveWindow (absSector_lt haux)
            rw [createCvtHeader, hde, haux, hx]
            dsimp only
            rw [if_neg hseq, prtReadAt_eq, hdata]
            exact ⟨_, rfl⟩
        | some b =>
            obtain ⟨enough, hreturns⟩ := recordSections_returns junk (content b) 127 0
              (entriesAcyclic_iff.mpr (hac.records hgeos hflags hseq hvalid b hdata))
            refine ⟨enough, fun fuel hfuel f hs hdisk hde => ?_⟩
            obtain ⟨fs, hx, hm, -, -⟩ := hs.moveWindow (absSector_lt haux)
            rw [createCvtHeader, hde, haux, hx]
            dsimp only
            rw [if_neg hseq, prtReadAt_eq, hdata]
            refine createVlirHeader_isSome.mpr ?_
            rw [hm.disk, hdisk]
            exact hreturns fuel hfuel fs hm.settled (hm.disk.trans hdisk)

/-- `create_cvt_header` returns only if the chains it follows are acyclic. -/
theorem createCvtHeader_acyclic {junk : Indeterminate} {fuel : Nat} {f f' : FileInCBM}
    (hs : f.fs.Settled g) {flags : UInt8} (hgeos : isGeosEntry f.dirEntry = true)
    (h : createCvtHeader g junk fuel f = some f') :
    FollowsNoCycle g f.fs.disk f.dirEntry flags := by
  refine ⟨fun h4 => ?_, fun _ _ hseq hvalid => ?_, fun _ _ hseq hvalid b hdata => ?_⟩
  · rw [isGeosEntry_rel h4] at hgeos
    exact nomatch hgeos
  · obtain ⟨a, haux⟩ := Option.ne_none_iff_exists'.mp hvalid
    obtain ⟨fs, hx, hm, -, -⟩ := hs.moveWindow (absSector_lt haux)
    rw [createCvtHeader, haux, hx] at h
    dsimp only at h
    rw [if_pos hseq] at h
    cases hf : followChain g fuel (f.dirEntry.at .dataTrack).toNat
        (f.dirEntry.at .dataSector).toNat fs with
    | none =>
        rw [hf] at h
        exact nomatch h
    | some r =>
        have hac := (followChain_ends hm.settled hf).1
        rwa [hm.disk] at hac
  · obtain ⟨a, haux⟩ := Option.ne_none_iff_exists'.mp hvalid
    obtain ⟨fs, hx, hm, -, -⟩ := hs.moveWindow (absSector_lt haux)
    rw [createCvtHeader, haux, hx] at h
    dsimp only at h
    rw [if_neg hseq, prtReadAt_eq, hdata] at h
    obtain ⟨r, hr⟩ := createVlirHeader_isSome.mp ⟨f', h⟩
    have hac := (recordSections_ends 127 0 fs r hm.settled hr).1
    rw [hm.disk] at hac
    exact entriesAcyclic_iff.mp hac

theorem openRel_returns {content : Nat → Block} {de : DirEntryCBM}
    (hac : de.at .recordSize ≠ 0 → de.at .auxTrack ≠ 0 → Acyclic (links g content)
      (SideSectors.start g content (de.at .auxTrack) (de.at .auxSector))) :
    ∃ enough, ∀ fuel, enough ≤ fuel → ∀ f : FileInCBM, f.fs.Settled g → f.fs.disk = content →
      f.dirEntry = de → ∃ f', openRel g fuel f = some f' := by
  by_cases hsize : de.at .recordSize = 0
  · refine ⟨0, fun fuel _ f _ _ hde => ?_⟩
    rw [openRel, hde]
    dsimp only
    rw [if_pos hsize]
    exact ⟨_, rfl⟩
  · by_cases haux : de.at .auxTrack = 0
    · refine ⟨0, fun fuel _ f _ _ hde => ?_⟩
      rw [openRel, hde]
      dsimp only
      rw [if_neg hsize, if_pos haux]
      exact ⟨_, rfl⟩
    · obtain ⟨enough, hreturns⟩ :=
        SideSectors.load_returns (SideSectors.new g (de.at .recordSize)) (hac hsize haux)
      refine ⟨enough, fun fuel hfuel f hs hdisk hde => ?_⟩
      obtain ⟨r, hr⟩ := hreturns fuel hfuel f.fs hs hdisk
      rw [openRel, hde]
      dsimp only
      rw [if_neg hsize, if_neg haux, hr]
      exact ⟨_, rfl⟩

theorem openRel_acyclic {fuel : Nat} {f f' : FileInCBM} (hs : f.fs.Settled g)
    (h : openRel g fuel f = some f') (hsize : f.dirEntry.at .recordSize ≠ 0)
    (haux : f.dirEntry.at .auxTrack ≠ 0) :
    Acyclic (links g f.fs.disk)
      (SideSectors.start g f.fs.disk (f.dirEntry.at .auxTrack) (f.dirEntry.at .auxSector)) := by
  rw [openRel] at h
  dsimp only at h
  rw [if_neg hsize, if_neg haux] at h
  cases hl : (SideSectors.new g (f.dirEntry.at .recordSize)).load g fuel
      (f.dirEntry.at .auxTrack) (f.dirEntry.at .auxSector) f.fs with
  | none =>
      rw [hl] at h
      exact nomatch h
  | some r => exact (SideSectors.load_ends hs hl).1

/-- `open` returns if the chains it follows are acyclic. -/
theorem openFile_returns {content : Nat → Block} (junk : Indeterminate) {de : DirEntryCBM}
    {flags : UInt8} (hac : FollowsNoCycle g content de flags) :
    ∃ enough, ∀ fuel, enough ≤ fuel → ∀ f : FileInCBM, f.fs.Settled g → f.fs.disk = content →
      f.dirEntry = de → ∃ r, openFile g junk fuel flags f = some r := by
  by_cases h4 : typeCode de = 4
  · obtain ⟨enough, hreturns⟩ := openRel_returns (hac.side h4)
    refine ⟨enough, fun fuel hfuel f hs hdisk hde => ?_⟩
    obtain ⟨f', hx⟩ := hreturns fuel hfuel (f.openBegin g) (openBegin_settled hs)
      ((congrArg Fs.disk (openBegin_fs f)).trans hdisk) ((openBegin_dirEntry f).trans hde)
    rw [openFile, openBegin_dirEntry, hde, if_pos h4, hx]
    exact ⟨_, rfl⟩
  · by_cases hgeos : isGeosEntry de = true
    · by_cases hflags : flags &&& 0x80 = 0
      · obtain ⟨enough, hreturns⟩ := createCvtHeader_returns junk hac hgeos hflags
        refine ⟨enough, fun fuel hfuel f hs hdisk hde => ?_⟩
        obtain ⟨f', hx⟩ := hreturns fuel hfuel (f.openBegin g).inHeader
          (openBegin_settled hs) ((congrArg Fs.disk (openBegin_fs f)).trans hdisk)
          ((openBegin_dirEntry f).trans hde)
        rw [openFile, openBegin_dirEntry, hde, if_neg h4, if_pos hgeos, if_pos hflags, hx]
        exact ⟨_, rfl⟩
      · refine ⟨0, fun fuel _ f _ _ hde => ?_⟩
        rw [openFile, openBegin_dirEntry, hde, if_neg h4, if_pos hgeos, if_neg hflags]
        exact ⟨_, rfl⟩
    · refine ⟨0, fun fuel _ f _ _ hde => ?_⟩
      rw [openFile, openBegin_dirEntry, hde, if_neg h4, if_neg hgeos]
      split <;> exact ⟨_, rfl⟩

/-- `open` returns only if the chains it follows are acyclic. -/
theorem openFile_acyclic {junk : Indeterminate} {fuel : Nat} {flags : UInt8} {f : FileInCBM}
    {r : Reply} (hs : f.fs.Settled g) (h : openFile g junk fuel flags f = some r) :
    FollowsNoCycle g f.fs.disk f.dirEntry flags := by
  rw [openFile, openBegin_dirEntry] at h
  by_cases h4 : typeCode f.dirEntry = 4
  · rw [if_pos h4] at h
    obtain ⟨f', hx, -⟩ := Option.map_eq_some_iff.mp h
    refine ⟨fun _ hsize haux => ?_, fun hgeos => ?_, fun hgeos => ?_⟩
    · have hac := openRel_acyclic (openBegin_settled hs) hx
      rw [openBegin_dirEntry, openBegin_fs] at hac
      exact hac hsize haux
    · rw [isGeosEntry_rel h4] at hgeos
      exact nomatch hgeos
    · rw [isGeosEntry_rel h4] at hgeos
      exact nomatch hgeos
  · rw [if_neg h4] at h
    by_cases hgeos : isGeosEntry f.dirEntry = true
    · rw [if_pos hgeos] at h
      by_cases hflags : flags &&& 0x80 = 0
      · rw [if_pos hflags] at h
        obtain ⟨f', hx, -⟩ := Option.map_eq_some_iff.mp h
        have hde : (f.openBegin g).inHeader.dirEntry = f.dirEntry := openBegin_dirEntry f
        have hfs : (f.openBegin g).inHeader.fs = f.fs := openBegin_fs f
        have hac : FollowsNoCycle g (f.openBegin g).inHeader.fs.disk
            (f.openBegin g).inHeader.dirEntry flags :=
          createCvtHeader_acyclic (f := (f.openBegin g).inHeader) (openBegin_settled hs)
            ((congrArg isGeosEntry hde).trans hgeos) hx
        rwa [hde, hfs] at hac
      · exact ⟨fun h4' => absurd h4' h4, fun _ hf => absurd hf hflags,
          fun _ hf => absurd hf hflags⟩
    · exact ⟨fun h4' => absurd h4' h4, fun hg => absurd hg hgeos, fun hg => absurd hg hgeos⟩

end FileInCBM

end CbmFile
