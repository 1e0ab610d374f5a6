import Ultimate1541.CbmFreeSearchProofs

/-! # The free sector search of D71

    `FileSystemD71::get_next_free_sector` looks at the hint, at side 0 below
    the directory, at side 1, and last at side 0 above the directory.  The loop
    of that last pass counts upwards from track 35, so it never sees tracks 19
    to 34: it goes over side 1 once more, track 53 included this time, and then
    on to the entry of a track 71 that does not exist.  The search keeps its
    contract exactly when it is over before that. -/

namespace CbmBam

open CbmLayout ByteBuffer Footprint Footprint.Prog

/-- What the search is for, about one run on the map `m` that answered `r`, left
    `m'` and touched `tr`. -/
structure SearchContract (m : Bam) (track : Nat) (r : NextFree) (m' : Bam)
    (tr : List Addr) : Prop where
  /-- Only entries of tracks 1 to 70 are read or written ... -/
  touched : ∀ a ∈ tr, ∃ t, 1 ≤ t ∧ t ≤ 70 ∧ InEntry .d71 t a
  /-- ... or changed. -/
  changed : ∀ a, (∀ t, 1 ≤ t → t ≤ 70 → ¬ InEntry .d71 t a) → m'.cell a = m.cell a
  /-- The search succeeds when there is something to find. -/
  answer : r.ok = true ↔ ∃ t,
    (t = startHint .d71 track ∨ (1 ≤ t ∧ t ≤ 70 ∧ t ≠ 18 ∧ t ≠ 53)) ∧
    TrackFree .d71 m.cell t
  /-- The sector handed out was free, is allocated, and is the only one that
      changed. -/
  handed : r.ok = true →
    freeBit .d71 m.cell r.track r.sector = true ∧
    freeBit .d71 m'.cell r.track r.sector = false ∧
    ∀ t s, s < 8 * bitBytes .d71 → ¬ (t = r.track ∧ s = r.sector) →
      freeBit .d71 m'.cell t s = freeBit .d71 m.cell t s

/-- The search finds a sector before the last pass leaves the buffers: on the
    hint, on a track up to 17, on side 1 or on track 35; or on track 53, which
    only counts as an answer when a track the pass skips has a free sector. -/
def SearchReaches (m : Bam) (track : Nat) : Prop :=
  (∃ t, (t = startHint .d71 track ∨ (1 ≤ t ∧ t ≤ 17) ∨ (35 ≤ t ∧ t ≤ 70 ∧ t ≠ 53)) ∧
    TrackFree .d71 m.cell t) ∨
  (TrackFree .d71 m.cell 53 ∧ ∃ t, 19 ≤ t ∧ t ≤ 34 ∧ TrackFree .d71 m.cell t)

/-- Every track the search looks at has an entry. -/
theorem searchOrderD71_bounds {track t : Nat} (h : track ≤ 70)
    (ht : t ∈ searchOrderD71 (startHint .d71 track)) : 1 ≤ t ∧ t ≤ 70 := by
  have hhint : 1 ≤ startHint .d71 track ∧ startHint .d71 track ≤ 70 := by
    unfold startHint
    split
    · decide
    · omega
  rcases mem_searchOrderD71.mp ht with rfl | h | h
  · exact hhint
  · omega
  · omega

/-- A run that finds a sector, seen from outside. -/
theorem run_d71_of_found {m m' : Bam} {track sector t s : Nat}
    (hx : (tryTracks .d71 (searchOrderD71 (startHint .d71 track))).exec m
      = some (some (t, s), m')) :
    (FileSystemD71.getNextFreeSector track sector).exec m = some (⟨true, t, s⟩, m') := by
  rw [getNextFreeSector_d71_eq, exec_bind_of hx]
  rfl

theorem run_d71_of_none {m m' : Bam} {track sector : Nat}
    (hx : (tryTracks .d71 (searchOrderD71 (startHint .d71 track))).exec m
      = some (none, m')) :
    (FileSystemD71.getNextFreeSector track sector).exec m = none := by
  rw [getNextFreeSector_d71_eq, exec_bind_of hx]
  rfl

/-- The footprint of the D71 search. -/
theorem within_getNextFreeSector_d71 (track sector : Nat) :
    Within (fun a => ∃ t ∈ searchOrderD71 (startHint .d71 track), InEntry .d71 t a)
      (FileSystemD71.getNextFreeSector track sector) := by
  rw [getNextFreeSector_d71_eq]
  refine (within_tryTracks .d71 _).bind fun x => ?_
  cases x with
  | some r => exact Within.pure _
  | none =>
      intro m r m' tr h
      exact nomatch h

/-- The D71 search on a map in order: it either hands out a sector of a track
    it looked at, or runs out of the buffers because there was none. -/
theorem getNextFreeSector_d71_spec {m : Bam} (hm : Consistent .d71 m.cell) {track : Nat}
    (htrack : track ≤ 70) (sector : Nat) :
    (∃ t s m', (FileSystemD71.getNextFreeSector track sector).exec m
          = some (⟨true, t, s⟩, m') ∧
        t ∈ searchOrderD71 (startHint .d71 track) ∧ TrackFree .d71 m.cell t ∧
        Found .d71 m m' t s) ∨
    ((FileSystemD71.getNextFreeSector track sector).exec m = none ∧
      ∀ t ∈ searchOrderD71 (startHint .d71 track), ¬ TrackFree .d71 m.cell t) := by
  have haddr : ∀ t ∈ searchOrderD71 (startHint .d71 track), Addressable .d71 t :=
    fun t ht => addressable_of_le (searchOrderD71_bounds htrack ht).2
  have hfree : ∀ t ∈ searchOrderD71 (startHint .d71 track),
      (Allocatable .d71 m.cell t ↔ TrackFree .d71 m.cell t) := by
    intro t ht
    obtain ⟨h1, h2⟩ := searchOrderD71_bounds htrack ht
    exact hm.allocatable_iff (by decide) h1 h2
  rcases tryTracks_spec (by decide : Kind.d71 ≠ .dnp) _ m haddr with
    ⟨t, s, m', hx, ht, ha, -, hf⟩ | ⟨m', hx, hno, -⟩
  · exact Or.inl ⟨t, s, m', run_d71_of_found hx, ht, (hfree t ht).mp ha, hf⟩
  · exact Or.inr ⟨run_d71_of_none hx, fun t ht h => hno t ht ((hfree t ht).mpr h)⟩

/-- **THE D71 SEARCH**: on every map in order and for every hint the search
    keeps its contract if and only if it finds something before its last pass
    leaves the buffers. -/
theorem getNextFreeSector_d71_contract_iff {m : Bam} (hm : Consistent .d71 m.cell)
    {track : Nat} (htrack : track ≤ 70) (sector : Nat) :
    (∃ r m' tr, FileSystemD71.getNextFreeSector track sector m = some (r, m', tr) ∧
        SearchContract m track r m' tr) ↔ SearchReaches m track := by
  constructor
  · rintro ⟨r, m', tr, hrun, hc⟩
    have hexec := exec_eq_some.mpr ⟨tr, hrun⟩
    rcases getNextFreeSector_d71_spec hm htrack sector with
      ⟨t, s, m₁, hx, ht, hfree, -⟩ | ⟨hx, -⟩
    · rw [hx] at hexec
      obtain ⟨rfl, rfl⟩ := Prod.mk.inj (Option.some.inj hexec)
      obtain ⟨t', ht', hfree'⟩ := hc.answer.mp rfl
      by_cases hskip : 19 ≤ t' ∧ t' ≤ 34 ∧ t' ≠ startHint .d71 track
      · by_cases h53 : t = 53
        · exact Or.inr ⟨h53 ▸ hfree, t', hskip.1, hskip.2.1, hfree'⟩
        · refine Or.inl ⟨t, ?_, hfree⟩
          rcases mem_searchOrderD71.mp ht with h | h | h
          · exact Or.inl h
          · exact Or.inr (Or.inl h)
          · exact Or.inr (Or.inr ⟨h.1, h.2, h53⟩)
      · refine Or.inl ⟨t', ?_, hfree'⟩
        rcases ht' with h | h
        · exact Or.inl h
        · by_cases hh : t' = startHint .d71 track
          · exact Or.inl hh
          · right
            omega
    · rw [hx] at hexec
      exact nomatch hexec
  · intro hreach
    have hsome : ∃ t ∈ searchOrderD71 (startHint .d71 track), TrackFree .d71 m.cell t := by
      rcases hreach with ⟨t, ht, hfree⟩ | ⟨h53, -⟩
      · refine ⟨t, mem_searchOrderD71.mpr ?_, hfree⟩
        rcases ht with h | h | h
        · exact Or.inl h
        · exact Or.inr (Or.inl h)
        · exact Or.inr (Or.inr ⟨h.1, h.2.1⟩)
      · exact ⟨53, mem_searchOrderD71.mpr (Or.inr (Or.inr ⟨by decide, by decide⟩)), h53⟩
    rcases getNextFreeSector_d71_spec hm htrack sector with
      ⟨t, s, m', hx, -, -, hf⟩ | ⟨-, hno⟩
    · obtain ⟨tr, hrun⟩ := exec_eq_some.mp hx
      obtain ⟨htr, hcell⟩ := within_getNextFreeSector_d71 track sector m _ _ _ hrun
      refine ⟨_, m', tr, hrun, ?_, ?_, ?_, ?_⟩
      · intro a ha
        obtain ⟨t', ht', hin⟩ := htr a ha
        obtain ⟨h1, h2⟩ := searchOrderD71_bounds htrack ht'
        exact ⟨t', h1, h2, hin⟩
      · intro a ha
        refine hcell a ?_
        rintro ⟨t', ht', hin⟩
        obtain ⟨h1, h2⟩ := searchOrderD71_bounds htrack ht'
        exact ha t' h1 h2 hin
      · refine ⟨fun _ => ?_, fun _ => rfl⟩
        rcases hreach with ⟨t', ht', hfree⟩ | ⟨-, t', h1, h2, hfree⟩
        · refine ⟨t', ?_, hfree⟩
          rcases ht' with h | h | h
          · exact Or.inl h
          · exact Or.inr (by omega)
          · exact Or.inr (by omega)
        · exact ⟨t', Or.inr (by omega), hfree⟩
      · intro _
        refine ⟨hf.was_free, ?_, ?_⟩
        · rw [hf.bit t s hf.bound, decide_eq_true ⟨rfl, rfl⟩, Bool.not_true, Bool.and_false]
        · intro t' s' hs' hne
          rw [hf.bit t' s' hs', decide_eq_false hne, Bool.not_false, Bool.and_true]
    · obtain ⟨t, ht, hfree⟩ := hsome
      exact absurd hfree (hno t ht)

/-- A D71 whose only free sectors are the nineteen of track 20. -/
def onlyTrack20 : Bam where
  cell a :=
    if a = ⟨.root, 80⟩ then 19
    else if a = ⟨.root, 81⟩ then 0xFF
    else if a = ⟨.root, 82⟩ then 0xFF
    else if a = ⟨.root, 83⟩ then 0x07
    else 0
  regs := ⟨false, false, 0, true⟩

/-- A D71 whose only free sector is sector 0 of track 35. -/
def onlyTrack35 : Bam where
  cell a := if a = ⟨.root, 140⟩ then 1 else if a = ⟨.root, 141⟩ then 1 else 0
  regs := ⟨false, false, 0, true⟩

/-- The contract holds where the search succeeds. -/
theorem getNextFreeSector_d71_contract_track35 :
    ∃ r m' tr, FileSystemD71.getNextFreeSector 0 0 onlyTrack35 = some (r, m', tr) ∧
      SearchContract onlyTrack35 0 r m' tr :=
  (getNextFreeSector_d71_contract_iff (m := onlyTrack35) (by decide +kernel)
    (by decide : 0 ≤ 70) 0).mpr
    (Or.inl ⟨35, Or.inr (Or.inr (by decide)), 0, by decide, by decide +kernel⟩)

/-- With free sectors on track 20 only, the search does not return: it reads
    the count byte of a track 71. -/
theorem getNextFreeSector_d71_leaves_buffers :
    Consistent .d71 onlyTrack20.cell ∧ TrackFree .d71 onlyTrack20.cell 20 ∧
      ¬ ∃ r m' tr, FileSystemD71.getNextFreeSector 0 0 onlyTrack20 = some (r, m', tr) ∧
        SearchContract onlyTrack20 0 r m' tr := by
  refine ⟨by decide +kernel, by decide +kernel, ?_⟩
  rintro ⟨r, m', tr, hrun, -⟩
  have hnone : (FileSystemD71.getNextFreeSector 0 0 onlyTrack20).isNone = true := by
    decide +kernel
  rw [hrun] at hnone
  exact nomatch hnone

end CbmBam
