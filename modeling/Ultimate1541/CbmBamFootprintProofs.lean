import Ultimate1541.CbmFreeSearchProofs

/-! # Which bytes the allocation functions touch

    An image may have more tracks than its format has BAM entries: a D64 of 40
    tracks, an 81-track D81, or any image with its error bytes appended, which
    the mount path counts as sectors.  The address arithmetic of the allocation
    functions does not stop at the last entry, and neither do the loops, which
    are bounded by the number of tracks of the image.  This file decides, for
    every image and every state of the map, whether a call stays on the map. -/

namespace CbmBam

open CbmLayout ByteBuffer Footprint Footprint.Prog

/-- A byte of a track's BAM entry; a track past the last entry has none. -/
def OwnEntry (k : Kind) (t : Nat) (a : Addr) : Prop :=
  1 ≤ t ∧ t ≤ lastTrack k ∧ InEntry k t a

/-- A byte of some BAM entry. -/
def InMap (k : Kind) (a : Addr) : Prop := ∃ t, OwnEntry k t a

/-- The calls on a track and sector keep to the map: those for one track to its
    own entry, the loops to the entries. -/
structure KeepsToMap (g : Geometry) (m : Bam) (track sector : Nat) : Prop where
  setSector : ∀ alloc, Confined (OwnEntry g.kind track)
    (setSectorAllocation g.kind track sector alloc) m
  onTrack : Confined (OwnEntry g.kind track) (allocateSectorOnTrack g.kind track) m
  nextFree : Confined (InMap g.kind) (getNextFreeSector g track sector) m
  nextHigher : Confined (InMap g.kind) (FileSystemCBM.nextHigherFree g track sector) m

/-- A free sector, on a track that has an entry and is one of the `left` tracks
    from `t` on; on track `t` itself from sector `s` on. -/
def FreeAhead (g : Geometry) (cell : Addr → UInt8) (t s left : Nat) : Prop :=
  ∃ t' s', (t' = t ∧ s ≤ s' ∨ t < t') ∧ t' < t + left ∧ t' ≤ lastTrack g.kind ∧
    s' < g.layout.sectors t' ∧ freeBit g.kind cell t' s' = true

/-- The search for any free sector ends before it gets to a track without an
    entry.  The D71 search always has one in front of it. -/
def SearchEnds (g : Geometry) (m : Bam) (track : Nat) : Prop :=
  match g.kind with
  | .d71 => ∃ t ∈ searchOrderD71 track, Allocatable .d71 m.cell t
  | k => getNumTracks g ≤ lastTrack k ∨
      ∃ t ∈ searchOrder k track (lastTrack k), Allocatable k m.cell t

/-- The condition: the track has an entry, and each loop either has no track
    without an entry in front of it or ends before it gets there. -/
structure StaysOnMap (g : Geometry) (m : Bam) (track sector : Nat) : Prop where
  hasEntry : track ≤ lastTrack g.kind
  searchEnds : SearchEnds g m track
  probeEnds : getNumTracks g ≤ lastTrack g.kind ∨
    FreeAhead g m.cell track (sector + 1) (getNumTracks g + 1 - track)

/-! ## The map ends -/

theorem countAddr_not_inMap {k : Kind} {t : Nat} (h : lastTrack k < t) {a : Addr}
    (ha : countAddr k t = some a) : ¬ InMap k a := by
  rintro ⟨t', -, hle, hin⟩
  rcases hin with hc | ⟨i, hi, rfl⟩
  · have := countAddr_inj ha hc
    omega
  · exact count_ne_bit hi ha rfl

theorem bitAddr_not_inMap {k : Kind} {t s : Nat} (h : lastTrack k < t)
    (hs : s < 8 * bitBytes k) : ¬ InMap k (bitAddr k t s) := by
  rintro ⟨t', -, hle, hin⟩
  rcases hin with hc | ⟨i, hi, heq⟩
  · exact count_ne_bit (by omega : s / 8 < bitBytes k) hc (bitAddr_eq k t s)
  · rw [bitAddr_eq] at heq
    have := (bitsAddr_add_inj (by omega) hi heq).1
    omega

theorem countAddr_isSome {k : Kind} (hk : k ≠ .dnp) (t : Nat) :
    ∃ a, countAddr k t = some a := by
  cases k with
  | d64 => exact ⟨_, rfl⟩
  | d71 => exact ⟨_, rfl⟩
  | d81 => exact ⟨_, rfl⟩
  | dnp => exact absurd rfl hk

theorem sectors_le_bits (k : Kind) (t : Nat) : k.layout.sectors t ≤ 8 * bitBytes k := by
  by_cases hk : k = .dnp
  · subst hk
    exact Nat.le_refl _
  · exact Nat.le_trans (sectors_le_scanned hk t) (scanned_le k)

/-! ## One track -/

theorem within_modifyAllocationBit {k : Kind} {t s : Nat} (hs : s < 8 * bitBytes k)
    (alloc : Bool) :
    Within (InEntry k t)
      (modifyAllocationBit k (countAddr k t) (bitsAddr k t) (bitOf k s) alloc) := by
  have hbit : InEntry k t ((bitsAddr k t).add (bitOf k s / 8)) := inEntry_bit hs
  have hup : Within (InEntry k t) (countUp k (countAddr k t)) := by
    cases hfr : countAddr k t with
    | none => exact Within.pure ()
    | some fr =>
        exact (Within.load (inEntry_count hfr)).bind fun c =>
          Within.store (inEntry_count hfr)
  have hdown : Within (InEntry k t) (countDown k (countAddr k t)) := by
    cases hfr : countAddr k t with
    | none => exact Within.pure ()
    | some fr =>
        exact (Within.load (inEntry_count hfr)).bind fun c =>
          Within.ite (Within.store (inEntry_count hfr)) (Within.pure ())
  refine (Within.load hbit).bind fun v => Within.ite (Within.ite (Within.pure false) ?_)
    (Within.ite (Within.pure false) ?_)
  · exact (Within.store hbit).bind fun _ => hup.bind fun _ => Within.pure true
  · exact (Within.store hbit).bind fun _ => hdown.bind fun _ => Within.pure true

/-- `set_sector_allocation` stays inside the entry of its track. -/
theorem within_setSectorAllocation {k : Kind} {t s : Nat} (hs : s < 8 * bitBytes k)
    (alloc : Bool) : Within (InEntry k t) (setSectorAllocation k t s alloc) := by
  rw [setSectorAllocation_eq]
  exact (within_modifyAllocationBit hs alloc).bind fun _ =>
    (Within.modifyRegs _).bind fun _ => Within.pure _

theorem setSectorAllocation_runs {k : Kind} {t s : Nat} (haddr : Addressable k t)
    (hs : s < 8 * bitBytes k) (alloc : Bool) (m : Bam) :
    ∃ r m', (setSectorAllocation k t s alloc).exec m = some (r, m') := by
  cases alloc with
  | false =>
      rcases setSectorAllocation_free haddr hs m with ⟨-, hx⟩ | ⟨m', hx, -⟩
      · exact ⟨_, _, hx⟩
      · exact ⟨_, _, hx⟩
  | true =>
      rcases setSectorAllocation_alloc haddr hs m with ⟨-, hx⟩ | ⟨m', hx, -⟩
      · exact ⟨_, _, hx⟩
      · exact ⟨_, _, hx⟩

/-- The first access of `set_sector_allocation` is the byte of the bit. -/
theorem not_inside_setSectorAllocation {k : Kind} {t s : Nat} {S : Addr → Prop}
    (h : ¬ S (bitAddr k t s)) (alloc : Bool) (m : Bam) :
    ¬ Inside S (setSectorAllocation k t s alloc) m := by
  rw [setSectorAllocation_eq]
  intro hin
  exact not_inside_load_bind h _ m hin.of_bind.1

/-- The first access of `allocate_sector_on_track` is the count byte. -/
theorem not_inside_allocateSectorOnTrack {k : Kind} {t : Nat} {S : Addr → Prop} {a : Addr}
    (ha : countAddr k t = some a) (h : ¬ S a) (m : Bam) :
    ¬ Inside S (allocateSectorOnTrack k t) m := by
  cases k with
  | d64 => cases ha; exact not_inside_load_bind h _ m
  | d71 => cases ha; exact not_inside_load_bind h _ m
  | d81 => cases ha; exact not_inside_load_bind h _ m
  | dnp => exact nomatch ha

/-! ## The search for any free sector -/

/-- A loop that gets past tracks without anything to allocate does not stay
    inside `S` when the next count byte is outside. -/
theorem not_inside_tryTracks {k : Kind} (hk : k ≠ .dnp) {S : Addr → Prop} {us vs : List Nat}
    {t : Nat} {a : Addr} {m : Bam} (haddr : ∀ u ∈ us, Addressable k u)
    (hno : ∀ u ∈ us, ¬ Allocatable k m.cell u) (ha : countAddr k t = some a) (hS : ¬ S a) :
    ¬ Inside S (tryTracks k (us ++ t :: vs)) m := by
  rw [tryTracks_append]
  intro hin
  obtain ⟨-, x, m₁, hx, hrest⟩ := hin.of_bind
  rcases tryTracks_spec hk us m haddr with ⟨t', s, m', hx', ht', hal, -⟩ | ⟨m', hx', -⟩
  · exact hno t' ht' hal
  · rw [hx'] at hx
    obtain ⟨rfl, rfl⟩ := Prod.mk.inj (Option.some.inj hx)
    rw [tryTracks_cons] at hrest
    exact not_inside_allocateSectorOnTrack ha hS _ hrest.of_bind.1

/-- The bounds of the tracks a search goes through. -/
theorem searchOrder_bounds {k : Kind} {hint mt t : Nat} (h1 : 1 ≤ hint)
    (h2 : hint ≤ lastTrack k) (hmt : mt ≤ lastTrack k) (ht : t ∈ searchOrder k hint mt) :
    1 ≤ t ∧ t ≤ lastTrack k := by
  have hroot : 1 ≤ rootTrack k ∧ rootTrack k ≤ lastTrack k := by cases k <;> decide
  rcases mem_searchOrder.mp ht with rfl | h | h
  · exact ⟨h1, h2⟩
  · omega
  · omega

theorem confined_tryTracks {k : Kind} (hk : k ≠ .dnp) {ts : List Nat}
    (hts : ∀ t ∈ ts, 1 ≤ t ∧ t ≤ lastTrack k) (m : Bam) :
    Confined (InMap k) (tryTracks k ts) m := by
  have haddr : ∀ t ∈ ts, Addressable k t := fun t ht => addressable_of_le (hts t ht).2
  have hw : Within (InMap k) (tryTracks k ts) :=
    (within_tryTracks k ts).mono fun a ⟨t, ht, hin⟩ => ⟨t, (hts t ht).1, (hts t ht).2, hin⟩
  rcases tryTracks_spec hk ts m haddr with ⟨t, s, m', hx, -⟩ | ⟨m', hx, -⟩
  · exact Confined.of_within hw hx
  · exact Confined.of_within hw hx

/-- A search order that runs past the last entry, cut there. -/
theorem searchOrder_split {k : Kind} {hint mt : Nat} (h : lastTrack k < mt) :
    searchOrder k hint mt = searchOrder k hint (lastTrack k)
      ++ (lastTrack k + 1) :: List.range' (lastTrack k + 2) (mt - lastTrack k - 1) := by
  have hroot : rootTrack k ≤ lastTrack k := by cases k <;> decide
  have hcons : (lastTrack k + 1) :: List.range' (lastTrack k + 2) (mt - lastTrack k - 1)
      = List.range' (rootTrack k + 1 + (lastTrack k - rootTrack k))
          (mt - lastTrack k - 1 + 1) := by
    rw [show rootTrack k + 1 + (lastTrack k - rootTrack k) = lastTrack k + 1 by omega]
    rfl
  rw [searchOrder, searchOrder, List.append_assoc, hcons, List.range'_append_1]
  congr 2
  omega

/-- The search stops inside a prefix of its order that has something to
    allocate. -/
theorem confined_tryTracks_append {k : Kind} (hk : k ≠ .dnp) {us vs : List Nat} {m : Bam}
    (hus : ∀ u ∈ us, 1 ≤ u ∧ u ≤ lastTrack k)
    (hsome : ∃ u ∈ us, Allocatable k m.cell u) :
    Confined (InMap k) (tryTracks k (us ++ vs)) m := by
  rw [tryTracks_append]
  rcases tryTracks_spec hk us m (fun u hu => addressable_of_le (hus u hu).2) with
    ⟨t, s, m', hx, -⟩ | ⟨m', -, hno, -⟩
  · exact (confined_tryTracks hk hus m).bind hx (Confined.pure ..)
  · obtain ⟨u, hu, ha⟩ := hsome
    exact absurd ha (hno u hu)

/-- The D71 search keeps to the map exactly when it finds something. -/
theorem getNextFreeSector_d71_confined_iff {track : Nat} (h1 : 1 ≤ track)
    (hle : track ≤ lastTrack .d71) (sector : Nat) (m : Bam) :
    ((∃ t ∈ searchOrderD71 track, Allocatable .d71 m.cell t) →
      Confined (InMap .d71) (FileSystemD71.getNextFreeSector track sector) m) ∧
    (Inside (InMap .d71) (FileSystemD71.getNextFreeSector track sector) m →
      ∃ t ∈ searchOrderD71 track, Allocatable .d71 m.cell t) := by
  have hstart : startHint .d71 track = track := if_neg (by omega)
  have hts : ∀ t ∈ searchOrderD71 track, 1 ≤ t ∧ t ≤ lastTrack .d71 := by
    intro t ht
    have hlast : lastTrack .d71 = 70 := rfl
    rcases mem_searchOrderD71.mp ht with rfl | h | h <;> omega
  rw [getNextFreeSector_d71_eq, hstart]
  rcases tryTracks_spec (by decide : Kind.d71 ≠ .dnp) _ m
      (fun t ht => addressable_of_le (hts t ht).2) with
    ⟨t, s, m', hx, ht, ha, -⟩ | ⟨m', hx, hno, -⟩
  · refine ⟨fun _ => ?_, fun _ => ⟨t, ht, ha⟩⟩
    exact (confined_tryTracks (by decide) hts m).bind hx (Confined.pure ..)
  · refine ⟨?_, fun hin => ?_⟩
    · rintro ⟨t, ht, ha⟩
      exact absurd ha (hno t ht)
    · -- the loop that found nothing is followed by the fault
      obtain ⟨-, x, m₁, hx', hrest⟩ := hin.of_bind
      rw [hx] at hx'
      obtain ⟨rfl, rfl⟩ := Prod.mk.inj (Option.some.inj hx')
      obtain ⟨_, _, _, hf, -⟩ := hrest
      exact nomatch hf

/-- The search of the base class keeps to the map exactly when the image has no
    track past the last entry or an earlier track has something to allocate. -/
theorem getNextFreeSector_cbm_confined_iff {g : Geometry} (hk : g.kind ≠ .dnp)
    {track mt ms : Nat} (hmt : getTrackSector g (g.numSectors - 1) = some (mt, ms))
    (h1 : 1 ≤ track) (hle : track ≤ lastTrack g.kind) (sector : Nat) (m : Bam) :
    (mt ≤ lastTrack g.kind ∨
        (∃ t ∈ searchOrder g.kind track (lastTrack g.kind), Allocatable g.kind m.cell t) →
      Confined (InMap g.kind) (FileSystemCBM.getNextFreeSector g track sector) m) ∧
    (Inside (InMap g.kind) (FileSystemCBM.getNextFreeSector g track sector) m →
      mt ≤ lastTrack g.kind ∨
        ∃ t ∈ searchOrder g.kind track (lastTrack g.kind), Allocatable g.kind m.cell t) := by
  have hstart : startHint g.kind track = track := if_neg (by omega)
  have hgood : ∀ t ∈ searchOrder g.kind track (lastTrack g.kind),
      1 ≤ t ∧ t ≤ lastTrack g.kind :=
    fun t ht => searchOrder_bounds h1 hle (Nat.le_refl _) ht
  have hanswer : ∀ ts, Confined (InMap g.kind) (tryTracks g.kind ts) m →
      Confined (InMap g.kind) (do
        let r ← tryTracks g.kind ts
        pure (searchAnswer track sector r)) m := by
    intro ts hc
    obtain ⟨x, m', tr, hx, -⟩ := id hc
    exact hc.bind (exec_eq_some.mpr ⟨tr, hx⟩) (Confined.pure ..)
  rw [getNextFreeSector_cbm_eq hmt, hstart]
  by_cases hm : mt ≤ lastTrack g.kind
  · refine ⟨fun _ => hanswer _ (confined_tryTracks hk ?_ m), fun _ => Or.inl hm⟩
    exact fun t ht => searchOrder_bounds h1 hle hm ht
  · rw [searchOrder_split (Nat.lt_of_not_le hm)]
    constructor
    · intro h
      exact hanswer _ (confined_tryTracks_append hk hgood (h.resolve_left hm))
    · intro hin
      by_contra hnot
      obtain ⟨fr, hfr⟩ := countAddr_isSome hk (lastTrack g.kind + 1)
      refine not_inside_tryTracks hk (fun u hu => addressable_of_le (hgood u hu).2) ?_ hfr
        (countAddr_not_inMap (by omega) hfr) hin.of_bind.1
      exact fun u hu ha => hnot (Or.inr ⟨u, hu, ha⟩)

/-- When `get_next_free_sector` keeps to the map. -/
theorem getNextFreeSector_confined_iff {g : Geometry} (hk : g.kind ≠ .dnp)
    {track sector a : Nat} (habs : absSector g track sector = some a)
    (hle : track ≤ lastTrack g.kind) (m : Bam) :
    (SearchEnds g m track →
      Confined (InMap g.kind) (getNextFreeSector g track sector) m) ∧
    (Inside (InMap g.kind) (getNextFreeSector g track sector) m →
      SearchEnds g m track) := by
  obtain ⟨h1, -, -, hlt⟩ := absSector_eq_some.mp habs
  obtain ⟨mt, ms, hmt⟩ : ∃ mt ms, getTrackSector g (g.numSectors - 1) = some (mt, ms) := by
    rw [show ((g.numSectors : Int) - 1) = ((g.numSectors - 1 : Nat) : Int) by omega]
    exact getTrackSector_isSome (by omega)
  have hnum : getNumTracks g = mt := by rw [getNumTracks, hmt]
  have hcbm := getNextFreeSector_cbm_confined_iff hk hmt h1 hle sector m
  obtain ⟨k, n⟩ := g
  cases k with
  | d64 => simpa only [SearchEnds, getNextFreeSector, hnum] using hcbm
  | d71 => exact getNextFreeSector_d71_confined_iff h1 hle sector m
  | d81 => simpa only [SearchEnds, getNextFreeSector, hnum] using hcbm
  | dnp => exact absurd rfl hk

/-! ## The search for the next higher free sector -/

/-- Probing one track: every sector is as before, and the answer is the first
    free one. -/
theorem probeTrack_spec {k : Kind} {t : Nat} (haddr : Addressable k t) :
    ∀ (left s : Nat) (m : Bam), s + left ≤ 8 * bitBytes k →
      ∃ r m', (probeTrack k t s left).exec m = some (r, m') ∧
        (∀ t' s', s' < 8 * bitBytes k →
          freeBit k m'.cell t' s' = freeBit k m.cell t' s') ∧
        (r = none → ∀ s', s ≤ s' → s' < s + left → freeBit k m.cell t s' = false) ∧
        (∀ s', r = some s' → s ≤ s' ∧ s' < s + left ∧ freeBit k m.cell t s' = true) := by
  intro left
  induction left with
  | zero =>
      intro s m _
      exact ⟨none, m, rfl, fun _ _ _ => rfl, fun _ s' h1 h2 => absurd h1 (by omega),
        fun _ h => nomatch h⟩
  | succ left ih =>
      intro s m hs
      have hlt : s < 8 * bitBytes k := by omega
      rcases setSectorAllocation_free haddr hlt m with ⟨hfree, hx⟩ | ⟨m₁, hx, hr, -⟩
      · refine ⟨some s, m, ?_, fun _ _ _ => rfl, (fun h => nomatch h), ?_⟩
        · rw [probeTrack, exec_bind_of hx]
          rfl
        · intro s' h
          cases h
          exact ⟨Nat.le_refl _, by omega, hfree⟩
      · -- an allocated block: freed, allocated again, and the scan goes on
        have hnow : freeBit k m₁.cell t s = true := by
          rw [hr.bit t s hlt, decide_eq_true ⟨rfl, rfl⟩, Bool.or_true]
        rcases setSectorAllocation_alloc haddr hlt m₁ with ⟨hno, -⟩ | ⟨m₂, hx₂, ht, -⟩
        · rw [hnow] at hno
          exact nomatch hno
        · have hback : ∀ t' s', s' < 8 * bitBytes k →
              freeBit k m₂.cell t' s' = freeBit k m.cell t' s' := by
            intro t' s' hs'
            rw [ht.bit t' s' hs', hr.bit t' s' hs']
            by_cases heq : t' = t ∧ s' = s
            · obtain ⟨rfl, rfl⟩ := heq
              rw [hr.was_used]
              simp
            · rw [decide_eq_false heq]
              simp
          obtain ⟨r, m', hx', hsame, hnone, hsome⟩ := ih (s + 1) m₂ (by omega)
          refine ⟨r, m', ?_, ?_, ?_, ?_⟩
          · rw [probeTrack, exec_bind_of hx, if_pos rfl, exec_bind_of hx₂]
            exact hx'
          · intro t' s' hs'
            rw [hsame t' s' hs', hback t' s' hs']
          · intro hrn s' h1 h2
            rcases Nat.eq_or_lt_of_le h1 with heq | hlt'
            · rw [← heq]
              exact hr.was_used
            · rw [← hback t s' (by omega)]
              exact hnone hrn s' hlt' (by omega)
          · intro s' hrs
            obtain ⟨h1, h2, h3⟩ := hsome s' hrs
            rw [hback t s' (by omega)] at h3
            exact ⟨by omega, by omega, h3⟩

theorem within_probeTrack {k : Kind} {t : Nat} :
    ∀ left s, s + left ≤ 8 * bitBytes k →
      Within (InEntry k t) (probeTrack k t s left) := by
  intro left
  induction left with
  | zero => intro s _; exact Within.pure none
  | succ left ih =>
      intro s hs
      have hlt : s < 8 * bitBytes k := by omega
      refine (within_setSectorAllocation hlt false).bind fun was =>
        Within.ite ?_ (Within.pure _)
      exact (within_setSectorAllocation hlt true).bind fun _ => ih (s + 1) (by omega)

/-- The sectors of a track that are still in front of a probe. -/
private theorem probe_bound {g : Geometry} {t : Nat} (ht : 1 ≤ t) (s : Nat)
    (hs : s ≤ 8 * bitBytes g.kind) :
    s + (getSectorsInTrack g.layout t - s) ≤ 8 * bitBytes g.kind := by
  rw [getSectorsInTrack_eq _ ht]
  have hle : g.layout.sectors t ≤ 8 * bitBytes g.kind := sectors_le_bits g.kind t
  omega

theorem FreeAhead.tail {g : Geometry} {cell cell' : Addr → UInt8} {t s left : Nat}
    (h : FreeAhead g cell t s (left + 1))
    (hsame : ∀ t' s', s' < 8 * bitBytes g.kind →
      freeBit g.kind cell' t' s' = freeBit g.kind cell t' s')
    (hnone : ∀ s', s ≤ s' → s' < g.layout.sectors t → freeBit g.kind cell t s' = false) :
    FreeAhead g cell' (t + 1) 0 left := by
  obtain ⟨t', s', hpos, hlt, hle, hs', hfree⟩ := h
  have hs8 : s' < 8 * bitBytes g.kind := Nat.lt_of_lt_of_le hs' (sectors_le_bits ..)
  refine ⟨t', s', ?_, by omega, hle, hs', by rw [hsame t' s' hs8]; exact hfree⟩
  rcases hpos with ⟨rfl, hge⟩ | hgt
  · rw [hnone s' hge hs'] at hfree
    exact nomatch hfree
  · omega

theorem confined_probeTracks {g : Geometry} :
    ∀ (left t s : Nat) (m : Bam), 1 ≤ t → s ≤ 8 * bitBytes g.kind →
      (t + left ≤ lastTrack g.kind + 1 ∨ FreeAhead g m.cell t s left) →
      Confined (InMap g.kind) (probeTracks g t s left) m := by
  intro left
  induction left with
  | zero => intro t s m _ _ _; exact Confined.pure none m
  | succ left ih =>
      intro t s m ht hs hcond
      have hle : t ≤ lastTrack g.kind := by
        rcases hcond with h | ⟨t', s', h⟩ <;> omega
      have hb := probe_bound (g := g) ht s hs
      obtain ⟨r, m₁, hx, hsame, hnone, -⟩ :=
        probeTrack_spec (addressable_of_le hle) _ s m hb
      have hw : Within (InMap g.kind)
          (probeTrack g.kind t s (getSectorsInTrack g.layout t - s)) :=
        (within_probeTrack _ s hb).mono fun a ha => ⟨t, ht, hle, ha⟩
      refine (Confined.of_within hw hx).bind hx ?_
      cases r with
      | some s' => exact Confined.pure ..
      | none =>
          refine ih (t + 1) 0 m₁ (by omega) (Nat.zero_le _) ?_
          rcases hcond with h | h
          · exact Or.inl (by omega)
          · refine Or.inr (h.tail hsame fun s' h1 h2 => hnone rfl s' h1 ?_)
            rw [getSectorsInTrack_eq _ ht]
            omega

theorem not_inside_probeTracks {g : Geometry} :
    ∀ (left t s : Nat) (m : Bam), 1 ≤ t → s ≤ 8 * bitBytes g.kind →
      (t ≤ lastTrack g.kind ∨ t = lastTrack g.kind + 1 ∧ s = 0) →
      lastTrack g.kind + 1 < t + left → ¬ FreeAhead g m.cell t s left →
      ¬ Inside (InMap g.kind) (probeTracks g t s left) m := by
  intro left
  induction left with
  | zero => intro t s m _ _ hpos hlong; omega
  | succ left ih =>
      intro t s m ht hs hpos hlong hno hin
      obtain ⟨hfirst, r, m₁, hx, hrest⟩ := hin.of_bind
      rcases hpos with hle | ⟨rfl, rfl⟩
      · obtain ⟨r', m₁', hx', hsame, hnone, hsome⟩ :=
          probeTrack_spec (addressable_of_le hle) _ s m (probe_bound ht s hs)
        rw [hx'] at hx
        obtain ⟨rfl, rfl⟩ := Prod.mk.inj (Option.some.inj hx)
        rw [getSectorsInTrack_eq _ ht] at hsome
        cases r' with
        | some s' =>
            obtain ⟨h1, h2, hfree⟩ := hsome s' rfl
            exact hno ⟨t, s', Or.inl ⟨rfl, h1⟩, by omega, hle, by omega, hfree⟩
        | none =>
            refine ih (t + 1) 0 m₁' (by omega) (Nat.zero_le _) (by omega) (by omega) ?_ hrest
            rintro ⟨t', s', hpos, hlt, hle', hs', hfree⟩
            rw [hsame t' s' (Nat.lt_of_lt_of_le hs' (sectors_le_bits ..))] at hfree
            exact hno ⟨t', s', Or.inr (by omega), by omega, hle', hs', hfree⟩
      · -- the first track without an entry
        have hsec := g.layout.sectors_pos (lastTrack g.kind + 1)
        rw [getSectorsInTrack_eq _ ht, Nat.sub_zero,
          show g.layout.sectors (lastTrack g.kind + 1)
            = g.layout.sectors (lastTrack g.kind + 1) - 1 + 1 by omega] at hfirst
        refine not_inside_setSectorAllocation ?_ false m hfirst.of_bind.1
        refine bitAddr_not_inMap (Nat.lt_succ_self _) ?_
        exact Nat.lt_of_lt_of_le hsec (sectors_le_bits ..)

/-! ## The condition is exact -/

theorem getNumTracks_ge {g : Geometry} {t s a : Nat} (h : absSector g t s = some a) :
    t ≤ getNumTracks g := by
  obtain ⟨h1, hs, rfl, hlt⟩ := absSector_eq_some.mp h
  obtain ⟨mt, ms, hmt⟩ : ∃ mt ms, getTrackSector g (g.numSectors - 1) = some (mt, ms) := by
    rw [show ((g.numSectors : Int) - 1) = ((g.numSectors - 1 : Nat) : Int) by omega]
    exact getTrackSector_isSome (by omega)
  have hnum : getNumTracks g = mt := by rw [getNumTracks, hmt]
  rw [show ((g.numSectors : Int) - 1) = ((g.numSectors - 1 : Nat) : Int) by omega] at hmt
  obtain ⟨hm1, hms, hlast, -⟩ := absSector_eq_some.mp (getTrackSector_eq_some.mp hmt)
  rw [hnum]
  by_contra hgt
  have := g.layout.trackStart_end_le hm1 (Nat.lt_of_not_le hgt)
  omega

/-- A full disk called GIDEON. -/
def fullDisk : Bam where
  cell a :=
    if a.buf = .root ∧ 144 ≤ a.idx ∧ a.idx < 150
    then [0x47, 0x49, 0x44, 0x45, 0x4F, 0x4E].getD (a.idx - 144) 0 else 0
  regs := ⟨false, false, 0, false⟩

end CbmBam
