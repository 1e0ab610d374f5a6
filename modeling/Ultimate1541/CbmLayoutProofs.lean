import Mathlib

/-! # CBM disk layouts

    A CBM image is a flat array of 256-byte sectors that the file system
    addresses by track and sector.  How many sectors a track has is read out
    of a layout table: a list of zones (number of tracks, sectors per track)
    and one last zone that stands for every remaining track.

    The two walks over the table, `getAbsSector` and `getTrackSector`, are
    translated as they stand, on integers with `-1` for a bad address.  The
    rest of the development uses `absSector`, which says the same on naturals,
    and the fact that a track starts where the previous one ends
    (`trackStart_succ`). -/

namespace CbmLayout

open Finset

/-- A layout table.  A zone spans at least one track and no track is empty, as
    in every table of the source. -/
structure Layout where
  zones : List (Nat × Nat)
  rest : Nat
  zone_pos : ∀ z ∈ zones, 0 < z.1 ∧ 0 < z.2
  rest_pos : 0 < rest

/-- `layout_d64`. -/
def layoutD64 : Layout where
  zones := [(17, 21), (7, 19), (6, 18)]
  rest := 17
  zone_pos := by decide
  rest_pos := by decide

/-- `layout_d71`. -/
def layoutD71 : Layout where
  zones := [(17, 21), (7, 19), (6, 18), (5, 17), (17, 21), (7, 19), (6, 18)]
  rest := 17
  zone_pos := by decide
  rest_pos := by decide

/-- `layout_d81`. -/
def layoutD81 : Layout where
  zones := []
  rest := 40
  zone_pos := by decide
  rest_pos := by decide

/-- `layout_dnp`. -/
def layoutDnp : Layout where
  zones := []
  rest := 256
  zone_pos := by decide
  rest_pos := by decide

/-- The subclass of `FileSystemCBM` a mounted image is served by. -/
inductive Kind where
  | d64
  | d71
  | d81
  | dnp
  deriving DecidableEq, Repr

/-- The layout table each subclass hands to the base class. -/
def Kind.layout : Kind → Layout
  | .d64 => layoutD64
  | .d71 => layoutD71
  | .d81 => layoutD81
  | .dnp => layoutDnp

/-- What the constructor fixes for the life of the file system: the subclass
    and the number of sectors of the partition below it. -/
structure Geometry where
  kind : Kind
  numSectors : Nat
  deriving DecidableEq, Repr

/-- The layout of a mounted image. -/
abbrev Geometry.layout (g : Geometry) : Layout := g.kind.layout

/-! ## The walks of the source -/

/-- The loop of `get_sectors_in_track`, on a zero-based track. -/
def sectorsWalk : List (Nat × Nat) → Nat → Int → Nat
  | [], rest, _ => rest
  | (count, per) :: zs, rest, track =>
      if track ≥ count then sectorsWalk zs rest (track - count) else per

/-- `get_sectors_in_track`. -/
def getSectorsInTrack (l : Layout) (track : Int) : Nat :=
  if track < 1 then 0 else sectorsWalk l.zones l.rest (track - 1)

/-- The loop of `get_abs_sector`: the sum so far and the sectors per track of
    the zone the loop stopped in. -/
def absWalk : List (Nat × Nat) → Nat → Int → Int → Int × Nat
  | [], rest, track, result => (result + track * rest, rest)
  | (count, per) :: zs, rest, track, result =>
      if track ≥ count then absWalk zs rest (track - count) (result + count * per)
      else (result + track * per, per)

/-- `get_abs_sector`: the number of a sector in the image, `-1` when the layout
    or the image does not have it. -/
def getAbsSector (g : Geometry) (track sector : Int) : Int :=
  if track ≤ 0 then -1
  else
    let w := absWalk g.layout.zones g.layout.rest (track - 1) sector
    if sector ≥ w.2 then -1
    else if w.1 ≥ g.numSectors then -1
    else w.1

/-- The loop of `get_track_sector`. -/
def trackWalk : List (Nat × Nat) → Nat → Nat → Nat → Nat × Nat
  | [], rest, track, abs => (track + abs / rest, abs - abs / rest * rest)
  | (count, per) :: zs, rest, track, abs =>
      if abs ≥ count * per then trackWalk zs rest (track + count) (abs - count * per)
      else (track + abs / per, abs - abs / per * per)

/-- `get_track_sector`; `none` is the answer `false`, which leaves both
    references alone. -/
def getTrackSector (g : Geometry) (abs : Int) : Option (Nat × Nat) :=
  if abs < 0 ∨ abs ≥ g.numSectors then none
  else some (trackWalk g.layout.zones g.layout.rest 1 abs.toNat)

/-- `get_num_tracks`: the track the last sector sits on. -/
def getNumTracks (g : Geometry) : Nat :=
  match getTrackSector g (g.numSectors - 1) with
  | none => 0
  | some (track, _) => track

/-! ## The table as a function

    Everything above is determined by how many sectors a track has and by
    where it starts. -/

/-- Sectors of a zero-based track. -/
def perTrack : List (Nat × Nat) → Nat → Nat → Nat
  | [], rest, _ => rest
  | (count, per) :: zs, rest, track =>
      if count ≤ track then perTrack zs rest (track - count) else per

/-- Sectors of a track, counted from one as the source does. -/
def Layout.sectors (l : Layout) (track : Nat) : Nat :=
  perTrack l.zones l.rest (track - 1)

/-- Number of sectors in front of a track. -/
def Layout.trackStart (l : Layout) (track : Nat) : Nat :=
  ∑ i ∈ range (track - 1), perTrack l.zones l.rest i

/-- The sector number of a track and sector, if the image has it. -/
def absSector (g : Geometry) (track sector : Nat) : Option Nat :=
  let r := getAbsSector g track sector
  if r < 0 then none else some r.toNat

theorem perTrack_pos {zs : List (Nat × Nat)} {rest : Nat}
    (hzs : ∀ z ∈ zs, 0 < z.1 ∧ 0 < z.2) (hrest : 0 < rest) :
    ∀ track, 0 < perTrack zs rest track := by
  induction zs with
  | nil => intro track; exact hrest
  | cons z zs ih =>
      intro track
      obtain ⟨count, per⟩ := z
      unfold perTrack
      by_cases hc : count ≤ track
      · rw [if_pos hc]
        exact ih (fun z hz => hzs z (List.mem_cons_of_mem _ hz)) _
      · rw [if_neg hc]
        exact (hzs _ (List.mem_cons_self ..)).2

theorem Layout.sectors_pos (l : Layout) (track : Nat) : 0 < l.sectors track :=
  perTrack_pos l.zone_pos l.rest_pos _

/-- A track starts where the previous one ends. -/
theorem Layout.trackStart_succ (l : Layout) {track : Nat} (h : 1 ≤ track) :
    l.trackStart (track + 1) = l.trackStart track + l.sectors track := by
  obtain ⟨k, rfl⟩ : ∃ k, track = k + 1 := ⟨track - 1, by omega⟩
  exact sum_range_succ _ k

theorem Layout.trackStart_mono (l : Layout) {t u : Nat} (h : t ≤ u) :
    l.trackStart t ≤ l.trackStart u := by
  refine sum_le_sum_of_subset (range_subset_range.mpr ?_)
  omega

/-- Tracks do not overlap. -/
theorem Layout.trackStart_end_le (l : Layout) {t u : Nat} (ht : 1 ≤ t) (h : t < u) :
    l.trackStart t + l.sectors t ≤ l.trackStart u := by
  rw [← l.trackStart_succ ht]
  exact l.trackStart_mono h

/-! ## The walks compute the table -/

theorem sectorsWalk_eq (zs : List (Nat × Nat)) (rest track : Nat) :
    sectorsWalk zs rest track = perTrack zs rest track := by
  induction zs generalizing track with
  | nil => rfl
  | cons z zs ih =>
      obtain ⟨count, per⟩ := z
      unfold sectorsWalk perTrack
      by_cases hc : count ≤ track
      · rw [if_pos (by omega), if_pos hc, ← ih]
        congr 1
        omega
      · rw [if_neg (by omega), if_neg hc]

theorem getSectorsInTrack_eq (l : Layout) {track : Nat} (h : 1 ≤ track) :
    getSectorsInTrack l track = l.sectors track := by
  unfold getSectorsInTrack
  rw [if_neg (by omega), show ((track : Int) - 1) = ((track - 1 : Nat) : Int) by omega]
  exact sectorsWalk_eq _ _ _

/-- The first zone of a sum over tracks. -/
private theorem sum_zone {zs : List (Nat × Nat)} {rest count per track : Nat}
    (hc : count ≤ track) :
    ∑ i ∈ range track, perTrack ((count, per) :: zs) rest i
      = count * per + ∑ i ∈ range (track - count), perTrack zs rest i := by
  obtain ⟨d, rfl⟩ := Nat.exists_eq_add_of_le hc
  rw [sum_range_add]
  have hfirst : ∑ i ∈ range count, perTrack ((count, per) :: zs) rest i
      = ∑ _i ∈ range count, per := by
    refine sum_congr rfl ?_
    intro i hi
    exact if_neg (by have := mem_range.mp hi; omega)
  rw [hfirst, sum_const, card_range, nsmul_eq_mul, Nat.cast_id, Nat.add_sub_cancel_left]
  congr 1
  refine sum_congr rfl ?_
  intro i _
  show (if count ≤ count + i then _ else _) = _
  rw [if_pos (Nat.le_add_right ..), Nat.add_sub_cancel_left]

/-- A sum that stays inside the first zone. -/
private theorem sum_inside_zone {zs : List (Nat × Nat)} {rest count per track : Nat}
    (hc : ¬ count ≤ track) :
    ∑ i ∈ range track, perTrack ((count, per) :: zs) rest i = track * per := by
  have hall : ∑ i ∈ range track, perTrack ((count, per) :: zs) rest i
      = ∑ _i ∈ range track, per := by
    refine sum_congr rfl ?_
    intro i hi
    exact if_neg (by have := mem_range.mp hi; omega)
  rw [hall, sum_const, card_range, nsmul_eq_mul, Nat.cast_id]

theorem absWalk_eq (zs : List (Nat × Nat)) (rest track : Nat) (result : Int) :
    absWalk zs rest track result
      = (result + (∑ i ∈ range track, perTrack zs rest i : Nat),
          perTrack zs rest track) := by
  induction zs generalizing track result with
  | nil => simp [absWalk, perTrack]
  | cons z zs ih =>
      obtain ⟨count, per⟩ := z
      unfold absWalk
      by_cases hc : count ≤ track
      · rw [if_pos (by omega), show ((track : Int) - count) = ((track - count : Nat) : Int)
          by omega, ih, sum_zone hc]
        refine Prod.ext ?_ ?_
        · push_cast
          ring
        · exact (if_pos hc).symm
      · rw [if_neg (by omega), sum_inside_zone hc]
        refine Prod.ext ?_ ?_
        · push_cast
          ring
        · exact (if_neg hc).symm

theorem getAbsSector_eq (g : Geometry) {track : Nat} (sector : Int) (h : 1 ≤ track) :
    getAbsSector g track sector =
      if sector ≥ g.layout.sectors track then -1
      else if sector + g.layout.trackStart track ≥ g.numSectors then -1
      else sector + g.layout.trackStart track := by
  unfold getAbsSector
  rw [if_neg (by omega), show ((track : Int) - 1) = ((track - 1 : Nat) : Int) by omega,
    absWalk_eq]
  rfl

/-- What `absSector` accepts and what it answers. -/
theorem absSector_eq_some {g : Geometry} {track sector a : Nat} :
    absSector g track sector = some a ↔
      1 ≤ track ∧ sector < g.layout.sectors track ∧
        a = g.layout.trackStart track + sector ∧ a < g.numSectors := by
  unfold absSector
  by_cases h0 : 1 ≤ track
  · rw [getAbsSector_eq g _ h0]
    constructor
    · intro h
      split_ifs at h with h1 h2
      · simp at h
      · simp at h
      · have := Option.some.inj h
        refine ⟨h0, ?_, ?_, ?_⟩ <;> omega
    · rintro ⟨-, h1, rfl, h2⟩
      have hs : ¬ ((sector : Int) ≥ g.layout.sectors track) := by omega
      have hn : ¬ ((sector : Int) + g.layout.trackStart track ≥ g.numSectors) := by omega
      simp only [if_neg hs, if_neg hn]
      rw [if_neg (by omega)]
      congr 1
      omega
  · have hneg : getAbsSector g track sector = -1 := by
      unfold getAbsSector
      exact if_pos (by omega)
    rw [hneg]
    constructor
    · intro h
      simp at h
    · intro h
      exact absurd h.1 h0

example : absSector ⟨.d64, 683⟩ 18 0 = some 357 := by decide +kernel

theorem absSector_lt {g : Geometry} {t s a : Nat} (h : absSector g t s = some a) :
    a < g.numSectors :=
  (absSector_eq_some.mp h).2.2.2

@[simp] theorem absSector_zero (g : Geometry) (s : Nat) : absSector g 0 s = none := by
  cases h : absSector g 0 s with
  | none => rfl
  | some a => exact absurd (absSector_eq_some.mp h).1 (by omega)

/-- Two addresses of one sector are the same address. -/
theorem absSector_inj {g : Geometry} {t s t' s' a : Nat}
    (h : absSector g t s = some a) (h' : absSector g t' s' = some a) :
    t = t' ∧ s = s' := by
  obtain ⟨ht, hs, rfl, -⟩ := absSector_eq_some.mp h
  obtain ⟨ht', hs', ha, -⟩ := absSector_eq_some.mp h'
  rcases Nat.lt_trichotomy t t' with hlt | heq | hgt
  · have := g.layout.trackStart_end_le ht hlt
    omega
  · subst heq
    exact ⟨rfl, by omega⟩
  · have := g.layout.trackStart_end_le ht' hgt
    omega

theorem trackWalk_spec {zs : List (Nat × Nat)} {rest : Nat} (hzs : ∀ z ∈ zs, 0 < z.1 ∧ 0 < z.2)
    (hrest : 0 < rest) (track abs : Nat) :
    ∃ d s, trackWalk zs rest track abs = (track + d, s) ∧ s < perTrack zs rest d ∧
      abs = ∑ i ∈ range d, perTrack zs rest i + s := by
  induction zs generalizing track abs with
  | nil =>
      refine ⟨abs / rest, abs - abs / rest * rest, rfl, ?_, ?_⟩
      · show abs - abs / rest * rest < rest
        rw [Nat.mul_comm, ← Nat.mod_eq_sub_mul_div]
        exact Nat.mod_lt _ hrest
      · have hsum : ∑ i ∈ range (abs / rest), perTrack [] rest i = abs / rest * rest := by
          simp [perTrack]
        have := Nat.div_mul_le_self abs rest
        omega
  | cons z zs ih =>
      obtain ⟨count, per⟩ := z
      have hper : 0 < per := (hzs _ (List.mem_cons_self ..)).2
      unfold trackWalk
      by_cases hc : abs ≥ count * per
      · rw [if_pos hc]
        obtain ⟨d, s, hw, hs, habs⟩ :=
          ih (fun z hz => hzs z (List.mem_cons_of_mem _ hz)) (track + count) (abs - count * per)
        refine ⟨count + d, s, ?_, ?_, ?_⟩
        · rw [hw, Nat.add_assoc]
        · show s < if count ≤ count + d then _ else _
          rw [if_pos (Nat.le_add_right ..), Nat.add_sub_cancel_left]
          exact hs
        · rw [sum_zone (Nat.le_add_right ..), Nat.add_sub_cancel_left]
          omega
      · rw [if_neg hc]
        have hdiv : abs / per < count := Nat.div_lt_of_lt_mul (by rw [Nat.mul_comm]; omega)
        refine ⟨abs / per, abs - abs / per * per, rfl, ?_, ?_⟩
        · show _ < if count ≤ abs / per then _ else _
          rw [if_neg (by omega), Nat.mul_comm, ← Nat.mod_eq_sub_mul_div]
          exact Nat.mod_lt _ hper
        · rw [sum_inside_zone (by omega)]
          have := Nat.div_mul_le_self abs per
          omega

/-- `get_track_sector` inverts `get_abs_sector`. -/
theorem getTrackSector_eq_some {g : Geometry} {a t s : Nat} :
    getTrackSector g a = some (t, s) ↔ absSector g t s = some a := by
  unfold getTrackSector
  by_cases ha : a < g.numSectors
  · rw [if_neg (by omega)]
    obtain ⟨d, s', hw, hs', habs⟩ :=
      trackWalk_spec g.layout.zone_pos g.layout.rest_pos 1 a
    have hgood : absSector g (1 + d) s' = some a := by
      refine absSector_eq_some.mpr ⟨by omega, ?_, ?_, ha⟩
      · unfold Layout.sectors
        rw [Nat.add_sub_cancel_left]
        exact hs'
      · unfold Layout.trackStart
        rw [Nat.add_sub_cancel_left]
        exact habs
    rw [Int.toNat_natCast, hw]
    constructor
    · intro h
      cases Option.some.inj h
      exact hgood
    · intro h
      obtain ⟨rfl, rfl⟩ := absSector_inj h hgood
      rfl
  · rw [if_pos (by omega)]
    constructor
    · intro h
      exact nomatch h
    · intro h
      exact absurd (absSector_lt h) ha

/-- Every sector of the image has an address. -/
theorem getTrackSector_isSome {g : Geometry} {a : Nat} (ha : a < g.numSectors) :
    ∃ t s, getTrackSector g a = some (t, s) := by
  unfold getTrackSector
  rw [if_neg (by omega)]
  exact ⟨_, _, rfl⟩

/-! ## The addresses an image has

    The last track ends where the image does: `get_num_tracks` counts it, and
    `get_sectors_in_track` gives it all the sectors its zone has, but those behind
    the last sector of the image have no number. -/

/-- A track and a sector of it that lie in the image. -/
def InImage (g : Geometry) (track sector : Int) : Prop :=
  1 ≤ track ∧ track ≤ getNumTracks g ∧ 0 ≤ sector ∧
    sector < getSectorsInTrack g.layout track ∧
    g.layout.trackStart track.toNat + sector < g.numSectors

/-- No sector of the image is on a track behind `get_num_tracks`. -/
theorem le_getNumTracks {g : Geometry} {t s a : Nat} (h : absSector g t s = some a) :
    t ≤ getNumTracks g := by
  obtain ⟨ht, hs, rfl, hlt⟩ := absSector_eq_some.mp h
  obtain ⟨u, v, hlast⟩ := getTrackSector_isSome (g := g) (a := g.numSectors - 1) (by omega)
  have hnum : getNumTracks g = u := by
    rw [getNumTracks, show (g.numSectors : Int) - 1 = ((g.numSectors - 1 : Nat) : Int) by omega,
      hlast]
  obtain ⟨hu, -, hv, -⟩ := absSector_eq_some.mp (getTrackSector_eq_some.mp hlast)
  rw [hnum]
  by_contra hgt
  -- The last sector would be on a track that ends in front of the one here.
  have hend := g.layout.trackStart_end_le hu (by omega : u < t)
  have hin : v < g.layout.sectors u :=
    (absSector_eq_some.mp (getTrackSector_eq_some.mp hlast)).2.1
  omega

/-- The addresses with a number are those in the image. -/
theorem inImage_iff {g : Geometry} {t s : Nat} :
    InImage g t s ↔ absSector g t s = some (g.layout.trackStart t + s) := by
  constructor
  · rintro ⟨ht, -, -, hs, hlt⟩
    have ht' : 1 ≤ t := by omega
    rw [getSectorsInTrack_eq _ ht'] at hs
    rw [Int.toNat_natCast] at hlt
    exact absSector_eq_some.mpr ⟨ht', by omega, rfl, by omega⟩
  · intro h
    obtain ⟨ht, hs, -, hlt⟩ := absSector_eq_some.mp h
    have hle := le_getNumTracks h
    refine ⟨by omega, by omega, by omega, ?_, ?_⟩
    · rw [getSectorsInTrack_eq _ ht]
      omega
    · rw [Int.toNat_natCast]
      omega

theorem getAbsSector_of_absSector {g : Geometry} {t s a : Nat} (h : absSector g t s = some a) :
    getAbsSector g t s = a := by
  rw [absSector] at h
  split at h
  next => exact nomatch h
  next hpos =>
    cases Option.some.inj h
    omega

theorem absSector_of_getAbsSector {g : Geometry} {t s a : Nat} (h : getAbsSector g t s = a) :
    absSector g t s = some a := by
  rw [absSector, h]
  rw [if_neg (by omega), Int.toNat_natCast]

/-- `get_abs_sector` and `get_track_sector` invert each other between the addresses in
    the image and the numbers of its sectors, and neither answers for anything else. -/
theorem getAbsSector_inverse (g : Geometry) :
    (∀ track sector, InImage g track sector →
      ∃ a : Nat, a < g.numSectors ∧ getAbsSector g track sector = a ∧
        getTrackSector g a = some (track.toNat, sector.toNat)) ∧
    (∀ abs : Int, 0 ≤ abs → abs < g.numSectors →
      ∃ track sector : Nat, getTrackSector g abs = some (track, sector) ∧
        InImage g track sector ∧ getAbsSector g track sector = abs) ∧
    (∀ track sector : Int, 0 ≤ sector → ¬ InImage g track sector →
      getAbsSector g track sector < 0) ∧
    (∀ abs : Int, abs < 0 ∨ abs ≥ g.numSectors → getTrackSector g abs = none) := by
  refine ⟨?_, ?_, ?_, ?_⟩
  · intro track sector h
    obtain ⟨t, rfl⟩ := Int.eq_ofNat_of_zero_le (show 0 ≤ track by have := h.1; omega)
    obtain ⟨s, rfl⟩ := Int.eq_ofNat_of_zero_le h.2.2.1
    have ha := inImage_iff.mp h
    exact ⟨_, absSector_lt ha, getAbsSector_of_absSector ha, getTrackSector_eq_some.mpr ha⟩
  · intro abs h0 hlt
    obtain ⟨a, rfl⟩ := Int.eq_ofNat_of_zero_le h0
    obtain ⟨t, s, hts⟩ := getTrackSector_isSome (g := g) (a := a) (by omega)
    have ha := getTrackSector_eq_some.mp hts
    have hin : InImage g t s := by
      rw [inImage_iff, ha, (absSector_eq_some.mp ha).2.2.1]
    exact ⟨t, s, hts, hin, getAbsSector_of_absSector ha⟩
  · intro track sector h0 hout
    obtain ⟨s, rfl⟩ := Int.eq_ofNat_of_zero_le h0
    by_cases htrack : track ≤ 0
    · rw [getAbsSector, if_pos htrack]
      decide
    · obtain ⟨t, rfl⟩ := Int.eq_ofNat_of_zero_le (show 0 ≤ track by omega)
      by_contra hneg
      obtain ⟨a, ha⟩ := Int.eq_ofNat_of_zero_le (not_lt.mp hneg)
      have habs := absSector_of_getAbsSector ha
      refine hout (inImage_iff.mpr ?_)
      rw [habs, (absSector_eq_some.mp habs).2.2.1]
  · intro abs h
    rw [getTrackSector]
    exact if_pos h

/-- The last track of an image of 680 sectors ends behind sector 13. -/
theorem short_track_has_no_number :
    ¬ ∀ (g : Geometry) (track sector : Nat), 1 ≤ track → track ≤ getNumTracks g →
      sector < getSectorsInTrack g.layout track →
      getTrackSector g (getAbsSector g track sector) = some (track, sector) := by
  intro h
  exact absurd (h ⟨.d64, 680⟩ 35 16 (by decide) (by decide) (by decide)) (by decide)

end CbmLayout
