import Ultimate1541.GcrDecodeProofs

/-! # Whether the decoder comes to an end

    The loop of `convert_gcr_track_to_bin` is left when the next sync lies before
    the current position for the second time.  Two kinds of track get round this
    test (`Trap`): one sync alone, where the scan stays at the same position, and
    a header across the end of the track, behind which the scan goes on at the
    start of the track without having met a sync before its position.

    On all other tracks the loop ends, whatever is asked for, and on these it
    does not always (`terminates_iff`). -/

namespace GcrDecode

open Loop Relation

/-! ## Following a track -/

/-- Where a scan that expects data goes on from position `c`: behind a header, at
    any other block but data, and nowhere before `c`. -/
def follow (d : Decoder) (t : Track) (c : Nat) : Option Nat :=
  match t.findSync c with
  | none => none
  | some q =>
      if q < c then none
      else if t.mark d q = 8 then some (t.headerEnd q)
      else if t.mark d q = 7 then none
      else some q

/-- A scan that expects data goes on from `c` at `c'`. -/
def Follows (d : Decoder) (t : Track) (c c' : Nat) : Prop := follow d t c = some c'

/-- A header that runs over the end of the track. -/
structure Straddles (d : Decoder) (t : Track) (p : Nat) : Prop where
  sync : SyncEnds t.byte 0 p
  lt_len : p < t.len
  mark : t.mark d p = 8
  len_lt : t.len < p + 10

/-- A track on which a scan goes on for ever. -/
inductive Trap (d : Decoder) (t : Track) : Prop where
  /-- There is one sync, and no header behind it. -/
  | lone (q : Nat) : t.findSync 0 = some q → t.findSync q = some q → t.mark d q ≠ 8 → Trap d t
  /-- A header runs over the end, and from behind it headers and unknown blocks
      alone lead back there. -/
  | circle (p : Nat) : Straddles d t p →
      TransGen (Follows d t) (t.headerEnd p) (t.headerEnd p) → Trap d t

/-! ## Positions -/

namespace Track

theorem findSync_lt {t : Track} (hlen : 0 < t.len) {c q : Nat} (hc : c ≤ t.len)
    (h : t.findSync c = some q) : q < t.len := by
  rcases t.findSync_spec hc with ⟨u, hu, _⟩ | ⟨hnone, _⟩
  · rw [h] at hu
    exact Option.some.inj hu ▸ Nat.mod_lt u hlen
  · rw [h] at hnone
    exact nomatch hnone

theorem wrapNext_le {t : Track} {gcr count : Nat} (hgcr : gcr ≤ t.len) (hcount : count ≤ t.len) :
    t.wrapNext gcr count ≤ t.len := by
  rw [wrapNext]
  split <;> omega

theorem headerEnd_eq {t : Track} (hlen : 10 ≤ t.len) {q : Nat} (hq : q < t.len) :
    t.headerEnd q = if t.len < q + 10 then q + 10 - t.len else q + 10 := by
  rw [headerEnd, wrapNext, wrapNext]
  by_cases h : q + 5 > t.len
  · rw [if_pos h, if_neg (by omega), if_pos (by omega)]
    omega
  · rw [if_neg h]

theorem headerEnd_le {t : Track} (hlen : 10 ≤ t.len) {q : Nat} (hq : q < t.len) :
    t.headerEnd q ≤ t.len :=
  wrapNext_le (wrapNext_le (by omega) (by omega)) (by omega)

theorem dataEnd_le {t : Track} (hlen : 320 ≤ t.len) {q : Nat} (hq : q < t.len) :
    t.dataEnd q ≤ t.len :=
  wrapNext_le (wrapNext_le (by omega) (by omega)) (by omega)

/-- A sync in the middle of the track is found from everywhere before it. -/
theorem findSync_of_syncEnds {t : Track} {c p : Nat} (hc : c + 2 ≤ p) (hp : p < t.len)
    (hs : SyncEnds t.byte 0 p) :
    ∃ q, t.findSync c = some q ∧ c + 2 ≤ q ∧ q ≤ p ∧ SyncEnds t.byte 0 q := by
  have hat : SyncEnds t.unrolled c p := by
    refine ⟨hc, ?_, ?_, ?_⟩
    · rw [t.unrolled_of_lt hp]
      exact hs.2.1
    · rw [t.unrolled_of_lt (by omega)]
      exact hs.2.2.1
    · rw [t.unrolled_of_lt (by omega)]
      exact hs.2.2.2
  rcases t.findSync_spec (c := c) (by omega) with ⟨u, hu, _, hsu, hmin⟩ | ⟨_, hnone⟩
  · have hup : u ≤ p := by
      by_contra hlt
      exact hmin p (by omega) hat
    rw [Nat.mod_eq_of_lt (by omega)] at hu
    have hcu : c + 2 ≤ u := hsu.1
    rw [SyncEnds, t.unrolled_of_lt (by omega), t.unrolled_of_lt (by omega),
      t.unrolled_of_lt (by omega)] at hsu
    exact ⟨u, hu, hcu, hup, by omega, hsu.2⟩
  · exact absurd hat (hnone p (by omega))

/-- A sync at least two bytes from the start of the track, wherever it was found
    from. -/
theorem syncEnds_of_findSync {t : Track} {c q : Nat} (hc : c ≤ t.len) (hq : 2 ≤ q)
    (h : t.findSync c = some q) : SyncEnds t.byte 0 q := by
  rcases t.findSync_spec hc with ⟨u, hu, hlt, hs, _⟩ | ⟨hnone, _⟩
  · rw [h] at hu
    have hmod : u % t.len = q := (Option.some.inj hu).symm
    have hlen : 0 < t.len := by omega
    have hqlt : q < t.len := hmod ▸ Nat.mod_lt u hlen
    -- The two bytes before `u` are those before `q`.
    have hback : ∀ j, j ≤ q → t.unrolled (u - j) = t.byte (q - j) := by
      intro j hj
      rcases Nat.lt_or_ge u t.len with hul | hul
      · rw [Nat.mod_eq_of_lt hul] at hmod
        rw [t.unrolled_of_lt (by omega), hmod]
      · have hmod' : u - t.len = q := by
          rw [Nat.mod_eq_sub_mod hul, Nat.mod_eq_of_lt (by omega)] at hmod
          exact hmod
        rw [show u - j = q - j + t.len by omega, t.unrolled_add_len, t.unrolled_of_lt (by omega)]
    refine ⟨by omega, ?_, ?_, ?_⟩
    · have h0 : t.unrolled u = t.byte q := hback 0 (Nat.zero_le q)
      exact h0 ▸ hs.2.1
    · rw [← hback 1 (by omega)]
      exact hs.2.2.1
    · rw [← hback 2 hq]
      exact hs.2.2.2
  · rw [h] at hnone
    exact nomatch hnone

/-- A sync that is the next one after itself is the first on the track. -/
theorem findSync_zero_of_self {t : Track} (hlen : 2 ≤ t.len) {q : Nat} (hq : q < t.len)
    (h : t.findSync q = some q) : t.findSync 0 = some q := by
  rcases t.findSync_spec (Nat.le_of_lt hq) with ⟨u, hu, hlt, hs, hmin⟩ | ⟨hnone, _⟩
  · rw [h] at hu
    have hmod : u % t.len = q := (Option.some.inj hu).symm
    have hu' : u = q + t.len := by
      have := hs.1
      rcases Nat.lt_or_ge u t.len with hul | hul
      · rw [Nat.mod_eq_of_lt hul] at hmod
        omega
      · rw [Nat.mod_eq_sub_mod hul, Nat.mod_eq_of_lt (by omega)] at hmod
        omega
    subst hu'
    have hqb : t.unrolled q ≠ 0xFF := t.unrolled_add_len q ▸ hs.2.1
    by_cases hq2 : 2 ≤ q
    · -- Found in the first pass from the start.
      rw [← Nat.mod_eq_of_lt hq]
      refine t.findSync_eq (Nat.zero_le _) (by omega) ⟨by omega, hqb, ?_, ?_⟩ ?_
      · rw [← t.unrolled_add_len, show q - 1 + t.len = q + t.len - 1 by omega]
        exact hs.2.2.1
      · rw [← t.unrolled_add_len, show q - 2 + t.len = q + t.len - 2 by omega]
        exact hs.2.2.2
      · intro v hv hsv
        have hv2 := hsv.1
        refine hmin (v + t.len) (by omega) ⟨by omega, ?_, ?_, ?_⟩
        · rw [t.unrolled_add_len]
          exact hsv.2.1
        · rw [show v + t.len - 1 = v - 1 + t.len by omega, t.unrolled_add_len]
          exact hsv.2.2.1
        · rw [show v + t.len - 2 = v - 2 + t.len by omega, t.unrolled_add_len]
          exact hsv.2.2.2
    · -- Found in the second pass.
      rw [← hmod]
      refine t.findSync_eq (Nat.zero_le _) (by omega) ⟨by omega, hs.2⟩ ?_
      intro v hv hsv
      by_cases hqv : q + 2 ≤ v
      · exact hmin v hv ⟨hqv, hsv.2⟩
      · have := hsv.1
        have hv1 : v - 1 = q := by omega
        exact hqb (hv1 ▸ hsv.2.2.1)
  · rw [h] at hnone
    exact nomatch hnone

end Track

/-! ## One round -/

/-- The number of times the scan may still turn at the end of the track. -/
def turnsLeft (wrapped : Bool) : Nat := if wrapped then 0 else 1

/-- What can still happen but a finite number of times: data blocks, status bytes
    and a turn at the end of the track. -/
def budget (r : Request) (s : Scan) : Nat :=
  (r.maxSector - s.secs) + s.statlen + turnsLeft s.wrapped

theorem budget_header_le {r : Request} (t n pntr : Nat) (s : Scan) :
    budget r (s.header r t n pntr) ≤ budget r s := by
  have hnoted := s.noted_statlen n
  by_cases h : (t = r.trackNumber ∧ n < r.maxSector) ∨ (s.noted n).statlen = 0
  · rw [Scan.header_accepted h]
    simp only [budget, Scan.noted_secs, Scan.noted_wrapped]
    omega
  · rw [not_or] at h
    rw [Scan.header_rejected h.1 (by omega)]
    simp only [budget, Scan.put_secs, Scan.put_wrapped, Scan.put_statlen, Scan.noted_secs,
      Scan.noted_wrapped]
    omega

/-- A header moves the scan behind it, or costs status bytes. -/
theorem header_cases {r : Request} (t n pntr : Nat) (s : Scan) :
    ((s.header r t n pntr).expectData = true ∧ (s.header r t n pntr).current = pntr) ∨
    ((s.header r t n pntr).current = s.current ∧
      budget r (s.header r t n pntr) < budget r s) := by
  have hnoted := s.noted_statlen n
  by_cases h : (t = r.trackNumber ∧ n < r.maxSector) ∨ (s.noted n).statlen = 0
  · rw [Scan.header_accepted h]
    exact Or.inl ⟨rfl, rfl⟩
  · rw [not_or] at h
    have hroom : 0 < (s.noted n).statlen := by omega
    have hlt : (s.noted n).statlen < s.statlen := by split at hnoted <;> omega
    rw [Scan.header_rejected h.1 hroom]
    refine Or.inr ⟨by simp, ?_⟩
    simp only [budget, Scan.put_secs, Scan.put_wrapped, Scan.put_statlen, Scan.noted_secs,
      Scan.noted_wrapped]
    omega

/-- A data block counts. -/
theorem budget_dataBlock_lt {r : Request} (b : Nat → UInt8) (pntr : Nat) {s : Scan}
    (h : s.secs < r.maxSector) : budget r (s.dataBlock b pntr) < budget r s := by
  rw [Scan.dataBlock]
  dsimp only
  split
  · split <;> simp only [budget, Scan.put_secs, Scan.put_wrapped, Scan.put_statlen] <;> omega
  · simp only [budget]
    omega

theorem dataBlock_current (b : Nat → UInt8) (pntr : Nat) (s : Scan) :
    (s.dataBlock b pntr).current = s.current ∨ (s.dataBlock b pntr).current = pntr := by
  rw [Scan.dataBlock]
  dsimp only
  split
  · split
    · exact Or.inl (Scan.put_current _ _)
    · exact Or.inr rfl
  · exact Or.inl rfl

theorem budget_found_le {r : Request} (q : Nat) (s : Scan) : budget r (s.found q) ≤ budget r s := by
  have hturns : ∀ w b, turnsLeft (w || b) ≤ turnsLeft w := by decide
  exact Nat.add_le_add_left (hturns s.wrapped (decide (q < s.current))) _

/-- A turn at the end of the track counts. -/
theorem budget_found_lt {r : Request} {q : Nat} {s : Scan} (hq : q < s.current)
    (hw : s.wrapped = false) : budget r (s.found q) < budget r s := by
  have hturns : turnsLeft (s.found q).wrapped < turnsLeft s.wrapped := by
    simp only [Scan.found, hw, hq]
    decide
  exact Nat.add_lt_add_left hturns _

/-- What a round does that uses up nothing. -/
inductive Idle (d : Decoder) (t : Track) (s s' : Scan) : Prop where
  /-- Data is expected after it, and the scan follows the track. -/
  | follows : s'.expectData = true → Follows d t s.current s'.current → Idle d t s s'
  /-- Data was not expected, and the scan only goes to the next sync. -/
  | skips : s.expectData = false → s'.expectData = false →
      t.findSync s.current = some s'.current → s.current ≤ s'.current →
      t.mark d s'.current ≠ 8 → Idle d t s s'

/-- A round uses up something or is idle. -/
theorem step_budget {d : Decoder} {t : Track} {r : Request} {s s' : Scan} (hlen : 360 ≤ t.len)
    (hcur : s.current ≤ t.len) (h : Next (step d t r) s s') :
    s'.current ≤ t.len ∧
      (budget r s' < budget r s ∨ (budget r s' ≤ budget r s ∧ Idle d t s s')) := by
  obtain ⟨hsecs, q, hq, hwrap, rfl⟩ := step_eq_some.mp h
  have hqlt : q < t.len := t.findSync_lt (by omega) hcur hq
  have hfound := budget_found_le (r := r) q s
  -- Whatever the block is, the budget does not grow and the scan stays on the track.
  by_cases hmark : t.mark d q = 8
  · rw [Scan.block_header hmark]
    have hle := budget_header_le (r := r) (t.headerTrack d q) (t.headerSector d q)
      (t.headerEnd q) (s.found q)
    rcases header_cases (r := r) (t.headerTrack d q) (t.headerSector d q) (t.headerEnd q)
      (s.found q) with ⟨hexp, hend⟩ | ⟨hend, hlt⟩
    · refine ⟨hend.trans_le (t.headerEnd_le (by omega) hqlt), ?_⟩
      by_cases hback : q < s.current
      · have hw : s.wrapped = false := by
          cases hw : s.wrapped
          · rfl
          · exact absurd ⟨hback, hw⟩ hwrap
        exact Or.inl (Nat.lt_of_le_of_lt hle (budget_found_lt hback hw))
      · refine Or.inr ⟨hle.trans hfound, .follows hexp ?_⟩
        rw [hend, Follows, follow, hq]
        dsimp only
        rw [if_neg hback, if_pos hmark]
    · exact ⟨hend.trans_le (Nat.le_of_lt hqlt), Or.inl (Nat.lt_of_lt_of_le hlt hfound)⟩
  · by_cases hdata : t.mark d q = 7 ∧ (s.found q).expectData = true
    · rw [Scan.block_data hdata.1 hdata.2]
      refine ⟨?_, Or.inl (Nat.lt_of_lt_of_le (budget_dataBlock_lt _ _ hsecs) hfound)⟩
      rcases dataBlock_current (t.data d q) (t.dataEnd q) (s.found q) with hend | hend
      · exact hend.trans_le (Nat.le_of_lt hqlt)
      · exact hend.trans_le (t.dataEnd_le (by omega) hqlt)
    · rw [Scan.block_other hmark hdata]
      refine ⟨Nat.le_of_lt hqlt, ?_⟩
      by_cases hback : q < s.current
      · have hw : s.wrapped = false := by
          cases hw : s.wrapped
          · rfl
          · exact absurd ⟨hback, hw⟩ hwrap
        exact Or.inl (budget_found_lt hback hw)
      · refine Or.inr ⟨hfound, ?_⟩
        cases hexp : s.expectData with
        | false => exact .skips hexp hexp hq (Nat.le_of_not_lt hback) hmark
        | true =>
            refine .follows hexp ?_
            have h7 : t.mark d q ≠ 7 := fun h7 => hdata ⟨h7, hexp⟩
            show follow d t s.current = some q
            rw [follow, hq]
            dsimp only
            rw [if_neg hback, if_neg hmark, if_neg h7]

/-! ## Circles -/

theorem follows_iff {d : Decoder} {t : Track} {c c' : Nat} :
    Follows d t c c' ↔ ∃ q, t.findSync c = some q ∧ c ≤ q ∧
      ((t.mark d q = 8 ∧ c' = t.headerEnd q) ∨
        (t.mark d q ≠ 8 ∧ t.mark d q ≠ 7 ∧ c' = q)) := by
  rw [Follows, follow]
  cases hq : t.findSync c with
  | none => exact ⟨(fun h => nomatch h), fun ⟨_, h, _⟩ => nomatch h⟩
  | some q =>
      dsimp only
      constructor
      · intro h
        refine ⟨q, rfl, ?_⟩
        by_cases hback : q < c
        · rw [if_pos hback] at h
          exact nomatch h
        · rw [if_neg hback] at h
          refine ⟨Nat.le_of_not_lt hback, ?_⟩
          by_cases h8 : t.mark d q = 8
          · rw [if_pos h8] at h
            exact Or.inl ⟨h8, (Option.some.inj h).symm⟩
          · rw [if_neg h8] at h
            by_cases h7 : t.mark d q = 7
            · rw [if_pos h7] at h
              exact nomatch h
            · rw [if_neg h7] at h
              exact Or.inr ⟨h8, h7, (Option.some.inj h).symm⟩
      · rintro ⟨q', h, hle, hblock⟩
        cases h
        rw [if_neg (Nat.not_lt.mpr hle)]
        rcases hblock with ⟨h8, rfl⟩ | ⟨h8, h7, rfl⟩
        · rw [if_pos h8]
        · rw [if_neg h8, if_neg h7]

theorem Follows.le_len {d : Decoder} {t : Track} (hlen : 360 ≤ t.len) {c c' : Nat}
    (hc : c ≤ t.len) (h : Follows d t c c') : c' ≤ t.len := by
  obtain ⟨q, hq, _, ⟨_, rfl⟩ | ⟨_, _, rfl⟩⟩ := follows_iff.mp h
  · exact t.headerEnd_le (by omega) (t.findSync_lt (by omega) hc hq)
  · exact Nat.le_of_lt (t.findSync_lt (by omega) hc hq)

/-- A scan that follows the track goes forward, stays where it is at the only sync,
    or comes over the end in a header. -/
theorem Follows.forward {d : Decoder} {t : Track} (hlen : 360 ≤ t.len) {c c' : Nat}
    (hc : c ≤ t.len) (h : Follows d t c c') :
    c < c' ∨ (c = c' ∧ t.findSync c = some c ∧ t.mark d c ≠ 8) ∨
      ∃ p, Straddles d t p ∧ c' = t.headerEnd p := by
  obtain ⟨q, hq, hle, ⟨h8, rfl⟩ | ⟨h8, _, rfl⟩⟩ := follows_iff.mp h
  · have hqlt : q < t.len := t.findSync_lt (by omega) hc hq
    by_cases hover : t.len < q + 10
    · exact Or.inr (Or.inr ⟨q, ⟨t.syncEnds_of_findSync hc (by omega) hq, hqlt, h8, hover⟩, rfl⟩)
    · rw [t.headerEnd_eq (by omega) hqlt, if_neg hover]
      exact Or.inl (by omega)
  · rcases Nat.eq_or_lt_of_le hle with rfl | hlt
    · exact Or.inr (Or.inl ⟨rfl, hq, h8⟩)
    · exact Or.inl hlt

/-- The same for some steps. -/
theorem follows_forward {d : Decoder} {t : Track} (hlen : 360 ≤ t.len) {c c' : Nat}
    (hc : c ≤ t.len) (h : TransGen (Follows d t) c c') : c' ≤ t.len ∧
    (c < c' ∨ (c = c' ∧ t.findSync c = some c ∧ t.mark d c ≠ 8) ∨
      ∃ p, Straddles d t p ∧ ReflTransGen (Follows d t) c (t.headerEnd p) ∧
        ReflTransGen (Follows d t) (t.headerEnd p) c') := by
  induction h with
  | single h =>
      refine ⟨h.le_len hlen hc, ?_⟩
      rcases h.forward hlen hc with hlt | hlone | ⟨p, hp, rfl⟩
      · exact Or.inl hlt
      · exact Or.inr (Or.inl hlone)
      · exact Or.inr (Or.inr ⟨p, hp, .single h, .refl⟩)
  | tail hfirst h ih =>
      obtain ⟨hb, ih⟩ := ih
      refine ⟨h.le_len hlen hb, ?_⟩
      rcases ih with hlt | ⟨rfl, hlone⟩ | ⟨p, hp, hto, hfrom⟩
      · rcases h.forward hlen hb with hlt' | ⟨rfl, _⟩ | ⟨p, hp, rfl⟩
        · exact Or.inl (hlt.trans hlt')
        · exact Or.inl hlt
        · exact Or.inr (Or.inr ⟨p, hp, hfirst.to_reflTransGen.tail h, .refl⟩)
      · rcases h.forward hlen hc with hlt' | hlone' | ⟨p, hp, rfl⟩
        · exact Or.inl hlt'
        · exact Or.inr (Or.inl hlone')
        · exact Or.inr (Or.inr ⟨p, hp, .single h, .refl⟩)
      · exact Or.inr (Or.inr ⟨p, hp, hto, hfrom.tail h⟩)

/-- A track that leads in a circle is a trap. -/
theorem trap_of_circle {d : Decoder} {t : Track} (hlen : 360 ≤ t.len) {c : Nat}
    (hc : c ≤ t.len) (h : TransGen (Follows d t) c c) : Trap d t := by
  rcases (follows_forward hlen hc h).2 with hlt | ⟨_, hself, hmark⟩ | ⟨p, hp, hto, hfrom⟩
  · exact absurd hlt (Nat.lt_irrefl c)
  · have hlt : c < t.len := t.findSync_lt (by omega) hc hself
    exact .lone c (t.findSync_zero_of_self (by omega) hlt hself) hself hmark
  · exact .circle p hp ((TransGen.trans_right hfrom h).trans_left hto)

/-- Without a circle the track can be followed only so far. -/
theorem follows_wellFounded {d : Decoder} {t : Track} (hlen : 360 ≤ t.len) (htrap : ¬ Trap d t) :
    WellFounded fun a b : Fin (t.len + 1) => Follows d t b a := by
  have hval : ∀ {a b : Fin (t.len + 1)},
      TransGen (fun a b : Fin (t.len + 1) => Follows d t b a) a b →
        TransGen (Follows d t) b a := by
    intro a b h
    induction h with
    | single h => exact .single h
    | tail _ h ih => exact .head h ih
  have : Std.Irrefl (TransGen fun a b : Fin (t.len + 1) => Follows d t b a) :=
    ⟨fun a ha => htrap (trap_of_circle hlen (Nat.le_of_lt_succ a.2) (hval ha))⟩
  exact (Finite.wellFounded_of_trans_of_irrefl
    (TransGen fun a b : Fin (t.len + 1) => Follows d t b a)).mono fun _ _ h => .single h

/-! ## The end of the loop -/

/-- The loop ends when it does from every state with less left, data is expected, and
    the track is no trap. -/
theorem ends_of_expectData {d : Decoder} {t : Track} {r : Request} (hlen : 360 ≤ t.len)
    (htrap : ¬ Trap d t) {n : Nat}
    (hless : ∀ s : Scan, s.current ≤ t.len → budget r s < n → Terminates d t r s)
    (s : Scan) (hcur : s.current ≤ t.len) (hn : budget r s ≤ n) (hexp : s.expectData = true) :
    Terminates d t r s := by
  -- By induction along the track, which leads in no circle.
  obtain ⟨c, hc⟩ : ∃ c : Fin (t.len + 1), c.val = s.current :=
    ⟨⟨s.current, Nat.lt_succ_of_le hcur⟩, rfl⟩
  induction c using (follows_wellFounded hlen htrap).induction generalizing s with
  | _ c ih =>
    cases hstep : step d t r s with
    | none => exact ⟨s, endsIn_of_none hstep⟩
    | some s' =>
        obtain ⟨hcur', hlt | ⟨hle, hidle⟩⟩ := step_budget hlen hcur hstep
        · exact ends_of_next hstep (hless s' hcur' (Nat.lt_of_lt_of_le hlt hn))
        · cases hidle with
          | follows hexp' hfollows =>
              refine ends_of_next hstep (ih ⟨s'.current, Nat.lt_succ_of_le hcur'⟩ ?_ s' hcur'
                (hle.trans hn) hexp' rfl)
              show Follows d t c.val s'.current
              rw [hc]
              exact hfollows
          | skips hexp' => exact absurd (hexp.symm.trans hexp') Bool.true_eq_false.mp

/-- The loop ends on a track that is no trap. -/
theorem terminates_of_not_trap {d : Decoder} {t : Track} {r : Request} (hlen : 360 ≤ t.len)
    (htrap : ¬ Trap d t) (s : Scan) (hcur : s.current ≤ t.len) : Terminates d t r s := by
  -- By induction on what is left, and with the same left on the way to the end of the track.
  induction hn : budget r s using Nat.strong_induction_on generalizing s with
  | _ n ih =>
    have hless : ∀ s : Scan, s.current ≤ t.len → budget r s < n → Terminates d t r s :=
      fun s hcur hlt => ih _ hlt s hcur rfl
    clear ih
    have hn' : budget r s ≤ n := hn.le
    clear hn
    induction hm : t.len - s.current using Nat.strong_induction_on generalizing s with
    | _ m ih =>
      cases hstep : step d t r s with
      | none => exact ⟨s, endsIn_of_none hstep⟩
      | some s' =>
          obtain ⟨hcur', hlt | ⟨hle, hidle⟩⟩ := step_budget hlen hcur hstep
          · exact ends_of_next hstep (hless s' hcur' (Nat.lt_of_lt_of_le hlt hn'))
          · cases hidle with
            | follows hexp' _ =>
                exact ends_of_next hstep (ends_of_expectData hlen htrap hless s' hcur'
                  (hle.trans hn') hexp')
            | skips _ _ hq hforward hmark =>
                rcases Nat.eq_or_lt_of_le hforward with heq | hlt
                · -- The same sync again: the only one.
                  rw [← heq] at hq hmark
                  have hlt : s.current < t.len := t.findSync_lt (by omega) hcur hq
                  exact absurd (.lone _ (t.findSync_zero_of_self (by omega) hlt hq) hq hmark) htrap
                · exact ends_of_next hstep (ih _ (by omega) s' hcur' (hle.trans hn') rfl)

/-! ## Traps -/

/-- With one sync, and no header behind it, the scan stays where it is. -/
theorem not_terminates_of_lone {d : Decoder} {t : Track} {r : Request} (hsec : 1 ≤ r.maxSector)
    {q : Nat} (hfirst : t.findSync 0 = some q) (hself : t.findSync q = some q)
    (hmark : t.mark d q ≠ 8) (mem : Nat → UInt8) (statlen : Nat) :
    ¬ Terminates d t r (Scan.start mem statlen) := by
  refine not_ends_of_invariant
    (P := fun s => s.secs = 0 ∧ s.expectData = false ∧ s.current ≤ q ∧
      t.findSync s.current = some q) ?_ ⟨rfl, rfl, Nat.zero_le q, hfirst⟩
  rintro s ⟨hsecs, hexp, hle, hq⟩
  have hblock : (s.found q).block d t r q = s.found q :=
    Scan.block_other hmark fun h => absurd (hexp.symm.trans h.2) Bool.false_ne_true
  refine ⟨s.found q, step_eq_some.mpr ⟨by omega, q, hq, ?_, hblock⟩, hsecs, hexp, Nat.le_refl q,
    hself⟩
  exact fun h => absurd h.1 (Nat.not_lt.mpr hle)

/-- The scan has come over the end of the track in a header, and there is no room
    for status bytes any more. -/
structure Circling (d : Decoder) (t : Track) (s : Scan) : Prop where
  secs : s.secs = 0
  statlen : s.statlen = 0
  expectData : s.expectData = true
  circle : TransGen (Follows d t) s.current s.current

/-- It goes on in a circle. -/
theorem Circling.next {d : Decoder} {t : Track} {r : Request} (hsec : 1 ≤ r.maxSector) {s : Scan}
    (h : Circling d t s) : ∃ s', Next (step d t r) s s' ∧ Circling d t s' := by
  obtain ⟨c, hfollows, hback⟩ := TransGen.head'_iff.mp h.circle
  have hcircle : TransGen (Follows d t) c c := TransGen.tail' hback hfollows
  obtain ⟨q, hq, hle, hblock⟩ := follows_iff.mp hfollows
  refine ⟨_, step_eq_some.mpr ⟨by rw [h.secs]; exact hsec, q, hq,
    fun hwrap => absurd hwrap.1 (Nat.not_lt.mpr hle), rfl⟩, ?_⟩
  rcases hblock with ⟨h8, rfl⟩ | ⟨h8, h7, rfl⟩
  · have hfull : ((s.found q).noted (t.headerSector d q)).statlen = 0 := by
      rw [Scan.noted_statlen]
      show s.statlen - _ = 0
      rw [h.statlen, Nat.zero_sub]
    rw [Scan.block_header h8, Scan.header_accepted (Or.inr hfull)]
    exact ⟨(Scan.noted_secs _ _).trans h.secs, hfull, rfl, hcircle⟩
  · rw [Scan.block_other h8 fun hdata => h7 hdata.1]
    exact ⟨h.secs, h.statlen, h.expectData, hcircle⟩

/-- The scan has met no header of the track it was asked for. -/
structure Searching (c k : Nat) (s : Scan) : Prop where
  secs : s.secs = 0
  statlen : s.statlen = k
  expectData : s.expectData = false
  current : s.current = c

/-- Rejecting a header costs two status bytes. -/
theorem Searching.rejected {r : Request} {c k q t n pntr : Nat} {s : Scan}
    (h : Searching c (k + 2) s) (hforeign : ¬ (t = r.trackNumber ∧ n < r.maxSector)) :
    Searching q k ((s.found q).header r t n pntr) := by
  have hexp : ¬ (s.found q).expectData = true :=
    fun hexp => absurd (h.expectData.symm.trans hexp) Bool.false_ne_true
  have hnoted : ((s.found q).noted n).statlen = k + 1 := by
    rw [Scan.noted_statlen, if_neg hexp]
    show s.statlen - 1 = k + 1
    rw [h.statlen]
    rfl
  rw [Scan.header_rejected hforeign (by omega)]
  constructor
  · exact ((Scan.put_secs _ _).trans (Scan.noted_secs _ _)).trans h.secs
  · exact (Scan.put_statlen _ _).trans (by rw [hnoted]; rfl)
  · rfl
  · exact (Scan.put_current _ _).trans (Scan.noted_current _ _)

/-- When no header is of the right track, the room for status bytes can be such that
    the header at `p` is the first one not rejected. -/
theorem reaches_header {d : Decoder} {t : Track} {r : Request} (hsec : 1 ≤ r.maxSector)
    (htrack : 256 ≤ r.trackNumber) {p : Nat} (hp : Straddles d t p) (c : Nat) (hc : c + 2 ≤ p) :
    ∃ k, ∀ s, Searching c k s → ∃ s', Reaches (step d t r) s s' ∧ s'.secs = 0 ∧
      s'.statlen = 0 ∧ s'.expectData = true ∧ s'.current = t.headerEnd p := by
  induction hm : p - c using Nat.strong_induction_on generalizing c with
  | _ m ih =>
    obtain ⟨q, hq, hcq, hqp, hsync⟩ := t.findSync_of_syncEnds hc hp.lt_len hp.sync
    have hround : ∀ {k} (s : Scan), Searching c k s →
        Next (step d t r) s ((s.found q).block d t r q) := by
      intro k s hs
      refine step_eq_some.mpr ⟨by rw [hs.secs]; exact hsec, q, by rw [hs.current]; exact hq, ?_, rfl⟩
      rw [hs.current]
      exact fun h => absurd h.1 (by omega)
    rcases Nat.eq_or_lt_of_le hqp with rfl | hlt
    · -- The header itself: no room is left.
      refine ⟨0, fun s hs => ⟨_, .single (hround s hs), ?_⟩⟩
      have hfull : ((s.found q).noted (t.headerSector d q)).statlen = 0 := by
        rw [Scan.noted_statlen]
        show s.statlen - _ = 0
        rw [hs.statlen, Nat.zero_sub]
      rw [Scan.block_header hp.mark, Scan.header_accepted (Or.inr hfull)]
      exact ⟨(Scan.noted_secs _ _).trans hs.secs, hfull, rfl, rfl⟩
    · -- A block before it: a header is rejected, and others are passed over.
      have hq2 : q + 2 ≤ p := by
        by_contra hnot
        have hq1 : p - 1 = q := by omega
        exact hsync.2.1 (hq1 ▸ hp.sync.2.2.1)
      obtain ⟨k, hk⟩ := ih (p - q) (by omega) q hq2 rfl
      by_cases h8 : t.mark d q = 8
      · refine ⟨k + 2, fun s hs => ?_⟩
        have hforeign : ¬ (t.headerTrack d q = r.trackNumber ∧
            t.headerSector d q < r.maxSector) := by
          have : t.headerTrack d q < 256 := (t.head d q 3).toNat_lt
          omega
        have hnext := hround s hs
        rw [Scan.block_header h8] at hnext
        obtain ⟨s', hreach, hs'⟩ := hk _ (hs.rejected (q := q) hforeign)
        exact ⟨s', .head hnext hreach, hs'⟩
      · refine ⟨k, fun s hs => ?_⟩
        have hother : (s.found q).block d t r q = s.found q :=
          Scan.block_other h8 fun h => absurd (hs.expectData.symm.trans h.2) Bool.false_ne_true
        have hnext := hround s hs
        rw [hother] at hnext
        obtain ⟨s', hreach, hs'⟩ := hk (s.found q) ⟨hs.secs, hs.statlen, hs.expectData, rfl⟩
        exact ⟨s', .head hnext hreach, hs'⟩

/-- With a header that leads back to itself over the end of the track, the loop does
    not end for a track number that no header has and the right room for status
    bytes. -/
theorem not_terminates_of_circle {d : Decoder} {t : Track} {r : Request} (hlen : 360 ≤ t.len)
    (hsec : 1 ≤ r.maxSector) (htrack : 256 ≤ r.trackNumber) {p : Nat} (hp : Straddles d t p)
    (hcircle : TransGen (Follows d t) (t.headerEnd p) (t.headerEnd p)) (mem : Nat → UInt8) :
    ∃ statlen, ¬ Terminates d t r (Scan.start mem statlen) := by
  have hover := hp.len_lt
  obtain ⟨k, hk⟩ := reaches_header hsec htrack hp 0 (by omega)
  obtain ⟨s, hreach, hsecs, hstatlen, hexp, hcur⟩ := hk (Scan.start mem k) ⟨rfl, rfl, rfl, rfl⟩
  refine ⟨k, fun hends => ?_⟩
  exact not_ends_of_invariant (fun _ => Circling.next hsec)
    ⟨hsecs, hstatlen, hexp, hcur ▸ hcircle⟩ ((ends_iff_of_reaches hreach).mp hends)

/-- The decoder comes to an end on a track, whatever is asked for, if and only if the
    track is no trap. -/
theorem terminates_iff (d : Decoder) (t : Track) (hlen : 360 ≤ t.len) :
    (∀ r : Request, 1 ≤ r.maxSector → r.maxSector ≤ 21 → ∀ mem statlen,
      Terminates d t r (Scan.start mem statlen)) ↔ ¬ Trap d t := by
  constructor
  · intro h htrap
    cases htrap with
    | lone q hfirst hself hmark =>
        exact not_terminates_of_lone (r := ⟨1, 1, 0⟩) (Nat.le_refl 1) hfirst hself hmark
          (fun _ => 0) 0 (h ⟨1, 1, 0⟩ (by decide) (by decide) _ _)
    | circle p hp hcircle =>
        obtain ⟨statlen, hnot⟩ := not_terminates_of_circle (r := ⟨256, 1, 0⟩) hlen (Nat.le_refl 1)
          (Nat.le_refl 256) hp hcircle fun _ => 0
        exact hnot (h ⟨256, 1, 0⟩ (by decide) (by decide) _ _)
  · intro htrap r _ _ mem statlen
    exact terminates_of_not_trap hlen htrap _ (Nat.zero_le _)

/-- The loop ends on a track without a sync. -/
theorem terminates_noSync :
    Terminates .gcr2bin ⟨fun _ => 0x55, 360⟩ ⟨18, 19, 0⟩ (Scan.start (fun _ => 0) 64) := by
  refine (terminates_iff .gcr2bin ⟨fun _ => 0x55, 360⟩ (by decide)).mpr (fun htrap => ?_)
    ⟨18, 19, 0⟩ (by decide) (by decide) (fun _ => 0) 64
  cases htrap with
  | lone q hfirst _ _ =>
      have hnone : Track.findSync ⟨fun _ => 0x55, 360⟩ 0 = none := by decide +kernel
      exact nomatch hnone.symm.trans hfirst
  | circle p hp _ =>
      have hbyte : (0x55 : UInt8) = 0xFF := hp.sync.2.2.1
      exact absurd hbyte (by decide)

/-- A track of 360 bytes with one sync, at its start, and no block behind it. -/
def oneSync : Track := ⟨fun i => if i < 2 then 0xFF else 0x55, 360⟩

/-- There the loop does not end. -/
theorem oneSync_not_terminates :
    ¬ Terminates .gcr2bin oneSync ⟨18, 19, 0⟩ (Scan.start (fun _ => 0) 64) :=
  not_terminates_of_lone (by decide) (q := 2) (by decide +kernel) (by decide +kernel)
    (by decide +kernel) _ _

end GcrDecode
