import Ultimate1541.CbmBamFootprintProofs

/-! # The map over any order of operations

    Allocating and freeing keep the count byte of every track equal to the
    number of its set bits (`Consistent`), and raise the dirty flag of every
    buffer they touch (`Kept`), so that `sync` brings the medium up to date.
    `allocate_sector` looks for the next free block by freeing and allocating
    the blocks it passes; on a map in order that changes nothing. -/

namespace CbmBam

open CbmLayout ByteBuffer Footprint Footprint.Prog

/-! ## Counting the free sectors -/

/-- One index less satisfies the test. -/
theorem countP_range_clear {p q : Nat → Bool} {n s : Nat} (hs : s < n) (hp : p s = true)
    (hq : ∀ i < n, q i = (p i && !decide (i = s))) :
    (List.range n).countP q + 1 = (List.range n).countP p := by
  have hsame : ∀ m, m ≤ n → m ≤ s → (List.range m).countP q = (List.range m).countP p := by
    intro m hm hms
    refine List.countP_congr fun i hi => ?_
    have hi' := List.mem_range.mp hi
    rw [hq i (by omega), decide_eq_false (by omega), Bool.not_false, Bool.and_true]
  have key : ∀ d, s + 1 + d ≤ n →
      (List.range (s + 1 + d)).countP q + 1 = (List.range (s + 1 + d)).countP p := by
    intro d
    induction d with
    | zero =>
        intro _
        rw [Nat.add_zero, List.range_succ, List.countP_append, List.countP_append,
          hsame s (by omega) (Nat.le_refl s)]
        simp [hp, hq s hs]
    | succ d ih =>
        intro hd
        have hlast : q (s + 1 + d) = p (s + 1 + d) := by
          rw [hq _ (by omega), decide_eq_false (by omega), Bool.not_false, Bool.and_true]
        rw [← Nat.add_assoc, List.range_succ, List.countP_append, List.countP_append,
          ← ih (by omega)]
        simp only [List.countP_singleton, hlast]
        omega
  have := key (n - (s + 1)) (by omega)
  rwa [show s + 1 + (n - (s + 1)) = n by omega] at this

theorem bitBytes_le_five {k : Kind} {t : Nat} (h : countAddr k t ≠ none) : bitBytes k ≤ 5 := by
  cases k with
  | d64 => decide
  | d71 => decide
  | d81 => decide
  | dnp => exact absurd rfl h

/-- A count byte is far from overflowing. -/
theorem Consistent.count_lt {k : Kind} {cell : Addr → UInt8} (h : Consistent k cell) {t : Nat}
    (h1 : 1 ≤ t) (h2 : t ≤ lastTrack k) (hc : countAddr k t ≠ none) :
    freeCount k cell t ≤ 40 := by
  have hlen := List.countP_le_length (p := freeBit k cell t) (l := List.range (8 * bitBytes k))
  have := bitBytes_le_five hc
  rw [(h t h1 h2).1 hc]
  rw [List.length_range] at hlen
  omega

/-- Allocating one sector leaves a map in order. -/
theorem Taken.consistent {k : Kind} {m m' : Bam} {t s : Nat} (h : Taken k m m' t s)
    (hc : Consistent k m.cell) : Consistent k m'.cell := by
  intro t' h1 h2
  obtain ⟨hcount, hbits⟩ := hc t' h1 h2
  refine ⟨fun hne => ?_, fun s' hs' hge => ?_⟩
  · rw [h.count t']
    by_cases ht : t' = t
    · subst ht
      have := countP_range_clear h.bound h.was_free (q := freeBit k m'.cell t') (by
        intro i hi
        rw [h.bit t' i hi]
        simp)
      rw [if_pos rfl, hcount hne]
      omega
    · rw [if_neg ht, hcount hne]
      refine List.countP_congr fun i hi => ?_
      rw [h.bit t' i (List.mem_range.mp hi), decide_eq_false fun he => ht he.1, Bool.not_false,
        Bool.and_true]
  · rw [h.bit t' s' hs', hbits s' hs' hge, Bool.false_and]

/-- So does freeing one the layout has. -/
theorem Released.consistent {k : Kind} {m m' : Bam} {t s : Nat} (h : Released k m m' t s)
    (hs : s < k.layout.sectors t) (hs8 : s < 8 * bitBytes k) (hc : Consistent k m.cell) :
    Consistent k m'.cell := by
  intro t' h1 h2
  obtain ⟨hcount, hbits⟩ := hc t' h1 h2
  refine ⟨fun hne => ?_, fun s' hs' hge => ?_⟩
  · rw [h.count t']
    by_cases ht : t' = t
    · subst ht
      have hone := countP_range_clear (p := freeBit k m'.cell t') (q := freeBit k m.cell t') hs8
        (by rw [h.bit t' s hs8, decide_eq_true ⟨rfl, rfl⟩, Bool.or_true]) (by
          intro i hi
          rw [h.bit t' i hi]
          by_cases hi' : i = s
          · subst hi'
            rw [h.was_used]
            simp
          · simp [hi'])
      have hle := hc.count_lt h1 h2 hne
      rw [if_pos ⟨rfl, hne⟩, ← hone, ← hcount hne]
      omega
    · rw [if_neg fun he => ht he.1, hcount hne]
      refine List.countP_congr fun i hi => ?_
      rw [h.bit t' i (List.mem_range.mp hi), decide_eq_false fun he => ht he.1, Bool.or_false]
  · rw [h.bit t' s' hs', hbits s' hs' hge, Bool.false_or]
    refine decide_eq_false ?_
    rintro ⟨rfl, rfl⟩
    omega

/-- On a map in order a track with nothing to allocate has a count of zero
    already. -/
theorem Refused.consistent {k : Kind} {m m' : Bam} {t : Nat} (h : Refused k m m' t)
    (hk : k ≠ .dnp) (ht1 : 1 ≤ t) (ht2 : t ≤ lastTrack k) (hno : ¬ Allocatable k m.cell t)
    (hc : Consistent k m.cell) : Consistent k m'.cell := by
  intro t' h1 h2
  obtain ⟨hcount, hbits⟩ := hc t' h1 h2
  refine ⟨fun hne => ?_, fun s' hs' hge => ?_⟩
  · have hsame : (List.range (8 * bitBytes k)).countP (freeBit k m'.cell t')
        = (List.range (8 * bitBytes k)).countP (freeBit k m.cell t') := by
      refine List.countP_congr fun i hi => ?_
      rw [h.bit t' i (List.mem_range.mp hi)]
    rw [h.count t', hsame, ← hcount hne]
    by_cases ht : t' = t
    · subst ht
      rw [if_pos rfl]
      by_contra h0
      refine hno ((hc.allocatable_iff hk ht1 ht2).mpr ?_)
      have hpos : 0 < (List.range (8 * bitBytes k)).countP (freeBit k m.cell t') := by
        have := hcount hne
        omega
      obtain ⟨s, hs, hfree⟩ := List.countP_pos_iff.mp hpos
      exact ⟨s, List.mem_range.mp hs, hfree⟩
    · rw [if_neg ht]
  · rw [h.bit t' s' hs']
    exact hbits s' hs' hge

/-! ## Dirty flags -/

/-- A buffer whose flag is down afterwards was down before and was not
    written to. -/
structure Kept (m m' : Bam) : Prop where
  root : m'.regs.rootDirty = false →
    m.regs.rootDirty = false ∧ ∀ i, m'.cell ⟨.root, i⟩ = m.cell ⟨.root, i⟩
  bam2 : m'.regs.bam2Dirty = false →
    m.regs.bam2Dirty = false ∧ ∀ i, m'.cell ⟨.bam2, i⟩ = m.cell ⟨.bam2, i⟩
  bam : m'.regs.bamDirty = 0 →
    m.regs.bamDirty = 0 ∧ ∀ i, m'.cell ⟨.bam, i⟩ = m.cell ⟨.bam, i⟩

theorem Kept.refl (m : Bam) : Kept m m where
  root := fun h => ⟨h, fun _ => rfl⟩
  bam2 := fun h => ⟨h, fun _ => rfl⟩
  bam := fun h => ⟨h, fun _ => rfl⟩

theorem Kept.trans {m₁ m₂ m₃ : Bam} (h : Kept m₁ m₂) (h' : Kept m₂ m₃) : Kept m₁ m₃ where
  root := by
    intro hd
    obtain ⟨hd₂, hc₂⟩ := h'.root hd
    obtain ⟨hd₁, hc₁⟩ := h.root hd₂
    exact ⟨hd₁, fun i => (hc₂ i).trans (hc₁ i)⟩
  bam2 := by
    intro hd
    obtain ⟨hd₂, hc₂⟩ := h'.bam2 hd
    obtain ⟨hd₁, hc₁⟩ := h.bam2 hd₂
    exact ⟨hd₁, fun i => (hc₂ i).trans (hc₁ i)⟩
  bam := by
    intro hd
    obtain ⟨hd₂, hc₂⟩ := h'.bam hd
    obtain ⟨hd₁, hc₁⟩ := h.bam hd₂
    exact ⟨hd₁, fun i => (hc₂ i).trans (hc₁ i)⟩

/-- The buffers the entry of a track is in. -/
theorem inEntry_buf {k : Kind} {t : Nat} {a : Addr} (h : InEntry k t a) :
    match k with
    | .d64 => a.buf = .root
    | .d71 => a.buf = .root ∨ (a.buf = .bam2 ∧ t > 35)
    | .d81 => a.buf = .bam
    | .dnp => a.buf = .bam := by
  cases k with
  | d64 =>
      rcases h with h | ⟨i, -, rfl⟩
      · cases h
        rfl
      · rfl
  | d71 =>
      rcases h with h | ⟨i, -, rfl⟩
      · cases h
        left
        show (FileSystemD71.count t).buf = .root
        rw [FileSystemD71.count]
        split <;> rfl
      · show (FileSystemD71.bits t).buf = .root ∨ ((FileSystemD71.bits t).buf = .bam2 ∧ t > 35)
        rw [FileSystemD71.bits]
        split
        · next ht => exact Or.inr ⟨rfl, ht⟩
        · exact Or.inl rfl
  | d81 =>
      rcases h with h | ⟨i, -, rfl⟩
      · cases h
        show (FileSystemD81.entry t).buf = .bam
        rw [FileSystemD81.entry]
        split <;> rfl
      · show (FileSystemD81.entry t).buf = .bam
        rw [FileSystemD81.entry]
        split <;> rfl
  | dnp =>
      rcases h with h | ⟨i, -, rfl⟩
      · cases h
      · rfl

/-- The flags of the buffers a track's entry is in are up, and none went
    down. -/
def Flagged : Kind → Nat → Regs → Regs → Prop
  | .d64, _, r, r' => r'.rootDirty = true ∧ r'.bam2Dirty = r.bam2Dirty ∧ r'.bamDirty = r.bamDirty
  | .d71, t, r, r' => r'.rootDirty = true ∧
      r'.bam2Dirty = (r.bam2Dirty || decide (t > 35)) ∧ r'.bamDirty = r.bamDirty
  | .d81, _, r, r' => r'.rootDirty = r.rootDirty ∧ r'.bam2Dirty = r.bam2Dirty ∧ r'.bamDirty ≠ 0
  | .dnp, _, _, _ => False

/-- Writing to one entry with its flags up. -/
theorem kept_of_flagged {k : Kind} {t : Nat} {m m' : Bam}
    (hframe : ∀ a, ¬ InEntry k t a → m'.cell a = m.cell a)
    (hflag : Flagged k t m.regs m'.regs) : Kept m m' := by
  have hother : ∀ b i, (∀ a, InEntry k t a → a.buf ≠ b) →
      m'.cell ⟨b, i⟩ = m.cell ⟨b, i⟩ := fun b i h => hframe _ fun ha => h _ ha rfl
  cases k with
  | d64 =>
      obtain ⟨h1, h2, h3⟩ := hflag
      have hroot : ∀ a, InEntry .d64 t a → a.buf = .root := fun a ha => inEntry_buf ha
      refine ⟨fun h => ?_, fun h => ⟨h2 ▸ h, fun i => hother _ i fun a ha => ?_⟩,
        fun h => ⟨h3 ▸ h, fun i => hother _ i fun a ha => ?_⟩⟩
      · rw [h1] at h
        exact nomatch h
      · rw [hroot a ha]
        exact fun h => nomatch h
      · rw [hroot a ha]
        exact fun h => nomatch h
  | d71 =>
      obtain ⟨h1, h2, h3⟩ := hflag
      have hbuf : ∀ a, InEntry .d71 t a → a.buf = .root ∨ (a.buf = .bam2 ∧ t > 35) :=
        fun a ha => inEntry_buf ha
      refine ⟨fun h => ?_, fun h => ?_, fun h => ⟨h3 ▸ h, fun i => hother _ i fun a ha => ?_⟩⟩
      · rw [h1] at h
        exact nomatch h
      · rw [h2, Bool.or_eq_false_iff, decide_eq_false_iff_not] at h
        refine ⟨h.1, fun i => hother _ i fun a ha => ?_⟩
        rcases hbuf a ha with hr | ⟨-, ht⟩
        · rw [hr]
          exact fun h => nomatch h
        · exact absurd ht h.2
      · rcases hbuf a ha with hr | ⟨hr, -⟩ <;> rw [hr] <;> exact fun h => nomatch h
  | d81 =>
      obtain ⟨h1, h2, h3⟩ := hflag
      have hbam : ∀ a, InEntry .d81 t a → a.buf = .bam := fun a ha => inEntry_buf ha
      refine ⟨fun h => ⟨h1 ▸ h, fun i => hother _ i fun a ha => ?_⟩,
        fun h => ⟨h2 ▸ h, fun i => hother _ i fun a ha => ?_⟩, fun h => absurd h h3⟩
      · rw [hbam a ha]
        exact fun h => nomatch h
      · rw [hbam a ha]
        exact fun h => nomatch h
  | dnp => exact hflag.elim

theorem flagged_allocationMark {k : Kind} (hk : k ≠ .dnp) (t : Nat) (r : Regs) :
    Flagged k t r (allocationMark k t true r) := by
  cases k with
  | d64 => exact ⟨Bool.or_true _, rfl, rfl⟩
  | d71 => exact ⟨rfl, rfl, rfl⟩
  | d81 =>
      refine ⟨rfl, rfl, ?_⟩
      show r.bamDirty ||| 1 ≠ 0
      intro h
      have hle : 1 ≤ r.bamDirty ||| 1 := Nat.right_le_or
      omega
  | dnp => exact absurd rfl hk

/-- `allocate_sector_on_track` raises the flags of what it writes. -/
theorem allocateSectorOnTrack_kept {k : Kind} {t : Nat} {fr : Addr}
    (hfr : countAddr k t = some fr) (haddr : Addressable k t) {m m' : Bam} {r : Option Nat}
    (hx : (allocateSectorOnTrack k t).exec m = some (r, m')) : Kept m m' := by
  have hk := ne_dnp_of_count hfr
  obtain ⟨mark, hmark, hflag⟩ : ∃ mark, allocateSectorOnTrack k t
      = allocateInEntry k fr (bitsAddr k t) (scanned k) mark ∧
      ∀ r, Flagged k t r (mark r) := by
    cases k with
    | d64 => cases hfr; exact ⟨_, rfl, fun r => ⟨rfl, rfl, rfl⟩⟩
    | d71 => cases hfr; exact ⟨_, rfl, fun r => ⟨rfl, rfl, rfl⟩⟩
    | d81 => cases hfr; exact ⟨_, rfl, fun r => ⟨rfl, rfl, Nat.one_ne_zero⟩⟩
    | dnp => exact nomatch hfr
  rw [hmark, allocateInEntry, exec_bind_of (exec_load m (addressable_count haddr hfr))] at hx
  by_cases hc : m.cell fr ≠ 0
  · rw [if_pos hc] at hx
    rcases scanTrack_exec hk hfr haddr mark hc (scanned k) 0
        (by have := scanned_le k; omega) with ⟨s, m₁, -, -, hy, ht, hr⟩ | ⟨m₁, hy, -, href, hr⟩
    · rw [hy] at hx
      cases hx
      exact kept_of_flagged ht.frame (hr ▸ hflag _)
    · rw [hy] at hx
      cases hx
      exact kept_of_flagged href.frame (hr ▸ hflag _)
  · rw [if_neg hc] at hx
    cases hx
    exact Kept.refl m

/-! ## One step -/

/-- A step that leaves a map in order. -/
structure Upkeep (k : Kind) (m m' : Bam) : Prop where
  consistent : Consistent k m'.cell
  kept : Kept m m'

theorem Upkeep.refl {k : Kind} {m : Bam} (h : Consistent k m.cell) : Upkeep k m m :=
  ⟨h, Kept.refl m⟩

/-- `set_sector_allocation` of a sector of the layout. -/
theorem setSectorAllocation_upkeep {k : Kind} (hk : k ≠ .dnp) {t s : Nat}
    (ht : t ≤ lastTrack k) (hs : s < k.layout.sectors t) (alloc : Bool) {m : Bam}
    (hc : Consistent k m.cell) :
    ∃ r m', (setSectorAllocation k t s alloc).exec m = some (r, m') ∧ Upkeep k m m' := by
  have haddr := addressable_of_le ht
  have hs8 : s < 8 * bitBytes k := Nat.lt_of_lt_of_le hs (sectors_le_bits k t)
  cases alloc with
  | false =>
      rcases setSectorAllocation_free haddr hs8 m with ⟨-, hx⟩ | ⟨m', hx, hr, hregs⟩
      · exact ⟨_, _, hx, Upkeep.refl hc⟩
      · exact ⟨_, _, hx, hr.consistent hs hs8 hc,
          kept_of_flagged hr.frame (hregs ▸ flagged_allocationMark hk t _)⟩
  | true =>
      rcases setSectorAllocation_alloc haddr hs8 m with ⟨-, hx⟩ | ⟨m', hx, hr, hregs⟩
      · exact ⟨_, _, hx, Upkeep.refl hc⟩
      · exact ⟨_, _, hx, hr.consistent hc,
          kept_of_flagged hr.frame (hregs ▸ flagged_allocationMark hk t _)⟩

theorem allocateSectorOnTrack_upkeep {k : Kind} (hk : k ≠ .dnp) {t : Nat} (h1 : 1 ≤ t)
    (h2 : t ≤ lastTrack k) {m : Bam} (hc : Consistent k m.cell) :
    ∃ r m', (allocateSectorOnTrack k t).exec m = some (r, m') ∧ Upkeep k m m' := by
  have haddr := addressable_of_le h2
  obtain ⟨fr, hfr⟩ := countAddr_isSome hk t
  rcases allocateSectorOnTrack_spec hfr haddr m with ⟨s, m', hx, -, -, ht, -⟩ |
    ⟨m', hx, hno, href, -⟩
  · exact ⟨_, _, hx, ht.consistent hc, allocateSectorOnTrack_kept hfr haddr hx⟩
  · exact ⟨_, _, hx, href.consistent hk h1 h2 hno hc, allocateSectorOnTrack_kept hfr haddr hx⟩

/-! ## Probing changes nothing -/

/-- A byte is determined by its bits. -/
theorem eq_of_hasBit {v w : UInt8} (h : ∀ b < 8, hasBit v b = hasBit w b) : v = w := by
  rw [← UInt8.toBitVec_inj]
  refine BitVec.eq_of_getLsbD_eq fun b hb => ?_
  rw [← hasBit_eq v hb, ← hasBit_eq w hb]
  exact h b hb

/-- Two maps that agree on every bit and every count of an entry, and outside
    the entry, are the same. -/
theorem cell_ext {k : Kind} (hk : k ≠ .dnp) {t : Nat} {m m' : Bam}
    (hbit : ∀ s < 8 * bitBytes k, freeBit k m'.cell t s = freeBit k m.cell t s)
    (hcount : freeCount k m'.cell t = freeCount k m.cell t)
    (hframe : ∀ a, ¬ InEntry k t a → m'.cell a = m.cell a) : m'.cell = m.cell := by
  funext a
  by_cases ha : InEntry k t a
  · rcases ha with ha | ⟨i, hi, rfl⟩
    · simp only [freeCount, ha] at hcount
      exact UInt8.toNat_inj.mp hcount
    · refine eq_of_hasBit fun b hb => ?_
      have h := hbit (8 * i + b) (by omega)
      rw [freeBit, freeBit, bitAddr_eq, bitOf_eq hk, show (8 * i + b) / 8 = i by omega,
        show (8 * i + b) % 8 = b by omega] at h
      exact h
  · exact hframe a ha

/-- Freeing a block and allocating it again. -/
theorem Released.taken_cell {k : Kind} (hk : k ≠ .dnp) {m m₁ m₂ : Bam} {t s : Nat}
    (hr : Released k m m₁ t s) (ht : Taken k m₁ m₂ t s) (hlt : freeCount k m.cell t ≤ 40) :
    m₂.cell = m.cell := by
  refine cell_ext (t := t) hk ?_ ?_ fun a ha => (ht.frame a ha).trans (hr.frame a ha)
  · intro s' hs'
    rw [ht.bit t s' hs', hr.bit t s' hs']
    by_cases heq : s' = s
    · subst heq
      rw [hr.was_used]
      simp
    · simp [heq]
  · obtain ⟨fr, hfr⟩ := countAddr_isSome hk t
    rw [ht.count t, if_pos rfl, hr.count t, if_pos ⟨rfl, by rw [hfr]; exact fun h => nomatch h⟩]
    omega

/-- The inner loop of `allocate_sector` on a map in order: every byte stays, and
    the answer is the first free sector. -/
theorem probeTrack_unchanged {k : Kind} (hk : k ≠ .dnp) {t : Nat} (h1 : 1 ≤ t)
    (h2 : t ≤ lastTrack k) :
    ∀ (left s : Nat) (m : Bam), Consistent k m.cell → s + left ≤ 8 * bitBytes k →
      ∃ r m', (probeTrack k t s left).exec m = some (r, m') ∧ m'.cell = m.cell ∧ Kept m m' ∧
        (r = none → ∀ s', s ≤ s' → s' < s + left → freeBit k m.cell t s' = false) ∧
        (∀ s', r = some s' → s ≤ s' ∧ s' < s + left ∧ freeBit k m.cell t s' = true ∧
          ∀ s'', s ≤ s'' → s'' < s' → freeBit k m.cell t s'' = false) := by
  have haddr := addressable_of_le h2
  intro left
  induction left with
  | zero =>
      intro s m _ _
      exact ⟨none, m, rfl, rfl, Kept.refl m, fun _ s' h1 h2 => absurd h1 (by omega),
        fun _ h => nomatch h⟩
  | succ left ih =>
      intro s m hc hs
      have hlt : s < 8 * bitBytes k := by omega
      rcases setSectorAllocation_free haddr hlt m with ⟨hfree, hx⟩ | ⟨m₁, hx, hr, hregs⟩
      · refine ⟨some s, m, ?_, rfl, Kept.refl m, (fun h => by cases h), ?_⟩
        · rw [probeTrack, exec_bind_of hx]
          rfl
        · intro s' h
          cases h
          exact ⟨Nat.le_refl _, by omega, hfree, fun s'' h1 h2 => absurd h1 (by omega)⟩
      · have hkept₁ := kept_of_flagged hr.frame (hregs ▸ flagged_allocationMark hk t _)
        have hnow : freeBit k m₁.cell t s = true := by
          rw [hr.bit t s hlt, decide_eq_true ⟨rfl, rfl⟩, Bool.or_true]
        rcases setSectorAllocation_alloc haddr hlt m₁ with ⟨hno, -⟩ | ⟨m₂, hx₂, ht, hregs₂⟩
        · rw [hnow] at hno
          cases hno
        · have hkept₂ := kept_of_flagged ht.frame (hregs₂ ▸ flagged_allocationMark hk t _)
          obtain ⟨fr, hfr⟩ := countAddr_isSome hk t
          have hback : m₂.cell = m.cell := hr.taken_cell hk ht
            (hc.count_lt h1 h2 (by rw [hfr]; intro h; cases h))
          obtain ⟨r, m', hx', hcell, hkept, hnone, hsome⟩ := ih (s + 1) m₂
            (by rw [hback]; exact hc) (by omega)
          rw [hback] at hcell hnone hsome
          refine ⟨r, m', ?_, hcell, (hkept₁.trans hkept₂).trans hkept, ?_, ?_⟩
          · rw [probeTrack, exec_bind_of hx, if_pos rfl, exec_bind_of hx₂]
            exact hx'
          · intro hrn s' hle hlt'
            rcases Nat.eq_or_lt_of_le hle with heq | hgt
            · rw [← heq]
              exact hr.was_used
            · exact hnone hrn s' hgt (by omega)
          · intro s' hrs
            obtain ⟨hle, hlt', hfree, hfirst⟩ := hsome s' hrs
            refine ⟨by omega, by omega, hfree, fun s'' h3 h4 => ?_⟩
            rcases Nat.eq_or_lt_of_le h3 with heq | hgt
            · rw [← heq]
              exact hr.was_used
            · exact hfirst s'' hgt h4

/-- A sector comes after another one, in (track, sector) order. -/
def After (t s t' s' : Nat) : Prop := t < t' ∨ (t = t' ∧ s < s')

/-- The next free sector from sector `s` of track `t` on, over `left` tracks. -/
def FirstFree (k : Kind) (cell : Addr → UInt8) (t s left : Nat) : Option (Nat × Nat) → Prop
  | none => ∀ t' s', t ≤ t' → t' < t + left → s' < k.layout.sectors t' →
      (t' = t → s ≤ s') → freeBit k cell t' s' = false
  | some (t₁, s₁) => t ≤ t₁ ∧ t₁ < t + left ∧ s₁ < k.layout.sectors t₁ ∧ (t₁ = t → s ≤ s₁) ∧
      freeBit k cell t₁ s₁ = true ∧
      ∀ t' s', t ≤ t' → s' < k.layout.sectors t' → (t' = t → s ≤ s') → After t' s' t₁ s₁ →
        freeBit k cell t' s' = false

/-- The search of `allocate_sector` on a map in order. -/
theorem probeTracks_unchanged {g : Geometry} (hk : g.kind ≠ .dnp) :
    ∀ (left t s : Nat) (m : Bam), 1 ≤ t → t + left ≤ lastTrack g.kind + 1 →
      s ≤ 8 * bitBytes g.kind → Consistent g.kind m.cell →
      ∃ r m', (probeTracks g t s left).exec m = some (r, m') ∧ m'.cell = m.cell ∧ Kept m m' ∧
        FirstFree g.kind m.cell t s left r := by
  intro left
  induction left with
  | zero =>
      intro t s m _ _ _ _
      exact ⟨none, m, rfl, rfl, Kept.refl m, fun t' s' h1 h2 => absurd h1 (by omega)⟩
  | succ left ih =>
      intro t s m h1 hend hs hc
      have hsec : getSectorsInTrack g.layout t = g.kind.layout.sectors t :=
        getSectorsInTrack_eq _ h1
      have hle := sectors_le_bits g.kind t
      obtain ⟨r, m₁, hx, hcell, hkept, hnone, hsome⟩ := probeTrack_unchanged hk h1
        (by omega) (getSectorsInTrack g.layout t - s) s m hc (by rw [hsec]; omega)
      rw [hsec] at hnone hsome
      cases r with
      | some s₁ =>
          obtain ⟨h3, h4, hfree, hfirst⟩ := hsome s₁ rfl
          refine ⟨some (t, s₁), m₁, ?_, hcell, hkept, Nat.le_refl t, by omega, by omega,
            fun _ => h3, hfree, ?_⟩
          · rw [probeTracks, exec_bind_of hx]
            rfl
          · rintro t' s' h5 h6 h7 (h8 | ⟨rfl, h8⟩)
            · omega
            · exact hfirst s' (h7 rfl) h8
      | none =>
          obtain ⟨r, m', hx', hcell', hkept', hrest⟩ := ih (t + 1) 0 m₁ (by omega) (by omega)
            (Nat.zero_le _) (by rw [hcell]; exact hc)
          rw [hcell] at hcell' hrest
          refine ⟨r, m', ?_, hcell', hkept.trans hkept', ?_⟩
          · rw [probeTracks, exec_bind_of hx]
            exact hx'
          · have hhere : ∀ s', s ≤ s' → s' < g.kind.layout.sectors t →
                freeBit g.kind m.cell t s' = false := fun s' h3 h4 => hnone rfl s' h3 (by omega)
            cases r with
            | none =>
                intro t' s' h3 h4 h5 h6
                by_cases ht : t' = t
                · subst ht
                  exact hhere s' (h6 rfl) h5
                · exact hrest t' s' (by omega) (by omega) h5 fun h => Nat.zero_le _
            | some p =>
                obtain ⟨t₁, s₁⟩ := p
                obtain ⟨h3, h4, h5, -, h6, h7⟩ := hrest
                refine ⟨by omega, by omega, h5, fun h => by omega, h6, ?_⟩
                intro t' s' h8 h9 h10 h11
                by_cases ht : t' = t
                · subst ht
                  exact hhere s' (h10 rfl) h9
                · exact h7 t' s' (by omega) h9 (fun _ => Nat.zero_le _) h11

end CbmBam
