import Ultimate1541.CbmBamViewProofs

/-! # Searching for a free sector

    The search functions try one track after the other.  A try that finds
    nothing leaves the bits alone and at most sets the count of that track to
    zero (`Idle`), so the tries compose: a search ends with one sector taken
    from an idle map, or with an idle map and no allocatable track among those
    tried. -/

namespace CbmBam

open CbmLayout ByteBuffer Footprint Footprint.Prog

/-- The bits stayed, and so did the counts of all tracks that have something
    to allocate. -/
structure Idle (k : Kind) (m m' : Bam) : Prop where
  bit : ∀ t s, s < 8 * bitBytes k → freeBit k m'.cell t s = freeBit k m.cell t s
  count : ∀ t, freeCount k m'.cell t = freeCount k m.cell t ∨
    (¬ Allocatable k m.cell t ∧ freeCount k m'.cell t = 0)
  frame : ∀ a, (∀ t, ¬ InEntry k t a) → m'.cell a = m.cell a
  bamValid : m'.regs.bamValid = m.regs.bamValid

theorem Idle.refl (k : Kind) (m : Bam) : Idle k m m where
  bit := fun _ _ _ => rfl
  count := fun _ => Or.inl rfl
  frame := fun _ _ => rfl
  bamValid := rfl

theorem Idle.allocatable_iff {k : Kind} {m m' : Bam} (h : Idle k m m') (t : Nat) :
    Allocatable k m'.cell t ↔ Allocatable k m.cell t := by
  have hbits : (∃ s < scanned k, freeBit k m'.cell t s = true) ↔
      ∃ s < scanned k, freeBit k m.cell t s = true := by
    refine exists_congr fun s => and_congr_right fun hs => ?_
    rw [h.bit t s (Nat.lt_of_lt_of_le hs (scanned_le k))]
  rcases h.count t with hc | ⟨hno, hc⟩
  · unfold Allocatable
    rw [hc, hbits]
  · constructor
    · intro ha
      exact absurd hc ha.1
    · intro ha
      exact absurd ha hno

theorem Idle.trans {k : Kind} {m₁ m₂ m₃ : Bam} (h₁ : Idle k m₁ m₂) (h₂ : Idle k m₂ m₃) :
    Idle k m₁ m₃ where
  bit := fun t s hs => (h₂.bit t s hs).trans (h₁.bit t s hs)
  count := by
    intro t
    rcases h₂.count t with h | ⟨hno, h⟩
    · rcases h₁.count t with h' | ⟨hno', h'⟩
      · exact Or.inl (h.trans h')
      · exact Or.inr ⟨hno', h.trans h'⟩
    · exact Or.inr ⟨fun ha => hno ((h₁.allocatable_iff t).mpr ha), h⟩
  frame := fun a ha => (h₂.frame a ha).trans (h₁.frame a ha)
  bamValid := h₂.bamValid.trans h₁.bamValid

theorem Refused.idle {k : Kind} {m m' : Bam} {t : Nat} (h : Refused k m m' t)
    (hno : ¬ Allocatable k m.cell t) (hv : m'.regs.bamValid = m.regs.bamValid) :
    Idle k m m' where
  bit := h.bit
  count := by
    intro t'
    rw [h.count t']
    by_cases ht : t' = t
    · subst ht
      rw [if_pos rfl]
      exact Or.inr ⟨hno, rfl⟩
    · rw [if_neg ht]
      exact Or.inl rfl
  frame := fun a ha => h.frame a (ha t)
  bamValid := hv

/-- A sector was taken after any number of tries that found nothing. -/
structure Found (k : Kind) (m m' : Bam) (t s : Nat) : Prop where
  idle_taken : ∃ m₁, Idle k m m₁ ∧ Taken k m₁ m' t s
  bamValid : m'.regs.bamValid = m.regs.bamValid

namespace Found

variable {k : Kind} {m m' : Bam} {t s : Nat}

theorem bound (h : Found k m m' t s) : s < 8 * bitBytes k := by
  obtain ⟨_, -, ht⟩ := h.idle_taken
  exact ht.bound

theorem was_free (h : Found k m m' t s) : freeBit k m.cell t s = true := by
  obtain ⟨m₁, hi, ht⟩ := h.idle_taken
  rw [← hi.bit t s ht.bound]
  exact ht.was_free

/-- The sector found is the only one whose state changed. -/
theorem bit (h : Found k m m' t s) (t' s' : Nat) (hs : s' < 8 * bitBytes k) :
    freeBit k m'.cell t' s' = (freeBit k m.cell t' s' && !decide (t' = t ∧ s' = s)) := by
  obtain ⟨m₁, hi, ht⟩ := h.idle_taken
  rw [ht.bit t' s' hs, hi.bit t' s' hs]

theorem of_idle {m₀ : Bam} (hi : Idle k m₀ m) (h : Found k m m' t s) :
    Found k m₀ m' t s := by
  obtain ⟨m₁, hi', ht⟩ := h.idle_taken
  exact ⟨⟨m₁, hi.trans hi', ht⟩, h.bamValid.trans hi.bamValid⟩

end Found

/-! ## Loops over tracks -/

theorem tryTracks_cons (k : Kind) (t : Nat) (ts : List Nat) :
    tryTracks k (t :: ts) = (do
      match ← allocateSectorOnTrack k t with
      | some s => pure (some (t, s))
      | none => tryTracks k ts) := rfl

/-- A loop over tracks whose entries exist takes a sector from one of them, or
    none of them has anything to allocate. -/
theorem tryTracks_spec {k : Kind} (hk : k ≠ .dnp) :
    ∀ (ts : List Nat) (m : Bam), (∀ t ∈ ts, Addressable k t) →
      (∃ t s m', (tryTracks k ts).exec m = some (some (t, s), m') ∧ t ∈ ts ∧
          Allocatable k m.cell t ∧ s < scanned k ∧ Found k m m' t s) ∨
      (∃ m', (tryTracks k ts).exec m = some (none, m') ∧
          (∀ t ∈ ts, ¬ Allocatable k m.cell t) ∧ Idle k m m') := by
  intro ts
  induction ts with
  | nil =>
      intro m _
      exact Or.inr ⟨m, rfl, fun t ht => absurd ht List.not_mem_nil, Idle.refl k m⟩
  | cons t ts ih =>
      intro m haddr
      obtain ⟨fr, hfr⟩ : ∃ fr, countAddr k t = some fr := by
        cases k with
        | d64 => exact ⟨_, rfl⟩
        | d71 => exact ⟨_, rfl⟩
        | d81 => exact ⟨_, rfl⟩
        | dnp => exact absurd rfl hk
      rw [tryTracks_cons]
      rcases allocateSectorOnTrack_spec hfr (haddr t (List.mem_cons_self ..)) m with
        ⟨s, m₁, hx, ha, hs, ht, hv⟩ | ⟨m₁, hx, hno, href, hv⟩
      · refine Or.inl ⟨t, s, m₁, ?_, List.mem_cons_self .., ha, hs,
          ⟨m, Idle.refl k m, ht⟩, hv⟩
        rw [exec_bind_of hx]
        rfl
      · have hidle := href.idle hno hv
        rw [exec_bind_of hx]
        rcases ih m₁ (fun t' ht' => haddr t' (List.mem_cons_of_mem _ ht')) with
          ⟨t', s, m', hx', hmem, ha, hs, hf⟩ | ⟨m', hx', hall, hidle'⟩
        · exact Or.inl ⟨t', s, m', hx', List.mem_cons_of_mem _ hmem,
            (hidle.allocatable_iff t').mp ha, hs, hf.of_idle hidle⟩
        · refine Or.inr ⟨m', hx', ?_, hidle.trans hidle'⟩
          intro t' ht'
          rcases List.mem_cons.mp ht' with rfl | hmem
          · exact hno
          · exact fun ha => hall t' hmem ((hidle.allocatable_iff t').mpr ha)

/-- Two loops after each other are one loop. -/
theorem tryTracks_append (k : Kind) (ts us : List Nat) :
    tryTracks k (ts ++ us) = (do
      match ← tryTracks k ts with
      | some r => pure (some r)
      | none => tryTracks k us) := by
  induction ts with
  | nil => exact (pure_bind ..).symm
  | cons t ts ih =>
      rw [List.cons_append, tryTracks_cons, tryTracks_cons, bind_assoc]
      refine bind_congr fun x => ?_
      cases x with
      | some s => rfl
      | none => exact ih

/-! ## The three searches as one loop -/

/-- The tracks the search of D64 and D81 goes through, in order; `mt` is the
    last track of the image. -/
def searchOrder (k : Kind) (hint mt : Nat) : List Nat :=
  hint :: downFrom (rootTrack k - 1) ++ List.range' (rootTrack k + 1) (mt - rootTrack k)

/-- The hint the search starts from. -/
def startHint (k : Kind) (track : Nat) : Nat := if track = 0 then rootTrack k - 1 else track

/-- What a search over tracks answers. -/
def searchAnswer (hint sector : Nat) : Option (Nat × Nat) → NextFree
  | some (t, s) => ⟨true, t, s⟩
  | none => ⟨false, hint, sector⟩

theorem getNextFreeSector_cbm_eq {g : Geometry} {mt ms : Nat}
    (hmt : getTrackSector g (g.numSectors - 1) = some (mt, ms)) (track sector : Nat) :
    FileSystemCBM.getNextFreeSector g track sector = (do
      let r ← tryTracks g.kind (searchOrder g.kind (startHint g.kind track) mt)
      pure (searchAnswer (startHint g.kind track) sector r)) := by
  unfold FileSystemCBM.getNextFreeSector searchOrder
  rw [List.cons_append, tryTracks_cons, bind_assoc]
  refine bind_congr fun x => ?_
  cases x with
  | some s => rfl
  | none =>
      dsimp only
      rw [tryTracks_append, bind_assoc]
      refine bind_congr fun y => ?_
      cases y with
      | some r => rfl
      | none =>
          dsimp only
          rw [hmt]
          dsimp only
          refine bind_congr fun z => ?_
          cases z <;> rfl

/-- There is no count byte for track 71. -/
theorem allocateSectorOnTrack_71 : FileSystemD71.allocateSectorOnTrack 71 = fault := rfl

/-- The last pass of D71 runs from track 35 upwards and out of the buffers. -/
theorem lastPass_eq (fuel : Nat) :
    ∀ n i, i + n = 71 → 18 < i →
      FileSystemD71.lastPass (n + fuel + 1) i = (do
        match ← tryTracks .d71 (List.range' i n) with
        | some r => pure (some r)
        | none => fault) := by
  intro n
  induction n with
  | zero =>
      intro i hi _
      obtain rfl : i = 71 := by omega
      rw [Nat.zero_add, FileSystemD71.lastPass, if_pos (by decide),
        allocateSectorOnTrack_71]
      rfl
  | succ n ih =>
      intro i hi h18
      have hroot : i > rootTrack .d71 := h18
      rw [show n + 1 + fuel + 1 = (n + fuel + 1) + 1 by omega, FileSystemD71.lastPass,
        if_pos hroot, List.range'_succ, tryTracks_cons, bind_assoc]
      refine bind_congr fun x => ?_
      cases x with
      | some s => rfl
      | none => exact ih (i + 1) (by omega) (by omega)

/-- The tracks the search of D71 goes through before it leaves the buffers. -/
def searchOrderD71 (hint : Nat) : List Nat :=
  hint :: (downFrom 17 ++ ((List.range' 36 17 ++ List.range' 54 17) ++ List.range' 35 36))

theorem getNextFreeSector_d71_eq (track sector : Nat) :
    FileSystemD71.getNextFreeSector track sector = (do
      match ← tryTracks .d71 (searchOrderD71 (startHint .d71 track)) with
      | some (t, s) => pure ⟨true, t, s⟩
      | none => fault : BamM NextFree) := by
  unfold FileSystemD71.getNextFreeSector searchOrderD71
  rw [tryTracks_cons, bind_assoc]
  refine bind_congr fun x => ?_
  cases x with
  | some s => rfl
  | none =>
      dsimp only
      rw [tryTracks_append .d71 (downFrom 17), bind_assoc]
      refine bind_congr fun y => ?_
      cases y with
      | some r => rfl
      | none =>
          dsimp only
          rw [tryTracks_append .d71 (List.range' 36 17 ++ List.range' 54 17), bind_assoc]
          refine bind_congr fun z => ?_
          cases z with
          | some r => rfl
          | none =>
              dsimp only
              rw [show 2 ^ 31 - 35 = 36 + (2 ^ 31 - 35 - 37) + 1 by norm_num,
                lastPass_eq _ 36 35 (by decide) (by decide), bind_assoc]
              refine bind_congr fun w => ?_
              cases w <;> rfl

theorem mem_searchOrderD71 {hint t : Nat} :
    t ∈ searchOrderD71 hint ↔ t = hint ∨ (1 ≤ t ∧ t ≤ 17) ∨ (35 ≤ t ∧ t ≤ 70) := by
  simp only [searchOrderD71, downFrom, List.mem_cons, List.mem_append, List.mem_reverse,
    List.mem_range'_1]
  omega

theorem mem_searchOrder {k : Kind} {hint mt t : Nat} :
    t ∈ searchOrder k hint mt ↔
      t = hint ∨ (1 ≤ t ∧ t < rootTrack k) ∨ (rootTrack k < t ∧ t ≤ mt) := by
  have hroot : 1 ≤ rootTrack k := by cases k <;> decide
  simp only [searchOrder, downFrom, List.cons_append, List.mem_cons, List.mem_append,
    List.mem_reverse, List.mem_range'_1]
  omega

/-! ## Footprints -/

theorem inEntry_count {k : Kind} {t : Nat} {a : Addr} (h : countAddr k t = some a) :
    InEntry k t a := Or.inl h

theorem within_scanTrack {k : Kind} {t : Nat} {fr : Addr} (hfr : countAddr k t = some fr)
    (mark : Regs → Regs) :
    ∀ left i, i + left ≤ 8 * bitBytes k →
      Within (InEntry k t) (scanTrack k fr (bitsAddr k t) mark i left) := by
  intro left
  induction left with
  | zero =>
      intro i _
      exact (Within.store (inEntry_count hfr)).bind fun _ =>
        (Within.modifyRegs mark).bind fun _ => Within.pure none
  | succ left ih =>
      intro i hi
      have hbit : InEntry k t ((bitsAddr k t).add (i / 8)) :=
        Or.inr ⟨i / 8, by omega, rfl⟩
      refine (Within.load hbit).bind fun v => Within.ite ?_ (ih (i + 1) (by omega))
      exact (Within.store hbit).bind fun _ => (Within.load (inEntry_count hfr)).bind fun _ =>
        (Within.store (inEntry_count hfr)).bind fun _ =>
          (Within.modifyRegs mark).bind fun _ => Within.pure _

/-- `allocate_sector_on_track` stays inside the entry of its track. -/
theorem within_allocateSectorOnTrack (k : Kind) (t : Nat) :
    Within (InEntry k t) (allocateSectorOnTrack k t) := by
  have hbody : ∀ fr mark, countAddr k t = some fr →
      Within (InEntry k t) (allocateInEntry k fr (bitsAddr k t) (scanned k) mark) := by
    intro fr mark hfr
    rw [allocateInEntry]
    refine (Within.load (inEntry_count hfr)).bind fun c => Within.ite ?_ (Within.pure none)
    exact within_scanTrack hfr mark _ _ (by have := scanned_le k; omega)
  cases k with
  | d64 => exact hbody _ _ rfl
  | d71 => exact hbody _ _ rfl
  | d81 => exact hbody _ _ rfl
  | dnp => exact Within.pure none

theorem within_tryTracks (k : Kind) (ts : List Nat) :
    Within (fun a => ∃ t ∈ ts, InEntry k t a) (tryTracks k ts) := by
  induction ts with
  | nil => exact Within.pure none
  | cons t ts ih =>
      rw [tryTracks_cons]
      refine ((within_allocateSectorOnTrack k t).mono ?_).bind fun x => ?_
      · exact fun a ha => ⟨t, List.mem_cons_self .., ha⟩
      · cases x with
        | some s => exact Within.pure _
        | none => exact ih.mono fun a ⟨t', ht', ha⟩ => ⟨t', List.mem_cons_of_mem _ ht', ha⟩

/-! ## Which entries exist -/

theorem addressable_of_le {k : Kind} {t : Nat} (h : t ≤ lastTrack k) : Addressable k t := by
  intro a ha
  have hlt : a.idx < a.buf.size k := by
    rcases ha with ha | ⟨i, hi, rfl⟩
    · cases k with
      | d64 =>
          cases ha
          simp only [FileSystemD64.entry, Buf.size, lastTrack] at *
          omega
      | d71 =>
          cases ha
          simp only [FileSystemD71.count, lastTrack] at *
          split <;> simp only [Buf.size] <;> omega
      | d81 =>
          cases ha
          simp only [FileSystemD81.entry, lastTrack] at *
          split <;> simp only [Buf.size] <;> omega
      | dnp => cases ha
    · cases k with
      | d64 =>
          simp only [bitsAddr, FileSystemD64.entry, Addr.add, Buf.size, bitBytes, lastTrack] at *
          omega
      | d71 =>
          simp only [bitsAddr, FileSystemD71.bits, Addr.add, bitBytes, lastTrack] at *
          split <;> simp only [Buf.size] <;> omega
      | d81 =>
          simp only [bitsAddr, FileSystemD81.entry, Addr.add, bitBytes, lastTrack] at *
          split <;> simp only [Buf.size] <;> omega
      | dnp =>
          simp only [bitsAddr, FileSystemDNP.bits, Addr.add, Buf.size, bitBytes, lastTrack] at *
          omega
  exact decide_eq_true hlt

end CbmBam
