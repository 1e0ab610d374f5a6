import Ultimate1541.CbmBamViewProofs

/-! # The dirty flags of the map

    The BAM buffers are written back by the sector: the flags say which ones.
    `Marked` is what the allocation functions promise about them on every image
    and from every state: no flag goes down, and the flag of a sector goes up
    when one of its bytes changes. -/

namespace CbmBam

open CbmLayout Footprint Footprint.Prog

/-- The flag that makes `sync` write sector `i` of a buffer.  DNP has a bit for
    each of its sectors and writes them in pairs. -/
def bamFlag (k : Kind) (r : Regs) : Buf → Nat → Bool
  | .root, _ => r.rootDirty
  | .bam2, _ => r.bam2Dirty
  | .bam, i =>
      match k with
      | .dnp => r.bamDirty.testBit (2 * (i / 2)) || r.bamDirty.testBit (2 * (i / 2) + 1)
      | _ => decide (r.bamDirty ≠ 0)

/-- No flag goes down, and what changes is flagged. -/
structure Marked (k : Kind) (m m' : Bam) : Prop where
  kept : ∀ b i, bamFlag k m.regs b i = true → bamFlag k m'.regs b i = true
  raised : ∀ a, m'.cell a ≠ m.cell a → bamFlag k m'.regs a.buf (a.idx / 256) = true

namespace Marked

variable {k : Kind}

theorem refl (m : Bam) : Marked k m m := ⟨fun _ _ h => h, fun _ h => absurd rfl h⟩

theorem trans {m₁ m₂ m₃ : Bam} (h : Marked k m₁ m₂) (h' : Marked k m₂ m₃) :
    Marked k m₁ m₃ where
  kept := fun b i hf => h'.kept b i (h.kept b i hf)
  raised := by
    intro a ha
    by_cases h₂ : m₃.cell a = m₂.cell a
    · exact h'.kept _ _ (h.raised a (fun h₁ => ha (h₂.trans h₁)))
    · exact h'.raised a h₂

theorem bind {α β : Type} {p : BamM α} {f : α → BamM β} (hp : Leads (Marked k) p)
    (hf : ∀ x, Leads (Marked k) (f x)) : Leads (Marked k) (p >>= f) :=
  Leads.bind (R := Marked k) (fun _ _ _ h h' => h.trans h') hp hf

/-- Stores that only go where the flags are up afterwards. -/
theorem of_mark {m m' : Bam} {mark : Regs → Regs} {S : Addr → Prop}
    (hkept : ∀ r b i, bamFlag k r b i = true → bamFlag k (mark r) b i = true)
    (hS : ∀ r a, S a → bamFlag k (mark r) a.buf (a.idx / 256) = true)
    (hregs : m'.regs = mark m.regs) (hcell : ∀ a, ¬ S a → m'.cell a = m.cell a) :
    Marked k m m' where
  kept := by
    intro b i hf
    rw [hregs]
    exact hkept _ b i hf
  raised := by
    intro a ha
    rw [hregs]
    exact hS _ a (by
      by_contra hn
      exact ha (hcell a hn))

end Marked

/-! ## One bit -/

/-- The counters of `modify_allocation_bit` touch the count byte only. -/
theorem countUp_cells {k : Kind} {fr : Option Addr} {m m' : Bam} {r : Unit}
    (h : (countUp k fr).exec m = some (r, m')) :
    m'.regs = m.regs ∧ ∀ a, fr ≠ some a → m'.cell a = m.cell a := by
  cases fr with
  | none =>
      cases h
      exact ⟨rfl, fun _ _ => rfl⟩
  | some b =>
      obtain ⟨c, m₁, h1, h2⟩ := exec_bind_eq_some h
      obtain ⟨rfl, rfl⟩ := exec_load_eq_some h1
      rw [exec_store_eq_some h2]
      exact ⟨rfl, fun a ha => Function.update_of_ne (fun he => ha (congrArg some he.symm)) ..⟩

theorem countDown_cells {k : Kind} {fr : Option Addr} {m m' : Bam} {r : Unit}
    (h : (countDown k fr).exec m = some (r, m')) :
    m'.regs = m.regs ∧ ∀ a, fr ≠ some a → m'.cell a = m.cell a := by
  cases fr with
  | none =>
      cases h
      exact ⟨rfl, fun _ _ => rfl⟩
  | some b =>
      obtain ⟨c, m₁, h1, h2⟩ := exec_bind_eq_some h
      obtain ⟨rfl, rfl⟩ := exec_load_eq_some h1
      split at h2
      · rw [exec_store_eq_some h2]
        exact ⟨rfl, fun a ha => Function.update_of_ne (fun he => ha (congrArg some he.symm)) ..⟩
      · cases h2
        exact ⟨rfl, fun _ _ => rfl⟩

/-- `modify_allocation_bit` changes the byte of the bit and the count byte, and
    nothing when it answers `false`. -/
theorem modifyAllocationBit_cells {k : Kind} {fr : Option Addr} {bits : Addr} {sector : Nat}
    {alloc ok : Bool} {m m' : Bam}
    (h : (modifyAllocationBit k fr bits sector alloc).exec m = some (ok, m')) :
    m'.regs = m.regs ∧ (ok = false → m' = m) ∧
      ∀ a, ¬ (a = bits.add (sector / 8) ∨ fr = some a) → m'.cell a = m.cell a := by
  obtain ⟨v, m₁, h1, h2⟩ := exec_bind_eq_some h
  obtain ⟨rfl, rfl⟩ := exec_load_eq_some h1
  split at h2
  · split at h2
    · cases h2
      exact ⟨rfl, fun _ => rfl, fun _ _ => rfl⟩
    · obtain ⟨_, m₂, h3, h4⟩ := exec_bind_eq_some h2
      obtain ⟨_, m₃, h5, h6⟩ := exec_bind_eq_some h4
      rw [exec_store_eq_some h3] at h5
      obtain ⟨hr, hc⟩ := countUp_cells h5
      cases h6
      refine ⟨hr, (fun h => nomatch h), fun a ha => ?_⟩
      rw [not_or] at ha
      exact (hc a ha.2).trans (Function.update_of_ne ha.1 ..)
  · split at h2
    · cases h2
      exact ⟨rfl, fun _ => rfl, fun _ _ => rfl⟩
    · obtain ⟨_, m₂, h3, h4⟩ := exec_bind_eq_some h2
      obtain ⟨_, m₃, h5, h6⟩ := exec_bind_eq_some h4
      rw [exec_store_eq_some h3] at h5
      obtain ⟨hr, hc⟩ := countDown_cells h5
      cases h6
      refine ⟨hr, (fun h => nomatch h), fun a ha => ?_⟩
      rw [not_or] at ha
      exact (hc a ha.2).trans (Function.update_of_ne ha.1 ..)

/-! ## The flags -/

theorem testBit_shift_self (d j : Nat) : (d ||| 1 <<< j).testBit j = true := by
  rw [Nat.testBit_or, Nat.one_shiftLeft, Nat.testBit_two_pow_self, Bool.or_true]

/-- The bit of a sector is one of the two of its pair. -/
theorem bamFlag_dnp_of_testBit {r : Regs} {i : Nat} (h : r.bamDirty.testBit i = true) :
    bamFlag .dnp r .bam i = true := by
  rcases Nat.mod_two_eq_zero_or_one i with hi | hi
  · have he : 2 * (i / 2) = i := by omega
    show (r.bamDirty.testBit (2 * (i / 2)) || r.bamDirty.testBit (2 * (i / 2) + 1)) = true
    rw [he, h, Bool.true_or]
  · have he : 2 * (i / 2) + 1 = i := by omega
    show (r.bamDirty.testBit (2 * (i / 2)) || r.bamDirty.testBit (2 * (i / 2) + 1)) = true
    rw [he, h, Bool.or_true]

/-- Raising a bit of `bam_dirty` keeps every flag. -/
theorem bamFlag_or {k : Kind} {r : Regs} (n : Nat) {b : Buf} {i : Nat}
    (h : bamFlag k r b i = true) : bamFlag k { r with bamDirty := r.bamDirty ||| n } b i = true := by
  cases b with
  | root => exact h
  | bam2 => exact h
  | bam =>
      cases k with
      | dnp =>
          show ((r.bamDirty ||| n).testBit _ || (r.bamDirty ||| n).testBit _) = true
          rw [Nat.testBit_or, Nat.testBit_or]
          rcases Bool.or_eq_true_iff.mp h with h | h
          · rw [h, Bool.true_or, Bool.true_or]
          · rw [h, Bool.true_or, Bool.or_true]
      | d64 | d71 | d81 =>
          have h' : r.bamDirty ≠ 0 := of_decide_eq_true h
          have hle : r.bamDirty ≤ r.bamDirty ||| n := Nat.left_le_or
          exact decide_eq_true (show r.bamDirty ||| n ≠ 0 by omega)

/-- The flags an allocation on a track raises when it changed something. -/
theorem bamFlag_allocationMark {k : Kind} {t : Nat} {ok : Bool} {r : Regs} {b : Buf} {i : Nat}
    (h : bamFlag k r b i = true) : bamFlag k (allocationMark k t ok r) b i = true := by
  cases k with
  | d64 =>
      cases b with
      | root => exact Bool.or_eq_true_iff.mpr (Or.inl h)
      | bam2 => exact h
      | bam => exact h
  | d71 =>
      cases ok with
      | false => exact h
      | true =>
          cases b with
          | root => rfl
          | bam2 => exact Bool.or_eq_true_iff.mpr (Or.inl h)
          | bam => exact h
  | d81 => exact bamFlag_or _ h
  | dnp =>
      cases ok with
      | false => exact h
      | true => exact bamFlag_or _ h

/-- A changed bit or count byte is in a flagged sector. -/
theorem bamFlag_entry {k : Kind} {t s : Nat} (hs : k = .dnp → s < 256) {r : Regs} {a : Addr}
    (ha : a = (bitsAddr k t).add (bitOf k s / 8) ∨ countAddr k t = some a) :
    bamFlag k (allocationMark k t true r) a.buf (a.idx / 256) = true := by
  cases k with
  | d64 =>
      have hbuf : a.buf = .root := by
        rcases ha with rfl | ha
        · rfl
        · cases ha
          rfl
      rw [hbuf]
      exact Bool.or_true _
  | d71 =>
      rcases ha with rfl | ha
      · show bamFlag .d71 _ (FileSystemD71.bits t).buf _ = true
        rw [FileSystemD71.bits]
        split
        · next ht => exact Bool.or_eq_true_iff.mpr (Or.inr (decide_eq_true ht))
        · rfl
      · cases ha
        rw [FileSystemD71.count]
        split <;> rfl
  | d81 =>
      have hbuf : a.buf = .bam := by
        have hentry : (FileSystemD81.entry t).buf = .bam := by
          rw [FileSystemD81.entry]
          split <;> rfl
        rcases ha with rfl | ha
        · exact hentry
        · cases ha
          exact hentry
      rw [hbuf]
      refine decide_eq_true (show r.bamDirty ||| 1 ≠ 0 from fun h => ?_)
      have hle : 1 ≤ r.bamDirty ||| 1 := Nat.right_le_or
      omega
  | dnp =>
      rcases ha with rfl | ha
      · rw [bitOf_div]
        have hs' := hs rfl
        have hidx : (t * 32 + s / 8) / 256 = t * 32 / 256 := by omega
        show bamFlag .dnp _ .bam ((t * 32 + s / 8) / 256) = true
        rw [hidx]
        exact bamFlag_dnp_of_testBit (testBit_shift_self _ _)
      · cases ha

/-- `set_sector_allocation` flags what it changes. -/
theorem setSectorAllocation_marked {k : Kind} {t s : Nat} (hs : k = .dnp → s < 256)
    (alloc : Bool) : Leads (Marked k) (setSectorAllocation k t s alloc) := by
  intro m r m' h
  rw [setSectorAllocation_eq] at h
  obtain ⟨ok, m₁, h1, h2⟩ := exec_bind_eq_some h
  obtain ⟨_, m₂, h3, h4⟩ := exec_bind_eq_some h2
  cases h3
  cases h4
  obtain ⟨hregs, hno, hcell⟩ := modifyAllocationBit_cells h1
  have hkept : ∀ b i, bamFlag k m.regs b i = true →
      bamFlag k (allocationMark k t ok m₁.regs) b i = true := by
    intro b i hf
    rw [hregs]
    exact bamFlag_allocationMark hf
  refine ⟨hkept, fun a ha => ?_⟩
  cases ok with
  | false =>
      rw [hno rfl] at ha
      exact absurd rfl ha
  | true =>
      refine bamFlag_entry hs ?_
      by_contra hn
      exact ha (hcell a hn)

/-! ## Searching -/

/-- Going through the bits of one track flags what it changes, when `mark`
    raises the flags of the entry. -/
theorem scanTrack_marked {k : Kind} {fr m : Addr} {mark : Regs → Regs}
    (hkept : ∀ r b i, bamFlag k r b i = true → bamFlag k (mark r) b i = true)
    (hfr : ∀ r i, bamFlag k (mark r) fr.buf i = true)
    (hm : ∀ r i, bamFlag k (mark r) m.buf i = true) :
    ∀ left i, Leads (Marked k) (scanTrack k fr m mark i left) := by
  intro left
  induction left with
  | zero =>
      intro i M r M' h
      obtain ⟨_, M₁, h1, h2⟩ := exec_bind_eq_some h
      obtain ⟨_, M₂, h3, h4⟩ := exec_bind_eq_some h2
      rw [exec_store_eq_some h1] at h3
      cases h3
      cases h4
      refine Marked.of_mark (S := fun a => a = fr) hkept (fun r a ha => ?_) rfl
        fun a ha => Function.update_of_ne ha ..
      rw [show a = fr from ha]
      exact hfr r _
  | succ left ih =>
      intro i M r M' h
      rw [scanTrack_succ] at h
      obtain ⟨v, M₁, h1, h2⟩ := exec_bind_eq_some h
      obtain ⟨rfl, rfl⟩ := exec_load_eq_some h1
      split at h2
      · obtain ⟨_, M₂, h3, h4⟩ := exec_bind_eq_some h2
        obtain ⟨c, M₃, h5, h6⟩ := exec_bind_eq_some h4
        obtain ⟨rfl, rfl⟩ := exec_load_eq_some h5
        obtain ⟨_, M₄, h7, h8⟩ := exec_bind_eq_some h6
        obtain ⟨_, M₅, h9, h10⟩ := exec_bind_eq_some h8
        rw [exec_store_eq_some h7, exec_store_eq_some h3] at h9
        cases h9
        cases h10
        refine Marked.of_mark (S := fun a => a = fr ∨ a = m.add (i / 8)) hkept
          (fun r a ha => ?_) rfl fun a ha => ?_
        · rcases ha with ha | ha
          · rw [ha]
            exact hfr r _
          · rw [ha]
            exact hm r _
        · rw [not_or] at ha
          exact (Function.update_of_ne ha.1 ..).trans (Function.update_of_ne ha.2 ..)
      · exact ih (i + 1) _ _ _ h2

/-- `allocate_sector_on_track` flags what it changes. -/
theorem allocateSectorOnTrack_marked (k : Kind) (t : Nat) :
    Leads (Marked k) (allocateSectorOnTrack k t) := by
  have hentry : ∀ (fr m : Addr) (n : Nat) (mark : Regs → Regs),
      (∀ r b i, bamFlag k r b i = true → bamFlag k (mark r) b i = true) →
      (∀ r i, bamFlag k (mark r) fr.buf i = true) →
      (∀ r i, bamFlag k (mark r) m.buf i = true) →
      Leads (Marked k) (allocateInEntry k fr m n mark) := by
    intro fr m n mark hkept hfr hm M r M' h
    obtain ⟨c, M₁, h1, h2⟩ := exec_bind_eq_some h
    obtain ⟨rfl, rfl⟩ := exec_load_eq_some h1
    split at h2
    · exact scanTrack_marked hkept hfr hm n 0 _ _ _ h2
    · cases h2
      exact Marked.refl _
  cases k with
  | d64 =>
      refine hentry _ _ _ _ (fun r b i h => ?_) (fun _ _ => rfl) (fun _ _ => rfl)
      cases b with
      | root => rfl
      | bam2 => exact h
      | bam => exact h
  | d71 =>
      refine hentry _ _ _ _ (fun r b i h => ?_) (fun r i => ?_) (fun r i => ?_)
      · show bamFlag .d71 (allocationMark .d71 t true r) b i = true
        exact bamFlag_allocationMark h
      · show bamFlag .d71 (FileSystemD71.mark t r) (FileSystemD71.count t).buf i = true
        rw [FileSystemD71.count]
        split <;> rfl
      · show bamFlag .d71 (FileSystemD71.mark t r) (FileSystemD71.bits t).buf i = true
        rw [FileSystemD71.bits]
        split
        · next ht => exact Bool.or_eq_true_iff.mpr (Or.inr (decide_eq_true ht))
        · rfl
  | d81 =>
      have hbuf : (FileSystemD81.entry t).buf = .bam := by
        rw [FileSystemD81.entry]
        split <;> rfl
      refine hentry _ _ _ _ (fun r b i h => ?_) (fun r i => ?_) (fun r i => ?_)
      · cases b with
        | root => exact h
        | bam2 => exact h
        | bam => rfl
      · rw [hbuf]
        rfl
      · show bamFlag .d81 _ (FileSystemD81.entry t).buf i = true
        rw [hbuf]
        rfl
  | dnp => exact Leads.pure Marked.refl none

theorem tryTracks_marked (k : Kind) : ∀ ts, Leads (Marked k) (tryTracks k ts) := by
  intro ts
  induction ts with
  | nil => exact Leads.pure Marked.refl none
  | cons t ts ih =>
      refine Marked.bind (allocateSectorOnTrack_marked k t) fun x => ?_
      cases x with
      | some s => exact Leads.pure Marked.refl _
      | none => exact ih

theorem lastPass_marked :
    ∀ fuel i, Leads (Marked .d71) (FileSystemD71.lastPass fuel i) := by
  intro fuel
  induction fuel with
  | zero => exact fun _ _ _ _ h => nomatch h
  | succ fuel ih =>
      intro i
      rw [FileSystemD71.lastPass]
      split
      · refine Marked.bind (allocateSectorOnTrack_marked .d71 i)
          fun x => ?_
        cases x with
        | some s => exact Leads.pure Marked.refl _
        | none => exact ih (i + 1)
      · exact Leads.pure Marked.refl none

theorem scanBytes_marked (g : Geometry) :
    ∀ left i, Leads (Marked .dnp) (FileSystemDNP.scanBytes g i left) := by
  intro left
  induction left with
  | zero => exact fun _ => Leads.pure Marked.refl none
  | succ left ih =>
      intro i m r m' h
      obtain ⟨bb, m₁, h1, h2⟩ := exec_bind_eq_some h
      obtain ⟨rfl, rfl⟩ := exec_load_eq_some h1
      split at h2
      · exact ih (i + 1) _ _ _ h2
      · obtain ⟨_, m₂, h3, h4⟩ := exec_bind_eq_some h2
        obtain ⟨_, m₃, h5, h6⟩ := exec_bind_eq_some h4
        rw [exec_store_eq_some h3] at h5
        cases h5
        cases h6
        refine Marked.of_mark (S := fun a => a = ⟨.bam, 32 + i⟩)
          (fun r b i h => bamFlag_or _ h) (fun r a ha => ?_) rfl
          fun a ha => Function.update_of_ne ha ..
        rw [show a = ⟨.bam, 32 + i⟩ from ha]
        refine bamFlag_dnp_of_testBit ?_
        rw [Nat.add_comm 32 i]
        exact testBit_shift_self _ _

/-- `get_next_free_sector` flags what it changes. -/
theorem getNextFreeSector_marked (g : Geometry) (track sector : Nat) :
    Leads (Marked g.kind) (getNextFreeSector g track sector) := by
  have hcbm : Leads (Marked g.kind) (FileSystemCBM.getNextFreeSector g track sector) := by
    refine Marked.bind (allocateSectorOnTrack_marked _ _) fun x => ?_
    cases x with
    | some s => exact Leads.pure Marked.refl _
    | none =>
        refine Marked.bind (tryTracks_marked _ _) fun y => ?_
        rcases y with _ | ⟨t, s⟩
        · dsimp only
          split
          · exact fun _ _ _ h => nomatch h
          · refine Marked.bind (tryTracks_marked _ _) fun z => ?_
            rcases z with _ | ⟨t, s⟩
            · exact Leads.pure Marked.refl _
            · exact Leads.pure Marked.refl _
        · exact Leads.pure Marked.refl _
  cases hk : g.kind with
  | d64 =>
      rw [hk] at hcbm
      rw [getNextFreeSector, hk]
      exact hcbm
  | d81 =>
      rw [hk] at hcbm
      rw [getNextFreeSector, hk]
      exact hcbm
  | d71 =>
      rw [getNextFreeSector, hk]
      refine Marked.bind (allocateSectorOnTrack_marked .d71 _)
        fun x => ?_
      cases x with
      | some s => exact Leads.pure Marked.refl _
      | none =>
          refine Marked.bind (tryTracks_marked _ _) fun y => ?_
          rcases y with _ | ⟨t, s⟩
          · refine Marked.bind (tryTracks_marked _ _) fun z => ?_
            rcases z with _ | ⟨t, s⟩
            · refine Marked.bind (lastPass_marked _ _) fun w => ?_
              rcases w with _ | ⟨t, s⟩
              · exact Leads.pure Marked.refl _
              · exact Leads.pure Marked.refl _
            · exact Leads.pure Marked.refl _
          · exact Leads.pure Marked.refl _
  | dnp =>
      rw [getNextFreeSector, hk]
      intro m r m' h
      obtain ⟨tr, h⟩ := exec_eq_some.mp h
      dsimp only [FileSystemDNP.getNextFreeSector] at h
      split at h
      · cases h
        exact Marked.refl m
      · obtain ⟨x, m₁, h1, h2⟩ := exec_bind_eq_some (exec_eq_some.mpr ⟨tr, h⟩)
        have hm := scanBytes_marked g _ _ _ _ _ h1
        cases x with
        | none =>
            cases h2
            exact hm
        | some abs =>
            dsimp only at h2
            split at h2 <;> cases h2 <;> exact hm

/-! ## Probing -/

theorem probeTrack_marked {k : Kind} {t : Nat} :
    ∀ left s, (k = .dnp → s + left ≤ 256) → Leads (Marked k) (probeTrack k t s left) := by
  intro left
  induction left with
  | zero => exact fun _ _ => Leads.pure Marked.refl none
  | succ left ih =>
      intro s hs
      have hs' : k = .dnp → s < 256 := fun hk => by
        have := hs hk
        omega
      refine Marked.bind (setSectorAllocation_marked hs' false) fun was => ?_
      cases was with
      | true =>
          refine Marked.bind (setSectorAllocation_marked hs' true) fun _ => ?_
          refine ih (s + 1) fun hk => ?_
          have := hs hk
          omega
      | false => exact Leads.pure Marked.refl (some s)

theorem probeTracks_marked {g : Geometry} :
    ∀ left t s, 1 ≤ t → (g.kind = .dnp → s ≤ 256) →
      Leads (Marked g.kind) (probeTracks g t s left) := by
  intro left
  induction left with
  | zero => exact fun _ _ _ _ => Leads.pure Marked.refl none
  | succ left ih =>
      intro t s ht hs
      refine Marked.bind (probeTrack_marked _ _ fun hk => ?_) fun x => ?_
      · have hsec : getSectorsInTrack g.layout t = g.layout.sectors t :=
          getSectorsInTrack_eq g.layout ht
        have hdnp : g.layout.sectors t = 256 := by
          show g.kind.layout.sectors t = 256
          rw [hk]
          rfl
        have := hs hk
        omega
      · cases x with
        | some s' => exact Leads.pure Marked.refl _
        | none => exact ih (t + 1) 0 (by omega) fun _ => Nat.zero_le _

/-- The search for the next higher free block flags what it changes. -/
theorem nextHigherFree_marked {g : Geometry} {track sector : Nat} (ht : 1 ≤ track)
    (hs : g.kind = .dnp → sector < 256) :
    Leads (Marked g.kind) (FileSystemCBM.nextHigherFree g track sector) :=
  probeTracks_marked _ _ _ ht hs

end CbmBam
