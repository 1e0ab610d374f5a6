import Ultimate1541.CbmBamProofs

/-! # What the allocation functions do to the map

    The map of a disk as two functions, `freeBit` and `freeCount`, and the
    outcome of the functions that work on one track as relations between the
    map before and the map after: `Taken` when a sector was allocated,
    `Released` when one was freed, `Refused` when nothing was found.  The
    addresses of different tracks are disjoint (`bitAddr_inj`, `countAddr_inj`,
    `count_ne_bit`), so each relation also says that the rest of the map stays. -/

namespace CbmBam

open CbmLayout ByteBuffer Footprint Footprint.Prog

/-- The count byte of a track, where the format has one. -/
def countAddr : Kind → Nat → Option Addr
  | .d64, t => some (FileSystemD64.entry t)
  | .d71, t => some (FileSystemD71.count t)
  | .d81, t => some (FileSystemD81.entry t)
  | .dnp, _ => none

/-- The first byte of the bits of a track. -/
def bitsAddr : Kind → Nat → Addr
  | .d64, t => (FileSystemD64.entry t).add 1
  | .d71, t => FileSystemD71.bits t
  | .d81, t => (FileSystemD81.entry t).add 1
  | .dnp, t => FileSystemDNP.bits t

/-- Bytes of bits per track. -/
def bitBytes : Kind → Nat
  | .d64 => 3
  | .d71 => 3
  | .d81 => 5
  | .dnp => 32

/-- The bit of a sector, counted from the least significant bit of the first
    byte. -/
def bitOf : Kind → Nat → Nat
  | .dnp, s => s ^^^ 7
  | _, s => s

/-- The bounds of the loops of `allocate_sector_on_track`. -/
def scanned : Kind → Nat
  | .d64 => 21
  | .d71 => 21
  | .d81 => 40
  | .dnp => 0

/-- The byte a sector's bit is in. -/
def bitAddr (k : Kind) (t s : Nat) : Addr := (bitsAddr k t).add (bitOf k s / 8)

/-- The map says that a sector is free. -/
def freeBit (k : Kind) (cell : Addr → UInt8) (t s : Nat) : Bool :=
  hasBit (cell (bitAddr k t s)) (bitOf k s % 8)

/-- The number of free sectors the map claims for a track. -/
def freeCount (k : Kind) (cell : Addr → UInt8) (t : Nat) : Nat :=
  match countAddr k t with
  | none => 0
  | some a => (cell a).toNat

/-- The bytes that make up a track's entry. -/
def InEntry (k : Kind) (t : Nat) (a : Addr) : Prop :=
  countAddr k t = some a ∨ ∃ i < bitBytes k, a = (bitsAddr k t).add i

/-- A track whose whole entry exists. -/
def Addressable (k : Kind) (t : Nat) : Prop := ∀ a, InEntry k t a → valid k a = true

/-- The last track the format has an entry for. -/
def lastTrack : Kind → Nat
  | .d64 => 35
  | .d71 => 70
  | .d81 => 80
  | .dnp => 255

/-- `allocate_sector_on_track` finds something on the track. -/
def Allocatable (k : Kind) (cell : Addr → UInt8) (t : Nat) : Prop :=
  freeCount k cell t ≠ 0 ∧ ∃ s < scanned k, freeBit k cell t s = true

instance (k : Kind) (cell : Addr → UInt8) (t : Nat) : Decidable (Allocatable k cell t) :=
  inferInstanceAs (Decidable (_ ∧ _))

/-- The track has a free sector. -/
def TrackFree (k : Kind) (cell : Addr → UInt8) (t : Nat) : Prop :=
  ∃ s < 8 * bitBytes k, freeBit k cell t s = true

instance (k : Kind) (cell : Addr → UInt8) (t : Nat) : Decidable (TrackFree k cell t) :=
  inferInstanceAs (Decidable (∃ s < _, _))

/-- A map in order: every count byte is the number of set bits of its track,
    and no bit is set for a sector the layout does not have. -/
def Consistent (k : Kind) (cell : Addr → UInt8) : Prop :=
  ∀ t, 1 ≤ t → t ≤ lastTrack k →
    (countAddr k t ≠ none →
      freeCount k cell t = (List.range (8 * bitBytes k)).countP (freeBit k cell t)) ∧
    ∀ s < 8 * bitBytes k, k.layout.sectors t ≤ s → freeBit k cell t s = false

instance (k : Kind) (cell : Addr → UInt8) : Decidable (Consistent k cell) :=
  decidable_of_iff
    (∀ t ∈ List.range' 1 (lastTrack k),
      (countAddr k t ≠ none →
        freeCount k cell t = (List.range (8 * bitBytes k)).countP (freeBit k cell t)) ∧
      ∀ s < 8 * bitBytes k, k.layout.sectors t ≤ s → freeBit k cell t s = false)
    (by
      constructor
      · intro h t h1 h2
        exact h t (List.mem_range'_1.mpr ⟨h1, by omega⟩)
      · intro h t ht
        obtain ⟨h1, h2⟩ := List.mem_range'_1.mp ht
        exact h t h1 (by omega))

/-! ## Entries are disjoint -/

theorem bitOf_div (k : Kind) (s : Nat) : bitOf k s / 8 = s / 8 := by
  cases k with
  | d64 => rfl
  | d71 => rfl
  | d81 => rfl
  | dnp =>
      show (s ^^^ 7) / 8 = s / 8
      have h := Nat.shiftRight_xor_distrib (a := s) (b := 7) (i := 3)
      simpa [Nat.shiftRight_eq_div_pow] using h

theorem bitOf_dnp_mod (s : Nat) : bitOf .dnp s % 8 = 7 - s % 8 := by
  show (s ^^^ 7) % 2 ^ 3 = 7 - s % 8
  rw [Nat.xor_mod_two_pow]
  have h : ∀ r < 8, r ^^^ 7 = 7 - r := by decide
  exact h (s % 8) (Nat.mod_lt _ (by decide))

theorem bitOf_mod_lt (k : Kind) (s : Nat) : bitOf k s % 8 < 8 := Nat.mod_lt _ (by decide)

theorem bitOf_mod_inj {k : Kind} {s s' : Nat} (h : bitOf k s % 8 = bitOf k s' % 8) :
    s % 8 = s' % 8 := by
  cases k with
  | d64 => exact h
  | d71 => exact h
  | d81 => exact h
  | dnp =>
      rw [bitOf_dnp_mod, bitOf_dnp_mod] at h
      omega

theorem bitAddr_eq (k : Kind) (t s : Nat) : bitAddr k t s = (bitsAddr k t).add (s / 8) := by
  rw [bitAddr, bitOf_div]

theorem bitsAddr_add_inj {k : Kind} {t t' i i' : Nat} (hi : i < bitBytes k)
    (hi' : i' < bitBytes k) (h : (bitsAddr k t).add i = (bitsAddr k t').add i') :
    t = t' ∧ i = i' := by
  cases k with
  | d64 =>
      simp only [bitsAddr, FileSystemD64.entry, Addr.add, bitBytes, Addr.mk.injEq] at *
      omega
  | d71 =>
      simp only [bitsAddr, FileSystemD71.bits, Addr.add, bitBytes] at *
      split at h <;> split at h <;> simp only [Addr.mk.injEq] at h <;> simp at h <;> omega
  | d81 =>
      simp only [bitsAddr, FileSystemD81.entry, Addr.add, bitBytes] at *
      split at h <;> split at h <;> simp only [Addr.mk.injEq] at h <;> omega
  | dnp =>
      simp only [bitsAddr, FileSystemDNP.bits, Addr.add, bitBytes, Addr.mk.injEq] at *
      omega

theorem bitAddr_inj {k : Kind} {t t' s s' : Nat} (hs : s < 8 * bitBytes k)
    (hs' : s' < 8 * bitBytes k) (ha : bitAddr k t s = bitAddr k t' s')
    (hb : bitOf k s % 8 = bitOf k s' % 8) : t = t' ∧ s = s' := by
  rw [bitAddr_eq, bitAddr_eq] at ha
  obtain ⟨ht, hd⟩ := bitsAddr_add_inj (by omega) (by omega) ha
  exact ⟨ht, by have := bitOf_mod_inj hb; omega⟩

theorem countAddr_inj {k : Kind} {t t' : Nat} {a : Addr} (h : countAddr k t = some a)
    (h' : countAddr k t' = some a) : t = t' := by
  cases k with
  | d64 =>
      simp only [countAddr, FileSystemD64.entry] at h h'
      cases h
      simp only [Option.some.injEq, Addr.mk.injEq] at h'
      omega
  | d71 =>
      simp only [countAddr, FileSystemD71.count] at h h'
      cases h
      split at h' <;> split at h' <;>
        simp only [Option.some.injEq, Addr.mk.injEq] at h' <;> omega
  | d81 =>
      simp only [countAddr, FileSystemD81.entry] at h h'
      cases h
      split at h' <;> split at h' <;>
        simp only [Option.some.injEq, Addr.mk.injEq] at h' <;> omega
  | dnp => exact nomatch h

theorem count_ne_bit {k : Kind} {t t' i : Nat} {a : Addr} (hi : i < bitBytes k)
    (h : countAddr k t = some a) : a ≠ (bitsAddr k t').add i := by
  intro he
  subst he
  cases k with
  | d64 =>
      simp only [countAddr, bitsAddr, FileSystemD64.entry, Addr.add, bitBytes,
        Option.some.injEq, Addr.mk.injEq] at *
      omega
  | d71 =>
      simp only [countAddr, bitsAddr, FileSystemD71.count, FileSystemD71.bits, Addr.add,
        bitBytes] at *
      split at h <;> split at h <;>
        simp only [Option.some.injEq, Addr.mk.injEq] at h <;> simp at h <;> omega
  | d81 =>
      simp only [countAddr, bitsAddr, FileSystemD81.entry, Addr.add, bitBytes] at *
      split at h <;> split at h <;>
        simp only [Option.some.injEq, Addr.mk.injEq] at h <;> omega
  | dnp => exact nomatch h

/-! ## Writing one byte of the map -/

theorem freeBit_update_count {k : Kind} {cell : Addr → UInt8} {t t' s : Nat} {a : Addr}
    (h : countAddr k t = some a) (v : UInt8) (hs : s < 8 * bitBytes k) :
    freeBit k (Function.update cell a v) t' s = freeBit k cell t' s := by
  unfold freeBit
  rw [bitAddr_eq, Function.update_of_ne]
  exact (count_ne_bit (by omega) h).symm

theorem freeCount_update_bit {k : Kind} {cell : Addr → UInt8} {t t' s : Nat} (v : UInt8)
    (hs : s < 8 * bitBytes k) :
    freeCount k (Function.update cell (bitAddr k t s) v) t' = freeCount k cell t' := by
  unfold freeCount
  cases h : countAddr k t' with
  | none => rfl
  | some a =>
      have hne : a ≠ bitAddr k t s := by
        rw [bitAddr_eq]
        exact count_ne_bit (by omega) h
      simp only [Function.update_of_ne hne]

theorem freeCount_update_count {k : Kind} {cell : Addr → UInt8} {t : Nat} {a : Addr}
    (h : countAddr k t = some a) (v : UInt8) (t' : Nat) :
    freeCount k (Function.update cell a v) t'
      = if t' = t then v.toNat else freeCount k cell t' := by
  unfold freeCount
  by_cases ht : t' = t
  · subst ht
    rw [if_pos rfl, h]
    simp only [Function.update_self]
  · rw [if_neg ht]
    cases h' : countAddr k t' with
    | none => rfl
    | some a' =>
        have hne : a' ≠ a := by
          rintro rfl
          exact ht (countAddr_inj h' h)
        simp only [Function.update_of_ne hne]

/-- The map with the bit of a sector cleared. -/
def markUsed (k : Kind) (cell : Addr → UInt8) (t s : Nat) : Addr → UInt8 :=
  Function.update cell (bitAddr k t s) (cell (bitAddr k t s) &&& ~~~bitMask (bitOf k s % 8))

/-- The map with the bit of a sector set. -/
def markFree (k : Kind) (cell : Addr → UInt8) (t s : Nat) : Addr → UInt8 :=
  Function.update cell (bitAddr k t s) (cell (bitAddr k t s) ||| bitMask (bitOf k s % 8))

theorem freeBit_markUsed {k : Kind} (cell : Addr → UInt8) (t t' : Nat) {s s' : Nat}
    (hs : s < 8 * bitBytes k) (hs' : s' < 8 * bitBytes k) :
    freeBit k (markUsed k cell t s) t' s'
      = (freeBit k cell t' s' && !decide (t' = t ∧ s' = s)) := by
  unfold freeBit markUsed
  by_cases ha : bitAddr k t' s' = bitAddr k t s
  · rw [ha, Function.update_self, hasBit_clear _ (bitOf_mod_lt ..) (bitOf_mod_lt ..)]
    congr 2
    refine decide_eq_decide.mpr ⟨fun hb => bitAddr_inj hs' hs ha hb.symm, ?_⟩
    rintro ⟨-, rfl⟩
    rfl
  · rw [Function.update_of_ne ha]
    have hne : ¬ (t' = t ∧ s' = s) := by
      rintro ⟨rfl, rfl⟩
      exact ha rfl
    rw [decide_eq_false hne, Bool.not_false, Bool.and_true]

theorem freeBit_markFree {k : Kind} (cell : Addr → UInt8) (t t' : Nat) {s s' : Nat}
    (hs : s < 8 * bitBytes k) (hs' : s' < 8 * bitBytes k) :
    freeBit k (markFree k cell t s) t' s'
      = (freeBit k cell t' s' || decide (t' = t ∧ s' = s)) := by
  unfold freeBit markFree
  by_cases ha : bitAddr k t' s' = bitAddr k t s
  · rw [ha, Function.update_self, hasBit_or _ (bitOf_mod_lt ..) (bitOf_mod_lt ..)]
    congr 1
    refine decide_eq_decide.mpr ⟨fun hb => bitAddr_inj hs' hs ha hb.symm, ?_⟩
    rintro ⟨-, rfl⟩
    rfl
  · rw [Function.update_of_ne ha]
    have hne : ¬ (t' = t ∧ s' = s) := by
      rintro ⟨rfl, rfl⟩
      exact ha rfl
    rw [decide_eq_false hne, Bool.or_false]

/-! ## Outcomes -/

/-- One sector was free and is allocated now. -/
structure Taken (k : Kind) (m m' : Bam) (t s : Nat) : Prop where
  bound : s < 8 * bitBytes k
  was_free : freeBit k m.cell t s = true
  bit : ∀ t' s', s' < 8 * bitBytes k →
    freeBit k m'.cell t' s' = (freeBit k m.cell t' s' && !decide (t' = t ∧ s' = s))
  count : ∀ t', freeCount k m'.cell t'
    = if t' = t then freeCount k m.cell t - 1 else freeCount k m.cell t'
  frame : ∀ a, ¬ InEntry k t a → m'.cell a = m.cell a

/-- One sector was allocated and is free now. -/
structure Released (k : Kind) (m m' : Bam) (t s : Nat) : Prop where
  was_used : freeBit k m.cell t s = false
  bit : ∀ t' s', s' < 8 * bitBytes k →
    freeBit k m'.cell t' s' = (freeBit k m.cell t' s' || decide (t' = t ∧ s' = s))
  count : ∀ t', freeCount k m'.cell t' = if t' = t ∧ countAddr k t ≠ none
    then (freeCount k m.cell t + 1) % 256 else freeCount k m.cell t'
  frame : ∀ a, ¬ InEntry k t a → m'.cell a = m.cell a

/-- Nothing to allocate on the track: at most its count is corrected. -/
structure Refused (k : Kind) (m m' : Bam) (t : Nat) : Prop where
  bit : ∀ t' s', s' < 8 * bitBytes k → freeBit k m'.cell t' s' = freeBit k m.cell t' s'
  count : ∀ t', freeCount k m'.cell t' = if t' = t then 0 else freeCount k m.cell t'
  frame : ∀ a, ¬ InEntry k t a → m'.cell a = m.cell a

theorem inEntry_bit {k : Kind} {t s : Nat} (hs : s < 8 * bitBytes k) :
    InEntry k t (bitAddr k t s) :=
  Or.inr ⟨s / 8, by omega, bitAddr_eq k t s⟩

/-- Clearing a bit and taking one off the count. -/
theorem taken_of_update {k : Kind} {m : Bam} {t s : Nat} {a : Addr} (regs : Regs)
    (hs : s < 8 * bitBytes k) (hfree : freeBit k m.cell t s = true)
    (ha : countAddr k t = some a) {c : UInt8} (hc : c.toNat = (m.cell a).toNat - 1) :
    Taken k m ⟨Function.update (markUsed k m.cell t s) a c, regs⟩ t s where
  bound := hs
  was_free := hfree
  bit := by
    intro t' s' hs'
    rw [freeBit_update_count ha _ hs']
    exact freeBit_markUsed m.cell t t' hs hs'
  count := by
    intro t'
    rw [freeCount_update_count ha, markUsed, freeCount_update_bit _ hs]
    by_cases ht : t' = t
    · rw [if_pos ht, if_pos ht, hc]
      simp only [freeCount, ha]
    · rw [if_neg ht, if_neg ht]
  frame := by
    intro b hb
    have h1 : b ≠ a := by
      rintro rfl
      exact hb (Or.inl ha)
    have h2 : b ≠ bitAddr k t s := by
      rintro rfl
      exact hb (inEntry_bit hs)
    exact (Function.update_of_ne h1 ..).trans (Function.update_of_ne h2 ..)

/-- Correcting the count of a track without free sectors. -/
theorem refused_of_update {k : Kind} {m : Bam} {t : Nat} {a : Addr} (regs : Regs)
    (ha : countAddr k t = some a) :
    Refused k m ⟨Function.update m.cell a 0, regs⟩ t where
  bit := fun _ _ hs' => freeBit_update_count ha _ hs'
  count := fun t' => freeCount_update_count ha 0 t'
  frame := by
    intro b hb
    have hne : b ≠ a := by
      rintro rfl
      exact hb (Or.inl ha)
    exact Function.update_of_ne hne _ _

/-- A count that is zero already needs no correction. -/
theorem refused_refl {k : Kind} {m : Bam} {t : Nat} (h : freeCount k m.cell t = 0) :
    Refused k m m t where
  bit := fun _ _ _ => rfl
  count := by
    intro t'
    by_cases ht : t' = t
    · rw [if_pos ht, ht, h]
    · rw [if_neg ht]
  frame := fun _ _ => rfl

/-! ## One track -/

theorem addressable_count {k : Kind} {t : Nat} {a : Addr} (h : Addressable k t)
    (ha : countAddr k t = some a) : valid k a = true :=
  h a (Or.inl ha)

theorem addressable_bit {k : Kind} {t s : Nat} (h : Addressable k t)
    (hs : s < 8 * bitBytes k) : valid k (bitAddr k t s) = true :=
  h _ (inEntry_bit hs)

/-- The formats whose bits are not reversed. -/
theorem bitOf_eq {k : Kind} (hk : k ≠ .dnp) (s : Nat) : bitOf k s = s := by
  cases k with
  | d64 => rfl
  | d71 => rfl
  | d81 => rfl
  | dnp => exact absurd rfl hk

theorem scanTrack_succ (k : Kind) (fr m : Addr) (mark : Regs → Regs) (i left : Nat) :
    scanTrack k fr m mark i (left + 1) = (do
      let v ← load (valid k) (m.add (i / 8))
      if ((v >>> UInt8.ofNat (i % 8)) &&& 1 != 0) = true then do
        store (valid k) (m.add (i / 8)) (v &&& ~~~bitMask (i % 8))
        let c ← load (valid k) fr
        store (valid k) fr (c - 1)
        modifyRegs mark
        pure (some i)
      else scanTrack k fr m mark (i + 1) left) := rfl

/-- The scan takes the first free sector it meets, or corrects the count. -/
theorem scanTrack_exec {k : Kind} (hk : k ≠ .dnp) {t : Nat} {fr : Addr}
    (hfr : countAddr k t = some fr) (haddr : Addressable k t) (mark : Regs → Regs)
    {m : Bam} (hc : m.cell fr ≠ 0) :
    ∀ left i, i + left ≤ 8 * bitBytes k →
      (∃ s m', i ≤ s ∧ s < i + left ∧
          (scanTrack k fr (bitsAddr k t) mark i left).exec m = some (some s, m') ∧
          Taken k m m' t s ∧ m'.regs = mark m.regs) ∨
      (∃ m', (scanTrack k fr (bitsAddr k t) mark i left).exec m = some (none, m') ∧
          (∀ s, i ≤ s → s < i + left → freeBit k m.cell t s = false) ∧
          Refused k m m' t ∧ m'.regs = mark m.regs) := by
  intro left
  induction left with
  | zero =>
      intro i _
      refine Or.inr ⟨_, ?_, fun s h1 h2 => absurd h1 (by omega), refused_of_update _ hfr, rfl⟩
      rw [scanTrack, exec_bind_of (exec_store m 0 (addressable_count haddr hfr))]
      rfl
  | succ left ih =>
      intro i hi
      have hs : i < 8 * bitBytes k := by omega
      have hv : valid k ((bitsAddr k t).add (i / 8)) = true := by
        rw [← bitAddr_eq]
        exact addressable_bit haddr hs
      have hbit : ((m.cell ((bitsAddr k t).add (i / 8)) >>> UInt8.ofNat (i % 8)) &&& 1 != 0)
          = freeBit k m.cell t i := by
        rw [shift_and_one _ (Nat.mod_lt _ (by decide)), freeBit, bitAddr_eq, bitOf_eq hk]
      rw [scanTrack_succ, exec_bind_of (exec_load m hv), hbit]
      cases hfree : freeBit k m.cell t i with
      | true =>
          refine Or.inl ⟨i, _, Nat.le_refl _, by omega, ?_,
            taken_of_update (mark m.regs) hs hfree hfr (c := m.cell fr - 1) ?_, rfl⟩
          · rw [if_pos rfl, exec_bind_of (exec_store m _ hv),
              exec_bind_of (exec_load _ (addressable_count haddr hfr)),
              exec_bind_of (exec_store _ _ (addressable_count haddr hfr))]
            simp only [markUsed, bitAddr_eq, bitOf_eq hk,
              Function.update_of_ne (count_ne_bit (by omega : i / 8 < bitBytes k) hfr)]
            rfl
          · have hpos : 0 < (m.cell fr).toNat := by
              rw [Nat.pos_iff_ne_zero]
              intro h0
              exact hc (UInt8.toNat_inj.mp h0)
            have hone : (1 : UInt8) ≤ m.cell fr := UInt8.le_iff_toNat_le.mpr hpos
            rw [UInt8.toNat_sub_of_le _ _ hone]
            rfl
      | false =>
          rw [if_neg (by decide)]
          rcases ih (i + 1) (by omega) with ⟨s, m', h1, h2, hx⟩ | ⟨m', hx, hno, href⟩
          · exact Or.inl ⟨s, m', by omega, by omega, hx⟩
          · refine Or.inr ⟨m', hx, ?_, href⟩
            intro s h1 h2
            rcases Nat.eq_or_lt_of_le h1 with heq | hlt
            · rw [← heq]
              exact hfree
            · exact hno s hlt (by omega)

/-- The loops of `allocate_sector_on_track` reach every sector of a track. -/
theorem sectors_le_scanned {k : Kind} (hk : k ≠ .dnp) (t : Nat) :
    k.layout.sectors t ≤ scanned k := by
  cases k with
  | d64 =>
      simp only [Kind.layout, layoutD64, Layout.sectors, perTrack, scanned]
      split_ifs <;> omega
  | d71 =>
      simp only [Kind.layout, layoutD71, Layout.sectors, perTrack, scanned]
      split_ifs <;> omega
  | d81 => exact Nat.le_refl _
  | dnp => exact absurd rfl hk

theorem scanned_le (k : Kind) : scanned k ≤ 8 * bitBytes k := by
  cases k <;> decide

theorem ne_dnp_of_count {k : Kind} {t : Nat} {a : Addr} (h : countAddr k t = some a) :
    k ≠ .dnp := by
  rintro rfl
  exact nomatch h

/-- `allocate_sector_on_track` on a track whose entry exists: it takes a sector
    exactly when the track has a nonzero count and a free bit. -/
theorem allocateSectorOnTrack_spec {k : Kind} {t : Nat} {fr : Addr}
    (hfr : countAddr k t = some fr) (haddr : Addressable k t) (m : Bam) :
    (∃ s m', (allocateSectorOnTrack k t).exec m = some (some s, m') ∧
        Allocatable k m.cell t ∧ s < scanned k ∧ Taken k m m' t s ∧
        m'.regs.bamValid = m.regs.bamValid) ∨
    (∃ m', (allocateSectorOnTrack k t).exec m = some (none, m') ∧
        ¬ Allocatable k m.cell t ∧ Refused k m m' t ∧
        m'.regs.bamValid = m.regs.bamValid) := by
  have hk := ne_dnp_of_count hfr
  obtain ⟨mark, hmark, hvalid⟩ : ∃ mark, allocateSectorOnTrack k t
      = allocateInEntry k fr (bitsAddr k t) (scanned k) mark ∧
      ∀ r, (mark r).bamValid = r.bamValid := by
    cases k with
    | d64 => cases hfr; exact ⟨_, rfl, fun _ => rfl⟩
    | d71 => cases hfr; exact ⟨_, rfl, fun _ => rfl⟩
    | d81 => cases hfr; exact ⟨_, rfl, fun _ => rfl⟩
    | dnp => exact nomatch hfr
  have hcount : freeCount k m.cell t = (m.cell fr).toNat := by
    simp only [freeCount, hfr]
  rw [hmark, allocateInEntry, exec_bind_of (exec_load m (addressable_count haddr hfr))]
  by_cases hc : m.cell fr ≠ 0
  · have hpos : freeCount k m.cell t ≠ 0 := by
      rw [hcount]
      intro h0
      exact hc (UInt8.toNat_inj.mp h0)
    rw [if_pos hc]
    rcases scanTrack_exec hk hfr haddr mark hc (scanned k) 0
        (by have := scanned_le k; omega) with ⟨s, m', -, hs, hx, ht, hr⟩ | ⟨m', hx, hno, href, hr⟩
    · refine Or.inl ⟨s, m', hx, ⟨hpos, s, by omega, ht.was_free⟩, by omega, ht, ?_⟩
      rw [hr, hvalid]
    · refine Or.inr ⟨m', hx, ?_, href, by rw [hr, hvalid]⟩
      rintro ⟨-, s, hs, hfree⟩
      rw [hno s (Nat.zero_le _) (by omega)] at hfree
      exact nomatch hfree
  · have h0 : freeCount k m.cell t = 0 := by
      rw [hcount, not_not.mp hc]
      rfl
    rw [if_neg hc]
    exact Or.inr ⟨m, rfl, fun h => h.1 h0, refused_refl h0, rfl⟩

/-! ## One sector -/

theorem countDown_exec {k : Kind} {t : Nat} {fr : Addr} (hfr : countAddr k t = some fr)
    (haddr : Addressable k t) (m : Bam) :
    ∃ c : UInt8, c.toNat = (m.cell fr).toNat - 1 ∧
      (countDown k (some fr)).exec m
        = some ((), ⟨Function.update m.cell fr c, m.regs⟩) := by
  have hv := addressable_count haddr hfr
  rw [countDown, exec_bind_of (exec_load m hv)]
  by_cases hc : m.cell fr ≠ 0
  · have hpos : 0 < (m.cell fr).toNat := by
      rw [Nat.pos_iff_ne_zero]
      intro h0
      exact hc (UInt8.toNat_inj.mp h0)
    have hone : (1 : UInt8) ≤ m.cell fr := UInt8.le_iff_toNat_le.mpr hpos
    refine ⟨m.cell fr - 1, UInt8.toNat_sub_of_le _ _ hone, ?_⟩
    rw [if_pos hc, exec_store m _ hv]
  · have h0 : m.cell fr = 0 := not_not.mp hc
    refine ⟨0, by rw [h0]; rfl, ?_⟩
    have hsame : Function.update m.cell fr 0 = m.cell := by
      rw [← h0]
      exact Function.update_eq_self fr m.cell
    rw [if_neg hc, hsame]
    rfl

theorem countUp_exec {k : Kind} {t : Nat} {fr : Addr} (hfr : countAddr k t = some fr)
    (haddr : Addressable k t) (m : Bam) :
    (countUp k (some fr)).exec m
      = some ((), ⟨Function.update m.cell fr (m.cell fr + 1), m.regs⟩) := by
  have hv := addressable_count haddr hfr
  rw [countUp, exec_bind_of (exec_load m hv), exec_store m _ hv]

/-- Setting a bit and adding one to the count, where there is a count. -/
theorem released_of_markFree {k : Kind} {m m' : Bam} {t s : Nat}
    (hs : s < 8 * bitBytes k) (hused : freeBit k m.cell t s = false)
    (h' : m'.cell = match countAddr k t with
      | none => markFree k m.cell t s
      | some fr => Function.update (markFree k m.cell t s) fr
          (markFree k m.cell t s fr + 1)) :
    Released k m m' t s where
  was_used := hused
  bit := by
    intro t' s' hs'
    rw [h', ← freeBit_markFree m.cell t t' hs hs']
    cases hfr : countAddr k t with
    | none => rfl
    | some fr => exact freeBit_update_count hfr _ hs'
  count := by
    intro t'
    rw [h']
    cases hfr : countAddr k t with
    | none =>
        rw [if_neg (by simp)]
        exact freeCount_update_bit _ hs
    | some fr =>
        have hcell : markFree k m.cell t s fr = m.cell fr := by
          rw [markFree, bitAddr_eq]
          exact Function.update_of_ne (count_ne_bit (by omega) hfr) _ _
        dsimp only
        rw [freeCount_update_count hfr, hcell]
        by_cases ht : t' = t
        · rw [if_pos ht, if_pos ⟨ht, by simp⟩, UInt8.toNat_add]
          simp only [freeCount, hfr]
          rfl
        · rw [if_neg ht, if_neg (fun h => ht h.1)]
          exact freeCount_update_bit _ hs
  frame := by
    intro b hb
    have hbit : b ≠ bitAddr k t s := by
      rintro rfl
      exact hb (inEntry_bit hs)
    have hmark : markFree k m.cell t s b = m.cell b := Function.update_of_ne hbit ..
    rw [h']
    cases hfr : countAddr k t with
    | none => exact hmark
    | some fr =>
        have hcount : b ≠ fr := by
          rintro rfl
          exact hb (Or.inl hfr)
        exact (Function.update_of_ne hcount ..).trans hmark

/-- `modify_allocation_bit` on the bit of a sector, freeing. -/
theorem modifyAllocationBit_free {k : Kind} {t s : Nat} (haddr : Addressable k t)
    (hs : s < 8 * bitBytes k) (m : Bam) :
    (freeBit k m.cell t s = true ∧
      (modifyAllocationBit k (countAddr k t) (bitsAddr k t) (bitOf k s) false).exec m
        = some (false, m)) ∨
    (∃ m', (modifyAllocationBit k (countAddr k t) (bitsAddr k t) (bitOf k s) false).exec m
        = some (true, m') ∧ Released k m m' t s ∧ m'.regs = m.regs) := by
  have hv : valid k ((bitsAddr k t).add (bitOf k s / 8)) = true := addressable_bit haddr hs
  rw [modifyAllocationBit, exec_bind_of (exec_load m hv), if_pos rfl]
  cases hbit : freeBit k m.cell t s with
  | true =>
      left
      refine ⟨rfl, ?_⟩
      rw [freeBit, bitAddr] at hbit
      rw [if_pos hbit]
      rfl
  | false =>
      right
      have hbit' := hbit
      rw [freeBit, bitAddr] at hbit'
      rw [if_neg (by rw [hbit']; decide), exec_bind_of (exec_store m _ hv)]
      cases hfr : countAddr k t with
      | none =>
          refine ⟨⟨markFree k m.cell t s, m.regs⟩, rfl, released_of_markFree hs hbit ?_, rfl⟩
          rw [hfr]
      | some fr =>
          rw [exec_bind_of (countUp_exec hfr haddr _)]
          refine ⟨⟨Function.update (markFree k m.cell t s) fr
              (markFree k m.cell t s fr + 1), m.regs⟩, rfl, released_of_markFree hs hbit ?_, rfl⟩
          rw [hfr]

/-- `modify_allocation_bit` on the bit of a sector, allocating. -/
theorem modifyAllocationBit_alloc {k : Kind} {t s : Nat} (haddr : Addressable k t)
    (hs : s < 8 * bitBytes k) (m : Bam) :
    (freeBit k m.cell t s = false ∧
      (modifyAllocationBit k (countAddr k t) (bitsAddr k t) (bitOf k s) true).exec m
        = some (false, m)) ∨
    (∃ m', (modifyAllocationBit k (countAddr k t) (bitsAddr k t) (bitOf k s) true).exec m
        = some (true, m') ∧ Taken k m m' t s ∧ m'.regs = m.regs) := by
  have hv : valid k ((bitsAddr k t).add (bitOf k s / 8)) = true := addressable_bit haddr hs
  rw [modifyAllocationBit, exec_bind_of (exec_load m hv), if_neg (by decide)]
  cases hbit : freeBit k m.cell t s with
  | false =>
      left
      refine ⟨rfl, ?_⟩
      rw [freeBit, bitAddr] at hbit
      rw [if_pos hbit]
      rfl
  | true =>
      right
      have hbit' := hbit
      rw [freeBit, bitAddr] at hbit'
      rw [if_neg (by rw [hbit']; decide), exec_bind_of (exec_store m _ hv)]
      cases hfr : countAddr k t with
      | none =>
          refine ⟨⟨markUsed k m.cell t s, m.regs⟩, rfl, ⟨hs, hbit, ?_, ?_, ?_⟩, rfl⟩
          · exact fun t' s' hs' => freeBit_markUsed m.cell t t' hs hs'
          · intro t'
            rw [markUsed, freeCount_update_bit _ hs]
            by_cases ht : t' = t
            · subst ht
              simp only [freeCount, hfr]
              rfl
            · rw [if_neg ht]
          · intro b hb
            refine Function.update_of_ne ?_ ..
            rintro rfl
            exact hb (inEntry_bit hs)
      | some fr =>
          obtain ⟨c, hc, hx⟩ := countDown_exec hfr haddr ⟨markUsed k m.cell t s, m.regs⟩
          have hcell : markUsed k m.cell t s fr = m.cell fr := by
            rw [markUsed, bitAddr_eq]
            exact Function.update_of_ne (count_ne_bit (by omega) hfr) _ _
          refine ⟨⟨Function.update (markUsed k m.cell t s) fr c, m.regs⟩,
            exec_bind_of hx, ?_, rfl⟩
          refine taken_of_update m.regs hs hbit hfr ?_
          rw [hc]
          dsimp only
          rw [hcell]

/-- The registers `set_sector_allocation` leaves. -/
def allocationMark (k : Kind) (t : Nat) (success : Bool) (d : Regs) : Regs :=
  match k with
  | .d64 => { d with rootDirty := d.rootDirty || success }
  | .d71 => if success then FileSystemD71.mark t d else d
  | .d81 => { d with bamDirty := d.bamDirty ||| success.toNat }
  | .dnp => if success then { d with bamDirty := d.bamDirty ||| 1 <<< (t * 32 / 256) } else d

/-- The four `set_sector_allocation` functions are one function of the entry. -/
theorem setSectorAllocation_eq (k : Kind) (t s : Nat) (alloc : Bool) :
    setSectorAllocation k t s alloc = (do
      let success ← modifyAllocationBit k (countAddr k t) (bitsAddr k t) (bitOf k s) alloc
      modifyRegs (allocationMark k t success)
      pure success) := by
  cases k <;> rfl

theorem allocationMark_false (k : Kind) (t : Nat) (d : Regs) :
    allocationMark k t false d = d := by
  cases k <;> simp [allocationMark]

/-- `set_sector_allocation(track, sector, false)`. -/
theorem setSectorAllocation_free {k : Kind} {t s : Nat} (haddr : Addressable k t)
    (hs : s < 8 * bitBytes k) (m : Bam) :
    (freeBit k m.cell t s = true ∧
      (setSectorAllocation k t s false).exec m = some (false, m)) ∨
    (∃ m', (setSectorAllocation k t s false).exec m = some (true, m') ∧
      Released k m m' t s ∧ m'.regs = allocationMark k t true m.regs) := by
  rw [setSectorAllocation_eq]
  rcases modifyAllocationBit_free haddr hs m with ⟨hf, hx⟩ | ⟨m', hx, hr, hregs⟩
  · refine Or.inl ⟨hf, ?_⟩
    rw [exec_bind_of hx, exec_bind_of (exec_modifyRegs ..), allocationMark_false]
    rfl
  · refine Or.inr ⟨⟨m'.cell, allocationMark k t true m'.regs⟩, ?_,
      ⟨hr.was_used, hr.bit, hr.count, hr.frame⟩, by rw [hregs]⟩
    rw [exec_bind_of hx, exec_bind_of (exec_modifyRegs ..)]
    rfl

/-- `set_sector_allocation(track, sector, true)`. -/
theorem setSectorAllocation_alloc {k : Kind} {t s : Nat} (haddr : Addressable k t)
    (hs : s < 8 * bitBytes k) (m : Bam) :
    (freeBit k m.cell t s = false ∧
      (setSectorAllocation k t s true).exec m = some (false, m)) ∨
    (∃ m', (setSectorAllocation k t s true).exec m = some (true, m') ∧
      Taken k m m' t s ∧ m'.regs = allocationMark k t true m.regs) := by
  rw [setSectorAllocation_eq]
  rcases modifyAllocationBit_alloc haddr hs m with ⟨hf, hx⟩ | ⟨m', hx, hr, hregs⟩
  · refine Or.inl ⟨hf, ?_⟩
    rw [exec_bind_of hx, exec_bind_of (exec_modifyRegs ..), allocationMark_false]
    rfl
  · refine Or.inr ⟨⟨m'.cell, allocationMark k t true m'.regs⟩, ?_,
      ⟨hr.bound, hr.was_free, hr.bit, hr.count, hr.frame⟩, by rw [hregs]⟩
    rw [exec_bind_of hx, exec_bind_of (exec_modifyRegs ..)]
    rfl

/-- On a map in order a track is allocatable as soon as it has a free sector. -/
theorem Consistent.allocatable_iff {k : Kind} {cell : Addr → UInt8} (h : Consistent k cell)
    (hk : k ≠ .dnp) {t : Nat} (h1 : 1 ≤ t) (h2 : t ≤ lastTrack k) :
    Allocatable k cell t ↔ TrackFree k cell t := by
  obtain ⟨hcount, hlayout⟩ := h t h1 h2
  constructor
  · rintro ⟨-, s, hs, hfree⟩
    exact ⟨s, Nat.lt_of_lt_of_le hs (scanned_le k), hfree⟩
  · rintro ⟨s, hs, hfree⟩
    have hlt : s < k.layout.sectors t := by
      by_contra hge
      rw [hlayout s hs (Nat.le_of_not_lt hge)] at hfree
      exact nomatch hfree
    refine ⟨?_, s, Nat.lt_of_lt_of_le hlt (sectors_le_scanned hk t), hfree⟩
    rw [hcount (by cases k <;> simp_all [countAddr])]
    exact Nat.pos_iff_ne_zero.mp
      (List.countP_pos_iff.mpr ⟨s, List.mem_range.mpr hs, hfree⟩)

end CbmBam
