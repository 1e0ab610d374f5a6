import Ultimate1541.CbmFindProofs
import Ultimate1541.CbmAllocProofs

/-! # Creating a directory entry

    `create` looks through the slots of a directory, sector by sector, for one
    that is not in use, and appends a sector when there is none.  `Scan` says
    how far a search has come: every slot behind it is in use, and the sectors
    it has entered are different ones.  A search can also run out of rounds, and
    then `create` writes over the last slot it has looked at: this is the one
    case, apart from an allocation that leaves its buffers, in which the call
    does not do what its caller expects (`creates_iff`). -/

namespace CbmDir

open CbmLayout CbmBam CbmDisk CbmFile ByteBuffer ChainWalk

variable {g : Geometry}

/-! ## Entries -/

/-- The 30 bytes of the entry in a slot; the two in front of them belong to the
    link of the sector. -/
def entryBytes (b : Block) (i : Nat) : List UInt8 :=
  b.slice (DirInCBM.slotOffset i + 2) 30

/-- The slot is in use: `std_fileType` is not 0. -/
def InUse (b : Block) (i : Nat) : Prop :=
  b.get (DirInCBM.slotOffset i + Field.stdFileType.offset) ≠ 0

instance (b : Block) (i : Nat) : Decidable (InUse b i) :=
  inferInstanceAs (Decidable (_ ≠ _))

/-- The entries of a directory are as they were, but for those in `except`. -/
def KeepsEntries (g : Geometry) (d : DirInCBM) (fs : Fs) (except : Nat → Nat → Prop) : Prop :=
  ∀ a, HasEntries g d.fs.view d a → ∀ i < 8, ¬ except a i →
    entryBytes (fs.view a) i = entryBytes (d.fs.view a) i

/-- The sector is marked as free. -/
def IsFree (g : Geometry) (fs : Fs) (a : Nat) : Prop :=
  ∃ t s, absSector g t s = some a ∧ freeBit g.kind fs.bam.cell t s = true

/-- A sector the directory did not have: it was free, is allocated now, and the
    sector the directory ended with links to it. -/
structure Appended (g : Geometry) (d : DirInCBM) (fs : Fs) (a : Nat) : Prop where
  wasFree : IsFree g d.fs a
  allocated : ¬ IsFree g fs a
  linked : ∃ z, InDirectory g d.fs.view d z ∧ (d.fs.view z).get 0 = 0 ∧
    links g fs.view z = some a

/-- A slot of the directory that was not in use, or one of a new sector. -/
def Available (g : Geometry) (d : DirInCBM) (fs : Fs) (a i : Nat) : Prop :=
  (HasEntries g d.fs.view d a ∧ ¬ InUse (d.fs.view a) i) ∨ Appended g d fs a

/-- The entry was written into an available slot, and no other entry changed. -/
structure Written (g : Geometry) (e : DirInCBM.NewEntry) (d : DirInCBM) (fs : Fs) (a i : Nat) :
    Prop where
  slot_lt : i < 8
  available : Available g d fs a i
  entry : entryBytes (fs.view a) i = e.bytes
  keeps : KeepsEntries g d fs fun b j => b = a ∧ j = i

/-- What `create` is for: entries in use stay as they are, and the new entry is
    written into a slot that was available, or the call fails and changes no
    entry. -/
def Creates (g : Geometry) (e : DirInCBM.NewEntry) (d : DirInCBM) : Prop :=
  ∃ res d', d.create g e = some (res, d') ∧
    (KeepsEntries g d d'.fs fun a i => ¬ InUse (d.fs.view a) i) ∧
    (res = .ok → ∃ a i, Written g e d d'.fs a i) ∧
    (res ≠ .ok → KeepsEntries g d d'.fs fun _ _ => False)

/-- A directory in order: it has been constructed, nothing is pending behind the
    window, its sectors are not sectors of the map, and neither they nor the
    sectors of the map are marked as free. -/
structure InOrder (g : Geometry) (d : DirInCBM) : Prop where
  exact : d.fs.Exact g
  start : ∀ s, d.start ≠ some (0, s)
  header : d.start = none → ∀ a, absSector g d.headerTrack d.headerSector = some a →
    Fs.IsDataSector g a ∨ (d.fs.view a).get 0 ≠ 0
  entries : ∀ a, HasEntries g d.fs.view d a → Fs.IsDataSector g a
  reserved : ∀ a, IsBamSector g a ∨ InDirectory g d.fs.view d a → ¬ IsFree g d.fs a

/-- A written entry leaves those in use alone. -/
theorem Written.keeps_inUse {e : DirInCBM.NewEntry} {d : DirInCBM} {fs : Fs} {a i : Nat}
    (hd : InOrder g d) (h : Written g e d fs a i) :
    KeepsEntries g d fs fun a i => ¬ InUse (d.fs.view a) i := by
  intro b hb j hj huse
  refine h.keeps b hb j hj ?_
  rintro ⟨rfl, rfl⟩
  rcases h.available with ⟨-, hno⟩ | happ
  · exact huse hno
  · exact hd.reserved _ (Or.inr (Or.inr hb)) happ.wasFree

/-! ## The search for a slot -/

/-- The sector after `q` others. -/
abbrev sectorAt (g : Geometry) (d : DirInCBM) (q : Nat) : Option Nat :=
  walk (links g d.fs.view) (dirStart g d.fs.view d) q

/-- The first `q` sectors are there, different from each other and from the
    header. -/
def Distinct (g : Geometry) (d : DirInCBM) (q : Nat) : Prop :=
  ∀ i < q, (∃ a, sectorAt g d i = some a) ∧
    sectorAt g d i ≠ absSector g d.headerTrack d.headerSector ∧
    ∀ j < i, sectorAt g d i ≠ sectorAt g d j

/-- The first `k` slots are in use. -/
def FullTo (g : Geometry) (d : DirInCBM) (k : Nat) : Prop :=
  ∀ j < k, ∃ a, sectorAt g d (j / 8) = some a ∧ InUse (d.fs.view a) (j % 8)

/-- The track the first sector is on. -/
def startTrack (g : Geometry) (d : DirInCBM) : Nat :=
  match d.start, absSector g d.headerTrack d.headerSector with
  | some (t, _), _ => t
  | none, some z => ((d.fs.view z).get 0).toNat
  | none, none => 0

/-- The sector is in view, and its link is where the search goes next. -/
structure LinkIn (d : DirInCBM) (z : Nat) : Prop where
  inView : d.fs.currentSector = some z
  track : d.nextTrack = ((d.fs.view z).get 0).toNat
  sector : d.nextSector = ((d.fs.view z).get 1).toNat

/-- A search that has passed `k` slots and entered `q` sectors; `d₀` is the
    directory it began with. -/
structure Scan (g : Geometry) (d₀ d : DirInCBM) (k q : Nat) : Prop where
  idx : d.idx = k
  exact : d.fs.Exact g
  view : d.fs.view = d₀.fs.view
  bam : d.fs.bam = d₀.fs.bam
  start : d.start.map Prod.fst = some (startTrack g d₀)
  front : q = 0 → d₀.start = some (d.nextTrack, d.nextSector) ∨
    d₀.start = none ∧ ∃ z, absSector g d₀.headerTrack d₀.headerSector = some z ∧ LinkIn d z
  current : q ≠ 0 → ∃ z, sectorAt g d₀ (q - 1) = some z ∧
    absSector g d.currTrack d.currSector = some z ∧ LinkIn d z
  full : FullTo g d₀ k
  visited : ∀ a, d.visited a = true ↔
    absSector g d₀.headerTrack d₀.headerSector = some a ∨ ∃ i < q, sectorAt g d₀ i = some a
  distinct : Distinct g d₀ q

/-- Where the search goes next is the next sector of the directory. -/
theorem Scan.next {d₀ d : DirInCBM} {k q : Nat} (h : Scan g d₀ d k q) :
    absSector g d.nextTrack d.nextSector = sectorAt g d₀ q := by
  cases q with
  | zero =>
      show _ = dirStart g d₀.fs.view d₀
      rw [dirStart]
      rcases h.front rfl with hs | ⟨hs, z, hz, hlink⟩
      · rw [hs]
      · rw [hs, hz, hlink.track, hlink.sector, h.view]
        rfl
  | succ q =>
      obtain ⟨z, hz, -, hlink⟩ := h.current (Nat.succ_ne_zero q)
      have hz' : sectorAt g d₀ q = some z := hz
      show _ = (sectorAt g d₀ q).bind (links g d₀.fs.view)
      rw [hz', hlink.track, hlink.sector, h.view]
      rfl

/-- The slot looked at is in use: the search passes it. -/
theorem Scan.pass {d₀ d : DirInCBM} {k q : Nat} (h : Scan g d₀ d k q) (hq : q = k / 8 + 1)
    (huse : InUse d.fs.sectBuffer d.slot) : Scan g d₀ d.succ (k + 1) q where
  idx := by
    show d.idx + 1 = _
    rw [h.idx]
    rfl
  exact := h.exact
  view := h.view
  bam := h.bam
  start := h.start
  front := fun hq' => absurd hq' (by omega)
  current := fun hq' => by
    obtain ⟨z, hz, hcur, hlink⟩ := h.current hq'
    exact ⟨z, hz, hcur, hlink.inView, hlink.track, hlink.sector⟩
  full := by
    intro j hj
    by_cases hjk : j = k
    · subst hjk
      obtain ⟨z, hz, -, hlink⟩ := h.current (by omega)
      have hslot : d.slot = j % 8 := by
        rw [DirInCBM.slot, h.idx]
        omega
      rw [hslot, ← Fs.view_current hlink.inView, h.view] at huse
      rw [hq, Nat.add_sub_cancel] at hz
      exact ⟨z, hz, huse⟩
    · exact h.full j (by omega)
  visited := h.visited
  distinct := h.distinct

/-- The next slot of the sector that is current already. -/
theorem bringInSlot_same {d₀ d : DirInCBM} {k q : Nat} (h : Scan g d₀ d k q) (hk : k % 8 ≠ 0)
    (hq : q ≠ 0) : ∃ d', d.bringInSlot g = some (.ok, d') ∧ Scan g d₀ d' k q := by
  obtain ⟨z, hz, hcur, hlink⟩ := h.current hq
  obtain ⟨fs, hw, hex, hin, -, hview, hbam, -, -⟩ := h.exact.moveWindow (absSector_lt hcur)
  have hidx : ¬ d.idx % 8 = 0 := by
    rw [h.idx]
    omega
  refine ⟨d.withFs fs, ?_, ⟨h.idx, hex, hview.trans h.view, hbam.trans h.bam, h.start,
    fun hq' => absurd hq' hq, fun _ => ⟨z, hz, hcur, hin, ?_, ?_⟩, h.full, h.visited,
    h.distinct⟩⟩
  · rw [DirInCBM.bringInSlot, if_neg hidx, hcur]
    dsimp only
    rw [hw]
  · show d.nextTrack = ((fs.view z).get 0).toNat
    rw [hview]
    exact hlink.track
  · show d.nextSector = ((fs.view z).get 1).toNat
    rw [hview]
    exact hlink.sector

/-- Entering the next sector of the directory: it is a new one, or the search
    fails without a change. -/
theorem enterSector_scan {d₀ d : DirInCBM} {k q : Nat} (h : Scan g d₀ d k q) :
    (∃ d', d.enterSector g false = (.ok, d') ∧ Scan g d₀ d' k (q + 1)) ∨
    (∃ res d', d.enterSector g false = (res, d') ∧ res ≠ .ok ∧ d'.fs.view = d₀.fs.view ∧
      ¬ Distinct g d₀ (q + 1)) := by
  rw [DirInCBM.enterSector]
  dsimp only
  have hnext : absSector g d.stepToNext.currTrack d.stepToNext.currSector = sectorAt g d₀ q :=
    h.next
  cases ha : sectorAt g d₀ q with
  | none =>
      rw [hnext, ha]
      refine Or.inr ⟨_, _, rfl, (fun h => nomatch h), h.view, fun hdist => ?_⟩
      obtain ⟨⟨b, hb⟩, -⟩ := hdist q (Nat.lt_succ_self q)
      rw [ha] at hb
      exact nomatch hb
  | some a =>
      rw [ha] at hnext
      obtain ⟨fs, hw, hex, hin, hbuf, hview, hbam, -, -⟩ :=
        h.exact.moveWindow (absSector_lt hnext)
      have hw' : d.stepToNext.fs.moveWindow g (some a) = (.ok, fs) := hw
      rw [hnext]
      dsimp only
      rw [hw']
      dsimp only
      rw [if_neg Bool.false_ne_true]
      by_cases hv : d.visited a = true
      · rw [if_pos (show (d.stepToNext.withFs fs).takeLink.visited a = true from hv)]
        refine Or.inr ⟨_, _, rfl, (fun h => nomatch h), hview.trans h.view, fun hdist => ?_⟩
        obtain ⟨-, hhead, hold⟩ := hdist q (Nat.lt_succ_self q)
        rcases (h.visited a).mp hv with hh | ⟨i, hi, hwi⟩
        · exact hhead (ha.trans hh.symm)
        · exact hold i hi (ha.trans hwi.symm)
      · rw [if_neg (show ¬ (d.stepToNext.withFs fs).takeLink.visited a = true from hv)]
        refine Or.inl ⟨_, rfl, h.idx, hex, hview.trans h.view, hbam.trans h.bam, h.start,
          fun hq => absurd hq (Nat.succ_ne_zero q), fun _ => ⟨a, ha, hnext, hin, ?_, ?_⟩,
          h.full, ?_, ?_⟩
        · show (fs.sectBuffer.get 0).toNat = ((fs.view a).get 0).toNat
          rw [Fs.view_current hin]
        · show (fs.sectBuffer.get 1).toNat = ((fs.view a).get 1).toNat
          rw [Fs.view_current hin]
        · intro b
          show Function.update d.visited a true b = true ↔ _
          by_cases hba : b = a
          · subst hba
            rw [Function.update_self]
            exact ⟨fun _ => Or.inr ⟨q, Nat.lt_succ_self q, ha⟩, fun _ => rfl⟩
          · rw [Function.update_of_ne hba, h.visited b]
            refine or_congr Iff.rfl ⟨?_, ?_⟩
            · rintro ⟨i, hi, hwi⟩
              exact ⟨i, by omega, hwi⟩
            · rintro ⟨i, hi, hwi⟩
              refine ⟨i, ?_, hwi⟩
              have : i ≠ q := by
                rintro rfl
                rw [ha] at hwi
                exact hba (Option.some.inj hwi).symm
              omega
        · intro i hi
          by_cases hiq : i = q
          · subst hiq
            refine ⟨⟨a, ha⟩, fun hh => ?_, fun j hj hwj => ?_⟩
            · exact hv ((h.visited a).mpr (Or.inl (hh.symm.trans ha)))
            · exact hv ((h.visited a).mpr (Or.inr ⟨j, hj, hwj.symm.trans ha⟩))
          · exact h.distinct i (by omega)

/-! ## Appending a sector -/

/-- The search for a sector of a directory that may lie anywhere on the disk
    runs out of the buffers. -/
def SearchFaults (g : Geometry) (d : DirInCBM) (s : Nat) : Prop :=
  dirTrack g.kind ≠ some (startTrack g d) ∧ (getNextFreeSector g 0 s).exec d.fs.bam = none

theorem dirTrack_le {k : Kind} {t : Nat} (h : dirTrack k = some t) :
    k ≠ .dnp ∧ t ≤ lastTrack k := by
  cases k with
  | d64 => cases h; decide
  | d71 => cases h; decide
  | d81 => cases h; decide
  | dnp => exact nomatch h

/-- What appending a sector can do. -/
theorem appendSector_cases {d₀ d : DirInCBM} {k q : Nat} (h : Scan g d₀ d k q)
    (h0 : d.nextTrack = 0) :
    (d.appendSector g = none ∧ SearchFaults g d₀ d.nextSector) ∨
    (∃ res d', d.appendSector g = some (res, d') ∧ res ≠ .ok ∧ d'.fs.view = d₀.fs.view) ∨
    (∃ t s m, d.appendSector g
        = some (.ok, ((d.withNext t s).withFs { d.fs with bam := m }).linkNext) ∧
      t < 256 ∧ Found g.kind d₀.fs.bam m t s) := by
  have hanywhere : dirTrack g.kind ≠ some (startTrack g d₀) →
      (d.appendAnywhere g = none ∧ SearchFaults g d₀ d.nextSector) ∨
      (∃ res d', d.appendAnywhere g = some (res, d') ∧ res ≠ .ok ∧
        d'.fs.view = d₀.fs.view) ∨
      (∃ t s m, d.appendAnywhere g
          = some (.ok, ((d.withNext t s).withFs { d.fs with bam := m }).linkNext) ∧
        t < 256 ∧ Found g.kind d₀.fs.bam m t s) := by
    intro htrack
    rw [DirInCBM.appendAnywhere]
    cases hx : d.fs.getNextFreeSector g d.nextTrack d.nextSector with
    | none =>
        refine Or.inl ⟨rfl, htrack, ?_⟩
        rw [Fs.getNextFreeSector, Option.map_eq_none_iff, h0, h.bam] at hx
        exact hx
    | some r =>
        obtain ⟨r, fs⟩ := r
        obtain ⟨⟨m, rfl⟩, ⟨hok, hlt, hf⟩ | ⟨hok, -, -⟩⟩ := Fs.getNextFreeSector_inv hx
        · refine Or.inr (Or.inr ⟨r.track, r.sector, m, ?_, hlt, h.bam ▸ hf⟩)
          dsimp only
          rw [if_pos hok]
        · dsimp only
          rw [if_neg (by rw [hok]; decide)]
          exact Or.inr (Or.inl ⟨_, _, rfl, (fun h => by cases h), h.view⟩)
  rw [DirInCBM.appendSector]
  cases ht : dirTrack g.kind with
  | none =>
      refine hanywhere fun hh => ?_
      rw [ht] at hh
      cases hh
  | some t =>
      dsimp only
      by_cases hstart : d.start.map Prod.fst = some t
      · obtain ⟨hk, hle⟩ := dirTrack_le ht
        rw [if_pos hstart, DirInCBM.appendOnTrack]
        obtain ⟨fr, hfr⟩ := countAddr_isSome hk t
        rcases allocateSectorOnTrack_spec hfr (addressable_of_le hle) d.fs.bam with
          ⟨s, m, hx, -, -, htaken, hv⟩ | ⟨m, hx, -, -, -⟩
        · rw [hx]
          refine Or.inr (Or.inr ⟨t, s, m, rfl, ?_, ?_⟩)
          · exact track_lt_of_count hfr (addressable_count (addressable_of_le hle) hfr)
          · rw [← h.bam]
            exact ⟨⟨d.fs.bam, Idle.refl _ _, htaken⟩, hv⟩
        · rw [hx]
          exact Or.inr (Or.inl ⟨_, _, rfl, (fun h => by cases h), h.view⟩)
      · rw [if_neg hstart]
        refine hanywhere ?_
        rw [ht, ← h.start]
        exact fun hh => hstart hh.symm

/-- A search that has appended sector `a` to the directory and stands in its
    first slot. -/
structure Grown (g : Geometry) (d₀ d : DirInCBM) (a : Nat) : Prop where
  slot : d.slot = 0
  exact : d.fs.Exact g
  inView : d.fs.currentSector = some a
  empty : d.fs.sectBuffer = Buffer.zero.set 1 0xFF
  found : ∃ t s, absSector g t s = some a ∧ Found g.kind d₀.fs.bam d.fs.bam t s
  linked : ∃ z, Fs.IsDataSector g z ∧ InDirectory g d₀.fs.view d₀ z ∧
    (d₀.fs.view z).get 0 = 0 ∧ links g d.fs.view z = some a
  entries : ∀ b, b ≠ a → ∀ i, 2 ≤ i → (d.fs.view b).get i = (d₀.fs.view b).get i

/-- The sector a search is in front of the end of. -/
theorem Scan.last {d₀ d : DirInCBM} {k q : Nat} (hd : InOrder g d₀) (h : Scan g d₀ d k q)
    (h0 : d.nextTrack = 0) :
    ∃ z, d.fs.currentSector = some z ∧ InDirectory g d₀.fs.view d₀ z ∧
      (d₀.fs.view z).get 0 = 0 ∧ Fs.IsDataSector g z := by
  have hend : ∀ z, LinkIn d z → (d₀.fs.view z).get 0 = 0 := by
    intro z hlink
    have htr := hlink.track
    rw [h0, h.view] at htr
    exact UInt8.toNat_inj.mp htr.symm
  cases q with
  | zero =>
      rcases h.front rfl with hs | ⟨hs, z, hz, hlink⟩
      · rw [h0] at hs
        exact absurd hs (hd.start _)
      · refine ⟨z, hlink.inView, Or.inl hz, hend z hlink, ?_⟩
        exact (hd.header hs z hz).resolve_right fun hne => hne (hend z hlink)
  | succ q =>
      obtain ⟨z, hz, -, hlink⟩ := h.current (Nat.succ_ne_zero q)
      exact ⟨z, hlink.inView, Or.inr ⟨q, hz⟩, hend z hlink, hd.entries z ⟨q, hz⟩⟩

/-- The link bytes of a block, set. -/
def withLink (t s : Nat) (b : Block) : Block := (b.set 0 (UInt8.ofNat t)).set 1 (UInt8.ofNat s)

theorem get_withLink (t s : Nat) (b : Block) {i : Nat} (hi : 2 ≤ i) :
    (withLink t s b).get i = b.get i := by
  rw [withLink, Buffer.get_set_of_ne _ (by omega), Buffer.get_set_of_ne _ (by omega)]

theorem linkOf_withLink {t s : Nat} (ht : t < 256) (hs : s < 256) (b : Block) :
    linkOf g (withLink t s b) = absSector g t s := by
  have h0 : (withLink t s b).get 0 = UInt8.ofNat t := by
    rw [withLink, Buffer.get_set_of_ne _ (by decide), Buffer.get_set_self _ (by decide)]
  have h1 : (withLink t s b).get 1 = UInt8.ofNat s := by
    rw [withLink, Buffer.get_set_self _ (by decide)]
  rw [linkOf, h0, h1, UInt8.toNat_ofNat_of_lt' ht, UInt8.toNat_ofNat_of_lt' hs]

theorem bitBytes_le (k : Kind) : 8 * bitBytes k ≤ 256 := by
  cases k <;> decide

/-- Entering the sector that was appended. -/
theorem enterSector_grown {d₀ d : DirInCBM} {k q t s : Nat} {m : Bam} (hd : InOrder g d₀)
    (h : Scan g d₀ d k q) (hk : k % 8 = 0) (h0 : d.nextTrack = 0) (ht : t < 256)
    (hf : Found g.kind d₀.fs.bam m t s) :
    ∃ res d', DirInCBM.enterSector g true
        ((d.withNext t s).withFs { d.fs with bam := m }).linkNext = (res, d') ∧
      ((res ≠ .ok ∧ ∀ b i, 2 ≤ i → (d'.fs.view b).get i = (d₀.fs.view b).get i) ∨
        (res = .ok ∧ ∃ a, Grown g d₀ d' a)) := by
  obtain ⟨z, hz, hzin, hzend, hzdata⟩ := h.last hd h0
  have hs : s < 256 := Nat.lt_of_lt_of_le hf.bound (bitBytes_le g.kind)
  -- the file system with the link written
  let fs₁ : Fs := ({ d.fs with bam := m } : Fs).edit (withLink t s)
  have hex₁ : fs₁.Exact g := (h.exact.withBam m).edit hz (withLink t s)
  have hview₁ : fs₁.view z = withLink t s (d₀.fs.view z) := by
    rw [← h.view, Fs.view_current hz]
    exact Fs.view_edit hz
  have hother₁ : ∀ b, b ≠ z → fs₁.view b = d₀.fs.view b := by
    intro b hb
    rw [← h.view]
    exact Fs.view_edit_other fun he => hb (Option.some.inj (hz.symm.trans he)).symm
  have hentries₁ : ∀ b i, 2 ≤ i → (fs₁.view b).get i = (d₀.fs.view b).get i := by
    intro b i hi
    by_cases hb : b = z
    · rw [hb, hview₁, get_withLink t s _ hi]
    · rw [hother₁ b hb]
  rw [DirInCBM.enterSector]
  dsimp only
  cases habs : absSector g t s with
  | none =>
      rw [show absSector g
        ((d.withNext t s).withFs { d.fs with bam := m }).linkNext.stepToNext.currTrack
        ((d.withNext t s).withFs { d.fs with bam := m }).linkNext.stepToNext.currSector = none
        from habs]
      exact ⟨_, _, rfl, Or.inl ⟨(fun h => nomatch h), hentries₁⟩⟩
  | some a =>
      rw [show absSector g
        ((d.withNext t s).withFs { d.fs with bam := m }).linkNext.stepToNext.currTrack
        ((d.withNext t s).withFs { d.fs with bam := m }).linkNext.stepToNext.currSector = some a
        from habs]
      have hfree : IsFree g d₀.fs a := ⟨t, s, habs, hf.was_free⟩
      have haz : z ≠ a := by
        rintro rfl
        exact hd.reserved z (Or.inr hzin) hfree
      obtain ⟨fs₂, hw, hex₂, hin₂, -, hview₂, hbam₂, -, -⟩ := hex₁.moveWindow (absSector_lt habs)
      have hw' : ((d.withNext t s).withFs { d.fs with bam := m }).linkNext.stepToNext.fs.moveWindow
          g (some a) = (.ok, fs₂) := hw
      dsimp only
      rw [hw']
      dsimp only
      rw [if_pos rfl]
      have hnew : ¬ d.visited a = true := by
        intro hv
        rcases (h.visited a).mp hv with hh | ⟨i, -, hi⟩
        · exact hd.reserved a (Or.inr (Or.inl hh)) hfree
        · exact hd.reserved a (Or.inr (Or.inr ⟨i, hi⟩)) hfree
      have hkeep : ∀ b, b ≠ a → (fs₂.edit fun _ => Buffer.zero.set 1 0xFF).view b = fs₁.view b := by
        intro b hb
        rw [← hview₂]
        exact Fs.view_edit_other fun he => hb (Option.some.inj (hin₂.symm.trans he)).symm
      refine ⟨_, _, if_neg hnew, Or.inr ⟨rfl, a, ?_, hex₂.edit hin₂ fun _ => Buffer.zero.set 1 0xFF,
        hin₂, rfl, ⟨t, s, habs, ?_⟩,
        ⟨z, hzdata, hzin, hzend, ?_⟩, ?_⟩⟩
      · show (d.idx % 8).toNat = 0
        rw [h.idx]
        omega
      · show Found g.kind d₀.fs.bam fs₂.bam t s
        rw [hbam₂]
        exact hf
      · show linkOf g ((fs₂.edit fun _ => Buffer.zero.set 1 0xFF).view z) = some a
        rw [hkeep z haz, hview₁, linkOf_withLink ht hs, habs]
      · intro b hb i hi
        show ((fs₂.edit fun _ => Buffer.zero.set 1 0xFF).view b).get i = _
        rw [hkeep b hb, hentries₁ b i hi]

/-! ## The whole search -/

/-- The header and the first `q` sectors are there, different from each other,
    and all slots of these sectors are in use. -/
structure Fills (g : Geometry) (d : DirInCBM) (q : Nat) : Prop where
  header : absSector g d.headerTrack d.headerSector ≠ none
  full : FullTo g d (8 * q)
  distinct : Distinct g d q

/-- The directory ends after `q` sectors, with sector byte `s` in the last
    link. -/
def EndsAt (g : Geometry) (d : DirInCBM) (q s : Nat) : Prop :=
  if q = 0 then d.start = none ∧ ∃ z, absSector g d.headerTrack d.headerSector = some z ∧
    (d.fs.view z).get 0 = 0 ∧ ((d.fs.view z).get 1).toNat = s
  else ∃ z, sectorAt g d (q - 1) = some z ∧ (d.fs.view z).get 0 = 0 ∧
    ((d.fs.view z).get 1).toNat = s

/-- The directory needs another sector, and the search for one runs out of the
    buffers. -/
def AppendFaults (g : Geometry) (d : DirInCBM) : Prop :=
  ∃ q < 32, ∃ s, Fills g d q ∧ EndsAt g d q s ∧ SearchFaults g d s

/-- `create` has come to slot `k` and goes on from there. -/
def Reached (g : Geometry) (d₀ : DirInCBM) (e : DirInCBM.NewEntry) (k : Nat) : Prop :=
  ∃ d p, Scan g d₀ d k ((k + 7) / 8) ∧ (0 < k → p = DirInCBM.slotOffset ((k - 1) % 8)) ∧
    d₀.create g e = DirInCBM.createEnd g e (DirInCBM.createLoop g (256 - k) p d)

/-- The start of `create`. -/
theorem create_reached {d₀ : DirInCBM} (e : DirInCBM.NewEntry) (hd : InOrder g d₀) :
    (absSector g d₀.headerTrack d₀.headerSector ≠ none ∧ Reached g d₀ e 0) ∨
    (absSector g d₀.headerTrack d₀.headerSector = none ∧
      ∃ d', d₀.create g e = some (.noFile, d') ∧ d'.fs = d₀.fs) := by
  cases ha : absSector g d₀.headerTrack d₀.headerSector with
  | none =>
      refine Or.inr ⟨rfl, d₀.openSlots, ?_, rfl⟩
      rw [DirInCBM.create, DirInCBM.createBegin]
      dsimp only
      rw [show absSector g d₀.openSlots.headerTrack d₀.openSlots.headerSector = none from ha]
  | some a =>
      have hvis : ∀ b, (d₀.openSlots.mark a).visited b = true ↔
          absSector g d₀.headerTrack d₀.headerSector = some b ∨
            ∃ i < 0, sectorAt g d₀ i = some b := by
        intro b
        show Function.update (fun _ => false) a true b = true ↔ _
        rw [ha]
        by_cases hba : b = a
        · subst hba
          rw [Function.update_self]
          exact ⟨fun _ => Or.inl rfl, fun _ => rfl⟩
        · rw [Function.update_of_ne hba]
          constructor
          · exact fun h => nomatch h
          · rintro (h | ⟨i, hi, -⟩)
            · exact absurd (Option.some.inj h).symm hba
            · exact absurd hi (Nat.not_lt_zero i)
      have hbegin : ∀ d, d₀.createBegin g = (.ok, d) → Scan g d₀ d 0 0 → Reached g d₀ e 0 := by
        intro d hx hscan
        refine ⟨d, 0, hscan, fun h => absurd h (Nat.lt_irrefl 0), ?_⟩
        rw [DirInCBM.create, hx]
      have hfull : FullTo g d₀ 0 := fun j hj => absurd hj (Nat.not_lt_zero j)
      have hdist : Distinct g d₀ 0 := fun i hi => absurd hi (Nat.not_lt_zero i)
      have hhead : absSector g d₀.openSlots.headerTrack d₀.openSlots.headerSector = some a := ha
      refine Or.inl ⟨(fun h => nomatch h), ?_⟩
      rcases hs : d₀.start with _ | ⟨t, s⟩
      · obtain ⟨fs, hw, hex, hin, -, hview, hbam, -, -⟩ :=
          hd.exact.moveWindow (absSector_lt ha)
        refine hbegin ((d₀.openSlots.mark a).withFs fs).takeLink.keepStart ?_
          ⟨rfl, hex, hview, hbam, ?_, fun _ => Or.inr ⟨hs, a, ha, hin, ?_, ?_⟩,
            fun h => absurd rfl h, hfull, hvis, hdist⟩
        · rw [DirInCBM.createBegin]
          dsimp only
          rw [hhead]
          dsimp only
          rw [show (d₀.openSlots.mark a).start = none from hs]
          dsimp only
          rw [show (d₀.openSlots.mark a).fs.moveWindow g (some a) = (.ok, fs) from hw]
        · show some (fs.sectBuffer.get 0).toNat = some (startTrack g d₀)
          rw [startTrack, hs, ha, ← hview]
          show some _ = some ((fs.view a).get 0).toNat
          rw [Fs.view_current hin]
        · show (fs.sectBuffer.get 0).toNat = ((fs.view a).get 0).toNat
          rw [Fs.view_current hin]
        · show (fs.sectBuffer.get 1).toNat = ((fs.view a).get 1).toNat
          rw [Fs.view_current hin]
      · refine hbegin ((d₀.openSlots.mark a).withNext t s) ?_
          ⟨rfl, hd.exact, rfl, rfl, ?_, fun _ => Or.inl hs, fun h => absurd rfl h, hfull, hvis,
            hdist⟩
        · rw [DirInCBM.createBegin]
          dsimp only
          rw [hhead]
          dsimp only
          rw [show (d₀.openSlots.mark a).start = some (t, s) from hs]
        · show d₀.start.map Prod.fst = some (startTrack g d₀)
          rw [startTrack, hs]
          rfl

/-- Bringing the slot into view: the search is in the sector of slot `k`, or the
    directory needs a new sector, or there is no next one. -/
theorem bringInSlot_cases {d₀ d : DirInCBM} {k : Nat} (h : Scan g d₀ d k ((k + 7) / 8)) :
    (∃ d', d.bringInSlot g = some (.ok, d') ∧ Scan g d₀ d' k (k / 8 + 1)) ∨
    (k % 8 = 0 ∧ d.nextTrack = 0) ∨
    (k % 8 = 0 ∧ d.nextTrack ≠ 0 ∧ ¬ Distinct g d₀ (k / 8 + 1) ∧
      ∃ res d', d.bringInSlot g = some (res, d') ∧ res ≠ .ok ∧ d'.fs.view = d₀.fs.view) := by
  by_cases hk : k % 8 = 0
  · have hq : (k + 7) / 8 = k / 8 := by omega
    rw [hq] at h
    have hidx : d.idx % 8 = 0 := by
      rw [h.idx]
      omega
    by_cases h0 : d.nextTrack = 0
    · exact Or.inr (Or.inl ⟨hk, h0⟩)
    · rw [DirInCBM.bringInSlot, if_pos hidx, if_neg h0]
      rcases enterSector_scan h with ⟨d', hx, hscan⟩ | ⟨res, d', hx, hne, hview, hno⟩
      · rw [hx]
        exact Or.inl ⟨d', rfl, hscan⟩
      · rw [hx]
        exact Or.inr (Or.inr ⟨hk, h0, hno, res, d', rfl, hne, hview⟩)
  · have hq : (k + 7) / 8 = k / 8 + 1 := by omega
    rw [hq] at h
    exact Or.inl (bringInSlot_same h hk (Nat.succ_ne_zero _))

/-- A slot that is in use is passed. -/
theorem reached_pass {d₀ d d' : DirInCBM} {e : DirInCBM.NewEntry} {k p : Nat} (hk : k < 256)
    (hrun : d₀.create g e = DirInCBM.createEnd g e (DirInCBM.createLoop g (256 - k) p d))
    (hx : d.bringInSlot g = some (.ok, d')) (h : Scan g d₀ d' k (k / 8 + 1))
    (huse : InUse d'.fs.sectBuffer d'.slot) : Reached g d₀ e (k + 1) := by
  have hq : (k + 1 + 7) / 8 = k / 8 + 1 := by omega
  refine ⟨d'.succ, DirInCBM.slotOffset d'.slot, hq ▸ h.pass rfl huse, fun _ => ?_, ?_⟩
  · rw [DirInCBM.slot, h.idx]
    rfl
  · rw [hrun, show 256 - k = 256 - (k + 1) + 1 by omega, DirInCBM.createLoop, hx]
    dsimp only
    rw [if_neg huse]

/-- A directory whose first `q` sectors are full is searched to their end. -/
theorem Fills.reached {d₀ : DirInCBM} {e : DirInCBM.NewEntry} {q : Nat} (h : Fills g d₀ q)
    (hq : q ≤ 32) (h0 : Reached g d₀ e 0) : ∀ k ≤ 8 * q, Reached g d₀ e k := by
  intro k
  induction k with
  | zero => exact fun _ => h0
  | succ k ih =>
      intro hk
      obtain ⟨d, p, hscan, -, hrun⟩ := ih (by omega)
      obtain ⟨⟨a, ha⟩, -⟩ := h.distinct (k / 8) (by omega)
      rcases bringInSlot_cases hscan with ⟨d', hx, hscan'⟩ | ⟨h8, hz⟩ | ⟨-, -, hno, -⟩
      · refine reached_pass (by omega) hrun hx hscan' ?_
        obtain ⟨b, hb, huse⟩ := h.full k (by omega)
        obtain ⟨z, hz, -, hlink⟩ := hscan'.current (Nat.succ_ne_zero _)
        have hzb : z = b := Option.some.inj (hz.symm.trans hb)
        rw [← Fs.view_current hlink.inView, hscan'.view, hzb, DirInCBM.slot, hscan'.idx]
        exact huse
      · -- the directory would be at its end here
        have hnext := hscan.next
        rw [hz, absSector_zero, show (k + 7) / 8 = k / 8 by omega, ha] at hnext
        cases hnext
      · exact absurd (fun i hi => h.distinct i (by omega)) hno

/-- The end of a directory is where the search has to go on at track 0. -/
theorem Scan.endsAt {d₀ d : DirInCBM} {k q s : Nat} (h : Scan g d₀ d k q) (hstart : ∀ s, d₀.start ≠ some (0, s)) :
    EndsAt g d₀ q s ↔ d.nextTrack = 0 ∧ d.nextSector = s := by
  have hlink : ∀ z, LinkIn d z →
      (((d₀.fs.view z).get 0 = 0 ∧ ((d₀.fs.view z).get 1).toNat = s) ↔
        d.nextTrack = 0 ∧ d.nextSector = s) := by
    intro z hl
    rw [hl.track, hl.sector, h.view, ← UInt8.toNat_inj]
    rfl
  cases q with
  | zero =>
      rw [EndsAt, if_pos rfl]
      rcases h.front rfl with hs | ⟨hs, z, hz, hl⟩
      · rw [hs]
        constructor
        · exact fun hh => nomatch hh.1
        · rintro ⟨hz, -⟩
          rw [hz] at hs
          exact absurd hs (hstart _)
      · rw [← hlink z hl]
        constructor
        · rintro ⟨-, z', hz', hh⟩
          rw [hz] at hz'
          cases hz'
          exact hh
        · exact fun hh => ⟨hs, z, hz, hh⟩
  | succ q =>
      rw [EndsAt, if_neg (Nat.succ_ne_zero q)]
      obtain ⟨z, hz, -, hl⟩ := h.current (Nat.succ_ne_zero q)
      rw [← hlink z hl]
      constructor
      · rintro ⟨z', hz', hh⟩
        rw [hz] at hz'
        cases hz'
        exact hh
      · exact fun hh => ⟨z, hz, hh⟩

/-- What a search leaves when it has found a place for the entry: slot `i` of
    sector `a`, which is in view. -/
structure Spot (g : Geometry) (d₀ d : DirInCBM) (a i : Nat) : Prop where
  slot_lt : i < 8
  exact : d.fs.Exact g
  inView : d.fs.currentSector = some a
  data : Fs.IsDataSector g a
  source : (HasEntries g d₀.fs.view d₀ a ∧ ¬ InUse (d₀.fs.view a) i) ∨
    (IsFree g d₀.fs a ∧ ¬ IsFree g d.fs a ∧ ∃ z, Fs.IsDataSector g z ∧ z ≠ a ∧
      InDirectory g d₀.fs.view d₀ z ∧ (d₀.fs.view z).get 0 = 0 ∧
      links g d.fs.view z = some a)
  entries : ∀ b, HasEntries g d₀.fs.view d₀ b → ∀ i, 2 ≤ i →
    (d.fs.view b).get i = (d₀.fs.view b).get i

/-- A sector that was found is allocated now. -/
theorem not_isFree_of_found {fs fs' : Fs} {t s a : Nat} (habs : absSector g t s = some a)
    (hf : Found g.kind fs.bam fs'.bam t s) : ¬ IsFree g fs' a := by
  rintro ⟨t', s', habs', hfree⟩
  obtain ⟨rfl, rfl⟩ := absSector_inj habs habs'
  rw [hf.bit t s hf.bound, decide_eq_true ⟨rfl, rfl⟩, Bool.not_true, Bool.and_false] at hfree
  exact nomatch hfree

/-- The first slot of an appended sector is a place for the entry. -/
theorem Grown.spot {d₀ d : DirInCBM} {a : Nat} (hd : InOrder g d₀) (h : Grown g d₀ d a) :
    Spot g d₀ d a 0 := by
  obtain ⟨t, s, habs, hf⟩ := h.found
  obtain ⟨z, hzdata, hzin, hzend, hlink⟩ := h.linked
  have hfree : IsFree g d₀.fs a := ⟨t, s, habs, hf.was_free⟩
  have hout : ∀ b, InDirectory g d₀.fs.view d₀ b → b ≠ a := by
    rintro b hb rfl
    exact hd.reserved b (Or.inr hb) hfree
  exact ⟨by decide, h.exact, h.inView,
    ⟨absSector_lt habs, fun hbam => hd.reserved a (Or.inl hbam) hfree⟩,
    Or.inr ⟨hfree, not_isFree_of_found habs hf, z, hzdata, hout z hzin, hzin, hzend, hlink⟩,
    fun b hb i hi => h.entries b (hout b (Or.inr hb)) i hi⟩

/-- One slot further: `create` runs out of the buffers or fails, it has found a
    place, or the slot is in use. -/
theorem Reached.step {d₀ : DirInCBM} {e : DirInCBM.NewEntry} {k : Nat} (hd : InOrder g d₀)
    (hhead : absSector g d₀.headerTrack d₀.headerSector ≠ none) (hk : k < 256)
    (h : Reached g d₀ e k) :
    (d₀.create g e = none ∧ AppendFaults g d₀) ∨
    (∃ res d', d₀.create g e = some (res, d') ∧ res ≠ .ok ∧
      ∀ b i, 2 ≤ i → (d'.fs.view b).get i = (d₀.fs.view b).get i) ∨
    (∃ d a i, d₀.create g e = some (.ok, d.writeEntry g e (DirInCBM.slotOffset i)) ∧
      Spot g d₀ d a i) ∨
    Reached g d₀ e (k + 1) := by
  obtain ⟨d, p, hscan, -, hrun⟩ := h
  have hloop : DirInCBM.createLoop g (256 - k) p d
      = DirInCBM.createLoop g (256 - (k + 1) + 1) p d := by
    congr 1
    omega
  rcases bringInSlot_cases hscan with ⟨d', hx, hscan'⟩ | ⟨h8, h0⟩ |
    ⟨-, -, -, res, d', hx, hne, hview⟩
  · by_cases huse : InUse d'.fs.sectBuffer d'.slot
    · exact Or.inr (Or.inr (Or.inr (reached_pass hk hrun hx hscan' huse)))
    · obtain ⟨z, hz, -, hlink⟩ := hscan'.current (Nat.succ_ne_zero _)
      have hent : HasEntries g d₀.fs.view d₀ z := ⟨_, hz⟩
      refine Or.inr (Or.inr (Or.inl ⟨d', z, d'.slot, ?_, d'.slot_lt, hscan'.exact,
        hlink.inView, hd.entries z hent, Or.inl ⟨hent, ?_⟩, ?_⟩))
      · rw [hrun, hloop, DirInCBM.createLoop, hx]
        dsimp only
        rw [if_pos (not_not.mp huse)]
        rfl
      · rw [← hscan'.view, Fs.view_current hlink.inView]
        exact huse
      · intro b _ i _
        rw [hscan'.view]
  · have hq : (k + 7) / 8 = k / 8 := by omega
    rw [hq] at hscan
    have hidx : d.idx % 8 = 0 := by
      rw [hscan.idx]
      omega
    rcases appendSector_cases hscan h0 with ⟨hx, hfault⟩ | ⟨res, d', hx, hne, hview⟩ |
      ⟨t, s, m, hx, ht, hf⟩
    · refine Or.inl ⟨?_, k / 8, by omega, d.nextSector, ⟨hhead, ?_, hscan.distinct⟩,
        (hscan.endsAt hd.start).mpr ⟨h0, rfl⟩, hfault⟩
      · rw [hrun, hloop, DirInCBM.createLoop, DirInCBM.bringInSlot, if_pos hidx, if_pos h0, hx]
        rfl
      · rw [show 8 * (k / 8) = k by omega]
        exact hscan.full
    · refine Or.inr (Or.inl ⟨res, d', ?_, hne, fun b i _ => by rw [hview]⟩)
      rw [hrun, hloop, DirInCBM.createLoop, DirInCBM.bringInSlot, if_pos hidx, if_pos h0, hx]
      cases res <;> first | rfl | exact absurd rfl hne
    · obtain ⟨res, d', hy, ⟨hne, hsame⟩ | ⟨rfl, a, hgrown⟩⟩ :=
        enterSector_grown hd hscan h8 h0 ht hf
      · refine Or.inr (Or.inl ⟨res, d', ?_, hne, hsame⟩)
        rw [hrun, hloop, DirInCBM.createLoop, DirInCBM.bringInSlot, if_pos hidx, if_pos h0, hx]
        dsimp only
        rw [hy]
        cases res <;> first | rfl | exact absurd rfl hne
      · refine Or.inr (Or.inr (Or.inl ⟨d', a, 0, ?_, hgrown.spot hd⟩))
        rw [hrun, hloop, DirInCBM.createLoop, DirInCBM.bringInSlot, if_pos hidx, if_pos h0, hx]
        dsimp only
        rw [hy]
        dsimp only
        rw [hgrown.slot, hgrown.empty, if_pos (by decide)]
        rfl
  · refine Or.inr (Or.inl ⟨res, d', ?_, hne, fun b i _ => by rw [hview]⟩)
    rw [hrun, hloop, DirInCBM.createLoop, hx]
    cases res <;> first | rfl | exact absurd rfl hne

/-! ## Writing the entry -/

theorem length_bytes (e : DirInCBM.NewEntry) : e.bytes.length = 30 := by
  have := e.name_le
  simp only [DirInCBM.NewEntry.bytes, List.length_append, List.length_cons, List.length_nil,
    List.length_replicate]
  omega

theorem bytes_head (e : DirInCBM.NewEntry) : e.bytes.head? = some e.type := rfl

/-- The entry is written, and the sectors without it are as they were. -/
theorem writeEntry_spec {d : DirInCBM} {e : DirInCBM.NewEntry} {a i : Nat} (hi : i < 8)
    (hex : d.fs.Exact g) (hin : d.fs.currentSector = some a) (hdata : Fs.IsDataSector g a) :
    entryBytes ((d.writeEntry g e (DirInCBM.slotOffset i)).fs.view a) i = e.bytes ∧
    (∀ j < 8, j ≠ i → entryBytes ((d.writeEntry g e (DirInCBM.slotOffset i)).fs.view a) j
      = entryBytes (d.fs.view a) j) ∧
    (∀ b, b ≠ a → Fs.IsDataSector g b →
      (d.writeEntry g e (DirInCBM.slotOffset i)).fs.view b = d.fs.view b) ∧
    (∀ b, IsFree g (d.writeEntry g e (DirInCBM.slotOffset i)).fs b ↔ IsFree g d.fs b) := by
  have hsync := Fs.sync_spec (hex.edit hin fun b => b.blit (DirInCBM.slotOffset i + 2)
    e.bytes).coherent
  have hlen := length_bytes e
  have hview : (d.writeEntry g e (DirInCBM.slotOffset i)).fs.view a
      = (d.fs.view a).blit (DirInCBM.slotOffset i + 2) e.bytes := by
    refine (hsync.sameView a hdata).trans ?_
    rw [Fs.view_edit hin, Fs.view_current hin]
  have hoff : ∀ j < 8, DirInCBM.slotOffset j = 32 * j := fun _ _ => rfl
  refine ⟨?_, ?_, ?_, ?_⟩
  · rw [hview, entryBytes]
    have hle : DirInCBM.slotOffset i + 2 + e.bytes.length ≤ 256 := by
      rw [hlen, hoff i hi]
      omega
    have hslice := Buffer.slice_blit (d.fs.view a) hle
    rwa [hlen] at hslice
  · intro j hj hji
    rw [hview, entryBytes, entryBytes]
    refine Buffer.slice_blit_outside _ ?_
    rw [hlen, hoff i hi, hoff j hj]
    omega
  · intro b hb hbdata
    refine (hsync.sameView b hbdata).trans (Fs.view_edit_other ?_)
    rw [hin]
    exact fun he => hb (Option.some.inj he).symm
  · intro b
    have hcell := hsync.sameBam.cell
    rw [IsFree, IsFree, show (d.writeEntry g e (DirInCBM.slotOffset i)).fs.bam.cell
      = d.fs.bam.cell from hcell]

/-- The entries of a sector depend on its bytes from 2 on. -/
theorem entryBytes_congr {b c : Block} (h : ∀ i, 2 ≤ i → b.get i = c.get i) (i : Nat) :
    entryBytes b i = entryBytes c i :=
  Buffer.slice_congr fun j hj _ => h j (by omega)

/-- A place that was found is written to. -/
theorem Spot.written {d₀ d : DirInCBM} {e : DirInCBM.NewEntry} {a i : Nat} (hd : InOrder g d₀)
    (h : Spot g d₀ d a i) :
    Written g e d₀ (d.writeEntry g e (DirInCBM.slotOffset i)).fs a i := by
  obtain ⟨hentry, hslots, hother, hfree⟩ := writeEntry_spec (e := e) h.slot_lt h.exact h.inView
    h.data
  refine ⟨h.slot_lt, ?_, hentry, ?_⟩
  · rcases h.source with hs | ⟨hf, hnot, z, hzdata, hza, hzin, hzend, hlink⟩
    · exact Or.inl hs
    · refine Or.inr ⟨hf, fun hf' => hnot ((hfree a).mp hf'), z, hzin, hzend, ?_⟩
      rw [links, hother z hza hzdata]
      exact hlink
  · intro b hb j hj hne
    have hold := entryBytes_congr (h.entries b hb) j
    by_cases hba : b = a
    · subst hba
      rw [hslots j hj (fun hji => hne ⟨rfl, hji⟩), hold]
    · rw [hother b hba (hd.entries b hb), hold]

/-- A search that has passed all rounds makes `create` write over the last slot
    it has looked at. -/
theorem Reached.overwrites {d₀ : DirInCBM} {e : DirInCBM.NewEntry} (h : Reached g d₀ e 256) :
    ∃ d a, d₀.create g e = some (.ok, d.writeEntry g e (DirInCBM.slotOffset 7)) ∧
      Scan g d₀ d 256 32 ∧ sectorAt g d₀ 31 = some a ∧ d.fs.currentSector = some a := by
  obtain ⟨d, p, hscan, hp, hrun⟩ := h
  obtain ⟨a, ha, -, hlink⟩ := hscan.current (by decide)
  have hp' : p = DirInCBM.slotOffset 7 := hp (by decide)
  refine ⟨d, a, ?_, hscan, ha, hlink.inView⟩
  rw [hrun, hp']
  rfl

/-- Writing over a slot in use is not what `create` is for. -/
theorem Reached.not_creates {d₀ : DirInCBM} {e : DirInCBM.NewEntry} (hd : InOrder g d₀)
    (h : Reached g d₀ e 256) : ¬ Creates g e d₀ := by
  obtain ⟨d, a, hx, hscan, ha, hin⟩ := h.overwrites
  have hent : HasEntries g d₀.fs.view d₀ a := ⟨31, ha⟩
  obtain ⟨-, hslots, hother, hfree⟩ := writeEntry_spec (e := e) (i := 7) (by decide) hscan.exact
    hin (hd.entries a hent)
  rintro ⟨res, d', hx', -, hok, -⟩
  rw [hx] at hx'
  cases hx'
  obtain ⟨b, j, hw⟩ := hok rfl
  rcases hw.available with ⟨hb, hno⟩ | happ
  · -- the slot was not in use, so its type is still 0
    have hzero : (d₀.fs.view b).get (DirInCBM.slotOffset j + 2) = 0 := not_not.mp hno
    have hhead : ∀ c : Block, (entryBytes c j).head?
        = some (c.get (DirInCBM.slotOffset j + 2)) := fun _ => rfl
    have hsame : entryBytes ((d.writeEntry g e (DirInCBM.slotOffset 7)).fs.view b) j
        = entryBytes (d₀.fs.view b) j := by
      rw [← hscan.view]
      by_cases hba : b = a
      · subst hba
        refine hslots j hw.slot_lt ?_
        rintro rfl
        obtain ⟨c, hc, huse⟩ := hscan.full 255 (by decide)
        have hcb : c = b := Option.some.inj (hc.symm.trans ha)
        rw [hcb] at huse
        exact hno huse
      · rw [hother b hba (hd.entries b hb)]
    have hbytes := congrArg List.head? (hw.entry.symm.trans hsame)
    rw [bytes_head, hhead, hzero] at hbytes
    exact e.type_ne (Option.some.inj hbytes)
  · refine happ.allocated ((hfree b).mpr ?_)
    obtain ⟨t, s, habs, hbit⟩ := happ.wasFree
    exact ⟨t, s, habs, by rw [hscan.bam]; exact hbit⟩

/-- Without a full sequence of rounds `create` does what it is for. -/
theorem creates_of_reached {d₀ : DirInCBM} {e : DirInCBM.NewEntry} (hd : InOrder g d₀)
    (hhead : absSector g d₀.headerTrack d₀.headerSector ≠ none) (h256 : ¬ Reached g d₀ e 256) (hfault : ¬ AppendFaults g d₀) :
    ∀ left k, k + left = 256 → Reached g d₀ e k → Creates g e d₀ := by
  intro left
  induction left with
  | zero =>
      intro k hk h
      obtain rfl : k = 256 := hk
      exact absurd h h256
  | succ left ih =>
      intro k hk h
      rcases h.step hd hhead (by omega) with ⟨-, hf⟩ | ⟨res, d', hx, hne, hsame⟩ |
        ⟨d, a, i, hx, hspot⟩ | hnext
      · exact absurd hf hfault
      · have hkeep : ∀ except, KeepsEntries g d₀ d'.fs except :=
          fun _ b _ j _ _ => entryBytes_congr (hsame b) j
        exact ⟨res, d', hx, hkeep _, fun hok => absurd hok hne, fun _ => hkeep _⟩
      · have hw := hspot.written hd (e := e)
        exact ⟨.ok, _, hx, hw.keeps_inUse hd, fun _ => ⟨a, i, hw⟩, fun hne => absurd rfl hne⟩
      · exact ih (k + 1) (by omega) hnext

/-- A search outside the buffers ends the program. -/
theorem appendSector_faults {d₀ d : DirInCBM} {k q : Nat} (h : Scan g d₀ d k q)
    (h0 : d.nextTrack = 0) (hfault : SearchFaults g d₀ d.nextSector) :
    d.appendSector g = none := by
  obtain ⟨htrack, hsearch⟩ := hfault
  have hanywhere : d.appendAnywhere g = none := by
    rw [DirInCBM.appendAnywhere, Fs.getNextFreeSector, h.bam, h0, hsearch]
    rfl
  rw [DirInCBM.appendSector]
  cases ht : dirTrack g.kind with
  | none => exact hanywhere
  | some t =>
      dsimp only
      rw [if_neg ?_]
      · exact hanywhere
      · rw [h.start, ← ht]
        exact htrack.symm

/-- A root directory on a full disk is in order. -/
theorem inOrder_mounted {disk : Nat → Block} {t s : Nat} (ht : t ≠ 0)
    (hstart : (dirTrack g.kind).map (fun t => (t, dirSector g.kind)) = some (t, s))
    (hdata : ∀ a, HasEntries g disk (DirInCBM.new g ⟨0, 0, 0⟩ (mounted disk) 0) a →
      Fs.IsDataSector g a) :
    InOrder g (DirInCBM.new g ⟨0, 0, 0⟩ (mounted disk) 0) where
  exact := (mounted_settled _ _).exact
  start := by
    intro s' h
    have h' : some (t, s) = some (0, s') := hstart.symm.trans h
    cases h'
    exact ht rfl
  header := fun h => nomatch hstart.symm.trans h
  entries := hdata
  reserved := by
    rintro a - ⟨t', s', -, hfree⟩
    exact Bool.false_ne_true ((freeBit_mounted _ _ t' s').symm.trans hfree)

/-- A directory sector of a D81 with eight files in it, linked to sector `s` of
    track 40, or to none. -/
def eightFiles (s : Nat) : Block := fun j =>
  if j.val % 32 = 2 then 0x82
  else if j.val = 0 then (if s = 35 then 0 else 40)
  else if j.val = 1 then UInt8.ofNat s else 0

/-- The directory of a D81 with 256 files: sectors 40/3 to 40/34. -/
def crowded (a : Nat) : Block := if 1563 ≤ a ∧ a < 1595 then eightFiles (a - 1559) else Buffer.zero

/-- Its root directory. -/
def crowdedDir : DirInCBM := DirInCBM.new ⟨.d81, 3200⟩ ⟨0, 0, 0⟩ (mounted crowded) 0

theorem sectorAt_crowded : ∀ q < 32, sectorAt ⟨.d81, 3200⟩ crowdedDir q = some (1563 + q) := by
  intro q
  induction q with
  | zero => exact fun _ => by decide
  | succ q ih =>
      intro hq
      show (sectorAt ⟨.d81, 3200⟩ crowdedDir q).bind _ = _
      rw [ih (by omega)]
      have hnext : ∀ i < 31, linkOf ⟨.d81, 3200⟩ (eightFiles (i + 4)) = some (1564 + i) := by
        decide
      show linkOf ⟨.d81, 3200⟩ (crowded (1563 + q)) = _
      rw [crowded, if_pos (by omega), show 1563 + q - 1559 = q + 4 by omega, hnext q (by omega)]
      congr 1
      omega

theorem hasEntries_crowded {a : Nat} (h : HasEntries ⟨.d81, 3200⟩ crowded crowdedDir a) :
    1563 ≤ a ∧ a < 1595 := by
  obtain ⟨q, hq⟩ := h
  by_cases hlt : q < 32
  · rw [show walk (links ⟨.d81, 3200⟩ crowded) (dirStart ⟨.d81, 3200⟩ crowded crowdedDir) q
      = some (1563 + q) from sectorAt_crowded q hlt] at hq
    cases hq
    omega
  · obtain ⟨d, rfl⟩ := Nat.exists_eq_add_of_le (Nat.le_of_not_lt hlt)
    have hend : walk (links ⟨.d81, 3200⟩ crowded) (dirStart ⟨.d81, 3200⟩ crowded crowdedDir) 32
        = none := by
      show (sectorAt ⟨.d81, 3200⟩ crowdedDir 31).bind _ = none
      rw [sectorAt_crowded 31 (by decide)]
      show linkOf ⟨.d81, 3200⟩ (crowded 1594) = none
      exact linkOf_end (by decide)
    rw [walk_add, hend, walk_none] at hq
    exact nomatch hq

end CbmDir
