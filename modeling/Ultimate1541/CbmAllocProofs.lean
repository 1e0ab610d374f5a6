import Ultimate1541.CbmBamFootprintProofs
import Ultimate1541.CbmDiskProofs

/-! # What an allocation can do

    The inversion of the searches for a free sector, for every content of the
    map and every size of the image: a search that returns has either taken one
    free sector, or it has left the bits alone (`getNextFreeSector_inv`).  A
    count byte that exists has its whole entry behind it, so a search that did
    not leave the buffers has stayed inside entries that exist. -/

namespace CbmBam

open CbmLayout ByteBuffer Footprint Footprint.Prog

/-! ## Tracks with counts -/

/-- An entry whose count byte exists is there as a whole. -/
theorem addressable_of_count {k : Kind} {t : Nat} {a : Addr} (ha : countAddr k t = some a)
    (hv : valid k a = true) : Addressable k t := by
  have hlt : a.idx < a.buf.size k := of_decide_eq_true hv
  intro b hb
  rcases hb with hb | ⟨i, hi, rfl⟩
  · rw [ha] at hb
    cases hb
    exact hv
  · refine decide_eq_true ?_
    cases k with
    | d64 =>
        cases ha
        simp only [bitsAddr, FileSystemD64.entry, Addr.add, Buf.size, bitBytes] at *
        omega
    | d71 =>
        cases ha
        by_cases ht : t > 35
        · simp only [bitsAddr, FileSystemD71.count, FileSystemD71.bits, if_pos ht, Addr.add,
            Buf.size, bitBytes] at *
          omega
        · simp only [bitsAddr, FileSystemD71.count, FileSystemD71.bits, if_neg ht, Addr.add,
            Buf.size, bitBytes] at *
          omega
    | d81 =>
        cases ha
        by_cases ht : t > 40
        · simp only [bitsAddr, FileSystemD81.entry, if_pos ht, Addr.add, Buf.size,
            bitBytes] at *
          omega
        · simp only [bitsAddr, FileSystemD81.entry, if_neg ht, Addr.add, Buf.size,
            bitBytes] at *
          omega
    | dnp => cases ha

/-- A track whose count byte exists has a number of one byte. -/
theorem track_lt_of_count {k : Kind} {t : Nat} {a : Addr} (ha : countAddr k t = some a)
    (hv : valid k a = true) : t < 256 := by
  have hlt : a.idx < a.buf.size k := of_decide_eq_true hv
  cases k with
  | d64 =>
      cases ha
      simp only [FileSystemD64.entry, Buf.size] at hlt
      omega
  | d71 =>
      cases ha
      by_cases ht : t > 35
      · simp only [FileSystemD71.count, if_pos ht, Buf.size] at hlt
        omega
      · omega
  | d81 =>
      cases ha
      by_cases ht : t > 40
      · simp only [FileSystemD81.entry, if_pos ht, Buf.size] at hlt
        omega
      · omega
  | dnp => cases ha

/-- A program that starts with a load gets nowhere past the buffers. -/
theorem valid_of_exec_load_bind {k : Kind} {a : Addr} {α : Type} {f : UInt8 → BamM α}
    {m : Bam} {x : α × Bam} (h : (load (valid k) a >>= f).exec m = some x) :
    valid k a = true := by
  by_contra hv
  have hload : (load (valid k) a : BamM UInt8).exec m = none := by
    rw [exec_eq_none, load, if_neg hv]
  rw [exec_bind, hload] at h
  cases h

/-- `allocate_sector_on_track` that returned. -/
theorem allocateSectorOnTrack_inv {k : Kind} (hk : k ≠ .dnp) {t : Nat} {m m' : Bam}
    {r : Option Nat} (h : (allocateSectorOnTrack k t).exec m = some (r, m')) :
    (∃ s, r = some s ∧ Allocatable k m.cell t ∧ t < 256 ∧ Taken k m m' t s ∧
        m'.regs.bamValid = m.regs.bamValid) ∨
    (r = none ∧ ¬ Allocatable k m.cell t ∧ Refused k m m' t ∧
        m'.regs.bamValid = m.regs.bamValid) := by
  obtain ⟨fr, hfr⟩ := countAddr_isSome hk t
  have hv : valid k fr = true := by
    cases k with
    | d64 => cases hfr; exact valid_of_exec_load_bind h
    | d71 => cases hfr; exact valid_of_exec_load_bind h
    | d81 => cases hfr; exact valid_of_exec_load_bind h
    | dnp => exact absurd rfl hk
  rcases allocateSectorOnTrack_spec hfr (addressable_of_count hfr hv) m with
    ⟨s, m₁, hx, hal, -, ht, hbv⟩ | ⟨m₁, hx, hno, href, hbv⟩
  · rw [hx] at h
    cases h
    exact Or.inl ⟨s, rfl, hal, track_lt_of_count hfr hv, ht, hbv⟩
  · rw [hx] at h
    cases h
    exact Or.inr ⟨rfl, hno, href, hbv⟩

/-- A loop over tracks that returned. -/
theorem tryTracks_inv {k : Kind} (hk : k ≠ .dnp) :
    ∀ (ts : List Nat) (m m' : Bam) (r : Option (Nat × Nat)),
      (tryTracks k ts).exec m = some (r, m') →
      (∃ t s, r = some (t, s) ∧ t ∈ ts ∧ t < 256 ∧ Found k m m' t s) ∨
      (r = none ∧ (∀ t ∈ ts, ¬ Allocatable k m.cell t) ∧ Idle k m m') := by
  intro ts
  induction ts with
  | nil =>
      intro m m' r h
      cases h
      exact Or.inr ⟨rfl, fun t ht => absurd ht List.not_mem_nil, Idle.refl k m⟩
  | cons t ts ih =>
      intro m m' r h
      rw [tryTracks_cons, exec_bind] at h
      obtain ⟨⟨x, m₁⟩, hx, hrest⟩ := Option.bind_eq_some_iff.mp h
      rcases allocateSectorOnTrack_inv hk hx with
        ⟨s, rfl, -, hs, ht, hv⟩ | ⟨rfl, hno, href, hv⟩
      · cases hrest
        exact Or.inl ⟨t, s, rfl, List.mem_cons_self .., hs, ⟨m, Idle.refl k m, ht⟩, hv⟩
      · have hidle := href.idle hno hv
        rcases ih m₁ m' r hrest with ⟨t', s, rfl, hmem, hs, hf⟩ | ⟨rfl, hall, hidle'⟩
        · exact Or.inl ⟨t', s, rfl, List.mem_cons_of_mem _ hmem, hs, hf.of_idle hidle⟩
        · refine Or.inr ⟨rfl, ?_, hidle.trans hidle'⟩
          intro t' ht'
          rcases List.mem_cons.mp ht' with rfl | hmem
          · exact hno
          · exact fun ha => hall t' hmem ((hidle.allocatable_iff t').mpr ha)

/-! ## The DNP search -/

theorem trackStart_dnp (t : Nat) : layoutDnp.trackStart t = 256 * (t - 1) := by
  rw [Layout.trackStart]
  simp [perTrack, layoutDnp, Nat.mul_comm]

/-- The sector of a DNP image a bit of the search stands for. -/
theorem absSector_dnp {g : Geometry} (hk : g.kind = .dnp) {t s a : Nat}
    (h : absSector g t s = some a) : 1 ≤ t ∧ s < 256 ∧ a = 256 * (t - 1) + s := by
  obtain ⟨h1, hs, ha, -⟩ := absSector_eq_some.mp h
  rw [Geometry.layout, hk] at hs ha
  rw [show Kind.dnp.layout.trackStart t = 256 * (t - 1) from trackStart_dnp t] at ha
  exact ⟨h1, hs, ha⟩

theorem mask_eq {j : Nat} (h : j < 8) : (128 : UInt8) >>> UInt8.ofNat j = bitMask (7 - j) := by
  have : ∀ j < 8, (128 : UInt8) >>> UInt8.ofNat j = bitMask (7 - j) := by decide
  exact this j h

/-- The first bit of a byte that is set, from the most significant one on. -/
theorem firstBit_spec (bb : UInt8) :
    ∀ left j, j + left = 8 →
      (∃ i, FileSystemDNP.firstBit bb j left = some i ∧ j ≤ i ∧ i < 8 ∧
        hasBit bb (7 - i) = true) ∨
      (FileSystemDNP.firstBit bb j left = none ∧
        ∀ i, j ≤ i → i < 8 → hasBit bb (7 - i) = false) := by
  intro left
  induction left with
  | zero => exact fun j hj => Or.inr ⟨rfl, fun i h1 h2 => by omega⟩
  | succ left ih =>
      intro j hj
      have hbit : (bb &&& (128 >>> UInt8.ofNat j) ≠ 0) ↔ hasBit bb (7 - j) = true := by
        rw [mask_eq (by omega), hasBit, bne_iff_ne]
      rw [FileSystemDNP.firstBit]
      by_cases hset : hasBit bb (7 - j) = true
      · rw [if_pos (hbit.mpr hset)]
        exact Or.inl ⟨j, rfl, Nat.le_refl j, by omega, hset⟩
      · rw [if_neg (fun h => hset (hbit.mp h))]
        rcases ih (j + 1) (by omega) with ⟨i, hi, h1, h2, h3⟩ | ⟨hnone, hall⟩
        · exact Or.inl ⟨i, hi, by omega, h2, h3⟩
        · refine Or.inr ⟨hnone, fun i h1 h2 => ?_⟩
          by_cases hij : i = j
          · subst hij
            exact eq_false_of_ne_true hset
          · exact hall i (by omega) h2

/-- The bit of a sector, counted from the start of the map. -/
theorem freeBit_dnp_index (cell : Addr → UInt8) {t : Nat} (h1 : 1 ≤ t) (s : Nat) :
    freeBit .dnp cell t s = hasBit (cell ⟨.bam, 32 + (256 * (t - 1) + s) / 8⟩)
      (7 - (256 * (t - 1) + s) % 8) := by
  rw [freeBit, bitAddr_eq, bitOf_dnp_mod]
  have haddr : (bitsAddr .dnp t).add (s / 8) = ⟨.bam, 32 + (256 * (t - 1) + s) / 8⟩ := by
    simp only [bitsAddr, FileSystemDNP.bits, Addr.add, Addr.mk.injEq, true_and]
    omega
  rw [haddr]
  congr 1
  omega

/-- The bit of a sector, as the search counts it. -/
theorem freeBit_dnp {g : Geometry} (hk : g.kind = .dnp) (cell : Addr → UInt8) {t s a : Nat}
    (h : absSector g t s = some a) :
    freeBit .dnp cell t s = hasBit (cell ⟨.bam, 32 + a / 8⟩) (7 - a % 8) := by
  obtain ⟨h1, -, rfl⟩ := absSector_dnp hk h
  exact freeBit_dnp_index cell h1 s

/-- The search of DNP that returned: the first free sector was taken, or there
    is none in the bytes it looks at. -/
theorem scanBytes_inv {g : Geometry} (hk : g.kind = .dnp) :
    ∀ (left i : Nat) (m m' : Bam) (r : Option Nat), 8 * (i + left) ≤ g.numSectors →
      (FileSystemDNP.scanBytes g i left).exec m = some (r, m') →
      (∃ a t s, r = some a ∧ absSector g t s = some a ∧ t < 256 ∧ Taken .dnp m m' t s ∧
        m'.regs.bamValid = m.regs.bamValid) ∨
      (r = none ∧ m' = m ∧ ∀ t s a, absSector g t s = some a → 8 * i ≤ a →
        a < 8 * (i + left) → freeBit .dnp m.cell t s = false) := by
  intro left
  induction left with
  | zero =>
      intro i m m' r _ h
      cases h
      exact Or.inr ⟨rfl, rfl, fun t s a _ h1 h2 => by omega⟩
  | succ left ih =>
      intro i m m' r hle h
      rw [FileSystemDNP.scanBytes] at h
      have hv := valid_of_exec_load_bind h
      rw [exec_bind_of (exec_load m hv)] at h
      rcases firstBit_spec (m.cell ⟨.bam, 32 + i⟩) 8 0 (by decide) with
        ⟨j, hj, -, hj8, hset⟩ | ⟨hnone, hall⟩
      · rw [hj] at h
        dsimp only at h
        rw [exec_bind_of (exec_store m _ hv), exec_bind_of (exec_modifyRegs ..)] at h
        cases h
        obtain ⟨t, s, hts⟩ := getTrackSector_isSome (g := g) (a := 8 * i + j) (by omega)
        have habs := getTrackSector_eq_some.mp hts
        have hs : s < 8 * bitBytes .dnp := by
          have := (absSector_dnp hk habs).2.1
          exact this
        have hbyte : (8 * i + j) / 8 = i := by omega
        have hmod : (8 * i + j) % 8 = j := by omega
        have haddr : bitAddr .dnp t s = ⟨.bam, 32 + i⟩ := by
          obtain ⟨h1, -, heq⟩ := absSector_dnp hk habs
          rw [bitAddr_eq]
          simp only [bitsAddr, FileSystemDNP.bits, Addr.add, Addr.mk.injEq, true_and]
          omega
        have hbit : bitOf .dnp s % 8 = 7 - j := by
          obtain ⟨h1, -, heq⟩ := absSector_dnp hk habs
          rw [bitOf_dnp_mod]
          omega
        have hcell : Function.update m.cell ⟨.bam, 32 + i⟩
            (m.cell ⟨.bam, 32 + i⟩ &&& ~~~((128 : UInt8) >>> UInt8.ofNat j))
            = markUsed .dnp m.cell t s := by
          rw [markUsed, haddr, hbit, mask_eq hj8]
        have ht : t < 256 := by
          have hlt : 32 + i < 8192 := of_decide_eq_true hv
          obtain ⟨h1, -, heq⟩ := absSector_dnp hk habs
          omega
        refine Or.inl ⟨8 * i + j, t, s, rfl, habs, ht, ⟨hs, ?_, ?_, ?_, ?_⟩, rfl⟩
        · rw [freeBit_dnp hk _ habs, hbyte, hmod]
          exact hset
        · intro t' s' hs'
          show freeBit .dnp (Function.update m.cell ⟨.bam, 32 + i⟩ _) t' s' = _
          rw [hcell, freeBit_markUsed _ _ _ hs hs']
        · intro t'
          split <;> rfl
        · intro b hb
          refine Function.update_of_ne ?_ ..
          rintro rfl
          exact hb (haddr ▸ inEntry_bit hs)
      · rw [hnone] at h
        rcases ih (i + 1) m m' r (by omega) h with hfound | ⟨rfl, rfl, hrest⟩
        · exact Or.inl hfound
        · refine Or.inr ⟨rfl, rfl, fun t s a habs h1 h2 => ?_⟩
          by_cases ha : a < 8 * (i + 1)
          · rw [freeBit_dnp hk _ habs, show a / 8 = i by omega]
            exact hall (a % 8) (Nat.zero_le _) (Nat.mod_lt _ (by decide))
          · exact hrest t s a habs (by omega) (by omega)

/-! ## Any search -/

/-- A search from a track finds nothing.  The D71 search has no such answer. -/
def FindsNothing (g : Geometry) (m : Bam) (track : Nat) : Prop :=
  match g.kind with
  | .d71 => False
  | .dnp => m.regs.bamValid = false ∨ ∀ t s a, absSector g t s = some a →
      a < 8 * (g.numSectors / 8) → freeBit .dnp m.cell t s = false
  | k => ∀ t ∈ searchOrder k (startHint k track) (getNumTracks g), ¬ Allocatable k m.cell t

theorem getNextFreeSector_cbm_inv {g : Geometry} (hk : g.kind ≠ .dnp) {track sector : Nat}
    {m m' : Bam} {r : NextFree}
    (h : (FileSystemCBM.getNextFreeSector g track sector).exec m = some (r, m')) :
    (r.ok = true ∧ r.track < 256 ∧ Found g.kind m m' r.track r.sector) ∨
    (r = ⟨false, startHint g.kind track, sector⟩ ∧ Idle g.kind m m' ∧
      ∀ t ∈ searchOrder g.kind (startHint g.kind track) (getNumTracks g),
        ¬ Allocatable g.kind m.cell t) := by
  cases hmt : getTrackSector g (g.numSectors - 1) with
  | some ts =>
      obtain ⟨mt, ms⟩ := ts
      rw [getNextFreeSector_cbm_eq hmt, exec_bind] at h
      have hnum : getNumTracks g = mt := by rw [getNumTracks, hmt]
      obtain ⟨⟨x, m₁⟩, hx, hrest⟩ := Option.bind_eq_some_iff.mp h
      rcases tryTracks_inv hk _ _ _ _ hx with ⟨t, s, rfl, -, hlt, hf⟩ | ⟨rfl, hall, hidle⟩
      · cases hrest
        exact Or.inl ⟨rfl, hlt, hf⟩
      · cases hrest
        rw [hnum]
        exact Or.inr ⟨rfl, hidle, hall⟩
  | none =>
      -- an image without sectors: the search has to end before it asks for the last track
      refine Or.inl ?_
      rw [FileSystemCBM.getNextFreeSector, exec_bind] at h
      obtain ⟨⟨x, m₁⟩, hx, hrest⟩ := Option.bind_eq_some_iff.mp h
      rcases allocateSectorOnTrack_inv hk hx with
        ⟨s, rfl, -, hlt, ht, hv⟩ | ⟨rfl, hno, href, hv⟩
      · cases hrest
        exact ⟨rfl, hlt, ⟨m, Idle.refl _ m, ht⟩, hv⟩
      · dsimp only at hrest
        rw [exec_bind] at hrest
        obtain ⟨⟨y, m₂⟩, hy, hrest'⟩ := Option.bind_eq_some_iff.mp hrest
        rcases tryTracks_inv hk _ _ _ _ hy with ⟨t, s, rfl, -, hlt, hf⟩ | ⟨rfl, -, -⟩
        · cases hrest'
          exact ⟨rfl, hlt, hf.of_idle (href.idle hno hv)⟩
        · dsimp only at hrest'
          rw [hmt] at hrest'
          cases hrest'

theorem getNextFreeSector_d71_inv {track sector : Nat} {m m' : Bam} {r : NextFree}
    (h : (FileSystemD71.getNextFreeSector track sector).exec m = some (r, m')) :
    r.ok = true ∧ r.track < 256 ∧ Found .d71 m m' r.track r.sector := by
  rw [getNextFreeSector_d71_eq, exec_bind] at h
  obtain ⟨⟨x, m₁⟩, hx, hrest⟩ := Option.bind_eq_some_iff.mp h
  rcases tryTracks_inv (by decide) _ _ _ _ hx with ⟨t, s, rfl, -, hlt, hf⟩ | ⟨rfl, -, -⟩
  · cases hrest
    exact ⟨rfl, hlt, hf⟩
  · exact nomatch hrest

/-- While the map is valid its bytes are scanned. -/
theorem getNextFreeSector_dnp_valid {g : Geometry} {track sector : Nat} {m : Bam}
    (hv : ¬m.regs.bamValid = false) :
    (FileSystemDNP.getNextFreeSector g track sector).exec m
      = (do
        match ← FileSystemDNP.scanBytes g 0 (g.numSectors / 8) with
        | none => pure ⟨false, track, sector⟩
        | some abs =>
            match getTrackSector g abs with
            | none => pure ⟨true, track, sector⟩
            | some (t, s) => pure ⟨true, t, s⟩ : BamM NextFree).exec m := by
  rw [exec, FileSystemDNP.getNextFreeSector, if_neg hv]
  rfl

theorem getNextFreeSector_dnp_inv {g : Geometry} (hk : g.kind = .dnp) {track sector : Nat}
    {m m' : Bam} {r : NextFree}
    (h : (FileSystemDNP.getNextFreeSector g track sector).exec m = some (r, m')) :
    (r.ok = true ∧ r.track < 256 ∧ Found .dnp m m' r.track r.sector) ∨
    (r = ⟨false, track, sector⟩ ∧ m' = m ∧ (m.regs.bamValid = false ∨
      ∀ t s a, absSector g t s = some a → a < 8 * (g.numSectors / 8) →
        freeBit .dnp m.cell t s = false)) := by
  by_cases hv : m.regs.bamValid = false
  · have hrun : (FileSystemDNP.getNextFreeSector g track sector).exec m
        = some (⟨false, track, sector⟩, m) := by
      rw [exec, FileSystemDNP.getNextFreeSector, if_pos hv]
      rfl
    rw [hrun] at h
    cases h
    exact Or.inr ⟨rfl, rfl, Or.inl hv⟩
  · rw [getNextFreeSector_dnp_valid hv, exec_bind] at h
    obtain ⟨⟨x, m₁⟩, hx, hrest⟩ := Option.bind_eq_some_iff.mp h
    rcases scanBytes_inv hk _ _ _ _ _ (by omega) hx with
      ⟨a, t, s, rfl, habs, hlt, ht, hbv⟩ | ⟨rfl, rfl, hall⟩
    · dsimp only at hrest
      rw [getTrackSector_eq_some.mpr habs] at hrest
      cases hrest
      exact Or.inl ⟨rfl, hlt, ⟨m, Idle.refl _ m, ht⟩, hbv⟩
    · cases hrest
      exact Or.inr ⟨rfl, rfl, Or.inr fun t s a habs hlt =>
        hall t s a habs (Nat.zero_le _) (by omega)⟩

/-- **A SEARCH THAT RETURNED** took one free sector, or it found nothing and left
    the bits alone. -/
theorem getNextFreeSector_inv {g : Geometry} {track sector : Nat} {m m' : Bam} {r : NextFree}
    (h : (getNextFreeSector g track sector).exec m = some (r, m')) :
    (r.ok = true ∧ r.track < 256 ∧ Found g.kind m m' r.track r.sector) ∨
    (r.ok = false ∧ Idle g.kind m m' ∧ FindsNothing g m track) := by
  rw [FindsNothing]
  rw [getNextFreeSector] at h
  cases hk : g.kind with
  | d64 =>
      rw [hk] at h
      rcases getNextFreeSector_cbm_inv (by rw [hk]; decide) h with hf | ⟨rfl, hi, hno⟩
      · exact Or.inl (hk ▸ hf)
      · rw [hk] at hi hno
        exact Or.inr ⟨rfl, hi, hno⟩
  | d71 =>
      rw [hk] at h
      exact Or.inl (getNextFreeSector_d71_inv h)
  | d81 =>
      rw [hk] at h
      rcases getNextFreeSector_cbm_inv (by rw [hk]; decide) h with hf | ⟨rfl, hi, hno⟩
      · exact Or.inl (hk ▸ hf)
      · rw [hk] at hi hno
        exact Or.inr ⟨rfl, hi, hno⟩
  | dnp =>
      rw [hk] at h
      rcases getNextFreeSector_dnp_inv hk h with hf | ⟨rfl, rfl, hno⟩
      · exact Or.inl hf
      · exact Or.inr ⟨rfl, Idle.refl _ _, hno⟩

end CbmBam

namespace CbmDisk.Fs

open CbmLayout CbmBam

variable {g : Geometry}

/-- `get_next_free_sector` on a file system changes its map only. -/
theorem getNextFreeSector_inv {fs fs' : Fs} {track sector : Nat} {r : NextFree}
    (h : fs.getNextFreeSector g track sector = some (r, fs')) :
    (∃ m, fs' = { fs with bam := m }) ∧
    ((r.ok = true ∧ r.track < 256 ∧ Found g.kind fs.bam fs'.bam r.track r.sector) ∨
      (r.ok = false ∧ Idle g.kind fs.bam fs'.bam ∧ FindsNothing g fs.bam track)) := by
  rw [Fs.getNextFreeSector] at h
  obtain ⟨⟨r', m⟩, hx, heq⟩ := Option.map_eq_some_iff.mp h
  cases heq
  exact ⟨⟨m, rfl⟩, CbmBam.getNextFreeSector_inv hx⟩

end CbmDisk.Fs
