import Ultimate1541.CbmAllocProofs
import Ultimate1541.CbmDiskProofs

/-! # Formatting a DNP image

    `FileSystemDNP::format` fills its map with whole bytes.  The 35 sectors in use
    are in the first five of them, and an image that ends inside a byte of the map
    gets that byte by hand: `bb - 1`, the low bits.  Sectors are counted from the high
    bit down, so the low bits stand for sectors behind the end of the image.  The map
    is right exactly for the images whose size is a multiple of eight
    (`format_marks_iff`). -/

namespace CbmFormat

open CbmLayout CbmBam CbmDisk ByteBuffer Footprint Footprint.Prog

/-- A run of bytes is stored from an index on: `memset`, and the loops over a name. -/
def writeBytes (k : Kind) (buf : Buf) : Nat → List UInt8 → BamM Unit
  | _, [] => pure ()
  | i, b :: bs => do
      store (valid k) ⟨buf, i⟩ b
      writeBytes k buf (i + 1) bs

/-- `toupper` on a byte. -/
def toupper (c : UInt8) : UInt8 := if 97 ≤ c ∧ c ≤ 122 then c - 32 else c

/-- `set_volume_name`: `start` is where `bam_name` points, and `name` holds the bytes in
    front of the zero byte. -/
def setVolumeName (k : Kind) (name : List UInt8) (start : Nat) (dos : UInt8 × UInt8) :
    BamM Unit := do
  writeBytes k .root start (List.replicate 27 0xA0)
  store (valid k) ⟨.root, start + 21⟩ dos.1
  store (valid k) ⟨.root, start + 22⟩ dos.2
  writeBytes k .root start (((name.takeWhile (· != 44)).take 16).map toupper)
  match name.dropWhile (· != 44) with
  | [] => pure ()
  | _ :: p => writeBytes k .root (start + 18) ((p.take 2).map toupper)

namespace FileSystemDNP

/-- The first part of `format`: the header block and the header of the map. -/
def formatHeader (g : Geometry) (name : List UInt8) : BamM Unit := do
  writeBytes .dnp .root 0 (List.replicate 256 0)
  writeBytes .dnp .bam 0 (List.replicate 8192 0)
  store (valid .dnp) ⟨.root, 0⟩ 0x01
  store (valid .dnp) ⟨.root, 1⟩ 0x22
  store (valid .dnp) ⟨.root, 2⟩ 0x48
  setVolumeName .dnp name 4 (0x31, 0x48)
  store (valid .dnp) ⟨.root, 32⟩ (UInt8.ofNat (rootTrack .dnp))
  store (valid .dnp) ⟨.root, 33⟩ (UInt8.ofNat (rootSector .dnp))
  modifyRegs fun r => { r with rootDirty := true }
  store (valid .dnp) ⟨.bam, 2⟩ 0x48
  store (valid .dnp) ⟨.bam, 3⟩ 0xB7
  store (valid .dnp) ⟨.bam, 4⟩ (← load (valid .dnp) ⟨.root, 22⟩)
  store (valid .dnp) ⟨.bam, 5⟩ (← load (valid .dnp) ⟨.root, 23⟩)
  store (valid .dnp) ⟨.bam, 6⟩ 0xC0
  store (valid .dnp) ⟨.bam, 8⟩ (UInt8.ofNat ((g.numSectors + 255) / 256))

/-- "In case it's not a multiple of 8": the byte of the map the image ends in. -/
def formatLastByte (g : Geometry) : BamM Unit :=
  if g.numSectors % 8 ≠ 0 then
    let bb := UInt8.ofNat (2 ^ (g.numSectors % 8))
    store (valid .dnp) ⟨.bam, 32 + g.numSectors / 8⟩ (bb - 1)
  else pure ()

/-- The second part of `format`: the bits of the map. -/
def formatBits (g : Geometry) : BamM Unit := do
  let bamBytes := g.numSectors / 8
  store (valid .dnp) ⟨.bam, 36⟩ 0x1F
  writeBytes .dnp .bam 37 (List.replicate (bamBytes - 5) 0xFF)
  formatLastByte g
  modifyRegs fun r => { r with bamDirty := 0xFFFFFFFF }

/-- `FileSystemDNP::format`; `none` is a store past the end of a buffer. -/
def format (g : Geometry) (name : List UInt8) (fs : Fs) : Option (FResult × Fs) :=
  if fs.isWritable = false then some (.writeProtected, fs)
  else
    match (do formatHeader g name; formatBits g : BamM Unit).exec fs.bam with
    | none => none
    | some (_, bam) =>
        -- the empty directory block, at its fixed location
        some (Fs.sync g { fs with
          bam := bam
          currentSector := absSector g 1 34
          sectBuffer := fun j => if j.val = 1 then 0xFF else 0
          dirty := true })

end FileSystemDNP

/-! ## Runs of bytes -/

/-- What a run of bytes leaves in the buffers. -/
def written (buf : Buf) (i : Nat) (bs : List UInt8) (cell : Addr → UInt8) : Addr → UInt8 :=
  fun a => if a.buf = buf ∧ i ≤ a.idx ∧ a.idx < i + bs.length then bs.getD (a.idx - i) 0
    else cell a

theorem written_replicate (buf : Buf) (i n : Nat) (v : UInt8) (cell : Addr → UInt8) (a : Addr) :
    written buf i (List.replicate n v) cell a =
      if a.buf = buf ∧ i ≤ a.idx ∧ a.idx < i + n then v else cell a := by
  rw [written, List.length_replicate]
  split
  next h => rw [List.getD_eq_getElem?_getD, List.getElem?_replicate_of_lt (by omega)]; rfl
  next => rfl

theorem writeBytes_exec {k : Kind} {buf : Buf} {bs : List UInt8} :
    ∀ {i : Nat} {m : Bam}, i + bs.length ≤ buf.size k →
      (writeBytes k buf i bs).exec m = some ((), { m with cell := written buf i bs m.cell }) := by
  induction bs with
  | nil =>
      intro i m _
      have hcell : written buf i [] m.cell = m.cell := by
        funext a
        rw [written, if_neg]
        simp
      rw [hcell]
      rfl
  | cons b bs ih =>
      intro i m h
      rw [List.length_cons] at h
      have hv : valid k ⟨buf, i⟩ = true := by
        simp only [valid, decide_eq_true_eq]
        omega
      rw [writeBytes, exec_bind_of (exec_store m b hv), ih (by omega)]
      congr 3
      funext a
      obtain ⟨ab, ai⟩ := a
      by_cases hb : ab = buf
      · subst hb
        by_cases hi : ai = i
        · -- the byte just stored: the rest of the run starts behind it
          subst hi
          simp [written]
        · have hne : (⟨ab, ai⟩ : Addr) ≠ ⟨ab, i⟩ := fun he => hi (Addr.mk.inj he).2
          by_cases hin : i + 1 ≤ ai ∧ ai < i + 1 + bs.length
          · rw [written, if_pos ⟨rfl, hin⟩, written,
              if_pos ⟨rfl, by simp only [List.length_cons]; omega⟩,
              show ai - i = ai - (i + 1) + 1 by omega, List.getD_cons_succ]
          · rw [written, if_neg (fun hc => hin hc.2)]
            show Function.update m.cell _ b _ = _
            rw [Function.update_of_ne hne, written,
              if_neg (by simp only [List.length_cons]; omega)]
      · have hne : (⟨ab, ai⟩ : Addr) ≠ ⟨buf, i⟩ := fun he => hb (Addr.mk.inj he).1
        rw [written, if_neg (fun hc => hb hc.1)]
        show Function.update m.cell _ b _ = _
        rw [Function.update_of_ne hne, written, if_neg (fun hc => hb hc.1)]

theorem reaches_writeBytes {k : Kind} {P Q : Bam → Prop} {buf : Buf} {i : Nat} {bs : List UInt8}
    (h : i + bs.length ≤ buf.size k)
    (hpq : ∀ m, P m → Q { m with cell := written buf i bs m.cell }) :
    Reaches P (writeBytes k buf i bs) Q :=
  fun m hm => ⟨(), _, writeBytes_exec h, hpq m hm⟩

/-- `memset`. -/
theorem reaches_fill {k : Kind} {P Q : Bam → Prop} {buf : Buf} {i n : Nat} {v : UInt8}
    (h : i + n ≤ buf.size k)
    (hpq : ∀ m m' : Bam, P m → (∀ a, m'.cell a =
      if a.buf = buf ∧ i ≤ a.idx ∧ a.idx < i + n then v else m.cell a) → Q m') :
    Reaches P (writeBytes k buf i (List.replicate n v)) Q := by
  refine reaches_writeBytes (by rwa [List.length_replicate]) ?_
  exact fun m hm => hpq m _ hm (written_replicate buf i n v m.cell)

/-! ## The headers leave the bits alone -/

/-- No sector is marked free yet. -/
def Blank (m : Bam) : Prop := ∀ i, 32 ≤ i → i < 8192 → m.cell ⟨.bam, i⟩ = 0

theorem Blank.update {m : Bam} (h : Blank m) {a : Addr} (ha : a.buf = .root ∨ a.idx < 32)
    (v : UInt8) : Blank { m with cell := Function.update m.cell a v } := by
  intro i h1 h2
  have hne : (⟨.bam, i⟩ : Addr) ≠ a := by
    rintro rfl
    rcases ha with ha | ha
    · exact nomatch ha
    · exact absurd ha (by simp only; omega)
  show Function.update m.cell a v _ = 0
  rw [Function.update_of_ne hne]
  exact h i h1 h2

theorem Blank.store {a : Addr} (hv : valid .dnp a = true) (ha : a.buf = .root ∨ a.idx < 32)
    (v : UInt8) : Reaches Blank (store (valid .dnp) a v) Blank :=
  .store hv fun _ hm => hm.update ha v

theorem Blank.writeRoot {i : Nat} {bs : List UInt8} (h : i + bs.length ≤ 256) :
    Reaches Blank (writeBytes .dnp .root i bs) Blank := by
  refine reaches_writeBytes h ?_
  intro m hm j h1 h2
  show written .root i bs m.cell ⟨.bam, j⟩ = 0
  rw [written, if_neg (fun hc => nomatch hc.1)]
  exact hm j h1 h2

/-- The name stays inside the header block. -/
theorem Blank.setVolumeName (name : List UInt8) (dos : UInt8 × UInt8) :
    Reaches Blank (setVolumeName .dnp name 4 dos) Blank := by
  refine .bind (Blank.writeRoot (by simp)) fun _ => ?_
  refine .bind (Blank.store rfl (Or.inl rfl) _) fun _ => ?_
  refine .bind (Blank.store rfl (Or.inl rfl) _) fun _ => ?_
  refine .bind (Blank.writeRoot ?_) fun _ => ?_
  · have := List.length_take_le 16 (name.takeWhile (· != 44))
    simp only [List.length_map]
    omega
  · split
    · exact .pure ()
    next p _ =>
      refine Blank.writeRoot ?_
      have := List.length_take_le 2 p
      simp only [List.length_map]
      omega

theorem formatHeader_blank (g : Geometry) (name : List UInt8) :
    Reaches (fun _ => True) (FileSystemDNP.formatHeader g name) Blank := by
  have hroot : Reaches (fun _ => True) (writeBytes .dnp .root 0 (List.replicate 256 0))
      fun _ => True :=
    reaches_fill (Nat.le_refl _) fun _ _ _ _ => trivial
  have hbam : Reaches (fun _ => True) (writeBytes .dnp .bam 0 (List.replicate 8192 0)) Blank := by
    refine reaches_fill (Nat.le_refl _) ?_
    intro m m' _ hcell i h1 h2
    rw [hcell, if_pos ⟨rfl, Nat.zero_le i, by omega⟩]
  refine .bind hroot fun _ => ?_
  refine .bind hbam fun _ => ?_
  refine .bind (Blank.store rfl (Or.inl rfl) _) fun _ => ?_
  refine .bind (Blank.store rfl (Or.inl rfl) _) fun _ => ?_
  refine .bind (Blank.store rfl (Or.inl rfl) _) fun _ => ?_
  refine .bind (Blank.setVolumeName name _) fun _ => ?_
  refine .bind (Blank.store rfl (Or.inl rfl) _) fun _ => ?_
  refine .bind (Blank.store rfl (Or.inl rfl) _) fun _ => ?_
  refine .bind (.modifyRegs (Q := Blank) fun _ hm => hm) fun _ => ?_
  refine .bind (Blank.store rfl (Or.inr (by decide)) _) fun _ => ?_
  refine .bind (Blank.store rfl (Or.inr (by decide)) _) fun _ => ?_
  refine .bind (.load rfl) fun _ => ?_
  refine .bind (Blank.store rfl (Or.inr (by decide)) _) fun _ => ?_
  refine .bind (.load rfl) fun _ => ?_
  refine .bind (Blank.store rfl (Or.inr (by decide)) _) fun _ => ?_
  refine .bind (Blank.store rfl (Or.inr (by decide)) _) fun _ => ?_
  exact Blank.store rfl (Or.inr (by decide)) _

/-! ## The bits -/

/-- The byte of the map for the sectors from `8 * q` on, as `format` leaves it. -/
def mapByte (n q : Nat) : UInt8 :=
  if n % 8 ≠ 0 ∧ q = n / 8 then UInt8.ofNat (2 ^ (n % 8)) - 1
  else if 5 ≤ q ∧ q < n / 8 then 0xFF
  else if q = 4 then 0x1F
  else 0

/-- The bytes of the map, as far as there are any. -/
def HasBytes (f : Nat → UInt8) (m : Bam) : Prop := ∀ q, q < 8160 → m.cell ⟨.bam, 32 + q⟩ = f q

theorem formatBits_bytes {g : Geometry} (h : g.numSectors ≤ 65280) :
    Reaches Blank (FileSystemDNP.formatBits g) (HasBytes (mapByte g.numSectors)) := by
  have hfull : g.numSectors / 8 ≤ 8160 := by omega
  refine .bind (Q := HasBytes fun q => if q = 4 then 0x1F else 0) (.store rfl ?_) fun _ => ?_
  · intro m hm q hq
    show Function.update m.cell _ _ _ = _
    by_cases h4 : q = 4
    · subst h4
      exact Function.update_self ..
    · have hne : (⟨.bam, 32 + q⟩ : Addr) ≠ ⟨.bam, 36⟩ := fun he => by
        have := (Addr.mk.inj he).2
        omega
      rw [Function.update_of_ne hne, hm _ (by omega) (by omega)]
      exact (if_neg h4).symm
  refine .bind (Q := HasBytes fun q =>
    if 5 ≤ q ∧ q < g.numSectors / 8 then 0xFF else if q = 4 then 0x1F else 0)
    (reaches_fill ?_ ?_) fun _ => ?_
  · show 37 + (g.numSectors / 8 - 5) ≤ 8192
    omega
  · intro m m' hm hcell q hq
    rw [hcell, hm q hq]
    by_cases hin : 5 ≤ q ∧ q < g.numSectors / 8
    · rw [if_pos ⟨rfl, by simp only; omega, by simp only; omega⟩]
      exact (if_pos hin).symm
    · rw [if_neg (by simp only; omega)]
      exact (if_neg hin).symm
  · refine .bind (Q := HasBytes (mapByte g.numSectors)) ?_ fun _ =>
      .modifyRegs (Q := HasBytes (mapByte g.numSectors)) fun _ hm => hm
    rw [FileSystemDNP.formatLastByte]
    by_cases hpart : g.numSectors % 8 ≠ 0
    · rw [if_pos hpart]
      have hv : valid .dnp ⟨.bam, 32 + g.numSectors / 8⟩ = true := by
        have hlt : 32 + g.numSectors / 8 < 8192 := by omega
        exact decide_eq_true hlt
      refine .store hv ?_
      intro m hm q hq
      show Function.update m.cell _ _ _ = _
      by_cases hlast : q = g.numSectors / 8
      · -- the byte the image ends in
        subst hlast
        rw [mapByte, if_pos ⟨hpart, rfl⟩]
        exact Function.update_self ..
      · have hne : (⟨.bam, 32 + q⟩ : Addr) ≠ ⟨.bam, 32 + g.numSectors / 8⟩ := fun he => by
          have := (Addr.mk.inj he).2
          omega
        rw [Function.update_of_ne hne, hm q hq, mapByte, if_neg (fun hc => hlast hc.2)]
    · rw [if_neg hpart]
      intro m hm
      refine ⟨(), m, rfl, ?_⟩
      intro q hq
      rw [hm q hq, mapByte, if_neg (fun hc => hpart hc.1)]

theorem hasBit_partial {r b : Nat} (hr : r < 8) (hb : b < 8) :
    hasBit (UInt8.ofNat (2 ^ r) - 1) b = decide (b < r) := by
  have h : ∀ r < 8, ∀ b < 8, hasBit (UInt8.ofNat (2 ^ r) - 1) b = decide (b < r) := by decide
  exact h r hr b hb

theorem hasBit_full {b : Nat} (hb : b < 8) : hasBit 0xFF b = true := by
  have h : ∀ b < 8, hasBit 0xFF b = true := by decide
  exact h b hb

theorem hasBit_first {b : Nat} (hb : b < 8) : hasBit 0x1F b = decide (b < 5) := by
  have h : ∀ b < 8, hasBit 0x1F b = decide (b < 5) := by decide
  exact h b hb

/-- The map marks the sectors from 35 on free, as far as the image goes. -/
def Marked (g : Geometry) (cell : Addr → UInt8) : Prop :=
  ∀ t s, 1 ≤ t → t ≤ 255 → s < 256 → freeBit .dnp cell t s =
    decide (35 ≤ 256 * (t - 1) + s ∧ 256 * (t - 1) + s < g.numSectors)

/-- The map of an image that ends with a byte of it. -/
theorem mapByte_of_dvd {n a : Nat} (h : n % 8 = 0) (hn : 35 ≤ n) :
    hasBit (mapByte n (a / 8)) (7 - a % 8) = decide (35 ≤ a ∧ a < n) := by
  rw [mapByte, if_neg (fun hc => hc.1 h)]
  by_cases hfull : 5 ≤ a / 8 ∧ a / 8 < n / 8
  · rw [if_pos hfull, hasBit_full (by omega)]
    simp only [Bool.true_eq, decide_eq_true_eq]
    omega
  · rw [if_neg hfull]
    by_cases h4 : a / 8 = 4
    · rw [if_pos h4, hasBit_first (by omega)]
      congr 1
      apply propext
      omega
    · rw [if_neg h4, hasBit_zero (by omega)]
      simp only [Bool.false_eq, decide_eq_false_iff_not]
      omega

/-- Else the last sector of the byte the image ends in is free, behind the end. -/
theorem mapByte_behind {n : Nat} (h : n % 8 ≠ 0) :
    hasBit (mapByte n ((8 * (n / 8) + 7) / 8)) (7 - (8 * (n / 8) + 7) % 8) = true := by
  rw [show (8 * (n / 8) + 7) / 8 = n / 8 by omega, show 7 - (8 * (n / 8) + 7) % 8 = 0 by omega,
    mapByte, if_pos ⟨h, rfl⟩, hasBit_partial (Nat.mod_lt _ (by decide)) (by decide)]
  simp only [decide_eq_true_eq]
  omega

theorem marked_iff {g : Geometry} (h : 35 ≤ g.numSectors) (hmax : g.numSectors ≤ 255 * 256)
    {m : Bam} (hm : HasBytes (mapByte g.numSectors) m) :
    Marked g m.cell ↔ 8 ∣ g.numSectors := by
  have hbit : ∀ t s, 1 ≤ t → t ≤ 255 → s < 256 → freeBit .dnp m.cell t s =
      hasBit (mapByte g.numSectors ((256 * (t - 1) + s) / 8)) (7 - (256 * (t - 1) + s) % 8) := by
    intro t s h1 ht hs
    rw [freeBit_dnp_index m.cell h1 s, hm _ (by omega)]
  constructor
  · intro hmarked
    by_contra hdvd
    have hmod : g.numSectors % 8 ≠ 0 := fun h0 => hdvd (Nat.dvd_of_mod_eq_zero h0)
    -- the sector in question, as a track and a sector
    obtain ⟨a, ha⟩ : ∃ a, a = 8 * (g.numSectors / 8) + 7 := ⟨_, rfl⟩
    have haddr : 256 * (a / 256 + 1 - 1) + a % 256 = a := by omega
    have hfree := hbit (a / 256 + 1) (a % 256) (by omega) (by omega) (by omega)
    rw [hmarked _ _ (by omega) (by omega) (by omega), haddr, ha, mapByte_behind hmod,
      decide_eq_true_eq] at hfree
    omega
  · intro hdvd t s h1 ht hs
    rw [hbit t s h1 ht hs]
    exact mapByte_of_dvd (Nat.mod_eq_zero_of_dvd hdvd) h

/-! ## Writing it to the medium -/

/-- An address of a DNP image. -/
theorem absSector_dnp_mk {g : Geometry} (hk : g.kind = .dnp) {t s : Nat} (h1 : 1 ≤ t)
    (hs : s < 256) (hlt : 256 * (t - 1) + s < g.numSectors) :
    absSector g t s = some (256 * (t - 1) + s) := by
  have hstart : g.layout.trackStart t = 256 * (t - 1) := by
    rw [Geometry.layout, hk]
    exact trackStart_dnp t
  have hsectors : g.layout.sectors t = 256 := by
    rw [Geometry.layout, hk]
    rfl
  exact absSector_eq_some.mpr ⟨h1, by omega, by omega, hlt⟩

theorem prtWrite_some {g : Geometry} (fs : Fs) (b : Block) {a : Nat} (h : a < g.numSectors) :
    ∃ fs', fs.prtWrite g b (some a) = some fs' :=
  ⟨_, if_pos h⟩

theorem prtWrite2_some {g : Geometry} (fs : Fs) (b b' : Block) {a : Nat}
    (h : a < g.numSectors) : ∃ fs', fs.prtWrite2 g b b' (some a) = some fs' :=
  ⟨_, if_pos h⟩

theorem syncDnpLoop_result {g : Geometry} (h : 35 ≤ g.numSectors) (fres : FResult) :
    ∀ (left i dirty : Nat) (fs : Fs), i + 2 * left = 32 →
      (fs.syncDnpLoop g fres left i dirty).1 = fres := by
  intro left
  induction left with
  | zero => intro i dirty fs _; rfl
  | succ left ih =>
      intro i dirty fs hi
      obtain ⟨fs', hw⟩ := prtWrite2_some fs (bufBlock fs.bam .bam i)
        (bufBlock fs.bam .bam (i + 1)) (show 2 + i < g.numSectors by omega)
      rw [Fs.syncDnpLoop, hw]
      split
      · rfl
      · by_cases hd : dirty % 4 ≠ 0
        · rw [if_pos hd]
          exact ih (i + 2) _ fs' (by omega)
        · rw [if_neg hd]
          exact ih (i + 2) _ fs (by omega)

theorem syncBase_result {g : Geometry} {fs : Fs} {a b : Nat} (hcur : fs.currentSector = some a)
    (ha : a < g.numSectors) (hroot : Fs.rootAbs g = some b) (hb : b < g.numSectors) :
    (fs.syncBase g).1 = .ok := by
  obtain ⟨fs₁, hfs₁⟩ : ∃ fs₁, (if fs.dirty then fs.prtWrite g fs.sectBuffer fs.currentSector
      else some fs) = some fs₁ := by
    rw [hcur]
    cases fs.dirty with
    | false => exact ⟨fs, rfl⟩
    | true => exact ⟨_, if_pos ha⟩
  rw [Fs.syncBase, hfs₁, hroot]
  dsimp only
  split
  · obtain ⟨fs₂, hw⟩ := prtWrite_some { fs₁ with dirty := false }
      (bufBlock fs₁.bam .root 0) hb
    rw [hw]
  · rfl

/-- All sectors `sync` writes after `format` are in the image. -/
theorem sync_format {g : Geometry} (hk : g.kind = .dnp) (h : 35 ≤ g.numSectors) {fs : Fs}
    (hcur : fs.currentSector = some 34) : (fs.sync g).1 = .ok := by
  have hlt : 1 < g.numSectors := by omega
  have hroot : Fs.rootAbs g = some 1 := by
    rw [Fs.rootAbs, hk]
    exact absSector_dnp_mk hk (by decide) (by decide) hlt
  rw [Fs.sync, hk]
  show (Fs.syncDnp g fs).1 = _
  rw [Fs.syncDnp]
  show (Fs.syncDnpLoop g (fs.syncBase g).1 _ 16 0 _).1 = _
  rw [syncDnpLoop_result h _ 16 0 _ _ (by decide)]
  exact syncBase_result hcur (by omega) hroot hlt

/-- What `format` leaves: it succeeds, and the map holds the bytes above. -/
theorem format_bytes {g : Geometry} (hk : g.kind = .dnp) (h : 35 ≤ g.numSectors)
    (hmax : g.numSectors ≤ 255 * 256) (name : List UInt8) {fs : Fs}
    (hw : fs.isWritable = true) :
    ∃ fs', FileSystemDNP.format g name fs = some (.ok, fs') ∧
      HasBytes (mapByte g.numSectors) fs'.bam := by
  obtain ⟨r, bam, hexec, hbytes⟩ :=
    (formatHeader_blank g name).bind (fun _ => formatBits_bytes hmax) fs.bam trivial
  have h34 : absSector g 1 34 = some 34 :=
    absSector_dnp_mk hk (by decide) (by decide) (by
      show 34 < g.numSectors
      omega)
  obtain ⟨fs₁, hfs₁⟩ : ∃ fs₁ : Fs, fs₁ = { fs with
      bam := bam
      currentSector := some 34
      sectBuffer := fun j => if j.val = 1 then 0xFF else 0
      dirty := true } := ⟨_, rfl⟩
  have hcoh : Fs.Coherent g fs₁ := by
    subst hfs₁
    refine ⟨?_, fun _ => ⟨34, rfl⟩, fun hd => nomatch hd⟩
    rintro a ⟨⟩
    omega
  have hok : (fs₁.sync g).1 = .ok := sync_format hk h (by rw [hfs₁])
  have hbam : (fs₁.sync g).2.bam.cell = bam.cell := by
    rw [(Fs.sync_spec hcoh).sameBam.cell, hfs₁]
  refine ⟨(fs₁.sync g).2, ?_, ?_⟩
  · rw [FileSystemDNP.format, if_neg (by simp [hw]), hexec, h34]
    show some (Fs.sync g _) = _
    rw [← hfs₁, ← hok]
  · intro q hq
    rw [hbam]
    exact hbytes q hq

/-- `format` succeeds, and its map is right exactly when the size of the image is a
    multiple of eight. -/
theorem format_marks_iff (g : Geometry) (hk : g.kind = .dnp) (h : 35 ≤ g.numSectors)
    (hmax : g.numSectors ≤ 255 * 256) (name : List UInt8) (fs : Fs)
    (hw : fs.isWritable = true) :
    ∃ fs', FileSystemDNP.format g name fs = some (.ok, fs') ∧
      (Marked g fs'.bam.cell ↔ 8 ∣ g.numSectors) := by
  obtain ⟨fs', hformat, hbytes⟩ := format_bytes hk h hmax name hw
  exact ⟨fs', hformat, marked_iff h hmax hbytes⟩

/-- A file system on an empty medium, before it is formatted. -/
def unformatted : Fs where
  disk := fun _ _ => 0
  sectBuffer := fun _ => 0
  currentSector := none
  dirty := false
  bam := ⟨fun _ => 0, ⟨false, false, 0, true⟩⟩
  rootValid := false
  writable := true

theorem format_marks_small : ∃ fs', FileSystemDNP.format ⟨.dnp, 256⟩ [65] unformatted
      = some (.ok, fs') ∧ (Marked ⟨.dnp, 256⟩ fs'.bam.cell ↔ 8 ∣ 256) :=
  format_marks_iff ⟨.dnp, 256⟩ rfl (by decide) (by decide) [65] unformatted rfl

/-- An image of 100 sectors ends up with sector 103 free. -/
theorem format_marks_behind_end :
    ¬ ∀ (g : Geometry) (name : List UInt8) (fs fs' : Fs), g.kind = .dnp → 35 ≤ g.numSectors →
      g.numSectors ≤ 255 * 256 → FileSystemDNP.format g name fs = some (.ok, fs') →
      Marked g fs'.bam.cell := by
  intro hall
  have hw : unformatted.isWritable = true := rfl
  obtain ⟨fs', hformat, hbytes⟩ := format_bytes (g := ⟨.dnp, 100⟩) rfl (by decide) (by decide) [65] hw
  have hmarked := hall ⟨.dnp, 100⟩ [65] unformatted fs' rfl (by decide) (by decide) hformat
  have hdvd := (marked_iff (by decide) (by decide) hbytes).mp hmarked
  exact absurd hdvd (by decide)

end CbmFormat
