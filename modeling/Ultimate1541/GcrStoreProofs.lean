import Ultimate1541.BinImageProofs

/-! # Where decoded bytes are stored

    The header of a sector that the track does not have is rejected, but only if
    there is room to say so in the status bytes: one byte more than the sector
    number takes, and two more when data is expected.  While this room is there,
    all bytes go to the sectors of the track (`mem_outside_of_roomy`). -/

namespace GcrDecode

open Relation

/-- If the next block is the header of a sector the track does not have, there is
    room to reject it. -/
def Roomy (d : Decoder) (t : Track) (r : Request) (s : Scan) : Prop :=
  ∀ q ∈ t.findSync s.current, t.mark d q = 8 → r.maxSector ≤ t.headerSector d q →
    (if s.expectData then 2 else 1) < s.statlen

instance (d : Decoder) (t : Track) (r : Request) (s : Scan) : Decidable (Roomy d t r s) :=
  inferInstanceAs (Decidable (∀ q ∈ t.findSync s.current, _))

/-- A round from a state with this room. -/
def RoomyNext (d : Decoder) (t : Track) (r : Request) (s s' : Scan) : Prop :=
  Roomy d t r s ∧ Loop.Next (step d t r) s s'

/-- An address outside of the sectors of the track. -/
def Outside (r : Request) (a : Nat) : Prop := a < r.bin ∨ r.bin + 256 * r.maxSector ≤ a

/-- Data is expected for a sector of the track only. -/
def Aimed (r : Request) (s : Scan) : Prop :=
  s.expectData = true → ∃ n, n < r.maxSector ∧ s.dest = r.bin + 256 * n

theorem store_outside {mem : Nat → UInt8} {b : Nat → UInt8} {r : Request} {n a : Nat}
    (hn : n < r.maxSector) (ha : Outside r a) :
    Scan.store mem (r.bin + 256 * n) b a = mem a := by
  rw [Scan.store, if_neg]
  rintro ⟨hle, hlt⟩
  rcases ha with h | h <;> omega

/-- A header stores nothing but status bytes. -/
theorem header_mem (r : Request) (t n pntr : Nat) (s : Scan) :
    (s.header r t n pntr).mem = s.mem := by
  by_cases h : (t = r.trackNumber ∧ n < r.maxSector) ∨ (s.noted n).statlen = 0
  · rw [Scan.header_accepted h]
    exact Scan.noted_mem n s
  · rw [not_or] at h
    rw [Scan.header_rejected h.1 (by omega)]
    exact (Scan.put_mem _ _).trans (Scan.noted_mem n s)

/-- A header with room for its rejection leaves the scan aimed at the track. -/
theorem header_aimed {r : Request} {t n pntr : Nat} {s : Scan}
    (hroom : r.maxSector ≤ n → (if s.expectData then 2 else 1) < s.statlen) :
    Aimed r (s.header r t n pntr) := by
  intro hexp
  have hnoted := s.noted_statlen n
  by_cases h : (t = r.trackNumber ∧ n < r.maxSector) ∨ (s.noted n).statlen = 0
  · rw [Scan.header_accepted h]
    refine ⟨n, ?_, rfl⟩
    by_contra hn
    have := hroom (by omega)
    rcases h with h | h <;> omega
  · rw [not_or] at h
    rw [Scan.header_rejected h.1 (by omega)] at hexp
    exact absurd hexp Bool.false_ne_true

/-- One round stores inside, and leaves the scan aimed at the track. -/
theorem step_inside {d : Decoder} {t : Track} {r : Request} {s s' : Scan}
    (hnext : RoomyNext d t r s s') (haimed : Aimed r s) :
    Aimed r s' ∧ ∀ a, Outside r a → s'.mem a = s.mem a := by
  obtain ⟨hroomy, hstep⟩ := hnext
  obtain ⟨_, q, hq, _, rfl⟩ := step_eq_some.mp hstep
  by_cases h8 : t.mark d q = 8
  · rw [Scan.block_header h8]
    refine ⟨header_aimed (hroomy q hq h8), fun a _ => ?_⟩
    rw [header_mem]
    rfl
  · by_cases hdata : t.mark d q = 7 ∧ (s.found q).expectData = true
    · rw [Scan.block_data hdata.1 hdata.2]
      obtain ⟨n, hn, hdest⟩ := haimed hdata.2
      refine ⟨fun h => absurd ((Scan.dataBlock_expectData _ _ _).symm.trans h) Bool.false_ne_true,
        fun a ha => ?_⟩
      rw [Scan.dataBlock_mem, show (s.found q).dest = r.bin + 256 * n from hdest]
      exact store_outside hn ha
    · rw [Scan.block_other h8 hdata]
      exact ⟨haimed, fun a _ => rfl⟩

/-- A run whose rounds all have this room stores inside. -/
theorem run_inside {d : Decoder} {t : Track} {r : Request} {s s' : Scan}
    (hrun : ReflTransGen (RoomyNext d t r) s s') (haimed : Aimed r s) :
    Aimed r s' ∧ ∀ a, Outside r a → s'.mem a = s.mem a := by
  induction hrun with
  | refl => exact ⟨haimed, fun a _ => rfl⟩
  | tail _ hnext ih =>
      obtain ⟨haimed', hmem⟩ := step_inside hnext ih.1
      exact ⟨haimed', fun a ha => (hmem a ha).trans (ih.2 a ha)⟩

/-- A track of `k` headers of track 1 that start with the five bytes given, and a
    data block that starts with three bytes 1. -/
def headersThenData (k : Nat) (header : List UInt8) : Track where
  byte i :=
    if i < 12 * k then ([0xFF, 0xFF] ++ header).getD (i % 12) 0x55
    else [0xFF, 0xFF, 0x55, 0xD4, 0xB5, 0x2D, 0x4B].getD (i - 12 * k) 0x55
  len := 12 * k + 327

/-- The first bytes of a header of sector 0 and of one of sector 255. -/
def header0 : List UInt8 := [0x52, 0x54, 0xA5, 0x29, 0x4B]
def header255 : List UInt8 := [0x52, 0x54, 0xAA, 0xD5, 0x4B]

/-- The scan of a header of sector 0, and of the data block behind it. -/
def scan0 : Nat → Scan
  | 0 => Scan.start (fun _ => 0) 64
  | n + 1 => (step .gcr2bin (headersThenData 1 header0) ⟨1, 21, 0⟩ (scan0 n)).getD (scan0 n)

end GcrDecode
