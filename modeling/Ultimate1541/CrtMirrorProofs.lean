import Ultimate1541.CrtImageProofs

/-! # A chip in its window of 8K

    `read_chip_packet` repeats a chip of less than 8K over the 8K from its offset on.  It
    would round the size of the chip up first, but the loop that does so compares the number
    of bytes read with powers of two below that very number, and never rounds.  What is
    repeated is the size as it stands.  A power of two fills the window and ends with it;
    any other size is doubled past its end. -/

namespace Crt

/-- The size rounded up to a power of two, at least 256. -/
def period (size : Nat) : Nat := max 256 (2 ^ Nat.clog 2 size)

/-- The window from `off` on repeats the chip, and nothing else has changed. -/
structure Repeated (off : Nat) (data : Bytes) (before after : Nat → UInt8) : Prop where
  chip : ∀ j < 8192, j % period data.length < data.length →
    after (off + j) = data.getD (j % period data.length) 0
  periodic : ∀ j < 8192, after (off + j) = after (off + j % period data.length)
  outside : ∀ a, a < off ∨ off + 8192 ≤ a → after a = before a

/-! ## How far the doubling goes -/

/-- The doubling ends with the window exactly for the powers of two. -/
theorem doubled_eq_iff {n fuel : Nat} (hpos : 1 ≤ n) (hle : n ≤ 8192) (hfuel : 8192 ≤ n * 2 ^ fuel) :
    Ram.doubled 8192 fuel n = 8192 ↔ ∃ k, n = 2 ^ k := by
  obtain ⟨d, hd⟩ := Ram.doubled_pow 8192 fuel n
  obtain ⟨hreach, hlt⟩ := Ram.doubled_reaches hfuel
  constructor
  · intro heq
    -- A divisor of a power of two is one.
    have hdvd : n ∣ 2 ^ 13 := ⟨2 ^ d, by omega⟩
    obtain ⟨k, -, hk⟩ := (Nat.dvd_prime_pow Nat.prime_two).mp hdvd
    exact ⟨k, hk⟩
  · rintro ⟨k, rfl⟩
    by_cases hfull : 2 ^ k < 8192
    · have htop := hlt hfull
      rw [hd, ← Nat.pow_add] at hreach htop ⊢
      have hge : 13 ≤ k + d := (Nat.pow_le_pow_iff_right (by decide : 1 < 2)).mp hreach
      have hlt' : k + d < 14 := (Nat.pow_lt_pow_iff_right (by decide : 1 < 2)).mp htop
      rw [show k + d = 13 by omega]
    · rw [Ram.doubled_of_le fuel (by omega)]
      omega

/-- The bytes a piece leaves, written out. -/
theorem chipRam_at {data : Bytes} (off : Nat) (r : Ram) (hne : data ≠ []) (a : Nat) :
    (chipRam off data r).bytes a =
      if off ≤ a ∧ a < off + Ram.doubled 8192 14 data.length then data.getD ((a - off) % data.length) 0
      else r.bytes a := by
  rw [chipRam_bytes off r hne, Piece.place]
  rfl

/-- A power of two divides its period. -/
theorem dvd_period (k : Nat) : 2 ^ k ∣ period (2 ^ k) := by
  rw [period, Nat.clog_pow 2 k (by decide)]
  by_cases h : 256 ≤ 2 ^ k
  · rw [Nat.max_eq_right h]
  · have hk : k < 8 := (Nat.pow_lt_pow_iff_right (by decide : 1 < 2)).mp (by omega)
    rw [Nat.max_eq_left (by omega)]
    exact Nat.pow_dvd_pow 2 (show k ≤ 8 by omega)

/-- A chip whose size is a power of two is repeated in its window. -/
theorem chipRam_repeated {data : Bytes} {k : Nat} (hk : data.length = 2 ^ k)
    (hle : data.length ≤ 8192) (off : Nat) (r : Ram) :
    Repeated off data r.bytes (chipRam off data r).bytes := by
  have hpos : 1 ≤ data.length := by rw [hk]; exact Nat.one_le_two_pow
  have hne : data ≠ [] := List.length_pos_iff.mp hpos
  have hend : Ram.doubled 8192 14 data.length = 8192 :=
    (doubled_eq_iff hpos hle (by omega)).mpr ⟨k, hk⟩
  have hdvd : data.length ∣ period data.length := by rw [hk]; exact dvd_period k
  have hin : ∀ j < 8192, (chipRam off data r).bytes (off + j) = data.getD (j % data.length) 0 := by
    intro j hj
    rw [chipRam_at off r hne, hend, if_pos (by omega), Nat.add_sub_cancel_left]
  constructor
  · intro j hj hlt
    rw [hin j hj, ← Nat.mod_mod_of_dvd j hdvd, Nat.mod_eq_of_lt hlt]
  · intro j hj
    have hsmall : j % period data.length < 8192 := Nat.lt_of_le_of_lt (Nat.mod_le ..) hj
    rw [hin j hj, hin _ hsmall, Nat.mod_mod_of_dvd j hdvd]
  · intro a ha
    rw [chipRam_at off r hne, hend, if_neg (by omega)]

/-- A chip of another size goes on behind its window. -/
theorem chipRam_spills {data : Bytes} (hne : data ≠ []) (hle : data.length ≤ 8192)
    (hk : ¬ ∃ k, data.length = 2 ^ k) (off : Nat) (r : Ram) :
    (chipRam off data r).bytes (off + 8192) = data.getD (8192 % data.length) 0 := by
  have hpos : 1 ≤ data.length := List.length_pos_iff.mpr hne
  have hreach : 8192 ≤ Ram.doubled 8192 14 data.length := (Ram.doubled_reaches (by omega)).1
  have hend : Ram.doubled 8192 14 data.length ≠ 8192 :=
    fun h => hk ((doubled_eq_iff hpos hle (by omega)).mp h)
  rw [chipRam_at off r hne, if_pos (by omega), Nat.add_sub_cancel_left]

/-! ## The packet in the file -/

/-- The header of a ROM chip of 1 to 8192 bytes whose window is in the memory. -/
structure RomHeader (env : Machine) (s : C64Crt) (header : Bytes) : Prop where
  length : header.length = 0x10
  signature : header.take 4 = chipSignature
  load : getWord header 0x0C ≠ 0xDE00
  type : getWord header 0x08 = 0 ∨ getWord header 0x08 = 2
  size_pos : 1 ≤ getWord header 0x0E
  size_le : getWord header 0x0E ≤ 8192
  fits : Packet.offset ⟨header, []⟩ (s.seen ⟨header, []⟩).bankMultiplier + 8192 ≤ env.maxCart.toNat

/-- Where the window of a chip starts. -/
def windowOf (s : C64Crt) (header : Bytes) : Nat :=
  Packet.offset ⟨header, []⟩ (s.seen ⟨header, []⟩).bankMultiplier

/-- The chip as a whole is in the file: it is put into the memory and repeated. -/
theorem readChipPacket_rom {env : Machine} {s : C64Crt} {header : Bytes} (h : RomHeader env s header)
    {data : Bytes} (hdata : data.length = getWord header 0x0E) (rest : Bytes) :
    ∃ chunk s', readChipPacket env (header ++ (data ++ rest)) s = some (.ok, chunk, rest, s') ∧
      s'.ram = chipRam (windowOf s header) data s.ram := by
  have htake : (header ++ (data ++ rest)).take 0x10 = header := List.take_left' h.length
  have hdrop : (header ++ (data ++ rest)).drop 0x10 = data ++ rest := List.drop_left' h.length
  have hrom : ∀ d, (⟨header, d⟩ : Packet).isRom = true := fun d =>
    decide_eq_true ⟨h.load, Nat.ne_of_gt h.size_pos, h.type⟩
  have hpacket : packetAt header (data ++ rest) = ⟨header, data⟩ := by
    have hsize : (⟨header, []⟩ : Packet).size = data.length := hdata.symm
    rw [packetAt, if_pos (Or.inr (hrom [])), hsize, List.take_left]
  obtain ⟨rest', hread, hrest⟩ := readContents_eq env header (data ++ rest) s
  have hout : outcome env ⟨header, data⟩ s =
      (.ok, .cart (windowOf s header), (s.seen ⟨header, data⟩).withChip ⟨header, data⟩) := by
    have hee : ¬ (⟨header, data⟩ : Packet).isEeprom = true := by
      rw [Packet.isEeprom, decide_eq_true_eq]
      exact h.load
    have hfits := h.fits
    have hin : ¬ Packet.offset ⟨header, data⟩ (s.seen ⟨header, data⟩).bankMultiplier ≥
        env.maxCart.toNat := by
      show ¬ Packet.offset ⟨header, []⟩ (s.seen ⟨header, []⟩).bankMultiplier ≥ env.maxCart.toNat
      omega
    have hsize : ¬ data.length ≠ (⟨header, data⟩ : Packet).size := not_not_intro hdata
    rw [outcome]
    simp only [if_neg hee, if_neg hin, if_pos (hrom data), if_neg hsize]
    rfl
  rw [hpacket, hout] at hread hrest
  have hrest' : rest' = rest := by rw [hrest rfl, List.drop_left]
  refine ⟨⟨header, .cart (windowOf s header), true, false⟩,
    (s.seen ⟨header, data⟩).withChip ⟨header, data⟩, ?_, rfl⟩
  rw [readChipPacket, htake, hdrop, if_neg (not_not_intro h.length),
    if_neg (not_not_intro h.signature), hread, hrest']

/-- Whatever the chip holds and the memory held, `read_chip_packet` repeats the chip in its
    window and changes nothing else: that is so exactly when the size is a power of two. -/
theorem readChipPacket_repeats_iff (env : Machine) (s : C64Crt) (header : Bytes)
    (h : RomHeader env s header) :
    (∀ (data rest : Bytes) (ram : Ram), data.length = getWord header 0x0E →
      ∃ chunk s', readChipPacket env (header ++ (data ++ rest)) { s with ram := ram } =
          some (.ok, chunk, rest, s') ∧
        Repeated (windowOf s header) data ram.bytes s'.ram.bytes) ↔
      ∃ k, getWord header 0x0E = 2 ^ k := by
  have hread : ∀ (data rest : Bytes) (ram : Ram), data.length = getWord header 0x0E →
      ∃ chunk s', readChipPacket env (header ++ (data ++ rest)) { s with ram := ram } =
          some (.ok, chunk, rest, s') ∧
        s'.ram = chipRam (windowOf s header) data ram := fun data rest ram hdata =>
    readChipPacket_rom (s := { s with ram := ram })
      ⟨h.length, h.signature, h.load, h.type, h.size_pos, h.size_le, h.fits⟩ hdata rest
  constructor
  · intro hall
    by_contra hk
    -- A chip of ones, in a memory of zeros.
    obtain ⟨data, hdata⟩ : ∃ data : Bytes, data = List.replicate (getWord header 0x0E) 1 := ⟨_, rfl⟩
    have hlen : data.length = getWord header 0x0E := by rw [hdata, List.length_replicate]
    have hne : data ≠ [] := List.length_pos_iff.mp (by rw [hlen]; exact h.size_pos)
    obtain ⟨chunk, s', hrun, hgood⟩ := hall data [] ⟨fun _ => 0, []⟩ hlen
    obtain ⟨chunk', s'', hrun', hram⟩ := hread data [] ⟨fun _ => 0, []⟩ hlen
    cases hrun.symm.trans hrun'
    have hsame := hgood.outside (windowOf s header + 8192) (Or.inr (Nat.le_refl _))
    have hle : data.length ≤ 8192 := by rw [hlen]; exact h.size_le
    rw [hram, chipRam_spills hne hle (by rw [hlen]; exact hk)] at hsame
    have hones : ∀ i < getWord header 0x0E, data.getD i 0 = 1 := by
      intro i hi
      rw [hdata, List.getD_eq_getElem?_getD, List.getElem?_replicate_of_lt hi]
      rfl
    have hlt := Nat.mod_lt 8192 (List.length_pos_iff.mpr hne)
    rw [hones _ (by omega)] at hsame
    exact absurd hsame (show ¬ (1 : UInt8) = 0 by decide)
  · rintro ⟨k, hk⟩ data rest ram hdata
    obtain ⟨chunk, s', hrun, hram⟩ := hread data rest ram hdata
    refine ⟨chunk, s', hrun, ?_⟩
    rw [hram]
    exact chipRam_repeated (hdata.trans hk) (by rw [hdata]; exact h.size_le) _ _

/-- A header of a chip of `size` bytes at `$8000` in bank 0. -/
def chipHeader (size : Nat) : Bytes :=
  chipSignature ++ [0, 0, 0, 0, 0, 0, 0, 0, 0x80, 0, UInt8.ofNat (size / 256), UInt8.ofNat size]

/-- A cartridge memory of a megabyte. -/
def memory1M : Machine where
  maxCart := 0x100000
  ram := fun _ => 0
  capabEeprom := false
  eapi := [0x65, 0x61, 0x70, 0x69] ++ List.replicate 764 0
  eapi_length := zeroEapi_length
  eapi_signature := zeroEapi_signature
  heap := fun _ => 0

theorem chipHeader_load (size : Nat) : getWord (chipHeader size) 0x0C = 0x8000 := by
  simp [getWord, chipHeader, chipSignature]

theorem chipHeader_rom {size : Nat} (hsize : getWord (chipHeader size) 0x0E = size) (hpos : 1 ≤ size)
    (hle : size ≤ 8192) : RomHeader memory1M (initialState memory1M) (chipHeader size) where
  length := rfl
  signature := rfl
  load := by rw [chipHeader_load]; decide
  type := Or.inl (by simp [getWord, chipHeader, chipSignature])
  size_pos := by rw [hsize]; exact hpos
  size_le := by rw [hsize]; exact hle
  fits := by
    have hbank : Packet.bank ⟨chipHeader size, []⟩ = 0 := by
      simp [Packet.bank, getWord, chipHeader, chipSignature]
    have hmax : memory1M.maxCart.toNat = 0x100000 := by decide
    rw [Packet.offset, Packet.load, chipHeader_load, hbank, hmax, Nat.zero_mul]
    decide

theorem readChipPacket_repeats_4K :
    (∀ (data rest : Bytes) (ram : Ram), data.length = getWord (chipHeader 4096) 0x0E →
      ∃ chunk s', readChipPacket memory1M (chipHeader 4096 ++ (data ++ rest))
            { initialState memory1M with ram := ram } = some (.ok, chunk, rest, s') ∧
        Repeated (windowOf (initialState memory1M) (chipHeader 4096)) data ram.bytes s'.ram.bytes) ↔
      ∃ k, getWord (chipHeader 4096) 0x0E = 2 ^ k :=
  readChipPacket_repeats_iff memory1M (initialState memory1M) (chipHeader 4096)
    (chipHeader_rom (by decide) (by decide) (by decide))

/-- A chip of 300 bytes is copied to 9600 bytes. -/
theorem readChipPacket_spills_300 :
    ¬ ∀ (env : Machine) (s : C64Crt) (header data rest : Bytes), RomHeader env s header →
      data.length = getWord header 0x0E →
      ∃ chunk s', readChipPacket env (header ++ (data ++ rest)) s = some (.ok, chunk, rest, s') ∧
        Repeated (windowOf s header) data s.ram.bytes s'.ram.bytes := by
  intro hall
  have hheader : RomHeader memory1M (initialState memory1M) (chipHeader 300) :=
    chipHeader_rom (by decide) (by decide) (by decide)
  obtain ⟨data, hdata⟩ : ∃ data : Bytes, data = List.replicate 300 1 := ⟨_, rfl⟩
  have hlen : data.length = 300 := by rw [hdata, List.length_replicate]
  have hsize : data.length = getWord (chipHeader 300) 0x0E := hlen
  obtain ⟨chunk, s', hrun, hgood⟩ := hall memory1M _ _ data [] hheader hsize
  obtain ⟨chunk', s'', hrun', hram⟩ := readChipPacket_rom hheader hsize []
  cases hrun.symm.trans hrun'
  have hk : ¬ ∃ k, data.length = 2 ^ k := by
    rintro ⟨k, hk⟩
    rw [hlen] at hk
    have hlt : k < 9 := (Nat.pow_lt_pow_iff_right (by decide : 1 < 2)).mp (by omega)
    have hnone : ∀ k < 9, 300 ≠ 2 ^ k := by decide
    exact hnone k hlt hk
  have hne : data ≠ [] := List.length_pos_iff.mp (by omega)
  have hsame := hgood.outside _ (Or.inr (Nat.le_refl _))
  rw [hram, chipRam_spills hne (by omega) hk, hlen, hdata] at hsame
  exact absurd hsame (by decide)

end Crt
