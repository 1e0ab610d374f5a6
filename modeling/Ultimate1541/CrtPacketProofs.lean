import Ultimate1541.C64CrtProofs

/-! # The packets of a cartridge image

    What the loader does with a file depends on the packets of the file alone.  Here a file is
    cut into its packets first, without regard to what they mean, and what a packet does to
    the variables is a function; the loop of the loader is then a recursion over the packets. -/

namespace Crt

/-- A packet: its header, and the contents behind it; they may be cut short by the end of the
    file. -/
structure Packet where
  header : Bytes
  data : Bytes

namespace Packet

def type (p : Packet) : Nat := getWord p.header 0x08
def bank (p : Packet) : Nat := getWord p.header 0x0A
def load (p : Packet) : Nat := getWord p.header 0x0C
def size (p : Packet) : Nat := getWord p.header 0x0E

/-- The contents go to the EEPROM. -/
def isEeprom (p : Packet) : Bool := p.load = 0xDE00

/-- The contents go to the cartridge memory, if there is room. -/
def isRom (p : Packet) : Bool := p.load ≠ 0xDE00 ∧ p.size ≠ 0 ∧ (p.type = 0 ∨ p.type = 2)

/-- From here on the banks have 32K. -/
def isC128 (p : Packet) : Bool := p.load = 0xC000 ∨ p.size = 0x8000

/-- The offset of a chip. -/
def offset (p : Packet) (bankMultiplier : Nat) : Nat := p.bank * bankMultiplier + (p.load &&& 0x2000)

end Packet

/-- The packet with this header, in front of `rest`. -/
def packetAt (header rest : Bytes) : Packet :=
  let p : Packet := ⟨header, []⟩
  ⟨header, if p.isEeprom ∨ p.isRom then rest.take p.size else []⟩

/-- The packets of a file, up to the first place where there is none. -/
def packets : Nat → Bytes → List Packet
  | 0, _ => []
  | fuel + 1, file =>
      if (file.take 0x10).length ≠ 0x10 ∨ (file.take 0x10).take 4 ≠ chipSignature then []
      else
        let p := packetAt (file.take 0x10) (file.drop 0x10)
        p :: packets fuel ((file.drop 0x10).drop p.data.length)

/-- The memory after a chip has been loaded and repeated to 8K. -/
def chipRam (offset : Nat) (data : Bytes) (r : Ram) : Ram :=
  ((r.put offset data).mirror offset 1 8192 14 data.length).getD r

namespace C64Crt

/-- The variables after the header of a packet. -/
def seen (s : C64Crt) (p : Packet) : C64Crt :=
  { s with
    bankMultiplier := if p.isC128 then 32 * 1024 else s.bankMultiplier
    a000Seen := s.a000Seen || p.load = 0xA000 }

/-- The variables after the contents of an EEPROM. -/
def withEeprom (s : C64Crt) (env : Machine) (p : Packet) : C64Crt :=
  { s with
    eepromBuffer := some (p.data ++ (List.range (p.size - p.data.length)).map env.heap)
    eepromStores := s.eepromStores ++ [(p.size, p.data.length)] }

/-- The variables after a chip. -/
def withChip (s : C64Crt) (p : Packet) : C64Crt :=
  { s with
    ram := chipRam (p.offset s.bankMultiplier) p.data s.ram
    totalRead := s.totalRead + p.data.length
    highestBank := if p.bank > s.highestBank then p.bank % 256 else s.highestBank }

/-- The variables after the chunk of a packet has been appended. -/
def withChunk (s : C64Crt) (p : Packet) (location : Location) : C64Crt :=
  { s with chipChunks := s.chipChunks ++ [⟨p.header, location, true, false⟩] }

end C64Crt

/-- What a packet does: the result, where its chunk is, and the variables. -/
def outcome (env : Machine) (p : Packet) (s : C64Crt) : Result × Location × C64Crt :=
  let s := s.seen p
  if p.isEeprom then
    if p.size > 0x800 then (.eepromTooLarge, .eeprom, s)
    else if s.eepromBuffer.isSome then (.eepromAlreadyDefined, .eeprom, s)
    else (.ok, .eeprom, s.withEeprom env p)
  else if p.offset s.bankMultiplier ≥ env.maxCart.toNat then (.romImageTooLarge, .null, s)
  else if p.isRom then
    if p.data.length ≠ p.size then
      (.fileReadFailed, .cart (p.offset s.bankMultiplier),
        { s with ram := s.ram.put (p.offset s.bankMultiplier) p.data, totalRead := s.totalRead + p.data.length })
    else (.ok, .cart (p.offset s.bankMultiplier), s.withChip p)
  else (.ok, .null, s)

/-- The loop of `read_crt`, over packets. -/
def loadPackets (env : Machine) : List Packet → C64Crt → Result × C64Crt
  | [], s => (.ok, s)
  | p :: rest, s =>
      match outcome env p s with
      | (.ok, location, s) => loadPackets env rest (s.withChunk p location)
      | (result, _, s) => (result, s)

/-! ## The loop of the loader is that over the packets -/

theorem roundUp_self (size fuel i : Nat) : roundUp size fuel i size = size := by
  induction fuel generalizing i with
  | zero => rfl
  | succ fuel ih =>
      rw [roundUp]
      split
      · rw [if_neg (by omega), ih]
      · rfl

theorem chipRam_eq (offset : Nat) {data : Bytes} (r : Ram) (h : data ≠ []) :
    (r.put offset data).mirror offset 1 8192 14 data.length = some (chipRam offset data r) := by
  have hpos : 0 < data.length := List.length_pos_iff.mpr h
  have hfuel : 8192 ≤ data.length * 2 ^ 13 := by omega
  obtain ⟨r', hr'⟩ := @Ram.mirror_some offset 1 _ _ _ (r.put offset data) hfuel
  rw [chipRam, hr', Option.getD_some]

/-- A chip that is in the file as a whole is put into the memory, and repeated when it is small. -/
theorem readRom_eq {p : Packet} {file : Bytes} {s : C64Crt} (hsize : p.size ≠ 0)
    (hdata : p.data = file.take p.size) :
    readRom (p.offset s.bankMultiplier) p.bank p.size file s =
      if p.data.length ≠ p.size then
        some (.fileReadFailed, file.drop p.size,
          { s with ram := s.ram.put (p.offset s.bankMultiplier) p.data, totalRead := s.totalRead + p.data.length })
      else some (.ok, file.drop p.size, s.withChip p) := by
  rw [readRom, ← hdata]
  by_cases hlen : p.data.length = p.size
  · simp only [hlen, ne_eq, not_true_eq_false, if_false]
    have hne : p.data ≠ [] := fun h => hsize (by rw [← hlen, h]; rfl)
    have hram := chipRam_eq (p.offset s.bankMultiplier) s.ram hne
    split
    next hsmall =>
      rw [roundUp_self, ← hlen, hram]
      simp only [C64Crt.withChip]
    next hbig =>
      rw [Ram.mirror, if_neg (by rw [hlen]; exact hbig)] at hram
      simp only [C64Crt.withChip, ← Option.some.inj hram, hlen]
  · simp only [ne_eq, hlen, not_false_eq_true, if_true]

theorem drop_length_take (file : Bytes) (n : Nat) : file.drop (file.take n).length = file.drop n := by
  rw [List.length_take]
  by_cases h : n ≤ file.length
  · rw [Nat.min_eq_left h]
  · rw [Nat.min_eq_right (by omega), List.drop_length, List.drop_eq_nil_of_le (by omega)]

/-- The two looks of `read_chip_packet` at the header, before the contents. -/
theorem seen_eq (p : Packet) (s : C64Crt) :
    (if p.load = 0xA000 then
        { (if p.load = 0xC000 ∨ p.size = 0x8000 then { s with bankMultiplier := 32 * 1024 } else s) with
          a000Seen := true }
      else if p.load = 0xC000 ∨ p.size = 0x8000 then { s with bankMultiplier := 32 * 1024 } else s) =
      s.seen p := by
  by_cases ha : p.load = 0xA000
  · by_cases hc : p.load = 0xC000 ∨ p.size = 0x8000
    · simp only [if_pos ha, if_pos hc, C64Crt.seen, Packet.isC128, decide_eq_true ha, decide_eq_true hc,
        Bool.or_true, if_true]
    · simp only [if_pos ha, if_neg hc, C64Crt.seen, Packet.isC128, decide_eq_true ha, decide_eq_false hc,
        Bool.or_true, Bool.false_eq_true, if_false]
  · by_cases hc : p.load = 0xC000 ∨ p.size = 0x8000
    · simp only [if_neg ha, if_pos hc, C64Crt.seen, Packet.isC128, decide_eq_false ha, decide_eq_true hc,
        Bool.or_false, if_true]
    · simp only [if_neg ha, if_neg hc, C64Crt.seen, Packet.isC128, decide_eq_false ha, decide_eq_false hc,
        Bool.or_false, Bool.false_eq_true, if_false]

theorem seen_eeprom {p : Packet} (s : C64Crt) (h : p.load = 0xDE00) :
    (if p.load = 0xC000 ∨ p.size = 0x8000 then { s with bankMultiplier := 32 * 1024 } else s) = s.seen p := by
  have ha : ¬ p.load = 0xA000 := by
    rw [h]
    decide
  rw [← seen_eq, if_neg ha]

/-- `read_chip_packet` does to a packet what the packet does. -/
theorem readContents_eq (env : Machine) (header rest : Bytes) (s : C64Crt) :
    ∃ rest', readContents env header rest s =
        some ((outcome env (packetAt header rest) s).1,
          ⟨header, (outcome env (packetAt header rest) s).2.1, true, false⟩, rest',
          (outcome env (packetAt header rest) s).2.2) ∧
      ((outcome env (packetAt header rest) s).1 = .ok →
        rest' = rest.drop (packetAt header rest).data.length) := by
  generalize hp : packetAt header rest = p
  have hbank : getWord header 0x0A = p.bank := by rw [← hp]; rfl
  have hload : getWord header 0x0C = p.load := by rw [← hp]; rfl
  have hsize : getWord header 0x0E = p.size := by rw [← hp]; rfl
  have htype : getWord header 0x08 = p.type := by rw [← hp]; rfl
  have hdata : p.data = if p.isEeprom ∨ p.isRom then rest.take p.size else [] := by rw [← hp]; rfl
  simp only [readContents, hbank, hload, hsize, htype, outcome]
  by_cases heeprom : p.load = 0xDE00
  · have hee : p.isEeprom = true := decide_eq_true heeprom
    rw [if_pos (Or.inl hee)] at hdata
    simp only [if_pos heeprom, if_pos hee, seen_eeprom s heeprom, readEeprom, ← hdata]
    by_cases hlarge : p.size > 0x800
    · simp only [if_pos hlarge]
      exact ⟨rest, rfl, nofun⟩
    · by_cases hsome : (s.seen p).eepromBuffer.isSome
      · simp only [if_neg hlarge, if_pos hsome]
        exact ⟨rest, rfl, nofun⟩
      · simp only [if_neg hlarge, if_neg hsome]
        exact ⟨rest.drop p.size, rfl, fun _ => by rw [hdata, drop_length_take]⟩
  · have hee : ¬ p.isEeprom = true := by rw [Packet.isEeprom, decide_eq_true_eq]; exact heeprom
    simp only [if_neg heeprom, if_neg hee, seen_eq]
    by_cases hlarge : p.offset (s.seen p).bankMultiplier ≥ env.maxCart.toNat
    · rw [if_pos hlarge]
      exact ⟨rest, if_pos hlarge, nofun⟩
    · have hlarge' : ¬ p.bank * (s.seen p).bankMultiplier + (p.load &&& 0x2000) ≥ env.maxCart.toNat := hlarge
      rw [if_neg hlarge, if_neg hlarge']
      by_cases hrom : p.size ≠ 0 ∧ (p.type = 0 ∨ p.type = 2)
      · have hr : p.isRom = true := decide_eq_true ⟨heeprom, hrom⟩
        rw [if_pos (Or.inr hr)] at hdata
        have hread := readRom_eq (s := s.seen p) hrom.1 hdata
        rw [if_pos hrom, if_pos hr]
        by_cases hlen : p.data.length ≠ p.size
        · rw [if_pos hlen] at hread ⊢
          exact ⟨rest.drop p.size, congrArg (Option.map _) hread, nofun⟩
        · rw [if_neg hlen] at hread ⊢
          exact ⟨rest.drop p.size, congrArg (Option.map _) hread, fun _ => by rw [hdata, drop_length_take]⟩
      · have hr : ¬ p.isRom = true := by
          rw [Packet.isRom, decide_eq_true_eq]
          exact fun h => hrom h.2
        rw [if_neg hrom, if_neg hr]
        refine ⟨rest, rfl, fun _ => ?_⟩
        rw [hdata, if_neg (fun h => h.elim hee hr), List.length_nil, List.drop_zero]

/-- The loop of the loader is that over the packets, but for a file whose first packet is none. -/
theorem packetLoop_eq (env : Machine) {fuel : Nat} {file : Bytes} (s : C64Crt) (hfuel : file.length < fuel) :
    packetLoop env fuel file s =
      some (if packets fuel file = [] ∧ 0x10 ≤ file.length ∧ s.chipChunks = [] then (.errorInFileFormat, s)
        else loadPackets env (packets fuel file) s) := by
  induction fuel generalizing file s with
  | zero => exact absurd hfuel (Nat.not_lt_zero _)
  | succ fuel ih =>
      rw [packetLoop, readChipPacket, packets]
      by_cases hshort : (file.take 0x10).length ≠ 0x10
      · have hlen : ¬ 0x10 ≤ file.length := by
          rw [List.length_take] at hshort
          omega
        rw [if_pos hshort, if_pos (Or.inl hshort), if_neg (fun h => hlen h.2.1)]
        rfl
      · have hlen : 0x10 ≤ file.length := by
          rw [List.length_take] at hshort
          omega
        rw [if_neg hshort]
        by_cases hchip : (file.take 0x10).take 4 ≠ chipSignature
        · rw [if_pos hchip, if_pos (Or.inr hchip)]
          by_cases hchunks : s.chipChunks = []
          · rw [if_neg (not_not_intro hchunks), if_pos ⟨rfl, hlen, hchunks⟩]
          · rw [if_pos hchunks, if_neg (fun h => hchunks h.2.2)]
            rfl
        · have hpacket : ¬ ((file.take 0x10).length ≠ 0x10 ∨ (file.take 0x10).take 4 ≠ chipSignature) :=
            fun h => h.elim hshort hchip
          rw [if_neg hchip, if_neg hpacket]
          obtain ⟨rest', hread, hrest⟩ := readContents_eq env (file.take 0x10) (file.drop 0x10) s
          rw [hread, if_neg (fun h => List.cons_ne_nil _ _ h.1), loadPackets]
          rcases hout : outcome env (packetAt (file.take 0x10) (file.drop 0x10)) s with ⟨result, location, s'⟩
          rw [hout] at hrest
          cases result with
          | ok =>
              -- The chunk is kept, so that what follows need not be a packet.
              rw [← hrest rfl]
              have hfuel' : rest'.length < fuel := by
                rw [hrest rfl, List.length_drop, List.length_drop]
                omega
              refine (ih _ hfuel').trans ?_
              rw [if_neg (fun h => by simpa using h.2.2)]
              rfl
          | fileReadFailed => rfl
          | errorInFileFormat => rfl
          | notImplemented => rfl
          | eepromTooLarge => rfl
          | eepromAlreadyDefined => rfl
          | romImageTooLarge => rfl

end Crt
