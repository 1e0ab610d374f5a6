import Ultimate1541.CrtStoreProofs

/-! # The memory that a cartridge image leaves

    A chip covers a part of the memory: its contents, and their repetitions when it is small.
    What is in the memory after some chips comes at each address from the last one that covers
    it (`image_last`), and so it is for the packets of a file (`packetLoop_image`). -/

namespace Crt

/-- The contents of a chip, and where they go. -/
structure Piece where
  offset : Nat
  data : Bytes

namespace Piece

/-- The bytes that the contents take, repeated to 8K. -/
def extent (p : Piece) : Nat := Ram.doubled 8192 14 p.data.length

def Covers (p : Piece) (a : Nat) : Prop := p.offset ≤ a ∧ a < p.offset + p.extent

instance (p : Piece) (a : Nat) : Decidable (p.Covers a) :=
  inferInstanceAs (Decidable (p.offset ≤ a ∧ a < p.offset + p.extent))

/-- The memory after a piece. -/
def place (p : Piece) (m : Nat → UInt8) (a : Nat) : UInt8 :=
  if p.Covers a then p.data.getD ((a - p.offset) % p.data.length) 0 else m a

end Piece

/-- The memory after some pieces. -/
def image : List Piece → (Nat → UInt8) → Nat → UInt8
  | [], m => m
  | p :: rest, m => image rest (p.place m)

theorem image_append (ps qs : List Piece) (m : Nat → UInt8) : image (ps ++ qs) m = image qs (image ps m) := by
  induction ps generalizing m with
  | nil => rfl
  | cons p rest ih => exact ih _

/-- What is at an address: the byte of the last piece that covers it, or what was there. -/
inductive LastAt (m : Nat → UInt8) (ps : List Piece) (a : Nat) (byte : UInt8) : Prop where
  | untouched (none : ∀ p ∈ ps, ¬ p.Covers a) (same : byte = m a)
  | covered (before after : List Piece) (p : Piece) (split : ps = before ++ p :: after) (covers : p.Covers a)
      (last : ∀ q ∈ after, ¬ q.Covers a) (value : byte = p.data.getD ((a - p.offset) % p.data.length) 0)

theorem image_last (ps : List Piece) (m : Nat → UInt8) (a : Nat) : LastAt m ps a (image ps m a) := by
  induction ps generalizing m with
  | nil => exact .untouched nofun rfl
  | cons p rest ih =>
      cases ih (p.place m) with
      | untouched hnone hsame =>
          -- Nothing behind the first piece covers the address.
          by_cases hp : p.Covers a
          · refine .covered [] rest p rfl hp hnone ?_
            rw [image, hsame, Piece.place, if_pos hp]
          · refine .untouched (List.forall_mem_cons.mpr ⟨hp, hnone⟩) ?_
            rw [image, hsame, Piece.place, if_neg hp]
      | covered before after q hsplit hcovers hlast hvalue =>
          exact .covered (p :: before) after q (congrArg (p :: ·) hsplit) hcovers hlast hvalue

/-- Chips as pieces. -/
def pieces (chips : List (Nat × Packet)) : List Piece := chips.map fun c => ⟨c.1, c.2.data⟩

theorem chipRam_bytes (offset : Nat) {data : Bytes} (r : Ram) (h : data ≠ []) :
    (chipRam offset data r).bytes = (Piece.mk offset data).place r.bytes := by
  funext a
  have hlt := Nat.mod_lt (a - offset) (List.length_pos_iff.mpr h)
  have hle := Ram.le_doubled 8192 14 data.length
  rw [Ram.mirror_bytes (chipRam_eq offset r h), Nat.mul_one, Nat.mul_one, Piece.place]
  by_cases hin : offset ≤ a ∧ a < offset + Ram.doubled 8192 14 data.length
  · have hcovers : (Piece.mk offset data).Covers a := hin
    rw [if_pos hin, if_pos hcovers, Ram.put]
    simp only
    rw [if_pos (by omega), Nat.add_sub_cancel_left]
  · have hcovers : ¬ (Piece.mk offset data).Covers a := hin
    rw [if_neg hin, if_neg hcovers, Ram.put]
    simp only
    rw [if_neg (by omega)]

/-- The chunks of packets, for the multiplier of the banks before them. -/
def chunksOf : Nat → List Packet → List Chunk
  | _, [] => []
  | mult, p :: rest =>
      let mult := if p.isC128 then 32 * 1024 else mult
      let location := if p.isEeprom then .eeprom else if p.isRom then .cart (p.offset mult) else .null
      ⟨p.header, location, true, false⟩ :: chunksOf mult rest

/-- The EEPROM contents after some packets. -/
def eepromOf (env : Machine) : Option Bytes → List Packet → Option Bytes
  | buffer, [] => buffer
  | buffer, p :: rest =>
      eepromOf env (if p.isEeprom then some (p.data ++ (List.range (p.size - p.data.length)).map env.heap)
        else buffer) rest

/-- The variables after packets that are all accepted. -/
structure Accepted (env : Machine) (s : C64Crt) (ps : List Packet) (chips : List (Nat × Packet)) (s' : C64Crt) :
    Prop where
  ram : s'.ram.bytes = image (pieces chips) s.ram.bytes
  chunks : s'.chipChunks = s.chipChunks ++ chunksOf s.bankMultiplier ps
  eeprom : s'.eepromBuffer = eepromOf env s.eepromBuffer ps

/-- A packet in front of others. -/
theorem Accepted.cons {env : Machine} {s s₁ s' : C64Crt} {p : Packet} {rest : List Packet}
    {chips : List (Nat × Packet)} {location : Location} (c : List (Nat × Packet))
    (h : Accepted env (s₁.withChunk p location) rest chips s')
    (hlocation : location = if p.isEeprom then .eeprom else if p.isRom then
      .cart (p.offset (s.seen p).bankMultiplier) else .null)
    (hram : s₁.ram.bytes = image (pieces c) s.ram.bytes)
    (heeprom : s₁.eepromBuffer = if p.isEeprom then
      some (p.data ++ (List.range (p.size - p.data.length)).map env.heap) else s.eepromBuffer)
    (hmult : s₁.bankMultiplier = (s.seen p).bankMultiplier) (hchunks : s₁.chipChunks = s.chipChunks) :
    Accepted env s (p :: rest) (c ++ chips) s' where
  ram := by
    have happend : pieces (c ++ chips) = pieces c ++ pieces chips := List.map_append
    rw [h.ram, happend, image_append]
    exact congrArg (image (pieces chips)) hram
  chunks := by
    have hmult' : (s₁.withChunk p location).bankMultiplier = (s.seen p).bankMultiplier := hmult
    rw [h.chunks, hmult', C64Crt.withChunk, hchunks, List.append_assoc, hlocation]
    rfl
  eeprom := by
    have hbuffer : (s₁.withChunk p location).eepromBuffer = s₁.eepromBuffer := rfl
    rw [h.eeprom, hbuffer, heeprom, eepromOf]

/-- What the loop over the packets does when none of them is refused. -/
theorem loadPackets_accepted (env : Machine) (ps : List Packet) (s : C64Crt)
    (hcomplete : (layout env.maxCart.toNat s.bankMultiplier s.eepromBuffer.isSome ps).complete = true) :
    Accepted env s ps (layout env.maxCart.toNat s.bankMultiplier s.eepromBuffer.isSome ps).chips
      (loadPackets env ps s).2 := by
  induction ps generalizing s with
  | nil =>
      exact ⟨rfl, (List.append_nil _).symm, rfl⟩
  | cons p rest ih =>
      have hmult : (if p.isC128 then 32 * 1024 else s.bankMultiplier) = (s.seen p).bankMultiplier := rfl
      simp only [loadPackets, layout, outcome, hmult] at hcomplete ⊢
      by_cases heeprom : p.isEeprom = true
      · simp only [if_pos heeprom] at hcomplete ⊢
        by_cases hlarge : p.size > 0x800
        · rw [if_pos (.inl hlarge)] at hcomplete
          cases hcomplete
        · by_cases hbuffer : s.eepromBuffer.isSome = true
          · rw [if_pos (.inr hbuffer)] at hcomplete
            cases hcomplete
          · have hbuffer' : ¬ (s.seen p).eepromBuffer.isSome = true := hbuffer
            rw [if_neg (fun h => h.elim hlarge hbuffer)] at hcomplete ⊢
            rw [if_neg hlarge, if_neg hbuffer']
            exact Accepted.cons [] (ih (((s.seen p).withEeprom env p).withChunk p .eeprom) hcomplete)
              (if_pos heeprom).symm rfl (if_pos heeprom).symm rfl rfl
      · simp only [if_neg heeprom] at hcomplete ⊢
        by_cases hlarge : p.offset (s.seen p).bankMultiplier ≥ env.maxCart.toNat
        · rw [if_pos hlarge] at hcomplete
          cases hcomplete
        · rw [if_neg hlarge] at hcomplete ⊢
          rw [if_neg hlarge]
          by_cases hrom : p.isRom = true
          · simp only [if_pos hrom] at hcomplete ⊢
            by_cases hlen : p.data.length ≠ p.size
            · rw [if_pos hlen] at hcomplete
              cases hcomplete
            · simp only [if_neg hlen] at hcomplete ⊢
              have hne : p.data ≠ [] := by
                intro h
                refine (of_decide_eq_true hrom).2.1 ?_
                rw [← Decidable.not_not.mp hlen, h]
                rfl
              refine Accepted.cons [(p.offset (s.seen p).bankMultiplier, p)]
                (ih (((s.seen p).withChip p).withChunk p (.cart (p.offset (s.seen p).bankMultiplier))) hcomplete)
                ((if_neg heeprom).trans (if_pos hrom)).symm ?_ (if_neg heeprom).symm rfl rfl
              exact chipRam_bytes _ s.ram hne
          · simp only [if_neg hrom] at hcomplete ⊢
            exact Accepted.cons [] (ih ((s.seen p).withChunk p .null) hcomplete)
              ((if_neg heeprom).trans (if_neg hrom)).symm rfl (if_neg heeprom).symm rfl rfl

/-- **WHAT A CARTRIDGE IMAGE LEAVES**: the loop over the packets of a file ends, and well if and
    only if no packet is refused and the first one is a packet.  Each address of the memory then
    has the byte of the last chip that covers it, small chips repeated, or what it had; and every
    packet has its chunk. -/
theorem packetLoop_image (env : Machine) (s : C64Crt) (file : Bytes) :
    let ps := packets (file.length + 1) file
    let l := layout env.maxCart.toNat s.bankMultiplier s.eepromBuffer.isSome ps
    ∃ result s', packetLoop env (file.length + 1) file s = some (result, s') ∧
      (result = .ok ↔ l.complete = true ∧ (ps ≠ [] ∨ file.length < 0x10 ∨ s.chipChunks ≠ [])) ∧
      (result = .ok → (∀ a, LastAt s.ram.bytes (pieces l.chips) a (s'.ram.bytes a)) ∧
        s'.chipChunks = s.chipChunks ++ chunksOf s.bankMultiplier ps ∧
        s'.eepromBuffer = eepromOf env s.eepromBuffer ps) := by
  intro ps l
  have hloaded : Loaded env s l (loadPackets env ps s) := loadPackets_loaded env ps s packets_data
  have haccepted : l.complete = true → Accepted env s ps l.chips (loadPackets env ps s).2 :=
    loadPackets_accepted env ps s
  rw [packetLoop_eq env s (Nat.lt_succ_self _)]
  split
  next hnone =>
    refine ⟨_, _, rfl, iff_of_false nofun ?_, nofun⟩
    rintro ⟨-, hne | hshort | hchunks⟩
    · exact hne hnone.1
    · omega
    · exact hchunks hnone.2.2
  next hstart =>
    refine ⟨_, _, rfl, ⟨fun hok => ⟨hloaded.complete.mp hok, ?_⟩, fun h => hloaded.complete.mpr h.1⟩, fun hok => ?_⟩
    · simpa only [not_and_or, Nat.not_le] using hstart
    · have h := haccepted (hloaded.complete.mp hok)
      exact ⟨fun a => h.ram ▸ image_last _ _ a, h.chunks, h.eeprom⟩

end Crt
