import Ultimate1541.HttpTargetProofs

/-! # What a body query delivers

    A value is expressed into a file of blocks of 896 bytes, and read from there in parts of
    895. A part ends with a block, and one that is short is the last: the reply has the first
    block of the encoding, and nothing of the others. -/

namespace HttpTarget

mutual

/-- The encoding of a value. -/
def encode : Json → List UInt8
  | .int v => [0x01, intByte v 0, intByte v 1, intByte v 2, intByte v 3]
  | .bool b => [0x02, if b then 1 else 0]
  | .str t => 0x03 :: countByte t.bytes.length :: t.bytes
  | .obj members => 0x04 :: countByte members.length :: encodeMembers members
  | .list members => 0x05 :: countByte members.length :: encodeList members

def encodeMembers : List (CString × Json) → List UInt8
  | [] => []
  | (key, value) :: members => countByte key.bytes.length :: key.bytes ++ (encode value ++ encodeMembers members)

def encodeList : List Json → List UInt8
  | [] => []
  | value :: members => encode value ++ encodeList members

end

/-! ## Writing -/

/-- A file that has these bytes, and that was not read yet. -/
structure Filled (s : StreamRamFile) (data : List UInt8) : Prop where
  size : s.blocksize = maxReplyLen
  bytes : s.blocks.flatten ++ s.writeBlock = data
  full : ∀ b ∈ s.blocks, b.length = maxReplyLen
  fits : s.writeBlock.length ≤ maxReplyLen
  unread : s.readBlock = none ∧ s.readIndex = 0

theorem filled_empty : Filled (.empty maxReplyLen) [] :=
  ⟨rfl, rfl, nofun, Nat.zero_le _, rfl, rfl⟩

variable {s : StreamRamFile} {data : List UInt8}

/-- A full block is put to the others. -/
theorem full_snoc (h : Filled s data) (hfull : s.writeBlock.length ≥ s.blocksize) :
    ∀ b ∈ s.blocks ++ [s.writeBlock], b.length = maxReplyLen := by
  have hsize := h.size
  have hfits := h.fits
  intro b hb
  rcases List.mem_append.mp hb with hb | hb
  · exact h.full b hb
  · rw [List.mem_singleton.mp hb]
    omega

theorem charout_filled (h : Filled s data) (c : UInt8) : Filled (s.charout c) (data ++ [c]) := by
  rw [StreamRamFile.charout]
  by_cases hfull : s.writeBlock.length ≥ s.blocksize
  · rw [if_pos hfull]
    refine ⟨h.size, ?_, full_snoc h hfull, (by decide : 1 ≤ maxReplyLen), h.unread⟩
    simp only [List.flatten_append, List.flatten_singleton, h.bytes]
  · rw [if_neg hfull]
    refine ⟨h.size, ?_, h.full, ?_, h.unread⟩
    · simp only [← List.append_assoc, h.bytes]
    · have hsize := h.size
      simp only [List.length_append, List.length_singleton]
      omega

theorem writeTurn_filled (h : Filled s data) (buffer : List UInt8) :
    Filled (s.writeTurn buffer) (data ++ buffer.take (s.turnLength buffer.length)) := by
  have hsize := h.size
  have hfits := h.fits
  rw [StreamRamFile.writeTurn, StreamRamFile.turnLength, Nat.min_comm, ← List.take_eq_take_min]
  by_cases hfull : s.writeBlock.length ≥ s.blocksize
  · rw [if_pos hfull, if_pos hfull]
    refine ⟨h.size, ?_, full_snoc h hfull, ?_, h.unread⟩
    · simp only [List.flatten_append, List.flatten_singleton, h.bytes]
    · simp only [List.length_take]
      omega
  · rw [if_neg hfull, if_neg hfull]
    refine ⟨h.size, ?_, h.full, ?_, h.unread⟩
    · simp only [← List.append_assoc, h.bytes]
    · simp only [List.length_append, List.length_take]
      omega

/-- A turn copies at least one byte. -/
theorem turnLength_pos (h : Filled s data) {len : Nat} (hlen : 0 < len) : 0 < s.turnLength len := by
  have hsize := h.size
  have hpos : 0 < maxReplyLen := by decide
  rw [StreamRamFile.turnLength]
  split <;> omega

theorem writeLoop_filled {turns : Nat} {buffer : List UInt8} (hturns : buffer.length ≤ turns) (h : Filled s data) :
    Filled (s.writeLoop turns buffer) (data ++ buffer) := by
  induction turns generalizing s data buffer with
  | zero =>
      obtain rfl : buffer = [] := List.eq_nil_of_length_eq_zero (Nat.le_zero.mp hturns)
      rw [List.append_nil]
      exact h
  | succ turns ih =>
      rw [StreamRamFile.writeLoop]
      by_cases hempty : buffer = []
      · rw [if_pos hempty, hempty, List.append_nil]
        exact h
      · have hturn := turnLength_pos h (List.length_pos_iff.mpr hempty)
        have hrest := @ih _ _ (buffer.drop (s.turnLength buffer.length)) (by rw [List.length_drop]; omega)
          (writeTurn_filled h buffer)
        rwa [if_neg hempty, ← List.take_append_drop (s.turnLength buffer.length) buffer, ← List.append_assoc,
          List.take_append_drop]

theorem write_filled (h : Filled s data) (buffer : List UInt8) : Filled (s.write buffer) (data ++ buffer) :=
  writeLoop_filled (Nat.le_refl _) h

mutual

/-- `express` writes the encoding. -/
theorem express_filled : ∀ (j : Json) {s : StreamRamFile} {data : List UInt8}, Filled s data →
    Filled (express j s) (data ++ encode j)
  | .int v, s, data, h => by
      rw [express, encode]
      simpa only [List.append_assoc, List.cons_append, List.nil_append] using
        charout_filled (charout_filled (charout_filled (charout_filled (charout_filled h 0x01) _) _) _) _
  | .bool b, s, data, h => by
      rw [express, encode]
      simpa only [List.append_assoc, List.cons_append, List.nil_append] using charout_filled (charout_filled h 0x02) _
  | .str t, s, data, h => by
      rw [express, encode]
      simpa only [List.append_assoc, List.cons_append, List.nil_append] using
        write_filled (charout_filled (charout_filled h 0x03) _) _
  | .obj members, s, data, h => by
      rw [express, encode]
      simpa only [List.append_assoc, List.cons_append, List.nil_append] using
        expressMembers_filled members (charout_filled (charout_filled h 0x04) _)
  | .list members, s, data, h => by
      rw [express, encode]
      simpa only [List.append_assoc, List.cons_append, List.nil_append] using
        expressList_filled members (charout_filled (charout_filled h 0x05) _)

theorem expressMembers_filled : ∀ (members : List (CString × Json)) {s : StreamRamFile} {data : List UInt8},
    Filled s data → Filled (expressMembers members s) (data ++ encodeMembers members)
  | [], s, data, h => by
      rw [expressMembers, encodeMembers, List.append_nil]
      exact h
  | (key, value) :: members, s, data, h => by
      rw [expressMembers, encodeMembers]
      simpa only [List.append_assoc, List.cons_append, List.nil_append] using
        expressMembers_filled members (express_filled value (write_filled (charout_filled h _) _))

theorem expressList_filled : ∀ (members : List Json) {s : StreamRamFile} {data : List UInt8}, Filled s data →
    Filled (expressList members s) (data ++ encodeList members)
  | [], s, data, h => by
      rw [expressList, encodeList, List.append_nil]
      exact h
  | value :: members, s, data, h => by
      rw [expressList, encodeList]
      simpa only [List.append_assoc] using expressList_filled members (express_filled value h)

end

/-! ## Reading -/

/-- The first block has the first bytes, and is read as far as it goes. -/
theorem first_block (h : Filled s data) :
    s.block 0 = some (data.take maxReplyLen) ∧ s.limit 0 = (data.take maxReplyLen).length := by
  obtain ⟨blocksize, blocks, writeBlock, readBlock, readOffset, readIndex⟩ := s
  obtain ⟨hsize, hbytes, hfull, hfits, -⟩ := h
  simp only at hsize hbytes hfull hfits
  cases blocks with
  | nil =>
      have hwhole : data.take maxReplyLen = writeBlock := by
        rw [← hbytes, List.flatten_nil, List.nil_append, List.take_of_length_le hfits]
      rw [hwhole]
      exact ⟨rfl, rfl⟩
  | cons b blocks =>
      have hb : b.length = maxReplyLen := hfull b List.mem_cons_self
      have hfirst : data.take maxReplyLen = b := by
        rw [← hbytes, List.flatten_cons, List.append_assoc, List.take_append_of_le_length (by omega),
          List.take_of_length_le (by omega)]
      rw [hfirst, hb, ← hsize]
      exact ⟨rfl, if_neg (by rw [List.length_cons]; omega)⟩

/-- A block that was read to its end before it was full is the only one. -/
theorem second_block (h : Filled s data) (hshort : data.length < maxReplyLen) : s.block 1 = none := by
  obtain ⟨blocksize, blocks, writeBlock, readBlock, readOffset, readIndex⟩ := s
  cases blocks with
  | nil => rfl
  | cons b blocks =>
      have hb : b.length = maxReplyLen := h.full b List.mem_cons_self
      have hlength := congrArg List.length h.bytes
      simp only [List.flatten_cons, List.length_append, hb] at hlength
      omega

/-- The first part. -/
theorem first_part (h : Filled s data) :
    s.read maxReplyBytes =
      ((data.take maxReplyLen).take maxReplyBytes,
        { s with
          readBlock :=
            if min maxReplyBytes (data.take maxReplyLen).length = (data.take maxReplyLen).length then none else some 0
          readOffset := min maxReplyBytes (data.take maxReplyLen).length
          readIndex := 1 }) := by
  obtain ⟨hblock, hlimit⟩ := first_block h
  obtain ⟨hread, hindex⟩ := h.unread
  have hlimit' : ({ s with readBlock := some 0, readIndex := 0 + 1, readOffset := 0 } : StreamRamFile).limit 0 =
      (data.take maxReplyLen).length := hlimit
  simp only [StreamRamFile.read, hread, hindex, hblock, StreamRamFile.readFrom, StreamRamFile.transferred, hlimit',
    Nat.sub_zero, Nat.zero_add, List.drop_zero]
  rw [← List.take_eq_take_min]

/-- The parts of a reply have the first block of the file. -/
theorem replyParts_filled (h : Filled s data) (fuel : Nat) :
    (replyParts (fuel + 2) s).flatten = data.take maxReplyLen := by
  have hlength : (data.take maxReplyLen).length ≤ maxReplyLen := List.length_take_le _ _
  have hfirst := first_part h
  have hbytes : maxReplyLen = maxReplyBytes + 1 := rfl
  obtain ⟨block, hblock⟩ : ∃ b, b = data.take maxReplyLen := ⟨_, rfl⟩
  rw [← hblock] at hlength hfirst ⊢
  rw [replyParts, getMoreData, hfirst]
  rcases Nat.lt_trichotomy block.length maxReplyBytes with hshort | hexact | hlong
  · -- one part
    have hne : (block.take maxReplyBytes).length ≠ maxReplyBytes := by
      rw [List.length_take]
      omega
    rw [if_pos (decide_eq_true hne), List.flatten_singleton, List.take_of_length_le (by omega)]
  · -- a part, and an empty one
    have heq : ¬((block.take maxReplyBytes).length ≠ maxReplyBytes) := by
      rw [List.length_take]
      omega
    have hnone : s.block 1 = none := by
      refine second_block h ?_
      rw [hblock, List.length_take] at hexact
      omega
    have hend : ({ s with readBlock := none, readOffset := min maxReplyBytes block.length, readIndex := 1 } :
        StreamRamFile).read maxReplyBytes = ([], { s with readBlock := none, readOffset := 0, readIndex := 2 }) := by
      have hnone' : ({ s with readBlock := none, readOffset := min maxReplyBytes block.length, readIndex := 1 } :
        StreamRamFile).block 1 = none := hnone
      simp only [StreamRamFile.read, hnone']
    rw [if_neg (by simpa using heq), if_pos (by omega), replyParts, getMoreData, hend,
      if_pos (decide_eq_true (by decide : ([] : List UInt8).length ≠ maxReplyBytes))]
    simp only [List.flatten_cons, List.flatten_nil, List.append_nil]
    rw [List.take_of_length_le (by omega)]
  · -- all but a byte, and this byte
    have heq : ¬((block.take maxReplyBytes).length ≠ maxReplyBytes) := by
      rw [List.length_take]
      omega
    have hblock0 := (first_block h).1
    rw [← hblock] at hblock0
    have hlimit0 := (first_block h).2
    rw [← hblock] at hlimit0
    have hmin : min maxReplyBytes block.length = maxReplyBytes := by omega
    have hend : (({ s with readBlock := some 0, readOffset := maxReplyBytes, readIndex := 1 } :
        StreamRamFile).read maxReplyBytes).1 = block.drop maxReplyBytes := by
      have hblock0' : ({ s with readBlock := some 0, readOffset := maxReplyBytes, readIndex := 1 } :
        StreamRamFile).block 0 = some block := hblock0
      have hlimit0' : ({ s with readBlock := some 0, readOffset := maxReplyBytes, readIndex := 1 } :
        StreamRamFile).limit 0 = block.length := hlimit0
      simp only [StreamRamFile.read, hblock0', Option.getD_some, StreamRamFile.readFrom, StreamRamFile.transferred,
        hlimit0']
      have hrest : (block.drop maxReplyBytes).length ≤ min maxReplyBytes (block.length - maxReplyBytes) := by
        have hvalue : maxReplyBytes = 895 := rfl
        rw [List.length_drop]
        omega
      rw [List.take_of_length_le hrest]
    have hne : (block.drop maxReplyBytes).length ≠ maxReplyBytes := by
      rw [List.length_drop]
      have : maxReplyBytes = 895 := rfl
      omega
    rw [if_neg (by simpa using heq), if_neg (by omega), hmin, replyParts, getMoreData, hend,
      if_pos (decide_eq_true hne)]
    simp only [List.flatten_cons, List.flatten_nil, List.append_nil, List.take_append_drop]

/-- A body query delivers 896 bytes of the encoding at most. -/
theorem bodyQuery_eq (j : Json) : bodyQuery j = (encode j).take maxReplyLen := by
  have hfilled := express_filled j filled_empty
  rw [List.nil_append] at hfilled
  obtain ⟨fuel, hfuel⟩ : ∃ fuel,
      (express j (.empty maxReplyLen)).blocks.length * maxReplyLen + maxReplyLen + 1 = fuel + 2 :=
    ⟨(express j (.empty maxReplyLen)).blocks.length * maxReplyLen + 895, by
      have hvalue : maxReplyLen = 896 := rfl
      omega⟩
  rw [bodyQuery, hfuel, replyParts_filled hfilled]

end HttpTarget
