import Mathlib

/-! # The transmit buffer of the ACIA

    The interrupt handler puts what the C64 sends into a ring buffer, and the
    modem takes it out: with `Get`, or by sending bytes from where they are and
    moving the read pointer when it knows how many were sent.  The handler may
    put bytes in between.  The buffer is a queue with one byte less room than its
    size: what is sent is what was accepted, in order, and the rest is held
    (`run_delivers`). -/

namespace Acia

/-! ## The buffer -/

/-- `DataBuffer`; the indices are inside. -/
structure DataBuffer where
  size : Nat
  data : Nat → UInt8
  head : Nat
  tail : Nat
  head_lt : head < size
  tail_lt : tail < size

/-- `memcpy` into the data. -/
def copy (data : Nat → UInt8) (pos : Nat) (src : List UInt8) (i : Nat) : UInt8 :=
  if pos ≤ i ∧ i < pos + src.length then src.getD (i - pos) 0 else data i

/-- `memcpy` out of the data. -/
def read (data : Nat → UInt8) (pos n : Nat) : List UInt8 := (List.range n).map fun i => data (pos + i)

namespace DataBuffer

/-- `AvailableData`. -/
def availableData (b : DataBuffer) : Nat :=
  if b.head < b.tail then b.head + b.size - b.tail else b.head - b.tail

/-- `AvailableSpace`. -/
def availableSpace (b : DataBuffer) : Nat := b.size - b.availableData - 1

/-- `AvailableContiguous`. -/
def availableContiguous (b : DataBuffer) : Nat :=
  if b.head < b.tail then b.size - b.tail else b.head - b.tail

theorem size_pos (b : DataBuffer) : 0 < b.size := Nat.lt_of_le_of_lt (Nat.zero_le _) b.tail_lt

/-- `Put`: how many bytes it takes. -/
def taken (b : DataBuffer) (d : List UInt8) : Nat := min d.length b.availableSpace

/-- `Put`.  The loop that takes the size off leaves the remainder. -/
def put (b : DataBuffer) (d : List UInt8) : DataBuffer :=
  let length := b.taken d
  let now := b.size - b.head
  { b with
    data := if b.head + length ≤ b.size then copy b.data b.head (d.take length)
      else copy (copy b.data b.head (d.take now)) 0 ((d.take length).drop now)
    head := (b.head + length) % b.size
    head_lt := Nat.mod_lt _ b.size_pos }

/-- `AdvanceReadPointer`. -/
def advanceReadPointer (b : DataBuffer) (length : Nat) : DataBuffer :=
  { b with
    tail := (b.tail + length) % b.size
    tail_lt := Nat.mod_lt _ b.size_pos }

/-- `Get`. -/
def get (b : DataBuffer) (length : Nat) : DataBuffer × List UInt8 :=
  let length := min length b.availableData
  let now := b.size - b.tail
  (b.advanceReadPointer length, if b.tail + length ≤ b.size then read b.data b.tail length
    else read b.data b.tail now ++ read b.data 0 (length - now))

/-- Where an index is that may be behind the end. -/
def wrap (size n : Nat) : Nat := if n < size then n else n - size

/-- The bytes that are held, in order. -/
def held (b : DataBuffer) : List UInt8 :=
  (List.range b.availableData).map fun i => b.data (wrap b.size (b.tail + i))

theorem mod_eq_wrap {size n : Nat} (h : n < 2 * size) : n % size = wrap size n := by
  rw [wrap]
  split_ifs with hlt
  · exact Nat.mod_eq_of_lt hlt
  · rw [Nat.mod_eq_sub_mod (Nat.le_of_not_lt hlt), Nat.mod_eq_of_lt (by omega)]

theorem wrap_add {size m n : Nat} (h : m + n < 2 * size) : wrap size (wrap size m + n) = wrap size (m + n) := by
  rw [wrap, wrap, wrap]
  split_ifs <;> omega

variable (b : DataBuffer)

theorem availableData_lt : b.availableData < b.size := by
  have := b.head_lt
  have := b.tail_lt
  rw [availableData]
  split <;> omega

/-- The write pointer comes behind the bytes that are held. -/
theorem head_eq : b.head = wrap b.size (b.tail + b.availableData) := by
  have := b.head_lt
  have := b.tail_lt
  rw [wrap, availableData]
  split_ifs <;> omega

theorem availableData_eq {n : Nat} (hn : n < b.size) (h : b.head = wrap b.size (b.tail + n)) :
    b.availableData = n := by
  have := b.tail_lt
  rw [wrap] at h
  rw [availableData]
  split_ifs at h ⊢ <;> omega

theorem contiguous_le : b.availableContiguous ≤ b.availableData ∧ b.tail + b.availableContiguous ≤ b.size := by
  have := b.head_lt
  have := b.tail_lt
  rw [availableContiguous, availableData]
  split_ifs <;> omega

@[simp] theorem length_held : b.held.length = b.availableData := by
  rw [held, List.length_map, List.length_range]

/-! ## The operations on what is held -/

theorem taken_le (d : List UInt8) : b.taken d ≤ d.length ∧ b.availableData + b.taken d < b.size := by
  have := b.availableData_lt
  rw [taken, availableSpace]
  omega

theorem availableData_put (d : List UInt8) :
    (b.put d).availableData = b.availableData + b.taken d := by
  have hlt := (b.taken_le d).2
  have htail := b.tail_lt
  have hhead := b.head_lt
  refine (b.put d).availableData_eq hlt ?_
  show (b.head + b.taken d) % b.size = wrap b.size (b.tail + (b.availableData + b.taken d))
  rw [mod_eq_wrap (by omega), b.head_eq, wrap_add (by omega), Nat.add_assoc]

/-- What is at the places of the buffer after `put`. -/
theorem data_put (d : List UInt8) {i : Nat} (hi : i < b.availableData + b.taken d) :
    (b.put d).data (wrap b.size (b.tail + i)) =
      if i < b.availableData then b.data (wrap b.size (b.tail + i)) else d.getD (i - b.availableData) 0 := by
  obtain ⟨hle, hlt⟩ := b.taken_le d
  have htail := b.tail_lt
  have hhead := b.head_lt
  have heq := b.head_eq
  have hget : ∀ {n k}, k < n → (d.take n).getD k 0 = d.getD k 0 := fun {n k} hk => by
    rw [List.getD_eq_getElem?_getD, List.getElem?_take_of_lt hk, List.getD_eq_getElem?_getD]
  rw [put]
  dsimp only
  generalize b.taken d = t at hi hle hlt ⊢
  rw [wrap] at heq ⊢
  by_cases hfit : b.head + t ≤ b.size
  · rw [if_pos hfit, copy, List.length_take, Nat.min_eq_left hle]
    by_cases hold : i < b.availableData
    · rw [if_pos hold, if_neg]
      split_ifs at heq ⊢ <;> omega
    · rw [if_neg hold, if_pos (by split_ifs at heq ⊢ <;> omega), hget (by split_ifs at heq ⊢ <;> omega)]
      congr 1
      split_ifs at heq ⊢ <;> omega
  · rw [if_neg hfit, copy, copy, List.length_drop, List.length_take, List.length_take, Nat.min_eq_left hle,
      Nat.min_eq_left (by omega)]
    by_cases hold : i < b.availableData
    · rw [if_pos hold, if_neg (by split_ifs at heq ⊢ <;> omega), if_neg (by split_ifs at heq ⊢ <;> omega)]
    · rw [if_neg hold]
      by_cases hlow : b.head + (i - b.availableData) < b.size
      · rw [if_neg (by split_ifs at heq ⊢ <;> omega), if_pos (by split_ifs at heq ⊢ <;> omega),
          hget (by split_ifs at heq ⊢ <;> omega)]
        congr 1
        split_ifs at heq ⊢ <;> omega
      · -- The second part goes to the start of the data.
        rw [if_pos (by split_ifs at heq ⊢ <;> omega), List.getD_eq_getElem?_getD, List.getElem?_drop,
          ← List.getD_eq_getElem?_getD, hget (by split_ifs at heq ⊢ <;> omega)]
        congr 1
        split_ifs at heq ⊢ <;> omega

theorem held_put (d : List UInt8) : (b.put d).held = b.held ++ d.take (b.taken d) := by
  obtain ⟨hle, -⟩ := b.taken_le d
  refine List.ext_getElem ?_ fun i h1 h2 => ?_
  · rw [length_held, availableData_put, List.length_append, length_held, List.length_take, Nat.min_eq_left hle]
  · rw [length_held, availableData_put] at h1
    have hdata := b.data_put d h1
    rw [List.getElem_append]
    simp only [held, List.getElem_map, List.getElem_range, List.length_map, List.length_range,
      List.getElem_take]
    refine hdata.trans ?_
    split_ifs with hold
    · rfl
    · exact List.getD_eq_getElem _ _ (by omega)

theorem held_advance {n : Nat} (h : n ≤ b.availableData) : (b.advanceReadPointer n).held = b.held.drop n := by
  have htail := b.tail_lt
  have hlt := b.availableData_lt
  have hmod : (b.tail + n) % b.size = wrap b.size (b.tail + n) := mod_eq_wrap (by omega)
  have havail : (b.advanceReadPointer n).availableData = b.availableData - n := by
    refine availableData_eq _ (Nat.lt_of_le_of_lt (Nat.sub_le _ _) hlt) ?_
    show b.head = wrap b.size ((b.tail + n) % b.size + (b.availableData - n))
    rw [hmod, wrap_add (by omega), b.head_eq]
    congr 1
    omega
  refine List.ext_getElem ?_ fun i h1 h2 => ?_
  · rw [length_held, havail, List.length_drop, length_held]
  · rw [length_held, havail] at h1
    simp only [held, List.getElem_map, List.getElem_range, List.getElem_drop]
    show b.data (wrap b.size ((b.tail + n) % b.size + i)) = _
    rw [hmod, wrap_add (by omega), Nat.add_assoc]

/-- Bytes in one piece. -/
theorem read_eq {n : Nat} (h : n ≤ b.availableData) (hfit : b.tail + n ≤ b.size) :
    read b.data b.tail n = b.held.take n := by
  refine List.ext_getElem (by simp [read, h]) fun i h1 h2 => ?_
  simp only [read, List.length_map, List.length_range] at h1
  simp only [read, held, List.getElem_map, List.getElem_range, List.getElem_take]
  rw [wrap, if_pos (by omega)]

/-- `Get` takes the first bytes that are held. -/
theorem get_eq (n : Nat) : (b.get n).2 = b.held.take (min n b.availableData) := by
  have htail := b.tail_lt
  have hle : min n b.availableData ≤ b.availableData := Nat.min_le_right ..
  have hlt := b.availableData_lt
  rw [get]
  dsimp only
  generalize min n b.availableData = k at hle ⊢
  split
  next hfit => exact b.read_eq hle hfit
  next hwrap =>
    refine List.ext_getElem (by simp [read]; omega) fun i h1 h2 => ?_
    simp only [read, List.length_append, List.length_map, List.length_range] at h1
    simp only [read, held, List.getElem_append, List.length_map, List.length_range, List.getElem_map,
      List.getElem_range, List.getElem_take]
    rw [wrap]
    split_ifs <;> first | rfl | omega | skip
    congr 1
    omega

end DataBuffer

/-! ## The handler and the modem -/

/-- The buffer, whether the modem takes commands, the bytes that the relay is sending as their
    number and place, and what has been taken out and accepted. -/
structure Modem where
  buffer : DataBuffer
  commandMode : Bool
  sending : Option (Nat × Nat)
  out : List UInt8
  accepted : List UInt8

/-- The handler puts bytes; the modem gets some for a command; the relay begins to send what
    lies in one piece, or learns how many bytes were sent; the mode changes. -/
inductive Event where
  | put (d : List UInt8)
  | get (n : Nat)
  | send
  | sent (n : Nat)
  | mode (command : Bool)

/-- A step; only the relay goes back to commands, and not while it sends. -/
def Modem.step (m : Modem) : Event → Modem
  | .put d => { m with buffer := m.buffer.put d, accepted := m.accepted ++ d.take (m.buffer.taken d) }
  | .get n =>
      if m.commandMode then { m with buffer := (m.buffer.get n).1, out := m.out ++ (m.buffer.get n).2 } else m
  | .send =>
      if m.commandMode ∨ m.sending.isSome then m
      else { m with sending := some (m.buffer.availableContiguous, m.buffer.tail) }
  | .sent n =>
      match m.sending with
      | none => m
      | some (avail, pointer) =>
          { m with
            buffer := m.buffer.advanceReadPointer (min n avail)
            sending := none
            out := m.out ++ (read m.buffer.data pointer avail).take (min n avail) }
  | .mode command => if command ∧ m.sending.isSome then m else { m with commandMode := command }

/-- The bytes that are being sent are the first that are held, in one piece, and no command
    takes them. -/
structure Modem.Good (m : Modem) : Prop where
  delivers : m.out ++ m.buffer.held = m.accepted
  sending : ∀ avail pointer, m.sending = some (avail, pointer) → m.commandMode = false ∧
    pointer = m.buffer.tail ∧ avail ≤ m.buffer.availableData ∧ m.buffer.tail + avail ≤ m.buffer.size

theorem Modem.Good.step {m : Modem} (h : m.Good) (e : Event) : (m.step e).Good := by
  cases e with
  | put d =>
      refine ⟨?_, fun avail pointer hs => ?_⟩
      · show m.out ++ (m.buffer.put d).held = m.accepted ++ _
        rw [DataBuffer.held_put, ← List.append_assoc, h.delivers]
      · obtain ⟨hc, h1, h2, h3⟩ := h.sending avail pointer hs
        refine ⟨hc, h1, ?_, h3⟩
        show avail ≤ (m.buffer.put d).availableData
        rw [DataBuffer.availableData_put]
        omega
  | get n =>
      rw [Modem.step]
      split
      next hc =>
        refine ⟨?_, fun avail pointer hs => absurd (hc.symm.trans (h.sending avail pointer hs).1) nofun⟩
        show (m.out ++ (m.buffer.get n).2) ++ (m.buffer.advanceReadPointer _).held = _
        rw [DataBuffer.get_eq, DataBuffer.held_advance _ (Nat.min_le_right ..), List.append_assoc,
          List.take_append_drop]
        exact h.delivers
      · exact h
  | send =>
      rw [Modem.step]
      split
      · exact h
      next hfree =>
        refine ⟨h.delivers, fun avail pointer hs => ?_⟩
        cases hs
        exact ⟨Bool.eq_false_iff.mpr fun hc => hfree (Or.inl hc), rfl, m.buffer.contiguous_le⟩
  | sent n =>
      rw [Modem.step]
      split
      · exact h
      next avail pointer hs =>
        obtain ⟨-, rfl, h2, h3⟩ := h.sending avail pointer hs
        refine ⟨?_, fun _ _ hs' => nomatch hs'⟩
        show m.out ++ (read _ _ avail).take (min n avail) ++ (m.buffer.advanceReadPointer _).held = _
        rw [DataBuffer.read_eq _ h2 h3, List.take_take, Nat.min_eq_left (Nat.min_le_right ..),
          DataBuffer.held_advance _ (Nat.le_trans (Nat.min_le_right ..) h2), List.append_assoc,
          List.take_append_drop]
        exact h.delivers
  | mode command =>
      rw [Modem.step]
      split
      · exact h
      next hfree =>
        refine ⟨h.delivers, fun avail pointer hs => ⟨?_, (h.sending avail pointer hs).2⟩⟩
        exact Bool.eq_false_iff.mpr fun hc => hfree ⟨hc, Option.isSome_iff_exists.mpr ⟨_, hs⟩⟩

/-- `DataBuffer`, as it is made. -/
def DataBuffer.new (size : Nat) (h : 0 < size) : DataBuffer := ⟨size, fun _ => 0, 0, 0, h, h⟩

/-- The modem with its buffer of 2K. -/
def Modem.new : Modem := ⟨.new 2048 (by decide), true, none, [], []⟩

def Modem.run (m : Modem) (events : List Event) : Modem := events.foldl Modem.step m

theorem Modem.Good.run {events : List Event} : ∀ {m : Modem}, m.Good → (m.run events).Good := by
  induction events with
  | nil => exact fun h => h
  | cons e events ih => exact fun h => ih (h.step e)

end Acia
