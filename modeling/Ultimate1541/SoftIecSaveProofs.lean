import Ultimate1541.SoftIecTargetProofs

/-! # Saving through the software IEC target

    `SAVE` pushes the start address and the bytes of the range to channel 1, which writes
    them in blocks of 512.  What is left when the channel is closed is written then. -/

namespace SoftIec

open IecChannel

/-! ## The medium -/

/-- A write of the medium: whether it answers `FR_OK`, and how many of the bytes it
    stores. -/
structure WriteResult where
  ok : Bool
  bytes : Nat

/-- What becomes of the writes of a file, one after the other, and how many bytes are there
    once it is closed. -/
structure Medium where
  write : Nat → WriteResult
  kept : Nat

/-! ## The channel -/

/-- The part of `IecChannel` that writing uses: `buffer` up to `pointer`, whether there is
    an open file `f`, whether the access is for writing, the number of writes so far and
    the bytes they have stored. -/
structure WriteChannel where
  state : State
  f : Bool
  writing : Bool
  buffer : List UInt8
  writes : Nat
  stored : List UInt8

namespace WriteChannel

/-- `f->write(buffer, pointer, &bytes)`; nobody looks at `bytes`. -/
def write (m : Medium) (c : WriteChannel) : Bool × WriteChannel :=
  ((m.write c.writes).ok,
    { c with
      writes := c.writes + 1
      stored := c.stored ++ c.buffer.take (m.write c.writes).bytes })

/-- `push_data`, for a file or a listing. -/
def pushData (m : Medium) (c : WriteChannel) (b : UInt8) : Retval × WriteChannel :=
  match c.state with
  | .file =>
      let c := { c with buffer := c.buffer ++ [b] }
      if c.buffer.length = 512 then
        if c.f = true then
          match c.write m with
          | (true, c) => (.ok, { c with buffer := [] })
          | (false, c) => (.writeError, { c with f := false, state := .error })
        else (.writeError, { c with state := .error })
      else (.ok, c)
  | _ => (.byteLost, c)

/-- `close_file`. -/
def closeFile (c : WriteChannel) : WriteChannel := { c with f := false, state := .idle }

/-- `ext_close_file`. -/
def extCloseFile (m : Medium) (c : WriteChannel) : Retval × WriteChannel :=
  if c.writing = true then
    if c.f = true then
      if c.buffer ≠ [] then
        match c.write m with
        | (true, c) => (.ok, c.closeFile)
        | (false, c) => (.writeError, { c with state := .error })
      else (.ok, c.closeFile)
    else (.writeError, { c with state := .error })
  else (.ok, c.closeFile)

/-- A file that has been opened for writing. -/
def onFile : WriteChannel := ⟨.file, true, true, [], 0, []⟩

/-- A listing, which `ext_open_file` takes for a file. -/
def onListing : WriteChannel := ⟨.dir, false, false, [], 0, []⟩

end WriteChannel

/-! ## `SAVE` -/

/-- The memory from `C64_MEMORY_BASE` on. -/
abbrev Mem : Type := Nat → UInt8

/-- The low byte of an address. -/
def lowByte (a : UInt16) : UInt8 := UInt8.ofNat (a.toNat % 256)

/-- The high byte of an address. -/
def highByte (a : UInt16) : UInt8 := UInt8.ofNat (a.toNat / 256)

/-- Where `dest` points for each turn of the loop of `do_save`: the counter has 16 bits and
    wraps, the pointer does not. -/
def addresses (start stop : UInt16) : List Nat :=
  (List.range (stop - start).toNat).map (start.toNat + ·)

/-- The loop of `do_save`. -/
def saveLoop (m : Medium) : List UInt8 → Bool → WriteChannel → Bool × WriteChannel
  | [], success, c => (success, c)
  | b :: bs, success, c =>
      match c.pushData m b with
      | (res, c) => saveLoop m bs (if res ≠ .ok then false else success) c

/-- `do_save`; the results of the first two bytes are not used. -/
def doSave (m : Medium) (mem : Mem) (c : WriteChannel) (start stop : UInt16) :
    Bool × WriteChannel :=
  let c := (c.pushData m (lowByte start)).2
  let c := (c.pushData m (highByte start)).2
  saveLoop m ((addresses start stop).map mem) true c

/-- What a name is opened as. -/
inductive Opened (π : Type) where
  | file (path : π)
  | listing
  | refused

/-- The files of a drive. -/
abbrev Store (π : Type) : Type := π → Option (List UInt8)

/-- A file gets its content. -/
def Store.put {π : Type} [DecidableEq π] (s : Store π) (path : π) (content : List UInt8) : Store π :=
  fun p => if p = path then some content else s p

/-- How a drive finds a name: the file it opens for writing, and for reading. -/
structure Lookup (ν π : Type) where
  forWriting : ν → Store π → Opened π
  forReading : ν → Store π → Opened π

/-- What `SAVE` reports and leaves, and the places it read. -/
structure Saved (π : Type) where
  status : Message
  store : Store π
  reads : List Nat

/-- `c_status_save_error`. -/
def cStatusSaveError : Message := ⟨[0x02], true⟩

/-- `cmd_save`. -/
def cmdSave {ν π : Type} [DecidableEq π] (lookup : Lookup ν π) (m : Medium) (mem : Mem) (name : ν)
    (start stop : UInt16) (s : Store π) : Saved π :=
  match lookup.forWriting name s with
  | .refused => ⟨cStatusSaveError, s, []⟩
  | .listing =>
      let r := doSave m mem .onListing start stop
      ⟨if r.1 = true then cStatusAllOk else cStatusSaveError, s, addresses start stop⟩
  | .file path =>
      let r := doSave m mem .onFile start stop
      let c := (r.2.extCloseFile m).2
      ⟨if r.1 = true then cStatusAllOk else cStatusSaveError, s.put path (c.stored.take m.kept),
        addresses start stop⟩

/-! ## What a file holds -/

variable {m : Medium} {data : List UInt8}

/-- What the first writes of full blocks store. -/
def storedBlocks (m : Medium) (data : List UInt8) : Nat → List UInt8
  | 0 => []
  | k + 1 => storedBlocks m data k ++ ((data.drop (512 * k)).take 512).take (m.write k).bytes

/-- What stands in the file when all of `data` was pushed and the channel was closed. -/
def fileContent (m : Medium) (data : List UInt8) : List UInt8 :=
  (storedBlocks m data (data.length / 512) ++
    (data.drop (512 * (data.length / 512))).take (m.write (data.length / 512)).bytes).take m.kept

/-- Every write stores what it is given, and the closed file keeps it. -/
structure Complete (m : Medium) (total : Nat) : Prop where
  blocks : ∀ j < total / 512, 512 ≤ (m.write j).bytes
  rest : total % 512 ≤ (m.write (total / 512)).bytes
  kept : total ≤ m.kept

/-- The write of a full block fails. -/
def BlockFails (m : Medium) (total : Nat) : Prop := ∃ j < total / 512, (m.write j).ok = false

theorem storedBlocks_append (x : List UInt8) : ∀ k, 512 * k ≤ data.length →
    storedBlocks m (data ++ x) k = storedBlocks m data k := by
  intro k
  induction k with
  | zero => exact fun _ => rfl
  | succ k ih =>
      intro hk
      rw [storedBlocks, storedBlocks, ih (by omega), List.drop_append_of_le_length (by omega),
        List.take_append_of_le_length (by rw [List.length_drop]; omega)]

theorem length_block {k : Nat} (hk : 512 * (k + 1) ≤ data.length) :
    ((data.drop (512 * k)).take 512).length = 512 := by
  rw [List.length_take, List.length_drop]
  omega

theorem length_storedBlocks_le (m : Medium) (data : List UInt8) : ∀ k, 512 * k ≤ data.length →
    (storedBlocks m data k).length ≤ 512 * k := by
  intro k
  induction k with
  | zero => exact fun _ => Nat.le_refl 0
  | succ k ih =>
      intro hk
      have hprev := ih (by omega)
      rw [storedBlocks, List.length_append, List.length_take, length_block hk]
      omega

/-- Blocks that are all stored are the data. -/
theorem storedBlocks_eq : ∀ k, 512 * k ≤ data.length → (∀ j < k, 512 ≤ (m.write j).bytes) →
    storedBlocks m data k = data.take (512 * k) := by
  intro k
  induction k with
  | zero => exact fun _ _ => rfl
  | succ k ih =>
      intro hk hall
      have hblock : ((data.drop (512 * k)).take 512).length ≤ (m.write k).bytes := by
        rw [length_block hk]
        exact hall k (by omega)
      rw [storedBlocks, ih (by omega) fun j hj => hall j (by omega),
        List.take_of_length_le hblock, Nat.mul_succ, List.take_add]

/-- Only where every block is stored is nothing missing. -/
theorem bytes_of_length_storedBlocks : ∀ k, 512 * k ≤ data.length →
    (storedBlocks m data k).length = 512 * k → ∀ j < k, 512 ≤ (m.write j).bytes := by
  intro k
  induction k with
  | zero =>
      intro _ _ j hj
      omega
  | succ k ih =>
      intro hk hlen j hj
      have hle := length_storedBlocks_le m data k (by omega)
      rw [storedBlocks, List.length_append, List.length_take, length_block hk] at hlen
      rcases Nat.lt_succ_iff_lt_or_eq.mp hj with hlt | rfl
      · exact ih (by omega) (by omega) j hlt
      · omega

/-- A file that nothing is missing from is the data. -/
theorem fileContent_eq (h : Complete m data.length) : fileContent m data = data := by
  have hrest := h.rest
  have hlen : (data.drop (512 * (data.length / 512))).length
      ≤ (m.write (data.length / 512)).bytes := by
    rw [List.length_drop]
    omega
  rw [fileContent, storedBlocks_eq _ (by omega) h.blocks, List.take_of_length_le hlen,
    List.take_append_drop, List.take_of_length_le h.kept]

theorem length_fileContent_le : (fileContent m data).length ≤ data.length := by
  have hle := length_storedBlocks_le m data (data.length / 512) (by omega)
  rw [fileContent, List.length_take, List.length_append, List.length_take, List.length_drop]
  omega

/-- Something is missing from any other. -/
theorem complete_of_length (h : (fileContent m data).length = data.length) :
    Complete m data.length := by
  have hle := length_storedBlocks_le m data (data.length / 512) (by omega)
  rw [fileContent, List.length_take, List.length_append, List.length_take, List.length_drop] at h
  have hfull : (storedBlocks m data (data.length / 512)).length = 512 * (data.length / 512) := by
    omega
  exact ⟨bytes_of_length_storedBlocks _ (by omega) hfull, by omega, by omega⟩

/-! ## Pushing -/

/-- All of `data` was pushed, and no write has failed. -/
structure Written (m : Medium) (c : WriteChannel) (data : List UInt8) : Prop where
  state : c.state = .file
  f : c.f = true
  writing : c.writing = true
  buffer : c.buffer = data.drop (512 * (data.length / 512))
  writes : c.writes = data.length / 512
  stored : c.stored = storedBlocks m data (data.length / 512)
  good : ∀ j < data.length / 512, (m.write j).ok = true

theorem written_onFile (m : Medium) : Written m .onFile [] :=
  ⟨rfl, rfl, rfl, rfl, rfl, rfl, fun j hj => absurd hj (Nat.not_lt_zero j)⟩

variable {c : WriteChannel}

/-- A byte that does not fill the block. -/
theorem Written.push_byte (h : Written m c data) (b : UInt8) (hlen : data.length % 512 ≠ 511) :
    ∃ c', c.pushData m b = (.ok, c') ∧ Written m c' (data ++ [b]) := by
  have hbuffer : (c.buffer ++ [b]).length ≠ 512 := by
    rw [h.buffer, List.length_append, List.length_drop, List.length_singleton]
    omega
  have hblocks : (data ++ [b]).length / 512 = data.length / 512 := by
    rw [List.length_append, List.length_singleton]
    omega
  refine ⟨{ c with buffer := c.buffer ++ [b] }, ?_, ?_⟩
  · rw [WriteChannel.pushData, h.state]
    dsimp only
    rw [if_neg hbuffer]
  · refine ⟨h.state, h.f, h.writing, ?_, by rw [hblocks]; exact h.writes, ?_, by
      rw [hblocks]
      exact h.good⟩
    · show c.buffer ++ [b] = _
      rw [hblocks, h.buffer, List.drop_append_of_le_length (by omega)]
    · show c.stored = _
      rw [hblocks, h.stored, storedBlocks_append _ _ (by omega)]

/-- A byte that fills the block, which is written. -/
theorem Written.push_block (h : Written m c data) (b : UInt8) (hlen : data.length % 512 = 511) :
    ∃ res c', c.pushData m b = (res, c') ∧
      (((m.write (data.length / 512)).ok = true ∧ res = .ok ∧ Written m c' (data ++ [b])) ∨
        ((m.write (data.length / 512)).ok = false ∧ res = .writeError ∧ c'.state = .error)) := by
  have hbuffer : c.buffer ++ [b] = ((data ++ [b]).drop (512 * (data.length / 512))).take 512 := by
    rw [List.drop_append_of_le_length (by omega), h.buffer, List.take_of_length_le]
    rw [List.length_append, List.length_drop, List.length_singleton]
    omega
  have hfull : (c.buffer ++ [b]).length = 512 := by
    rw [h.buffer, List.length_append, List.length_drop, List.length_singleton]
    omega
  have hblocks : (data ++ [b]).length / 512 = data.length / 512 + 1 := by
    rw [List.length_append, List.length_singleton]
    omega
  rw [WriteChannel.pushData, h.state]
  dsimp only
  rw [if_pos hfull, if_pos h.f, WriteChannel.write, h.writes]
  cases hok : (m.write (data.length / 512)).ok with
  | false => exact ⟨.writeError, _, rfl, .inr ⟨rfl, rfl, rfl⟩⟩
  | true =>
      refine ⟨.ok, _, rfl, .inl ⟨rfl, rfl, rfl, h.f, h.writing, ?_, hblocks.symm, ?_, ?_⟩⟩
      · show [] = _
        rw [hblocks, List.drop_eq_nil_of_le]
        rw [List.length_append, List.length_singleton]
        omega
      · show c.stored ++ (c.buffer ++ [b]).take (m.write (data.length / 512)).bytes = _
        rw [hblocks, storedBlocks, storedBlocks_append _ _ (by omega), h.stored, hbuffer]
      · rw [hblocks]
        intro j hj
        rcases Nat.lt_succ_iff_lt_or_eq.mp hj with hlt | rfl
        · exact h.good j hlt
        · exact hok

theorem saveLoop_false (bs : List UInt8) : ∀ c : WriteChannel, (saveLoop m bs false c).1 = false := by
  induction bs with
  | nil => exact fun _ => rfl
  | cons b bs ih =>
      intro c
      rw [saveLoop]
      dsimp only
      rw [ite_self]
      exact ih _

/-- The loop succeeds where no full block fails. -/
theorem saveLoop_spec (bs : List UInt8) : ∀ (c : WriteChannel) (data : List UInt8), Written m c data →
    ((saveLoop m bs true c).1 = true ∧ Written m (saveLoop m bs true c).2 (data ++ bs)) ∨
      ((saveLoop m bs true c).1 = false ∧ BlockFails m (data ++ bs).length) := by
  induction bs with
  | nil =>
      intro c data h
      rw [List.append_nil]
      exact .inl ⟨rfl, h⟩
  | cons b bs ih =>
      intro c data h
      have hmove : data ++ b :: bs = data ++ [b] ++ bs := by
        rw [List.append_assoc, List.singleton_append]
      rw [hmove, saveLoop]
      by_cases hlen : data.length % 512 = 511
      · obtain ⟨res, c', hpush, ⟨-, rfl, hnext⟩ | ⟨hfail, rfl, -⟩⟩ := h.push_block b hlen
        · rw [hpush]
          exact ih c' (data ++ [b]) hnext
        · rw [hpush]
          refine .inr ⟨saveLoop_false bs c', data.length / 512, ?_, hfail⟩
          rw [List.length_append, List.length_append, List.length_singleton]
          omega
      · obtain ⟨c', hpush, hnext⟩ := h.push_byte b hlen
        rw [hpush]
        exact ih c' (data ++ [b]) hnext

/-- What `SAVE` pushes. -/
def saveData (mem : Mem) (start stop : UInt16) : List UInt8 :=
  [lowByte start, highByte start] ++ (addresses start stop).map mem

theorem doSave_spec (mem : Mem) (start stop : UInt16) :
    ((doSave m mem .onFile start stop).1 = true ∧
        Written m (doSave m mem .onFile start stop).2 (saveData mem start stop)) ∨
      ((doSave m mem .onFile start stop).1 = false ∧
        BlockFails m (saveData mem start stop).length) := by
  obtain ⟨c₁, hpush₁, h₁⟩ := (written_onFile m).push_byte (lowByte start) (by decide)
  obtain ⟨c₂, hpush₂, h₂⟩ := h₁.push_byte (highByte start)
    (by rw [List.nil_append, List.length_singleton]; decide)
  rw [doSave, hpush₁]
  dsimp only
  rw [hpush₂]
  exact saveLoop_spec ((addresses start stop).map mem) c₂ _ h₂

/-- Without a failing block, the loop reports success. -/
theorem not_blockFails (h : Written m c data) : ¬ BlockFails m data.length := by
  rintro ⟨j, hj, hfail⟩
  rw [h.good j hj] at hfail
  exact nomatch hfail

/-- A listing takes no byte. -/
theorem saveLoop_listing (bs : List UInt8) (hne : bs ≠ []) :
    (saveLoop m bs true .onListing).1 = false := by
  cases bs with
  | nil => exact absurd rfl hne
  | cons b bs => exact saveLoop_false bs _

/-! ## Closing -/

/-- The last write is made when the channel is closed; its result goes no further. -/
theorem Written.close (h : Written m c data) :
    (c.extCloseFile m).2.stored.take m.kept = fileContent m data := by
  rw [fileContent, ← h.buffer, WriteChannel.extCloseFile, if_pos h.writing, if_pos h.f]
  by_cases hempty : c.buffer = []
  · rw [if_neg (not_not_intro hempty), hempty, List.take_nil, List.append_nil, ← h.stored]
    rfl
  · rw [if_pos hempty, WriteChannel.write, h.writes, ← h.stored]
    cases (m.write (data.length / 512)).ok
    · rfl
    · rfl

end SoftIec
