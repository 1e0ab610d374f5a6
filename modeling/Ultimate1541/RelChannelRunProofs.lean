import Ultimate1541.RelRecordProofs

/-! # Runs of a channel on a relative file

    What a host does with the channel (positions, bytes written, bytes read, the file closed
    and opened again) is done to the list of records as well: both answer the same, after
    any sequence of these. -/

namespace RelChannel

open BlockList

variable {c : Channel} {r : Records}

/-! ## Reading -/

/-- The bytes up to the last one that is not zero, `n` of them at most. -/
theorem fetch_spec {last : Nat} (n : Nat) (hstate : c.state = .record)
    (hlast : c.lastByte = (last : Int)) (hlen : last < c.buffer.length) :
    Channel.fetch n c = (((c.buffer.drop c.prefetch).take (last + 1 - c.prefetch)).take n,
      decide (c.prefetch ≤ last ∧ last + 1 - c.prefetch ≤ n),
      { c with prefetch := (Channel.fetch n c).2.2.prefetch }) := by
  induction n generalizing c with
  | zero =>
      have hnone : ¬ (c.prefetch ≤ last ∧ last + 1 - c.prefetch ≤ 0) := by omega
      rw [decide_eq_false hnone, List.take_zero]
      rfl
  | succ n ih =>
      have hready : ¬ (c.state = .error ∨ c.state = .complete) := by
        rw [hstate]
        rintro (h | h) <;> exact nomatch h
      have hnonneg : (0 : Int) ≤ c.lastByte := hlast ▸ Int.natCast_nonneg last
      rw [Channel.fetch, Channel.prefetchData, if_neg hready, if_pos hnonneg]
      rcases Nat.lt_trichotomy c.prefetch last with hlt | heq | hgt
      · -- A byte, and others after it.
        have hin : c.prefetch < c.buffer.length := Nat.lt_trans hlt hlen
        have hone : last + 1 - c.prefetch = last + 1 - (c.prefetch + 1) + 1 := by omega
        have hall : (c.prefetch ≤ last ∧ last + 1 - c.prefetch ≤ n + 1)
            = (c.prefetch + 1 ≤ last ∧ last + 1 - (c.prefetch + 1) ≤ n) := propext (by omega)
        have hrest := ih (c := { c with prefetch := c.prefetch + 1 }) hstate hlast hlen
        rw [if_neg (by omega), if_neg (by omega)]
        dsimp only
        rw [hrest]
        simp only [hall]
        rw [List.drop_eq_getElem_cons hin, hone, List.take_succ_cons, List.take_succ_cons,
          List.getD_eq_getElem?_getD,
          List.getElem?_eq_getElem hin, Option.getD_some]
      · -- The last byte.
        have hin : c.prefetch < c.buffer.length := heq ▸ hlen
        have hall : c.prefetch ≤ last ∧ last + 1 - c.prefetch ≤ n + 1 := by omega
        have hone : last + 1 - c.prefetch = 0 + 1 := by omega
        rw [if_pos (by omega), decide_eq_true hall, hone,
          List.drop_eq_getElem_cons hin, List.take_succ_cons, List.take_zero, List.take_succ_cons,
          List.take_nil, List.getD_eq_getElem?_getD,
          List.getElem?_eq_getElem hin, Option.getD_some]
      · -- The pointer is behind the last byte.
        have hall : ¬ (c.prefetch ≤ last ∧ last + 1 - c.prefetch ≤ n + 1) := by omega
        have hnone : last + 1 - c.prefetch = 0 := by omega
        rw [if_neg (by omega), if_pos (by omega), decide_eq_false hall, hnone,
          List.take_zero, List.take_nil]

/-- Bytes before the last one. -/
theorem pop_before {last : Nat} (k : Nat) (hstate : c.state = .record)
    (hlast : c.lastByte = (last : Int)) (hk : c.pointer + k ≤ last) :
    Channel.pop k c = { c with pointer := c.pointer + k } := by
  induction k generalizing c with
  | zero => rfl
  | succ k ih =>
      have hlt : ¬ c.lastByte ≤ (c.pointer : Int) := by omega
      rw [Channel.pop, Channel.popData, if_pos hstate, if_neg hlt,
        ih (c := { c with pointer := c.pointer + 1 }) hstate hlast (by dsimp only; omega)]
      dsimp only
      rw [Nat.add_assoc, Nat.add_comm 1 k]

/-- The last byte as well. -/
theorem pop_last {last : Nat} (k : Nat) (hstate : c.state = .record)
    (hlast : c.lastByte = (last : Int)) (hk : c.pointer + k = last) :
    Channel.pop (k + 1) c = ({ c with pointer := last } : Channel).popRecord.2 := by
  induction k generalizing c with
  | zero =>
      have hpointer : c.pointer = last := hk
      rw [Channel.pop, Channel.pop, Channel.popData, if_pos hstate, if_pos (by omega), ← hpointer]
  | succ k ih =>
      have hlt : ¬ c.lastByte ≤ (c.pointer : Int) := by omega
      rw [Channel.pop, Channel.popData, if_pos hstate, if_neg hlt]
      exact ih (c := { c with pointer := c.pointer + 1 }) hstate hlast (by dsimp only; omega)

theorem readRecord_error (c : Channel) (offset : Nat) : (c.readRecord offset).2.error = c.error := by
  rw [Channel.readRecord]
  split
  · dsimp only
    split <;> rfl
  · rfl

theorem Stored.length_rest (h : Stored c r) : r.rest.length = r.last + 1 - r.offset := by
  have hlt := h.last_lt
  rw [Records.rest, List.length_take, List.length_drop, h.length_record]
  omega

theorem Shows.setPrefetch (h : Shows c r) (prefetch : Nat) : Shows { c with prefetch := prefetch } r :=
  ⟨⟨h.isOpen, h.size_pos, h.size_le, h.recordSize, h.dataOffset, h.unprotected, h.even, h.bytes⟩,
    h.state, h.buffer, h.recordOffset, h.pointer, h.lastByte, h.missing, h.clean, h.offset,
    h.offset_missing, h.pos⟩

theorem Shows.last_missing (_ : Shows c r) (hp : r.present = false) : r.last = 0 := by
  rw [Records.last, Records.record_missing (present_eq_false_iff.mp hp), lastUsed_emptyRecord]

theorem Shows.pop_before (h : Shows c r) {k : Nat} (hk : r.offset + k ≤ r.last) :
    Shows (Channel.pop k c) { r with offset := r.offset + k } ∧
      (Channel.pop k c).error = c.error := by
  have hpointer := h.pointer
  rw [RelChannel.pop_before k h.state h.lastByte (by omega)]
  have hlt := h.last_lt
  refine ⟨⟨⟨h.isOpen, h.size_pos, h.size_le, h.recordSize, h.dataOffset, h.unprotected, h.even,
    h.bytes⟩, h.state, h.buffer, h.recordOffset, ?_, h.lastByte, h.missing, h.clean, ?_, ?_, h.pos⟩, rfl⟩
  · show c.pointer + k = r.offset + k
    rw [hpointer]
  · show r.offset + k < r.size
    omega
  · intro hp
    have hzero := h.last_missing hp
    show r.offset + k = 0
    omega

/-- The next record starts with its first byte. -/
theorem Records.goTo_zero (r : Records) (current : Nat) : (r.goTo current 0).offset = 0 := ite_self 0

/-- The last byte of a record has been taken: the next record, if this one is there. -/
theorem Shows.popRecord (h : Shows c r) (pointer : Nat) :
    Shows ({ c with pointer := pointer } : Channel).popRecord.2
        (if r.present then r.goTo (r.current + 1) 0 else { r with error := .recordNotPresent }) ∧
      ({ c with pointer := pointer } : Channel).popRecord.2.error =
        if r.present then c.error else .recordNotPresent := by
  have hmissing := h.missing
  rw [Channel.popRecord]
  by_cases hp : r.present = true
  · have hthere : ¬ c.recordMissing = true := by
      rw [hmissing, hp]
      decide
    have hstored : Stored { c with pointer := pointer, recordOffset := c.recordOffset + c.recordSize }
        (r.goTo (r.current + 1) 0) :=
      ⟨h.isOpen, h.size_pos, h.size_le, h.recordSize, h.dataOffset, h.unprotected, h.even, h.bytes⟩
    have hoffset : c.recordOffset + c.recordSize = 2 + (r.current + 1) * r.size := by
      rw [h.recordOffset, h.recordSize, Nat.succ_mul, Nat.add_assoc]
    have hpos : c.file.pos = c.recordOffset + c.recordSize := by
      rw [h.pos hp, h.recordSize]
    have hzero := r.goTo_zero (r.current + 1)
    obtain ⟨hok, hshows⟩ := Stored.readRecord hstored hoffset hpos (fun _ => hzero) h.size_pos
      (fun _ => hzero)
    have herror := readRecord_error
      { c with pointer := pointer, recordOffset := c.recordOffset + c.recordSize } 0
    rw [hp, if_neg hthere, if_pos rfl, if_pos rfl]
    generalize Channel.readRecord _ 0 = res at hok hshows herror ⊢
    obtain ⟨_, c'⟩ := res
    cases hok
    exact ⟨hshows, herror⟩
  · have hfalse : r.present = false := Bool.eq_false_iff.mpr hp
    have htrue : c.recordMissing = true := by
      rw [hmissing, hfalse]
      rfl
    rw [hfalse, if_pos htrue, if_neg (by decide), if_neg (by decide)]
    refine ⟨⟨⟨h.isOpen, h.size_pos, h.size_le, h.recordSize, h.dataOffset, h.unprotected, h.even,
      h.bytes⟩, h.state, h.buffer, h.recordOffset, (h.offset_missing hfalse).symm, h.lastByte,
      h.missing, h.clean, h.offset, h.offset_missing, h.pos⟩, rfl⟩

theorem Shows.pop_last (h : Shows c r) {k : Nat} (hk : r.offset + k = r.last) :
    Shows (Channel.pop (k + 1) c)
        (if r.present then r.goTo (r.current + 1) 0 else { r with error := .recordNotPresent }) ∧
      (Channel.pop (k + 1) c).error = if r.present then c.error else .recordNotPresent := by
  rw [RelChannel.pop_last k h.state h.lastByte (h.pointer.symm ▸ hk)]
  exact h.popRecord r.last

/-- The channel talks as the list of records does. -/
theorem Shows.talk (h : Shows c r) (herror : c.error = r.error) (n m : Nat) :
    (c.talk n m).1 = (r.talk n m).1 ∧ (c.talk n m).2.1 = (r.talk n m).2.1 ∧
      Shows (c.talk n m).2.2 (r.talk n m).2.2 ∧
      (c.talk n m).2.2.error = (r.talk n m).2.2.error := by
  have hlen := h.length_rest
  have hfetch := fetch_spec n (c := c.resetPrefetch) h.state h.lastByte
    (show r.last < c.buffer.length by rw [h.buffer, h.length_record]; exact h.last_lt)
  have hshows := h.setPrefetch (Channel.fetch n c.resetPrefetch).2.2.prefetch
  have hbytes : (Channel.fetch n c.resetPrefetch).1 = r.rest.take n := by
    rw [hfetch, Records.rest, ← h.buffer, ← h.pointer]
    rfl
  have hsame : (Channel.fetch n c.resetPrefetch).2.2
      = { c with prefetch := (Channel.fetch n c.resetPrefetch).2.2.prefetch } := by
    rw [hfetch]
    rfl
  have hend : (Channel.fetch n c.resetPrefetch).2.1 = (!r.rest.isEmpty && decide (r.rest.length ≤ n)) := by
    have hempty : (!r.rest.isEmpty) = decide (r.offset ≤ r.last) := by
      rw [Bool.eq_iff_iff, Bool.not_eq_true', List.isEmpty_eq_false_iff_exists_mem, decide_eq_true_iff,
        ← List.length_pos_iff_exists_mem, hlen]
      omega
    rw [hempty, hlen, ← Bool.decide_and, hfetch, ← h.pointer]
    rfl
  rw [Channel.talk, Records.talk]
  dsimp only
  rw [hbytes, hend, hsame]
  generalize (Channel.fetch n c.resetPrefetch).2.2.prefetch = p at hshows ⊢
  refine ⟨rfl, rfl, ?_⟩
  by_cases hall : (!r.rest.isEmpty && decide (r.rest.length ≤ n) &&
      decide ((r.rest.take n).length ≤ m)) = true
  · -- All that is left is taken.
    rw [if_pos hall]
    rw [Bool.and_eq_true, Bool.and_eq_true, decide_eq_true_iff, decide_eq_true_iff,
      List.length_take] at hall
    obtain ⟨⟨hne, hn⟩, hm⟩ := hall
    have hpos : 0 < r.rest.length := by
      rw [List.length_pos_iff]
      rintro hnil
      rw [hnil] at hne
      exact nomatch hne
    have hcount : min m (r.rest.take n).length = (r.last - r.offset) + 1 := by
      rw [List.length_take]
      omega
    rw [hcount]
    obtain ⟨hs, he⟩ := hshows.pop_last (k := r.last - r.offset) (by omega)
    refine ⟨hs, he.trans ?_⟩
    split
    · exact herror
    · rfl
  · rw [if_neg hall]
    have hk : r.offset + min m (r.rest.take n).length ≤ r.last ∨
        min m (r.rest.take n).length = 0 := by
      rw [Bool.and_eq_true, Bool.and_eq_true, decide_eq_true_iff, decide_eq_true_iff,
        Bool.not_eq_true', List.isEmpty_eq_false_iff_exists_mem, ← List.length_pos_iff_exists_mem,
        List.length_take] at hall
      rw [List.length_take]
      omega
    rcases hk with hk | hk
    · obtain ⟨hs, he⟩ := hshows.pop_before hk
      exact ⟨hs, he.trans herror⟩
    · rw [hk]
      exact ⟨hshows, herror⟩

/-! ## Writing, positions, and opening -/

/-- What is written, as the channel has it in its buffer. -/
theorem Pushed.written {c' : Channel} {data : List UInt8} (h : Shows c r) (hp : Pushed c data c') :
    c'.buffer.take c'.pointer ++ List.replicate (r.size - c'.pointer) 0 = r.written data := by
  have hpointer : c'.pointer
      = (r.record.take r.offset ++ data.take (r.size - r.offset)).length := by
    have hoffset := h.offset
    rw [hp.pointer, List.length_append, List.length_take (l := r.record), h.length_record, h.pointer,
      h.recordSize, Nat.min_eq_left (Nat.le_of_lt hoffset)]
  rw [Records.written, ← hpointer, hp.bytes, h.buffer, h.pointer, h.recordSize]

theorem Stored.length_written (h : Stored c r) (hoffset : r.offset < r.size) (data : List UInt8) :
    (r.written data).length = r.size := by
  simp only [Records.written, List.length_append, List.length_take, List.length_replicate,
    h.length_record]
  omega

theorem Stored.even_write (h : Stored c r) (hoffset : r.offset < r.size) (data : List UInt8) :
    Even (r.write data).size (r.write data).records := by
  have hlen := h.length_written hoffset data
  rw [Records.write]
  show Even r.size (if r.present then _ else _)
  split
  · exact h.even.set hlen _
  · refine (h.even.append (even_replicate (length_emptyRecord h.size_pos) _)).append ?_
    intro b hb
    rw [List.mem_singleton.mp hb]
    exact hlen

/-- The channel listens as the list of records is written. -/
theorem Shows.listen (h : Shows c r) (herror : c.error = r.error) {data : List UInt8}
    (hdata : data ≠ []) :
    Shows (c.listen data) (r.write data) ∧ (c.listen data).error = (r.write data).error := by
  have hreset : Shows c.resetPrefetch r := h.setPrefetch c.pointer
  have hpushed := push_pushed (c := c.resetPrefetch) data h.state
    (by show c.buffer.length = c.recordSize; rw [h.buffer, h.length_record, h.recordSize])
    (by show c.pointer ≤ c.recordSize; rw [h.pointer, h.recordSize]; exact Nat.le_of_lt h.offset)
  have hwritten := hpushed.written hreset
  rw [Channel.listen]
  generalize data.foldl (fun c b => (c.pushData b).2) c.resetPrefetch = c' at hpushed hwritten ⊢
  have hsame := hpushed.same
  have hstored : Stored c' r := by
    rw [hsame]
    exact ⟨h.isOpen, h.size_pos, h.size_le, h.recordSize, h.dataOffset, h.unprotected, h.even, h.bytes⟩
  have hstate : c'.state = .record := by
    rw [hsame]
    exact h.state
  have hoffset : c'.recordOffset = 2 + r.current * r.size := by
    rw [hsame]
    exact h.recordOffset
  have hlow := h.offset
  have hpointer : c'.pointer = r.offset + (data.take (r.size - r.offset)).length := by
    rw [hpushed.pointer, hreset.pointer, hreset.recordSize]
  have hmoved : 0 < (data.take (r.size - r.offset)).length := by
    have hpos := List.length_pos_iff.mpr hdata
    rw [List.length_take]
    omega
  have hdirty : c'.recordDirty = true := by
    rw [hpushed.dirty, hpushed.pointer, hreset.recordSize, hreset.pointer,
      decide_eq_true (Nat.lt_add_of_pos_right hmoved), Bool.or_true]
  have hhigh : c'.pointer ≤ r.size := by
    rw [hpointer, List.length_take]
    omega
  have hbuffer : c'.buffer.length = r.size := by
    rw [hpushed.length, hreset.buffer, h.length_record]
  have hwrite := hstored.writeRecord hoffset hdirty (by omega) hhigh hbuffer
  rw [hwritten] at hwrite
  rw [Channel.endOfData, if_pos hstate, hwrite]
  refine ⟨(Stored.readRecord (r := r.write data) ?_ ?_ ?_ ?_ ?_ ?_).2, ?_⟩
  · exact ⟨hstored.isOpen, h.size_pos, h.size_le, hstored.recordSize, hstored.dataOffset,
      hstored.unprotected, h.even_write hlow data, rfl⟩
  · show c'.recordOffset + r.size = 2 + (r.current + 1) * r.size
    rw [hoffset, Nat.succ_mul, Nat.add_assoc]
  · rfl
  · exact fun _ => Records.goTo_zero _ _
  · exact h.size_pos
  · exact fun _ => Records.goTo_zero _ _
  · rw [readRecord_error]
    show c'.error = if r.size - r.offset < data.length then .overflowInRecord else r.error
    rw [hpushed.error, hreset.recordSize, hreset.pointer, ← herror]
    rfl

theorem Shows.setError (h : Shows c r) (error error' : DosError) :
    Shows { c with error := error } { r with error := error' } :=
  ⟨⟨h.isOpen, h.size_pos, h.size_le, h.recordSize, h.dataOffset, h.unprotected, h.even, h.bytes⟩,
    h.state, h.buffer, h.recordOffset, h.pointer, h.lastByte, h.missing, h.clean, h.offset,
    h.offset_missing, h.pos⟩

theorem Shows.position (h : Shows c r) (recordNumber offset : Nat) :
    Shows (c.position recordNumber offset) (r.position recordNumber offset) ∧
      (c.position recordNumber offset).error = (r.position recordNumber offset).error := by
  obtain ⟨herror, hshows⟩ := h.toStored.seekRecord h.clean recordNumber offset
  rw [Channel.position, if_pos h.isOpen, if_pos h.state]
  exact ⟨hshows.setError _ _, herror⟩

theorem seekRecord_error (h : Stored c r) (hclean : c.recordDirty = false) (recordNumber offset : Nat) :
    (c.seekRecord recordNumber offset).2.error = c.error := by
  rw [seekRecord_eq h hclean]
  split
  · rfl
  · exact readRecord_error _ _

/-- The head of the file tells where the records start, and how long they are. -/
theorem Stored.relLayout {c : Channel} {r : Records} (hpos : 0 < r.size) (hle : r.size ≤ 254)
    (heven : Even r.size r.records) (hbytes : c.file.bytes = [UInt8.ofNat r.size, 0] ++ r.records.flatten)
    (hstart : c.file.pos = 0) (hoffset : c.dataOffset = 0) (wrapped : Nat) :
    c.relLayout wrapped = (2, r.size) := by
  have hhead : c.file.ahead 2 = [UInt8.ofNat r.size, 0] := by
    rw [File.ahead, hstart, hbytes]
    rfl
  have hlength : (UInt8.ofNat r.size).toNat = r.size :=
    UInt8.toNat_ofNat_of_lt (by show r.size < 256; omega)
  have hsize : c.file.size % r.size = 2 % r.size := by
    rw [File.size, hbytes, List.length_append, length_flatten heven]
    exact Nat.add_mul_mod_self_right 2 _ _
  have hfirst : ([UInt8.ofNat r.size, 0].getD 0 0).toNat = r.size := hlength
  have hsecond : ¬ (2 ≤ [UInt8.ofNat r.size, 0].length ∧ [UInt8.ofNat r.size, 0].getD 1 0 ≠ 0) :=
    fun h => h.2 rfl
  have hexact : ¬ (1 < r.size ∧ c.file.size % r.size ≠ 2 % r.size ∧
      c.file.size % r.size = 1 % r.size) := fun h => h.2.1 hsize
  rw [Channel.relLayout, if_neg (fun h => h hoffset)]
  dsimp only
  rw [hhead, hfirst, if_neg hsecond, if_neg hexact]
  exact ite_self _

/-- The channel before the first record is read. -/
def Channel.opening (c : Channel) (size dataOffset : Nat) (state : IecChannel.State) : Channel :=
  { c with
    isOpen := true
    lastByte := -1
    pointer := 0
    prefetch := 0
    prefetchMax := 512
    state := state
    error := .allOk
    recordSize := size
    dataOffset := dataOffset
    file := c.file.seek 0 }

/-- A file that is not empty, and has the record length that is asked for. -/
theorem setupFileAccess_eq (c : Channel) {recordLength size : Nat} (hsize : c.file.size ≠ 0)
    (hlayout : (c.opening 0 0 .file).relLayout 0 = (2, size)) (hpos : size ≠ 0)
    (hlength : ¬ (recordLength ≠ 0 ∧ size ≠ recordLength)) :
    c.setupFileAccess recordLength (0, 0) =
      match (c.opening size 2 .record).seekRecord 1 1 with
      | (.allOk, c) => c
      | (err, c) => { c with error := err } := by
  have hseek : (c.file.seek 0).size ≠ 0 := hsize
  rw [Channel.opening] at hlayout
  rw [Channel.setupFileAccess]
  simp only [hseek, hlayout, hpos, hlength, if_false]
  rfl

/-- The file is found again as it was. -/
theorem Shows.reopen (h : Shows c r) {recordLength : Nat}
    (hgiven : recordLength = 0 ∨ recordLength = r.size) :
    Shows (c.reopen recordLength) r.opened ∧ (c.reopen recordLength).error = r.opened.error := by
  have hclose : c.close.2 = ({ c with state := .idle } : Channel).closeFile := by
    have hclean : ({ c with state := .idle } : Channel).writeRecord = (.ok, { c with state := .idle }) := by
      rw [Channel.writeRecord]
      dsimp only
      rw [h.clean]
      rfl
    rw [Channel.close, if_pos h.state, hclean]
  have hnonempty : c.file.size ≠ 0 := by
    rw [h.size_file]
    omega
  have hlength : ¬ (recordLength ≠ 0 ∧ r.size ≠ recordLength) := by
    rcases hgiven with rfl | rfl
    · exact fun h => h.1 rfl
    · exact fun h => h.2 rfl
  rw [Channel.reopen, hclose]
  generalize hc : ({ c with state := .idle } : Channel).closeFile.closeFile = c₀
  have hfile : c₀.file = c.file := by
    rw [← hc]
    rfl
  have hstored : Stored (c₀.opening r.size 2 .record) { r with error := .allOk } := by
    rw [← hc]
    exact ⟨rfl, h.size_pos, h.size_le, rfl, rfl, h.unprotected, h.even, h.bytes⟩
  have hclean : (c₀.opening r.size 2 .record).recordDirty = false := by
    rw [← hc]
    exact h.clean
  have hlayout : (c₀.opening 0 0 .file).relLayout 0 = (2, r.size) :=
    Stored.relLayout (c := c₀.opening 0 0 .file) h.size_pos h.size_le h.even
      ((congrArg File.bytes hfile).trans h.bytes) rfl rfl 0
  rw [setupFileAccess_eq c₀ (hfile.symm ▸ hnonempty) hlayout (Nat.ne_of_gt h.size_pos) hlength,
    Records.opened]
  obtain ⟨herror, hshows⟩ := hstored.seekRecord hclean 1 1
  have hkept : _ = DosError.allOk := seekRecord_error hstored hclean 1 1
  generalize (c₀.opening r.size 2 .record).seekRecord 1 1 = res at herror hshows hkept ⊢
  obtain ⟨error, c'⟩ := res
  cases error with
  | allOk => exact ⟨hshows, hkept.trans herror⟩
  | _ => exact ⟨hshows.setError _ _, herror⟩

theorem create_eq (c : Channel) (size : Nat) :
    c.create size = ({ (c.opening size 2 .file) with
      file := ⟨[UInt8.ofNat size, 0], 2⟩
      recordOffset := 2 } : Channel).setMissingRecord := rfl

/-- A file that has been made has no records. -/
theorem shows_create (c : Channel) {size : Nat} (hpos : 0 < size) (hle : size ≤ 254)
    (hprotected : c.writeProtected = false) :
    Shows (c.create size) (Records.created size) ∧
      (c.create size).error = (Records.created size).error := by
  rw [create_eq]
  refine ⟨Stored.setMissing (r := Records.created size) ?_ ?_ (Nat.le_refl 0) rfl, rfl⟩
  · exact ⟨rfl, hpos, hle, rfl, rfl, hprotected, (fun _ h => nomatch h), rfl⟩
  · show 2 = 2 + 0 * size
    rw [Nat.zero_mul]

/-! ## Runs -/

/-- What a host does with the channel. -/
inductive Op
  | position (recordNumber offset : Nat)
  | write (data : List UInt8)
  | read (n m : Nat)
  | reopen (recordLength : Nat)

/-- Bytes are written with the end of the data, and a file is opened with its own record
    length or with none. -/
def Op.Regular (size : Nat) : Op → Prop
  | .position _ _ => True
  | .write data => data ≠ []
  | .read _ _ => True
  | .reopen recordLength => recordLength = 0 ∨ recordLength = size

/-- What the host gets: bytes, whether the last of them is the end, and the error. -/
structure Answer where
  bytes : List UInt8
  eoi : Bool
  error : DosError
  deriving DecidableEq

def Channel.perform (c : Channel) : Op → Answer × Channel
  | .position recordNumber offset =>
      let c := c.position recordNumber offset
      (⟨[], false, c.error⟩, c)
  | .write data =>
      let c := c.listen data
      (⟨[], false, c.error⟩, c)
  | .read n m =>
      let t := c.talk n m
      (⟨t.1, t.2.1, t.2.2.error⟩, t.2.2)
  | .reopen recordLength =>
      let c := c.reopen recordLength
      (⟨[], false, c.error⟩, c)

def Records.perform (r : Records) : Op → Answer × Records
  | .position recordNumber offset =>
      let r := r.position recordNumber offset
      (⟨[], false, r.error⟩, r)
  | .write data =>
      let r := r.write data
      (⟨[], false, r.error⟩, r)
  | .read n m =>
      let t := r.talk n m
      (⟨t.1, t.2.1, t.2.2.error⟩, t.2.2)
  | .reopen _ =>
      let r := r.opened
      (⟨[], false, r.error⟩, r)

/-- A number of operations, and the answers. -/
def Channel.run (c : Channel) : List Op → List Answer × Channel
  | [] => ([], c)
  | op :: ops =>
      let next := (c.perform op).2.run ops
      ((c.perform op).1 :: next.1, next.2)

def Records.run (r : Records) : List Op → List Answer × Records
  | [] => ([], r)
  | op :: ops =>
      let next := (r.perform op).2.run ops
      ((r.perform op).1 :: next.1, next.2)

theorem Records.perform_size (r : Records) (op : Op) : (r.perform op).2.size = r.size := by
  cases op with
  | read n m =>
      show (r.talk n m).2.2.size = r.size
      rw [Records.talk]
      dsimp only
      split
      · split <;> rfl
      · rfl
  | _ => rfl

/-- One operation is answered the same, and the channel still shows the records. -/
theorem Shows.perform (h : Shows c r) (herror : c.error = r.error) {op : Op}
    (hop : op.Regular r.size) :
    (c.perform op).1 = (r.perform op).1 ∧ Shows (c.perform op).2 (r.perform op).2 ∧
      (c.perform op).2.error = (r.perform op).2.error := by
  cases op with
  | position recordNumber offset =>
      obtain ⟨hs, he⟩ := h.position recordNumber offset
      exact ⟨congrArg (Answer.mk [] false) he, hs, he⟩
  | write data =>
      obtain ⟨hs, he⟩ := h.listen herror hop
      exact ⟨congrArg (Answer.mk [] false) he, hs, he⟩
  | read n m =>
      obtain ⟨hbytes, heoi, hs, he⟩ := h.talk herror n m
      refine ⟨?_, hs, he⟩
      rw [Channel.perform, Records.perform]
      dsimp only
      rw [hbytes, heoi, he]
  | reopen recordLength =>
      obtain ⟨hs, he⟩ := h.reopen hop
      exact ⟨congrArg (Answer.mk [] false) he, hs, he⟩

/-- Any number of operations. -/
theorem Shows.run (h : Shows c r) (herror : c.error = r.error) (ops : List Op)
    (hops : ∀ op ∈ ops, op.Regular r.size) :
    (c.run ops).1 = (r.run ops).1 ∧ Shows (c.run ops).2 (r.run ops).2 := by
  induction ops generalizing c r with
  | nil => exact ⟨rfl, h⟩
  | cons op ops ih =>
      obtain ⟨hanswer, hs, he⟩ := h.perform herror (hops op (List.mem_cons_self ..))
      have hrest : ∀ op' ∈ ops, op'.Regular (r.perform op).2.size := fun op' hmem => by
        rw [r.perform_size op]
        exact hops op' (List.mem_cons_of_mem _ hmem)
      obtain ⟨hanswers, hfinal⟩ := ih hs he hrest
      refine ⟨?_, hfinal⟩
      rw [Channel.run, Records.run]
      dsimp only
      rw [hanswer, hanswers]

/-- A channel on a relative file, from its making on, is a list of records with a current
    one: it answers the same, and after any operations it shows the current record, which
    is the one that the next write goes to. -/
theorem channel_refines_records (c : Channel) {size : Nat} (hpos : 0 < size) (hle : size ≤ 254)
    (hprotected : c.writeProtected = false) (ops : List Op)
    (hops : ∀ op ∈ ops, op.Regular size) :
    ((c.create size).run ops).1 = ((Records.created size).run ops).1 ∧
      Shows ((c.create size).run ops).2 ((Records.created size).run ops).2 := by
  obtain ⟨hshows, herror⟩ := shows_create c hpos hle hprotected
  exact hshows.run herror ops hops

/-- A channel that has not been used. -/
def Channel.idle : Channel where
  file := ⟨[], 0⟩
  isOpen := false
  inImage := false
  state := .idle
  buffer := []
  pointer := 0
  prefetch := 0
  prefetchMax := 0
  lastByte := -1
  recordSize := 0
  recordOffset := 0
  dataOffset := 0
  recordDirty := false
  recordMissing := false
  writeProtected := false
  error := .allOk

/-- Records of ten bytes: the third is written, the first is read, and the file is opened
    again. -/
theorem channel_refines_records_three :
    ((Channel.idle.create 10).run
        [.position 3 1, .write [65, 66], .position 1 1, .read 20 20, .reopen 10]).1 =
      ((Records.created 10).run
        [.position 3 1, .write [65, 66], .position 1 1, .read 20 20, .reopen 10]).1 ∧
    Shows ((Channel.idle.create 10).run
        [.position 3 1, .write [65, 66], .position 1 1, .read 20 20, .reopen 10]).2
      ((Records.created 10).run
        [.position 3 1, .write [65, 66], .position 1 1, .read 20 20, .reopen 10]).2 :=
  channel_refines_records Channel.idle (by decide) (by decide) rfl _ (by
    intro op hop
    fin_cases hop
    · exact trivial
    · exact nofun
    · exact trivial
    · exact trivial
    · exact Or.inr rfl)

/-- The end of the data with no bytes before it: the channel shows the second record, and
    the next write goes to the first.  A position behind the end with an offset behind the
    record answers that the record is too long. -/
theorem not_refines_empty_write :
    ((Channel.idle.create 10).run
      [.write [65], .write [66], .position 1 1, .write []]).2.buffer = 66 :: List.replicate 9 0 ∧
    ((Channel.idle.create 10).run
      [.write [65], .write [66], .position 1 1, .write [], .write [67]]).2.file.bytes
        = [10, 0] ++ (67 :: List.replicate 9 0) ++ (66 :: List.replicate 9 0) ∧
    ((Channel.idle.create 10).run [.position 5 200]).2.error = .overflowInRecord := by
  decide +kernel

end RelChannel
