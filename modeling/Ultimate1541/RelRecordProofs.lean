import Ultimate1541.BlockListProofs
import Ultimate1541.RelChannelProofs

/-! # A relative file as a list of records

    What a channel on a relative file is for: a list of records, one of which is the
    current one.  Positioning chooses it, reading gives its bytes up to the last one that
    is not zero, and writing replaces it from where it has been read; both go on with the
    next one.  A record past the end is an empty one, and is not there until it is written.

    The channel keeps to this (`Shows`), through any sequence of positions, writes of one
    byte or more, reads, and closing and opening again. -/

namespace RelChannel

open BlockList

/-- The records, the current one, and where in it the next byte is. -/
structure Records where
  size : Nat
  records : List (List UInt8)
  current : Nat
  offset : Nat
  error : DosError

namespace Records

/-- The record that is current. -/
def record (r : Records) : List UInt8 := r.records.getD r.current (emptyRecord r.size)

/-- Its last byte that is not zero, or the first. -/
def last (r : Records) : Nat := lastUsed r.record (r.size - 1)

/-- The current record is in the file. -/
def present (r : Records) : Bool := decide (r.current < r.records.length)

/-- Another record is chosen, if it is there also the byte in it. -/
def goTo (r : Records) (current offset : Nat) : Records :=
  { r with
    current := current
    offset := if current < r.records.length then offset else 0 }

/-- Position to a record and an offset, both counted from 1. -/
def position (r : Records) (recordNumber offset : Nat) : Records :=
  let r := r.goTo (recordNumber - 1) (min (offset - 1) (r.size - 1))
  { r with
    error :=
      if r.size < offset then .overflowInRecord
      else if r.present then .allOk
      else .recordNotPresent }

/-- What is left to read. -/
def rest (r : Records) : List UInt8 := (r.record.drop r.offset).take (r.last + 1 - r.offset)

/-- `n` bytes at most are sent, and `m` of them at most are taken. -/
def talk (r : Records) (n m : Nat) : List UInt8 × Bool × Records :=
  let sent := r.rest.take n
  let all := !r.rest.isEmpty && decide (r.rest.length ≤ n) && decide (sent.length ≤ m)
  (sent.take m, all,
    if all then
      if r.present then r.goTo (r.current + 1) 0 else { r with error := .recordNotPresent }
    else { r with offset := r.offset + min m sent.length })

/-- The record that is written: what was before the offset, the bytes that fit, and zeros. -/
def written (r : Records) (data : List UInt8) : List UInt8 :=
  let bytes := r.record.take r.offset ++ data.take (r.size - r.offset)
  bytes ++ List.replicate (r.size - bytes.length) 0

/-- The current record is replaced; when it is past the end, empty ones come before it. -/
def write (r : Records) (data : List UInt8) : Records :=
  ({ r with
    records :=
      if r.present then r.records.set r.current (r.written data)
      else r.records ++ List.replicate (r.current - r.records.length) (emptyRecord r.size) ++
        [r.written data]
    error := if r.size - r.offset < data.length then .overflowInRecord else r.error } : Records).goTo
    (r.current + 1) 0

/-- The file is opened. -/
def opened (r : Records) : Records := ({ r with error := .allOk } : Records).position 1 1

/-- A file that has been made. -/
def created (size : Nat) : Records := ⟨size, [], 0, 0, .allOk⟩

end Records

/-! ## What the channel shows -/

variable {c : Channel} {r : Records}

/-- The file holds the records. -/
structure Stored (c : Channel) (r : Records) : Prop where
  isOpen : c.isOpen = true
  size_pos : 0 < r.size
  size_le : r.size ≤ 254
  recordSize : c.recordSize = r.size
  dataOffset : c.dataOffset = 2
  unprotected : c.writeProtected = false
  even : Even r.size r.records
  bytes : c.file.bytes = [UInt8.ofNat r.size, 0] ++ r.records.flatten

/-- The channel shows the current record, and it is the one that the next write goes to. -/
structure Shows (c : Channel) (r : Records) : Prop extends Stored c r where
  state : c.state = .record
  buffer : c.buffer = r.record
  recordOffset : c.recordOffset = 2 + r.current * r.size
  pointer : c.pointer = r.offset
  lastByte : c.lastByte = r.last
  missing : c.recordMissing = !r.present
  clean : c.recordDirty = false
  offset : r.offset < r.size
  offset_missing : r.present = false → r.offset = 0
  pos : r.present = true → c.file.pos = c.recordOffset + r.size

theorem present_iff : r.present = true ↔ r.current < r.records.length := by
  rw [Records.present, decide_eq_true_iff]

theorem present_eq_false_iff : r.present = false ↔ r.records.length ≤ r.current := by
  rw [Records.present, decide_eq_false_iff_not, Nat.not_lt]

theorem length_emptyRecord {n : Nat} (h : 0 < n) : (emptyRecord n).length = n := by
  rw [emptyRecord, List.length_cons, List.length_replicate]
  omega

theorem Records.record_present (h : r.current < r.records.length) :
    r.records[r.current]? = some r.record := by
  rw [Records.record, List.getD_eq_getElem?_getD, List.getElem?_eq_getElem h, Option.getD_some]

theorem Records.record_missing (h : r.records.length ≤ r.current) :
    r.record = emptyRecord r.size := by
  rw [Records.record, List.getD_eq_getElem?_getD, List.getElem?_eq_none h, Option.getD_none]

theorem Stored.length_record (h : Stored c r) : r.record.length = r.size := by
  by_cases hk : r.current < r.records.length
  · exact h.even _ (List.mem_of_getElem? (Records.record_present hk))
  · rw [Records.record_missing (Nat.le_of_not_lt hk)]
    exact length_emptyRecord h.size_pos

theorem Stored.size_file (h : Stored c r) : c.file.size = 2 + r.records.length * r.size := by
  rw [File.size, h.bytes, List.length_append, length_flatten h.even]
  rfl

theorem head_drop {α : Type} (a b : α) (l : List α) (m : Nat) :
    ([a, b] ++ l).drop (2 + m) = l.drop m := by
  rw [← List.drop_drop]
  rfl

theorem head_take {α : Type} (a b : α) (l : List α) (m : Nat) :
    ([a, b] ++ l).take (2 + m) = [a, b] ++ l.take m := by
  rw [List.take_add]
  rfl

/-- The zeros of an empty record. -/
theorem lastUsed_emptyRecord (n i : Nat) : lastUsed (emptyRecord n) i = 0 := by
  induction i with
  | zero => rfl
  | succ i ih =>
      have hzero : (emptyRecord n).getD (i + 1) 0 = 0 := by
        rw [emptyRecord, List.getD_cons_succ, List.getD_eq_getElem?_getD, List.getElem?_replicate]
        split <;> rfl
      rw [lastUsed, hzero, if_neg (fun h => h rfl)]
      exact ih

theorem lastUsed_le (buffer : List UInt8) (i : Nat) : lastUsed buffer i ≤ i := by
  induction i with
  | zero => exact Nat.le_refl 0
  | succ i ih =>
      rw [lastUsed]
      split
      · exact Nat.le_refl _
      · exact Nat.le_succ_of_le ih

theorem Stored.last_lt (h : Stored c r) : r.last < r.size := by
  have hle := lastUsed_le r.record (r.size - 1)
  have hpos := h.size_pos
  rw [Records.last]
  omega

/-! ## Reading and missing records -/

theorem set_replicate {n : Nat} (h : 0 < n) :
    (List.replicate n (0 : UInt8)).set 0 255 = emptyRecord n := by
  cases n with
  | zero => exact absurd h (Nat.lt_irrefl 0)
  | succ n => rfl

/-- A record past the end. -/
theorem Stored.setMissing (h : Stored c r) (hoffset : c.recordOffset = 2 + r.current * r.size)
    (hmissing : r.records.length ≤ r.current) (hzero : r.offset = 0) :
    Shows c.setMissingRecord r := by
  have hfalse := present_eq_false_iff.mpr hmissing
  have hrecord := Records.record_missing hmissing
  refine ⟨⟨h.isOpen, h.size_pos, h.size_le, h.recordSize, h.dataOffset, h.unprotected, h.even,
    h.bytes⟩, rfl, ?_, hoffset, hzero.symm, ?_, ?_, rfl, hzero ▸ h.size_pos, fun _ => hzero,
    fun hp => nomatch hfalse.symm.trans hp⟩
  · rw [hrecord, Channel.setMissingRecord]
    dsimp only
    rw [h.recordSize, set_replicate h.size_pos]
  · rw [Records.last, hrecord, lastUsed_emptyRecord]
    rfl
  · rw [hfalse]
    rfl

/-- The next record is read, or there is none. -/
theorem Stored.readRecord {offset : Nat} (h : Stored c r)
    (hoffset : c.recordOffset = 2 + r.current * r.size) (hpos : c.file.pos = c.recordOffset)
    (hpresent : r.present = true → r.offset = offset)
    (hlt : offset < r.size) (hzero : r.present = false → r.offset = 0) :
    (c.readRecord offset).1 = .ok ∧ Shows (c.readRecord offset).2 r := by
  have hahead : c.file.ahead c.recordSize = (r.records.drop r.current).flatten.take r.size := by
    rw [File.ahead, hpos, hoffset, h.bytes, h.recordSize, head_drop, drop_flatten h.even]
  rw [Channel.readRecord, if_pos h.isOpen]
  dsimp only
  by_cases hk : r.current < r.records.length
  · have htrue := present_iff.mpr hk
    have hrecord : c.file.ahead c.recordSize = r.record := by
      rw [hahead, ← drop_flatten h.even]
      exact read_block h.even (Records.record_present hk)
    have hlen := h.length_record
    have hne : ¬ r.record.isEmpty = true := by
      rw [List.isEmpty_iff]
      intro hnil
      rw [hnil] at hlen
      exact absurd hlen (Nat.ne_of_lt h.size_pos)
    rw [hrecord, if_neg hne, hlen, h.recordSize, Nat.sub_self, List.replicate_zero, List.append_nil]
    refine ⟨rfl, ⟨h.isOpen, h.size_pos, h.size_le, rfl, h.dataOffset, h.unprotected, h.even, h.bytes⟩,
      rfl, rfl, hoffset, (hpresent htrue).symm, rfl, ?_, rfl, (hpresent htrue).symm ▸ hlt, hzero, ?_⟩
    · rw [htrue]
      rfl
    · intro _
      show c.file.pos + (c.file.ahead r.size).length = c.recordOffset + r.size
      rw [← h.recordSize, hrecord, hlen, hpos, h.recordSize]
  · have hge := Nat.le_of_not_lt hk
    have hnil : c.file.ahead c.recordSize = [] := by
      rw [hahead, List.drop_of_length_le hge, List.flatten_nil, List.take_nil]
    rw [hnil, if_pos List.isEmpty_nil]
    refine ⟨rfl, ?_⟩
    have hskip : Stored { c with file := c.file.skip c.recordSize } r :=
      ⟨h.isOpen, h.size_pos, h.size_le, h.recordSize, h.dataOffset, h.unprotected, h.even, h.bytes⟩
    exact hskip.setMissing hoffset hge (hzero (present_eq_false_iff.mpr hge))

/-! ## Positions -/

/-- A record is in the file when the file is long enough. -/
theorem missing_iff (h : Stored c r) (k : Nat) :
    c.file.size < 2 + k * r.size + r.size ↔ r.records.length ≤ k := by
  rw [h.size_file, Nat.add_assoc, ← Nat.succ_mul, Nat.add_lt_add_iff_left,
    Nat.mul_lt_mul_right h.size_pos]
  exact Nat.lt_succ_iff

/-- `seek_record` when nothing is to be written. -/
theorem seekRecord_eq (h : Stored c r) (hclean : c.recordDirty = false) (recordNumber offset : Nat) :
    c.seekRecord recordNumber offset =
      if r.records.length ≤ recordNumber - 1 then
        ((if r.size < offset then .overflowInRecord else .recordNotPresent),
          ({ c with recordOffset := 2 + (recordNumber - 1) * r.size } : Channel).setMissingRecord)
      else
        ((if r.size < offset then .overflowInRecord else .allOk),
          (({ c with
            recordOffset := 2 + (recordNumber - 1) * r.size
            file := c.file.seek (2 + (recordNumber - 1) * r.size) } : Channel).readRecord
              (min (offset - 1) (r.size - 1))).2) := by
  have hwrite : c.writeRecord = (.ok, c) := by
    rw [Channel.writeRecord, hclean]
    rfl
  have hpos := h.size_pos
  have hbeyond : (r.size - 1 < offset - 1) = (r.size < offset) := propext (by omega)
  have hoffset : (if r.size < offset then r.size - 1 else offset - 1)
      = min (offset - 1) (r.size - 1) := by
    split <;> omega
  rw [Channel.seekRecord, hwrite]
  dsimp only
  rw [if_neg (by rw [h.isOpen]; decide), if_neg (by rw [h.recordSize]; omega)]
  simp only [h.recordSize, h.dataOffset, missing_iff h, hbeyond, hoffset]
  split
  · split <;> rfl
  · rfl

/-- `seek_record` goes to a record, and answers whether it is there. -/
theorem Stored.seekRecord (h : Stored c r) (hclean : c.recordDirty = false) (recordNumber offset : Nat) :
    (c.seekRecord recordNumber offset).1 = (r.position recordNumber offset).error ∧
    Shows (c.seekRecord recordNumber offset).2 (r.position recordNumber offset) := by
  have hpos := h.size_pos
  rw [seekRecord_eq h hclean]
  by_cases hk : r.records.length ≤ recordNumber - 1
  · have hnot : ¬ recordNumber - 1 < r.records.length := Nat.not_lt.mpr hk
    rw [if_pos hk]
    constructor
    · rw [Records.position, Records.goTo, Records.present]
      dsimp only
      rw [decide_eq_false hnot, if_neg (show ¬ false = true by decide)]
    · have hstored : Stored { c with recordOffset := 2 + (recordNumber - 1) * r.size }
          (r.position recordNumber offset) :=
        ⟨h.isOpen, h.size_pos, h.size_le, h.recordSize, h.dataOffset, h.unprotected, h.even, h.bytes⟩
      exact hstored.setMissing rfl hk (if_neg hnot)
  · have hlt := Nat.lt_of_not_le hk
    rw [if_neg hk]
    constructor
    · rw [Records.position, Records.goTo, Records.present]
      dsimp only
      rw [decide_eq_true hlt, if_pos rfl]
    · have hstored : Stored { c with
            recordOffset := 2 + (recordNumber - 1) * r.size
            file := c.file.seek (2 + (recordNumber - 1) * r.size) }
          (r.position recordNumber offset) :=
        ⟨h.isOpen, h.size_pos, h.size_le, h.recordSize, h.dataOffset, h.unprotected, h.even, h.bytes⟩
      refine (hstored.readRecord rfl rfl (fun _ => if_pos hlt) ?_ fun hp => ?_).2
      · show min (offset - 1) (r.size - 1) < r.size
        omega
      · exact absurd hlt (Nat.not_lt.mpr (present_eq_false_iff.mp hp))

/-! ## Writing -/

/-- What some bytes do to the buffer. -/
structure Pushed (c : Channel) (data : List UInt8) (c' : Channel) : Prop where
  same : c' = { c with
    buffer := c'.buffer
    pointer := c'.pointer
    recordDirty := c'.recordDirty
    error := c'.error }
  length : c'.buffer.length = c.buffer.length
  pointer : c'.pointer = c.pointer + (data.take (c.recordSize - c.pointer)).length
  bytes : c'.buffer.take c'.pointer =
    c.buffer.take c.pointer ++ data.take (c.recordSize - c.pointer)
  dirty : c'.recordDirty = (c.recordDirty || decide (c.pointer < c'.pointer))
  error : c'.error =
    if c.recordSize - c.pointer < data.length then .overflowInRecord else c.error

theorem take_set_succ {l : List UInt8} {i : Nat} (h : i < l.length) (b : UInt8) :
    (l.set i b).take (i + 1) = l.take i ++ [b] := by
  rw [List.take_set, List.take_succ_eq_append_getElem h, List.set_append_right _ _ (by simp),
    List.length_take, Nat.min_eq_left (Nat.le_of_lt h), Nat.sub_self]
  rfl

theorem push_pushed (data : List UInt8) (hstate : c.state = .record)
    (hbuffer : c.buffer.length = c.recordSize) (hle : c.pointer ≤ c.recordSize) :
    Pushed c data (data.foldl (fun c b => (c.pushData b).2) c) := by
  induction data generalizing c with
  | nil =>
      refine ⟨rfl, rfl, by simp, by simp, by simp, ?_⟩
      exact (if_neg (Nat.not_lt_zero _)).symm
  | cons b data ih =>
      rw [List.foldl_cons, Channel.pushData, if_pos hstate]
      by_cases hfull : c.pointer = c.recordSize
      · -- The record is full, and the byte is lost.
        rw [if_pos hfull]
        have hnone : c.recordSize - c.pointer = 0 := by omega
        obtain ⟨hsame, hlength, hpointer, hbytes, hdirty, herror⟩ :=
          ih (c := { c with error := .overflowInRecord }) hstate hbuffer hle
        rw [hnone] at hpointer hbytes herror
        refine ⟨hsame, hlength, ?_, ?_, hdirty, ?_⟩
        · rw [hnone]
          exact hpointer
        · rw [hnone]
          exact hbytes
        · have hmore : c.recordSize - c.pointer < (b :: data).length := by
            rw [hnone]
            exact Nat.succ_pos _
          rw [if_pos hmore, herror]
          split <;> rfl
      · rw [if_neg hfull]
        have hlt : c.pointer < c.recordSize := Nat.lt_of_le_of_ne hle hfull
        have hroom : c.recordSize - c.pointer = (c.recordSize - (c.pointer + 1)) + 1 := by omega
        obtain ⟨hsame, hlength, hpointer, hbytes, hdirty, herror⟩ :=
          ih (c := { c with
            buffer := c.buffer.set c.pointer b
            pointer := c.pointer + 1
            recordDirty := true }) hstate (by rw [List.length_set]; exact hbuffer) hlt
        refine ⟨hsame, hlength.trans List.length_set, ?_, ?_, ?_, ?_⟩
        · rw [hpointer, hroom, List.take_succ_cons, List.length_cons]
          dsimp only
          omega
        · rw [hbytes, hroom, List.take_succ_cons]
          dsimp only
          rw [take_set_succ (hbuffer ▸ hlt), List.append_assoc]
          rfl
        · rw [hdirty, hpointer]
          dsimp only
          rw [Bool.true_or, decide_eq_true (by omega), Bool.or_true]
        · rw [herror, List.length_cons]
          dsimp only
          have hmore : (c.recordSize - (c.pointer + 1) < data.length)
              = (c.recordSize - c.pointer < data.length + 1) := propext (by omega)
          simp only [hmore]

theorem write_end {f : File} (h : f.pos = f.size) (data : List UInt8) :
    f.write data = ⟨f.bytes ++ data, f.size + data.length⟩ := by
  rw [File.write, h, File.size, List.take_length,
    List.drop_of_length_le (Nat.le_add_right _ _), List.append_nil]

/-- Empty records are written up to the one that is to be written. -/
theorem growLoop_spec {n k : Nat} (hn : 0 < n) (fuel : Nat) :
    ∀ {f : File} {j : Nat}, f.pos = f.size → f.size = 2 + j * n → k - j ≤ fuel →
      (Channel.growLoop (emptyRecord n) (2 + k * n) fuel f).bytes =
        f.bytes ++ (List.replicate (k - j) (emptyRecord n)).flatten := by
  induction fuel with
  | zero =>
      intro f j _ _ hfuel
      rw [Nat.le_zero.mp hfuel, Channel.growLoop, List.replicate_zero, List.flatten_nil, List.append_nil]
  | succ fuel ih =>
      intro f j hpos hsize hfuel
      have hlen := length_emptyRecord hn
      have hmore : f.size + (emptyRecord n).length ≤ 2 + k * n ↔ j + 1 ≤ k := by
        rw [hsize, hlen, Nat.add_assoc, ← Nat.succ_mul, Nat.add_le_add_iff_left,
          Nat.mul_le_mul_right_iff hn]
      rw [Channel.growLoop]
      by_cases hk : j + 1 ≤ k
      · rw [if_pos (hmore.mpr hk), write_end hpos]
        have hnext : (f.bytes ++ emptyRecord n).length = 2 + (j + 1) * n := by
          rw [List.length_append, hlen, Nat.succ_mul, ← Nat.add_assoc, ← hsize]
          rfl
        have hrep : k - j = (k - (j + 1)) + 1 := by omega
        rw [ih (f := ⟨f.bytes ++ emptyRecord n, f.size + (emptyRecord n).length⟩) (j := j + 1)
          (List.length_append ..).symm hnext (by omega), hrep,
          List.replicate_succ, List.flatten_cons, List.append_assoc]
      · have hzero : k - j = 0 := by omega
        rw [if_neg (fun h => hk (hmore.mp h)), hzero, List.replicate_zero, List.flatten_nil,
          List.append_nil]

/-- The file is as long as the record needs it. -/
theorem Stored.grow (h : Stored c r) (hoffset : c.recordOffset = 2 + r.current * r.size) :
    ∃ f, c.growToRecord = { c with file := f } ∧
      f.bytes = [UInt8.ofNat r.size, 0] ++
        (r.records ++ List.replicate (r.current - r.records.length) (emptyRecord r.size)).flatten := by
  have hpos := h.size_pos
  have hlong : c.recordOffset ≤ c.file.size ↔ r.current ≤ r.records.length := by
    rw [hoffset, h.size_file, Nat.add_le_add_iff_left, Nat.mul_le_mul_right_iff hpos]
  rw [Channel.growToRecord]
  by_cases hk : r.current ≤ r.records.length
  · rw [if_pos (hlong.mpr hk), Nat.sub_eq_zero_of_le hk, List.replicate_zero, List.append_nil]
    exact ⟨c.file, rfl, h.bytes⟩
  · rw [if_neg (fun hle => hk (hlong.mp hle))]
    dsimp only
    -- The file ends with a record, so there is none to complete.
    have hbehind : (if c.dataOffset < (c.file.seek c.file.size).size then
        ((c.file.seek c.file.size).size - c.dataOffset) % c.recordSize else 0) = 0 := by
      split
      · have hdiff : (c.file.seek c.file.size).size - c.dataOffset = r.records.length * r.size := by
          show c.file.size - c.dataOffset = _
          rw [h.size_file, h.dataOffset]
          omega
        rw [hdiff, h.recordSize, Nat.mul_mod_left]
      · rfl
    rw [hbehind, if_neg (fun hne => hne rfl)]
    refine ⟨_, rfl, ?_⟩
    have hfuel : r.current - r.records.length ≤ c.recordOffset := by
      have hmul : r.current * 1 ≤ r.current * r.size := Nat.mul_le_mul_left _ hpos
      omega
    rw [h.recordSize]
    nth_rewrite 1 [hoffset]
    rw [growLoop_spec hpos c.recordOffset (f := c.file.seek c.file.size) rfl h.size_file hfuel,
      List.flatten_append, ← List.append_assoc, ← h.bytes]
    rfl

/-- The buffer goes to the current record. -/
theorem Stored.writeRecord (h : Stored c r) (hoffset : c.recordOffset = 2 + r.current * r.size)
    (hdirty : c.recordDirty = true) (hlow : 0 < c.pointer) (hhigh : c.pointer ≤ r.size)
    (hbuffer : c.buffer.length = r.size) :
    c.writeRecord = (.ok, { c with
      buffer := c.buffer.take c.pointer ++ List.replicate (r.size - c.pointer) 0
      file := ⟨[UInt8.ofNat r.size, 0] ++ (if r.present then
          r.records.set r.current
            (c.buffer.take c.pointer ++ List.replicate (r.size - c.pointer) 0)
        else r.records ++ List.replicate (r.current - r.records.length) (emptyRecord r.size) ++
          [c.buffer.take c.pointer ++ List.replicate (r.size - c.pointer) 0]).flatten,
        c.recordOffset + r.size⟩
      recordOffset := c.recordOffset + r.size }) := by
  have hfill : (if c.pointer < c.recordSize then
      if c.pointer = 0 then
        (c.buffer.take c.pointer ++ List.replicate (c.recordSize - c.pointer) 0).set 0 255
      else c.buffer.take c.pointer ++ List.replicate (c.recordSize - c.pointer) 0
      else c.buffer) = c.buffer.take c.pointer ++ List.replicate (r.size - c.pointer) 0 := by
    rw [h.recordSize]
    by_cases hp : c.pointer < r.size
    · rw [if_pos hp, if_neg (Nat.ne_of_gt hlow)]
    · have heq : c.pointer = r.size := Nat.le_antisymm hhigh (Nat.le_of_not_lt hp)
      rw [if_neg hp, heq, Nat.sub_self, List.replicate_zero, List.append_nil, ← hbuffer,
        List.take_length]
  rw [Channel.writeRecord, if_neg (by rw [hdirty]; decide), if_neg (by rw [h.unprotected]; decide),
    if_pos h.isOpen]
  dsimp only
  rw [hfill]
  generalize hnew : c.buffer.take c.pointer ++ List.replicate (r.size - c.pointer) 0 = new
  have hlen : new.length = r.size := by
    rw [← hnew, List.length_append, List.length_take, List.length_replicate, hbuffer,
      Nat.min_eq_left hhigh]
    omega
  obtain ⟨f, hgrow, hbytes⟩ := Stored.grow (c := { c with buffer := new }) (r := r)
    ⟨h.isOpen, h.size_pos, h.size_le, h.recordSize, h.dataOffset, h.unprotected, h.even, h.bytes⟩
    hoffset
  rw [hgrow]
  have hfile : (f.seek c.recordOffset).write new = ⟨[UInt8.ofNat r.size, 0] ++ (if r.present then
      r.records.set r.current new
      else r.records ++ List.replicate (r.current - r.records.length) (emptyRecord r.size) ++
        [new]).flatten, c.recordOffset + r.size⟩ := by
    rw [File.write, File.mk.injEq]
    refine ⟨?_, by rw [hlen]; rfl⟩
    show f.bytes.take c.recordOffset ++ new ++ f.bytes.drop (c.recordOffset + new.length) = _
    rw [hbytes, hoffset, hlen, head_take, Nat.add_assoc, head_drop, List.append_assoc,
      List.append_assoc, ← List.append_assoc (List.take _ _)]
    refine congrArg _ ?_
    by_cases hk : r.current < r.records.length
    · rw [present_iff.mpr hk, if_pos rfl, Nat.sub_eq_zero_of_le (Nat.le_of_lt hk),
        List.replicate_zero, List.append_nil]
      exact write_block h.even hk new
    · have hge := Nat.le_of_not_lt hk
      rw [present_eq_false_iff.mpr hge, if_neg (by decide)]
      have heven := h.even.append
        (even_replicate (length_emptyRecord h.size_pos) (r.current - r.records.length))
      have hcount : (r.records ++ List.replicate (r.current - r.records.length)
          (emptyRecord r.size)).length = r.current := by
        rw [List.length_append, List.length_replicate]
        omega
      have htotal := length_flatten heven
      rw [hcount] at htotal
      rw [List.take_of_length_le (Nat.le_of_eq htotal),
        List.drop_of_length_le (Nat.le_trans (Nat.le_of_eq htotal) (Nat.le_add_right _ _)),
        List.append_nil]
      generalize r.records ++ List.replicate (r.current - r.records.length) (emptyRecord r.size) = bs
      rw [List.flatten_append, List.flatten_singleton]
  rw [hfile, h.recordSize]

end RelChannel
