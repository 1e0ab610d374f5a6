import Ultimate1541.IecChannelProofs

/-! # A channel on a relative file

    A relative file is a head of two bytes, the first of which is the record length, and
    then the records, all of that length.  The channel keeps one record in its buffer.
    Where the record is in the file (`recordOffset`), where the file is (`pos`), and where
    the next byte goes in the buffer (`pointer`) are numbers of their own.  What was
    written into the buffer goes out at the end of the data, or with the next position or
    the closing of the channel.

    The calls of the file answer `FR_OK`: the medium has room and no errors.  A file is no
    longer than a file system can hold, so offsets in it do not wrap.  The channel is one
    of 2 to 14, which open a relative file for reading and writing. -/

namespace RelChannel

open IecChannel (State Retval)

/-- The errors that the drive answers here. -/
inductive DosError
  | allOk | writeProtectOn | recordNotPresent | overflowInRecord | fileNotOpen
  | fileTypeMismatch | noChannel
  deriving DecidableEq

/-- An open file: what is in it, and where it is. -/
structure File where
  bytes : List UInt8
  pos : Nat
  deriving DecidableEq

namespace File

def size (f : File) : Nat := f.bytes.length

/-- What `read` finds. -/
def ahead (f : File) (n : Nat) : List UInt8 := (f.bytes.drop f.pos).take n

/-- The file after `read`. -/
def skip (f : File) (n : Nat) : File := { f with pos := f.pos + (f.ahead n).length }

def seek (f : File) (pos : Nat) : File := { f with pos := pos }

def write (f : File) (data : List UInt8) : File where
  bytes := f.bytes.take f.pos ++ data ++ f.bytes.drop (f.pos + data.length)
  pos := f.pos + data.length

end File

/-- The part of `IecChannel` that records use, with the drive's error and its write
    protection.  Of the buffer there is as much as a record takes. -/
structure Channel where
  file : File
  isOpen : Bool
  inImage : Bool
  state : State
  buffer : List UInt8
  pointer : Nat
  prefetch : Nat
  prefetchMax : Nat
  lastByte : Int
  recordSize : Nat
  recordOffset : Nat
  dataOffset : Nat
  recordDirty : Bool
  recordMissing : Bool
  writeProtected : Bool
  error : DosError
  deriving DecidableEq

/-- A record that is empty. -/
def emptyRecord (size : Nat) : List UInt8 := 255 :: List.replicate (size - 1) 0

/-- The loop that looks for the last byte of a record from the `i`-th down. -/
def lastUsed (buffer : List UInt8) : Nat → Nat
  | 0 => 0
  | i + 1 => if buffer.getD (i + 1) 0 ≠ 0 then i + 1 else lastUsed buffer i

namespace Channel

/-- `set_missing_record`. -/
def setMissingRecord (c : Channel) : Channel :=
  { c with
    recordMissing := true
    buffer := (List.replicate c.recordSize 0).set 0 255
    lastByte := 0
    pointer := 0
    prefetch := 0
    prefetchMax := 1
    recordDirty := false
    state := .record }

/-- `read_record`. -/
def readRecord (c : Channel) (offset : Nat) : Retval × Channel :=
  if c.isOpen then
    let bytes := c.file.ahead c.recordSize
    let c := { c with file := c.file.skip c.recordSize }
    if bytes.isEmpty then (.ok, c.setMissingRecord)
    else
      let buffer := bytes ++ List.replicate (c.recordSize - bytes.length) 0
      let last := lastUsed buffer (c.recordSize - 1)
      (.ok, { c with
        buffer := buffer
        recordMissing := false
        lastByte := last
        pointer := offset
        prefetch := offset
        prefetchMax := last + 1
        recordDirty := false
        state := .record })
  else (.readError, { c with state := .error })

/-- `pop_record`. -/
def popRecord (c : Channel) : Retval × Channel :=
  if c.recordMissing then (.ok, { c with error := .recordNotPresent, pointer := 0, prefetch := 0 })
  else
    match ({ c with recordOffset := c.recordOffset + c.recordSize } : Channel).readRecord 0 with
    | (.ok, c) => (.ok, c)
    | (_, c) => (.noFile, { c with state := .complete })

/-- The loop of `grow_to_record`, when the file is at its end. -/
def growLoop (block : List UInt8) (recordOffset : Nat) : Nat → File → File
  | 0, f => f
  | n + 1, f =>
      if f.size + block.length ≤ recordOffset then growLoop block recordOffset n (f.write block)
      else f

/-- `grow_to_record`. -/
def growToRecord (c : Channel) : Channel :=
  if c.recordOffset ≤ c.file.size then c
  else
    let f := c.file.seek c.file.size
    let behind := if c.dataOffset < f.size then (f.size - c.dataOffset) % c.recordSize else 0
    let f := if behind ≠ 0 then f.write (List.replicate (c.recordSize - behind) 0) else f
    { c with file := growLoop (emptyRecord c.recordSize) c.recordOffset c.recordOffset f }

/-- `write_record`. -/
def writeRecord (c : Channel) : Retval × Channel :=
  if !c.recordDirty then (.ok, c)
  else if c.writeProtected then
    (.ok, { c with error := .writeProtectOn, recordDirty := false })
  else if c.isOpen then
    let buffer :=
      if c.pointer < c.recordSize then
        let filled := c.buffer.take c.pointer ++ List.replicate (c.recordSize - c.pointer) 0
        if c.pointer = 0 then filled.set 0 255 else filled
      else c.buffer
    let c := ({ c with buffer := buffer } : Channel).growToRecord
    (.ok, { c with
      file := (c.file.seek c.recordOffset).write c.buffer
      recordOffset := c.recordOffset + c.recordSize })
  else (.writeError, { c with state := .error })

/-- `seek_record`. -/
def seekRecord (c : Channel) (recordNumber offset : Nat) : DosError × Channel :=
  let c := c.writeRecord.2
  if !c.isOpen then (.fileNotOpen, c)
  else if c.recordSize = 0 then (.fileTypeMismatch, c)
  else
    let target := c.dataOffset + (recordNumber - 1) * c.recordSize
    let c := { c with recordOffset := target }
    let beyond := c.recordSize - 1 < offset - 1
    let err : DosError := if beyond then .overflowInRecord else .allOk
    if c.file.size < target + c.recordSize then
      (if beyond then err else .recordNotPresent, c.setMissingRecord)
    else
      (err, (({ c with file := c.file.seek target } : Channel).readRecord
        (if beyond then c.recordSize - 1 else offset - 1)).2)

/-! ## The bus -/

/-- `prefetch_data`. -/
def prefetchData (c : Channel) : Retval × Option UInt8 × Channel :=
  if c.state = .error ∨ c.state = .complete then (.noFile, none, c)
  else if 0 ≤ c.lastByte then
    let next := { c with prefetch := c.prefetch + 1 }
    if (c.prefetch : Int) = c.lastByte then (.last, some (c.buffer.getD c.prefetch 0), next)
    else if c.lastByte < c.prefetch then (.noFile, none, next)
    else (.ok, some (c.buffer.getD c.prefetch 0), next)
  else if c.prefetch < c.prefetchMax then
    (.ok, some (c.buffer.getD c.prefetch 0), { c with prefetch := c.prefetch + 1 })
  else if c.prefetchMax < c.prefetch then (.noFile, none, c)
  else (.bufferEnd, none, c)

/-- `pop_data`, in the state of a record. -/
def popData (c : Channel) : Retval × Channel :=
  if c.state = .record then
    if c.lastByte ≤ c.pointer then c.popRecord else (.ok, { c with pointer := c.pointer + 1 })
  else (.noFile, c)

/-- `push_data`, in the state of a record. -/
def pushData (c : Channel) (b : UInt8) : Retval × Channel :=
  if c.state = .record then
    if c.pointer = c.recordSize then (.byteLost, { c with error := .overflowInRecord })
    else
      (.ok, { c with
        buffer := c.buffer.set c.pointer b
        pointer := c.pointer + 1
        recordDirty := true })
  else (.byteLost, c)

/-- `reset_prefetch`, when the channel is addressed. -/
def resetPrefetch (c : Channel) : Channel := { c with prefetch := c.pointer }

/-- `push_command` at the end of the data. -/
def endOfData (c : Channel) : Retval × Channel :=
  if c.state = .record then
    match c.writeRecord with
    | (.ok, c) => c.readRecord 0
    | r => r
  else (.ok, c)

/-- `close_file`. -/
def closeFile (c : Channel) : Channel := { c with isOpen := false, state := .idle }

/-- `push_command` for a close. -/
def close (c : Channel) : Retval × Channel :=
  if c.state = .record then
    let r := ({ c with state := .idle } : Channel).writeRecord
    (r.1, r.2.closeFile)
  else (.ok, { c.closeFile with state := .idle })

/-- `rel_layout`: where the records start, and how long they are. -/
def relLayout (c : Channel) (wrappedLength : Nat) : Nat × Nat :=
  if c.dataOffset ≠ 0 then (c.dataOffset, wrappedLength)
  else
    let head := c.file.ahead 2
    let length := (head.getD 0 0).toNat
    let size := c.file.size
    if c.inImage then (2, length)
    else if 2 ≤ head.length ∧ head.getD 1 0 ≠ 0 then (1, length)
    else if 1 < length ∧ size % length ≠ 2 % length ∧ size % length = 1 % length then (1, length)
    else (2, length)

/-- `setup_file_access` for a relative file, opened with a record length or with none (0);
    `wrapper` is what `x00_skip_header` finds. -/
def setupFileAccess (c : Channel) (recordLength : Nat) (wrapper : Nat × Nat) : Channel :=
  let c := { c with
    isOpen := true
    lastByte := -1
    pointer := 0
    prefetch := 0
    prefetchMax := 512
    state := .file
    error := .allOk
    recordSize := 0
    dataOffset := wrapper.1
    file := c.file.seek wrapper.1 }
  if c.file.size = 0 then
    let c := { c with
      file := c.file.write [UInt8.ofNat recordLength, 0]
      recordSize := recordLength
      dataOffset := 2
      recordOffset := 2 }
    c.setMissingRecord
  else
    let layout := c.relLayout wrapper.2
    let c := { c with dataOffset := layout.1 }
    if layout.2 = 0 then { c with state := .error, error := .recordNotPresent }
    else
      let c := { c with recordSize := layout.2 }
      if recordLength ≠ 0 ∧ layout.2 ≠ recordLength then
        { c with state := .error, error := .recordNotPresent }
      else
        match ({ c with state := .record } : Channel).seekRecord 1 1 with
        | (.allOk, c) => c
        | (err, c) => { c with error := err }

/-! ## What a host does -/

/-- `prefetch_data` up to `n` times, until it answers that a byte is the last: the bytes,
    and whether the last was among them. -/
def fetch : Nat → Channel → List UInt8 × Bool × Channel
  | 0, c => ([], false, c)
  | n + 1, c =>
      match c.prefetchData with
      | (.ok, some b, c) => (b :: (fetch n c).1, (fetch n c).2.1, (fetch n c).2.2)
      | (.last, some b, c) => ([b], true, c)
      | (_, _, c) => ([], false, c)

/-- `pop_data` for bytes that have been sent. -/
def pop : Nat → Channel → Channel
  | 0, c => c
  | n + 1, c => pop n c.popData.2

/-- The channel talks: `n` bytes at most are fetched, and of them the host takes `m` at
    most.  What it gets, and whether it gets the end. -/
def talk (c : Channel) (n m : Nat) : List UInt8 × Bool × Channel :=
  let fetched := fetch n c.resetPrefetch
  (fetched.1.take m, fetched.2.1 && decide (fetched.1.length ≤ m),
    pop (min m fetched.1.length) fetched.2.2)

/-- The channel listens to some bytes and the end of the data. -/
def listen (c : Channel) (data : List UInt8) : Channel :=
  (data.foldl (fun c b => (c.pushData b).2) c.resetPrefetch).endOfData.2

/-- `P`: `do_set_position` for a channel in the state of a record, and the error set. -/
def position (c : Channel) (recordNumber offset : Nat) : Channel :=
  if c.isOpen then
    if c.state = .record then
      let r := c.seekRecord recordNumber offset
      { r.2 with error := r.1 }
    else { c with error := .fileNotOpen }
  else { c with error := .noChannel }

/-- The channel is closed, and the file opened again. -/
def reopen (c : Channel) (recordLength : Nat) : Channel :=
  c.close.2.closeFile.setupFileAccess recordLength (0, 0)

/-- The file is made, on a channel that can have been used before. -/
def create (c : Channel) (recordLength : Nat) : Channel :=
  ({ c.closeFile with file := ⟨[], 0⟩ } : Channel).setupFileAccess recordLength (0, 0)

end Channel

end RelChannel
