import Mathlib

/-! # The tape recorder

    The hardware puts the bytes of a tape into a FIFO. An interrupt moves blocks of 512 bytes
    from there into a ring of blocks, and a task writes the blocks of the ring to the file.
    Interrupts fall between any two steps of a task, also while a block is being written.
    When the recording is finished, another task writes what is left and the length. -/

namespace TapeRecorder

/-- `REC_NUM_CACHE_BLOCKS`. -/
def numCacheBlocks : Nat := 128

/-- `error_code`. -/
inductive RecErr where
  | ok | overflow | noFile | writeError
  deriving DecidableEq, Repr

/-- The recorder with the tape file. The last four fields say what happened, and are read by
    no step. -/
structure Recorder where
  file : Bool
  recording : Bool
  /-- `RECORD_CONTROL` has the capture and its interrupt enabled. -/
  enabled : Bool
  fifo : List UInt8
  /-- The ring: the bytes of each block. -/
  cacheBlocks : Nat → Nat → UInt8
  blockIn : Nat
  blockOut : Nat
  blocksCached : Nat
  blocksWritten : Nat
  totalLength : Nat
  errorCode : RecErr
  /-- The file behind its header of 20 bytes. -/
  data : List UInt8
  /-- The length in the header. -/
  lengthField : Nat
  /-- The blocks that the interrupt read. -/
  captured : List (List UInt8)
  /-- The bytes that `flush` read. -/
  rest : List UInt8
  /-- `stop(REC_ERR_OVERFLOW)` was called. -/
  overflow : Bool
  /-- A `flush` came to its end. -/
  finished : Bool

/-- Who runs `flush`, or the loop over the blocks. -/
inductive Caller where
  | poll | stop | finish
  deriving DecidableEq, Repr

/-- Where a task is. -/
inductive Pc where
  /-- The delay of `poll`; the other task has nothing to do. -/
  | wait
  | check
  /-- `while (blocks_cached > blocks_written)`. -/
  | blocks («by» : Caller)
  /-- In `file->write` of a block, of which a part is read. -/
  | block («by» : Caller) (copied : List UInt8)
  /-- `while (RECORD_STATUS & REC_STAT_BYTE_AV)`. -/
  | rest («by» : Caller)
  | fill («by» : Caller) (slot i : Nat)
  /-- In `file->write` of the remaining bytes. -/
  | remaining («by» : Caller) (slot i : Nat) (copied : List UInt8)
  | length («by» : Caller)
  | off («by» : Caller)
  deriving DecidableEq, Repr

/-- What a step of a task meets: the file is still valid, the user interface is there, how many
    bytes of a block are read without an interrupt, and what a write gives when it ends. -/
structure Outcome where
  valid : Bool
  available : Bool
  chunk : Nat
  ok : Bool
  written : Nat

/-- The place after a block of the ring. -/
def wrap (block : Nat) : Nat := if block + 1 = numCacheBlocks then 0 else block + 1

/-- The first bytes of a block of the ring. -/
def slotBytes (r : Recorder) (slot n : Nat) : List UInt8 := (List.range n).map (r.cacheBlocks slot)

/-! ## The interrupt -/

/-- `cache_block`. -/
def cacheBlock (r : Recorder) : Recorder :=
  { r with
    fifo := r.fifo.drop 512
    cacheBlocks := fun slot => if slot = r.blockIn then fun i => (r.fifo.take 512).getD i 0 else r.cacheBlocks slot
    blockIn := wrap r.blockIn
    blocksCached := r.blocksCached + 1
    captured := r.captured ++ [r.fifo.take 512] }

/-- The hardware asks for an interrupt: a block is there. -/
def Fires (r : Recorder) : Prop := r.enabled = true ∧ 512 ≤ r.fifo.length

instance (r : Recorder) : Decidable (Fires r) := inferInstanceAs (Decidable (_ ∧ _))

/-- `irq`. -/
def irq (r : Recorder) : Recorder :=
  if Fires r then
    if r.recording then cacheBlock r else { r with enabled := false }
  else r

/-! ## The tasks -/

/-- `write_block` has the block that is at `block_out`, and `file->write` is done with it. -/
def writeBlock (o : Outcome) (copied : List UInt8) (r : Recorder) : Recorder :=
  if o.ok then
    { r with
      data := r.data ++ copied.take o.written
      totalLength := r.totalLength + 512
      blockOut := wrap r.blockOut
      blocksWritten := r.blocksWritten + 1
      errorCode := .ok }
  else
    { r with
      data := r.data ++ copied.take o.written
      totalLength := r.totalLength + 512
      errorCode := .writeError }

/-- Where `flush` begins; without a file it stops the capture. -/
def flush («by» : Caller) (after : Pc) (r : Recorder) : Pc × Recorder :=
  if r.file then (.blocks «by», r)
  else (after, { r with errorCode := .noFile, recording := false, enabled := false, fifo := [] })

/-- `stop` in the task of `poll`. -/
def stop (error : RecErr) (after : Pc) (r : Recorder) : Pc × Recorder :=
  if r.file then flush .stop after { r with errorCode := error, enabled := false, recording := false }
  else (after, { r with errorCode := error, enabled := false, recording := false, fifo := [] })

/-- Where a task goes on after `flush`. -/
def Caller.after : Caller → Pc
  | .poll => .wait
  -- `poll` goes on with its own loop
  | .stop => .blocks .poll
  | .finish => .wait

/-- A step of a task; `poll` makes the first two. -/
def taskStep (o : Outcome) : Pc → Recorder → Pc × Recorder
  | .wait, r =>
      if r.file ∧ ¬o.valid then
        stop .noFile .wait { r with file := false, errorCode := if o.available then .ok else r.errorCode }
      else
        (if r.recording then .check else .wait, { r with errorCode := if o.available then .ok else r.errorCode })
  | .check, r =>
      if r.blocksCached ≥ r.blocksWritten + numCacheBlocks then
        stop .overflow (.blocks .poll) { r with overflow := true }
      else (.blocks .poll, r)
  | .blocks c, r =>
      if r.blocksCached > r.blocksWritten then
        if r.file then (.block c [], r) else (.blocks c, { r with errorCode := .noFile })
      else (if c = .poll then .wait else .rest c, r)
  | .block c copied, r =>
      if copied.length < 512 then
        (.block c (copied ++ ((slotBytes r r.blockOut 512).drop copied.length).take o.chunk), r)
      else (.blocks c, writeBlock o copied r)
  | .rest c, r => if r.fifo = [] then (.length c, r) else (.fill c r.blockIn 0, r)
  | .fill c slot i, r =>
      match r.fifo with
      | b :: fifo =>
          if i < 512 then
            (.fill c slot (i + 1),
              { r with
                fifo := fifo
                cacheBlocks := fun s j => if s = slot ∧ j = i then b else r.cacheBlocks s j
                rest := r.rest ++ [b] })
          else (.remaining c r.blockIn i [], r)
      | [] => (.remaining c r.blockIn i [], r)
  | .remaining c slot i copied, r =>
      if copied.length < i then
        (.remaining c slot i (copied ++ ((slotBytes r slot i).drop copied.length).take o.chunk), r)
      else
        (.rest c,
          { r with
            data := r.data ++ copied.take o.written
            totalLength := r.totalLength + (copied.take o.written).length })
  | .length c, r =>
      (.off c, { r with lengthField := if o.ok then r.totalLength % 2 ^ 32 else r.lengthField, file := false })
  | .off c, r => (c.after, { r with recording := false, enabled := false, fifo := [], finished := true })

/-! ## Runs -/

/-- The recorder, the task of `poll` and the task that finishes. -/
structure System where
  recorder : Recorder
  poll : Pc
  command : Pc

inductive Event where
  /-- The hardware puts bytes into the FIFO. -/
  | bytes (bs : List UInt8)
  | irq
  | poll (o : Outcome)
  /-- `MENU_REC_FINISH`. -/
  | finish
  | command (o : Outcome)

def step (s : System) : Event → System
  | .bytes bs =>
      if s.recorder.enabled then { s with recorder := { s.recorder with fifo := s.recorder.fifo ++ bs } } else s
  | .irq => { s with recorder := TapeRecorder.irq s.recorder }
  | .poll o => { s with poll := (taskStep o s.poll s.recorder).1, recorder := (taskStep o s.poll s.recorder).2 }
  | .finish =>
      if s.command = .wait then
        { s with command := (flush .finish .wait s.recorder).1, recorder := (flush .finish .wait s.recorder).2 }
      else s
  | .command o =>
      if s.command = .wait then s
      else
        { s with command := (taskStep o s.command s.recorder).1, recorder := (taskStep o s.command s.recorder).2 }

def run (s : System) (events : List Event) : System := events.foldl step s

/-- What `start` leaves, with a new file. -/
def started (cacheBlocks : Nat → Nat → UInt8) (errorCode : RecErr) : System where
  recorder :=
    { file := true, recording := true, enabled := true, fifo := [], cacheBlocks, blockIn := 0, blockOut := 0,
      blocksCached := 0, blocksWritten := 0, totalLength := 0, errorCode, data := [], lengthField := 0,
      captured := [], rest := [], overflow := false, finished := false }
  poll := .wait
  command := .wait

end TapeRecorder
