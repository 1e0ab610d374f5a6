import Ultimate1541.ByteBufferProofs

/-! # A data channel of the IEC drive

    A channel that reads a file keeps two blocks of 512 bytes: the one that is
    talked from and the one read ahead, which tells whether the first is the
    last.  Talking goes in two steps with a counter each: `prefetch_data` and
    `prefetch_more` hand bytes to the bus, `pop_data` and `pop_more` take the
    bytes the listener has accepted.  What was prefetched and not popped is
    prefetched again after `reset_prefetch`.

    Whatever the order of these calls, what is popped is the file, byte by byte
    (`delivers_of_reachable`). -/

namespace IecChannel

open ByteBuffer

/-- `t_channel_state`. -/
inductive State where
  | idle
  | filename
  | file
  | dir
  | partlist
  | record
  | buffer
  | complete
  | error
  | status
  deriving DecidableEq, Repr

/-- `t_channel_retval`. -/
inductive Retval where
  | ok
  | last
  | noData
  | fileNotFound
  | noFile
  | readError
  | writeError
  | byteLost
  | bufferEnd
  deriving DecidableEq, Repr

/-- `bufblk_t`. -/
structure BufBlk where
  bufdata : Buffer 512
  validBytes : Nat

/-- The open file of a channel: none, one whose reads fail, or the bytes it
    still delivers. -/
inductive Source where
  | none
  | failing
  | bytes (rest : List UInt8)

/-- The part of `IecChannel` that reading uses. -/
structure Channel where
  blk0 : BufBlk
  blk1 : BufBlk
  pingpong : Bool
  state : State
  pointer : Nat
  prefetch : Nat
  prefetchMax : Nat
  lastByte : Int
  f : Source

/-- The functions the other channel states call: `read_dir_entry` until it has
    no more, and `pop_record`. -/
structure Elsewhere where
  readDirEntries : Channel → Channel
  popRecord : Channel → Retval × Channel

namespace Channel

/-- `curblk`. -/
def curblk (c : Channel) : BufBlk := if c.pingpong then c.blk1 else c.blk0

/-- `nxtblk`. -/
def nxtblk (c : Channel) : BufBlk := if c.pingpong then c.blk0 else c.blk1

/-- A store to `*nxtblk`. -/
def setNxtblk (c : Channel) (b : BufBlk) : Channel :=
  if c.pingpong then { c with blk0 := b } else { c with blk1 := b }

/-- A store to `*curblk`. -/
def setCurblk (c : Channel) (b : BufBlk) : Channel :=
  if c.pingpong then { c with blk1 := b } else { c with blk0 := b }

/-- `buffer`, the data of the current block. -/
def buffer (c : Channel) : Buffer 512 := c.curblk.bufdata

/-- `swap_buffers`. -/
def swapBuffers (c : Channel) : Channel := { c with pingpong := !c.pingpong }

/-- `f->read(nxtblk->bufdata, 512, &nxtblk->valid_bytes)`, and whether it
    answered `FR_OK`. -/
def readNext (c : Channel) : Bool × Channel :=
  match c.f with
  | .bytes rest =>
      (true, { c.setNxtblk ⟨c.nxtblk.bufdata.blit 0 (rest.take 512), (rest.take 512).length⟩ with
        f := .bytes (rest.drop 512) })
  | _ => (false, c)

/-- The part of `read_block` after a good read. -/
def enterBlock (c : Channel) : Channel :=
  if c.curblk.validBytes = 0 then
    { c with state := .complete, lastByte := -1, pointer := 0, prefetch := 0, prefetchMax := 0 }
  else
    { c with
      lastByte :=
        if c.curblk.validBytes ≠ 512 then (c.curblk.validBytes : Int) - 1
        else if c.nxtblk.validBytes = 0 then 511
        else c.lastByte
      pointer := 0
      prefetch := 0
      prefetchMax := 512 }

/-- `read_block`, and whether it answered zero. -/
def readBlock (c : Channel) : Bool × Channel :=
  match c.f with
  | .none => (false, { c with state := .error })
  | _ =>
      match c.swapBuffers.readNext with
      | (false, c) => (false, { c with state := .error })
      | (true, c) => (true, c.enterBlock)

/-- The end of `setup_file_access` for reading. -/
def setupFileAccess (c : Channel) : Bool × Channel :=
  let c := { c with
    lastByte := -1, pointer := 0, prefetch := 0, prefetchMax := 512, state := .file }
  let c := c.setCurblk { c.curblk with validBytes := 0 }
  c.readNext.2.readBlock

/-- `reset_prefetch`. -/
def resetPrefetch (c : Channel) : Channel := { c with prefetch := c.pointer }

/-- `prefetch++`. -/
def prefetched (c : Channel) (n : Nat) : Channel := { c with prefetch := c.prefetch + n }

/-- `prefetch_data`, with the byte it stores. -/
def prefetchData (c : Channel) : Retval × Option UInt8 × Channel :=
  if c.state = .error ∨ c.state = .complete then (.noFile, none, c)
  else if c.lastByte ≥ 0 then
    if (c.prefetch : Int) = c.lastByte then
      (.last, some (c.buffer.get c.prefetch), c.prefetched 1)
    else if (c.prefetch : Int) > c.lastByte then (.noFile, none, c.prefetched 1)
    else (.ok, some (c.buffer.get c.prefetch), c.prefetched 1)
  else if c.prefetch < c.prefetchMax then
    (.ok, some (c.buffer.get c.prefetch), c.prefetched 1)
  else if c.prefetch > c.prefetchMax then (.noFile, none, c)
  else (.bufferEnd, none, c)

/-- `prefetch_more`, with the bytes it offers. -/
def prefetchMore (c : Channel) (maxFetch : Nat) : Retval × List UInt8 × Channel :=
  if c.state = .error ∨ c.state = .complete then (.noFile, [], c)
  else if c.lastByte ≥ 0 then
    if (c.prefetch : Int) > c.lastByte then (.noFile, [], c)
    else if (c.prefetch : Int) + maxFetch > c.lastByte then
      let n := (c.lastByte - c.prefetch + 1).toNat
      (.last, c.buffer.slice c.prefetch n, c.prefetched n)
    else (.ok, c.buffer.slice c.prefetch maxFetch, c.prefetched maxFetch)
  else
    let n := if c.prefetch + maxFetch > c.prefetchMax then
        (if c.prefetch < c.prefetchMax then c.prefetchMax - c.prefetch else 0)
      else maxFetch
    (.ok, c.buffer.slice c.prefetch n, c.prefetched n)

/-- `pointer += n`. -/
def advance (c : Channel) (n : Nat) : Channel := { c with pointer := c.pointer + n }

/-- `read_block` while streaming. -/
def nextBlock (c : Channel) : Retval × Channel :=
  match c.readBlock with
  | (true, c) => (.ok, c)
  | (false, c) => (.readError, c)

/-- `pop_more`. -/
def popMore (e : Elsewhere) (c : Channel) (popSize : Nat) : Retval × Channel :=
  match c.state with
  | .file =>
      let c := c.advance popSize
      if c.lastByte ≥ 0 ∧ (c.pointer : Int) > c.lastByte then
        (.noFile, { c with state := .complete })
      else if c.pointer = 512 then c.nextBlock
      else (.ok, c)
  | .dir | .partlist =>
      let c := c.advance popSize
      if c.lastByte ≥ 0 ∧ (c.pointer : Int) > c.lastByte then
        (.noFile, { c with state := .complete })
      else if c.pointer = c.prefetchMax then (.ok, e.readDirEntries c)
      else (.ok, c)
  | .record =>
      let c := c.advance popSize
      if (c.pointer : Int) > c.lastByte then e.popRecord c else (.ok, c)
  | .buffer => (.ok, c.advance popSize)
  | _ => (.noFile, c)

/-- `pop_data`. -/
def popData (e : Elsewhere) (c : Channel) : Retval × Channel :=
  match c.state with
  | .file =>
      if (c.pointer : Int) = c.lastByte then
        (.noFile, { c.advance 1 with state := .complete })
      else if c.pointer = 511 then c.nextBlock
      else (.ok, c.advance 1)
  | .dir | .partlist =>
      if (c.pointer : Int) = c.lastByte then (.noFile, { c with state := .complete })
      else if (c.pointer : Int) = c.prefetchMax - 1 then (.ok, e.readDirEntries c)
      else (.ok, c.advance 1)
  | .record => if (c.pointer : Int) ≥ c.lastByte then e.popRecord c else (.ok, c.advance 1)
  | .buffer => (.ok, c.advance 1)
  | _ => (.noFile, c)

end Channel

/-! ## Talking -/

/-- A channel that talks, with the bytes on their way: prefetched and not yet
    popped, and popped. -/
structure Talk where
  chan : Channel
  ahead : List UInt8
  popped : List UInt8

/-- The calls of a talk pass. -/
inductive Call where
  | prefetchData
  | prefetchMore (maxFetch : Nat)
  | popData
  | popMore (popSize : Nat)
  | resetPrefetch
  deriving DecidableEq, Repr

/-- No more is popped than was prefetched. -/
def Call.Allowed (t : Talk) : Call → Prop
  | .popData => 1 ≤ t.ahead.length
  | .popMore n => n ≤ t.ahead.length
  | _ => True

/-- One call: its answer and what it does to the bytes on their way. -/
def Call.run (e : Elsewhere) (t : Talk) : Call → Retval × Talk
  | .prefetchData =>
      match t.chan.prefetchData with
      | (r, b, c) => (r, { t with chan := c, ahead := t.ahead ++ b.toList })
  | .prefetchMore n =>
      match t.chan.prefetchMore n with
      | (r, bs, c) => (r, { t with chan := c, ahead := t.ahead ++ bs })
  | .popData =>
      match t.chan.popData e with
      | (r, c) => (r, ⟨c, t.ahead.drop 1, t.popped ++ t.ahead.take 1⟩)
  | .popMore n =>
      match t.chan.popMore e n with
      | (r, c) => (r, ⟨c, t.ahead.drop n, t.popped ++ t.ahead.take n⟩)
  | .resetPrefetch => (.ok, { t with chan := t.chan.resetPrefetch, ahead := [] })

/-- The states a talk gets to. -/
inductive Reachable (e : Elsewhere) (t₀ : Talk) : Talk → Prop where
  | start : Reachable e t₀ t₀
  | call {t : Talk} (c : Call) : Reachable e t₀ t → c.Allowed t → Reachable e t₀ (c.run e t).2

/-- A channel that has just been opened for reading. -/
def opened (c : Channel) : Talk := ⟨c.setupFileAccess.2, [], []⟩

/-- The number of bytes prefetched, the popped ones included. -/
def Talk.fetched (t : Talk) : Nat := t.popped.length + t.ahead.length

/-! ## What a listener gets -/

/-- What holds between two calls: the bytes are the file's, in order, each
    once; `IEC_LAST` goes with the final byte and with no other; behind it there
    is nothing. -/
structure Delivers (e : Elsewhere) (content : List UInt8) (t : Talk) : Prop where
  /-- Popped and prefetched bytes are the file from its start. -/
  bytes : t.popped ++ t.ahead = content.take t.fetched
  /-- A byte that is prefetched is the next one, with `IEC_LAST` for the final
      byte; only with bytes still to be popped can a block be used up. -/
  prefetchData :
    (∃ t', Call.run e t .prefetchData = (.ok, t') ∧ t.fetched + 1 < content.length ∧
      t'.fetched = t.fetched + 1) ∨
    (∃ t', Call.run e t .prefetchData = (.last, t') ∧ t.fetched + 1 = content.length ∧
      t'.fetched = t.fetched + 1) ∨
    (∃ t', Call.run e t .prefetchData = (.noFile, t') ∧ t.fetched = content.length ∧
      t'.fetched = t.fetched) ∨
    (∃ t', Call.run e t .prefetchData = (.bufferEnd, t') ∧ t.fetched < content.length ∧
      t'.fetched = t.fetched ∧ t.ahead ≠ [])
  /-- The same for several bytes. -/
  prefetchMore : ∀ n,
    (∃ t', Call.run e t (.prefetchMore n) = (.ok, t') ∧ t'.fetched < content.length ∧
      (t'.fetched = t.fetched + n ∨ (t'.fetched < t.fetched + n ∧ t'.ahead ≠ []))) ∨
    (∃ t', Call.run e t (.prefetchMore n) = (.last, t') ∧ t.fetched < content.length ∧
      t'.fetched = content.length ∧ content.length ≤ t.fetched + n) ∨
    (∃ t', Call.run e t (.prefetchMore n) = (.noFile, t') ∧ t.fetched = content.length ∧
      t'.fetched = t.fetched)
  /-- The pop that takes the final byte answers `IEC_NO_FILE`, and no other
      does. -/
  pops : ∀ c : Call, c.Allowed t → (c = .popData ∨ ∃ n, c = .popMore n) →
    (Call.run e t c).1 = if (Call.run e t c).2.popped = content then .noFile else .ok
  /-- After the final byte the channel answers `IEC_NO_FILE` to everything but
      `reset_prefetch`. -/
  complete : t.popped = content → ∀ c : Call, c ≠ .resetPrefetch → (Call.run e t c).1 = .noFile

/-! ## The two blocks -/

namespace Channel

@[simp] theorem curblk_swapBuffers (c : Channel) : c.swapBuffers.curblk = c.nxtblk := by
  cases h : c.pingpong <;> simp [curblk, nxtblk, swapBuffers, h]

@[simp] theorem curblk_setNxtblk (c : Channel) (b : BufBlk) :
    (c.setNxtblk b).curblk = c.curblk := by
  cases h : c.pingpong <;> simp [curblk, setNxtblk, h]

@[simp] theorem nxtblk_setNxtblk (c : Channel) (b : BufBlk) : (c.setNxtblk b).nxtblk = b := by
  cases h : c.pingpong <;> simp [nxtblk, setNxtblk, h]

@[simp] theorem setNxtblk_lastByte (c : Channel) (b : BufBlk) :
    (c.setNxtblk b).lastByte = c.lastByte := by
  cases h : c.pingpong <;> simp [setNxtblk, h]

@[simp] theorem setNxtblk_state (c : Channel) (b : BufBlk) :
    (c.setNxtblk b).state = c.state := by
  cases h : c.pingpong <;> simp [setNxtblk, h]

@[simp] theorem setCurblk_f (c : Channel) (b : BufBlk) : (c.setCurblk b).f = c.f := by
  cases h : c.pingpong <;> simp [setCurblk, h]

@[simp] theorem setCurblk_lastByte (c : Channel) (b : BufBlk) :
    (c.setCurblk b).lastByte = c.lastByte := by
  cases h : c.pingpong <;> simp [setCurblk, h]

@[simp] theorem setCurblk_state (c : Channel) (b : BufBlk) :
    (c.setCurblk b).state = c.state := by
  cases h : c.pingpong <;> simp [setCurblk, h]

end Channel

/-- A block holds the 512 bytes of the file from `base` on, or as many as there
    are. -/
structure Holds (content : List UInt8) (base : Nat) (b : BufBlk) : Prop where
  valid : b.validBytes = min 512 (content.length - base)
  data : b.bufdata.slice 0 b.validBytes = (content.drop base).take 512

/-- Reading ahead fills a block. -/
theorem readNext_holds (c : Channel) (content : List UInt8) (base : Nat)
    (hf : c.f = .bytes (content.drop base)) :
    ∃ c', c.readNext = (true, c') ∧ c'.curblk = c.curblk ∧ Holds content base c'.nxtblk ∧
      c'.f = .bytes (content.drop (base + 512)) ∧ c'.lastByte = c.lastByte ∧
      c'.state = c.state := by
  rw [Channel.readNext, hf]
  have hlen : ((content.drop base).take 512).length = min 512 (content.length - base) := by
    rw [List.length_take, List.length_drop]
  refine ⟨_, rfl, Channel.curblk_setNxtblk c _, ?_, ?_, Channel.setNxtblk_lastByte c _,
    Channel.setNxtblk_state c _⟩
  · show Holds content base (c.setNxtblk _).nxtblk
    rw [Channel.nxtblk_setNxtblk]
    exact ⟨hlen, Buffer.slice_blit _ (by rw [hlen]; omega)⟩
  · show Source.bytes ((content.drop base).drop 512) = _
    rw [List.drop_drop]

/-! ## The invariant -/

/-- The channel streams, and its current block starts at byte `base`. -/
structure Streams (content : List UInt8) (base : Nat) (t : Talk) : Prop where
  state : t.chan.state = .file
  cur : Holds content base t.chan.curblk
  nxt : Holds content (base + 512) t.chan.nxtblk
  rest : t.chan.f = .bytes (content.drop (base + 1024))
  lastByte : t.chan.lastByte
    = if content.length ≤ base + 512 then (content.length : Int) - base - 1 else -1
  prefetchMax : t.chan.prefetchMax = 512
  pointer_lt : t.chan.pointer < min 512 (content.length - base)
  pointer_le : t.chan.pointer ≤ t.chan.prefetch
  prefetch_le : base + 512 < content.length → t.chan.prefetch ≤ 512
  popped : t.popped = content.take (base + t.chan.pointer)
  ahead : t.ahead
    = (content.drop (base + t.chan.pointer)).take (t.chan.prefetch - t.chan.pointer)

/-- The whole file was popped. -/
structure Done (content : List UInt8) (t : Talk) : Prop where
  state : t.chan.state = .complete
  popped : t.popped = content
  ahead : t.ahead = []

/-- A new block comes into view.  The last byte is only set at the end of the file, so
    before that there must not be any. -/
theorem readBlock_streams_of (c : Channel) (content : List UInt8) (base : Nat)
    (hstate : c.state = .file) (hlast : c.lastByte = -1 ∨ content.length ≤ base + 512)
    (hnxt : Holds content base c.nxtblk) (hf : c.f = .bytes (content.drop (base + 512)))
    (hbase : base < content.length) :
    ∃ c', c.readBlock = (true, c') ∧ Streams content base ⟨c', [], content.take base⟩ := by
  obtain ⟨c₁, hx, hcur, hnxt₁, hf₁, hlast₁, hstate₁⟩ :=
    readNext_holds c.swapBuffers content (base + 512) hf
  rw [Channel.curblk_swapBuffers] at hcur
  have hvalid : c₁.curblk.validBytes ≠ 0 := by
    rw [hcur, hnxt.valid]
    omega
  refine ⟨c₁.enterBlock, ?_, ?_⟩
  · rw [Channel.readBlock, hf]
    dsimp only
    rw [hx]
  · rw [Channel.enterBlock, if_neg hvalid]
    refine ⟨hstate₁.trans hstate, hcur ▸ hnxt, hnxt₁, hf₁, ?_, rfl, by dsimp only; omega,
      Nat.le_refl 0, fun _ => Nat.zero_le _, rfl, rfl⟩
    dsimp only
    rw [hcur, hnxt.valid, hnxt₁.valid, hlast₁]
    by_cases hshort : content.length < base + 512
    · rw [if_pos (by omega), if_pos (by omega)]
      omega
    · by_cases hfull : content.length = base + 512
      · rw [if_neg (by omega), if_pos (by omega), if_pos (by omega)]
        omega
      · rw [if_neg (by omega), if_neg (by omega), if_neg (by omega)]
        exact hlast.resolve_right (by omega)

theorem readBlock_streams (c : Channel) (content : List UInt8) (base : Nat)
    (hstate : c.state = .file) (hlast : c.lastByte = -1) (hnxt : Holds content base c.nxtblk)
    (hf : c.f = .bytes (content.drop (base + 512))) (hbase : base < content.length) :
    ∃ c', c.readBlock = (true, c') ∧ Streams content base ⟨c', [], content.take base⟩ :=
  readBlock_streams_of c content base hstate (Or.inl hlast) hnxt hf hbase

namespace Streams

variable {content : List UInt8} {base : Nat} {t : Talk}

theorem pointer_lt_length (h : Streams content base t) :
    base + t.chan.pointer < content.length := by
  have := h.pointer_lt
  omega

/-- The bytes of the current block. -/
theorem slice (h : Streams content base t) {p n : Nat}
    (hp : p + n ≤ min 512 (content.length - base)) :
    t.chan.buffer.slice p n = (content.drop (base + p)).take n := by
  have hcur := congrArg (fun l => (l.drop p).take n) h.cur.data
  rw [h.cur.valid] at hcur
  rw [Buffer.drop_slice _ (by omega), Buffer.take_slice _ (by omega), Nat.zero_add,
    List.drop_take, List.drop_drop, List.take_take, Nat.min_eq_left (by omega)] at hcur
  exact hcur

/-- What was prefetched, whether it is popped or not. -/
theorem fetched_eq (h : Streams content base t) :
    t.fetched = min (base + t.chan.prefetch) content.length := by
  have h1 := h.pointer_lt
  have h2 := h.pointer_le
  rw [Talk.fetched, h.popped, h.ahead, List.length_take, List.length_take, List.length_drop]
  omega

theorem ahead_ne_nil (h : Streams content base t) (hlt : t.chan.pointer < t.chan.prefetch) :
    t.ahead ≠ [] := by
  have h1 := h.pointer_lt_length
  intro h0
  have hlen := congrArg List.length h.ahead
  rw [h0, List.length_take, List.length_drop, List.length_nil] at hlen
  omega

/-- Prefetching `n` bytes that are there. -/
theorem prefetched (h : Streams content base t) {n : Nat}
    (hn : t.chan.prefetch + n ≤ min 512 (content.length - base)) :
    Streams content base
      { t with chan := t.chan.prefetched n
               ahead := t.ahead ++ t.chan.buffer.slice t.chan.prefetch n } where
  state := h.state
  cur := h.cur
  nxt := h.nxt
  rest := h.rest
  lastByte := h.lastByte
  prefetchMax := h.prefetchMax
  pointer_lt := h.pointer_lt
  pointer_le := Nat.le_trans h.pointer_le (Nat.le_add_right _ _)
  prefetch_le := by
    intro _
    show t.chan.prefetch + n ≤ 512
    omega
  popped := h.popped
  ahead := by
    have hle := h.pointer_le
    show t.ahead ++ t.chan.buffer.slice t.chan.prefetch n
      = (content.drop (base + t.chan.pointer)).take (t.chan.prefetch + n - t.chan.pointer)
    rw [h.slice hn, h.ahead, show t.chan.prefetch + n - t.chan.pointer
      = (t.chan.prefetch - t.chan.pointer) + n by omega, List.take_add, List.drop_drop,
      show base + t.chan.pointer + (t.chan.prefetch - t.chan.pointer)
        = base + t.chan.prefetch by omega]

/-- Asking for more behind the final byte. -/
theorem overrun (h : Streams content base t) (hend : content.length ≤ base + t.chan.prefetch) :
    Streams content base { t with chan := t.chan.prefetched 1 } where
  state := h.state
  cur := h.cur
  nxt := h.nxt
  rest := h.rest
  lastByte := h.lastByte
  prefetchMax := h.prefetchMax
  pointer_lt := h.pointer_lt
  pointer_le := Nat.le_trans h.pointer_le (Nat.le_add_right _ _)
  prefetch_le := by
    intro hlt
    have := h.prefetch_le hlt
    omega
  popped := h.popped
  ahead := by
    have h1 := h.pointer_lt_length
    show t.ahead
      = (content.drop (base + t.chan.pointer)).take (t.chan.prefetch + 1 - t.chan.pointer)
    rw [h.ahead, List.take_of_length_le (by rw [List.length_drop]; omega),
      List.take_of_length_le (by rw [List.length_drop]; omega)]

theorem reset (h : Streams content base t) :
    Streams content base { t with chan := t.chan.resetPrefetch, ahead := [] } where
  state := h.state
  cur := h.cur
  nxt := h.nxt
  rest := h.rest
  lastByte := h.lastByte
  prefetchMax := h.prefetchMax
  pointer_lt := h.pointer_lt
  pointer_le := Nat.le_refl _
  prefetch_le := by
    intro _
    show t.chan.pointer ≤ 512
    have := h.pointer_lt
    omega
  popped := h.popped
  ahead := by
    show [] = (content.drop _).take (t.chan.pointer - t.chan.pointer)
    rw [Nat.sub_self, List.take_zero]

/-- The bytes a pop moves. -/
theorem popped_take (h : Streams content base t) {n : Nat} (hn : n ≤ t.ahead.length) :
    t.popped ++ t.ahead.take n = content.take (base + (t.chan.pointer + n)) := by
  rw [h.ahead, List.length_take] at hn
  rw [h.popped, h.ahead, List.take_take, Nat.min_eq_left (by omega), ← Nat.add_assoc,
    ← List.take_add]

/-- Popping `n` bytes and staying in the block. -/
theorem advance (h : Streams content base t) {n : Nat} (hn : n ≤ t.ahead.length)
    (hlt : t.chan.pointer + n < min 512 (content.length - base)) :
    Streams content base
      ⟨t.chan.advance n, t.ahead.drop n, t.popped ++ t.ahead.take n⟩ where
  state := h.state
  cur := h.cur
  nxt := h.nxt
  rest := h.rest
  lastByte := h.lastByte
  prefetchMax := h.prefetchMax
  pointer_lt := hlt
  pointer_le := by
    rw [h.ahead, List.length_take] at hn
    have := h.pointer_le
    show t.chan.pointer + n ≤ t.chan.prefetch
    omega
  prefetch_le := h.prefetch_le
  popped := h.popped_take hn
  ahead := by
    show t.ahead.drop n
      = (content.drop (base + (t.chan.pointer + n))).take (t.chan.prefetch - (t.chan.pointer + n))
    rw [h.ahead, List.drop_take, List.drop_drop, ← Nat.add_assoc, Nat.sub_add_eq]

/-- Popping the final byte. -/
theorem finish (h : Streams content base t) {n : Nat} (hn : n ≤ t.ahead.length)
    (hend : content.length = base + (t.chan.pointer + n)) {c : Channel}
    (hc : c.state = .complete) :
    Done content ⟨c, t.ahead.drop n, t.popped ++ t.ahead.take n⟩ where
  state := hc
  popped := by
    show t.popped ++ t.ahead.take n = content
    rw [h.popped_take hn, ← hend, List.take_length]
  ahead := by
    show t.ahead.drop n = []
    rw [h.ahead, List.drop_take, List.drop_drop, List.drop_of_length_le (by omega),
      List.take_nil]

end Streams

/-! ## Every call -/

/-- A talk in progress, or over. -/
def Inv (content : List UInt8) (t : Talk) : Prop :=
  (∃ base, Streams content base t) ∨ Done content t

variable {e : Elsewhere} {content : List UInt8} {base : Nat} {t : Talk}

theorem slice_one {n : Nat} (b : Buffer n) (p : Nat) : b.slice p 1 = [b.get p] := rfl

theorem Streams.prefetchData (h : Streams content base t) :
    ∃ r t', Call.run e t .prefetchData = (r, t') ∧ Streams content base t' ∧
      ((r = .ok ∧ t.fetched + 1 < content.length ∧ t'.fetched = t.fetched + 1) ∨
       (r = .last ∧ t.fetched + 1 = content.length ∧ t'.fetched = t.fetched + 1) ∨
       (r = .noFile ∧ t.fetched = content.length ∧ t'.fetched = t.fetched) ∨
       (r = .bufferEnd ∧ t.fetched < content.length ∧ t'.fetched = t.fetched ∧
        t.ahead ≠ [])) := by
  have hfetched := h.fetched_eq
  have hpl := h.pointer_lt
  have hstate : ¬ (t.chan.state = .error ∨ t.chan.state = .complete) := by
    rw [h.state]
    decide
  -- the answer with the byte at the prefetch pointer
  have htake : ∀ r : Retval, t.chan.prefetchData
      = (r, some (t.chan.buffer.get t.chan.prefetch), t.chan.prefetched 1) →
      t.chan.prefetch + 1 ≤ min 512 (content.length - base) →
      ∃ t', Call.run e t .prefetchData = (r, t') ∧ Streams content base t' ∧
        t'.fetched = t.fetched + 1 := by
    intro r hr hn
    refine ⟨_, by rw [Call.run, hr]; rfl, h.prefetched hn, ?_⟩
    rw [hfetched, (h.prefetched hn).fetched_eq]
    show min (base + (t.chan.prefetch + 1)) content.length = _
    omega
  by_cases hlast : content.length ≤ base + 512
  · have hlb : t.chan.lastByte = (content.length : Int) - base - 1 := by
      rw [h.lastByte, if_pos hlast]
    have hge : t.chan.lastByte ≥ 0 := by omega
    by_cases heq : (t.chan.prefetch : Int) = t.chan.lastByte
    · obtain ⟨t', hx, ht', hf⟩ := htake .last (by
        rw [Channel.prefetchData, if_neg hstate, if_pos hge, if_pos heq]) (by omega)
      exact ⟨_, t', hx, ht', Or.inr (Or.inl ⟨rfl, by omega, hf⟩)⟩
    · by_cases hgt : (t.chan.prefetch : Int) > t.chan.lastByte
      · have hover := h.overrun (by omega)
        refine ⟨.noFile, { t with chan := t.chan.prefetched 1 }, ?_, hover,
          Or.inr (Or.inr (Or.inl ⟨rfl, by omega, ?_⟩))⟩
        · rw [Call.run, Channel.prefetchData, if_neg hstate, if_pos hge, if_neg heq, if_pos hgt]
          dsimp only [Option.toList_none]
          rw [List.append_nil]
        · rfl
      · obtain ⟨t', hx, ht', hf⟩ := htake .ok (by
          rw [Channel.prefetchData, if_neg hstate, if_pos hge, if_neg heq, if_neg hgt]) (by omega)
        exact ⟨_, t', hx, ht', Or.inl ⟨rfl, by omega, hf⟩⟩
  · have hlb : ¬ t.chan.lastByte ≥ 0 := by
      rw [h.lastByte, if_neg hlast]
      decide
    have hple := h.prefetch_le (by omega)
    by_cases hlt : t.chan.prefetch < t.chan.prefetchMax
    · have hlt' := hlt
      rw [h.prefetchMax] at hlt'
      obtain ⟨t', hx, ht', hf⟩ := htake .ok (by
        rw [Channel.prefetchData, if_neg hstate, if_neg hlb, if_pos hlt]) (by omega)
      exact ⟨_, t', hx, ht', Or.inl ⟨rfl, by omega, hf⟩⟩
    · have hmax := h.prefetchMax
      refine ⟨.bufferEnd, t, ?_, h, Or.inr (Or.inr (Or.inr ⟨rfl, by omega, rfl,
        h.ahead_ne_nil (by omega)⟩))⟩
      rw [Call.run, Channel.prefetchData, if_neg hstate, if_neg hlb, if_neg hlt,
        if_neg (by omega)]
      dsimp only [Option.toList_none]
      rw [List.append_nil]

theorem Streams.prefetchMore (h : Streams content base t) (n : Nat) :
    ∃ r t', Call.run e t (.prefetchMore n) = (r, t') ∧ Streams content base t' ∧
      ((r = .ok ∧ t'.fetched < content.length ∧
          (t'.fetched = t.fetched + n ∨ (t'.fetched < t.fetched + n ∧ t'.ahead ≠ []))) ∨
       (r = .last ∧ t.fetched < content.length ∧ t'.fetched = content.length ∧
          content.length ≤ t.fetched + n) ∨
       (r = .noFile ∧ t.fetched = content.length ∧ t'.fetched = t.fetched)) := by
  have hfetched := h.fetched_eq
  have hpl := h.pointer_lt
  have hstate : ¬ (t.chan.state = .error ∨ t.chan.state = .complete) := by
    rw [h.state]
    decide
  have htake : ∀ (r : Retval) (k : Nat), t.chan.prefetchMore n
      = (r, t.chan.buffer.slice t.chan.prefetch k, t.chan.prefetched k) →
      t.chan.prefetch + k ≤ min 512 (content.length - base) →
      ∃ t', Call.run e t (.prefetchMore n) = (r, t') ∧ Streams content base t' ∧
        t'.chan.pointer = t.chan.pointer ∧ t'.chan.prefetch = t.chan.prefetch + k := by
    intro r k hr hn
    exact ⟨_, by rw [Call.run, hr], h.prefetched hn, rfl, rfl⟩
  by_cases hlast : content.length ≤ base + 512
  · have hlb : t.chan.lastByte = (content.length : Int) - base - 1 := by
      rw [h.lastByte, if_pos hlast]
    have hge : t.chan.lastByte ≥ 0 := by omega
    by_cases hgt : (t.chan.prefetch : Int) > t.chan.lastByte
    · refine ⟨.noFile, t, ?_, h, Or.inr (Or.inr ⟨rfl, by omega, rfl⟩)⟩
      rw [Call.run, Channel.prefetchMore, if_neg hstate, if_pos hge, if_pos hgt]
      dsimp only
      rw [List.append_nil]
    · by_cases hend : (t.chan.prefetch : Int) + n > t.chan.lastByte
      · obtain ⟨t', hx, ht', -, hp⟩ := htake .last (t.chan.lastByte - t.chan.prefetch + 1).toNat
          (by rw [Channel.prefetchMore, if_neg hstate, if_pos hge, if_neg hgt, if_pos hend])
          (by omega)
        have hf := ht'.fetched_eq
        exact ⟨_, t', hx, ht', Or.inr (Or.inl ⟨rfl, by omega, by omega, by omega⟩)⟩
      · obtain ⟨t', hx, ht', -, hp⟩ := htake .ok n
          (by rw [Channel.prefetchMore, if_neg hstate, if_pos hge, if_neg hgt, if_neg hend])
          (by omega)
        have hf := ht'.fetched_eq
        exact ⟨_, t', hx, ht', Or.inl ⟨rfl, by omega, Or.inl (by omega)⟩⟩
  · have hlb : ¬ t.chan.lastByte ≥ 0 := by
      rw [h.lastByte, if_neg hlast]
      decide
    have hple := h.prefetch_le (by omega)
    have hmax := h.prefetchMax
    obtain ⟨k, hk⟩ : ∃ k, (if t.chan.prefetch + n > t.chan.prefetchMax then
        (if t.chan.prefetch < t.chan.prefetchMax then t.chan.prefetchMax - t.chan.prefetch
          else 0) else n) = k := ⟨_, rfl⟩
    have hbound : t.chan.prefetch + k ≤ 512 ∧ (k = n ∨ (k < n ∧ t.chan.prefetch + k = 512)) := by
      rw [hmax] at hk
      split at hk
      · split at hk <;> omega
      · omega
    obtain ⟨t', hx, ht', hptr, hp⟩ := htake .ok k
      (by
        rw [Channel.prefetchMore, if_neg hstate, if_neg hlb]
        dsimp only
        rw [hk]) (by omega)
    have hf := ht'.fetched_eq
    refine ⟨_, t', hx, ht', Or.inl ⟨rfl, by omega, ?_⟩⟩
    rcases hbound.2 with rfl | ⟨hkn, hfull⟩
    · exact Or.inl (by omega)
    · exact Or.inr ⟨by omega, ht'.ahead_ne_nil (by omega)⟩

/-- Popping the last byte of a block that is not the last one. -/
theorem Streams.nextBlock (h : Streams content base t) {n : Nat} (hn : n ≤ t.ahead.length)
    (hfull : t.chan.pointer + n = 512) (hmore : base + 512 < content.length) (c : Channel)
    (hc : c.state = t.chan.state) (hl : c.lastByte = t.chan.lastByte)
    (hb : c.nxtblk = t.chan.nxtblk) (hf : c.f = t.chan.f) :
    ∃ c', c.nextBlock = (.ok, c') ∧
      Streams content (base + 512) ⟨c', t.ahead.drop n, t.popped ++ t.ahead.take n⟩ := by
  obtain ⟨c', hx, hs⟩ := readBlock_streams c content (base + 512)
    (hc.trans h.state) (by rw [hl, h.lastByte, if_neg (by omega)]) (hb ▸ h.nxt)
    (hf.trans h.rest) hmore
  have hahead : t.ahead.drop n = [] := by
    have := h.prefetch_le hmore
    rw [h.ahead, List.drop_take, show t.chan.prefetch - t.chan.pointer - n = 0 by omega,
      List.take_zero]
  refine ⟨c', by rw [Channel.nextBlock, hx], ?_⟩
  rw [h.popped_take hn, hfull, hahead]
  exact hs

/-- What a pop of `n` bytes does: the final byte ends the talk. -/
def Popped (content : List UInt8) (base n : Nat) (t : Talk) (r : Retval × Talk) : Prop :=
  (r.1 = .noFile ∧ Done content r.2 ∧ content.length = base + (t.chan.pointer + n)) ∨
  (r.1 = .ok ∧ base + (t.chan.pointer + n) < content.length ∧ ∃ base', Streams content base' r.2)

theorem Streams.popData (h : Streams content base t) (hn : 1 ≤ t.ahead.length) :
    Popped content base 1 t (Call.run e t .popData) := by
  have hpl := h.pointer_lt
  have hlen := h.pointer_lt_length
  rw [Call.run, Channel.popData, h.state]
  dsimp only
  by_cases hend : (t.chan.pointer : Int) = t.chan.lastByte
  · rw [if_pos hend]
    have hlast : content.length ≤ base + 512 := by
      by_contra hgt
      rw [h.lastByte, if_neg hgt] at hend
      omega
    rw [h.lastByte, if_pos hlast] at hend
    exact Or.inl ⟨rfl, h.finish hn (by omega) rfl, by omega⟩
  · rw [if_neg hend]
    have hmore : base + (t.chan.pointer + 1) < content.length := by
      by_contra hge
      rw [h.lastByte, if_pos (by omega)] at hend
      omega
    by_cases hfull : t.chan.pointer = 511
    · rw [if_pos hfull]
      obtain ⟨c', hx, hs⟩ := h.nextBlock hn (by omega) (by omega) t.chan rfl rfl rfl rfl
      rw [hx]
      exact Or.inr ⟨rfl, hmore, _, hs⟩
    · rw [if_neg hfull]
      exact Or.inr ⟨rfl, hmore, _, h.advance hn (by omega)⟩

theorem Streams.popMore (h : Streams content base t) {n : Nat} (hn : n ≤ t.ahead.length) :
    Popped content base n t (Call.run e t (.popMore n)) := by
  have hpl := h.pointer_lt
  have hle : base + (t.chan.pointer + n) ≤ content.length := by
    rw [h.ahead, List.length_take, List.length_drop] at hn
    omega
  have hple := h.pointer_le
  rw [Call.run, Channel.popMore, h.state]
  dsimp only
  by_cases hend : (t.chan.advance n).lastByte ≥ 0 ∧
      ((t.chan.advance n).pointer : Int) > (t.chan.advance n).lastByte
  · rw [if_pos hend]
    have hlb : (t.chan.advance n).lastByte = t.chan.lastByte := rfl
    have hptr : (t.chan.advance n).pointer = t.chan.pointer + n := rfl
    rw [hlb, hptr, h.lastByte] at hend
    have hlast : content.length ≤ base + 512 := by
      by_contra hgt
      rw [if_neg hgt] at hend
      omega
    rw [if_pos hlast] at hend
    exact Or.inl ⟨rfl, h.finish hn (by omega) rfl, by omega⟩
  · rw [if_neg hend]
    have hlb : (t.chan.advance n).lastByte = t.chan.lastByte := rfl
    have hptr : (t.chan.advance n).pointer = t.chan.pointer + n := rfl
    rw [hlb, hptr, h.lastByte] at hend
    have hmore : base + (t.chan.pointer + n) < content.length := by
      by_contra hge
      by_cases hlast : content.length ≤ base + 512
      · rw [if_pos hlast] at hend
        omega
      · have := h.prefetch_le (by omega)
        rw [h.ahead, List.length_take] at hn
        omega
    by_cases hfull : (t.chan.advance n).pointer = 512
    · rw [if_pos hfull]
      rw [hptr] at hfull
      obtain ⟨c', hx, hs⟩ := h.nextBlock hn hfull (by omega) (t.chan.advance n) rfl rfl rfl rfl
      rw [hx]
      exact Or.inr ⟨rfl, hmore, _, hs⟩
    · rw [if_neg hfull]
      rw [hptr] at hfull
      refine Or.inr ⟨rfl, hmore, _, h.advance hn ?_⟩
      by_cases hlast : content.length ≤ base + 512
      · omega
      · have := h.prefetch_le (by omega)
        rw [h.ahead, List.length_take] at hn
        omega

/-- Once the file was popped, nothing but `reset_prefetch` does anything. -/
theorem Done.run (h : Done content t) {c : Call} (hc : c.Allowed t) (hr : c ≠ .resetPrefetch) :
    Call.run e t c = (.noFile, t) := by
  obtain ⟨chan, ahead, popped⟩ := t
  obtain ⟨hstate, hpopped, hahead⟩ := h
  dsimp only at hstate hpopped hahead
  subst hahead
  cases c with
  | prefetchData =>
      rw [Call.run, Channel.prefetchData, if_pos (Or.inr hstate)]
      rfl
  | prefetchMore n =>
      rw [Call.run, Channel.prefetchMore, if_pos (Or.inr hstate)]
      rfl
  | popData => exact absurd hc (Nat.not_succ_le_zero 0)
  | popMore n =>
      obtain rfl : n = 0 := Nat.le_zero.mp hc
      rw [Call.run, Channel.popMore]
      dsimp only
      rw [hstate]
      dsimp only
      rw [List.take_nil, List.append_nil, List.drop_nil]
  | resetPrefetch => exact absurd rfl hr

/-- The answer is the same when more is popped than there is. -/
theorem Done.answer (h : Done content t) {c : Call} (hr : c ≠ .resetPrefetch) :
    (Call.run e t c).1 = .noFile := by
  cases c with
  | prefetchData => rw [h.run (c := .prefetchData) trivial hr]
  | prefetchMore n => rw [h.run (c := .prefetchMore n) trivial hr]
  | popData => rw [Call.run, Channel.popData, h.state]
  | popMore n => rw [Call.run, Channel.popMore, h.state]
  | resetPrefetch => exact absurd rfl hr

/-- Every call keeps the invariant. -/
theorem Inv.run (h : Inv content t) {c : Call} (hc : c.Allowed t) :
    Inv content (Call.run e t c).2 := by
  rcases h with ⟨base, h⟩ | h
  · cases c with
    | prefetchData =>
        obtain ⟨r, t', hx, ht', -⟩ := h.prefetchData (e := e)
        rw [hx]
        exact Or.inl ⟨base, ht'⟩
    | prefetchMore n =>
        obtain ⟨r, t', hx, ht', -⟩ := h.prefetchMore (e := e) n
        rw [hx]
        exact Or.inl ⟨base, ht'⟩
    | popData =>
        rcases h.popData (e := e) hc with ⟨-, hd, -⟩ | ⟨-, -, hs⟩
        · exact Or.inr hd
        · exact Or.inl hs
    | popMore n =>
        rcases h.popMore (e := e) hc with ⟨-, hd, -⟩ | ⟨-, -, hs⟩
        · exact Or.inr hd
        · exact Or.inl hs
    | resetPrefetch => exact Or.inl ⟨base, h.reset⟩
  · by_cases hr : c = .resetPrefetch
    · subst hr
      exact Or.inr ⟨h.state, h.popped, rfl⟩
    · rw [h.run hc hr]
      exact Or.inr h

/-- The end of `setup_file_access` starts the stream. -/
theorem opened_streams (c : Channel) (hf : c.f = .bytes content) (hne : content ≠ []) :
    Streams content 0 (opened c) := by
  rw [opened, Channel.setupFileAccess]
  dsimp only
  obtain ⟨c₁, hx, -, hnxt, hf₁, hlast, hstate⟩ := readNext_holds
    (Channel.setCurblk { c with
      lastByte := -1, pointer := 0, prefetch := 0, prefetchMax := 512, state := .file }
        { c.curblk with validBytes := 0 }) content 0
    (by rw [Channel.setCurblk_f]; exact hf)
  rw [Channel.setCurblk_lastByte] at hlast
  rw [Channel.setCurblk_state] at hstate
  obtain ⟨c₂, hy, hs⟩ := readBlock_streams c₁ content 0 hstate hlast hnxt hf₁
    (List.length_pos_iff.mpr hne)
  show Streams content 0 ⟨(Channel.readBlock (Channel.readNext (Channel.setCurblk { c with
      lastByte := -1, pointer := 0, prefetch := 0, prefetchMax := 512, state := .file }
        { c.curblk with validBytes := 0 })).2).2, [], []⟩
  rw [hx, hy]
  exact hs

theorem Inv.bytes (h : Inv content t) : t.popped ++ t.ahead = content.take t.fetched := by
  rcases h with ⟨base, h⟩ | h
  · have h1 := h.pointer_lt_length
    have h2 := h.pointer_le
    rw [h.fetched_eq, h.popped, h.ahead, ← List.take_add]
    rw [show base + t.chan.pointer + (t.chan.prefetch - t.chan.pointer)
      = base + t.chan.prefetch by omega]
    by_cases hlt : base + t.chan.prefetch ≤ content.length
    · rw [Nat.min_eq_left hlt]
    · rw [Nat.min_eq_right (by omega), List.take_of_length_le (by omega), List.take_length]
  · rw [Talk.fetched, h.ahead, h.popped, List.append_nil, List.length_nil, Nat.add_zero,
      List.take_length]

/-- What is promised follows from the invariant. -/
theorem Inv.delivers (h : Inv content t) : Delivers e content t where
  bytes := h.bytes
  prefetchData := by
    rcases h with ⟨base, h⟩ | h
    · obtain ⟨r, t', hx, -, hr⟩ := h.prefetchData (e := e)
      rcases hr with ⟨rfl, h1, h2⟩ | ⟨rfl, h1, h2⟩ | ⟨rfl, h1, h2⟩ | ⟨rfl, h1, h2, h3⟩
      · exact Or.inl ⟨t', hx, h1, h2⟩
      · exact Or.inr (Or.inl ⟨t', hx, h1, h2⟩)
      · exact Or.inr (Or.inr (Or.inl ⟨t', hx, h1, h2⟩))
      · exact Or.inr (Or.inr (Or.inr ⟨t', hx, h1, h2, h3⟩))
    · refine Or.inr (Or.inr (Or.inl ⟨t, h.run trivial (by decide), ?_, rfl⟩))
      rw [Talk.fetched, h.popped, h.ahead]
      rfl
  prefetchMore := by
    intro n
    rcases h with ⟨base, h⟩ | h
    · obtain ⟨r, t', hx, -, hr⟩ := h.prefetchMore (e := e) n
      rcases hr with ⟨rfl, h1, h2⟩ | ⟨rfl, h1, h2, h3⟩ | ⟨rfl, h1, h2⟩
      · exact Or.inl ⟨t', hx, h1, h2⟩
      · exact Or.inr (Or.inl ⟨t', hx, h1, h2, h3⟩)
      · exact Or.inr (Or.inr ⟨t', hx, h1, h2⟩)
    · refine Or.inr (Or.inr ⟨t, h.run trivial (fun hc => nomatch hc), ?_, rfl⟩)
      rw [Talk.fetched, h.popped, h.ahead]
      rfl
  pops := by
    intro c hc hpop
    rcases h with ⟨base, h⟩ | h
    · have hkey : ∀ n, Popped content base n t (Call.run e t c) →
          (Call.run e t c).2.popped = content.take (base + (t.chan.pointer + n)) →
          (Call.run e t c).1 = if (Call.run e t c).2.popped = content then .noFile else .ok := by
        rintro n (⟨hr, hd, -⟩ | ⟨hr, hlt, -⟩) hp
        · rw [hr, if_pos hd.popped]
        · rw [hr, if_neg]
          rw [hp]
          intro he
          have := congrArg List.length he
          rw [List.length_take] at this
          omega
      rcases hpop with rfl | ⟨n, rfl⟩
      · exact hkey 1 (h.popData hc) (h.popped_take hc)
      · exact hkey n (h.popMore hc) (h.popped_take hc)
    · rw [h.run hc (by rcases hpop with rfl | ⟨n, rfl⟩ <;> exact fun hc => nomatch hc)]
      exact (if_pos h.popped).symm
  complete := by
    intro hpop c hr
    rcases h with ⟨base, h⟩ | h
    · have h1 := h.pointer_lt_length
      have := congrArg List.length (h.popped.symm.trans hpop)
      rw [List.length_take] at this
      omega
    · exact h.answer hr

/-- **A file is delivered.**  However prefetching, popping and resetting follow
    each other, what was popped is the file from its start, `IEC_LAST` goes with
    the final byte, and `IEC_NO_FILE` follows it. -/
theorem delivers_of_reachable {content : List UInt8} (hne : content ≠ []) {c : Channel}
    (hf : c.f = .bytes content) (e : Elsewhere) {t : Talk} (h : Reachable e (opened c) t) :
    Delivers e content t := by
  have hinv : Inv content t := by
    induction h with
    | start => exact Or.inl ⟨0, opened_streams c hf hne⟩
    | call c _ hc ih => exact ih.run hc
  exact hinv.delivers

/-- A closed channel with an open file. -/
def onFile (content : List UInt8) : Channel where
  blk0 := ⟨Buffer.zero, 0⟩
  blk1 := ⟨Buffer.zero, 0⟩
  pingpong := false
  state := .idle
  pointer := 0
  prefetch := 0
  prefetchMax := 0
  lastByte := -1
  f := .bytes content

/-- No directory and no record. -/
def nowhere : Elsewhere := ⟨id, fun c => (.noFile, c)⟩

/-- Two bytes prefetched and one of them popped. -/
theorem delivers_of_reachable_two_of_three :
    Delivers nowhere [1, 2, 3]
      (Call.run nowhere (Call.run nowhere (opened (onFile [1, 2, 3])) (.prefetchMore 2)).2
        (.popMore 1)).2 :=
  delivers_of_reachable (List.cons_ne_nil 1 [2, 3]) (c := onFile [1, 2, 3]) rfl nowhere
    (.call (.popMore 1) (.call (.prefetchMore 2) .start trivial) (by
      show 1 ≤ List.length _
      decide))

end IecChannel
