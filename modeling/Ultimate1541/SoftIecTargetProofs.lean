import Ultimate1541.IecChannelProofs

/-! # Reading a file through the software IEC target

    The C64 gets a file in parts.  `CHKIN` prepares the first bytes of one; the next part
    is prepared when the C64 has accepted a part that is not the last, and only then are
    the bytes of the accepted part popped from the channel.  `ABORT` tells how many bytes
    of a part were read, and pops these.

    The command interface takes a command only while no part is offered, and it does not
    tell the target when a part flagged as the last is accepted.  So the target may hold
    bytes that the C64 has and that the channel still counts as its own. -/

namespace SoftIec

open IecChannel

/-! ## The target -/

/-- `Message`. -/
structure Message where
  message : List UInt8
  lastPart : Bool
  deriving DecidableEq, Repr

/-- `c_message_empty`. -/
def cMessageEmpty : Message := ⟨[], true⟩

/-- `c_status_ok`. -/
def cStatusOk : Message := ⟨[0x30, 0x30, 0x2C, 0x4F, 0x4B], true⟩

/-- `c_status_all_ok`. -/
def cStatusAllOk : Message := ⟨[0x00], true⟩

/-- `c_status_no_input_channel`. -/
def cStatusNoInputChannel : Message := ⟨[0x03], true⟩

/-- What a command answers with: `*reply`, `*status`, and what it leaves. -/
structure Answer (α : Type) where
  reply : Message
  status : Message
  left : α

/-- The members of `SoftIECTarget` that reading uses.  `channel` is the channel that is
    read, `others` are the drive's other channels; `inputChannel` is whether
    `input_channel` is the channel that is read, or NULL. -/
structure Target (ω : Type) where
  channel : Channel
  others : ω
  inputChannel : Bool
  inputLength : Nat
  directMessage : Message

namespace Target

variable {ω : Type} (e : Elsewhere) (send : UInt8 → List UInt8 → ω → ω)

/-- `prepare_data`. -/
def prepareData (t : Target ω) (count : Nat) : Target ω :=
  match t.channel.prefetchMore count with
  | (res, bytes, channel) =>
      { t with
        channel := channel
        inputLength := bytes.length
        directMessage := ⟨bytes, decide (res ≠ .ok)⟩ }

/-- `cmd_chkin`; the channel's `talk` is empty. -/
def cmdChkin (t : Target ω) : Answer (Target ω) :=
  let t := prepareData { t with inputChannel := true } 32
  ⟨t.directMessage, cMessageEmpty, t⟩

/-- `get_more_data`. -/
def getMoreData (t : Target ω) : Answer (Target ω) :=
  if t.inputChannel = true then
    let t := prepareData { t with channel := (t.channel.popMore e t.inputLength).2 } 256
    ⟨t.directMessage, cStatusAllOk, t⟩
  else ⟨cMessageEmpty, cStatusNoInputChannel, t⟩

/-- `abort`. -/
def abort (t : Target ω) (a : Nat) : Target ω :=
  if t.inputChannel = true then
    let bytes := if a < t.inputLength then a else t.inputLength
    { t with channel := (t.channel.popMore e bytes).2.resetPrefetch, inputChannel := false }
  else t

/-- `cmd_chkout` to another channel; `send` is what it does there. -/
def cmdChkout (t : Target ω) (secondary : UInt8) (data : List UInt8) : Answer (Target ω) :=
  let t := if t.inputLength ≠ 0 then t.abort e t.inputLength else t
  ⟨cMessageEmpty, cStatusOk,
    { t with others := send secondary data t.others, inputChannel := false }⟩

end Target

/-! ## The command interface -/

/-- The state bits: no reply is offered, or one that is not the last part, or one that
    is. -/
inductive Phase where
  | idle
  | more
  | last
  deriving DecidableEq, Repr

/-- The command interface: the reply in its buffer, how often the C64 has read from it,
    and all the bytes that the C64 has taken. -/
structure Uci (ω : Type) where
  target : Target ω
  phase : Phase
  response : Message
  status : Message
  pointer : Nat
  took : List UInt8

/-- What the C64 does: it reads a byte, takes what is left of a part and accepts it, gives
    up, or sends a command. -/
inductive Order where
  | take
  | accept
  | abort
  | chkin
  | chkout (secondary : UInt8) (data : List UInt8)
  deriving DecidableEq, Repr

namespace Uci

variable {ω : Type} (e : Elsewhere) (send : UInt8 → List UInt8 → ω → ω)

/-- `copy_result`. -/
def copyResult (u : Uci ω) (r : Answer (Target ω)) : Uci ω :=
  { u with
    target := r.left
    response := r.reply
    status := r.status
    pointer := 0
    phase := if r.reply.lastPart = true then .last else .more }

/-- What is left of the reply. -/
def rest (u : Uci ω) : List UInt8 := u.response.message.drop u.pointer

/-- One step of the C64.  The target is not called when the last part is accepted, and a
    command is not taken while a reply is offered. -/
def step (u : Uci ω) : Order → Uci ω
  | .take =>
      { u with
        pointer := u.pointer + 1
        took := u.took ++ if u.phase = .idle then [] else u.rest.take 1 }
  | .accept => match u.phase with
    | .idle => u
    | .more => { u with took := u.took ++ u.rest }.copyResult (u.target.getMoreData e)
    | .last =>
        { u with
          took := u.took ++ u.rest
          pointer := max u.pointer u.response.message.length
          phase := .idle }
  | .abort => { u with target := u.target.abort e u.pointer, phase := .idle, pointer := 0 }
  | .chkin => if u.phase = .idle then u.copyResult u.target.cmdChkin else u
  | .chkout secondary data =>
      if u.phase = .idle then u.copyResult (u.target.cmdChkout e send secondary data) else u

/-- A file has been opened on the channel, and nothing has been read. -/
def start (c : Channel) (others : ω) : Uci ω :=
  ⟨⟨c.setupFileAccess.2, others, false, 0, cMessageEmpty⟩, .idle, cMessageEmpty, cMessageEmpty, 0, []⟩

/-- A part of the file is offered. -/
def Offers (u : Uci ω) : Prop := u.phase ≠ .idle ∧ u.target.inputChannel = true

/-- What the C64 took is the file from its start, and so is what it takes with the rest of
    the part it is offered; that is flagged as the last where it reaches the end, and
    holds a byte where it does not. -/
structure Right (content : List UInt8) (u : Uci ω) : Prop where
  took : u.took <+: content
  part : u.Offers → u.took ++ u.rest <+: content
  flag : u.Offers → (u.phase = .last ↔ u.took ++ u.rest = content)
  progress : u.Offers → u.phase = .more → u.response.message ≠ []

/-- Nothing is prepared of a file that the channel has not come to the end of: a `CHKIN`
    has followed a last part that was accepted. -/
def Overwritten (u : Uci ω) : Prop :=
  u.target.inputChannel = true ∧ u.target.inputLength = 0 ∧ u.target.channel.state = .file

/-- No `ABORT` is sent where the prepared count was overwritten. -/
def Clean (u : Uci ω) (o : Order) : Prop := o = .abort → ¬ u.Overwritten

/-- The states the interface gets to with steps that are `Clean`. -/
inductive Reaches (u₀ : Uci ω) : Uci ω → Prop where
  | start : Reaches u₀ u₀
  | step {u : Uci ω} (o : Order) : Reaches u₀ u → u.Clean o → Reaches u₀ (u.step e send o)

end Uci

/-! ## What the channel holds -/

section Channel

variable {e : Elsewhere} {content : List UInt8} {t : Talk}

/-- With nothing read ahead there is no block to enter. -/
theorem readBlock_complete (c : Channel) (hf : c.f = .bytes []) (hnxt : Holds [] 0 c.nxtblk) :
    c.readBlock.2.state = .complete := by
  obtain ⟨c', hread, hcur, -, -, -, -⟩ := readNext_holds c.swapBuffers [] 0 hf
  rw [Channel.curblk_swapBuffers] at hcur
  rw [Channel.readBlock, hf]
  dsimp only
  rw [hread]
  dsimp only
  rw [Channel.enterBlock, if_pos (by rw [hcur, hnxt.valid]; rfl)]

/-- An open file streams; an empty one has come to its end. -/
theorem opened_inv (c : Channel) (hf : c.f = .bytes content) : Inv content (opened c) := by
  by_cases hne : content = []
  · subst hne
    refine Or.inr ⟨?_, rfl, rfl⟩
    show c.setupFileAccess.2.state = .complete
    rw [Channel.setupFileAccess]
    obtain ⟨c', hread, -, hnxt, hf', -, -⟩ := readNext_holds
      (Channel.setCurblk { c with
        lastByte := -1, pointer := 0, prefetch := 0, prefetchMax := 512, state := .file }
          { c.curblk with validBytes := 0 }) [] 0 (by rw [Channel.setCurblk_f]; exact hf)
    show (Channel.readBlock (Channel.readNext (Channel.setCurblk { c with
      lastByte := -1, pointer := 0, prefetch := 0, prefetchMax := 512, state := .file }
        { c.curblk with validBytes := 0 })).2).2.state = .complete
    rw [hread]
    exact readBlock_complete c' hf' hnxt
  · exact Or.inl ⟨0, opened_streams c hf hne⟩

/-- What was prefetched is the file from its start. -/
theorem prefix_of_inv (h : Inv content t) : t.popped ++ t.ahead <+: content := by
  rw [h.bytes]
  exact List.take_prefix _ _

/-- With everything prefetched, it is the file. -/
theorem whole_iff (h : Inv content t) :
    t.fetched = content.length ↔ t.popped ++ t.ahead = content := by
  constructor
  · intro hall
    rw [h.bytes, hall, List.take_length]
  · intro hall
    rw [← hall, List.length_append]
    rfl

/-- Prefetching: the bytes follow those that were prefetched, the answer is `IEC_OK` before
    the end of the file only, and there a byte is found where one is asked for. -/
theorem prefetch_spec (h : Inv content t) (n : Nat) :
    ∃ res bytes c, t.chan.prefetchMore n = (res, bytes, c) ∧
      Inv content ⟨c, t.ahead ++ bytes, t.popped⟩ ∧ bytes.length ≤ n ∧
      (res ≠ .ok ↔ Talk.fetched ⟨c, t.ahead ++ bytes, t.popped⟩ = content.length) ∧
      (t.fetched = content.length → bytes = []) ∧
      (res = .ok → t.ahead = [] → 1 ≤ n → bytes ≠ []) := by
  obtain ⟨res, bytes, c, hread⟩ : ∃ res bytes c, t.chan.prefetchMore n = (res, bytes, c) :=
    ⟨_, _, _, rfl⟩
  have hrun : Call.run nowhere t (.prefetchMore n) = (res, ⟨c, t.ahead ++ bytes, t.popped⟩) := by
    rw [Call.run, hread]
  have hinv : Inv content ⟨c, t.ahead ++ bytes, t.popped⟩ := by
    have hkept := h.run (e := nowhere) (c := .prefetchMore n) trivial
    rw [hrun] at hkept
    exact hkept
  have hsum : Talk.fetched ⟨c, t.ahead ++ bytes, t.popped⟩ = t.fetched + bytes.length := by
    show t.popped.length + (t.ahead ++ bytes).length = _
    rw [List.length_append, ← Nat.add_assoc]
    rfl
  refine ⟨res, bytes, c, hread, hinv, ?_⟩
  rcases (h.delivers (e := nowhere)).prefetchMore n with
    ⟨t', ht', hlt, hmore⟩ | ⟨t', ht', hlt, hall, hle⟩ | ⟨t', ht', hall, hsame⟩
  · rw [hrun] at ht'
    cases ht'
    rw [hsum] at hlt hmore ⊢
    refine ⟨by omega, ⟨fun hne => absurd rfl hne, by omega⟩, by omega, fun _ hahead hn hnil => ?_⟩
    rw [hnil, List.length_nil] at hmore
    rcases hmore with hmore | ⟨-, hne⟩
    · omega
    · refine hne ?_
      show t.ahead ++ [] = []
      rw [hahead, List.append_nil]
  · rw [hrun] at ht'
    cases ht'
    rw [hsum] at hall ⊢
    exact ⟨by omega, ⟨fun _ => hall, fun _ => by decide⟩, by omega, fun hok => by cases hok⟩
  · rw [hrun] at ht'
    cases ht'
    rw [hsum] at hsame ⊢
    exact ⟨by omega, ⟨fun _ => by omega, fun _ => by decide⟩,
      fun _ => List.eq_nil_of_length_eq_zero (by omega), fun hok => by cases hok⟩

/-- Popping what the C64 took. -/
theorem pop_spec (h : Inv content t) {n : Nat} (hn : n ≤ t.ahead.length) :
    Inv content ⟨(t.chan.popMore e n).2, t.ahead.drop n, t.popped ++ t.ahead.take n⟩ :=
  h.run (e := e) (c := .popMore n) hn

/-- Forgetting what was prefetched. -/
theorem reset_spec (h : Inv content t) : Inv content ⟨t.chan.resetPrefetch, [], t.popped⟩ :=
  h.run (e := nowhere) (c := .resetPrefetch) trivial

/-- A channel that streams no more has nothing under way. -/
theorem popped_of_not_file (h : Inv content t) (hstate : t.chan.state ≠ .file) :
    t.popped = content ∧ t.ahead = [] := by
  rcases h with ⟨base, hstream⟩ | hdone
  · exact absurd hstream.state hstate
  · exact ⟨hdone.popped, hdone.ahead⟩

end Channel

/-! ## What the C64 and the channel agree on -/

variable {ω : Type} {e : Elsewhere} {send : UInt8 → List UInt8 → ω → ω} {content : List UInt8}

/-- A part of the file is offered: it is what the channel has prefetched. -/
structure Pending (content : List UInt8) (u : Uci ω) (t : Talk) : Prop where
  chan : t.chan = u.target.channel
  inv : Inv content t
  input : u.target.inputChannel = true
  offered : u.phase ≠ .idle
  ahead : t.ahead = u.response.message
  prepared : u.target.inputLength = t.ahead.length
  took : u.took = t.popped ++ t.ahead.take u.pointer
  flag : u.phase = .last ↔ t.fetched = content.length
  progress : u.phase = .more → u.response.message ≠ []

/-- No part is offered, and the channel has popped what the C64 took. -/
structure Settled (content : List UInt8) (u : Uci ω) (t : Talk) : Prop where
  chan : t.chan = u.target.channel
  inv : Inv content t
  input : u.target.inputChannel = false
  ahead : t.ahead = []
  took : u.took = t.popped
  phase : u.phase ≠ .more
  empty : u.phase = .last → u.response.message = []

/-- The C64 took the whole file, of which the channel may still hold the last part. -/
structure Ended (content : List UInt8) (u : Uci ω) (t : Talk) : Prop where
  chan : t.chan = u.target.channel
  inv : Inv content t
  fetched : t.fetched = content.length
  took : u.took = content
  phase : u.phase ≠ .more
  empty : u.phase = .last → u.response.message = []
  /-- Either the prepared count is the last part's, and the C64 has read that often, or it
      is zero. -/
  owed : u.target.inputChannel = true → u.target.inputLength = 0 ∨
    (u.target.inputLength = t.ahead.length ∧ u.target.inputLength ≤ u.pointer ∧ u.phase = .idle)

/-- The invariant of the interface. -/
inductive Agrees (content : List UInt8) (u : Uci ω) : Prop where
  | pending (t : Talk) (h : Pending content u t)
  | settled (t : Talk) (h : Settled content u t)
  | ended (t : Talk) (h : Ended content u t)

theorem agrees_start (c : Channel) (hf : c.f = .bytes content) (others : ω) :
    Agrees content (Uci.start c others) :=
  .settled (opened c)
    ⟨rfl, opened_inv c hf, rfl, rfl, rfl, nofun, nofun⟩

/-- A new part goes out while the channel and the C64 agree. -/
theorem Settled.offer {u : Uci ω} {t : Talk} (hchan : t.chan = u.target.channel)
    (hinv : Inv content t) (hahead : t.ahead = []) (htook : u.took = t.popped)
    (hinput : u.target.inputChannel = true) {n : Nat} (hn : 1 ≤ n) (status : Message) :
    Agrees content (u.copyResult
      ⟨(u.target.prepareData n).directMessage, status, u.target.prepareData n⟩) := by
  obtain ⟨res, bytes, c, hread, hinv', -, hflag, -, hprogress⟩ := prefetch_spec hinv n
  have hprepare : u.target.prepareData n = { u.target with
      channel := c, inputLength := bytes.length, directMessage := ⟨bytes, decide (res ≠ .ok)⟩ } := by
    rw [Target.prepareData, ← hchan, hread]
  rw [hprepare]
  rw [hahead, List.nil_append] at hinv' hflag
  refine .pending ⟨c, bytes, t.popped⟩ ⟨rfl, hinv', hinput, ?_, rfl, rfl, ?_, ?_, ?_⟩
  · show (if decide (res ≠ .ok) = true then Phase.last else .more) ≠ .idle
    split
    · exact fun h => nomatch h
    · exact fun h => nomatch h
  · show u.took = t.popped ++ bytes.take 0
    rw [htook, List.take_zero, List.append_nil]
  · rw [← hflag]
    show (if decide (res ≠ .ok) = true then Phase.last else .more) = .last ↔ _
    by_cases hok : res = .ok
    · simp [hok]
    · simp [hok]
  · show (if decide (res ≠ .ok) = true then Phase.last else .more) = .more → bytes ≠ []
    intro hmore
    by_cases hok : res = .ok
    · exact hprogress hok hahead hn
    · simp [hok] at hmore

/-! ## Every step -/

/-- Taking a byte. -/
theorem Pending.take {u : Uci ω} {t : Talk} (h : Pending content u t) :
    Agrees content (u.step e send .take) := by
  refine .pending t ⟨h.chan, h.inv, h.input, h.offered, h.ahead, h.prepared, ?_, h.flag, h.progress⟩
  show u.took ++ (if u.phase = .idle then [] else (u.response.message.drop u.pointer).take 1) =
    t.popped ++ t.ahead.take (u.pointer + 1)
  rw [if_neg h.offered, h.took, ← h.ahead, List.append_assoc, ← List.take_add]

/-- With what is left of the part, the C64 took all that was prefetched. -/
theorem Pending.all {u : Uci ω} {t : Talk} (h : Pending content u t) :
    u.took ++ u.rest = t.popped ++ t.ahead := by
  rw [Uci.rest, h.took, ← h.ahead, List.append_assoc, List.take_append_drop]

/-- Accepting a part that is not the last: it is popped, and the next is offered. -/
theorem Pending.accept_more {u : Uci ω} {t : Talk} (h : Pending content u t)
    (hmore : u.phase = .more) : Agrees content (u.step e send .accept) := by
  have hpop : Inv content
      ⟨(u.target.channel.popMore e u.target.inputLength).2, [], t.popped ++ t.ahead⟩ := by
    have hall := pop_spec (e := e) h.inv (Nat.le_refl t.ahead.length)
    rw [List.drop_length, List.take_length, ← h.prepared, h.chan] at hall
    exact hall
  rw [Uci.step]
  simp only [hmore]
  rw [Target.getMoreData, if_pos h.input]
  exact Settled.offer (u := { u with
    took := u.took ++ u.rest
    target := { u.target with channel := (u.target.channel.popMore e u.target.inputLength).2 } })
    rfl hpop rfl h.all h.input (by decide) cStatusAllOk

/-- Accepting the last part: the target is not told. -/
theorem Pending.accept_last {u : Uci ω} {t : Talk} (h : Pending content u t)
    (hlast : u.phase = .last) : Agrees content (u.step e send .accept) := by
  have hfetched := h.flag.mp hlast
  rw [Uci.step]
  simp only [hlast]
  refine .ended t ⟨h.chan, h.inv, hfetched, ?_, nofun, nofun, fun _ => .inr ⟨h.prepared, ?_, rfl⟩⟩
  · show u.took ++ u.rest = content
    rw [h.all]
    exact (whole_iff h.inv).mp hfetched
  · show u.target.inputLength ≤ max u.pointer u.response.message.length
    rw [h.prepared, h.ahead]
    exact Nat.le_max_right _ _

/-- The number of bytes that an `ABORT` pops. -/
theorem popCount_le (a n : Nat) : (if a < n then a else n) ≤ n := by
  split
  · omega
  · omega

/-- Giving up: what was read of the part is popped, the rest is read again. -/
theorem Pending.abort {u : Uci ω} {t : Talk} (h : Pending content u t) :
    Agrees content (u.step e send .abort) := by
  obtain ⟨n, hn⟩ : ∃ n, (if u.pointer < u.target.inputLength then u.pointer
      else u.target.inputLength) = n := ⟨_, rfl⟩
  have hle : n ≤ t.ahead.length := by
    rw [← hn, ← h.prepared]
    exact popCount_le _ _
  have htake : t.ahead.take u.pointer = t.ahead.take n := by
    rw [← hn, h.prepared]
    split
    · rfl
    · rw [List.take_of_length_le (by omega), List.take_length]
  have habort : u.target.abort e u.pointer = { u.target with
      channel := (u.target.channel.popMore e n).2.resetPrefetch, inputChannel := false } := by
    rw [Target.abort, if_pos h.input, hn]
  rw [Uci.step, habort]
  refine .settled ⟨_, [], t.popped ++ t.ahead.take n⟩
    ⟨rfl, ?_, rfl, rfl, ?_, nofun, nofun⟩
  · rw [← h.chan]
    exact reset_spec (pop_spec h.inv hle)
  · show u.took = t.popped ++ t.ahead.take n
    rw [h.took, htake]

/-- While a part is offered, no command is taken. -/
theorem Pending.step {u : Uci ω} {t : Talk} (h : Pending content u t) (o : Order) :
    Agrees content (u.step e send o) := by
  cases o with
  | take => exact h.take
  | accept =>
      cases hphase : u.phase with
      | idle => exact absurd hphase h.offered
      | more => exact h.accept_more hphase
      | last => exact h.accept_last hphase
  | abort => exact h.abort
  | chkin =>
      rw [Uci.step, if_neg h.offered]
      exact .pending t h
  | chkout secondary data =>
      rw [Uci.step, if_neg h.offered]
      exact .pending t h

/-- Without an input channel, `abort` does nothing. -/
theorem abort_of_none {t : Target ω} (h : t.inputChannel = false) (a : Nat) : t.abort e a = t := by
  rw [Target.abort, if_neg (by rw [h]; decide)]

/-- Where only empty replies are offered, nothing is taken. -/
theorem nothing_left {u : Uci ω} (hphase : u.phase ≠ .more)
    (hempty : u.phase = .last → u.response.message = []) (hoffered : u.phase ≠ .idle) :
    u.rest = [] := by
  have hlast : u.phase = .last := by
    cases h : u.phase with
    | idle => exact absurd h hoffered
    | more => exact absurd h hphase
    | last => rfl
  rw [Uci.rest, hempty hlast, List.drop_nil]

theorem take_nothing {u : Uci ω} (hphase : u.phase ≠ .more)
    (hempty : u.phase = .last → u.response.message = []) :
    (u.step e send .take).took = u.took := by
  show u.took ++ (if u.phase = .idle then [] else u.rest.take 1) = u.took
  by_cases hidle : u.phase = .idle
  · rw [if_pos hidle, List.append_nil]
  · rw [if_neg hidle, nothing_left hphase hempty hidle, List.take_nil, List.append_nil]

theorem Settled.step {u : Uci ω} {t : Talk} (h : Settled content u t) (o : Order) :
    Agrees content (u.step e send o) := by
  cases o with
  | take =>
      refine .settled t ⟨h.chan, h.inv, h.input, h.ahead, ?_, h.phase, h.empty⟩
      rw [take_nothing h.phase h.empty]
      exact h.took
  | accept =>
      rw [Uci.step]
      cases hphase : u.phase with
      | idle => exact .settled t h
      | more => exact absurd hphase h.phase
      | last =>
          refine .settled t ⟨h.chan, h.inv, h.input, h.ahead, ?_, nofun, nofun⟩
          show u.took ++ u.rest = t.popped
          rw [nothing_left h.phase h.empty (by rw [hphase]; decide), List.append_nil]
          exact h.took
  | abort =>
      rw [Uci.step, abort_of_none h.input]
      exact .settled t ⟨h.chan, h.inv, h.input, h.ahead, h.took, nofun, nofun⟩
  | chkin =>
      by_cases hidle : u.phase = .idle
      · rw [Uci.step, if_pos hidle]
        exact Settled.offer (u := { u with target := { u.target with inputChannel := true } })
          h.chan h.inv h.ahead h.took rfl (by decide) cMessageEmpty
      · rw [Uci.step, if_neg hidle]
        exact .settled t h
  | chkout secondary data =>
      by_cases hidle : u.phase = .idle
      · rw [Uci.step, if_pos hidle, Target.cmdChkout, abort_of_none h.input, ite_self]
        exact .settled t ⟨h.chan, h.inv, rfl, h.ahead, h.took, nofun, fun _ => rfl⟩
      · rw [Uci.step, if_neg hidle]
        exact .settled t h

/-- At the end of the file a `CHKIN` gets nothing. -/
theorem Ended.chkin {u : Uci ω} {t : Talk} (h : Ended content u t) (hidle : u.phase = .idle) :
    Agrees content (u.step e send .chkin) := by
  obtain ⟨res, bytes, c, hread, hinv, -, hflag, hnone, -⟩ := prefetch_spec h.inv 32
  have hbytes := hnone h.fetched
  subst hbytes
  have hfetched : Talk.fetched ⟨c, t.ahead ++ [], t.popped⟩ = content.length := by
    rw [List.append_nil]
    exact h.fetched
  have hchkin : u.target.cmdChkin =
      ⟨⟨[], true⟩, cMessageEmpty, { u.target with
        channel := c, inputChannel := true, inputLength := 0, directMessage := ⟨[], true⟩ }⟩ := by
    have hlast : decide (res ≠ .ok) = true := decide_eq_true (hflag.mpr hfetched)
    rw [Target.cmdChkin, Target.prepareData, ← h.chan, hread]
    simp only [hlast, List.length_nil]
  rw [Uci.step, if_pos hidle, hchkin]
  exact .ended _ ⟨rfl, hinv, hfetched, h.took, nofun, fun _ => rfl, fun _ => .inl rfl⟩

/-- The last part is popped when the C64 gives it up after it has accepted it. -/
theorem Ended.pops {u : Uci ω} {t : Talk} (h : Ended content u t)
    (howed : u.target.inputLength = t.ahead.length) {a : Nat} (ha : u.target.inputLength ≤ a)
    (hinput : u.target.inputChannel = true) :
    ∃ c, u.target.abort e a = { u.target with channel := c, inputChannel := false } ∧
      Inv content ⟨c, [], content⟩ := by
  refine ⟨(u.target.channel.popMore e u.target.inputLength).2.resetPrefetch, ?_, ?_⟩
  · rw [Target.abort, if_pos hinput, if_neg (by omega)]
  · have hpop := pop_spec (e := e) h.inv (Nat.le_refl t.ahead.length)
    rw [List.take_length, (whole_iff h.inv).mp h.fetched, ← howed, h.chan] at hpop
    exact reset_spec hpop

/-- The invariant is kept but where an `ABORT` forgets what the C64 has. -/
theorem Ended.step {u : Uci ω} {t : Talk} (h : Ended content u t) (o : Order) (hclean : u.Clean o) :
    Agrees content (u.step e send o) := by
  cases o with
  | take =>
      refine .ended t ⟨h.chan, h.inv, h.fetched, ?_, h.phase, h.empty, fun hinput => ?_⟩
      · rw [take_nothing h.phase h.empty]
        exact h.took
      · exact (h.owed hinput).imp_right fun ⟨hlen, hle, hidle⟩ => ⟨hlen, Nat.le_succ_of_le hle, hidle⟩
  | accept =>
      rw [Uci.step]
      cases hphase : u.phase with
      | idle => exact .ended t h
      | more => exact absurd hphase h.phase
      | last =>
          refine .ended t ⟨h.chan, h.inv, h.fetched, ?_, nofun, nofun, fun hinput => ?_⟩
          · show u.took ++ u.rest = content
            rw [nothing_left h.phase h.empty (by rw [hphase]; decide), List.append_nil]
            exact h.took
          · exact .inl ((h.owed hinput).resolve_right fun ⟨_, _, hidle⟩ => by
              rw [hphase] at hidle
              exact nomatch hidle)
  | abort =>
      rw [Uci.step]
      cases hinput : u.target.inputChannel with
      | false =>
          rw [abort_of_none hinput]
          exact .ended t ⟨h.chan, h.inv, h.fetched, h.took, nofun, nofun, fun hset => by
            rw [hinput] at hset
            exact nomatch hset⟩
      | true =>
          rcases h.owed hinput with hzero | ⟨hlen, hle, -⟩
          · -- The channel has come to the end: with an open file the step is not clean.
            have hstate : t.chan.state ≠ .file := fun hfile =>
              hclean rfl ⟨hinput, hzero, h.chan ▸ hfile⟩
            obtain ⟨-, hahead⟩ := popped_of_not_file h.inv hstate
            obtain ⟨c, habort, hinv⟩ := h.pops (e := e) (a := u.pointer)
              (by rw [hzero, hahead, List.length_nil]) (by rw [hzero]; exact Nat.zero_le _) hinput
            rw [habort]
            exact .settled _ ⟨rfl, hinv, rfl, rfl, h.took, nofun, nofun⟩
          · obtain ⟨c, habort, hinv⟩ := h.pops (e := e) hlen hle hinput
            rw [habort]
            exact .settled _ ⟨rfl, hinv, rfl, rfl, h.took, nofun, nofun⟩
  | chkin =>
      by_cases hidle : u.phase = .idle
      · exact h.chkin hidle
      · rw [Uci.step, if_neg hidle]
        exact .ended t h
  | chkout secondary data =>
      by_cases hidle : u.phase = .idle
      · rw [Uci.step, if_pos hidle, Target.cmdChkout]
        by_cases hpending : u.target.inputLength ≠ 0 ∧ u.target.inputChannel = true
        · obtain ⟨hne, hinput⟩ := hpending
          obtain ⟨hlen, -, -⟩ := (h.owed hinput).resolve_left hne
          obtain ⟨c, habort, hinv⟩ := h.pops (e := e) hlen (Nat.le_refl _) hinput
          rw [if_pos hne, habort]
          exact .settled _ ⟨rfl, hinv, rfl, rfl, h.took, nofun, fun _ => rfl⟩
        · have hsame : (if u.target.inputLength ≠ 0 then u.target.abort e u.target.inputLength
              else u.target) = u.target := by
            split
            · next hne =>
                exact abort_of_none (Bool.eq_false_iff.mpr fun hset => hpending ⟨hne, hset⟩) _
            · rfl
          rw [hsame]
          exact .ended t ⟨h.chan, h.inv, h.fetched, h.took, nofun, fun _ => rfl, nofun⟩
      · rw [Uci.step, if_neg hidle]
        exact .ended t h

theorem Agrees.step {u : Uci ω} (h : Agrees content u) (o : Order) (hclean : u.Clean o) :
    Agrees content (u.step e send o) := by
  cases h with
  | pending t h => exact h.step o
  | settled t h => exact h.step o
  | ended t h => exact h.step o hclean

/-- What is promised follows from the invariant. -/
theorem Agrees.right {u : Uci ω} (h : Agrees content u) : u.Right content := by
  cases h with
  | pending t h =>
      have hprefix := prefix_of_inv h.inv
      refine ⟨?_, fun _ => ?_, fun _ => ?_, fun _ => h.progress⟩
      · rw [h.took]
        exact ((List.prefix_append_right_inj _).mpr (List.take_prefix _ _)).trans hprefix
      · rw [h.all]
        exact hprefix
      · rw [h.all, h.flag]
        exact whole_iff h.inv
  | settled t h =>
      have hprefix := prefix_of_inv h.inv
      rw [h.ahead, List.append_nil] at hprefix
      have hno : ¬ u.Offers := fun hoffers => by
        have hinput := hoffers.2
        rw [h.input] at hinput
        exact nomatch hinput
      exact ⟨h.took ▸ hprefix, fun ho => absurd ho hno, fun ho => absurd ho hno,
        fun ho => absurd ho hno⟩
  | ended t h =>
      have hrest : u.Offers → u.took ++ u.rest = content := fun ho => by
        rw [nothing_left h.phase h.empty ho.1, List.append_nil]
        exact h.took
      refine ⟨by rw [h.took], fun ho => ?_, fun ho => ?_, fun _ hmore => ?_⟩
      · rw [hrest ho]
      · constructor
        · exact fun _ => hrest ho
        · intro _
          cases hphase : u.phase with
          | idle => exact absurd hphase ho.1
          | more => exact absurd hphase h.phase
          | last => rfl
      · exact absurd hmore h.phase

/-- **The C64 gets the file.**  Whatever commands, reads and interruptions follow each
    other, as long as no `ABORT` comes where the prepared count was overwritten. -/
theorem right_of_reaches (c : Channel) (hf : c.f = .bytes content) (others : ω) {u : Uci ω}
    (h : Uci.Reaches e send (Uci.start c others) u) : u.Right content := by
  have hagrees : Agrees content u := by
    induction h with
    | start => exact agrees_start c hf others
    | step o _ hclean ih => exact ih.step o hclean
  exact hagrees.right

/-- The C64 takes a byte of a file of three, gives up, writes elsewhere, and comes back for
    the rest. -/
theorem right_of_reaches_interrupted :
    ((((((Uci.start (onFile [1, 2, 3]) ()).step nowhere (fun _ _ => id) .chkin).step nowhere
      (fun _ _ => id) .take).step nowhere (fun _ _ => id) .abort).step nowhere (fun _ _ => id)
      (.chkout 1 [0x20])).step nowhere (fun _ _ => id) .accept).Right [1, 2, 3] :=
  right_of_reaches (onFile [1, 2, 3]) rfl ()
    (.step .accept (.step (.chkout 1 [0x20]) (.step .abort (.step .take (.step .chkin .start nofun)
      nofun) fun _ h => absurd h.2.1 (by decide)) nofun) nofun)

/-- The last part is accepted; a second `CHKIN` finds nothing and is given up, and the
    third offers the last part again. -/
theorem last_part_again :
    let u := ((((((Uci.start (onFile [1, 2, 3]) ()).step nowhere (fun _ _ => id) .chkin).step
      nowhere (fun _ _ => id) .accept).step nowhere (fun _ _ => id) .chkin).step nowhere
      (fun _ _ => id) .abort).step nowhere (fun _ _ => id) .chkin).step nowhere
      (fun _ _ => id) .take
    u.took = [1, 2, 3, 1] ∧ ¬ u.Right [1, 2, 3] := by
  refine ⟨by decide +kernel, fun h => ?_⟩
  have hle := h.took.length_le
  exact absurd hle (by decide +kernel)

end SoftIec
