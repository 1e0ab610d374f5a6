import Ultimate1541.IecChannelProofs

/-! # Positioning a channel that reads

    `P` seeks the file of a channel and reads two blocks again, as opening does.
    But opening also takes back the last byte of the block, and `P` does not: a
    channel that has come to the last block of its file keeps the mark, and when
    it is moved back by more than a block, the file seems to end there
    (`position_delivers_iff`). -/

namespace IecChannel

open ByteBuffer

/-- What `do_set_position` answers. -/
inductive PositionError where
  | allOk
  | noChannel
  | fres
  | readError
  deriving DecidableEq, Repr

namespace Channel

/-- `f->seek`, for an open file of these bytes. -/
def seek (file : List UInt8) (pos : Nat) (c : Channel) : Channel :=
  match c.f with
  | .bytes _ => { c with f := .bytes (file.drop pos) }
  | _ => c

/-- The part of `do_set_position` before the file is read. -/
def rewind (file : List UInt8) (pos : Nat) (c : Channel) : Channel :=
  let c := { c.seek file pos with state := .file }
  let c := c.setCurblk { c.curblk with validBytes := 0 }
  c.setNxtblk { c.nxtblk with validBytes := 0 }

/-- `do_set_position` for a channel that has opened a file for reading; `elsewhere` is
    what it does in the other states. -/
def doSetPosition (elsewhere : Channel → PositionError × Channel) (file : List UInt8)
    (dataOffset pos : Nat) (c : Channel) : PositionError × Channel :=
  match c.f with
  | .none => (.noChannel, c)
  | _ =>
      if c.state = .file ∨ c.state = .complete then
        match (c.rewind file (pos + dataOffset)).readNext with
        | (false, c) => (.fres, { c with state := .error })
        | (true, c) =>
            match c.readBlock with
            | (false, c) => (.readError, { c with state := .error })
            | (true, c) => (.allOk, { c with pointer := 0 }.resetPrefetch)
      else elsewhere c

end Channel

/-- The talk after a position command: nothing is on its way. -/
def Talk.position (elsewhere : Channel → PositionError × Channel) (file : List UInt8)
    (dataOffset pos : Nat) (t : Talk) : Talk :=
  ⟨(t.chan.doSetPosition elsewhere file dataOffset pos).2, [], []⟩

/-- The states a channel gets to that has opened a file for reading: after calls of talk
    passes and after position commands. -/
inductive Opened (e : Elsewhere) (elsewhere : Channel → PositionError × Channel)
    (file : List UInt8) (dataOffset : Nat) : Talk → Prop where
  | start (c : Channel) : c.f = .bytes (file.drop dataOffset) →
      Opened e elsewhere file dataOffset (opened c)
  | call {t : Talk} (c : Call) : Opened e elsewhere file dataOffset t →
      Opened e elsewhere file dataOffset (c.run e t).2
  | position {t : Talk} (pos : Nat) : Opened e elsewhere file dataOffset t →
      Opened e elsewhere file dataOffset (t.position elsewhere file dataOffset pos)

/-! ## What holds of such a channel -/

/-- The file is open, and the last byte, if there is one, is in the block. -/
structure Listening (c : Channel) : Prop where
  f : ∃ rest, c.f = .bytes rest
  state : c.state = .file ∨ c.state = .complete
  curblk : c.curblk.validBytes ≤ 512
  nxtblk : c.nxtblk.validBytes ≤ 512
  lastByte : c.lastByte = -1 ∨ 0 ≤ c.lastByte ∧ c.lastByte ≤ 511

theorem readNext_open {c : Channel} {rest : List UInt8} (hf : c.f = .bytes rest) :
    ∃ c', c.readNext = (true, c') ∧ c'.f = .bytes (rest.drop 512) ∧ c'.state = c.state ∧
      c'.lastByte = c.lastByte ∧ c'.curblk = c.curblk ∧ c'.nxtblk.validBytes ≤ 512 := by
  rw [Channel.readNext, hf]
  refine ⟨_, rfl, rfl, Channel.setNxtblk_state c _, Channel.setNxtblk_lastByte c _,
    Channel.curblk_setNxtblk c _, ?_⟩
  show (c.setNxtblk _).nxtblk.validBytes ≤ 512
  rw [Channel.nxtblk_setNxtblk]
  exact List.length_take_le _ _

/-- A block comes into view. -/
theorem readBlock_listening {c : Channel} {rest : List UInt8} (hf : c.f = .bytes rest)
    (hstate : c.state = .file) (hnxt : c.nxtblk.validBytes ≤ 512)
    (hlast : c.lastByte = -1 ∨ 0 ≤ c.lastByte ∧ c.lastByte ≤ 511) :
    ∃ c', c.readBlock = (true, c') ∧ Listening c' := by
  obtain ⟨c₁, hx, hf₁, hstate₁, hlast₁, hcur₁, hnxt₁⟩ := readNext_open (c := c.swapBuffers) hf
  rw [Channel.curblk_swapBuffers] at hcur₁
  have hcur : c₁.curblk.validBytes ≤ 512 := hcur₁ ▸ hnxt
  refine ⟨c₁.enterBlock, ?_, ?_⟩
  · rw [Channel.readBlock, hf]
    dsimp only
    rw [hx]
  · rw [Channel.enterBlock]
    by_cases hzero : c₁.curblk.validBytes = 0
    · rw [if_pos hzero]
      exact ⟨⟨_, hf₁⟩, Or.inr rfl, hcur, hnxt₁, Or.inl rfl⟩
    · rw [if_neg hzero]
      refine ⟨⟨_, hf₁⟩, Or.inl (hstate₁.trans hstate), hcur, hnxt₁, ?_⟩
      have hrange : ∀ {x : Int}, x = (c₁.curblk.validBytes : Int) - 1 ∨ x = 511 ∨ x = c₁.lastByte →
          x = -1 ∨ 0 ≤ x ∧ x ≤ 511 := by
        have hswap : c.swapBuffers.lastByte = c.lastByte := rfl
        omega
      refine hrange ?_
      dsimp only
      split
      · exact Or.inl rfl
      · split
        · exact Or.inr (Or.inl rfl)
        · exact Or.inr (Or.inr rfl)

/-- Moving the counters changes nothing of this, nor does the end of the file. -/
theorem Listening.advance {c : Channel} (h : Listening c) {st : State}
    (hst : st = c.state ∨ st = .complete) (pointer prefetch : Nat) :
    Listening { c with state := st, pointer := pointer, prefetch := prefetch } where
  f := h.f
  state := hst.elim (fun hst => hst ▸ h.state) Or.inr
  curblk := h.curblk
  nxtblk := h.nxtblk
  lastByte := h.lastByte

theorem Listening.nextBlock {c : Channel} (h : Listening c) (hstate : c.state = .file) :
    Listening c.nextBlock.2 := by
  obtain ⟨rest, hf⟩ := h.f
  obtain ⟨c', hx, hc'⟩ := readBlock_listening hf hstate h.nxtblk h.lastByte
  rw [Channel.nextBlock, hx]
  exact hc'

/-- A call of a talk pass keeps the channel listening. -/
theorem Listening.call {e : Elsewhere} {t : Talk} (h : Listening t.chan) (c : Call) :
    Listening (c.run e t).2.chan := by
  have hmove := fun pointer prefetch => h.advance (Or.inl rfl) pointer prefetch
  cases c with
  | prefetchData =>
      show Listening t.chan.prefetchData.2.2
      rw [Channel.prefetchData]
      split
      · exact h
      · split
        · split
          · exact hmove _ _
          · split <;> exact hmove _ _
        · split
          · exact hmove _ _
          · split <;> exact h
  | prefetchMore n =>
      show Listening (t.chan.prefetchMore n).2.2
      rw [Channel.prefetchMore]
      split
      · exact h
      · split
        · split
          · exact h
          · split <;> exact hmove _ _
        · exact hmove _ _
  | popData =>
      show Listening (t.chan.popData e).2
      rw [Channel.popData]
      rcases h.state with hstate | hstate
      · rw [hstate]
        dsimp only
        split
        · exact h.advance (Or.inr rfl) _ _
        · split
          · exact h.nextBlock hstate
          · exact hmove _ _
      · rw [hstate]
        exact h
  | popMore n =>
      show Listening (t.chan.popMore e n).2
      rw [Channel.popMore]
      rcases h.state with hstate | hstate
      · rw [hstate]
        dsimp only
        split
        · exact h.advance (Or.inr rfl) _ _
        · split
          · exact (hmove _ _).nextBlock hstate
          · exact hmove _ _
      · rw [hstate]
        exact h
  | resetPrefetch => exact hmove _ _

/-! ## The position command -/

theorem rewind_spec {c : Channel} {rest : List UInt8} (hf : c.f = .bytes rest) (file : List UInt8)
    (pos : Nat) :
    (c.rewind file pos).f = .bytes (file.drop pos) ∧ (c.rewind file pos).state = .file ∧
      (c.rewind file pos).lastByte = c.lastByte := by
  have hseek : c.seek file pos = { c with f := .bytes (file.drop pos) } := by
    rw [Channel.seek, hf]
  have hset : ∀ (c : Channel) (b : BufBlk), (c.setNxtblk b).f = c.f := by
    intro c b
    cases h : c.pingpong <;> simp [Channel.setNxtblk, h]
  rw [Channel.rewind]
  dsimp only
  refine ⟨?_, ?_, ?_⟩
  · rw [hset, Channel.setCurblk_f, hseek]
  · rw [Channel.setNxtblk_state, Channel.setCurblk_state]
  · rw [Channel.setNxtblk_lastByte, Channel.setCurblk_lastByte, hseek]

/-- Where more than a block is to come, the last byte stays what it was. -/
theorem readBlock_more {c : Channel} {content : List UInt8} {base : Nat}
    (hnxt : Holds content base c.nxtblk) (hf : c.f = .bytes (content.drop (base + 512)))
    (hmore : base + 512 < content.length) :
    ∃ c', c.readBlock = (true, c') ∧ c'.lastByte = c.lastByte ∧ c'.state = c.state := by
  obtain ⟨c₁, hx, hcur, hnxt₁, _, hlast₁, hstate₁⟩ :=
    readNext_holds c.swapBuffers content (base + 512) hf
  rw [Channel.curblk_swapBuffers] at hcur
  have hcurv : c₁.curblk.validBytes = 512 := by rw [hcur, hnxt.valid]; omega
  have hnxtv : c₁.nxtblk.validBytes ≠ 0 := by rw [hnxt₁.valid]; omega
  refine ⟨c₁.enterBlock, ?_, ?_⟩
  · rw [Channel.readBlock, hf]
    dsimp only
    rw [hx]
  · rw [Channel.enterBlock, if_neg (by omega)]
    dsimp only
    rw [if_neg (not_not.mpr hcurv), if_neg hnxtv]
    exact ⟨hlast₁, hstate₁⟩

/-- After a position command the channel reads the file from there, and still has the
    last byte it had, if there is more than a block to come. -/
theorem position_spec (elsewhere : Channel → PositionError × Channel) {c : Channel}
    (h : Listening c) (file : List UInt8) (dataOffset pos : Nat) :
    ∃ c', c.doSetPosition elsewhere file dataOffset pos = (.allOk, c') ∧ Listening c' ∧
      (pos + dataOffset < file.length →
        c.lastByte = -1 ∨ file.length ≤ pos + dataOffset + 512 →
        Streams (file.drop (pos + dataOffset)) 0 ⟨c', [], []⟩) ∧
      (pos + dataOffset + 512 < file.length →
        c'.lastByte = c.lastByte ∧ c'.prefetch = 0 ∧ c'.state = .file) := by
  obtain ⟨rest, hf⟩ := h.f
  obtain ⟨hseek, hstate, hlast⟩ := rewind_spec hf file (pos + dataOffset)
  obtain ⟨c₁, hx, -, hnxt₁, hf₁, hlast₁, hstate₁⟩ :=
    readNext_holds (c.rewind file (pos + dataOffset)) (file.drop (pos + dataOffset)) 0 hseek
  have hnxtle : c₁.nxtblk.validBytes ≤ 512 := by
    rw [hnxt₁.valid]
    exact Nat.min_le_left _ _
  obtain ⟨c₂, hy, hlisten⟩ := readBlock_listening hf₁ (hstate₁.trans hstate) hnxtle
    (by rw [hlast₁, hlast]; exact h.lastByte)
  have hlen : (file.drop (pos + dataOffset)).length = file.length - (pos + dataOffset) :=
    List.length_drop
  have hresult : c.doSetPosition elsewhere file dataOffset pos
      = (.allOk, { c₂ with pointer := 0 }.resetPrefetch) := by
    rw [Channel.doSetPosition, hf]
    dsimp only
    rw [if_pos h.state, hx]
    dsimp only
    rw [hy]
  refine ⟨_, hresult, hlisten.advance (Or.inl rfl) 0 0, ?_, ?_⟩
  · intro hpos hgood
    obtain ⟨c₃, hz, hs⟩ := readBlock_streams_of c₁ (file.drop (pos + dataOffset)) 0
      (hstate₁.trans hstate) (by rw [hlast₁, hlast, hlen]; omega) hnxt₁ hf₁ (by omega)
    obtain rfl : c₂ = c₃ := congrArg Prod.snd (hy.symm.trans hz)
    have hptr : c₂.pointer = 0 := by
      have hpopped := congrArg List.length hs.popped
      have hlt := hs.pointer_lt
      rw [List.length_take, List.length_take] at hpopped
      dsimp only at hpopped hlt
      omega
    have hsame : ({ c₂ with pointer := 0 } : Channel) = c₂ := by rw [← hptr]
    rw [hsame]
    exact hs.reset
  · intro hmore
    obtain ⟨c₃, hz, hlast₃, hstate₃⟩ := readBlock_more hnxt₁ hf₁ (by omega)
    obtain rfl : c₂ = c₃ := congrArg Prod.snd (hy.symm.trans hz)
    exact ⟨hlast₃.trans (hlast₁.trans hlast), rfl, hstate₃.trans (hstate₁.trans hstate)⟩

theorem opened_listening {c : Channel} {rest : List UInt8} (hf : c.f = .bytes rest) :
    Listening (opened c).chan := by
  rw [opened, Channel.setupFileAccess]
  dsimp only
  have hcurf : (Channel.setCurblk { c with
      lastByte := -1, pointer := 0, prefetch := 0, prefetchMax := 512, state := .file }
        { c.curblk with validBytes := 0 }).f = .bytes rest := by
    rw [Channel.setCurblk_f]
    exact hf
  obtain ⟨c₁, hx, hf₁, hstate₁, hlast₁, _, hnxt₁⟩ := readNext_open hcurf
  rw [Channel.setCurblk_state] at hstate₁
  rw [Channel.setCurblk_lastByte] at hlast₁
  obtain ⟨c₂, hy, hlisten⟩ := readBlock_listening hf₁ hstate₁ hnxt₁ (Or.inl hlast₁)
  show Listening (Channel.readBlock (Channel.readNext (Channel.setCurblk { c with
      lastByte := -1, pointer := 0, prefetch := 0, prefetchMax := 512, state := .file }
        { c.curblk with validBytes := 0 })).2).2
  rw [hx, hy]
  exact hlisten

/-- A channel that has opened a file listens, whatever was done with it. -/
theorem Opened.listening {e : Elsewhere} {elsewhere : Channel → PositionError × Channel}
    {file : List UInt8} {dataOffset : Nat} {t : Talk} (h : Opened e elsewhere file dataOffset t) :
    Listening t.chan := by
  induction h with
  | start c hf => exact opened_listening hf
  | call c _ ih => exact ih.call c
  | position pos _ ih =>
      obtain ⟨c', hx, hc', _⟩ := position_spec elsewhere ih file dataOffset pos
      show Listening (Channel.doSetPosition _ _ _ _ _).2
      rw [hx]
      exact hc'

/-- A last byte that was left over ends the file too early. -/
theorem stale_ends_early {e : Elsewhere} {t : Talk} (hstate : t.chan.state = .file)
    (hprefetch : t.chan.prefetch = 0) (hpopped : t.popped = []) (hahead : t.ahead = [])
    (hlast : 0 ≤ t.chan.lastByte ∧ t.chan.lastByte ≤ 511) {content : List UInt8}
    (hlen : 512 < content.length) : ¬ Delivers e content t := by
  intro h
  have hmore : t.chan.prefetchMore 512
      = (.last, t.chan.buffer.slice t.chan.prefetch (t.chan.lastByte - t.chan.prefetch + 1).toNat,
        t.chan.prefetched (t.chan.lastByte - t.chan.prefetch + 1).toNat) := by
    rw [Channel.prefetchMore, if_neg (by rw [hstate]; decide), if_pos hlast.1,
      if_neg (by omega), if_pos (by omega)]
  have hrun : Call.run e t (.prefetchMore 512) = (.last, { t with
      chan := t.chan.prefetched (t.chan.lastByte - t.chan.prefetch + 1).toNat,
      ahead := t.ahead ++
        t.chan.buffer.slice t.chan.prefetch (t.chan.lastByte - t.chan.prefetch + 1).toNat }) := by
    rw [Call.run, hmore]
  rcases h.prefetchMore 512 with ⟨t', hx, _⟩ | ⟨t', hx, _, hfetched, _⟩ | ⟨t', hx, _⟩
  · rw [hrun] at hx
    cases congrArg Prod.fst hx
  · rw [hrun] at hx
    obtain rfl := congrArg Prod.snd hx
    rw [Talk.fetched, hpopped, hahead] at hfetched
    dsimp only at hfetched
    rw [List.nil_append, Buffer.length_slice, List.length_nil] at hfetched
    omega
  · rw [hrun] at hx
    cases congrArg Prod.fst hx

/-- After a position command the file is delivered from there on if and only if the
    channel had no last byte left over, or at most a block is to come. -/
theorem position_delivers_iff {e : Elsewhere} {elsewhere : Channel → PositionError × Channel}
    {file : List UInt8} {dataOffset : Nat} {t : Talk} (h : Opened e elsewhere file dataOffset t)
    {pos : Nat} (hpos : pos + dataOffset < file.length) :
    (∀ t', Reachable e (t.position elsewhere file dataOffset pos) t' →
        Delivers e (file.drop (pos + dataOffset)) t') ↔
      (t.chan.lastByte = -1 ∨ file.length ≤ pos + dataOffset + 512) := by
  obtain ⟨c', hx, _, hstreams, hstale⟩ :=
    position_spec elsewhere h.listening file dataOffset pos
  have hposition : t.position elsewhere file dataOffset pos = ⟨c', [], []⟩ := by
    rw [Talk.position, hx]
  rw [hposition]
  constructor
  · intro hdelivers
    by_contra hnot
    rw [not_or] at hnot
    obtain ⟨hlast, hprefetch, hstate⟩ := hstale (by omega)
    refine stale_ends_early (t := ⟨c', [], []⟩) hstate hprefetch rfl rfl ?_ ?_
      (hdelivers _ .start)
    · show 0 ≤ c'.lastByte ∧ c'.lastByte ≤ 511
      rw [hlast]
      exact h.listening.lastByte.resolve_left hnot.1
    · rw [List.length_drop]
      omega
  · intro hgood t' hreach
    have hinv : Inv (file.drop (pos + dataOffset)) t' := by
      induction hreach with
      | start => exact Or.inl ⟨0, hstreams hpos hgood⟩
      | call c _ hc ih => exact ih.run hc
    exact hinv.delivers

/-- A file of 600 bytes, opened, and read up to its last block. -/
def inLastBlock : Talk :=
  (Call.run nowhere (Call.run nowhere (opened (onFile (List.replicate 600 0)))
    (.prefetchMore 512)).2 (.popMore 512)).2

theorem inLastBlock_opened (elsewhere : Channel → PositionError × Channel) :
    Opened nowhere elsewhere (List.replicate 600 0) 0 inLastBlock :=
  .call _ (.call _ (.start _ rfl))

/-- From byte 100 on the file comes right. -/
theorem inLastBlock_position_100 :
    Delivers nowhere ((List.replicate 600 0).drop (100 + 0))
      (inLastBlock.position (fun c => (.allOk, c)) (List.replicate 600 0) 0 100) :=
  (position_delivers_iff (inLastBlock_opened _) (by rw [List.length_replicate]; decide)).mpr
    (Or.inr (by rw [List.length_replicate]; decide)) _ .start

/-- From byte 0 on it does not: the last byte is still the one of the last block. -/
theorem inLastBlock_position_0 :
    ¬ ∀ t', Reachable nowhere
        (inLastBlock.position (fun c => (.allOk, c)) (List.replicate 600 0) 0 0) t' →
      Delivers nowhere ((List.replicate 600 0).drop (0 + 0)) t' := by
  intro h
  have hopened := inLastBlock_opened fun c => (.allOk, c)
  obtain ⟨c', hx, _, _, hstale⟩ := position_spec (fun c => (.allOk, c))
    hopened.listening (List.replicate 600 0) 0 0
  obtain ⟨hlast, hprefetch, hstate⟩ := hstale (by rw [List.length_replicate]; decide)
  have hposition : inLastBlock.position (fun c => (.allOk, c)) (List.replicate 600 0) 0 0
      = ⟨c', [], []⟩ := by
    rw [Talk.position, hx]
  have hmark : inLastBlock.chan.lastByte = 87 := by decide +kernel
  rw [hposition] at h
  refine stale_ends_early (t := ⟨c', [], []⟩) hstate hprefetch rfl rfl ?_ ?_ (h _ .start)
  · show 0 ≤ c'.lastByte ∧ c'.lastByte ≤ 511
    rw [hlast, hmark]
    decide
  · rw [List.length_drop, List.length_replicate]
    decide

end IecChannel
