import Mathlib

/-! # SLIP packets

    `fastuart.cc` and `my_uart.c` send packets over a serial line: `C0` stands before and
    behind each, and in between `C0` and `DB` are escaped.  Both halves of an interrupt can
    stop at any byte, and go on from the state of their buffers: the transmitter when the
    FIFO has little room left, the receiver when it has taken what the FIFO holds.

    Neither half looks at the other, so the model has them one by one: what the transmitter
    still has to write (`Tx.pending`) only ever loses what it writes (`interrupt_pending`),
    and the receiver, between two packets, has no buffer or an empty one (`Rx.Rest`). -/

namespace Slip

/-- `CMD_BUF_SIZE`: the payload and the header. -/
def cmdBufSize : Nat := 1536 + 16

/-! ## Transmitter -/

/-- What is written for a byte. -/
def escape (b : UInt8) : List UInt8 :=
  if b = 0xC0 then [0xDB, 0xDC]
  else if b = 0xDB then [0xDB, 0xDD]
  else [b]

/-- The loop over the bytes that remain, with `fill_len`: what is written, and what remains.
    A byte takes two places at most, and one is kept for the end of the packet. -/
def txLoop : List UInt8 → Nat → List UInt8 × List UInt8
  | [], _ => ([], [])
  | b :: bs, fillLen =>
      if fillLen > 2 then
        let r := txLoop bs (fillLen - (escape b).length)
        (escape b ++ r.1, r.2)
      else ([], b :: bs)

/-- The transmitter: the buffers that wait, and the one that is sent, of which the bytes
    before `pnt` are written; with `-1` not even its start is. -/
structure Tx where
  transmitQueue : List (List UInt8)
  current : Option (List UInt8)
  pnt : Int

namespace Tx

/-- Without a buffer, the transmitter tries to get one. -/
def next (tx : Tx) : Tx :=
  match tx.current, tx.transmitQueue with
  | none, buf :: bufs => ⟨bufs, some buf, -1⟩
  | _, _ => tx

/-- The transmit half of the interrupt, when the FIFO reports room for `fillLen` (one side
    subtracts its count from `FUART_TxFIFO_SIZE`, the other one asks the driver): what is
    written. -/
def interrupt (tx : Tx) (fillLen : Nat) : List UInt8 × Tx :=
  match tx.next with
  | ⟨queue, none, pnt⟩ => ([], ⟨queue, none, pnt⟩)
  | ⟨queue, some buf, pnt⟩ =>
      let start : List UInt8 := if pnt < 0 then [0xC0] else []
      let r := txLoop (buf.drop pnt.toNat) fillLen
      if r.2 = [] then (start ++ r.1 ++ [0xC0], ⟨queue, none, buf.length⟩)
      else (start ++ r.1, ⟨queue, some buf, buf.length - r.2.length⟩)

end Tx

/-! ## Receiver -/

/-- The side of the line: the FPGA (`fastuart.cc`) or the ESP32 (`my_uart.c`). -/
inductive Side where
  | fastUart
  | myUart

/-- `command_buf_t`, as a packet is received; its size is the number of bytes. -/
structure RxBuf where
  data : List UInt8
  slipEscape : Bool

namespace RxBuf

/-- A byte is stored while there is room. -/
def store (buf : RxBuf) (data : UInt8) : RxBuf :=
  if buf.data.length < cmdBufSize then { buf with data := buf.data ++ [data] } else buf

/-- A byte other than `C0`. -/
def take (buf : RxBuf) (data : UInt8) : RxBuf :=
  if data = 0xDB then { buf with slipEscape := true }
  else
    let data :=
      if data = 0xDC then if buf.slipEscape then 0xC0 else data
      else if data = 0xDD then if buf.slipEscape then 0xDB else data
      else data
    { buf with slipEscape := false }.store data

end RxBuf

/-- The receiver: the buffer that is received into, the packets that have been handed over,
    and the bytes outside of packets. -/
structure Rx where
  current : Option RxBuf
  received : List (List UInt8)
  stray : List UInt8

namespace Rx

/-- A byte outside of packets: one side keeps it in a ring of 16384 places (`stdRx`), the
    other one writes it to its debug port. -/
def keepStray (side : Side) (stray : List UInt8) (data : UInt8) : List UInt8 :=
  match side with
  | .fastUart => if stray.length < 16384 - 1 then stray ++ [data] else stray
  | .myUart => stray ++ [data]

/-- One byte, when a free buffer can be had or not. -/
def byte (side : Side) (free : Bool) (rx : Rx) (data : UInt8) : Rx :=
  match rx.current with
  | none =>
      if data = 0xC0 then { rx with current := if free then some ⟨[], false⟩ else none }
      else { rx with stray := keepStray side rx.stray data }
  | some buf =>
      if data = 0xC0 then
        -- With nothing in the buffer, the receiver was out of step: this is a start.
        if buf.data ≠ [] then { rx with current := none, received := rx.received ++ [buf.data] }
        else rx
      else { rx with current := some (buf.take data) }

/-- The receive half of the interrupt, for the bytes that the FIFO holds: the first is byte
    `i` of the line, and `free` says at which bytes a free buffer can be had. -/
def bytes (side : Side) (free : Nat → Bool) : Nat → Rx → List UInt8 → Rx
  | _, rx, [] => rx
  | i, rx, data :: rest => bytes side free (i + 1) (rx.byte side (free i) data) rest

end Rx

/-! ## What is written -/

/-- The bytes of a packet as they are written. -/
def body (p : List UInt8) : List UInt8 := p.flatMap escape

/-- A packet on the line. -/
def frame (p : List UInt8) : List UInt8 := 0xC0 :: (body p ++ [0xC0])

/-- Packets on the line. -/
def frames (ps : List (List UInt8)) : List UInt8 := ps.flatMap frame

theorem body_cons (b : UInt8) (p : List UInt8) : body (b :: p) = escape b ++ body p :=
  List.flatMap_cons

theorem body_append (p q : List UInt8) : body (p ++ q) = body p ++ body q :=
  List.flatMap_append

theorem frames_cons (p : List UInt8) (ps : List (List UInt8)) :
    frames (p :: ps) = frame p ++ frames ps :=
  List.flatMap_cons

theorem frames_append (ps qs : List (List UInt8)) :
    frames (ps ++ qs) = frames ps ++ frames qs :=
  List.flatMap_append

theorem length_escape_pos (b : UInt8) : 0 < (escape b).length := by
  rw [escape]
  split
  · decide
  · split
    · decide
    · exact Nat.zero_lt_one

theorem length_escape_le (b : UInt8) : (escape b).length ≤ 2 := by
  rw [escape]
  split
  · decide
  · split
    · decide
    · exact Nat.le_succ 1

theorem ne_of_mem_escape {b c : UInt8} (h : c ∈ escape b) : c ≠ 0xC0 := by
  rw [escape] at h
  split at h
  · rcases List.mem_pair.mp h with rfl | rfl <;> decide
  next hb =>
    split at h
    · rcases List.mem_pair.mp h with rfl | rfl <;> decide
    · rw [List.mem_singleton.mp h]
      exact hb

/-- No byte of a packet looks like its end. -/
theorem ne_of_mem_body {p : List UInt8} {c : UInt8} (h : c ∈ body p) : c ≠ 0xC0 := by
  obtain ⟨b, -, hc⟩ := List.mem_flatMap.mp h
  exact ne_of_mem_escape hc

/-- What the loop writes and what it leaves. -/
theorem txLoop_spec (data : List UInt8) (fillLen : Nat) :
    ∃ written, data = written ++ (txLoop data fillLen).2 ∧
      (txLoop data fillLen).1 = body written := by
  induction data generalizing fillLen with
  | nil => exact ⟨[], rfl, rfl⟩
  | cons b bs ih =>
      rw [txLoop]
      split
      · obtain ⟨written, hdata, hbody⟩ := ih (fillLen - (escape b).length)
        refine ⟨b :: written, congrArg (b :: ·) hdata, ?_⟩
        rw [body_cons, ← hbody]
      · exact ⟨[], rfl, rfl⟩

/-- The loop writes no more than there is room for, and when it comes to the end, there is
    a place left. -/
theorem txLoop_room (data : List UInt8) (fillLen : Nat) :
    (txLoop data fillLen).1.length ≤ fillLen ∧
      (data ≠ [] → (txLoop data fillLen).2 = [] → (txLoop data fillLen).1.length < fillLen) := by
  induction data generalizing fillLen with
  | nil => exact ⟨Nat.zero_le _, fun h => absurd rfl h⟩
  | cons b bs ih =>
      rw [txLoop]
      split
      next hroom =>
        obtain ⟨hle, hlt⟩ := ih (fillLen - (escape b).length)
        have hesc := length_escape_le b
        rw [List.length_append]
        refine ⟨by omega, fun _ hnil => ?_⟩
        cases bs with
        | nil =>
            have hzero : (txLoop [] (fillLen - (escape b).length)).1.length = 0 := rfl
            omega
        | cons c cs =>
            have hin := hlt (List.cons_ne_nil c cs) hnil
            omega
      · exact ⟨Nat.zero_le _, fun _ h => absurd h (List.cons_ne_nil b bs)⟩

namespace Tx

/-- What the transmitter has still to write. -/
def pending (tx : Tx) : List UInt8 :=
  (match tx.current with
    | none => []
    | some buf => if tx.pnt < 0 then frame buf else body (buf.drop tx.pnt.toNat) ++ [0xC0]) ++
    frames tx.transmitQueue

theorem pending_next (tx : Tx) : tx.next.pending = tx.pending := by
  rcases tx with ⟨_ | ⟨buf, bufs⟩, _ | buf', pnt⟩
  · rfl
  · rfl
  · exact (frames_cons buf bufs).symm
  · rfl

/-- An interrupt takes what it writes from what is to be written. -/
theorem interrupt_pending (tx : Tx) (fillLen : Nat) :
    (tx.interrupt fillLen).1 ++ (tx.interrupt fillLen).2.pending = tx.pending := by
  rw [← pending_next tx, interrupt]
  rcases tx.next with ⟨queue, _ | buf, pnt⟩
  · rfl
  · dsimp only
    obtain ⟨written, hdata, hbody⟩ := txLoop_spec (buf.drop pnt.toNat) fillLen
    -- The start of the packet goes out before anything else.
    have hstart : (⟨queue, some buf, pnt⟩ : Tx).pending
        = (if pnt < 0 then [0xC0] else []) ++
          (body (buf.drop pnt.toNat) ++ [0xC0] ++ frames queue) := by
      rw [pending]
      dsimp only
      split
      next hneg =>
        rw [Int.toNat_of_nonpos (Int.le_of_lt hneg), List.drop_zero]
        rfl
      · rfl
    rw [hstart, hbody]
    split
    next hnil =>
      have hall : body (buf.drop pnt.toNat) = body written := by
        rw [hnil, List.append_nil] at hdata
        rw [← hdata]
      rw [hall, pending]
      simp only [List.append_assoc, List.nil_append]
    next hrest =>
      generalize hr : (txLoop (buf.drop pnt.toNat) fillLen).2 = rest at hrest hdata
      have hlen : rest.length ≤ buf.length := by
        have hle := congrArg List.length hdata
        rw [List.length_drop, List.length_append] at hle
        omega
      have hdrop : buf.drop ((buf.length : Int) - rest.length).toNat = rest := by
        have hsuffix : rest <:+ buf := (hdata ▸ List.suffix_append written rest).trans
          (List.drop_suffix _ _)
        rw [show ((buf.length : Int) - rest.length).toNat = buf.length - rest.length by omega]
        exact (List.suffix_iff_eq_drop.mp hsuffix).symm
      have hneg : ¬ (buf.length : Int) - rest.length < 0 := by omega
      rw [pending]
      dsimp only
      rw [if_neg hneg, hdrop]
      conv_rhs => rw [hdata, body_append]
      simp only [List.append_assoc]

/-- The packets have bytes, and one that is being sent is not complete. -/
structure Valid (tx : Tx) : Prop where
  queued : ∀ buf ∈ tx.transmitQueue, buf ≠ []
  sending : ∀ buf, tx.current = some buf → buf ≠ [] ∧ tx.pnt < buf.length

theorem Valid.next {tx : Tx} (h : tx.Valid) : tx.next.Valid := by
  rcases tx with ⟨_ | ⟨buf, bufs⟩, _ | buf', pnt⟩
  · exact h
  · exact h
  · refine ⟨fun b hb => h.queued b (List.mem_cons_of_mem _ hb), fun b hb => ⟨?_, ?_⟩⟩
    · rw [← Option.some.inj hb]
      exact h.queued buf (List.mem_cons_self ..)
    · show (-1 : Int) < b.length
      omega
  · exact h

theorem Valid.interrupt {tx : Tx} (h : tx.Valid) (fillLen : Nat) :
    (tx.interrupt fillLen).2.Valid := by
  have hn := h.next
  rw [Tx.interrupt]
  revert hn
  rcases tx.next with ⟨queue, _ | buf, pnt⟩
  · exact id
  · intro hn
    dsimp only
    split
    · exact ⟨hn.queued, nofun⟩
    next hrest =>
      refine ⟨hn.queued, fun b hb => ?_⟩
      have hpos := List.length_pos_iff.mpr hrest
      rw [← Option.some.inj hb]
      refine ⟨(hn.sending buf rfl).1, ?_⟩
      dsimp only
      omega

/-- An interrupt writes one byte before it asks for the room that is left, and then no more
    than that. -/
theorem Valid.interrupt_room {tx : Tx} (h : tx.Valid) (fillLen : Nat) :
    (tx.interrupt fillLen).1.length ≤ 1 + fillLen := by
  have hn := h.next
  rw [Tx.interrupt]
  revert hn
  rcases tx.next with ⟨queue, _ | buf, pnt⟩
  · exact fun _ => Nat.zero_le _
  · intro hn
    obtain ⟨hbuf, hsending⟩ : buf ≠ [] ∧ pnt < buf.length := hn.sending buf rfl
    have hpos := List.length_pos_iff.mpr hbuf
    have hne : buf.drop pnt.toNat ≠ [] := fun hnil => by
      have hlen := List.drop_eq_nil_iff.mp hnil
      omega
    obtain ⟨hle, hlt⟩ := txLoop_room (buf.drop pnt.toNat) fillLen
    have hstart : (if pnt < 0 then [(0xC0 : UInt8)] else []).length ≤ 1 := by
      split
      · exact Nat.le_refl 1
      · exact Nat.zero_le 1
    dsimp only
    split
    next hnil =>
      have hroom := hlt hne hnil
      rw [List.length_append, List.length_append, List.length_singleton]
      omega
    · rw [List.length_append]
      omega

/-- With room for three bytes an interrupt writes some, if there are any to write. -/
theorem Valid.interrupt_progress {tx : Tx} (h : tx.Valid) {fillLen : Nat} (hroom : 2 < fillLen)
    (hpending : tx.pending ≠ []) : 0 < (tx.interrupt fillLen).1.length := by
  -- what is written of a packet that is being sent
  have hsending : ∀ (queue : List (List UInt8)) (buf : List UInt8) (pnt : Int),
      buf ≠ [] ∧ pnt < buf.length →
        ∀ tx : Tx, tx.next = ⟨queue, some buf, pnt⟩ → 0 < (tx.interrupt fillLen).1.length := by
    rintro queue buf pnt ⟨hbuf, hlt⟩ tx hnext
    have hpos := List.length_pos_iff.mpr hbuf
    have hloop : 0 < (txLoop (buf.drop pnt.toNat) fillLen).1.length := by
      cases hdrop : buf.drop pnt.toNat with
      | nil =>
          have hlen := List.drop_eq_nil_iff.mp hdrop
          omega
      | cons b bs =>
          have hesc := length_escape_pos b
          rw [txLoop, if_pos hroom]
          dsimp only
          rw [List.length_append]
          omega
    rw [Tx.interrupt, hnext]
    dsimp only
    split
    · simp only [List.length_append, List.length_singleton]
      omega
    · rw [List.length_append]
      omega
  rcases tx with ⟨_ | ⟨buf, bufs⟩, _ | buf', pnt⟩
  · exact absurd rfl hpending
  · exact hsending [] buf' pnt (h.sending buf' rfl) _ rfl
  · refine hsending bufs buf (-1) ⟨h.queued buf (List.mem_cons_self ..), ?_⟩ _ rfl
    omega
  · exact hsending (buf :: bufs) buf' pnt (h.sending buf' rfl) _ rfl

end Tx

/-! ## What is received -/

namespace Rx

variable {d : Side} {f : Nat → Bool} {r : Rx} {i : Nat}

theorem bytes_append (xs ys : List UInt8) :
    bytes d f i r (xs ++ ys) = bytes d f (i + xs.length) (bytes d f i r xs) ys := by
  induction xs generalizing i r with
  | nil => rfl
  | cons x xs ih =>
      rw [List.cons_append, bytes, ih, bytes, List.length_cons, Nat.add_right_comm i 1, Nat.add_assoc]

/-- Inside of a packet, an escaped byte is stored as it was. -/
theorem bytes_escape {q : List UInt8} (hq : q.length < cmdBufSize) (b : UInt8) {received : List (List UInt8)}
    {stray : List UInt8} :
    bytes d f i ⟨some ⟨q, false⟩, received, stray⟩ (escape b)
      = ⟨some ⟨q ++ [b], false⟩, received, stray⟩ := by
  have hstore : ∀ c : UInt8, RxBuf.store ⟨q, false⟩ c = ⟨q ++ [c], false⟩ := fun c => if_pos hq
  rw [escape]
  split
  next hb =>
    rw [hb, ← hstore]
    rfl
  next hc0 =>
    split
    next hb =>
      rw [hb, ← hstore]
      rfl
    next hdb =>
      -- The byte stands for itself.
      have htake : RxBuf.take ⟨q, false⟩ b = ⟨q ++ [b], false⟩ := by
        rw [RxBuf.take, if_neg hdb]
        dsimp only
        rw [if_neg Bool.false_ne_true, if_neg Bool.false_ne_true, ite_self, ite_self, hstore]
      rw [bytes, bytes, byte]
      dsimp only
      rw [if_neg hc0, htake]

/-- The bytes of a packet are stored. -/
theorem bytes_body {q p : List UInt8} (hlen : q.length + p.length ≤ cmdBufSize)
    {received : List (List UInt8)} {stray : List UInt8} :
    bytes d f i ⟨some ⟨q, false⟩, received, stray⟩ (body p)
      = ⟨some ⟨q ++ p, false⟩, received, stray⟩ := by
  induction p generalizing i q with
  | nil => rw [List.append_nil]; rfl
  | cons b p ih =>
      rw [List.length_cons] at hlen
      have hnext : (q ++ [b]).length + p.length ≤ cmdBufSize := by
        rw [List.length_append, List.length_singleton]
        omega
      rw [body_cons, bytes_append, bytes_escape (by omega), ih hnext, List.append_assoc,
        List.singleton_append]

/-- Without an end of a packet nothing is handed over, and without a buffer none is taken. -/
theorem bytes_inside {xs : List UInt8} (h : ∀ x ∈ xs, x ≠ 0xC0) :
    (bytes d f i r xs).received = r.received ∧
      (r.current = none → (bytes d f i r xs).current = none) := by
  induction xs generalizing i r with
  | nil => exact ⟨rfl, id⟩
  | cons x xs ih =>
      obtain ⟨hx, hxs⟩ := List.forall_mem_cons.mp h
      have hbyte : (r.byte d (f i) x).received = r.received ∧
          (r.current = none → (r.byte d (f i) x).current = none) := by
        rcases r with ⟨_ | buf, received, stray⟩
        · rw [byte]
          dsimp only
          rw [if_neg hx]
          exact ⟨rfl, fun _ => rfl⟩
        · rw [byte]
          dsimp only
          rw [if_neg hx]
          exact ⟨rfl, nofun⟩
      obtain ⟨hreceived, hcurrent⟩ := ih hxs (i := i + 1) (r := r.byte d (f i) x)
      exact ⟨hreceived.trans hbyte.1, fun hnone => hcurrent (hbyte.2 hnone)⟩

/-- Between two packets. -/
def Rest (r : Rx) : Prop := r.current = none ∨ r.current = some ⟨[], false⟩

/-- A start of a packet. -/
theorem byte_start (hrest : r.Rest) (b : Bool) :
    (r.byte d b 0xC0).Rest ∧ (r.byte d b 0xC0).received = r.received := by
  rcases r with ⟨current, received, stray⟩
  rcases hrest with hnone | hsome
  · cases hnone
    cases b
    · exact ⟨Or.inl rfl, rfl⟩
    · exact ⟨Or.inr rfl, rfl⟩
  · cases hsome
    exact ⟨Or.inr rfl, rfl⟩

/-- A packet is received when a free buffer can be had at its start, or was there before. -/
theorem bytes_frame {p : List UInt8} (hne : p ≠ []) (hlen : p.length ≤ cmdBufSize) (hrest : r.Rest) :
    (bytes d f i r (frame p)).Rest ∧
      ((bytes d f i r (frame p)).received = r.received ∨
        (bytes d f i r (frame p)).received = r.received ++ [p]) ∧
      (r.current = none → f i = true →
        (bytes d f i r (frame p)).current = none ∧
        (bytes d f i r (frame p)).received = r.received ++ [p]) := by
  obtain ⟨hstart, hreceived⟩ := byte_start (d := d) hrest (f i)
  have hopen : r.current = none → f i = true →
      (r.byte d (f i) 0xC0).current = some ⟨[], false⟩ := fun hnone hfree => by
    rw [byte, hnone, hfree]
    rfl
  rw [frame, bytes, bytes_append]
  generalize r.byte d (f i) 0xC0 = rx₁ at hstart hreceived hopen
  rcases rx₁ with ⟨current, received, stray⟩
  rw [← hreceived]
  rcases hstart with hnone | hsome
  · -- The packet is missed, and its end may be taken for a start.
    cases hnone
    obtain ⟨hsame, hcurrent⟩ := bytes_inside (d := d) (f := f) (i := i + 1)
      (r := ⟨none, received, stray⟩) (fun x hx => ne_of_mem_body hx (p := p))
    obtain ⟨hrest', hreceived'⟩ := byte_start (d := d) (Or.inl (hcurrent rfl))
      (f (i + 1 + (body p).length))
    exact ⟨hrest', Or.inl (hreceived'.trans hsame), fun h hfree => nomatch hopen h hfree⟩
  · cases hsome
    rw [bytes_body (by rw [List.length_nil]; omega), List.nil_append, bytes, bytes, byte]
    dsimp only
    rw [if_pos rfl, if_pos hne]
    exact ⟨Or.inl rfl, Or.inr rfl, fun _ _ => ⟨rfl, rfl⟩⟩

/-- Until its end has come, a packet is not handed over. -/
theorem bytes_part {p xs : List UInt8} (hpre : xs <+: frame p) (hlt : xs.length < (frame p).length)
    (hrest : r.Rest) : (bytes d f i r xs).received = r.received := by
  cases xs with
  | nil => rfl
  | cons x xs =>
      obtain ⟨rfl, htail⟩ := List.cons_prefix_cons.mp hpre
      have hbody : xs <+: body p := by
        have hlen : xs.length ≤ (body p).length := by
          rw [frame, List.length_cons, List.length_cons, List.length_append, List.length_singleton]
            at hlt
          omega
        exact List.prefix_of_prefix_length_le htail (List.prefix_append _ _) hlen
      rw [bytes]
      exact (bytes_inside fun x hx => ne_of_mem_body (hbody.subset hx)).1.trans
        (byte_start hrest (f i)).2

/-- Packets, as far as they have come: some of them are received, in their order; when a f
    buffer can be had at each start, all that have come are. -/
theorem bytes_frames {ps : List (List UInt8)} (hps : ∀ p ∈ ps, p ≠ [] ∧ p.length ≤ cmdBufSize)
    {xs : List UInt8} (hpre : xs <+: frames ps) (hrest : r.Rest) :
    ∃ got, (bytes d f i r xs).received = r.received ++ got ∧ got.Sublist ps ∧
      (r.current = none → (∀ k < ps.length, f (i + (frames (ps.take k)).length) = true) →
        ∀ k, (frames (ps.take k)).length ≤ xs.length → ps.take k <+: got) := by
  induction ps generalizing i r xs with
  | nil =>
      obtain rfl := List.prefix_nil.mp hpre
      refine ⟨[], (List.append_nil _).symm, List.Sublist.refl _, fun _ _ k _ => ?_⟩
      exact List.take_prefix k []
  | cons p ps ih =>
      obtain ⟨⟨hne, hlen⟩, hps⟩ := List.forall_mem_cons.mp hps
      rw [frames_cons] at hpre
      by_cases hlt : xs.length < (frame p).length
      · -- The first packet has not come to its end.
        have hpart : xs <+: frame p :=
          List.prefix_of_prefix_length_le hpre (List.prefix_append _ _) (Nat.le_of_lt hlt)
        refine ⟨[], ?_, List.nil_sublist _, fun _ _ k hk => ?_⟩
        · rw [bytes_part hpart hlt hrest, List.append_nil]
        · cases k with
          | zero => exact List.nil_prefix
          | succ k =>
              rw [List.take_succ_cons, frames_cons, List.length_append] at hk
              omega
      · have hwhole : frame p <+: xs :=
          List.prefix_of_prefix_length_le (List.prefix_append _ _) hpre (Nat.le_of_not_lt hlt)
        obtain ⟨ys, rfl⟩ := hwhole
        rw [List.prefix_append_right_inj] at hpre
        obtain ⟨hrest', hone, hgot⟩ :=
          bytes_frame (d := d) (f := f) (i := i) hne hlen hrest
        obtain ⟨got, hreceived, hsub, hall⟩ := ih hps hpre hrest' (i := i + (frame p).length)
        rw [bytes_append]
        rcases hone with hsame | hnew
        · refine ⟨got, by rw [hreceived, hsame], hsub.cons p, fun hnone hfree => ?_⟩
          -- A free buffer at the start would have received the packet.
          have hfirst : f i = true := hfree 0 (Nat.zero_lt_succ _)
          have hmore := congrArg List.length (hsame.symm.trans (hgot hnone hfirst).2)
          rw [List.length_append, List.length_singleton] at hmore
          omega
        · refine ⟨p :: got, by rw [hreceived, hnew, List.append_assoc, List.singleton_append],
            hsub.cons_cons p, fun hnone hfree k hk => ?_⟩
          cases k with
          | zero => exact List.nil_prefix
          | succ k =>
              rw [List.take_succ_cons, frames_cons, List.length_append, List.length_append] at hk
              rw [List.take_succ_cons, List.cons_prefix_cons]
              refine ⟨rfl, hall (hgot hnone (hfree 0 (Nat.zero_lt_succ _))).1 (fun j hj => ?_) k (by omega)⟩
              have hnext := hfree (j + 1) (Nat.succ_lt_succ hj)
              rw [List.take_succ_cons, frames_cons, List.length_append, ← Nat.add_assoc] at hnext
              exact hnext

end Rx

end Slip
