import Ultimate1541.SlipProofs

/-! # The serial line between the FPGA and the ESP32

    One side of the line sends packets, the other one receives them.  Their interrupts come
    in any order; a transmit interrupt meets any room in its FIFO, and a receive interrupt
    finds any number of the bytes that are on their way.  What is on the line is never more
    than was written: the transmitter writes no more than there is room for
    (`Tx.Valid.interrupt_room`).

    In every run, what has been written and what is still to be written make up the packets
    that have been sent (`Link.Sound`). -/

namespace Slip

/-- One direction of the line: the transmitter, the bytes on their way, the receiver, and the
    number of bytes that it has taken. -/
structure Link where
  tx : Tx
  line : List UInt8
  rx : Rx
  taken : Nat

/-- What can happen: a packet is sent, an interrupt comes on either side, or bytes outside of
    packets are read. -/
inductive Event where
  | send (buf : List UInt8)
  | transmit (fillLen : Nat)
  | receive (rxFifoLen : Nat)
  | read (bufferSize : Nat)

namespace Link

def init : Link := ⟨⟨[], none, 0⟩, [], ⟨none, [], []⟩, 0⟩

/-- The line after an event; `side` is the side that receives. -/
def step (side : Side) (free : Nat → Bool) (s : Link) : Event → Link
  | .send buf => { s with tx := { s.tx with transmitQueue := s.tx.transmitQueue ++ [buf] } }
  | .transmit fillLen =>
      let r := s.tx.interrupt fillLen
      { s with tx := r.2, line := s.line ++ r.1 }
  | .receive rxFifoLen =>
      let data := s.line.take rxFifoLen
      { s with
        line := s.line.drop rxFifoLen
        rx := s.rx.bytes side free s.taken data
        taken := s.taken + data.length }
  | .read bufferSize => { s with rx := { s.rx with stray := s.rx.stray.drop bufferSize } }

def run (side : Side) (free : Nat → Bool) (s : Link) (es : List Event) : Link :=
  es.foldl (step side free) s

end Link

/-- The packets that are sent in a run. -/
def sent : List Event → List (List UInt8)
  | [] => []
  | .send buf :: es => buf :: sent es
  | _ :: es => sent es

variable {d : Side} {f : Nat → Bool}

/-! ## Bytes outside of packets -/

/-- They do not matter to the receiver. -/
theorem Rx.bytes_congr {rx rx' : Rx} (hcurrent : rx.current = rx'.current)
    (hreceived : rx.received = rx'.received) (i : Nat) (xs : List UInt8) :
    (rx.bytes d f i xs).current = (rx'.bytes d f i xs).current ∧
      (rx.bytes d f i xs).received = (rx'.bytes d f i xs).received := by
  induction xs generalizing i rx rx' with
  | nil => exact ⟨hcurrent, hreceived⟩
  | cons x xs ih =>
      rcases rx with ⟨current, received, stray⟩
      rcases rx' with ⟨current', received', stray'⟩
      cases hcurrent
      cases hreceived
      rw [Rx.bytes, Rx.bytes]
      have hbyte : (Rx.byte d (f i) ⟨current, received, stray⟩ x).current
            = (Rx.byte d (f i) ⟨current, received, stray'⟩ x).current ∧
          (Rx.byte d (f i) ⟨current, received, stray⟩ x).received
            = (Rx.byte d (f i) ⟨current, received, stray'⟩ x).received := by
        rw [Rx.byte, Rx.byte]
        cases current with
        | none =>
            dsimp only
            split <;> exact ⟨rfl, rfl⟩
        | some buf =>
            dsimp only
            split
            · split <;> exact ⟨rfl, rfl⟩
            · exact ⟨rfl, rfl⟩
      exact ih hbyte.1 hbyte.2 (i + 1)

/-! ## Runs -/

namespace Link

/-- What is so in every run that has sent `ps`: the receiver is as the bytes that it has taken
    leave it, and with the bytes on their way and those that are still to be written they
    are the packets. -/
structure Sound (d : Side) (f : Nat → Bool) (ps : List (List UInt8)) (s : Link) : Prop where
  flow : ∃ got, got.length = s.taken ∧ got ++ s.line ++ s.tx.pending = frames ps ∧
    s.rx.current = (Rx.bytes d f 0 init.rx got).current ∧
    s.rx.received = (Rx.bytes d f 0 init.rx got).received

theorem sound_init : Sound d f [] init := ⟨⟨[], rfl, rfl, rfl, rfl⟩⟩

/-- A packet that is sent is written behind the others. -/
theorem Sound.send {ps : List (List UInt8)} {s : Link} (h : Sound d f ps s) (buf : List UInt8) :
    Sound d f (ps ++ [buf]) (s.step d f (.send buf)) := by
  obtain ⟨got, htaken, hflow, hrx⟩ := h.flow
  have hpending : (s.step d f (.send buf)).tx.pending = s.tx.pending ++ frames [buf] := by
    rw [step, Tx.pending, Tx.pending, frames_append, List.append_assoc]
  refine ⟨got, htaken, ?_, hrx⟩
  rw [hpending, ← List.append_assoc, frames_append, ← hflow]
  rfl

theorem Sound.transmit {ps : List (List UInt8)} {s : Link} (h : Sound d f ps s) (fillLen : Nat) :
    Sound d f ps (s.step d f (.transmit fillLen)) := by
  obtain ⟨got, htaken, hflow, hrx⟩ := h.flow
  refine ⟨got, htaken, ?_, hrx⟩
  rw [step]
  dsimp only
  rw [← List.append_assoc, List.append_assoc, Tx.interrupt_pending, hflow]

theorem Sound.receive {ps : List (List UInt8)} {s : Link} (h : Sound d f ps s) (n : Nat) :
    Sound d f ps (s.step d f (.receive n)) := by
  obtain ⟨got, htaken, hflow, hcurrent, hreceived⟩ := h.flow
  obtain ⟨hcurrent', hreceived'⟩ :=
    Rx.bytes_congr (d := d) (f := f) hcurrent hreceived s.taken (s.line.take n)
  refine ⟨got ++ s.line.take n, ?_, ?_, ?_, ?_⟩
  · rw [List.length_append, htaken]
    rfl
  · rw [step]
    dsimp only
    rw [List.append_assoc got, List.take_append_drop, hflow]
  · rw [Rx.bytes_append, Nat.zero_add, htaken]
    exact hcurrent'
  · rw [Rx.bytes_append, Nat.zero_add, htaken]
    exact hreceived'

theorem Sound.run {ps : List (List UInt8)} {s : Link} (h : Sound d f ps s) (es : List Event) :
    Sound d f (ps ++ sent es) (s.run d f es) := by
  induction es generalizing ps s with
  | nil =>
      rw [sent, List.append_nil]
      exact h
  | cons e es ih =>
      cases e with
      | send buf =>
          rw [sent, ← List.singleton_append, ← List.append_assoc]
          exact ih (h.send buf)
      | transmit fillLen => exact ih (h.transmit fillLen)
      | receive n => exact ih (h.receive n)
      | read n =>
          obtain ⟨got, hgot⟩ := h.flow
          exact ih ⟨got, hgot⟩

/-- The transmitter has nothing to send, and nothing is on its way. -/
def Drained (s : Link) : Prop := s.tx.current = none ∧ s.tx.transmitQueue = [] ∧ s.line = []

/-- Whatever the interrupts meet, the packets that are handed over are packets that were
    sent, in their order and byte for byte.  When a free buffer can be had at each start of a
    packet, every packet that has come whole is handed over, and in the end all are. -/
theorem link_delivers (side : Side) (free : Nat → Bool) (es : List Event)
    (hsent : ∀ p ∈ sent es, p ≠ [] ∧ p.length ≤ cmdBufSize) :
    (init.run side free es).rx.received.Sublist (sent es) ∧
      ((∀ k < (sent es).length, free (frames ((sent es).take k)).length = true) →
        (∀ k, (frames ((sent es).take k)).length ≤ (init.run side free es).taken →
          (sent es).take k <+: (init.run side free es).rx.received) ∧
        ((init.run side free es).Drained → (init.run side free es).rx.received = sent es)) := by
  have hsound : Sound side free (sent es) (init.run side free es) :=
    sound_init.run es
  obtain ⟨got, htaken, hflow, -, hreceived⟩ := hsound.flow
  have hpre : got <+: frames (sent es) := by
    rw [← hflow, List.append_assoc]
    exact List.prefix_append got _
  obtain ⟨packets, hpackets, hsub, hall⟩ := Rx.bytes_frames (d := side) (f := free) (i := 0)
    (r := init.rx) hsent hpre (Or.inl rfl)
  have hsame : (init.run side free es).rx.received = packets := hreceived.trans hpackets
  rw [hsame, ← htaken]
  refine ⟨hsub, fun hfree => ?_⟩
  have hwhole := hall rfl (fun k hk => by rw [Nat.zero_add]; exact hfree k hk)
  refine ⟨hwhole, fun ⟨hcurrent, hqueue, hline⟩ => ?_⟩
  -- All bytes have come.
  have hpending : (init.run side free es).tx.pending = [] := by
    rw [Tx.pending, hcurrent, hqueue]
    rfl
  rw [hpending, hline, List.append_nil, List.append_nil] at hflow
  have hlast := hwhole (sent es).length (Nat.le_of_eq (by rw [List.take_length, hflow]))
  rw [List.take_length] at hlast
  exact hsub.antisymm hlast.sublist

/-- A packet of one byte that has to be escaped, sent to the ESP32. -/
theorem link_delivers_one :
    (∀ p ∈ sent [.send [0xC0], .transmit 3, .receive 2, .receive 9], p ≠ [] ∧ p.length ≤ cmdBufSize) ∧
      (init.run .myUart (fun _ => true) [.send [0xC0], .transmit 3, .receive 2, .receive 9]).rx.received
        = [[0xC0]] := by
  have hsent : ∀ p ∈ sent [.send [0xC0], .transmit 3, .receive 2, .receive 9],
      p ≠ [] ∧ p.length ≤ cmdBufSize := by
    decide
  exact ⟨hsent, ((link_delivers .myUart (fun _ => true) _ hsent).2 fun _ _ => rfl).2
    ⟨rfl, rfl, rfl⟩⟩

/-! ## Room and progress -/

theorem valid_run {s : Link} (h : s.tx.Valid) (es : List Event) :
    (∀ p ∈ sent es, p ≠ []) → (s.run d f es).tx.Valid := by
  induction es generalizing s with
  | nil => exact fun _ => h
  | cons e es ih =>
      intro hsent
      cases e with
      | send buf =>
          obtain ⟨hbuf, hrest⟩ := List.forall_mem_cons.mp hsent
          refine ih ⟨?_, h.sending⟩ hrest
          intro p hp
          rcases List.mem_append.mp hp with hp | hp
          · exact h.queued p hp
          · rw [List.mem_singleton.mp hp]
            exact hbuf
      | transmit fillLen => exact ih (h.interrupt fillLen) hsent
      | receive n => exact ih h hsent
      | read n => exact ih h hsent

/-- Interrupts that find room write all that is to be written, and nothing else. -/
theorem transmit_all (rooms : List Nat) : ∀ s : Link, s.tx.Valid → (∀ r ∈ rooms, 2 < r) →
    s.tx.pending.length ≤ rooms.length →
    (s.run d f (rooms.map .transmit)).tx.pending = [] ∧
      (s.run d f (rooms.map .transmit)).line = s.line ++ s.tx.pending := by
  induction rooms with
  | nil =>
      intro s _ _ hlen
      have hnil : s.tx.pending = [] := List.length_eq_zero_iff.mp (Nat.le_zero.mp hlen)
      refine ⟨hnil, ?_⟩
      rw [hnil, List.append_nil]
      rfl
  | cons r rooms ih =>
      intro s hvalid hrooms hlen
      obtain ⟨hr, hrest⟩ := List.forall_mem_cons.mp hrooms
      have hsplit := Tx.interrupt_pending s.tx r
      have hless : (s.step d f (.transmit r)).tx.pending.length ≤ rooms.length := by
        have hsum := congrArg List.length hsplit
        rw [List.length_append] at hsum
        rw [List.length_cons] at hlen
        show (s.tx.interrupt r).2.pending.length ≤ rooms.length
        by_cases hnil : s.tx.pending = []
        · rw [hnil, List.length_nil] at hsum
          omega
        · have := hvalid.interrupt_progress hr hnil
          omega
      obtain ⟨hdone, hline⟩ := ih (s.step d f (.transmit r)) (hvalid.interrupt r) hrest hless
      refine ⟨hdone, hline.trans ?_⟩
      show s.line ++ (s.tx.interrupt r).1 ++ (s.tx.interrupt r).2.pending = _
      rw [List.append_assoc, hsplit]

/-- In every state that a run comes to, an interrupt writes one byte more than the FIFO has
    room for at most, which it has when it interrupts; and as many interrupts as there are
    bytes to write, each with room for three, write them all. -/
theorem link_progresses (side : Side) (free : Nat → Bool) (es : List Event)
    (hsent : ∀ p ∈ sent es, p ≠ []) :
    (∀ fillLen, ((init.run side free es).tx.interrupt fillLen).1.length ≤ 1 + fillLen) ∧
      ∀ rooms : List Nat, (∀ r ∈ rooms, 2 < r) →
        (init.run side free es).tx.pending.length ≤ rooms.length →
        ((init.run side free es).run side free (rooms.map .transmit)).tx.pending = [] ∧
          ((init.run side free es).run side free (rooms.map .transmit)).line =
            (init.run side free es).line ++ (init.run side free es).tx.pending := by
  have hinit : init.tx.Valid := by
    constructor
    · intro buf hbuf
      exact absurd hbuf List.not_mem_nil
    · intro buf hbuf
      cases hbuf
  have hvalid : (init.run side free es).tx.Valid := valid_run hinit es hsent
  exact ⟨fun fillLen => hvalid.interrupt_room fillLen,
    fun rooms hrooms hlen => transmit_all rooms _ hvalid hrooms hlen⟩

theorem link_progresses_one :
    (∀ fillLen, ((init.run .myUart (fun _ => true) [.send [0xC0], .transmit 0]).tx.interrupt
      fillLen).1.length ≤ 1 + fillLen) ∧
      ((init.run .myUart (fun _ => true) [.send [0xC0], .transmit 0]).run .myUart (fun _ => true)
        ([3, 3, 3].map .transmit)).tx.pending = [] := by
  have h := link_progresses .myUart (fun _ => true) [.send [0xC0], .transmit 0]
    (by intro p hp; rw [List.mem_singleton.mp hp]; exact List.cons_ne_nil _ _)
  exact ⟨h.1, (h.2 [3, 3, 3] (by decide) (by decide)).1⟩

end Link

end Slip
