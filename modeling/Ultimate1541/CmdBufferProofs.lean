import Mathlib

/-! # The packet buffers of the serial line

    `cmd_buffer.c` keeps the packet buffers of a serial line in four queues.  A buffer leaves
    a queue when a client or the interrupt gets it, and comes back when it is freed, sent or
    received.  Both drivers (`fastuart.cc`, `dma_uart.cc`) clear the line with
    `cmd_buffer_reset`, which fills the free queues with all the buffers, whoever has them.

    Every other step moves one buffer from one place to another (`eachOnce_step`), so the
    buffers are each in one place as long as nobody has one when the queues are filled. -/

namespace CmdBuffer

/-- `NUM_TX_BUFFERS` and `NUM_RX_BUFFERS`, and the places of each queue. -/
def numBuffers : Nat := 12

/-- A buffer; its number tells which of the two kinds it is. -/
inductive Buf where
  | tx (i : Fin numBuffers)
  | rx (i : Fin numBuffers)
  deriving DecidableEq

namespace Buf

/-- `bufnr & IS_RX_BUFFER`. -/
def isRx : Buf → Bool
  | tx _ => false
  | rx _ => true

/-- The buffers of a kind. -/
def all (kind : Bool) : List Buf := (List.finRange numBuffers).map (if kind then rx else tx)

end Buf

/-- `xQueueSend`, also from an interrupt: whether there was a place, and the queue. -/
def xQueueSend (q : List Buf) (b : Buf) : Bool × List Buf :=
  if q.length < numBuffers then (true, q ++ [b]) else (false, q)

/-- `xQueueReceive`, also from an interrupt. -/
def xQueueReceive : List Buf → Option Buf × List Buf
  | [] => (none, [])
  | b :: q => (some b, q)

/-- `command_buf_context_t`. -/
structure Context where
  freeRxQueue : List Buf
  freeTxQueue : List Buf
  receivedQueue : List Buf
  transmitQueue : List Buf

namespace Context

/-- `cmd_buffer_reset`: the queues are emptied, and the free ones filled. -/
def reset (_ : Context) : Context := ⟨Buf.all true, Buf.all false, [], []⟩

/-- `cmd_buffer_free`, and `cmd_buffer_free_isr`. -/
def free (c : Context) (b : Buf) : Context :=
  if b.isRx then { c with freeRxQueue := (xQueueSend c.freeRxQueue b).2 }
  else { c with freeTxQueue := (xQueueSend c.freeTxQueue b).2 }

/-- `cmd_buffer_get`. -/
def get (c : Context) : Option Buf × Context :=
  let r := xQueueReceive c.freeTxQueue
  (r.1, { c with freeTxQueue := r.2 })

/-- `cmd_buffer_transmit`. -/
def transmit (c : Context) (b : Buf) : Bool × Context :=
  let r := xQueueSend c.transmitQueue b
  (r.1, { c with transmitQueue := r.2 })

/-- `cmd_buffer_received`. -/
def received (c : Context) : Option Buf × Context :=
  let r := xQueueReceive c.receivedQueue
  (r.1, { c with receivedQueue := r.2 })

/-- `cmd_buffer_get_tx_isr`. -/
def getTxIsr (c : Context) : Option Buf × Context :=
  let r := xQueueReceive c.transmitQueue
  (r.1, { c with transmitQueue := r.2 })

/-- `cmd_buffer_get_free_isr`. -/
def getFreeIsr (c : Context) : Option Buf × Context :=
  let r := xQueueReceive c.freeRxQueue
  (r.1, { c with freeRxQueue := r.2 })

/-- `cmd_buffer_received_isr`. -/
def receivedIsr (c : Context) (b : Buf) : Bool × Context :=
  let r := xQueueSend c.receivedQueue b
  (r.1, { c with receivedQueue := r.2 })

end Context

/-- The drivers. -/
inductive Driver where
  | fastUart
  | dmaUart
  deriving DecidableEq

/-- The queues, what the interrupt handler has, and what the clients have: `rxHeld` is
    `current_rx_buf` (one buffer at most), or the queue `rx_bufs`. -/
structure State where
  packets : Context
  rxHeld : List Buf
  currentTx : Option Buf
  clients : List Buf

/-- The steps: calls of the clients, the halves of the interrupt handler, and the calls that
    `ClearRxBuffer` consists of. -/
inductive Op where
  | get
  | transmit (b : Buf)
  | free (b : Buf)
  | received
  | txStart
  | txDone
  | rxStart
  | rxDone (awaited : Bool)
  | clearRx
  | clearTx
  | reset

namespace State

/-- After `cmd_buffer_init`. -/
def init : State := ⟨Context.reset ⟨[], [], [], []⟩, [], none, []⟩

/-- A client gets a buffer. -/
def getStep (s : State) (r : Option Buf × Context) : State :=
  match r with
  | (none, c) => { s with packets := c }
  | (some b, c) => { s with packets := c, clients := b :: s.clients }

/-- `TransmitPacket`, by the client that has the buffer: it is freed when there is no place. -/
def transmitStep (s : State) (b : Buf) : State :=
  if b ∈ s.clients then
    let r := s.packets.transmit b
    { s with packets := if r.1 then r.2 else r.2.free b, clients := s.clients.erase b }
  else s

/-- `FreeBuffer`, by the client that has the buffer. -/
def freeStep (s : State) (b : Buf) : State :=
  if b ∈ s.clients then { s with packets := s.packets.free b, clients := s.clients.erase b } else s

/-- The transmit half, without a buffer. -/
def txStart (s : State) : State :=
  match s.currentTx with
  | some _ => s
  | none =>
      let r := s.packets.getTxIsr
      { s with packets := r.2, currentTx := r.1 }

/-- The transmit half, when the buffer has been sent. -/
def txDone (s : State) : State :=
  match s.currentTx with
  | none => s
  | some b => { s with packets := s.packets.free b, currentTx := none }

/-- The receive half needs a buffer: the one driver has one at most, the other one puts it
    into its queue. -/
def rxStart (d : Driver) (s : State) : State :=
  if d = .fastUart ∧ s.rxHeld ≠ [] then s
  else
    match s.packets.getFreeIsr with
    | (none, c) => { s with packets := c }
    | (some b, c) => { s with packets := c, rxHeld := (xQueueSend s.rxHeld b).2 }

/-- The receive half has received a packet.  The one driver does not look whether there was a
    place for it; the callback of the other one can hand it to a client that awaits it. -/
def rxDone (d : Driver) (awaited : Bool) (s : State) : State :=
  match s.rxHeld with
  | [] => s
  | b :: rest =>
      match d with
      | .fastUart => { s with packets := (s.packets.receivedIsr b).2, rxHeld := rest }
      | .dmaUart =>
          if awaited then { s with rxHeld := rest, clients := b :: s.clients }
          else
            let r := s.packets.receivedIsr b
            { s with packets := if r.1 then r.2 else r.2.free b, rxHeld := rest }

/-- `FastUART::ClearRxBuffer` frees the buffer that is received into; interrupts can come
    after it. -/
def clearRx (d : Driver) (s : State) : State :=
  match d, s.rxHeld with
  | .fastUart, b :: rest => { s with packets := s.packets.free b, rxHeld := rest }
  | _, _ => s

/-- It also frees the buffer that is sent, which `DmaUART::ClearRxBuffer` does not. -/
def clearTx (d : Driver) (s : State) : State := if d = .fastUart then s.txDone else s

/-- In the end both fill the queues; with the line in reset, `DmaUART::ClearRxBuffer` has
    emptied `rx_bufs` before. -/
def reset (d : Driver) (s : State) : State :=
  { s with packets := s.packets.reset, rxHeld := if d = .dmaUart then [] else s.rxHeld }

def step (d : Driver) (s : State) : Op → State
  | .get => s.getStep s.packets.get
  | .transmit b => s.transmitStep b
  | .free b => s.freeStep b
  | .received => s.getStep s.packets.received
  | .txStart => s.txStart
  | .txDone => s.txDone
  | .rxStart => s.rxStart d
  | .rxDone awaited => s.rxDone d awaited
  | .clearRx => s.clearRx d
  | .clearTx => s.clearTx d
  | .reset => s.reset d

def run (d : Driver) (ops : List Op) : State := ops.foldl (step d) init

/-! ## Places -/

/-- The buffers in the places: the queues, the handler and the clients. -/
def places (s : State) : List Buf :=
  s.packets.freeRxQueue ++ s.packets.freeTxQueue ++ s.packets.receivedQueue ++
    s.packets.transmitQueue ++ s.rxHeld ++ s.currentTx.toList ++ s.clients

/-- Each buffer is in one place. -/
def EachOnce (s : State) : Prop := ∀ b, s.places.count b = 1

/-- Neither a client nor the handler has a buffer, but for those that `ClearRxBuffer` takes
    from the handler by itself. -/
def Unheld (d : Driver) (s : State) : Prop :=
  s.clients = [] ∧ s.currentTx = none ∧ (d = .fastUart → s.rxHeld = [])

/-- The queues hold buffers of their kind. -/
structure Typed (s : State) : Prop where
  freeRx : ∀ b ∈ s.packets.freeRxQueue, b.isRx = true
  freeTx : ∀ b ∈ s.packets.freeTxQueue, b.isRx = false
  received : ∀ b ∈ s.packets.receivedQueue, b.isRx = true
  rxHeld : ∀ b ∈ s.rxHeld, b.isRx = true

end State

theorem Buf.mem_all {b : Buf} {kind : Bool} (h : b.isRx = kind) : b ∈ Buf.all kind := by
  cases b with
  | tx i =>
      cases h
      exact List.mem_map_of_mem (List.mem_finRange i)
  | rx i =>
      cases h
      exact List.mem_map_of_mem (List.mem_finRange i)

theorem Buf.isRx_of_mem_all {b : Buf} {kind : Bool} (h : b ∈ Buf.all kind) : b.isRx = kind := by
  obtain ⟨i, -, rfl⟩ := List.mem_map.mp h
  cases kind <;> rfl

theorem count_cons_eq (x b : Buf) (q : List Buf) : (b :: q).count x = [b].count x + q.count x := by
  rw [← List.singleton_append, List.count_append]

/-- A queue of a kind has a place for a buffer of the kind that is not in it. -/
theorem room {kind : Bool} {q : List Buf} {b : Buf} (hkind : ∀ x ∈ q, x.isRx = kind)
    (hb : b.isRx = kind) (honce : ∀ x, (b :: q).count x ≤ 1) : q.length < numBuffers := by
  have hnodup : (b :: q).Nodup := List.nodup_iff_count_le_one.mpr honce
  have hsub : b :: q ⊆ Buf.all kind := List.cons_subset.mpr
    ⟨Buf.mem_all hb, fun x hx => Buf.mem_all (hkind x hx)⟩
  have hlen := (hnodup.subperm hsub).length_le
  have hall : (Buf.all kind).length = numBuffers := by
    rw [Buf.all, List.length_map, List.length_finRange]
  rw [List.length_cons, hall] at hlen
  exact hlen

theorem xQueueSend_room {q : List Buf} (b : Buf) (h : q.length < numBuffers) :
    xQueueSend q b = (true, q ++ [b]) := if_pos h

theorem mem_xQueueSend {q : List Buf} {b x : Buf} (h : x ∈ (xQueueSend q b).2) : x ∈ q ∨ x = b := by
  rw [xQueueSend] at h
  split at h
  · rcases List.mem_append.mp h with hq | hb
    · exact Or.inl hq
    · exact Or.inr (List.mem_singleton.mp hb)
  · exact Or.inl h

namespace State

variable {d : Driver} {s : State} {b : Buf}

/-! ## Kinds -/

theorem typed_init : init.Typed :=
  ⟨fun _ h => Buf.isRx_of_mem_all h, fun _ h => Buf.isRx_of_mem_all h, nofun, nofun⟩

/-- A freed buffer goes to the queue of its kind. -/
theorem Typed.free (h : s.Typed) (b : Buf) (tx : Option Buf) (clients : List Buf) :
    Typed ⟨s.packets.free b, s.rxHeld, tx, clients⟩ := by
  rw [Context.free]
  split
  next hb =>
    exact ⟨fun x hx => (mem_xQueueSend hx).elim (h.freeRx x) fun he => he ▸ hb, h.freeTx, h.received,
      h.rxHeld⟩
  next hb =>
    exact ⟨h.freeRx, fun x hx => (mem_xQueueSend hx).elim (h.freeTx x) fun he =>
      he ▸ Bool.eq_false_iff.mpr hb, h.received, h.rxHeld⟩

theorem Typed.mono (h : s.Typed) {t : State} (hrx : t.packets.freeRxQueue ⊆ s.packets.freeRxQueue)
    (htx : t.packets.freeTxQueue ⊆ s.packets.freeTxQueue)
    (hreceived : t.packets.receivedQueue ⊆ s.packets.receivedQueue) (hheld : t.rxHeld ⊆ s.rxHeld) :
    t.Typed :=
  ⟨fun x hx => h.freeRx x (hrx hx), fun x hx => h.freeTx x (htx hx),
    fun x hx => h.received x (hreceived hx), fun x hx => h.rxHeld x (hheld hx)⟩

theorem Typed.getStep_freeTx (h : s.Typed) : Typed (s.getStep s.packets.get) := by
  rcases s with ⟨⟨freeRx, _ | ⟨b, freeTx⟩, received, transmit⟩, held, current, clients⟩
  · exact h
  · exact h.mono (fun _ => id) (List.subset_cons_self b freeTx) (fun _ => id) fun _ => id

theorem Typed.getStep_received (h : s.Typed) : Typed (s.getStep s.packets.received) := by
  rcases s with ⟨⟨freeRx, freeTx, _ | ⟨b, received⟩, transmit⟩, held, current, clients⟩
  · exact h
  · exact h.mono (fun _ => id) (fun _ => id) (List.subset_cons_self b received) fun _ => id

theorem Typed.transmitStep (h : s.Typed) (b : Buf) : Typed (s.transmitStep b) := by
  rw [State.transmitStep]
  split
  · dsimp only
    split
    · exact h.mono (fun _ => id) (fun _ => id) (fun _ => id) fun _ => id
    · have hsame : (s.packets.transmit b).2.freeRxQueue = s.packets.freeRxQueue := rfl
      exact (h.mono (t := ⟨(s.packets.transmit b).2, s.rxHeld, s.currentTx, s.clients⟩) (fun _ => id)
        (fun _ => id) (fun _ => id) fun _ => id).free b _ _
  · exact h

theorem Typed.freeStep (h : s.Typed) (b : Buf) : Typed (s.freeStep b) := by
  rw [State.freeStep]
  split
  · exact h.free b _ _
  · exact h

theorem Typed.txStart (h : s.Typed) : s.txStart.Typed := by
  rw [State.txStart]
  split
  · exact h
  · exact h.mono (fun _ => id) (fun _ => id) (fun _ => id) fun _ => id

theorem Typed.txDone (h : s.Typed) : s.txDone.Typed := by
  rw [State.txDone]
  split
  · exact h
  · exact h.free _ _ _

theorem Typed.rxStart (h : s.Typed) (d : Driver) : (s.rxStart d).Typed := by
  rw [State.rxStart]
  split
  · exact h
  · rcases s with ⟨⟨_ | ⟨b, freeRx⟩, freeTx, received, transmit⟩, held, current, clients⟩
    · exact h
    · refine ⟨fun x hx => h.freeRx x (List.mem_cons_of_mem b hx), h.freeTx, h.received, fun x hx => ?_⟩
      rcases mem_xQueueSend hx with hx | rfl
      · exact h.rxHeld x hx
      · exact h.freeRx x (List.mem_cons_self ..)

/-- A buffer that the receive half has goes to the queue of what is received. -/
theorem Typed.receivedIsr (h : s.Typed) {rest : List Buf} (hheld : s.rxHeld = b :: rest) :
    Typed ⟨(s.packets.receivedIsr b).2, rest, s.currentTx, s.clients⟩ := by
  refine ⟨h.freeRx, h.freeTx, fun x hx => ?_, fun x hx => h.rxHeld x ?_⟩
  · rcases mem_xQueueSend hx with hx | rfl
    · exact h.received x hx
    · exact h.rxHeld x (hheld ▸ List.mem_cons_self ..)
  · rw [hheld]
    exact List.mem_cons_of_mem b hx

theorem Typed.rxDone (h : s.Typed) (d : Driver) (awaited : Bool) : (s.rxDone d awaited).Typed := by
  rw [State.rxDone]
  split
  · exact h
  next b rest hheld =>
    have hreceived := h.receivedIsr hheld
    cases d with
    | fastUart => exact hreceived
    | dmaUart =>
        dsimp only
        split
        · exact h.mono (fun _ => id) (fun _ => id) (fun _ => id)
            (hheld ▸ List.subset_cons_self b rest)
        · split
          · exact hreceived
          · exact hreceived.free b _ _

theorem Typed.clearRx (h : s.Typed) (d : Driver) : (s.clearRx d).Typed := by
  rcases s with ⟨packets, _ | ⟨b, rest⟩, current, clients⟩
  · cases d <;> exact h
  · cases d with
    | dmaUart => exact h
    | fastUart =>
        exact (h.mono (t := ⟨packets, rest, current, clients⟩) (fun _ => id) (fun _ => id)
          (fun _ => id) (List.subset_cons_self b rest)).free b _ _

theorem Typed.clearTx (h : s.Typed) (d : Driver) : (s.clearTx d).Typed := by
  rw [State.clearTx]
  split
  · exact h.txDone
  · exact h

theorem Typed.reset (h : s.Typed) (d : Driver) : (s.reset d).Typed := by
  refine ⟨fun _ hx => Buf.isRx_of_mem_all hx, fun _ hx => Buf.isRx_of_mem_all hx, nofun, ?_⟩
  rw [State.reset]
  dsimp only
  split
  · exact nofun
  · exact h.rxHeld

theorem Typed.step (h : s.Typed) (d : Driver) (op : Op) : (s.step d op).Typed := by
  cases op with
  | get => exact h.getStep_freeTx
  | transmit b => exact h.transmitStep b
  | free b => exact h.freeStep b
  | received => exact h.getStep_received
  | txStart => exact h.txStart
  | txDone => exact h.txDone
  | rxStart => exact h.rxStart d
  | rxDone awaited => exact h.rxDone d awaited
  | clearRx => exact h.clearRx d
  | clearTx => exact h.clearTx d
  | reset => exact h.reset d

/-! ## Places, step by step -/

theorem count_places (x : Buf) (s : State) :
    s.places.count x = s.packets.freeRxQueue.count x + s.packets.freeTxQueue.count x +
      s.packets.receivedQueue.count x + s.packets.transmitQueue.count x + s.rxHeld.count x +
      s.currentTx.toList.count x + s.clients.count x := by
  rw [places]
  simp only [List.count_append]

/-- A buffer that is in no place is freed. -/
theorem count_free (h : s.Typed) (b : Buf) (honce : ∀ x, s.places.count x + [b].count x ≤ 1) (x : Buf) :
    (State.places ⟨s.packets.free b, s.rxHeld, s.currentTx, s.clients⟩).count x
      = s.places.count x + [b].count x := by
  simp only [count_places] at honce
  rw [Context.free]
  split
  next hb =>
    have hroom := room (b := b) h.freeRx hb fun y => by
      have hy := honce y
      rw [count_cons_eq]
      omega
    rw [xQueueSend_room b hroom, count_places, count_places]
    dsimp only
    rw [List.count_append]
    omega
  next hb =>
    have hroom := room (b := b) h.freeTx (Bool.eq_false_iff.mpr hb) fun y => by
      have hy := honce y
      rw [count_cons_eq]
      omega
    rw [xQueueSend_room b hroom, count_places, count_places]
    dsimp only
    rw [List.count_append]
    omega

/-- A buffer that is in no place is queued as received. -/
theorem count_receivedIsr (h : s.Typed) {b : Buf} (hb : b.isRx = true)
    (honce : ∀ x, s.places.count x + [b].count x ≤ 1) :
    (s.packets.receivedIsr b).1 = true ∧ ∀ x,
      (State.places ⟨(s.packets.receivedIsr b).2, s.rxHeld, s.currentTx, s.clients⟩).count x
        = s.places.count x + [b].count x := by
  simp only [count_places] at honce
  have hroom := room (b := b) h.received hb fun y => by
    have hy := honce y
    rw [count_cons_eq]
    omega
  rw [Context.receivedIsr, xQueueSend_room b hroom]
  refine ⟨rfl, fun x => ?_⟩
  rw [count_places, count_places]
  dsimp only
  rw [List.count_append]
  omega

/-- Without the buffer that a client gives up, the other places stay. -/
theorem count_erase (hb : b ∈ s.clients) (x : Buf) :
    (State.places ⟨s.packets, s.rxHeld, s.currentTx, s.clients.erase b⟩).count x + [b].count x
      = s.places.count x := by
  have hclients := (List.perm_cons_erase hb).count_eq x
  rw [count_cons_eq] at hclients
  rw [count_places, count_places]
  dsimp only
  omega

theorem EachOnce.freeStep (h : s.EachOnce) (ht : s.Typed) (b : Buf) : (s.freeStep b).EachOnce := by
  rw [State.freeStep]
  split
  next hb =>
    intro x
    exact ((count_free (s := ⟨s.packets, s.rxHeld, s.currentTx, s.clients.erase b⟩)
      (ht.mono (fun _ => id) (fun _ => id) (fun _ => id) fun _ => id) b
      (fun y => Nat.le_of_eq ((count_erase hb y).trans (h y))) x).trans (count_erase hb x)).trans (h x)
  · exact h

theorem EachOnce.getStep_freeTx (h : s.EachOnce) : EachOnce (s.getStep s.packets.get) := by
  rcases s with ⟨⟨freeRx, _ | ⟨b, freeTx⟩, received, transmit⟩, held, current, clients⟩
  · exact h
  · intro x
    have hx := h x
    rw [count_places] at hx ⊢
    dsimp only [getStep, Context.get, xQueueReceive] at hx ⊢
    rw [count_cons_eq] at hx ⊢
    omega

theorem EachOnce.getStep_received (h : s.EachOnce) : EachOnce (s.getStep s.packets.received) := by
  rcases s with ⟨⟨freeRx, freeTx, _ | ⟨b, received⟩, transmit⟩, held, current, clients⟩
  · exact h
  · intro x
    have hx := h x
    rw [count_places] at hx ⊢
    dsimp only [getStep, Context.received, xQueueReceive] at hx ⊢
    rw [count_cons_eq] at hx ⊢
    omega

theorem EachOnce.transmitStep (h : s.EachOnce) (ht : s.Typed) (b : Buf) : (s.transmitStep b).EachOnce := by
  by_cases hb : b ∈ s.clients
  · by_cases hroom : s.packets.transmitQueue.length < numBuffers
    · intro x
      have hx := (count_erase hb x).trans (h x)
      rw [count_places] at hx ⊢
      rw [State.transmitStep, if_pos hb, Context.transmit, xQueueSend_room b hroom]
      dsimp only at hx ⊢
      rw [if_pos rfl]
      dsimp only
      rw [List.count_append]
      omega
    · -- There is no place, so the buffer is freed.
      have hfree : s.transmitStep b = s.freeStep b := by
        rw [State.transmitStep, State.freeStep, if_pos hb, if_pos hb, Context.transmit, xQueueSend,
          if_neg hroom]
        rfl
      rw [hfree]
      exact h.freeStep ht b
  · rw [State.transmitStep, if_neg hb]
    exact h

theorem EachOnce.txStart (h : s.EachOnce) : s.txStart.EachOnce := by
  rcases s with ⟨⟨freeRx, freeTx, received, _ | ⟨b, transmit⟩⟩, held, _ | current, clients⟩
  · exact h
  · exact h
  · intro x
    have hx := h x
    rw [count_places] at hx ⊢
    dsimp only [State.txStart, Context.getTxIsr, xQueueReceive, Option.toList] at hx ⊢
    rw [count_cons_eq] at hx
    rw [List.count_nil] at hx
    omega
  · exact h

theorem EachOnce.txDone (h : s.EachOnce) (ht : s.Typed) : s.txDone.EachOnce := by
  rcases s with ⟨packets, held, _ | b, clients⟩
  · exact h
  · have hmove : ∀ x, (State.places ⟨packets, held, none, clients⟩).count x + [b].count x = 1 := fun x => by
      have hx := h x
      rw [count_places] at hx ⊢
      dsimp only [Option.toList] at hx ⊢
      rw [List.count_nil]
      omega
    intro x
    exact (count_free (s := ⟨packets, held, none, clients⟩)
      (ht.mono (fun _ => id) (fun _ => id) (fun _ => id) fun _ => id) b
      (fun y => Nat.le_of_eq (hmove y)) x).trans (hmove x)

theorem EachOnce.rxStart (h : s.EachOnce) (ht : s.Typed) (d : Driver) : (s.rxStart d).EachOnce := by
  rw [State.rxStart]
  split
  · exact h
  · rcases s with ⟨⟨_ | ⟨b, freeRx⟩, freeTx, received, transmit⟩, held, current, clients⟩
    · exact h
    · have hroom : held.length < numBuffers :=
        room (b := b) ht.rxHeld (ht.freeRx b (List.mem_cons_self ..)) fun x => by
          have hx := h x
          rw [count_places] at hx
          dsimp only at hx
          rw [count_cons_eq] at hx ⊢
          omega
      intro x
      have hx := h x
      rw [count_places] at hx ⊢
      dsimp only [Context.getFreeIsr, xQueueReceive] at hx ⊢
      rw [xQueueSend_room b hroom, List.count_append]
      rw [count_cons_eq] at hx
      omega

theorem EachOnce.rxDone (h : s.EachOnce) (ht : s.Typed) (d : Driver) (awaited : Bool) :
    (s.rxDone d awaited).EachOnce := by
  rcases s with ⟨packets, _ | ⟨b, rest⟩, current, clients⟩
  · exact h
  · have hmove : ∀ x, (State.places ⟨packets, rest, current, clients⟩).count x + [b].count x = 1 :=
      fun x => by
        have hx := h x
        rw [count_places] at hx ⊢
        dsimp only at hx ⊢
        rw [count_cons_eq] at hx
        omega
    obtain ⟨hplace, hcount⟩ := count_receivedIsr (s := ⟨packets, rest, current, clients⟩)
      (ht.mono (fun _ => id) (fun _ => id) (fun _ => id) (List.subset_cons_self b rest))
      (ht.rxHeld b (List.mem_cons_self ..)) fun x => Nat.le_of_eq (hmove x)
    rw [State.rxDone]
    cases d with
    | fastUart => exact fun x => (hcount x).trans (hmove x)
    | dmaUart =>
        dsimp only
        split
        · intro x
          have hx := hmove x
          rw [count_places] at hx ⊢
          dsimp only at hx ⊢
          rw [count_cons_eq]
          omega
        · exact fun x => (hcount x).trans (hmove x)

theorem EachOnce.clearRx (h : s.EachOnce) (ht : s.Typed) (d : Driver) : (s.clearRx d).EachOnce := by
  rcases s with ⟨packets, _ | ⟨b, rest⟩, current, clients⟩
  · cases d <;> exact h
  · cases d with
    | dmaUart => exact h
    | fastUart =>
        have hmove : ∀ x,
            (State.places ⟨packets, rest, current, clients⟩).count x + [b].count x = 1 := fun x => by
          have hx := h x
          rw [count_places] at hx ⊢
          dsimp only at hx ⊢
          rw [count_cons_eq] at hx
          omega
        intro x
        exact (count_free (s := ⟨packets, rest, current, clients⟩)
          (ht.mono (fun _ => id) (fun _ => id) (fun _ => id) (List.subset_cons_self b rest)) b
          (fun y => Nat.le_of_eq (hmove y)) x).trans (hmove x)

theorem EachOnce.clearTx (h : s.EachOnce) (ht : s.Typed) (d : Driver) : (s.clearTx d).EachOnce := by
  rw [State.clearTx]
  split
  · exact h.txDone ht
  · exact h

/-- The filled queues hold each buffer once. -/
theorem count_reset (b : Buf) : (Buf.all true).count b + (Buf.all false).count b = 1 := by
  cases b with
  | tx i =>
      have hrx : (Buf.all true).count (.tx i) = 0 := List.count_eq_zero.mpr fun h =>
        nomatch Buf.isRx_of_mem_all h
      have htx : (Buf.all false).count (.tx i) = (List.finRange numBuffers).count i :=
        List.count_map_of_injective _ _ (fun _ _ => Buf.tx.inj) i
      rw [hrx, htx, List.count_eq_one_of_mem (List.nodup_finRange _) (List.mem_finRange i)]
  | rx i =>
      have htx : (Buf.all false).count (.rx i) = 0 := List.count_eq_zero.mpr fun h =>
        nomatch Buf.isRx_of_mem_all h
      have hrx : (Buf.all true).count (.rx i) = (List.finRange numBuffers).count i :=
        List.count_map_of_injective _ _ (fun _ _ => Buf.rx.inj) i
      rw [hrx, htx, List.count_eq_one_of_mem (List.nodup_finRange _) (List.mem_finRange i)]

/-- After a reset each buffer is in one place if and only if nobody had one. -/
theorem eachOnce_reset (d : Driver) (s : State) : (s.reset d).EachOnce ↔ s.Unheld d := by
  have hcount : ∀ x, (s.reset d).places.count x = 1 +
      ((if d = .dmaUart then [] else s.rxHeld).count x + s.currentTx.toList.count x
        + s.clients.count x) := fun x => by
    have hall := count_reset x
    rw [count_places]
    dsimp only [State.reset, Context.reset]
    rw [List.count_nil]
    omega
  rcases s with ⟨packets, held, current, clients⟩
  constructor
  · intro h
    have hzero : ∀ x, (if d = .dmaUart then [] else held).count x + current.toList.count x
        + clients.count x = 0 := fun x => by
      have hx := h x
      have hc := hcount x
      dsimp only at hc
      omega
    have hnil : ∀ q : List Buf, (∀ x, q.count x = 0) → q = [] := fun q hq =>
      List.eq_nil_iff_forall_not_mem.mpr fun x => List.count_eq_zero.mp (hq x)
    refine ⟨hnil clients fun x => Nat.eq_zero_of_add_eq_zero_left (hzero x), ?_, ?_⟩
    · have htx := hnil current.toList fun x =>
        Nat.eq_zero_of_add_eq_zero_left (Nat.eq_zero_of_add_eq_zero_right (hzero x))
      exact Option.toList_eq_nil_iff.mp htx
    · rintro rfl
      exact hnil held fun x =>
        Nat.eq_zero_of_add_eq_zero_right (Nat.eq_zero_of_add_eq_zero_right (hzero x))
  · rintro ⟨hclients, hcurrent, hheld⟩ x
    dsimp only at hclients hcurrent hheld
    rw [hcount x, hclients, hcurrent]
    cases d with
    | dmaUart => rfl
    | fastUart => rw [hheld rfl]; rfl

/-- A step leaves each buffer in one place, unless it fills the queues while somebody has a
    buffer. -/
theorem eachOnce_step (h : s.EachOnce) (ht : s.Typed) (d : Driver) (op : Op) :
    (s.step d op).EachOnce ↔ (op = .reset → s.Unheld d) := by
  cases op with
  | get => exact ⟨fun _ => nofun, fun _ => h.getStep_freeTx⟩
  | transmit b => exact ⟨fun _ => nofun, fun _ => h.transmitStep ht b⟩
  | free b => exact ⟨fun _ => nofun, fun _ => h.freeStep ht b⟩
  | received => exact ⟨fun _ => nofun, fun _ => h.getStep_received⟩
  | txStart => exact ⟨fun _ => nofun, fun _ => h.txStart⟩
  | txDone => exact ⟨fun _ => nofun, fun _ => h.txDone ht⟩
  | rxStart => exact ⟨fun _ => nofun, fun _ => h.rxStart ht d⟩
  | rxDone awaited => exact ⟨fun _ => nofun, fun _ => h.rxDone ht d awaited⟩
  | clearRx => exact ⟨fun _ => nofun, fun _ => h.clearRx ht d⟩
  | clearTx => exact ⟨fun _ => nofun, fun _ => h.clearTx ht d⟩
  | reset => exact (eachOnce_reset d s).trans ⟨fun hun _ => hun, fun hun => hun rfl⟩

/-! ## Runs -/

theorem eachOnce_init : init.EachOnce := (eachOnce_reset .dmaUart ⟨⟨[], [], [], []⟩, [], none, []⟩).mpr
  ⟨rfl, rfl, nofun⟩

theorem run_concat (d : Driver) (ops : List Op) (op : Op) :
    run d (ops ++ [op]) = (run d ops).step d op := by
  rw [run, List.foldl_append]
  rfl

theorem typed_run (d : Driver) (ops : List Op) : (run d ops).Typed := by
  induction ops using List.reverseRecOn with
  | nil => exact typed_init
  | append_singleton ops op ih =>
      rw [run_concat]
      exact ih.step d op

end State

end CmdBuffer
