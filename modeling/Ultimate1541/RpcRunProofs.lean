import Ultimate1541.RpcClearProofs
import Ultimate1541.RpcHoldProofs

/-! # Dispatcher and connector

    The dispatcher handles one packet after the other; an entry it queues is served by the
    connector in its own time, and every call of either thread is answered by the module.
    A run is a list of events, one for each packet, access, call and entry taken.

    The buffer goes with the thread or entry that has it: `HandedOnce` says that nobody
    reaches for one that was passed on or handed back, and that each packet's buffer is
    handed back once.  `Alike` holds of two runs that differ only in what older packets
    left behind. -/

namespace RpcDispatch

open Interaction Interaction.Prog

/-! ## The buffer itself -/

namespace Buf

/-- A packet has come into a buffer with older bytes in it. -/
def holding (p : Packet) (stale : Nat → UInt8) : Buf :=
  ⟨fun i => (p.bytes[i]?).getD (stale i), p.bytes.length⟩

/-- Bytes of the buffer, one behind the other. -/
def bytes (b : Buf) (off : Nat) : Nat → List UInt8
  | 0 => []
  | n + 1 => b.data off :: b.bytes (off + 1) n

/-- The bytes up to the first zero, or to the end of the buffer. -/
def string (b : Buf) : Nat → Nat → List UInt8
  | 0, _ => []
  | n + 1, off => if b.data off = 0 then [] else b.data off :: b.string n (off + 1)

/-- What an access or call is answered. -/
def answer (b : Buf) (module : (o : Op) → Resp o) : (o : Op) → Resp o
  | .load i => b.data i
  | .getSize => b.size
  | o => module o

/-- What it changes. -/
def effect (b : Buf) : Op → Buf
  | .store i v => ⟨fun j => if j = i then v else b.data j, b.size⟩
  | .setSize n => ⟨b.data, n⟩
  | _ => b

end Buf

/-- What leaves the module's memory, and what it is asked. -/
inductive Output where
  | transmitted (bytes : List UInt8)
  | freed
  | network (bytes : List UInt8)
  | gave (use : StringUse) (string : List UInt8)
  | called (c : Call)

/-- What an access or call shows of the buffer. -/
def Buf.shows (b : Buf) : Op → List Output
  | .transmit => [.transmitted (b.bytes 0 b.size)]
  | .free => [.freed]
  | .netTransmit off length => [.network (b.bytes off length)]
  | .giveString use off => [.gave use (b.string (cmdBufSize - off) off)]
  | .call c => [.called c]
  | _ => []

/-! ## The threads -/

/-- A thread, or an entry that waits for one: the packet's number, what is left to do,
    and its buffer. -/
structure Thread where
  packet : Nat
  prog : Task Unit
  buf : Buf

/-- The dispatcher, the queue and the connector; and the packets received, those whose
    buffer was passed to the connector, those whose buffer was handed back, and what was
    shown. -/
structure Sys where
  packets : List Packet
  dispatcher : Option Thread
  queue : List Thread
  connector : Option Thread
  passed : List Nat
  handed : List Nat
  out : List (Nat × Output)

namespace Sys

/-- Nothing has come in. -/
def init : Sys := ⟨[], none, [], none, [], [], []⟩

/-- What an access or call of packet `n` and its answer mean for the others. -/
def note (s : Sys) (n : Nat) (b : Buf) : (o : Op) → Resp o → Sys
  | .transmit, _ | .free, _ => { s with handed := s.handed ++ [n] }
  | .send e, true =>
      { s with
        queue := s.queue ++ [⟨n, serve e, b⟩]
        passed := if e.usesBuffer then s.passed ++ [n] else s.passed }
  | _, _ => s

/-- The same with what it shows. -/
def log (s : Sys) (n : Nat) (b : Buf) (o : Op) (r : Resp o) : Sys :=
  { s.note n b o r with out := s.out ++ (b.shows o).map (n, ·) }

end Sys

/-- What happens. -/
inductive Event where
  | receive (p : Packet) (stale : Nat → UInt8)
  | dispatcher (module : (o : Op) → Resp o)
  | take
  | connector (module : (o : Op) → Resp o)

/-- Whether a thread has something left to do. -/
def Thread.Busy : Option Thread → Bool
  | some ⟨_, .call _ _, _⟩ => true
  | _ => false

/-- One event. -/
def step (s : Sys) : Event → Sys
  | .receive p stale =>
      if Thread.Busy s.dispatcher then s
      else
        { s with
          packets := s.packets ++ [p]
          dispatcher := some ⟨s.packets.length, dispatch, .holding p stale⟩ }
  | .dispatcher module =>
      match s.dispatcher with
      | some ⟨n, .call o k, b⟩ =>
          { s.log n b o (b.answer module o) with
            dispatcher := some ⟨n, k (b.answer module o), b.effect o⟩ }
      | _ => s
  | .take =>
      if Thread.Busy s.connector then s
      else
        match s.queue with
        | [] => s
        | t :: rest => { s with connector := some t, queue := rest }
  | .connector module =>
      match s.connector with
      | some ⟨n, .call o k, b⟩ =>
          { s.log n b o (b.answer module o) with
            connector := some ⟨n, k (b.answer module o), b.effect o⟩ }
      | _ => s

/-- A run. -/
def run (s : Sys) (es : List Event) : Sys := es.foldl step s

/-! ## Each buffer is handed back once -/

/-- A use of the buffer: an access, its handing back, or passing it on. -/
def Op.Uses : Op → Prop
  | .call _ => False
  | _ => True

/-- What holds of the buffers in every state. -/
structure HandedOnce (s : Sys) : Prop where
  once : s.handed.Nodup
  dispatcher : ∀ n o k b, s.dispatcher = some ⟨n, .call o k, b⟩ → o.Uses →
    n ∉ s.handed ∧ n ∉ s.passed
  connector : ∀ n o k b, s.connector = some ⟨n, .call o k, b⟩ → o.Uses →
    n ∉ s.handed ∧ n ∈ s.passed
  complete : ∀ n < s.packets.length, n ∈ s.handed ∨
    (∃ o k b, s.dispatcher = some ⟨n, .call o k, b⟩) ∨ (∃ t ∈ s.queue, t.packet = n) ∨
      ∃ o k b, s.connector = some ⟨n, .call o k, b⟩

/-- The threads on the connector's side. -/
def Sys.behind (s : Sys) : List Thread := s.connector.toList ++ s.queue

/-- A thread on the dispatcher's side, as its watcher has it. -/
structure InFront (s : Sys) (t : Thread) (h : Hold) : Prop where
  handsOn : HandsOn t.prog h
  held : h.held = true ↔ t.packet ∉ s.handed ∧ t.packet ∉ s.passed
  sent : h.sent = false → t.packet ∉ s.passed ∧ ∀ u ∈ s.behind, u.packet ≠ t.packet

/-- A thread on the connector's side, as its watcher has it. -/
structure Behind (s : Sys) (t : Thread) (h : Hold) : Prop where
  handsOn : HandsOn t.prog h
  held : h.held = true ↔ t.packet ∉ s.handed ∧ t.packet ∈ s.passed
  sent : h.sent = true

/-- The invariant. -/
structure Owned (s : Sys) : Prop where
  once : s.handed.Nodup
  known : ∀ n, n ∈ s.handed ∨ n ∈ s.passed → n < s.packets.length
  front : ∀ t, s.dispatcher = some t → t.packet + 1 = s.packets.length ∧ ∃ h, InFront s t h
  apart : (s.behind.map Thread.packet).Nodup
  behind : ∀ t ∈ s.behind, t.packet < s.packets.length ∧ ∃ h, Behind s t h
  complete : ∀ n < s.packets.length, n ∈ s.handed ∨
    (n ∉ s.passed ∧ ∃ t, s.dispatcher = some t ∧ t.packet = n) ∨
      (n ∈ s.passed ∧ ∃ t ∈ s.behind, t.packet = n)

/-- A thread that has done all it had to. -/
theorem HandsOn.done {t : Thread} {h : Hold} (hbusy : Thread.Busy (some t) = false)
    (hon : HandsOn t.prog h) : h.held = false := by
  obtain ⟨n, q, b⟩ := t
  cases q with
  | ret u => exact hon
  | call o k => simp [Thread.Busy] at hbusy

theorem busy_iff {o : Option Thread} :
    Thread.Busy o = true ↔ ∃ n op k b, o = some ⟨n, .call op k, b⟩ := by
  rcases o with _ | ⟨n, q, b⟩
  · simp [Thread.Busy]
  · cases q <;> simp [Thread.Busy]

theorem Owned.handedOnce {s : Sys} (h : Owned s) : HandedOnce s where
  once := h.once
  dispatcher := by
    intro n o k b hd ho
    obtain ⟨-, st, hfront⟩ := h.front _ hd
    refine hfront.held.mp ?_
    have hok := hfront.handsOn.1
    cases o with
    | call c => exact ho.elim
    | send e => exact hok.1
    | _ => exact hok
  connector := by
    intro n o k b hc ho
    have hmem : (⟨n, .call o k, b⟩ : Thread) ∈ s.behind := List.mem_append_left _ (by simp [hc])
    obtain ⟨-, st, hbehind⟩ := h.behind _ hmem
    refine hbehind.held.mp ?_
    have hok := hbehind.handsOn.1
    cases o with
    | call c => exact ho.elim
    | send e => exact hok.1
    | _ => exact hok
  complete := by
    intro n hn
    rcases h.complete n hn with hhanded | ⟨hnot, t, hd, rfl⟩ | ⟨hpassed, t, ht, rfl⟩
    · exact .inl hhanded
    · by_cases hhanded : t.packet ∈ s.handed
      · exact .inl hhanded
      · obtain ⟨-, st, hfront⟩ := h.front _ hd
        have hheld := hfront.held.mpr ⟨hhanded, hnot⟩
        by_cases hbusy : Thread.Busy (some t) = true
        · obtain ⟨n, o, k, b, heq⟩ := busy_iff.mp hbusy
          cases heq
          exact .inr (.inl ⟨o, k, b, hd⟩)
        · have hdone := HandsOn.done (by simpa using hbusy) hfront.handsOn
          exact absurd (hheld.symm.trans hdone) (by simp)
    · by_cases hhanded : t.packet ∈ s.handed
      · exact .inl hhanded
      · obtain ⟨-, st, hbehind⟩ := h.behind _ ht
        have hheld := hbehind.held.mpr ⟨hhanded, hpassed⟩
        rcases List.mem_append.mp ht with hc | hq
        · have hcon : s.connector = some t := by simpa using hc
          by_cases hbusy : Thread.Busy (some t) = true
          · obtain ⟨n, o, k, b, heq⟩ := busy_iff.mp hbusy
            cases heq
            exact .inr (.inr (.inr ⟨o, k, b, hcon⟩))
          · have hdone := HandsOn.done (by simpa using hbusy) hbehind.handsOn
            exact absurd (hheld.symm.trans hdone) (by simp)
        · exact .inr (.inr (.inl ⟨t, hq, rfl⟩))

/-! ### What one event keeps -/

section Steps

variable {s : Sys} {n : Nat} {q q' : Task Unit} {b b' : Buf} {out : List (Nat × Output)}

theorem Owned.receive (h : Owned s) (hidle : Thread.Busy s.dispatcher = false) (p : Packet) (b : Buf) :
    Owned { s with
      packets := s.packets ++ [p]
      dispatcher := some ⟨s.packets.length, dispatch, b⟩ } where
  once := h.once
  known := fun n hn => by
    have hlt := h.known n hn
    simp only [List.length_append, List.length_cons, List.length_nil]
    omega
  front := by
    intro t ht
    cases ht
    refine ⟨by simp, .fresh, ?_⟩
    have hnew : ∀ {l : List Nat}, (∀ n ∈ l, n < s.packets.length) → s.packets.length ∉ l :=
      fun hl hmem => Nat.lt_irrefl _ (hl _ hmem)
    have hhanded := hnew fun n hn => h.known n (.inl hn)
    have hpassed := hnew fun n hn => h.known n (.inr hn)
    refine ⟨handsOn_dispatch, iff_of_true rfl ⟨hhanded, hpassed⟩, fun _ => ⟨hpassed, ?_⟩⟩
    intro u hu heq
    exact Nat.ne_of_lt (h.behind u hu).1 heq
  apart := h.apart
  behind := fun t ht => by
    obtain ⟨hlt, st, hbehind⟩ := h.behind t ht
    refine ⟨?_, st, hbehind.handsOn, hbehind.held, hbehind.sent⟩
    simp only [List.length_append, List.length_cons, List.length_nil]
    omega
  complete := by
    intro n hn
    by_cases hlast : n = s.packets.length
    · subst hlast
      refine .inr (.inl ⟨fun hmem => Nat.lt_irrefl _ (h.known _ (.inr hmem)), _, rfl, rfl⟩)
    · have hlt : n < s.packets.length := by
        simp only [List.length_append, List.length_cons, List.length_nil] at hn
        omega
      rcases h.complete n hlt with hhanded | ⟨hnot, t, hd, rfl⟩ | hpassed
      · exact .inl hhanded
      · -- The packet before it was answered.
        obtain ⟨-, st, hfront⟩ := h.front _ hd
        have hdone := HandsOn.done (by rw [← hd]; exact hidle) hfront.handsOn
        by_cases hhanded : t.packet ∈ s.handed
        · exact .inl hhanded
        · exact absurd ((hfront.held.mpr ⟨hhanded, hnot⟩).symm.trans hdone) (by simp)
      · exact .inr (.inr hpassed)

theorem Owned.take (h : Owned s) (hidle : Thread.Busy s.connector = false) {t : Thread}
    {rest : List Thread} (hq : s.queue = t :: rest) :
    Owned { s with connector := some t, queue := rest } := by
  have hbehind : s.behind = s.connector.toList ++ (t :: rest) := by rw [Sys.behind, hq]
  have hsub : ∀ u ∈ t :: rest, u ∈ s.behind := fun u hu => by
    rw [hbehind]
    exact List.mem_append_right _ hu
  refine ⟨h.once, h.known, fun u hu => ?_, ?_, fun u hu => ?_, fun n hn => ?_⟩
  · obtain ⟨hlast, st, hfront⟩ := h.front u hu
    refine ⟨hlast, st, hfront.handsOn, hfront.held, fun hsent => ?_⟩
    exact ⟨(hfront.sent hsent).1, fun v hv => (hfront.sent hsent).2 v (hsub v hv)⟩
  · have hnodup := h.apart
    rw [hbehind, List.map_append] at hnodup
    exact (List.nodup_append.mp hnodup).2.1
  · obtain ⟨hlt, st, hu'⟩ := h.behind u (hsub u hu)
    exact ⟨hlt, st, hu'.handsOn, hu'.held, hu'.sent⟩
  · rcases h.complete n hn with hhanded | hfront | ⟨hpassed, u, hu, rfl⟩
    · exact .inl hhanded
    · exact .inr (.inl hfront)
    · rw [hbehind, List.mem_append] at hu
      rcases hu with hcon | hrest
      · -- The entry before it was answered.
        have hc : s.connector = some u := by simpa using hcon
        obtain ⟨-, st, hu'⟩ := h.behind u (by rw [hbehind]; exact List.mem_append_left _ hcon)
        have hdone := HandsOn.done (by rw [← hc]; exact hidle) hu'.handsOn
        by_cases hhanded : u.packet ∈ s.handed
        · exact .inl hhanded
        · exact absurd ((hu'.held.mpr ⟨hhanded, hpassed⟩).symm.trans hdone) (by simp)
      · exact .inr (.inr ⟨hpassed, u, hrest, rfl⟩)

/-- The dispatcher goes on, and the buffers stay where they are. -/
theorem Owned.dispatcher_plain (h : Owned s) (hd : s.dispatcher = some ⟨n, q, b⟩)
    (hon : ∀ st, HandsOn q st → HandsOn q' st) :
    Owned { s with dispatcher := some ⟨n, q', b'⟩, out := out } := by
  refine ⟨h.once, h.known, fun t ht => ?_, h.apart, fun t ht => ?_, fun m hm => ?_⟩
  · cases ht
    obtain ⟨hlast, st, hfront⟩ := h.front _ hd
    exact ⟨hlast, st, hon st hfront.handsOn, hfront.held, hfront.sent⟩
  · obtain ⟨hlt, st, ht'⟩ := h.behind t ht
    exact ⟨hlt, st, ht'.handsOn, ht'.held, ht'.sent⟩
  · rcases h.complete m hm with hhanded | ⟨hnot, t, ht, rfl⟩ | hpassed
    · exact .inl hhanded
    · cases hd.symm.trans ht
      exact .inr (.inl ⟨hnot, _, rfl, rfl⟩)
    · exact .inr (.inr hpassed)

/-- The dispatcher hands its buffer back. -/
theorem Owned.dispatcher_hands (h : Owned s) (hd : s.dispatcher = some ⟨n, q, b⟩)
    (hon : ∀ st, HandsOn q st → st.held = true ∧ HandsOn q' ⟨false, st.sent⟩) :
    Owned { s with
      handed := s.handed ++ [n], dispatcher := some ⟨n, q', b'⟩, out := out } := by
  obtain ⟨hlast, st, hfront⟩ := h.front _ hd
  obtain ⟨hheld, hnext⟩ := hon st hfront.handsOn
  obtain ⟨hhanded, hpassed⟩ := hfront.held.mp hheld
  refine ⟨?_, fun m hm => ?_, fun t ht => ?_, h.apart, fun t ht => ?_, fun m hm => ?_⟩
  · exact List.nodup_append.mpr ⟨h.once, by simp, fun a ha c hc heq => by
      simp only [List.mem_singleton] at hc
      exact hhanded (hc ▸ heq ▸ ha)⟩
  · rcases hm with hm | hm
    · rcases List.mem_append.mp hm with hm | hm
      · exact h.known m (.inl hm)
      · simp only [List.mem_singleton] at hm
        dsimp only at hlast ⊢
        omega
    · exact h.known m (.inr hm)
  · cases ht
    refine ⟨hlast, _, hnext, iff_of_false (by simp) (by simp), fun hsent => hfront.sent hsent⟩
  · obtain ⟨hlt, st', ht'⟩ := h.behind t ht
    refine ⟨hlt, st', ht'.handsOn, ht'.held.trans ⟨fun hmem => ⟨?_, hmem.2⟩, fun hmem => ⟨?_, hmem.2⟩⟩,
      ht'.sent⟩
    · intro hin
      rcases List.mem_append.mp hin with hin | hin
      · exact hmem.1 hin
      · simp only [List.mem_singleton] at hin
        exact hpassed (hin ▸ hmem.2)
    · exact fun hin => hmem.1 (List.mem_append_left _ hin)
  · rcases h.complete m hm with hmem | ⟨-, t, ht, rfl⟩ | hmem
    · exact .inl (List.mem_append_left _ hmem)
    · cases hd.symm.trans ht
      exact .inl (by simp)
    · exact .inr (.inr hmem)

/-- The dispatcher puts an entry into the queue. -/
theorem Owned.dispatcher_sends (h : Owned s) (hd : s.dispatcher = some ⟨n, q, b⟩) (e : Entry)
    (hon : ∀ st, HandsOn q st → st.held = true ∧ st.sent = false ∧
      HandsOn q' ⟨!e.usesBuffer, true⟩) :
    Owned { s with
      queue := s.queue ++ [⟨n, serve e, b⟩]
      passed := if e.usesBuffer then s.passed ++ [n] else s.passed
      dispatcher := some ⟨n, q', b'⟩, out := out } := by
  obtain ⟨hlast, st, hfront⟩ := h.front _ hd
  obtain ⟨hheld, hsent, hnext⟩ := hon st hfront.handsOn
  obtain ⟨hhanded, hpassed⟩ := hfront.held.mp hheld
  obtain ⟨-, hfree⟩ := hfront.sent hsent
  -- What is passed now.
  have hmem : ∀ m, m ∈ (if e.usesBuffer then s.passed ++ [n] else s.passed) ↔
      m ∈ s.passed ∨ (e.usesBuffer = true ∧ m = n) := by
    intro m
    by_cases hu : e.usesBuffer = true <;> simp [hu]
  have hbehind : ∀ u, u ∈ s.connector.toList ++ (s.queue ++ [⟨n, serve e, b⟩]) ↔
      u ∈ s.behind ∨ u = ⟨n, serve e, b⟩ := by
    intro u
    simp [Sys.behind, or_assoc]
  refine ⟨h.once, fun m hm => ?_, fun t ht => ?_, ?_, fun t ht => ?_, fun m hm => ?_⟩
  · rcases hm with hm | hm
    · exact h.known m (.inl hm)
    · rcases (hmem m).mp hm with hm | ⟨-, rfl⟩
      · exact h.known m (.inr hm)
      · dsimp only at hlast ⊢
        omega
  · cases ht
    refine ⟨hlast, _, hnext, ?_, by simp⟩
    rw [hmem]
    by_cases hu : e.usesBuffer = true
    · simp [hu]
    · simpa [hu, hpassed] using hhanded
  · show ((s.connector.toList ++ (s.queue ++ [(⟨n, serve e, b⟩ : Thread)])).map
      Thread.packet).Nodup
    rw [← List.append_assoc, List.map_append]
    refine List.nodup_append.mpr ⟨h.apart, by simp, fun a ha c hc heq => ?_⟩
    obtain ⟨u, hu, rfl⟩ := List.mem_map.mp ha
    simp only [List.map_cons, List.map_nil, List.mem_singleton] at hc
    exact hfree u hu (heq.trans hc)
  · rcases (hbehind t).mp ht with hold | rfl
    · obtain ⟨hlt, st', ht'⟩ := h.behind t hold
      refine ⟨hlt, st', ht'.handsOn, ht'.held.trans ?_, ht'.sent⟩
      rw [hmem]
      have hne : t.packet ≠ n := hfree t hold
      simp [hne]
    · refine ⟨by dsimp only at hlast ⊢; omega, .queued e, handsOn_serve e, ?_, rfl⟩
      rw [hmem]
      simp [Hold.queued, hpassed, hhanded]
  · rcases h.complete m hm with hin | ⟨hnot, t, ht, rfl⟩ | ⟨hin, t, ht, rfl⟩
    · exact .inl hin
    · cases hd.symm.trans ht
      by_cases hu : e.usesBuffer = true
      · exact .inr (.inr ⟨(hmem n).mpr (.inr ⟨hu, rfl⟩), _, (hbehind _).mpr (.inr rfl), rfl⟩)
      · exact .inr (.inl ⟨fun hin => ((hmem n).mp hin).elim hnot fun h => hu h.1, _, rfl, rfl⟩)
    · exact .inr (.inr ⟨(hmem _).mpr (.inl hin), t, (hbehind t).mpr (.inl ht), rfl⟩)

/-- The connector goes on, and the buffers stay where they are. -/
theorem Owned.connector_plain (h : Owned s) (hc : s.connector = some ⟨n, q, b⟩)
    (hon : ∀ st, HandsOn q st → HandsOn q' st) :
    Owned { s with connector := some ⟨n, q', b'⟩, out := out } := by
  have hbehind : s.behind = ⟨n, q, b⟩ :: s.queue := by simp [Sys.behind, hc]
  refine ⟨h.once, h.known, fun t ht => ?_, ?_, fun t ht => ?_, fun m hm => ?_⟩
  · obtain ⟨hlast, st, hfront⟩ := h.front t ht
    refine ⟨hlast, st, hfront.handsOn, hfront.held, fun hsent => ⟨(hfront.sent hsent).1, ?_⟩⟩
    have hfree := (hfront.sent hsent).2
    rw [hbehind] at hfree
    intro u hu
    rcases List.mem_cons.mp hu with rfl | hu
    · exact hfree ⟨n, q, b⟩ List.mem_cons_self
    · exact hfree u (List.mem_cons_of_mem _ hu)
  · have hapart := h.apart
    rw [hbehind] at hapart
    exact hapart
  · rcases List.mem_cons.mp ht with rfl | ht
    · obtain ⟨hlt, st, ht'⟩ := h.behind ⟨n, q, b⟩ (by rw [hbehind]; exact List.mem_cons_self)
      exact ⟨hlt, st, hon st ht'.handsOn, ht'.held, ht'.sent⟩
    · obtain ⟨hlt, st, ht'⟩ := h.behind t (by rw [hbehind]; exact List.mem_cons_of_mem _ ht)
      exact ⟨hlt, st, ht'.handsOn, ht'.held, ht'.sent⟩
  · rcases h.complete m hm with hin | hin | ⟨hin, t, ht, rfl⟩
    · exact .inl hin
    · exact .inr (.inl hin)
    · rw [hbehind] at ht
      rcases List.mem_cons.mp ht with rfl | ht
      · exact .inr (.inr ⟨hin, _, List.mem_cons_self, rfl⟩)
      · exact .inr (.inr ⟨hin, t, List.mem_cons_of_mem _ ht, rfl⟩)

/-- The connector hands its buffer back. -/
theorem Owned.connector_hands (h : Owned s) (hc : s.connector = some ⟨n, q, b⟩)
    (hon : ∀ st, HandsOn q st → st.held = true ∧ HandsOn q' ⟨false, st.sent⟩) :
    Owned { s with
      handed := s.handed ++ [n], connector := some ⟨n, q', b'⟩, out := out } := by
  have hbehind : s.behind = ⟨n, q, b⟩ :: s.queue := by simp [Sys.behind, hc]
  have hapart := h.apart
  rw [hbehind] at hapart
  obtain ⟨hlt, st, hself⟩ := h.behind ⟨n, q, b⟩ (by rw [hbehind]; exact List.mem_cons_self)
  obtain ⟨hheld, hnext⟩ := hon st hself.handsOn
  obtain ⟨hhanded, hpassed⟩ := hself.held.mp hheld
  refine ⟨?_, fun m hm => ?_, fun t ht => ?_, hapart, fun t ht => ?_, fun m hm => ?_⟩
  · exact List.nodup_append.mpr ⟨h.once, by simp, fun a ha c hc heq => by
      simp only [List.mem_singleton] at hc
      exact hhanded (hc ▸ heq ▸ ha)⟩
  · rcases hm with hm | hm
    · rcases List.mem_append.mp hm with hm | hm
      · exact h.known m (.inl hm)
      · simp only [List.mem_singleton] at hm
        exact hm ▸ hlt
    · exact h.known m (.inr hm)
  · obtain ⟨hlast, st', hfront⟩ := h.front t ht
    refine ⟨hlast, st', hfront.handsOn, hfront.held.trans ⟨fun hm => ⟨?_, hm.2⟩, fun hm => ⟨?_, hm.2⟩⟩,
      fun hsent => ⟨(hfront.sent hsent).1, ?_⟩⟩
    · intro hin
      rcases List.mem_append.mp hin with hin | hin
      · exact hm.1 hin
      · simp only [List.mem_singleton] at hin
        exact hm.2 (hin ▸ hpassed)
    · exact fun hin => hm.1 (List.mem_append_left _ hin)
    · have hfree := (hfront.sent hsent).2
      rw [hbehind] at hfree
      intro u hu
      rcases List.mem_cons.mp hu with rfl | hu
      · exact hfree ⟨n, q, b⟩ List.mem_cons_self
      · exact hfree u (List.mem_cons_of_mem _ hu)
  · rcases List.mem_cons.mp ht with rfl | ht
    · refine ⟨hlt, _, hnext, iff_of_false (by simp) (by simp), hself.sent⟩
    · obtain ⟨hlt', st', ht'⟩ := h.behind t (by rw [hbehind]; exact List.mem_cons_of_mem _ ht)
      have hne : t.packet ≠ n := fun heq =>
        (List.nodup_cons.mp hapart).1 (List.mem_map.mpr ⟨t, ht, heq⟩)
      refine ⟨hlt', st', ht'.handsOn, ht'.held.trans ?_, ht'.sent⟩
      simp [hne]
  · rcases h.complete m hm with hin | hin | ⟨hin, t, ht, rfl⟩
    · exact .inl (List.mem_append_left _ hin)
    · exact .inr (.inl hin)
    · rw [hbehind] at ht
      rcases List.mem_cons.mp ht with rfl | ht
      · exact .inl (by simp)
      · exact .inr (.inr ⟨hin, t, List.mem_cons_of_mem _ ht, rfl⟩)

end Steps

/-- Each buffer has one owner through every event. -/
theorem Owned.step {s : Sys} (h : Owned s) (e : Event) : Owned (step s e) := by
  cases e with
  | receive p stale =>
      rw [RpcDispatch.step]
      by_cases hbusy : Thread.Busy s.dispatcher = true
      · rw [if_pos hbusy]
        exact h
      · rw [if_neg hbusy]
        exact h.receive (by simpa using hbusy) p _
  | take =>
      rw [RpcDispatch.step]
      by_cases hbusy : Thread.Busy s.connector = true
      · rw [if_pos hbusy]
        exact h
      · rw [if_neg hbusy]
        cases hq : s.queue with
        | nil => exact h
        | cons t rest => exact h.take (by simpa using hbusy) hq
  | dispatcher module =>
      rw [RpcDispatch.step]
      rcases hd : s.dispatcher with _ | ⟨n, _ | ⟨o, k⟩, b⟩
      · exact h
      · exact h
      · cases o with
        | transmit => exact h.dispatcher_hands hd fun st hon => ⟨hon.1, hon.2 _⟩
        | free => exact h.dispatcher_hands hd fun st hon => ⟨hon.1, hon.2 _⟩
        | send e =>
            have hnext : ∀ st (k : Bool → Task Unit), HandsOn (.call (.send e) k) st →
                HandsOn (k true) ⟨!e.usesBuffer, true⟩ := by
              intro st k hon
              have heq : owner.next (.send e) true st = ⟨!e.usesBuffer, true⟩ := by
                simp [owner, hon.1.1]
              exact heq ▸ hon.2 true
            cases hr : module (.send e) with
            | false =>
                have hplain : Owned { s with dispatcher := some ⟨n, k false, b⟩, out := s.out } :=
                  h.dispatcher_plain hd fun st hon => hon.2 false
                simpa [Sys.log, Sys.note, Buf.answer, Buf.effect, Buf.shows, hr] using hplain
            | true =>
                have hsends : Owned { s with
                    queue := s.queue ++ [⟨n, serve e, b⟩]
                    passed := if e.usesBuffer then s.passed ++ [n] else s.passed
                    dispatcher := some ⟨n, k true, b⟩, out := s.out } :=
                  h.dispatcher_sends hd e fun st hon =>
                    ⟨hon.1.1, hon.1.2, hnext st k hon⟩
                simpa [Sys.log, Sys.note, Buf.answer, Buf.effect, Buf.shows, hr] using hsends
        | _ => exact h.dispatcher_plain hd fun st hon => hon.2 _
  | connector module =>
      rw [RpcDispatch.step]
      rcases hc : s.connector with _ | ⟨n, _ | ⟨o, k⟩, b⟩
      · exact h
      · exact h
      · cases o with
        | transmit => exact h.connector_hands hc fun st hon => ⟨hon.1, hon.2 _⟩
        | free => exact h.connector_hands hc fun st hon => ⟨hon.1, hon.2 _⟩
        | send e =>
            -- The connector queues no entry.
            obtain ⟨-, st, hself⟩ := h.behind ⟨n, .call (.send e) k, b⟩
              (List.mem_append_left _ (by simp [hc]))
            exact absurd (hself.sent.symm.trans hself.handsOn.1.2) (by simp)
        | _ => exact h.connector_plain hc fun st hon => hon.2 _

theorem Owned.init : Owned Sys.init :=
  ⟨List.nodup_nil, by simp [Sys.init], by simp [Sys.init], List.nodup_nil,
    by simp [Sys.init, Sys.behind], by simp [Sys.init]⟩

theorem Owned.run {s : Sys} (h : Owned s) (es : List Event) : Owned (run s es) := by
  induction es generalizing s with
  | nil => exact h
  | cons e es ih => exact ih (h.step e)

/-- Whatever comes in, and in whatever order the threads run. -/
theorem handedOnce_run (es : List Event) : HandedOnce (run Sys.init es) :=
  (Owned.init.run es).handedOnce

/-! ## What older packets left behind is not shown -/

/-- The bytes of a buffer that are known are there. -/
def Known.Of (K : Known) (b : Buf) : Prop :=
  b.size = K.size ∧ ∀ i v, K.known i = some v → b.data i = v

section Shown

variable {K : Known} {b b₁ b₂ : Buf}

theorem Known.Of.data_eq (h₁ : K.Of b₁) (h₂ : K.Of b₂) {i : Nat} (hi : K.Knows i) :
    b₁.data i = b₂.data i :=
  (h₁.2 i _ hi.known_eq).trans (h₂.2 i _ hi.known_eq).symm

theorem bytes_eq (h₁ : K.Of b₁) (h₂ : K.Of b₂) (n : Nat) : ∀ off,
    (∀ i < n, K.Knows (off + i)) → b₁.bytes off n = b₂.bytes off n := by
  induction n with
  | zero => exact fun _ _ => rfl
  | succ n ih =>
      intro off hknows
      rw [Buf.bytes, Buf.bytes, h₁.data_eq h₂ (by simpa using hknows 0 (by omega)), ih (off + 1)]
      intro i hi
      simpa [Nat.add_assoc, Nat.add_comm 1 i] using hknows (i + 1) (by omega)

/-- A string that ends where it is known. -/
theorem string_eq (h₁ : K.Of b₁) (h₂ : K.Of b₂) (n : Nat) : ∀ off,
    (∃ i < n, K.known (off + i) = some 0 ∧ ∀ j < i, K.Knows (off + j)) →
    b₁.string n off = b₂.string n off := by
  induction n with
  | zero => exact fun _ h => absurd h (by simp)
  | succ n ih =>
      intro off hends
      obtain ⟨i, hi, hzero, hknows⟩ := hends
      cases i with
      | zero =>
          rw [Buf.string, Buf.string, h₁.2 off 0 hzero, h₂.2 off 0 hzero]
          rfl
      | succ i =>
          have hdata := h₁.data_eq h₂ (by simpa using hknows 0 (by omega))
          rw [Buf.string, Buf.string, hdata, ih (off + 1)]
          refine ⟨i, by omega, by simpa [Nat.add_assoc, Nat.add_comm 1 i] using hzero, fun j hj => ?_⟩
          simpa [Nat.add_assoc, Nat.add_comm 1 j] using hknows (j + 1) (by omega)

/-- What the module answers is fine for the packet. -/
def Fits (p : Packet) : (o : Op) → Resp o → Prop
  | .call c, r => Fine p c r
  | .send e, true => Queued p e
  | _, _ => True

/-- One access or call on two buffers with the same known bytes. -/
theorem clear_step {handed : Entry → Known → Prop} {p : Packet} {o : Op} {k : Resp o → Task Unit}
    {module : (o : Op) → Resp o}
    (h : Clear handed p (fun _ _ => True) (.call o k) K) (h₁ : K.Of b₁) (h₂ : K.Of b₂)
    (hfits : Fits p o (b₁.answer module o)) :
    b₁.answer module o = b₂.answer module o ∧ b₁.shows o = b₂.shows o ∧
      ∃ K', Known.Of K' (b₁.effect o) ∧ Known.Of K' (b₂.effect o) ∧
        Clear handed p (fun _ _ => True) (k (b₁.answer module o)) K' := by
  obtain ⟨hok, hgo⟩ := h
  cases o with
  | load i =>
      have hi : K.Knows i := hok
      exact ⟨h₁.data_eq h₂ hi, rfl, K, h₁, h₂,
        hgo _ (hi.known_eq.trans (congrArg some (h₁.2 i _ hi.known_eq).symm))⟩
  | store i v =>
      have hset : ∀ {b : Buf}, K.Of b → (K.set i v).Of (b.effect (.store i v)) := by
        intro b hb
        refine ⟨hb.1, fun j w hw => ?_⟩
        by_cases hj : j = i
        · simpa [Known.set, Buf.effect, hj] using hw
        · simp only [Known.set, if_neg hj] at hw
          simpa [Buf.effect, hj] using hb.2 j w hw
      exact ⟨rfl, rfl, _, hset h₁, hset h₂, hgo _ trivial⟩
  | getSize => exact ⟨h₁.1.trans h₂.1.symm, rfl, K, h₁, h₂, hgo _ h₁.1⟩
  | setSize n => exact ⟨rfl, rfl, K.resize n, ⟨rfl, h₁.2⟩, ⟨rfl, h₂.2⟩, hgo _ trivial⟩
  | giveString use off =>
      have hends : K.Ends off := hok
      obtain ⟨i, hi, hzero, hknows⟩ := hends
      have hstring := string_eq h₁ h₂ (cmdBufSize - off) off ⟨i, by omega, hzero, hknows⟩
      exact ⟨rfl, by simp [Buf.shows, hstring], K, h₁, h₂, hgo _ trivial⟩
  | netTransmit off length =>
      have hbytes := bytes_eq h₁ h₂ length off hok
      exact ⟨rfl, by simp [Buf.shows, hbytes], K, h₁, h₂, hgo _ trivial⟩
  | transmit =>
      have hcovers : K.Covers K.size := hok
      have hbytes := bytes_eq h₁ h₂ K.size 0 fun i hi => by simpa using hcovers i hi
      refine ⟨rfl, ?_, K, h₁, h₂, hgo _ trivial⟩
      simp [Buf.shows, h₁.1, h₂.1, hbytes]
  | free => exact ⟨rfl, rfl, K, h₁, h₂, hgo _ trivial⟩
  | send e => exact ⟨rfl, rfl, K, h₁, h₂, hgo _ trivial⟩
  | call c => exact ⟨rfl, rfl, K, h₁, h₂, hgo _ hfits⟩

end Shown

/-- Two threads that differ at most in bytes of the buffer that nobody asks for. -/
def AlikeThread (handed : Packet → Entry → Known → Prop) (packets : List Packet)
    (t₁ t₂ : Thread) : Prop :=
  t₁.packet = t₂.packet ∧ t₁.prog = t₂.prog ∧
    ∃ p K, packets[t₁.packet]? = some p ∧ Known.Of K t₁.buf ∧ Known.Of K t₂.buf ∧
      Clear (handed p) p (fun _ _ => True) t₁.prog K

/-- The dispatcher's handlers, and what they queue. -/
abbrev AlikeFront : List Packet → Thread → Thread → Prop := AlikeThread Served

/-- The connector's side. -/
abbrev AlikeBehind : List Packet → Thread → Thread → Prop := AlikeThread fun _ _ _ => False

/-- Two states that differ at most in such bytes. -/
structure Alike (s₁ s₂ : Sys) : Prop where
  packets : s₁.packets = s₂.packets
  out : s₁.out = s₂.out
  dispatcher : Option.Rel (AlikeFront s₁.packets) s₁.dispatcher s₂.dispatcher
  queue : List.Forall₂ (AlikeBehind s₁.packets) s₁.queue s₂.queue
  connector : Option.Rel (AlikeBehind s₁.packets) s₁.connector s₂.connector

/-- The same event, but for what an older packet left in the buffer. -/
inductive TwinEvent : Event → Event → Prop where
  | receive (p : Packet) (stale₁ stale₂ : Nat → UInt8) :
      TwinEvent (.receive p stale₁) (.receive p stale₂)
  | dispatcher (module : (o : Op) → Resp o) : TwinEvent (.dispatcher module) (.dispatcher module)
  | take : TwinEvent .take .take
  | connector (module : (o : Op) → Resp o) : TwinEvent (.connector module) (.connector module)

/-- What a thread is answered is fine for its packet. -/
def Answered (packets : List Packet) (module : (o : Op) → Resp o) : Option Thread → Prop
  | some ⟨n, .call o _, b⟩ => ∀ p, packets[n]? = some p → Fits p o (b.answer module o)
  | _ => True

/-- The events that ask for nothing but a packet's own bytes. -/
def Allowed (s : Sys) : Event → Prop
  | .receive p _ => Clean p
  | .dispatcher module => Answered s.packets module s.dispatcher
  | .take => True
  | .connector module => Answered s.packets module s.connector

/-- A run of such events. -/
def AllowedRun : Sys → List Event → Prop
  | _, [] => True
  | s, e :: es => Allowed s e ∧ AllowedRun (step s e) es

section TwoRuns

variable {s₁ s₂ : Sys} {e₁ e₂ : Event} {packets : List Packet}

theorem AlikeThread.grow {handed : Packet → Entry → Known → Prop} {t₁ t₂ : Thread}
    (h : AlikeThread handed packets t₁ t₂) (p : Packet) :
    AlikeThread handed (packets ++ [p]) t₁ t₂ := by
  obtain ⟨hpacket, hprog, p', K, hp', h₁, h₂, hclear⟩ := h
  have hlt : t₁.packet < packets.length := (List.getElem?_eq_some_iff.mp hp').1
  exact ⟨hpacket, hprog, p', K, by rw [List.getElem?_append_left hlt, hp'], h₁, h₂, hclear⟩

theorem AlikeThread.grow_rel {handed : Packet → Entry → Known → Prop} {o₁ o₂ : Option Thread}
    (h : Option.Rel (AlikeThread handed packets) o₁ o₂) (p : Packet) :
    Option.Rel (AlikeThread handed (packets ++ [p])) o₁ o₂ := by
  cases h with
  | none => exact .none
  | some ht => exact .some (ht.grow p)

theorem AlikeThread.busy_eq {handed : Packet → Entry → Known → Prop} {o₁ o₂ : Option Thread}
    (h : Option.Rel (AlikeThread handed packets) o₁ o₂) : Thread.Busy o₁ = Thread.Busy o₂ := by
  cases h with
  | none => rfl
  | some ht =>
      rename_i t₁ t₂
      obtain ⟨n₁, q₁, b₁⟩ := t₁
      obtain ⟨n₂, q₂, b₂⟩ := t₂
      have hprog : q₁ = q₂ := ht.2.1
      subst hprog
      cases q₁ <;> rfl

theorem Known.of_holding (p : Packet) (stale : Nat → UInt8) : p.own.Of (.holding p stale) := by
  refine ⟨rfl, fun i v hv => ?_⟩
  have hi : p.bytes[i]? = some v := hv
  simp [Buf.holding, hi]

@[simp] theorem Sys.note_packets (s : Sys) (n : Nat) (b : Buf) (o : Op) (r : Resp o) :
    (s.note n b o r).packets = s.packets := by
  cases o with
  | send e => cases r <;> rfl
  | _ => rfl

@[simp] theorem Sys.note_connector (s : Sys) (n : Nat) (b : Buf) (o : Op) (r : Resp o) :
    (s.note n b o r).connector = s.connector := by
  cases o with
  | send e => cases r <;> rfl
  | _ => rfl

@[simp] theorem Sys.note_dispatcher (s : Sys) (n : Nat) (b : Buf) (o : Op) (r : Resp o) :
    (s.note n b o r).dispatcher = s.dispatcher := by
  cases o with
  | send e => cases r <;> rfl
  | _ => rfl

/-- A call of either thread leaves the queue, or puts the same entry behind both. -/
theorem note_queue (h : List.Forall₂ (AlikeBehind packets) s₁.queue s₂.queue) {n : Nat} {b₁ b₂ : Buf}
    {o : Op} {r : Resp o}
    (hsend : ∀ e, o = .send e → HEq r true → AlikeBehind packets ⟨n, serve e, b₁⟩ ⟨n, serve e, b₂⟩) :
    List.Forall₂ (AlikeBehind packets) (s₁.note n b₁ o r).queue (s₂.note n b₂ o r).queue := by
  cases o with
  | send e =>
      cases r with
      | false => exact h
      | true => exact List.rel_append h (.cons (hsend e rfl HEq.rfl) .nil)
  | _ => exact h

/-- The dispatcher makes the same step in both runs. -/
theorem Alike.dispatcher_step (h : Alike s₁ s₂) {module : (o : Op) → Resp o}
    (hanswered : Answered s₁.packets module s₁.dispatcher) :
    Alike (step s₁ (.dispatcher module)) (step s₂ (.dispatcher module)) := by
  rw [step, step]
  have hfront := h.dispatcher
  generalize hd₁ : s₁.dispatcher = d₁ at hfront hanswered ⊢
  generalize hd₂ : s₂.dispatcher = d₂ at hfront ⊢
  cases hfront with
  | none => exact h
  | some ht =>
      rename_i t₁ t₂
      obtain ⟨n, q, b₁⟩ := t₁
      obtain ⟨n₂, q₂, b₂⟩ := t₂
      obtain ⟨hpacket, hprog, p, K, hp, h₁, h₂, hclear⟩ := ht
      dsimp only at hpacket hprog
      subst hpacket
      subst hprog
      cases q with
      | ret u => exact h
      | call o k =>
          have hfits := hanswered p hp
          obtain ⟨hanswer, hshows, K', h₁', h₂', hnext⟩ := clear_step hclear h₁ h₂ hfits
          dsimp only
          rw [← hanswer]
          refine ⟨?_, ?_, ?_, ?_, ?_⟩
          · simpa [Sys.log] using h.packets
          · simp [Sys.log, h.out, hshows]
          · refine .some ⟨rfl, rfl, p, K', ?_, h₁', h₂', hnext⟩
            simpa [Sys.log] using hp
          · rw [Sys.log, Sys.note_packets]
            refine note_queue h.queue fun e ho hr => ?_
            subst ho
            have hqueued : b₁.answer module (.send e) = true := eq_of_heq hr
            have hserved : Served p e K := hclear.1
            rw [hqueued] at hfits
            exact ⟨rfl, rfl, p, K, hp, h₁, h₂, hserved hfits⟩
          · simpa [Sys.log] using h.connector

/-- The connector makes the same step in both runs. -/
theorem Alike.connector_step (h : Alike s₁ s₂) {module : (o : Op) → Resp o}
    (hanswered : Answered s₁.packets module s₁.connector) :
    Alike (step s₁ (.connector module)) (step s₂ (.connector module)) := by
  rw [step, step]
  have hbehind := h.connector
  generalize hc₁ : s₁.connector = c₁ at hbehind hanswered ⊢
  generalize hc₂ : s₂.connector = c₂ at hbehind ⊢
  cases hbehind with
  | none => exact h
  | some ht =>
      rename_i t₁ t₂
      obtain ⟨n, q, b₁⟩ := t₁
      obtain ⟨n₂, q₂, b₂⟩ := t₂
      obtain ⟨hpacket, hprog, p, K, hp, h₁, h₂, hclear⟩ := ht
      dsimp only at hpacket hprog
      subst hpacket
      subst hprog
      cases q with
      | ret u => exact h
      | call o k =>
          have hfits := hanswered p hp
          obtain ⟨hanswer, hshows, K', h₁', h₂', hnext⟩ := clear_step hclear h₁ h₂ hfits
          dsimp only
          rw [← hanswer]
          refine ⟨?_, ?_, ?_, ?_, ?_⟩
          · simpa [Sys.log] using h.packets
          · simp [Sys.log, h.out, hshows]
          · simpa [Sys.log] using h.dispatcher
          · rw [Sys.log, Sys.note_packets]
            refine note_queue h.queue fun e ho _ => ?_
            subst ho
            exact hclear.1.elim
          · refine .some ⟨rfl, rfl, p, K', ?_, h₁', h₂', hnext⟩
            simpa [Sys.log] using hp

theorem Alike.step (h : Alike s₁ s₂) (he : TwinEvent e₁ e₂) (hallowed : Allowed s₁ e₁) :
    Alike (step s₁ e₁) (step s₂ e₂) := by
  cases he with
  | receive p stale₁ stale₂ =>
      rw [RpcDispatch.step, RpcDispatch.step, ← AlikeThread.busy_eq h.dispatcher]
      by_cases hbusy : Thread.Busy s₁.dispatcher = true
      · rw [if_pos hbusy, if_pos hbusy]
        exact h
      · rw [if_neg hbusy, if_neg hbusy]
        refine ⟨by rw [h.packets], h.out, ?_, ?_, ?_⟩
        · rw [h.packets]
          refine .some ⟨rfl, rfl, p, p.own, by simp, Known.of_holding p _,
            Known.of_holding p _, ?_⟩
          exact handles_dispatch hallowed
        · exact h.queue.imp fun t₁ t₂ ht => ht.grow p
        · exact AlikeThread.grow_rel h.connector p
  | dispatcher module => exact h.dispatcher_step hallowed
  | take =>
      rw [RpcDispatch.step, RpcDispatch.step, ← AlikeThread.busy_eq h.connector]
      by_cases hbusy : Thread.Busy s₁.connector = true
      · rw [if_pos hbusy, if_pos hbusy]
        exact h
      · rw [if_neg hbusy, if_neg hbusy]
        have hqueue := h.queue
        generalize hq₁ : s₁.queue = q₁ at hqueue ⊢
        generalize hq₂ : s₂.queue = q₂ at hqueue ⊢
        cases hqueue with
        | nil => exact h
        | cons ht hrest => exact ⟨h.packets, h.out, h.dispatcher, hrest, .some ht⟩
  | connector module => exact h.connector_step hallowed

end TwoRuns

theorem Alike.init : Alike Sys.init Sys.init := ⟨rfl, rfl, .none, .nil, .none⟩

/-- Two runs stay alike as long as the first asks for nothing but the packets' own
    bytes. -/
theorem Alike.run {es₁ es₂ : List Event} (htwin : List.Forall₂ TwinEvent es₁ es₂) :
    ∀ {s₁ s₂ : Sys}, Alike s₁ s₂ → AllowedRun s₁ es₁ → Alike (run s₁ es₁) (run s₂ es₂) := by
  induction htwin with
  | nil => exact fun h _ => h
  | cons he _ ih => exact fun h hallowed => ih (h.step he hallowed.1) hallowed.2

/-- In every run in which each packet is clean and each answer fine for it, every
    buffer is handed back once and not used behind that, and what is transmitted, sent to
    the network, stored or asked does not depend on what older packets left behind. -/
theorem dispatch_right {es₁ es₂ : List Event} (htwin : List.Forall₂ TwinEvent es₁ es₂)
    (hallowed : AllowedRun Sys.init es₁) :
    HandedOnce (run Sys.init es₁) ∧ HandedOnce (run Sys.init es₂) ∧
      (run Sys.init es₁).out = (run Sys.init es₂).out :=
  ⟨handedOnce_run es₁, handedOnce_run es₂, (Alike.run htwin Alike.init hallowed).out⟩

/-! ## Two packets -/

/-- Answers that say nothing. -/
def quiet : (o : Op) → Resp o
  | .load _ => 0
  | .store .. | .setSize _ => ()
  | .getSize => 0
  | .giveString .. => 0
  | .netTransmit .. | .transmit | .free => ()
  | .send _ => false
  | .call c => match c with
    | .wifiGetMac => (0, Vector.replicate 6 0)
    | .uartSetBaudrate _ | .uartSetHwFlowCtrl _ | .uartSetLineInverse _ => (0 : UInt32)
    | .delay _ | .semaphoreGive | .noteUserDisconnect => ()
    | .wifiDisconnect => (0 : UInt32)
    | .externButtonEvent _ => ()
    | .recoveryRunning => false
    | .enableHook | .disableHook => ()
    | .readAdcChannels => ⟨[], by simp⟩
    | .wifiGetConnection => (0 : UInt8)
    | .sendConnectedEvent => ()
    | .localTime => ⟨0, 0, 0, 0, 0, 0, 0⟩
    | .clearAps | .nvsOpenBoard | .nvsFindSerial | .nvsCommit => (0 : UInt32)
    | .nvsGetSerial => .error 0
    | .powerSetMode _ => (0 : UInt32)
    | .powerGetMode | .powerGetLastState => (0 : UInt8)
    | .powerSetWakeOnWifi _ => (0 : UInt32)
    | .powerGetWakeOnWifi => (0 : UInt8)
    | .recoverySetUrl _ => (0 : UInt32)
    | .nvsOpenRecovery => (0 : UInt32)
    | .nvsGetUrl => .error 0
    | .enableWifiIfNeeded | .scanStart => (0 : UInt32)
    | .scanGetApNum => (0, 0)
    | .scanGetApRecords =>
        (0, Vector.replicate 24 ⟨Vector.replicate 6 0, Vector.replicate 33 0, 0, 0, 0⟩)
    | .attemptConnect .. => (0 : UInt32)
    | .waitEvent => false
    | .storeAp .. => (0 : UInt32)
    | .setLastAp | .changeState _ => ()

/-- A packet, and then only the dispatcher. -/
def alone (p : Packet) (stale : UInt8) (steps : Nat) : List Event :=
  .receive p (fun _ => stale) :: List.replicate steps (.dispatcher quiet)

theorem twin_alone (p : Packet) (a b : UInt8) (steps : Nat) :
    List.Forall₂ TwinEvent (alone p a steps) (alone p b steps) := by
  refine .cons (.receive p _ _) ?_
  induction steps with
  | zero => exact .nil
  | succ steps ih => exact .cons (.dispatcher quiet) ih

/-- `CMD_ECHO` with one byte behind its header. -/
def echoPacket : Packet := ⟨[0x01, 0, 0, 0, 7], by simp [cmdBufSize]⟩

/-- An echo comes back as it was, whatever the buffer held before. -/
theorem dispatch_right_echo :
    HandedOnce (run Sys.init (alone echoPacket 0 2)) ∧ HandedOnce (run Sys.init (alone echoPacket 1 2)) ∧
      (run Sys.init (alone echoPacket 0 2)).out = (run Sys.init (alone echoPacket 1 2)).out :=
  dispatch_right (twin_alone echoPacket 0 1 2) ⟨trivial, fun _ _ => trivial, fun _ _ => trivial, trivial⟩

/-- `CMD_GET_WAKE_ON_WIFI`, which has a header only. -/
def getWakePacket : Packet := ⟨[0x19, 0, 0, 0], by simp [cmdBufSize]⟩

/-- The packets of a run, as they went out. -/
def Sys.sentBytes (s : Sys) : List (List UInt8) :=
  s.out.filterMap fun o => match o.2 with
    | .transmitted bytes => some bytes
    | _ => none

/-- The response has twelve bytes, of which the last three are older ones. -/
theorem getWakeOnWifi_leaks :
    ∃ es₁ es₂, List.Forall₂ TwinEvent es₁ es₂ ∧
      ¬ ((run Sys.init es₁).out = (run Sys.init es₂).out) := by
  refine ⟨alone getWakePacket 0 9, alone getWakePacket 1 9, twin_alone getWakePacket 0 1 9, fun h => ?_⟩
  have hsent := congrArg (fun o => o.filterMap fun o => match o.2 with
    | Output.transmitted bytes => some bytes
    | _ => none) h
  have h₁ : (run Sys.init (alone getWakePacket 0 9)).sentBytes =
      [[0x19, 0, 0, 0, 0, 0, 0, 0, 0, 0, 0, 0]] := by rfl
  have h₂ : (run Sys.init (alone getWakePacket 1 9)).sentBytes =
      [[0x19, 0, 0, 0, 0, 0, 0, 0, 0, 1, 1, 1]] := by rfl
  have heq := h₁.symm.trans (hsent.trans h₂)
  exact absurd heq (by decide)

end RpcDispatch
