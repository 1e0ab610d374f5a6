import Ultimate1541.RpcDispatchProofs

/-! # What a handler knows of its buffer

    A handler is run on what is known of the buffer: the bytes of the packet, and those
    that have been written since.  `Clear` says that no other byte is read, transmitted or
    sent to the network.  The packets for which this holds are `Clean`; a few conditions
    also ask for an answer of the module, and stand in `Fine` and `Queued`. -/

namespace RpcDispatch

open Interaction Interaction.Prog

/-- The bytes of a packet that was received. -/
structure Packet where
  bytes : List UInt8
  fits : bytes.length ≤ cmdBufSize

/-- The size of a buffer, and the bytes of it that are known. -/
structure Known where
  size : Nat
  known : Nat → Option UInt8

namespace Known

/-- Byte `i` is known. -/
def Knows (K : Known) (i : Nat) : Prop := (K.known i).isSome = true

/-- The first `n` bytes are known. -/
def Covers (K : Known) (n : Nat) : Prop := ∀ i < n, K.Knows i

/-- A byte is written. -/
def set (K : Known) (i : Nat) (b : UInt8) : Known :=
  ⟨K.size, fun j => if j = i then some b else K.known j⟩

/-- Bytes are written one behind the other. -/
def write (K : Known) (off : Nat) : List UInt8 → Known
  | [] => K
  | b :: bs => (K.set off b).write (off + 1) bs

/-- The size is set. -/
def resize (K : Known) (n : Nat) : Known := ⟨n, K.known⟩

/-- The byte that is known, where one is. -/
def byte (K : Known) (i : Nat) : UInt8 := (K.known i).getD 0

/-- The bytes that are known, one behind the other. -/
def bytes (K : Known) (off : Nat) : Nat → List UInt8
  | 0 => []
  | n + 1 => K.byte off :: K.bytes (off + 1) n

variable {K : Known} {i j n m : Nat} {b : UInt8}

theorem Covers.mono (h : K.Covers n) (hle : m ≤ n) : K.Covers m := fun i hi => h i (by omega)

theorem Knows.known_eq (h : K.Knows i) : K.known i = some (K.byte i) := by
  obtain ⟨b, hb⟩ := Option.isSome_iff_exists.mp h
  simp [byte, hb]

@[simp] theorem size_set : (K.set i b).size = K.size := rfl

@[simp] theorem size_resize : (K.resize n).size = n := rfl

@[simp] theorem knows_resize : (K.resize n).Knows i ↔ K.Knows i := Iff.rfl

@[simp] theorem covers_resize : (K.resize n).Covers m ↔ K.Covers m := Iff.rfl

theorem knows_set : (K.set i b).Knows j ↔ j = i ∨ K.Knows j := by
  by_cases h : j = i <;> simp [Knows, set, h]

@[simp] theorem size_write (bs : List UInt8) : ∀ (K : Known) (off : Nat),
    (K.write off bs).size = K.size := by
  induction bs with
  | nil => exact fun _ _ => rfl
  | cons b bs ih => exact fun K off => ih (K.set off b) (off + 1)

theorem knows_write (bs : List UInt8) : ∀ (K : Known) (off : Nat),
    (K.write off bs).Knows j ↔ (off ≤ j ∧ j < off + bs.length) ∨ K.Knows j := by
  induction bs with
  | nil =>
      intro K off
      refine ⟨Or.inr, fun h => h.elim (fun h => ?_) id⟩
      simp only [List.length_nil] at h
      omega
  | cons b bs ih =>
      intro K off
      rw [write, ih, knows_set, List.length_cons]
      constructor
      · rintro (h | h | h)
        · exact .inl (by omega)
        · exact .inl (by omega)
        · exact .inr h
      · rintro (h | h)
        · by_cases hj : j = off
          · exact .inr (.inl hj)
          · exact .inl (by omega)
        · exact .inr (.inr h)

theorem Covers.set (h : K.Covers n) : (K.set i b).Covers n := fun j hj =>
  knows_set.mpr (.inr (h j hj))

theorem Covers.write (h : K.Covers n) (off : Nat) (bs : List UInt8) : (K.write off bs).Covers n :=
  fun j hj => (knows_write bs K off).mpr (.inr (h j hj))

/-- Bytes written at the end of what is covered. -/
theorem Covers.extend {off : Nat} (h : K.Covers off) (bs : List UInt8) :
    (K.write off bs).Covers (off + bs.length) := by
  intro j hj
  by_cases hlt : j < off
  · exact (knows_write bs K off).mpr (.inr (h j hlt))
  · exact (knows_write bs K off).mpr (.inl ⟨by omega, hj⟩)

end Known

/-- What the packet itself tells. -/
def Packet.own (p : Packet) : Known := ⟨p.bytes.length, fun i => p.bytes[i]?⟩

theorem Packet.own_covers {p : Packet} {n : Nat} (h : n ≤ p.bytes.length) : p.own.Covers n := by
  intro i hi
  have hlt : i < p.bytes.length := by omega
  simp [Known.Knows, Packet.own, hlt]

/-! ## Clean packets -/

/-- The length that a `CMD_SEND_PACKET` gives. -/
def Packet.ethLength (p : Packet) : Nat := (UInt32.ofNat (ofLe (p.own.bytes 4 4))).toNat

/-- The packets whose handling asks for no byte that is not their own, as far as the
    answers of the module leave that open. -/
def Clean (p : Packet) : Prop :=
  match p.bytes with
  | [] => False
  | command :: _ =>
      match command with
      | 0x01 | 0x04 => True
      | 0x02 => 33 ≤ p.bytes.length
      | 0x03 => 8 ≤ p.bytes.length
      | 0x05 => p.bytes.length < 98 ∨ 101 ≤ p.bytes.length
      | 0x07 => 16 ≤ p.bytes.length
      | 0x08 => 8 + p.ethLength ≤ p.bytes.length
      | 0x0B | 0x17 | 0x19 => 12 ≤ p.bytes.length
      | 0x0C => 24 ≤ p.bytes.length
      | 0x10 => 0 ∈ p.bytes.drop 4
      | _ => 4 ≤ p.bytes.length

/-- Whether the packet carries the command. -/
def Packet.Asks (p : Packet) (command : UInt8) : Prop := p.bytes.head? = some command

/-- Where the answer of the module decides whether the packet is long enough. -/
def Fine (p : Packet) : (c : Call) → Reply c → Prop
  | .uartSetBaudrate _, err => err = espOk → 9 ≤ p.bytes.length
  | .uartSetHwFlowCtrl _, err => err = espOk → 10 ≤ p.bytes.length
  | .nvsFindSerial, err =>
      err = espErrNvsNotFound → 19 ≤ p.bytes.length ∨ 0 ∈ p.bytes.drop 4
  | .nvsOpenBoard, err => p.Asks 0x15 → err ≠ espOk → 24 ≤ p.bytes.length
  | .nvsGetSerial, .ok serial => 24 ≤ p.bytes.length ∨ serial.bytes.length = 15
  | .nvsGetSerial, .error _ => 24 ≤ p.bytes.length
  | .nvsOpenRecovery, err => err ≠ espOk → 136 ≤ p.bytes.length
  | .nvsGetUrl, .ok url => 136 ≤ p.bytes.length ∨ url.bytes.length = 127
  | .nvsGetUrl, .error _ => 136 ≤ p.bytes.length
  | .enableWifiIfNeeded, err => p.Asks 0x04 → err ≠ espOk → 10 ≤ p.bytes.length
  | _, _ => True

/-- Where it decides on an entry that the queue has taken. -/
def Queued (p : Packet) : Entry → Prop
  | .scan => 4 ≤ p.bytes.length
  | _ => True

/-! ## The watcher -/

/-- A string that ends where it is known, and in the buffer. -/
def Known.Ends (K : Known) (off : Nat) : Prop :=
  ∃ i, off + i < cmdBufSize ∧ K.known (off + i) = some 0 ∧ ∀ j < i, K.Knows (off + j)

/-- Only known bytes are used; `handed` is what an entry for the connector must meet. -/
def clear (handed : Entry → Known → Prop) : Watcher Op Resp Known where
  ok o K := match o with
    | .load i => K.Knows i
    | .giveString _ off => K.Ends off
    | .netTransmit off length => ∀ i < length, K.Knows (off + i)
    | .transmit => K.Covers K.size
    | .send e => handed e K
    | _ => True
  next o _ K := match o with
    | .store i b => K.set i b
    | .setSize n => K.resize n
    | _ => K

/-- The answers that count: those that the buffer gives, and of the module those that
    are fine. -/
def admits (p : Packet) (o : Op) (r : Resp o) (K : Known) : Prop :=
  match o, r with
  | .load i, b => K.known i = some b
  | .getSize, n => n = K.size
  | .call c, r => Fine p c r
  | _, _ => True

/-- Handling `q` on what is known uses nothing else. -/
def Clear {α : Type} (handed : Entry → Known → Prop) (p : Packet) (Q : α → Known → Prop)
    (q : Task α) (K : Known) : Prop := SafeIf (clear handed) (admits p) Q q K

/-- The same for the connector, behind an entry that the queue has taken: it queues none
    itself. -/
def Served (p : Packet) (e : Entry) (K : Known) : Prop :=
  Queued p e → Clear (fun _ _ => False) p (fun _ _ => True) (serve e) K

section Rules

variable {α β : Type} {handed : Entry → Known → Prop} {p : Packet} {Q : α → Known → Prop} {K : Known}

theorem clear_ask {c : Call} {f : Reply c → Task α} (h : ∀ r, Fine p c r → Clear handed p Q (f r) K) :
    Clear handed p Q (ask c >>= f) K := SafeIf.call trivial h

theorem clear_store {i : Nat} {b : UInt8} {f : Unit → Task α}
    (h : Clear handed p Q (f ()) (K.set i b)) : Clear handed p Q (perform (.store i b) >>= f) K :=
  SafeIf.call trivial fun _ _ => h

theorem clear_setSize {n : Nat} {f : Unit → Task α} (h : Clear handed p Q (f ()) (K.resize n)) :
    Clear handed p Q (perform (.setSize n) >>= f) K := SafeIf.call trivial fun _ _ => h

theorem clear_getSize {f : Nat → Task α} (h : Clear handed p Q (f K.size) K) :
    Clear handed p Q (perform .getSize >>= f) K := SafeIf.call trivial fun r hr => by
  have hsize : r = K.size := hr
  subst hsize
  exact h

theorem clear_load {i : Nat} {f : UInt8 → Task α} (hi : K.Knows i)
    (h : Clear handed p Q (f (K.byte i)) K) : Clear handed p Q (perform (.load i) >>= f) K :=
  SafeIf.call hi fun r hr => by
    have hknown : K.known i = some r := hr
    have heq : r = K.byte i := Option.some.inj (hknown.symm.trans hi.known_eq)
    subst heq
    exact h

theorem clear_transmit {f : Unit → Task α} (hcovers : K.Covers K.size)
    (h : Clear handed p Q (f ()) K) : Clear handed p Q (perform .transmit >>= f) K :=
  SafeIf.call hcovers fun _ _ => h

theorem clear_send {e : Entry} {f : Bool → Task α} (he : handed e K)
    (h : ∀ queued, Clear handed p Q (f queued) K) : Clear handed p Q (perform (.send e) >>= f) K :=
  SafeIf.call he fun queued _ => h queued

theorem clear_giveString {use : StringUse} {off : Nat} {f : Err → Task α} (hends : K.Ends off)
    (h : ∀ err, Clear handed p Q (f err) K) :
    Clear handed p Q (perform (.giveString use off) >>= f) K := SafeIf.call hends fun err _ => h err

theorem clear_netTransmit {off length : Nat} {f : Unit → Task α}
    (hknows : ∀ i < length, K.Knows (off + i)) (h : Clear handed p Q (f ()) K) :
    Clear handed p Q (perform (.netTransmit off length) >>= f) K :=
  SafeIf.call hknows fun _ _ => h

/-- The rule for one piece of code after another. -/
theorem Clear.bind {R : β → Known → Prop} {q : Task α} {f : α → Task β} (h : Clear handed p Q q K)
    (hf : ∀ a K', Q a K' → Clear handed p R (f a) K') : Clear handed p R (q >>= f) K :=
  SafeIf.andThen h hf

theorem clear_storeBytes {f : Unit → Task α} (bs : List UInt8) : ∀ (K : Known) (off : Nat),
    Clear handed p Q (f ()) (K.write off bs) → Clear handed p Q (storeBytes off bs >>= f) K := by
  induction bs with
  | nil => exact fun K off h => h
  | cons b bs ih => exact fun K off h => clear_store (ih (K.set off b) (off + 1) h)

theorem clear_loadBytes (n : Nat) : ∀ (off : Nat) (f : List UInt8 → Task α),
    (∀ i < n, K.Knows (off + i)) → Clear handed p Q (f (K.bytes off n)) K →
    Clear handed p Q (loadBytes off n >>= f) K := by
  induction n with
  | zero => exact fun off f _ h => h
  | succ n ih =>
      intro off f hknows h
      refine clear_load (by simpa using hknows 0 (by omega)) ?_
      show Clear handed p Q (((loadBytes (off + 1) n).andThen _).andThen f) K
      rw [Prog.andThen_assoc]
      refine ih (off + 1) (fun bs => f (K.byte off :: bs)) (fun i hi => ?_) h
      simpa [Nat.add_assoc, Nat.add_comm 1 i] using hknows (i + 1) (by omega)

theorem clear_load32 {off : Nat} {f : UInt32 → Task α} (hknows : ∀ i < 4, K.Knows (off + i))
    (h : Clear handed p Q (f (UInt32.ofNat (ofLe (K.bytes off 4)))) K) :
    Clear handed p Q (load32 off >>= f) K := by
  show Clear handed p Q (((loadBytes off 4).andThen _).andThen f) K
  rw [Prog.andThen_assoc]
  exact clear_loadBytes 4 off _ hknows h

/-- A response that ends with its transmission. -/
theorem clear_transmitSize {n : Nat} {f : Unit → Task α} (hcovers : K.Covers n)
    (h : ∀ K', Clear handed p Q (f ()) K') : Clear handed p Q (transmitSize n >>= f) K :=
  clear_setSize (clear_transmit hcovers (h _))

theorem clear_setErr {err : Err} {f : Unit → Task α}
    (h : Clear handed p Q (f ()) (K.write 4 (le32 err))) : Clear handed p Q (setErr err >>= f) K :=
  clear_storeBytes _ _ _ h

/-- The common response, on a packet that has a header. -/
theorem clear_respond {err : Err} {f : Unit → Task α} (hcovers : K.Covers 4)
    (h : ∀ K', Clear handed p Q (f ()) K') : Clear handed p Q (respond err >>= f) K := by
  show Clear handed p Q ((setErr err >>= fun _ => transmitSize espcmdResp).andThen f) K
  rw [Prog.bind_eq, Prog.andThen_assoc]
  exact clear_setErr (clear_transmitSize (hcovers.extend (le32 err)) h)

end Rules

/-! ## The handlers -/

/-- A handler that asks for no other byte than the packet's own. -/
def Handles (p : Packet) (q : Task Unit) : Prop := Clear (Served p) p (fun _ _ => True) q p.own

section Handlers

variable {α : Type} {handed : Entry → Known → Prop} {p : Packet} {K : Known}

theorem clear_done : Clear handed p (fun (_ : Unit) _ => True) (.ret ()) K := trivial

theorem clear_ask_end {c : Call} {Q : Reply c → Known → Prop} (h : ∀ r, Q r K) :
    Clear handed p Q (ask c) K := SafeIf.call trivial fun r _ => h r

theorem clear_transmit_end (hcovers : K.Covers K.size) :
    Clear handed p (fun (_ : Unit) _ => True) (perform .transmit) K :=
  SafeIf.call hcovers fun _ _ => trivial

theorem clear_transmitSize_end {n : Nat} (hcovers : K.Covers n) :
    Clear handed p (fun (_ : Unit) _ => True) (transmitSize n) K :=
  clear_setSize (clear_transmit_end hcovers)

theorem clear_respond_end {err : Err} (hcovers : K.Covers 4) :
    Clear handed p (fun (_ : Unit) _ => True) (respond err) K :=
  clear_setErr (clear_transmitSize_end (hcovers.extend (le32 err)))

/-- The response to a packet too short, or that no queue had a place for: its size is
    left as it is. -/
theorem clear_refuse {err : Err} (hcovers : K.Covers K.size) :
    Clear handed p (fun (_ : Unit) _ => True)
      (setErr err >>= fun _ => perform .transmit) K := by
  refine clear_setErr (clear_transmit_end ?_)
  rw [Known.size_write]
  exact hcovers.write 4 _

/-- The error and then a response that is known up to its size. -/
theorem clear_setErr_transmitSize {err : Err} {n : Nat} (hcovers : K.Covers n) :
    Clear handed p (fun (_ : Unit) _ => True) (setErr err >>= fun _ => transmitSize n) K :=
  clear_setErr (clear_transmitSize_end (hcovers.write 4 _))

theorem handles_echo : Handles p cmdEcho := clear_transmit_end (Packet.own_covers (Nat.le_refl _))

theorem handles_identify (h : 33 ≤ p.bytes.length) : Handles p cmdIdentify :=
  clear_storeBytes _ _ _ <| clear_storeBytes _ _ _ <| clear_storeBytes _ _ _ <|
    clear_transmitSize_end ((((Packet.own_covers h).write _ _).write _ _).write _ _)

theorem handles_getmac (h : 16 ≤ p.bytes.length) : Handles p cmdGetmac := by
  refine clear_ask fun r _ => ?_
  by_cases hok : r.1 = espOk
  · rw [if_pos hok]
    exact clear_storeBytes _ _ _ (clear_setErr_transmitSize ((Packet.own_covers h).write _ _))
  · rw [if_neg hok]
    exact clear_setErr_transmitSize (Packet.own_covers h)

theorem handles_setbaud (h : 8 ≤ p.bytes.length) : Handles p cmdSetbaud := by
  have hcovers : ∀ {n : Nat}, n ≤ p.bytes.length → p.own.Covers n := Packet.own_covers
  -- The response lies over the request once the calls are made.
  have hreply : ∀ err, Clear (Served p) p (fun (_ : Unit) _ => True)
      (ask (.delay 1000) >>= fun _ => respond err) p.own := fun err =>
    clear_ask fun _ _ => clear_respond_end (hcovers (by omega))
  have hcalls : Clear (Served p) p (fun _ K => K = p.own) setbaudCalls p.own := by
    refine clear_load32 (fun i hi => hcovers h _ (by omega)) ?_
    refine clear_ask fun err hfine => ?_
    by_cases hok : err = espOk
    · rw [if_pos hok]
      refine clear_load (hcovers (hfine hok) 8 (by omega)) ?_
      refine clear_ask fun err hfine => ?_
      by_cases hok : err = espOk
      · rw [if_pos hok]
        refine clear_load (hcovers (hfine hok) 9 (by omega)) ?_
        exact clear_ask_end fun _ => rfl
      · rw [if_neg hok]
        rfl
    · rw [if_neg hok]
      rfl
  exact hcalls.bind fun err K hK => hK ▸ hreply err

theorem length_records (aps : List ApRecord) :
    (aps.flatMap ApRecord.toBytes).length = aps.length * 42 := by
  induction aps with
  | nil => rfl
  | cons ap aps ih =>
      rw [List.flatMap_cons, List.length_append, ApRecord.length_toBytes, ih, List.length_cons]
      omega

/-- `wifi_scan` on a response with a header: the bytes of the records are written. -/
theorem clear_wifiScan (h : K.Covers 4) :
    Clear handed p (fun r K' => K'.Covers 4 ∧ ∀ i, 8 ≤ i → i < 10 + r.2 * 42 → K'.Knows i)
      wifiScan K := by
  have hhead : ((K.set 9 0).set 8 0).Covers 4 := h.set.set
  have hempty : ∀ i, 8 ≤ i → i < 10 + 0 * 42 → ((K.set 9 0).set 8 0).Knows i := by
    intro i hlo hhi
    rw [Known.knows_set, Known.knows_set]
    omega
  refine clear_store (clear_store (clear_ask fun err _ => ?_))
  by_cases hok : err = espOk
  · rw [if_pos hok]
    refine clear_ask fun num _ => ?_
    by_cases hnum : num.1 = espOk
    · rw [if_pos hnum]
      refine clear_ask fun aps _ => ?_
      by_cases haps : aps.1 = espOk
      · rw [if_pos haps]
        have hlen : ((aps.2.toList.take (min num.2.toNat 24)).flatMap ApRecord.toBytes).length =
            min num.2.toNat 24 * 42 := by
          rw [length_records, List.length_take, Vector.length_toList]
          omega
        refine clear_storeBytes _ _ _ (clear_store ⟨(hhead.write _ _).set, fun i hlo hhi => ?_⟩)
        rw [Known.knows_set, Known.knows_write, hlen, Known.knows_set, Known.knows_set]
        dsimp only at hhi
        omega
      · rw [if_neg haps]
        exact ⟨hhead, hempty⟩
    · rw [if_neg hnum]
      exact ⟨hhead, hempty⟩
  · rw [if_neg hok]
    exact ⟨hhead, hempty⟩

/-- The connector's answer to a scan. -/
theorem served_scan (hasks : p.Asks 0x04) : Served p .scan p.own := by
  intro hheader
  have hcovers : p.own.Covers 4 := Packet.own_covers hheader
  refine clear_ask fun err hfine => ?_
  by_cases hok : err = espOk
  · rw [if_pos hok]
    refine (clear_wifiScan hcovers).bind fun r K h => ?_
    refine clear_storeBytes _ _ _ (clear_transmitSize_end fun i hi => ?_)
    rw [Known.knows_write]
    by_cases hlo : i < 4
    · exact .inr (h.1 i hlo)
    · by_cases hmid : i < 8
      · exact .inl ⟨by omega, by simp only [le32, List.length_cons, List.length_nil]; omega⟩
      · exact .inr (h.2 i (by omega) hi)
  · rw [if_neg hok]
    have hten : p.own.Covers 10 := Packet.own_covers (hfine hasks hok)
    exact clear_storeBytes _ _ _ (clear_store (clear_transmitSize_end (hten.write _ _).set))

theorem handles_scan (hasks : p.Asks 0x04) : Handles p cmdScan := by
  refine clear_send (served_scan hasks) fun queued => ?_
  cases queued with
  | true => exact clear_ask_end fun _ => trivial
  | false => exact clear_refuse (Packet.own_covers (Nat.le_refl _))

/-- The connector's answer to a connection that was asked for. -/
theorem served_connect {ssid pw : List UInt8} {authMode : UInt8} (hsize : K.size = 8)
    (h : K.Covers 4) : Served p (.connect ssid pw authMode) K := by
  intro _
  -- Once the answer is transmitted the buffer is left alone.
  have hanswer : ∀ err, Clear (fun _ _ => False) p (fun (_ : Unit) _ => True)
      (setErr err >>= fun _ => perform .transmit >>= fun _ =>
        if err = espOk then ask .waitEvent >>= fun connected =>
          if connected = true then ask (.storeAp ssid pw authMode) >>= fun err =>
            if err = espOk then ask .setLastAp else pure ()
          else pure ()
        else pure ()) K := by
    intro err
    refine clear_setErr (clear_transmit ?_ ?_)
    · rw [Known.size_write, hsize]
      exact h.extend (le32 err)
    · by_cases hok : err = espOk
      · rw [if_pos hok]
        refine clear_ask fun connected _ => ?_
        cases connected with
        | false => exact clear_done
        | true =>
            refine clear_ask fun err _ => ?_
            by_cases hok : err = espOk
            · rw [if_pos hok]
              exact clear_ask_end fun _ => trivial
            · rw [if_neg hok]
              exact clear_done
      · rw [if_neg hok]
        exact clear_done
  refine clear_ask fun enabled _ => ?_
  by_cases hok : enabled = espOk
  · rw [if_pos hok]
    exact clear_ask fun err _ => hanswer err
  · rw [if_neg hok]
    exact hanswer enabled

theorem handles_wifiConnect (h : p.bytes.length < 98 ∨ 101 ≤ p.bytes.length) :
    Handles p cmdWifiConnect := by
  refine clear_getSize ?_
  by_cases hshort : p.own.size < 98
  · rw [if_pos hshort]
    exact clear_refuse (Packet.own_covers (Nat.le_refl _))
  · rw [if_neg hshort]
    have hlong : 101 ≤ p.bytes.length := by
      have hsize : p.own.size = p.bytes.length := rfl
      omega
    have hcovers : (p.own.resize 8).Covers 101 := Packet.own_covers hlong
    refine clear_setSize (clear_load (hcovers 4 (by omega)) ?_)
    refine clear_loadBytes 32 5 _ (fun i hi => hcovers _ (by omega)) ?_
    refine clear_loadBytes 64 37 _ (fun i hi => hcovers _ (by omega)) ?_
    refine clear_send (served_connect rfl (hcovers.mono (by omega))) fun queued => ?_
    cases queued with
    | true => exact clear_ask_end fun _ => trivial
    | false => exact clear_refuse (hcovers.mono (by simp [espcmdResp]))

theorem served_other {code : UInt8} : Served p (.other code) K := fun _ =>
  clear_ask_end fun _ => trivial

theorem clear_queueAndAnswer {code : UInt8} (hsize : K.size = 8) (h : K.Covers 4) :
    Clear (Served p) p (fun _ _ => True) (queueAndAnswer code) K := by
  have hcovers : ∀ err, (K.write 4 (le32 err)).Covers (K.write 4 (le32 err)).size := fun err => by
    rw [Known.size_write, hsize]
    exact h.extend (le32 err)
  refine clear_send served_other fun queued => ?_
  cases queued with
  | true =>
      exact clear_storeBytes _ _ _ (clear_transmit (hcovers _) (clear_ask_end fun _ => trivial))
  | false => exact clear_storeBytes _ _ _ (clear_transmit_end (hcovers _))

theorem handles_wifiAutoconnect (h : 4 ≤ p.bytes.length) : Handles p cmdWifiAutoconnect :=
  clear_setSize (clear_queueAndAnswer rfl (Packet.own_covers h))

theorem handles_wifiEndisable (h : 4 ≤ p.bytes.length) : Handles p cmdWifiEndisable :=
  clear_setSize <| clear_load (Packet.own_covers h 0 (by omega)) <|
    clear_queueAndAnswer rfl (Packet.own_covers h)

theorem handles_wifiDisconnect (h : 4 ≤ p.bytes.length) : Handles p cmdWifiDisconnect :=
  clear_ask fun _ _ => clear_ask fun _ _ => clear_respond_end (Packet.own_covers h)

theorem handles_sendEthPacket (h : 8 + p.ethLength ≤ p.bytes.length) :
    Handles p cmdSendEthPacket := by
  have hcovers : p.own.Covers (8 + p.ethLength) := Packet.own_covers h
  refine clear_load32 (fun i hi => hcovers _ (by omega)) ?_
  refine clear_netTransmit (fun i hi => ?_) (SafeIf.call trivial fun _ _ => trivial)
  have hlength : i < p.ethLength := hi
  exact hcovers _ (by omega)

theorem handles_off (h : 4 ≤ p.bytes.length) : Handles p cmdOff :=
  clear_respond (Packet.own_covers h) fun _ =>
    clear_ask fun _ _ => clear_ask_end fun _ => trivial

theorem handles_reboot (h : 4 ≤ p.bytes.length) : Handles p cmdReboot :=
  clear_respond (Packet.own_covers h) fun _ =>
    clear_ask fun _ _ => clear_ask fun _ _ => clear_ask fun _ _ => clear_ask_end fun _ => trivial

theorem handles_modemOn (h : 4 ≤ p.bytes.length) : Handles p cmdModemOn := by
  refine clear_ask fun refused _ => clear_respond (Packet.own_covers h) fun _ => ?_
  cases refused with
  | true => exact clear_done
  | false => exact clear_ask_end fun _ => trivial

theorem handles_modemOff (h : 4 ≤ p.bytes.length) : Handles p cmdModemOff :=
  clear_respond (Packet.own_covers h) fun _ => clear_ask_end fun _ => trivial

theorem handles_getVoltages (h : 24 ≤ p.bytes.length) : Handles p cmdGetVoltages :=
  clear_storeBytes _ _ _ <| clear_ask fun _ _ => clear_storeBytes _ _ _ <|
    clear_transmitSize_end (((Packet.own_covers h).write _ _).write _ _)

theorem handles_getConnection (h : 12 ≤ p.bytes.length) : Handles p cmdGetConnection :=
  clear_storeBytes _ _ _ <| clear_ask fun _ _ => clear_store <|
    clear_transmitSize ((Packet.own_covers h).write _ _).set fun _ =>
      clear_ask_end fun _ => trivial

/-- A zero in the packet, behind the header. -/
theorem ends_of_mem (h : 0 ∈ p.bytes.drop 4) : p.own.Ends 4 := by
  obtain ⟨i, hi, hzero⟩ := List.mem_iff_getElem.mp h
  rw [List.length_drop] at hi
  have hfits := p.fits
  refine ⟨i, by omega, ?_, fun j hj => Packet.own_covers (Nat.le_refl _) _ (by omega)⟩
  rw [List.getElem_drop] at hzero
  show p.bytes[4 + i]? = some 0
  rw [List.getElem?_eq_getElem (by omega), hzero]

theorem handles_getTime (h : 0 ∈ p.bytes.drop 4) : Handles p cmdGetTime := by
  have hlong : 4 ≤ p.bytes.length := by
    have hpos := List.length_pos_of_mem h
    rw [List.length_drop] at hpos
    omega
  refine clear_giveString (ends_of_mem h) fun _ => clear_ask fun t _ => ?_
  refine clear_storeBytes _ _ _ (clear_storeBytes _ _ _ (clear_transmitSize_end fun i hi => ?_))
  rw [Known.knows_write, Known.knows_write]
  simp only [le32, le16, List.length_append, List.length_cons, List.length_nil]
  by_cases hlo : i < 4
  · exact .inr (.inr (Packet.own_covers hlong i hlo))
  · omega

theorem handles_clearAps (h : 4 ≤ p.bytes.length) : Handles p cmdClearAps := by
  have hcovers : (p.own.resize 8).Covers 4 := Packet.own_covers h
  refine clear_setSize (clear_ask fun err _ => clear_storeBytes _ _ _ ?_)
  by_cases hok : err = espOk
  · rw [if_pos hok]
    refine clear_ask fun err _ => clear_storeBytes _ _ _ (clear_transmit_end ?_)
    rw [Known.size_write, Known.size_write]
    exact (hcovers.write 4 _).extend (le32 err)
  · rw [if_neg hok]
    refine clear_transmit_end ?_
    rw [Known.size_write]
    exact hcovers.extend (le32 err)

/-- A serial number that ends in the packet, or that the packet holds whole. -/
theorem ends_of_serial (h : 19 ≤ p.bytes.length ∨ 0 ∈ p.bytes.drop 4) :
    (p.own.set 19 0).Ends 4 := by
  rcases h with h | h
  · refine ⟨15, by decide, rfl, fun j hj => ?_⟩
    exact Known.knows_set.mpr (.inr (Packet.own_covers h _ (by omega)))
  · obtain ⟨i, hi, hzero, hknows⟩ := ends_of_mem h
    refine ⟨i, hi, ?_, fun j hj => Known.knows_set.mpr (.inr (hknows j hj))⟩
    by_cases hpos : 4 + i = 19
    · simp [Known.set, hpos]
    · simpa [Known.set, hpos] using hzero

theorem handles_setSerial (h : 4 ≤ p.bytes.length) : Handles p cmdSetSerial := by
  have hcovers : p.own.Covers 4 := Packet.own_covers h
  have hstore : Clear (Served p) p (fun _ K => K.Covers 4) storeSerial p.own := by
    refine clear_ask fun err _ => ?_
    by_cases hok : err = espOk
    · rw [if_pos hok]
      refine clear_ask fun err2 hfine => ?_
      by_cases hnew : err2 = espErrNvsNotFound
      · rw [if_pos hnew]
        refine clear_store (clear_giveString (ends_of_serial (hfine hnew)) fun err => ?_)
        by_cases hset : err = espOk
        · rw [if_pos hset]
          exact clear_ask_end fun _ => hcovers.set
        · rw [if_neg hset]
          exact hcovers.set
      · rw [if_neg hnew]
        exact hcovers
    · rw [if_neg hok]
      exact hcovers
  exact hstore.bind fun err K hK => clear_respond_end hK

/-- A string of the module's that fills its field, or a packet as long as the
    response. -/
theorem covers_string {n length : Nat} (h : 4 ≤ p.bytes.length) {s : Fitting length}
    (hs : n ≤ p.bytes.length ∨ s.bytes.length + 1 = length) (hn : n = 8 + length) (err : Err) :
    ((p.own.write 8 (s.bytes ++ [0])).write 4 (le32 err)).Covers n := by
  rcases hs with hlong | hfull
  · exact ((Packet.own_covers hlong).write _ _).write _ _
  · intro i hi
    rw [Known.knows_write, Known.knows_write]
    simp only [le32, List.length_append, List.length_cons, List.length_nil]
    by_cases hlo : i < 4
    · exact .inr (.inr (Packet.own_covers h i hlo))
    · omega

theorem handles_getSerial (h : 4 ≤ p.bytes.length) (hasks : p.Asks 0x15) :
    Handles p cmdGetSerial := by
  refine clear_ask fun err hopen => ?_
  by_cases hok : err = espOk
  · rw [if_pos hok]
    refine clear_ask fun r hfine => ?_
    cases r with
    | error err => exact clear_setErr_transmitSize (Packet.own_covers hfine)
    | ok serial =>
        have hs : 24 ≤ p.bytes.length ∨ serial.bytes.length + 1 = 16 :=
          hfine.imp id fun hfull => by omega
        exact clear_storeBytes _ _ _ <| clear_storeBytes _ _ _ <|
          clear_transmitSize_end (covers_string h hs rfl espOk)
  · rw [if_neg hok]
    exact clear_setErr_transmitSize (Packet.own_covers (hopen hasks hok))

theorem handles_setByte {store : UInt8 → Call} {errOf : ∀ b, Reply (store b) → Err}
    (h : 4 ≤ p.bytes.length) : Handles p (setByte store errOf) := by
  refine clear_getSize ?_
  by_cases hshort : p.own.size < 6
  · rw [if_pos hshort]
    exact clear_respond_end (Packet.own_covers h)
  · rw [if_neg hshort]
    have hlong : 6 ≤ p.bytes.length := Nat.le_of_not_lt hshort
    refine clear_load (Packet.own_covers hlong 4 (by omega)) (clear_ask fun r _ => ?_)
    exact clear_respond_end (Packet.own_covers h)

theorem handles_getPowerMode (h : 12 ≤ p.bytes.length) : Handles p cmdGetPowerMode :=
  clear_ask fun _ _ => clear_store <| clear_ask fun _ _ => clear_store <|
    clear_setErr_transmitSize (Packet.own_covers h).set.set

theorem handles_getWakeOnWifi (h : 12 ≤ p.bytes.length) : Handles p cmdGetWakeOnWifi :=
  clear_ask fun _ _ => clear_store <| clear_setErr_transmitSize (Packet.own_covers h).set

theorem handles_setRecoveryUrl (h : 4 ≤ p.bytes.length) : Handles p cmdSetRecoveryUrl := by
  refine clear_getSize ?_
  by_cases hshort : p.own.size < 4 + recoveryUrlLen
  · rw [if_pos hshort]
    exact clear_respond_end (Packet.own_covers h)
  · rw [if_neg hshort]
    have hlong : 4 + recoveryUrlLen ≤ p.bytes.length := Nat.le_of_not_lt hshort
    refine clear_loadBytes _ 4 _ (fun i hi => Packet.own_covers hlong _ (by omega)) ?_
    split
    · exact clear_ask fun _ _ => clear_respond_end (Packet.own_covers h)
    · exact clear_respond_end (Packet.own_covers h)

theorem handles_getRecoveryUrl (h : 4 ≤ p.bytes.length) : Handles p cmdGetRecoveryUrl := by
  -- What is left of the response once the URL is there.
  have hshort : ∀ {K : Known} (err : Err), 136 ≤ p.bytes.length → K = (p.own.set 8 0).set 8 0 →
      K.Covers (8 + recoveryUrlLen) := by
    intro K err hlong hK
    subst hK
    exact (Packet.own_covers hlong).set.set
  have hget : Clear (Served p) p
      (fun err K => (K.write 4 (le32 err)).Covers (8 + recoveryUrlLen)) recoveryGetUrl p.own := by
    refine clear_store (clear_ask fun err hfine => ?_)
    by_cases hok : err = espOk
    · rw [if_pos hok]
      refine clear_ask fun r hfine => ?_
      cases r with
      | error err => exact clear_store ((hshort err hfine rfl).write _ _)
      | ok url =>
          refine clear_storeBytes _ _ _ ?_
          have hs : 136 ≤ p.bytes.length ∨ url.bytes.length + 1 = 128 :=
            hfine.imp id fun hfull => by omega
          -- The first byte is written twice.
          intro i hi
          have hknows := covers_string h hs rfl espOk i hi
          rw [Known.knows_write, Known.knows_write] at hknows
          rw [Known.knows_write, Known.knows_write, Known.knows_set]
          tauto
    · rw [if_neg hok]
      exact clear_store ((hshort err (hfine hok) rfl).write _ _)
  exact hget.bind fun err K hK => clear_setErr (clear_transmitSize_end hK)

end Handlers

theorem handles_handlerOf {p : Packet} {command : UInt8} {rest : List UInt8} (hp : p.bytes = command :: rest)
    (h : Clean p) : Handles p (handlerOf command) := by
  have hasks : p.Asks command := by simp [Packet.Asks, hp]
  rw [Clean, hp] at h
  dsimp only at h
  rw [← hp] at h
  rw [handlerOf.eq_def]
  split
  · exact handles_echo
  · exact handles_identify h
  · exact handles_setbaud h
  · exact handles_scan hasks
  · exact handles_wifiConnect h
  · exact handles_wifiDisconnect h
  · exact handles_getmac h
  · exact handles_sendEthPacket h
  · exact handles_modemOn h
  · exact handles_modemOff h
  · exact handles_getConnection h
  · exact handles_getVoltages h
  · exact handles_wifiEndisable h
  · exact handles_wifiEndisable h
  · exact handles_off h
  · exact handles_getTime h
  · exact handles_clearAps h
  · exact handles_wifiAutoconnect h
  · exact handles_reboot h
  · exact handles_setSerial h
  · exact handles_getSerial h hasks
  · exact handles_setByte h
  · exact handles_getPowerMode h
  · exact handles_setByte h
  · exact handles_getWakeOnWifi h
  · exact handles_setRecoveryUrl h
  · exact handles_getRecoveryUrl h
  · exact clear_respond_end (Packet.own_covers (by simp_all))

/-- A clean packet is handled with what it brings itself. -/
theorem handles_dispatch {p : Packet} (h : Clean p) : Handles p dispatch := by
  cases hp : p.bytes with
  | nil =>
      rw [Clean, hp] at h
      exact h.elim
  | cons command rest =>
      have hbyte : p.own.byte 0 = command := by simp [Known.byte, Packet.own, hp]
      have hlong : 1 ≤ p.bytes.length := by simp [hp]
      refine clear_load (Packet.own_covers hlong 0 (by omega)) ?_
      rw [hbyte]
      exact handles_handlerOf hp h

end RpcDispatch
