import Ultimate1541.SocketDmaProofs

/-! # What the socket DMA server makes of a stream

    What a client sends is a sequence of commands, which can be read off the stream without
    regard to how the network delivers it.  The server performs those commands as long as each
    header field comes in one piece and the client does not close inside a payload; then the
    calls are those of the stream up to the first that is refused. -/

namespace SocketDma

/-! ## Receiving -/

namespace Net

theorem recv_eq_nil {net : Net} {asked : Nat} (hasked : 0 < asked) : net.recv asked = [] ↔ net.input = [] := by
  have hsize : net.size asked ≠ 0 := by rw [size]; omega
  rw [recv, List.take_eq_nil_iff]
  exact or_iff_right hsize

theorem recv_length_le (net : Net) (asked : Nat) : (net.recv asked).length ≤ asked := by
  rw [recv, List.length_take, size]
  omega

theorem recv_append_after (net : Net) (asked : Nat) : net.recv asked ++ (net.after asked).input = net.input :=
  List.take_append_drop _ _

/-- A field that came in one piece is taken off the stream. -/
theorem after_of_whole {net : Net} {asked : Nat} (h : net.recv asked = net.input.take asked) :
    (net.after asked).input = net.input.drop asked := by
  have hall := net.recv_append_after asked
  rw [h] at hall
  exact List.append_cancel_left (hall.trans (List.take_append_drop asked net.input).symm)

/-- A single byte always comes in one piece. -/
theorem recv_one (net : Net) : net.recv 1 = net.input.take 1 := by
  have hsize : net.size 1 = 1 := by rw [size]; omega
  rw [recv, hsize]

/-- However the network delivers a payload, all of it is received that is sent. -/
theorem readLoop_spec {fuel maxRemain : Nat} {net : Net} (hfuel : maxRemain ≤ fuel) :
    (readLoop fuel maxRemain net).1 = net.input.take maxRemain ∧
      (readLoop fuel maxRemain net).2.input = net.input.drop maxRemain := by
  induction fuel generalizing maxRemain net with
  | zero =>
      rw [Nat.le_zero.mp hfuel]
      exact ⟨rfl, rfl⟩
  | succ fuel ih =>
      rw [readLoop]
      by_cases hmore : 0 < maxRemain
      · rw [if_pos hmore]
        have hasked : 0 < min maxRemain 8192 := by omega
        by_cases hnone : net.recv (min maxRemain 8192) = []
        · rw [if_pos hnone]
          have hinput := (recv_eq_nil hasked).mp hnone
          simp [after, hinput]
        · rw [if_neg hnone]
          have hle := net.recv_length_le (min maxRemain 8192)
          have hpos := List.length_pos_iff.mpr hnone
          have hall := net.recv_append_after (min maxRemain 8192)
          obtain ⟨hbytes, hrest⟩ := @ih (maxRemain - (net.recv (min maxRemain 8192)).length)
            (net.after (min maxRemain 8192)) (by omega)
          have htake : (net.recv (min maxRemain 8192)).take maxRemain = net.recv (min maxRemain 8192) :=
            List.take_of_length_le (by omega)
          have hdrop : (net.recv (min maxRemain 8192)).drop maxRemain = [] :=
            List.drop_eq_nil_of_le (by omega)
          simp only [hbytes, hrest]
          rw [← hall, List.take_append, List.drop_append, htake, hdrop, List.nil_append]
          exact ⟨rfl, rfl⟩
      · have hzero : maxRemain = 0 := by omega
        rw [if_neg hmore, hzero]
        exact ⟨rfl, rfl⟩

theorem readSocket_spec (maxRemain : Nat) (net : Net) :
    (net.readSocket maxRemain).1 = net.input.take maxRemain ∧
      (net.readSocket maxRemain).2.input = net.input.drop maxRemain :=
  readLoop_spec (Nat.le_refl maxRemain)

end Net

/-! ## The commands of a stream -/

/-- A command as the client sends it. -/
structure Message where
  cmd : UInt16
  payload : List UInt8
  deriving DecidableEq, Repr

/-- What a stream begins with. -/
inductive Head where
  /-- The stream ends before the first byte of a payload. -/
  | ended
  /-- A word that is no command. -/
  | illegal (rest : List UInt8)
  | message (m : Message) (rest : List UInt8)
  /-- The stream ends inside a payload. -/
  | cut
  /-- The payload is longer than the load buffer. -/
  | tooLong

/-- The command word of two bytes. -/
def cmdWord (b0 b1 : UInt8) : UInt16 := b0.toUInt16 ||| b1.toUInt16 <<< 8

/-- What follows a header. -/
def payloadHead (cmd : UInt16) (len : Nat) (rest : List UInt8) : Head :=
  if len ≤ rest.length then
    if socketBufferSize < len then .tooLong else .message ⟨cmd, rest.take len⟩ (rest.drop len)
  else if rest = [] then .ended
  else .cut

/-- What follows two bytes of a length that has three. -/
def wideHead (cmd : UInt16) (low : Nat) : List UInt8 → Head
  | [] => .ended
  | l2 :: rest => payloadHead cmd (low + 65536 * l2.toNat) rest

/-- What follows a command word. -/
def lengthHead (cmd : UInt16) : List UInt8 → Head
  | [] => .ended
  | [_] => .ended
  | l0 :: l1 :: rest =>
      if Command.isWide cmd then wideHead cmd (word l0 l1) rest else payloadHead cmd (word l0 l1) rest

def head : List UInt8 → Head
  | [] => .ended
  | [_] => .ended
  | b0 :: b1 :: rest =>
      if cmdWord b0 b1 &&& 0xFF00 ≠ 0xFF00 then .illegal rest else lengthHead (cmdWord b0 b1) rest

/-- The commands of a stream, which are less than `fuel`. -/
def parse : (fuel : Nat) → List UInt8 → List Message
  | 0, _ => []
  | fuel + 1, input =>
      match head input with
      | .illegal rest => parse fuel rest
      | .message m rest => m :: parse fuel rest
      | _ => []

/-- The commands of a stream. -/
def messages (input : List UInt8) : List Message := parse (input.length + 1) input

theorem payloadHead_message {cmd : UInt16} {len : Nat} {rest rest' : List UInt8} {m : Message}
    (h : payloadHead cmd len rest = .message m rest') :
    len ≤ rest.length ∧ len ≤ socketBufferSize ∧ m = ⟨cmd, rest.take len⟩ ∧ rest' = rest.drop len := by
  rw [payloadHead] at h
  split at h
  next hlen =>
    split at h
    next => exact nomatch h
    next hfits =>
      injection h with hm hrest
      exact ⟨hlen, Nat.not_lt.mp hfits, hm.symm, hrest.symm⟩
  next => split at h <;> exact nomatch h

theorem payloadHead_ended {cmd : UInt16} {len : Nat} {rest : List UInt8} (h : payloadHead cmd len rest = .ended) :
    len ≠ 0 ∧ rest = [] := by
  rw [payloadHead] at h
  split at h
  next => split at h <;> exact nomatch h
  next hlen =>
    split at h
    next hnil => exact ⟨by omega, hnil⟩
    next => exact nomatch h

theorem payloadHead_ne_illegal {cmd : UInt16} {len : Nat} {rest rest' : List UInt8} :
    payloadHead cmd len rest ≠ .illegal rest' := by
  rw [payloadHead]
  split
  · split <;> exact nofun
  · split <;> exact nofun

/-- A command's header is four or five bytes, and the payload follows. -/
theorem lengthHead_message {cmd : UInt16} {input rest : List UInt8} {m : Message}
    (h : lengthHead cmd input = .message m rest) :
    ∃ l0 l1 tail, input = l0 :: l1 :: tail ∧
      (Command.isWide cmd = false ∧ payloadHead cmd (word l0 l1) tail = .message m rest ∨
        Command.isWide cmd = true ∧ ∃ l2 tail', tail = l2 :: tail' ∧
          payloadHead cmd (word l0 l1 + 65536 * l2.toNat) tail' = .message m rest) := by
  match input, h with
  | l0 :: l1 :: tail, h =>
      refine ⟨l0, l1, tail, rfl, ?_⟩
      rw [lengthHead.eq_3] at h
      cases hwide : Command.isWide cmd with
      | false =>
          rw [hwide, if_neg Bool.false_ne_true] at h
          exact .inl ⟨rfl, h⟩
      | true =>
          rw [hwide, if_pos rfl] at h
          match tail, h with
          | l2 :: tail', h => exact .inr ⟨rfl, l2, tail', rfl, h⟩

theorem lengthHead_ne_illegal {cmd : UInt16} {input rest : List UInt8} :
    lengthHead cmd input ≠ .illegal rest := by
  match input with
  | [] => exact nofun
  | [_] => exact nofun
  | l0 :: l1 :: tail =>
      rw [lengthHead.eq_3]
      split
      · match tail with
        | [] => exact nofun
        | l2 :: tail => exact payloadHead_ne_illegal
      · exact payloadHead_ne_illegal

/-- Every command takes some bytes of the stream. -/
theorem head_message_length {input rest : List UInt8} {m : Message} (h : head input = .message m rest) :
    rest.length < input.length := by
  match input, h with
  | b0 :: b1 :: tail, h =>
      rw [head.eq_3] at h
      split at h
      next => exact nomatch h
      next =>
        obtain ⟨l0, l1, tail, rfl, ⟨_, hp⟩ | ⟨_, l2, tail', rfl, hp⟩⟩ := lengthHead_message h
        · obtain ⟨_, _, _, rfl⟩ := payloadHead_message hp
          simp only [List.length_drop, List.length_cons]
          omega
        · obtain ⟨_, _, _, rfl⟩ := payloadHead_message hp
          simp only [List.length_drop, List.length_cons]
          omega

theorem head_illegal {input rest : List UInt8} (h : head input = .illegal rest) :
    ∃ b0 b1, input = b0 :: b1 :: rest ∧ cmdWord b0 b1 &&& 0xFF00 ≠ 0xFF00 := by
  match input, h with
  | b0 :: b1 :: tail, h =>
      rw [head.eq_3] at h
      split at h
      next hill =>
        injection h with hrest
        exact ⟨b0, b1, by rw [hrest], hill⟩
      next => exact absurd h lengthHead_ne_illegal

/-- More fuel reads no more commands. -/
theorem parse_eq_messages {fuel : Nat} :
    ∀ {input : List UInt8}, input.length < fuel → parse fuel input = messages input := by
  induction fuel using Nat.strongRecOn with
  | ind fuel ih =>
      intro input hfuel
      cases fuel with
      | zero => omega
      | succ fuel =>
          rw [messages, parse, parse]
          cases hhead : head input with
          | illegal rest =>
              obtain ⟨b0, b1, rfl, _⟩ := head_illegal hhead
              simp only [List.length_cons] at hfuel ⊢
              rw [ih fuel (Nat.lt_succ_self _) (by omega), ih (rest.length + 2) (by omega) (by omega)]
          | message m rest =>
              have hlt := head_message_length hhead
              dsimp only
              rw [ih fuel (Nat.lt_succ_self _) (by omega), ih input.length (by omega) hlt]
          | ended => rfl
          | cut => rfl
          | tooLong => rfl

theorem messages_eq (input : List UInt8) :
    messages input =
      match head input with
      | .illegal rest => messages rest
      | .message m rest => m :: messages rest
      | _ => [] := by
  rw [messages, parse]
  cases hhead : head input with
  | illegal rest =>
      obtain ⟨b0, b1, rfl, _⟩ := head_illegal hhead
      exact parse_eq_messages (by simp only [List.length_cons]; omega)
  | message m rest =>
      have hlt := head_message_length hhead
      exact congrArg (m :: ·) (parse_eq_messages hlt)
  | ended => rfl
  | cut => rfl
  | tooLong => rfl

/-! ## One turn -/

theorem cmdWord_toNat (lo hi : UInt8) : (cmdWord lo hi).toNat = word lo hi := by
  have hlo := lo.toNat_lt
  have hhi := hi.toNat_lt
  have hshift : hi.toNat <<< 8 % 2 ^ 16 = hi.toNat <<< 8 := by
    rw [Nat.shiftLeft_eq]
    omega
  rw [cmdWord, UInt16.toNat_or, UInt16.toNat_shiftLeft]
  show lo.toNat ||| hi.toNat <<< 8 % 2 ^ 16 = lo.toNat + 256 * hi.toNat
  rw [hshift, Nat.or_comm, ← Nat.shiftLeft_add_eq_or_of_lt hlo, Nat.shiftLeft_eq]
  omega

/-- The high byte of a command word is not zero. -/
theorem legal_hi {b0 b1 : UInt8} (h : cmdWord b0 b1 &&& 0xFF00 = 0xFF00) : b1 ≠ 0 := by
  rintro rfl
  have hle : (cmdWord b0 0 &&& 0xFF00).toNat ≤ (cmdWord b0 0).toNat := by
    rw [UInt16.toNat_and]
    exact Nat.and_le_left
  have hlt := b0.toNat_lt
  have hzero : (0 : UInt8).toNat = 0 := rfl
  have hmask : (0xFF00 : UInt16).toNat = 65280 := rfl
  rw [h, cmdWord_toNat, word, hmask, hzero] at hle
  omega

/-- The length of a command comes in one piece, behind a command word that did. -/
def wholeLength (net : Net) : List UInt8 → Bool
  | b0 :: b1 :: rest => cmdWord b0 b1 &&& 0xFF00 = 0xFF00 → (net.after 2).recv 2 = rest.take 2
  | _ => true

/-- The two fields of a header that are longer than a byte come in one piece each. -/
def wholeHeader (net : Net) : Bool := net.recv 2 = net.input.take 2 && wholeLength net net.input

theorem wholeHeader_cmd {net : Net} (h : wholeHeader net) : net.recv 2 = net.input.take 2 := by
  rw [wholeHeader, Bool.and_eq_true] at h
  exact of_decide_eq_true h.1

theorem wholeHeader_length {net : Net} {b0 b1 : UInt8} {rest : List UInt8} (h : wholeHeader net)
    (hinput : net.input = b0 :: b1 :: rest) (hlegal : cmdWord b0 b1 &&& 0xFF00 = 0xFF00) :
    (net.after 2).recv 2 = rest.take 2 := by
  rw [wholeHeader, Bool.and_eq_true, hinput] at h
  exact of_decide_eq_true h.2 hlegal

/-- How much of a header's last field was received. -/
def lastField (cmd : UInt16) : Nat := if Command.isWide cmd then 1 else 2

/-- The length that the server gives a command. -/
def Message.count (m : Message) : Nat := if m.payload = [] then lastField m.cmd else m.payload.length

theorem loaded_nil (load : Nat → UInt8) : loaded load [] = load := rfl

theorem payload_message {s : Settings} {c : Conn} {cmd : UInt16} {len : Nat} {m : Message}
    {rest : List UInt8} (h : payloadHead cmd len c.net.input = .message m rest) :
    ∃ net, net.input = rest ∧
      c.payload s cmd (lastField cmd) (min socketBufferSize len) =
        Conn.perform s m.count m.cmd m.payload.length { c with net, load := loaded c.load m.payload } := by
  obtain ⟨hlen, hfits, rfl, rfl⟩ := payloadHead_message h
  obtain ⟨hbytes, hrest⟩ := c.net.readSocket_spec len
  have htake : (c.net.input.take len).length = len := List.length_take_of_le hlen
  rw [Nat.min_eq_right hfits, Conn.payload, Message.count]
  by_cases hzero : len = 0
  · subst hzero
    have hlast : lastField cmd ≠ 0 := by rw [lastField]; split <;> omega
    refine ⟨c.net, rfl, ?_⟩
    rw [if_neg (fun h => h rfl), if_neg hlast]
    rfl
  · have hsome : c.net.input.take len ≠ [] := fun h => hzero (by rw [← htake, h]; rfl)
    refine ⟨(c.net.readSocket len).2, hrest, ?_⟩
    rw [if_pos hzero, hbytes, if_neg hsome, if_neg hsome, htake]

/-- If the stream ends before a payload that is asked for, or in the last field of the header,
    nothing is performed. -/
theorem payload_ended {s : Settings} {c : Conn} {cmd : UInt16} {n len : Nat} (hlen : len ≠ 0 ∨ n = 0)
    (hinput : c.net.input = []) : (c.payload s cmd n len).1.calls = c.calls ∧ (c.payload s cmd n len).2 = false := by
  have hnone : (c.net.readSocket len).1 = [] := by rw [(c.net.readSocket_spec len).1, hinput, List.take_nil]
  rw [Conn.payload]
  by_cases hzero : len = 0
  · rw [if_neg (not_not.mpr hzero), if_pos (hlen.resolve_left (not_not.mpr hzero))]
    exact ⟨rfl, rfl⟩
  · rw [if_pos hzero, if_pos hnone]
    exact ⟨rfl, rfl⟩

/-- Where a command word and its length come in one piece each, the turn goes on with the two
    bytes of the length. -/
theorem turn_length {s : Settings} {c : Conn} {b0 b1 : UInt8} {tail : List UInt8}
    (hinput : c.net.input = b0 :: b1 :: tail) (hwhole : wholeHeader c.net)
    (hlegal : cmdWord b0 b1 &&& 0xFF00 = 0xFF00) :
    ∃ net, net.input = tail ∧ net.recv 2 = tail.take 2 ∧
      c.turn s = Conn.length s (cmdWord b0 b1) { c with net, header := ⟨b0, b1, c.header.b2⟩ } := by
  have hcmd := wholeHeader_cmd hwhole
  have hrest : (c.net.after 2).input = tail := by
    rw [Net.after_of_whole hcmd, hinput]
    rfl
  have hrecv : c.net.recv 2 = [b0, b1] := by
    rw [hcmd, hinput]
    rfl
  refine ⟨c.net.after 2, hrest, wholeHeader_length hwhole hinput hlegal, ?_⟩
  have hword : ¬((c.header.receive [b0, b1]).word &&& 0xFF00 ≠ 0xFF00) := not_not.mpr hlegal
  rw [Conn.turn, hrecv, if_neg (List.cons_ne_nil _ _), if_neg hword]
  rfl

/-- A command whose header comes in pieces of its fields is performed with its own payload. -/
theorem turn_message {s : Settings} {c : Conn} {m : Message} {rest : List UInt8}
    (hwhole : wholeHeader c.net) (h : head c.net.input = .message m rest) :
    ∃ net header, net.input = rest ∧
      c.turn s =
        Conn.perform s m.count m.cmd m.payload.length
          { c with net, header, load := loaded c.load m.payload } := by
  cases hinput : c.net.input with
  | nil => rw [hinput] at h; exact nomatch h
  | cons b0 tail =>
    cases tail with
    | nil => rw [hinput] at h; exact nomatch h
    | cons b1 tail =>
      rw [hinput, head.eq_3] at h
      split at h
      next => exact nomatch h
      next hlegal =>
        obtain ⟨net, hnet, hrecv, hturn⟩ := turn_length hinput hwhole (not_not.mp hlegal)
        obtain ⟨l0, l1, tail, rfl, hp⟩ := lengthHead_message h
        have hfield : net.recv 2 = [l0, l1] := hrecv
        have hafter : (net.after 2).input = tail := by
          rw [Net.after_of_whole (hnet.symm ▸ hrecv), hnet]
          rfl
        have hlow : (Header.receive ⟨b0, b1, c.header.b2⟩ [l0, l1]).word.toNat = word l0 l1 :=
          cmdWord_toNat l0 l1
        rw [hturn, Conn.length, hfield, if_neg (List.cons_ne_nil _ _), hlow]
        obtain ⟨hwide, hp⟩ | ⟨hwide, l2, tail', rfl, hp⟩ := hp
        · have hlast : ([l0, l1] : List UInt8).length = lastField (cmdWord b0 b1) := by
            rw [lastField, hwide]
            rfl
          rw [hwide, if_neg Bool.false_ne_true, hlast]
          obtain ⟨net', hrest, hpay⟩ := payload_message (s := s)
            (c := { c with net := net.after 2, header := Header.receive ⟨b0, b1, c.header.b2⟩ [l0, l1] })
            (hafter.symm ▸ hp)
          exact ⟨net', _, hrest, hpay⟩
        · have hthird : (net.after 2).recv 1 = [l2] := by
            rw [Net.recv_one, hafter]
            rfl
          have hafter' : ((net.after 2).after 1).input = tail' := by
            rw [Net.after_of_whole (Net.recv_one _), hafter]
            rfl
          have hlast : ([l2] : List UInt8).length = lastField (cmdWord b0 b1) := by
            rw [lastField, hwide]
            rfl
          rw [hwide, if_pos rfl, hthird, hlast]
          obtain ⟨net', hrest, hpay⟩ := payload_message (s := s)
            (c := { c with
              net := (net.after 2).after 1
              header := (Header.receive ⟨b0, b1, c.header.b2⟩ [l0, l1]).receiveThird [l2] })
            (hafter'.symm ▸ hp)
          exact ⟨net', _, hrest, hpay⟩

/-- A word that is no command is passed over. -/
theorem turn_illegal {s : Settings} {c : Conn} {rest : List UInt8} (hwhole : wholeHeader c.net)
    (h : head c.net.input = .illegal rest) :
    ∃ net header, net.input = rest ∧ c.turn s = ({ c with net, header }, true) := by
  obtain ⟨b0, b1, hinput, hill⟩ := head_illegal h
  have hcmd := wholeHeader_cmd hwhole
  have hrecv : c.net.recv 2 = [b0, b1] := by
    rw [hcmd, hinput]
    rfl
  refine ⟨c.net.after 2, c.header.receive [b0, b1], ?_, ?_⟩
  · rw [Net.after_of_whole hcmd, hinput]
    rfl
  · have hword : (c.header.receive [b0, b1]).word &&& 0xFF00 ≠ 0xFF00 := hill
    rw [Conn.turn, hrecv, if_neg (List.cons_ne_nil _ _), if_pos hword]

/-- If the stream ends in the length or right behind it, a payload is asked for that does not
    come: what stands where the length should be is not zero. -/
theorem length_ended {s : Settings} {c : Conn} {cmd : UInt16} (hb1 : c.header.b1 ≠ 0)
    (hwhole : c.net.recv 2 = c.net.input.take 2) (h : lengthHead cmd c.net.input = .ended) :
    (c.length s cmd).1.calls = c.calls ∧ (c.length s cmd).2 = false := by
  have hafter := Net.after_of_whole hwhole
  -- an empty stream stays empty
  have hnil : ∀ net : Net, net.input = [] → (net.after 1).input = [] := by
    intro net hnet
    rw [Net.after, hnet, List.drop_nil]
  cases hinput : c.net.input with
  | nil =>
    have hnone : c.net.recv 2 = [] := (Net.recv_eq_nil (by omega)).mpr hinput
    rw [Conn.length, if_pos hnone]
    exact ⟨rfl, rfl⟩
  | cons l0 tail =>
    cases tail with
    | nil =>
      have hempty : (c.net.after 2).input = [] := by rw [hafter, hinput]; rfl
      have hrecv : c.net.recv 2 = [l0] := by rw [hwhole, hinput]; rfl
      have hlow : (c.header.receive [l0]).word.toNat = word l0 c.header.b1 := cmdWord_toNat l0 c.header.b1
      have hpos : word l0 c.header.b1 ≠ 0 := by
        have : c.header.b1.toNat ≠ 0 := fun h => hb1 (UInt8.toNat_inj.mp h)
        rw [word]
        omega
      rw [Conn.length, hrecv, if_neg (List.cons_ne_nil _ _), hlow]
      split
      next => exact payload_ended (.inl (by rw [socketBufferSize]; omega)) (hnil _ hempty)
      next => exact payload_ended (.inl (by rw [socketBufferSize]; omega)) hempty
    | cons l1 tail =>
      have hrest : (c.net.after 2).input = tail := by rw [hafter, hinput]; rfl
      have hrecv : c.net.recv 2 = [l0, l1] := by rw [hwhole, hinput]; rfl
      have hlow : (c.header.receive [l0, l1]).word.toNat = word l0 l1 := cmdWord_toNat l0 l1
      rw [hinput, lengthHead.eq_3] at h
      rw [Conn.length, hrecv, if_neg (List.cons_ne_nil _ _), hlow]
      split at h
      next hwide =>
        rw [if_pos hwide]
        match tail, h with
        | [], _ =>
          have hthird : (c.net.after 2).recv 1 = [] := (Net.recv_eq_nil (by omega)).mpr hrest
          rw [hthird]
          exact payload_ended (.inr rfl) (hnil _ hrest)
        | l2 :: tail, h =>
          obtain ⟨hlen, rfl⟩ := payloadHead_ended h
          have hthird : (c.net.after 2).recv 1 = [l2] := by rw [Net.recv_one, hrest]; rfl
          have hempty : ((c.net.after 2).after 1).input = [] := by
            rw [Net.after_of_whole (Net.recv_one _), hrest]
            rfl
          rw [hthird]
          refine payload_ended (.inl ?_) hempty
          show min socketBufferSize (word l0 l1 + 65536 * l2.toNat) ≠ 0
          rw [socketBufferSize]
          omega
      next hwide =>
        obtain ⟨hlen, rfl⟩ := payloadHead_ended h
        rw [if_neg hwide]
        exact payload_ended (.inl (by rw [socketBufferSize]; omega)) hrest

/-- If the stream ends before a payload, nothing is performed, whatever the buffer has where
    the header should be. -/
theorem turn_ended {s : Settings} {c : Conn} (hwhole : wholeHeader c.net) (h : head c.net.input = .ended) :
    (c.turn s).1.calls = c.calls ∧ ((c.turn s).2 = true → (c.turn s).1.net.input = []) := by
  cases hinput : c.net.input with
  | nil =>
    have hnone : c.net.recv 2 = [] := (Net.recv_eq_nil (by omega)).mpr hinput
    rw [Conn.turn, if_pos hnone]
    exact ⟨rfl, nofun⟩
  | cons b0 tail =>
    cases tail with
    | nil =>
      have hcmd := wholeHeader_cmd hwhole
      have hafter : (c.net.after 2).input = [] := by
        rw [Net.after_of_whole hcmd, hinput]
        rfl
      have hnone : (c.net.after 2).recv 2 = [] := (Net.recv_eq_nil (by omega)).mpr hafter
      have hrecv : c.net.recv 2 = [b0] := by
        rw [hcmd, hinput]
        rfl
      rw [Conn.turn, hrecv, if_neg (List.cons_ne_nil _ _)]
      split
      next => exact ⟨rfl, fun _ => hafter⟩
      next =>
        rw [Conn.length, if_pos hnone]
        exact ⟨rfl, nofun⟩
    | cons b1 tail =>
      rw [hinput, head.eq_3] at h
      split at h
      next => exact nomatch h
      next hlegal =>
        have hb1 := legal_hi (not_not.mp hlegal)
        obtain ⟨net, hnet, hrecv, hturn⟩ := turn_length hinput hwhole (not_not.mp hlegal)
        rw [hturn]
        obtain ⟨hcalls, hstop⟩ := length_ended (s := s)
          (c := { c with net, header := ⟨b0, b1, c.header.b2⟩ }) hb1 (hnet.symm ▸ hrecv) (hnet.symm ▸ h)
        exact ⟨hcalls, fun hgo => absurd (hstop.symm.trans hgo) Bool.false_ne_true⟩

end SocketDma
