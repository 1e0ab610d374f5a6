import Ultimate1541.SocketDmaStreamProofs

/-! # What the socket DMA server performs

    The commands of a stream are performed in order until one is refused: one that comes
    before the password was given, or a wrong password.  Each is performed with its own
    payload, but what a command reads and writes of the load buffer is fixed by the command,
    and is more than the payload when that is short. -/

namespace SocketDma

/-! ## The calls that a stream asks for -/

/-- A command is accepted from a client that is or is not authenticated. -/
def accepts (s : Settings) (authenticated : Bool) (m : Message) : Bool :=
  if m.cmd = Command.authenticate.code then s.password = [] ∨ m.payload = s.password else authenticated

/-- The commands up to the first that is not accepted. -/
def session (s : Settings) : (authenticated : Bool) → List Message → List Message
  | _, [] => []
  | authenticated, m :: ms =>
      m ::
        if accepts s authenticated m then session s (authenticated || m.cmd = Command.authenticate.code) ms
        else []

/-- The payload has the bytes that the command reads and writes. -/
def Message.covers (m : Message) : Bool :=
  match Command.ofCode m.cmd with
  | some .authenticate | some .keyb => 1 ≤ m.payload.length
  | some .dmawrite | some .dmajump => 2 ≤ m.payload.length
  | some .reuwrite => 3 ≤ m.payload.length
  | some .kernalwrite => 8194 ≤ m.payload.length
  -- a terminator is stored behind the payload
  | some .vicstreamOn | some .audiostreamOn | some .debugstreamOn => false
  | some .readflash => 1 ≤ m.payload.length ∧ (m.payload.getD 0 0 = 2 → 4 ≤ m.payload.length)
  | _ => true

/-! ## One command -/

/-- Every access is inside the first `len` bytes. -/
def Within (len : Nat) (accesses : List (Nat × Nat)) : Prop := ∀ a ∈ accesses, a.1 + a.2 ≤ len

@[simp] theorem within_nil (len : Nat) : Within len [] := nofun

@[simp] theorem within_cons {len : Nat} {a : Nat × Nat} {as : List (Nat × Nat)} :
    Within len (a :: as) ↔ a.1 + a.2 ≤ len ∧ Within len as := List.forall_mem_cons

theorem within_append {len : Nat} {as bs : List (Nat × Nat)} :
    Within len (as ++ bs) ↔ Within len as ∧ Within len bs := List.forall_mem_append

theorem within_startStream (stream : Nat) (stopped : List Effect) (load : Nat → UInt8) (len : Nat) :
    ¬Within len (startStream stream stopped load len).accesses := by
  intro h
  have hbehind : len + 1 ≤ len := (within_cons.mp h).1
  omega

theorem two_add_minusTwo {len : Nat} (h : 2 ≤ len) : 2 + minusTwo len ≤ len := by
  have hmod : (len + 2 ^ 32 - 2) % 2 ^ 32 = (len - 2) % 2 ^ 32 := by omega
  have hle := Nat.mod_le (len - 2) (2 ^ 32)
  rw [minusTwo, hmod]
  omega

theorem contents_length (load : Nat → UInt8) (len : Nat) : (contents load len).length = len := by
  simp [contents]

theorem contents_getD {load : Nat → UInt8} {len i : Nat} (h : i < len) : (contents load len).getD i 0 = load i := by
  simp [contents, h]

theorem performOther_ok (s : Settings) (load : Nat → UInt8) (len : Nat) (command : Command) :
    (performOther s load len command).ok = true ∧ (performOther s load len command).authenticated = true := by
  cases command <;> exact ⟨rfl, rfl⟩

theorem code_of_ofCode {cmd : UInt16} {command : Command} (h : Command.ofCode cmd = some command) :
    command.code = cmd := by
  rw [Command.ofCode] at h
  have hcode := List.find?_some h
  exact of_decide_eq_true hcode

/-- What a command reads and writes is inside its payload just if the payload covers it. -/
theorem performOther_within {s : Settings} {load : Nat → UInt8} {m : Message} {command : Command}
    (hload : contents load m.payload.length = m.payload) (hof : Command.ofCode m.cmd = some command)
    (hother : command ≠ .authenticate) :
    Within m.payload.length (performOther s load m.payload.length command).accesses ↔ m.covers = true := by
  rw [Message.covers, hof]
  cases command with
  | authenticate => exact absurd rfl hother
  | vicstreamOn | audiostreamOn | debugstreamOn =>
      exact iff_of_false (within_startStream _ _ load m.payload.length) Bool.false_ne_true
  | dmawrite =>
      simp only [performOther, performed, within_cons, within_nil, and_true, decide_eq_true_eq]
      exact ⟨fun h => by omega, fun h => ⟨by omega, two_add_minusTwo h⟩⟩
  | readflash =>
      have hfirst : 1 ≤ m.payload.length → m.payload.getD 0 0 = load 0 := fun h => by
        conv_lhs => rw [← hload]
        exact contents_getD h
      simp only [performOther, performed, within_cons, Bool.decide_and, Bool.and_eq_true, decide_eq_true_eq]
      refine and_congr_right fun hpos => ?_
      rw [hfirst hpos]
      by_cases hpage : load 0 = 2
      · simp [hpage]
      · simp [hpage]
  | loadsidcrt => cases h : s.sidCart <;> simp [performOther, performed, h]
  | loadbootcrt => cases h : s.bootCart <;> simp [performOther, performed, h]
  | reuwrite =>
      simp only [performOther, performed, within_cons, decide_eq_true_eq]
      refine ⟨fun h => by omega, fun h => ⟨by omega, ?_⟩⟩
      split
      · exact within_cons.mpr ⟨by omega, within_nil _⟩
      · exact within_nil _
  | debugReg =>
      simp only [performOther, performed]
      split
      · simpa using ‹_›
      · simp
  | dmajump => simp [performOther, performed]
  | keyb => simp [performOther, performed]
  | kernalwrite => simp [performOther, performed]
  | _ => simp [performOther, performed]

theorem authenticate_of_ofCode {cmd : UInt16} (h : Command.ofCode cmd = some .authenticate) :
    cmd = Command.authenticate.code := (code_of_ofCode h).symm

/-- What a connection keeps of a call: the arguments, and that what the command reads and writes
    is inside its payload just if the payload covers it or the command is refused. -/
structure Call.Sound (p : Call) : Prop where
  len : p.len = p.payload.length
  length : p.length = p.payload.length ↔ p.payload ≠ []
  within : Within p.payload.length p.accesses ↔
    (p.cmd ≠ Command.authenticate.code ∧ p.authenticated = false) ∨ (Message.mk p.cmd p.payload).covers = true
  effects : p.effects ≠ [] → p.cmd = Command.authenticate.code ∨ p.authenticated = true

theorem lastField_pos (cmd : UInt16) : 0 < lastField cmd := by
  rw [lastField]
  split <;> decide

theorem Message.count_pos (m : Message) : 0 < m.count := by
  rw [Message.count]
  split
  next => exact lastField_pos m.cmd
  next h => exact List.length_pos_iff.mpr h

theorem Message.count_eq_length (m : Message) : m.count = m.payload.length ↔ m.payload ≠ [] := by
  constructor
  · intro h hnil
    have := m.count_pos
    rw [h, hnil] at this
    exact Nat.lt_irrefl 0 this
  · intro h
    rw [Message.count, if_neg h]

/-- An `AUTHENTICATE` that has a payload touches no more than it. -/
theorem performAuthenticate_within {s : Settings} {authenticated : Bool} {load : Nat → UInt8} {m : Message} :
    Within m.payload.length (performAuthenticate s authenticated load m.count).accesses ↔
      1 ≤ m.payload.length := by
  have hfirst : ∀ as : List (Nat × Nat), (1 ≤ m.payload.length → Within m.payload.length as) →
      (Within m.payload.length (as ++ [(0, 1)]) ↔ 1 ≤ m.payload.length) := by
    intro as has
    rw [within_append, within_cons]
    exact ⟨fun h => by have := h.2.1; omega, fun h => ⟨has h, by omega, within_nil _⟩⟩
  have hcount : 1 ≤ m.payload.length → Within m.payload.length [(0, m.count)] := by
    intro h
    rw [(m.count_eq_length).mpr (List.length_pos_iff.mp h)]
    exact within_cons.mpr ⟨by omega, within_nil _⟩
  rw [performAuthenticate]
  split
  next =>
    refine hfirst _ fun h => ?_
    split
    · exact within_nil _
    · exact hcount h
  next =>
    refine hfirst _ fun h => ?_
    split
    · exact hcount h
    · exact within_nil _

/-- An `AUTHENTICATE` without payload is compared with what the load buffer begins with; this
    finds the password there only by being the password. -/
def noStalePassword (s : Settings) (load : Nat → UInt8) (m : Message) : Bool :=
  m.cmd = Command.authenticate.code → m.payload = [] → s.password = [] ∨ contents load 2 ≠ s.password

theorem performAuthenticate_ok {s : Settings} {authenticated : Bool} {load : Nat → UInt8} {m : Message}
    (hcmd : m.cmd = Command.authenticate.code) (hload : contents load m.payload.length = m.payload)
    (hstale : noStalePassword s load m) :
    (performAuthenticate s authenticated load m.count).ok = true ↔ s.password = [] ∨ m.payload = s.password := by
  have hcond : (s.password = [] ∨ s.password.length = m.count ∧ contents load m.count = s.password) ↔
      (s.password = [] ∨ m.payload = s.password) := by
    refine or_congr_right' fun hset => ?_
    by_cases hnil : m.payload = []
    · have htwo : m.count = 2 := by
        rw [Message.count, if_pos hnil, lastField, hcmd]
        rfl
      have hne : contents load 2 ≠ s.password :=
        (of_decide_eq_true hstale hcmd hnil).resolve_left hset
      rw [htwo, hnil]
      exact iff_of_false (fun h => hne h.2) fun h => hset h.symm
    · rw [(m.count_eq_length).mpr hnil, hload]
      exact ⟨fun h => h.2, fun h => ⟨by rw [h], h⟩⟩
  rw [performAuthenticate]
  split
  next h => exact iff_of_true rfl (hcond.mp h)
  next h => exact iff_of_false Bool.false_ne_true (mt hcond.mpr h)

/-- What one command does, with its payload in the load buffer. -/
theorem performCommand_spec {s : Settings} {authenticated : Bool} {load : Nat → UInt8} {m : Message}
    (hload : contents load m.payload.length = m.payload) (hstale : noStalePassword s load m) :
    (performCommand s authenticated load m.count m.cmd m.payload.length).ok = accepts s authenticated m ∧
    (accepts s authenticated m = true →
      (performCommand s authenticated load m.count m.cmd m.payload.length).authenticated =
        (authenticated || m.cmd = Command.authenticate.code)) ∧
    (Within m.payload.length (performCommand s authenticated load m.count m.cmd m.payload.length).accesses ↔
      (m.cmd ≠ Command.authenticate.code ∧ authenticated = false) ∨ m.covers = true) ∧
    ((performCommand s authenticated load m.count m.cmd m.payload.length).effects ≠ [] →
      m.cmd = Command.authenticate.code ∨ authenticated = true) := by
  by_cases hcmd : m.cmd = Command.authenticate.code
  · have hok := @performAuthenticate_ok s authenticated load m hcmd hload hstale
    have hcovers : m.covers = decide (1 ≤ m.payload.length) := by
      rw [Message.covers, hcmd]
      rfl
    have hauth : (performAuthenticate s authenticated load m.count).ok = true →
        (performAuthenticate s authenticated load m.count).authenticated = true := by
      rw [performAuthenticate]
      split
      · exact fun _ => rfl
      · exact nofun
    rw [performCommand, if_pos hcmd, accepts, if_pos hcmd]
    refine ⟨?_, fun h => ?_, ?_, fun _ => .inl hcmd⟩
    · rw [Bool.eq_iff_iff, hok, decide_eq_true_eq]
    · rw [hauth (hok.mpr (of_decide_eq_true h)), decide_eq_true hcmd, Bool.or_true]
    · rw [performAuthenticate_within, hcovers, decide_eq_true_eq]
      exact ⟨.inr, fun h => h.resolve_left fun hno => hno.1 hcmd⟩
  · rw [performCommand, if_neg hcmd, accepts, if_neg hcmd]
    cases authenticated with
    | false =>
        rw [if_pos rfl]
        exact ⟨rfl, nofun, iff_of_true (within_nil _) (.inl ⟨hcmd, rfl⟩), fun h => absurd rfl h⟩
    | true =>
        rw [if_neg (fun h => nomatch h)]
        cases hof : Command.ofCode m.cmd with
        | none =>
            have hcovers : m.covers = true := by rw [Message.covers, hof]
            exact ⟨rfl, fun _ => rfl, iff_of_true (within_nil _) (.inr hcovers), fun _ => .inr rfl⟩
        | some command =>
            have hother : command ≠ .authenticate := fun h => hcmd (authenticate_of_ofCode (h ▸ hof))
            obtain ⟨hok, hauth⟩ := performOther_ok s load m.payload.length command
            refine ⟨hok, fun _ => hauth, ?_, fun _ => .inr rfl⟩
            rw [performOther_within hload hof hother]
            exact ⟨.inr, fun h => h.resolve_left fun hno => nomatch hno.2⟩

def Call.message (p : Call) : Message := ⟨p.cmd, p.payload⟩

/-- The record of a command whose payload is in the load buffer. -/
theorem call_sound {s : Settings} {c : Conn} {m : Message}
    (hload : contents c.load m.payload.length = m.payload) (hstale : noStalePassword s c.load m) :
    (c.call s m.count m.cmd m.payload.length).Sound ∧
      (c.call s m.count m.cmd m.payload.length).message = m := by
  obtain ⟨_, _, hwithin, heffects⟩ := @performCommand_spec s c.authenticated c.load m hload hstale
  refine ⟨⟨?_, ?_, ?_, heffects⟩, by rw [Call.message, Conn.call, hload]⟩
  · rw [Conn.call, hload]
  · rw [Conn.call, hload]
    exact m.count_eq_length
  · rw [Conn.call, hload]
    exact hwithin

/-! ## A whole connection -/

/-- What the network and the client keep to before a turn: the command word and the length come
    in one piece each, the client does not close inside a payload, no payload is longer than
    the load buffer, and an `AUTHENTICATE` without payload does not find the password in it. -/
def Conn.meets (s : Settings) (c : Conn) : Bool :=
  wholeHeader c.net &&
    match head c.net.input with
    | .cut | .tooLong => false
    | .message m _ => noStalePassword s c.load m
    | _ => true

/-- Every turn of the loop meets this. -/
def Conn.runMeets (s : Settings) : (fuel : Nat) → Conn → Bool
  | 0, _ => true
  | fuel + 1, c => c.meets s && (!(c.turn s).2 || Conn.runMeets s fuel (c.turn s).1)

/-- Who is authenticated at a call was so before, or has given the password since. -/
def Known (s : Settings) (authenticated : Bool) (calls : List Call) : Prop :=
  ∀ before p after, calls = before ++ p :: after → p.authenticated = true →
    authenticated = true ∨
      ∃ q ∈ before, q.cmd = Command.authenticate.code ∧ (s.password = [] ∨ q.payload = s.password)

/-- What the calls of a connection are, from a state on. -/
structure Served (s : Settings) (authenticated : Bool) (input : List UInt8) (calls : List Call) : Prop where
  messages : calls.map Call.message = session s authenticated (messages input)
  sound : ∀ p ∈ calls, p.Sound
  known : Known s authenticated calls

theorem contents_loaded (load : Nat → UInt8) (bytes : List UInt8) :
    contents (loaded load bytes) bytes.length = bytes := by
  refine List.ext_getElem (contents_length _ _) fun i hi hi' => ?_
  simp [contents, loaded, hi']

theorem Served.nil {s : Settings} {authenticated : Bool} {input : List UInt8}
    (h : SocketDma.messages input = []) : Served s authenticated input [] where
  messages := by rw [h]; rfl
  sound := nofun
  known before p after h := by simp at h

/-- One command is performed, and the rest of the stream is served if it was accepted. -/
theorem Served.cons {s : Settings} {authenticated authenticated' : Bool} {input rest : List UInt8} {m : Message}
    {p : Call} {calls : List Call} (hinput : SocketDma.messages input = m :: SocketDma.messages rest)
    (hmessage : p.message = m) (hp : p.authenticated = authenticated) (hsound : p.Sound)
    (hauth : accepts s authenticated m = true →
      authenticated' = (authenticated || m.cmd = Command.authenticate.code))
    (hcalls : if accepts s authenticated m then Served s authenticated' rest calls else calls = []) :
    Served s authenticated input (p :: calls) := by
  cases haccept : accepts s authenticated m with
  | false =>
      rw [haccept, if_neg Bool.false_ne_true] at hcalls
      subst hcalls
      refine ⟨?_, fun q hq => List.mem_singleton.mp hq ▸ hsound, ?_⟩
      · rw [hinput, session, haccept, if_neg Bool.false_ne_true, List.map_cons, hmessage]
        rfl
      · intro before q after hsplit hq
        cases before with
        | nil =>
            injection hsplit with hq'
            exact .inl (hp.symm.trans (hq' ▸ hq))
        | cons b before =>
            injection hsplit with _ hnil
            simp at hnil
  | true =>
      rw [haccept, if_pos rfl] at hcalls
      refine ⟨?_, List.forall_mem_cons.mpr ⟨hsound, hcalls.sound⟩, ?_⟩
      · rw [hinput, session, haccept, if_pos rfl, List.map_cons, hmessage, hcalls.messages, hauth haccept]
      · intro before q after hsplit hq
        cases before with
        | nil =>
            injection hsplit with hq'
            exact .inl (hp.symm.trans (hq' ▸ hq))
        | cons b before =>
            injection hsplit with hb hrest
            subst hb
            obtain hbefore | ⟨r, hr, hr'⟩ := hcalls.known before q after hrest hq
            · -- the command that was just accepted may be the one that gave the password
              rw [hauth haccept, Bool.or_eq_true, decide_eq_true_eq] at hbefore
              refine hbefore.imp id fun hcmd => ⟨p, List.mem_cons_self, ?_⟩
              rw [accepts, if_pos hcmd, decide_eq_true_eq] at haccept
              rw [← hmessage] at hcmd haccept
              exact ⟨hcmd, haccept⟩
            · exact .inr ⟨r, List.mem_cons_of_mem p hr, hr'⟩

/-- Every turn takes a command off the stream and performs it. -/
theorem run_served {s : Settings} {fuel : Nat} :
    ∀ {c : Conn}, c.net.input.length < fuel → c.runMeets s fuel →
      ∃ calls, (c.run s fuel).calls = c.calls ++ calls ∧ Served s c.authenticated c.net.input calls := by
  induction fuel with
  | zero => exact fun h => absurd h (Nat.not_lt_zero _)
  | succ fuel ih =>
      intro c hfuel hmeets
      rw [Conn.runMeets, Bool.and_eq_true, Conn.meets, Bool.and_eq_true, Bool.or_eq_true] at hmeets
      obtain ⟨⟨hwhole, hhead⟩, hnext⟩ := hmeets
      have hlist := messages_eq c.net.input
      rw [Conn.run]
      cases hbegin : head c.net.input with
      | cut => rw [hbegin] at hhead; cases hhead
      | tooLong => rw [hbegin] at hhead; cases hhead
      | ended =>
          rw [hbegin] at hlist
          obtain ⟨hcalls, hempty⟩ := turn_ended (s := s) hwhole hbegin
          cases hgo : (c.turn s).2 with
          | false =>
              rw [if_neg Bool.false_ne_true]
              exact ⟨[], by rw [hcalls, List.append_nil], .nil hlist⟩
          | true =>
              -- what was left was half a command word, so this was not the last turn
              have hinput : c.net.input ≠ [] := by
                intro hnil
                have hnone : c.net.recv 2 = [] := (Net.recv_eq_nil (by omega)).mpr hnil
                rw [Conn.turn, if_pos hnone] at hgo
                cases hgo
              have hpos := List.length_pos_iff.mpr hinput
              obtain ⟨calls, hcalls', hserved⟩ := ih (c := (c.turn s).1)
                (by rw [hempty hgo, List.length_nil]; omega)
                (hnext.resolve_left (by rw [hgo]; exact Bool.false_ne_true))
              have hnil : calls = [] :=
                List.map_eq_nil_iff.mp (hserved.messages.trans (by rw [hempty hgo]; rfl))
              rw [if_pos rfl]
              exact ⟨[], by rw [hcalls', hnil, hcalls], .nil hlist⟩
      | illegal rest =>
          rw [hbegin] at hlist
          obtain ⟨net, header, hrest, hturn⟩ := turn_illegal (s := s) hwhole hbegin
          obtain ⟨b0, b1, hinput, _⟩ := head_illegal hbegin
          rw [hturn] at hnext ⊢
          rw [if_pos rfl]
          have hlen : net.input.length < fuel := by
            rw [hinput, List.length_cons, List.length_cons] at hfuel
            rw [hrest]
            omega
          obtain ⟨calls, hcalls, hserved⟩ := ih (c := { c with net, header }) hlen
            (hnext.resolve_left Bool.false_ne_true)
          exact ⟨calls, hcalls, ⟨by rw [hserved.messages, hlist]; exact congrArg _ (congrArg _ hrest),
            hserved.sound, hserved.known⟩⟩
      | message m rest =>
          rw [hbegin] at hlist hhead
          obtain ⟨net, header, rfl, hturn⟩ := turn_message (s := s) hwhole hbegin
          have hstale : noStalePassword s (loaded c.load m.payload) m := by
            refine decide_eq_true fun hcmd hnil => ?_
            rw [hnil, loaded_nil]
            exact of_decide_eq_true hhead hcmd hnil
          have hlen := head_message_length hbegin
          -- the state in which the command is performed
          obtain ⟨c', hc'⟩ : ∃ c' : Conn, c' = { c with net, header, load := loaded c.load m.payload } := ⟨_, rfl⟩
          have hload : contents c'.load m.payload.length = m.payload := by
            rw [hc']
            exact contents_loaded c.load m.payload
          have hsame : c'.authenticated = c.authenticated ∧ c'.calls = c.calls ∧ c'.net = net := by
            rw [hc']
            exact ⟨rfl, rfl, rfl⟩
          have hstale' : noStalePassword s c'.load m := by rw [hc']; exact hstale
          obtain ⟨hok, hauth, _, _⟩ :=
            @performCommand_spec s c'.authenticated c'.load m hload hstale'
          obtain ⟨hsound, hmessage⟩ := call_sound hload hstale'
          rw [← hc'] at hturn
          rw [hturn] at hnext ⊢
          rw [← hsame.1, ← hsame.2.1]
          have hgo : (Conn.perform s m.count m.cmd m.payload.length c').2 = accepts s c'.authenticated m := hok
          rw [hgo] at hnext ⊢
          cases haccept : accepts s c'.authenticated m with
          | false =>
              rw [if_neg Bool.false_ne_true]
              refine ⟨[c'.call s m.count m.cmd m.payload.length], rfl,
                .cons hlist hmessage rfl hsound hauth ?_⟩
              rw [haccept, if_neg Bool.false_ne_true]
          | true =>
              rw [if_pos rfl]
              have hfuel' : (Conn.perform s m.count m.cmd m.payload.length c').1.net.input.length < fuel := by
                show c'.net.input.length < fuel
                rw [hsame.2.2]
                omega
              obtain ⟨calls, hcalls, hserved⟩ := ih hfuel'
                (hnext.resolve_left (by rw [haccept]; exact Bool.false_ne_true))
              refine ⟨c'.call s m.count m.cmd m.payload.length :: calls, ?_,
                .cons hlist hmessage rfl hsound hauth ?_⟩
              · rw [hcalls]
                exact List.append_assoc _ _ _
              · rw [haccept, if_pos rfl]
                have hinput : (Conn.perform s m.count m.cmd m.payload.length c').1.net.input = net.input :=
                  congrArg Net.input hsame.2.2
                rw [hinput] at hserved
                exact hserved

/-- Over a connection on which every turn meets what is asked of the network and the client,
    the calls are the commands of the stream, in order, up to the first that is not accepted,
    each with its own payload.  The length that is given beside it is the payload's just if
    there is one, and what is read and written is inside the payload just if it covers the
    command.  Before the password was given, no command but `AUTHENTICATE` has an effect. -/
theorem serve_performs (s : Settings) (net : Net) (header : Header) (load : Nat → UInt8)
    (h : (Conn.accepted s net header load).runMeets s (net.input.length + 1) = true) :
    (serve s net header load).calls.map Call.message = session s (s.password = []) (messages net.input) ∧
    (∀ p ∈ (serve s net header load).calls, p.len = p.payload.length ∧
      (p.length = p.payload.length ↔ p.payload ≠ []) ∧
      (Within p.payload.length p.accesses ↔
        (p.cmd ≠ Command.authenticate.code ∧ p.authenticated = false) ∨ p.message.covers = true)) ∧
    (∀ before p after, (serve s net header load).calls = before ++ p :: after → s.password ≠ [] →
      p.cmd ≠ Command.authenticate.code → p.effects ≠ [] →
      ∃ q ∈ before, q.cmd = Command.authenticate.code ∧ q.payload = s.password) := by
  obtain ⟨calls, hcalls, hserved⟩ := run_served (Nat.lt_succ_self net.input.length) h
  have hall : (serve s net header load).calls = calls := hcalls
  rw [hall]
  refine ⟨hserved.messages, fun p hp => ?_, fun before p after hsplit hset hcmd heffects => ?_⟩
  · have hsound := hserved.sound p hp
    exact ⟨hsound.len, hsound.length, hsound.within⟩
  · have hp : p ∈ calls := hsplit ▸ List.mem_append_right before List.mem_cons_self
    have hauth := ((hserved.sound p hp).effects heffects).resolve_left hcmd
    have hstart : ¬(Conn.accepted s net header load).authenticated = true := by simp [Conn.accepted, hset]
    obtain ⟨q, hq, hqcmd, hgave⟩ := (hserved.known before p after hsplit hauth).resolve_left hstart
    exact ⟨q, hq, hqcmd, hgave.resolve_left hset⟩

/-- A server without password, and `RESET` sent to it. -/
def openServer : Settings := ⟨[], false, false⟩

def resetStream : List UInt8 := [0x04, 0xFF, 0x00, 0x00]

theorem serve_performs_reset :
    (serve openServer ⟨resetStream, []⟩ ⟨0, 0, 0⟩ fun _ => 0).calls.map Call.message = [⟨0xFF04, []⟩] :=
  (serve_performs openServer ⟨resetStream, []⟩ ⟨0, 0, 0⟩ (fun _ => 0) (by decide)).1

/-- The network brings the first byte of `RESET` alone: the server takes the bytes in twos from
    the second on, and performs nothing. -/
theorem reset_split :
    (serve openServer ⟨resetStream, [1]⟩ ⟨0, 0, 0⟩ fun _ => 0).calls = [] ∧
      session openServer true (messages resetStream) = [⟨0xFF04, []⟩] := by
  decide

end SocketDma
