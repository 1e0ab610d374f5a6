import Ultimate1541.ReverseTableProofs

/-! # The 6502 assembler of the monitor

    The addressing mode is found from the operand's text.  What the disassembler
    prints assembles to what it was printed from, except for a branch whose
    target lies beyond an end of the address space (`roundTrips_iff`). -/

namespace Assembler6502

open Disassembler6502

/-- The errors of `MonitorError` that assembling a line answers. -/
inductive MonitorError where
  | monitorSyntax
  | monitorRange
  | monitorValue
  deriving DecidableEq, Repr

/-- `AsmInsn`. -/
structure AsmInsn where
  bytes : List UInt8
  length : Nat
  illegal : Bool
  deriving DecidableEq, Repr

/-! ## Operands -/

/-- `is_hex`. -/
def isHex (c : Char) : Bool :=
  ('0' ≤ c ∧ c ≤ '9') ∨ ('A' ≤ c ∧ c ≤ 'F') ∨ ('a' ≤ c ∧ c ≤ 'f')

/-- `up`. -/
def up (c : Char) : Char := if 'a' ≤ c ∧ c ≤ 'z' then Char.ofNat (c.toNat - 32) else c

/-- `hex_val` of a hex digit. -/
def hexVal (c : Char) : Nat :=
  if '0' ≤ c ∧ c ≤ '9' then c.toNat - '0'.toNat
  else if 'a' ≤ c ∧ c ≤ 'f' then c.toNat - 'a'.toNat + 10
  else c.toNat - 'A'.toNat + 10

/-- A character `skip_ws` skips. -/
def isWs (c : Char) : Bool := c = ' ' ∨ c = '\t'

/-- `skip_ws`. -/
def skipWs (p : List Char) : List Char := p.dropWhile isWs

/-- The loop of `parse_hex_n` with room for `n` more digits: value, number of
    digits, rest. -/
def parseHexLoop : Nat → Nat → Nat → List Char → Nat × Nat × List Char
  | 0, v, d, p => (v, d, p)
  | _ + 1, v, d, [] => (v, d, [])
  | n + 1, v, d, c :: p =>
      if isHex c then parseHexLoop n (16 * v + hexVal c) (d + 1) p else (v, d, c :: p)

/-- `parse_hex_n`. -/
def parseHexN (p : List Char) : Option (Nat × Nat × List Char) :=
  match parseHexLoop 4 0 0 p with
  | (_, 0, _) => none
  | r => some r

/-- A `$` that may be left out. -/
def skipDollar : List Char → List Char
  | '$' :: p => p
  | p => p

/-- The operand is `A` alone. -/
def isAccumulator : List Char → Bool
  | c :: p => (c = 'A' ∨ c = 'a') ∧ (p = [] ∨ p.head?.any isWs) ∧ skipWs p = []
  | [] => false

/-- `parse_operand` behind `#`. -/
def parseImmediate (p : List Char) : Option (AsmAddrMode × Nat) :=
  match parseHexN (skipDollar p) with
  | none => none
  | some (v, d, p) => if d > 2 ∨ skipWs p ≠ [] then none else some (.imm, v)

/-- `parse_operand` behind `(`. -/
def parseIndirect (p : List Char) : Option (AsmAddrMode × Nat) :=
  match parseHexN (skipDollar p) with
  | some (v, d, ',' :: p) =>
      match skipWs p with
      | x :: p =>
          if x ≠ 'X' ∧ x ≠ 'x' then none
          else
            match skipWs p with
            | ')' :: p => if skipWs p ≠ [] then none else some (if d ≤ 2 then .izx else .iax, v)
            | _ => none
      | [] => none
  | some (v, d, ')' :: p) =>
      match skipWs p with
      | ',' :: p =>
          match skipWs p with
          | y :: p =>
              if (y ≠ 'Y' ∧ y ≠ 'y') ∨ skipWs p ≠ [] ∨ d > 2 then none else some (.izy, v)
          | [] => none
      | [] => some (.ind, v)
      | _ => none
  | _ => none

/-- `parse_operand` for an address. -/
def parseAddress (p : List Char) : Option (AsmAddrMode × Nat) :=
  match parseHexN (skipDollar p) with
  | none => none
  | some (v, d, p) =>
      match skipWs p with
      | ',' :: p =>
          match skipWs p with
          | [] => none
          | c :: p =>
              if up c ≠ 'X' ∧ up c ≠ 'Y' ∧ up c ≠ 'S' then none
              else if skipWs p ≠ [] then none
              else if up c = 'S' then (if d ≤ 2 then some (.zps, v) else none)
              else if up c = 'X' then some (if d ≤ 2 then .zpx else .abx, v)
              else some (if d ≤ 2 then .zpy else .aby, v)
      | [] => some (if d ≤ 2 then .zp else .abs, v)
      | _ => none

/-- `parse_operand`. -/
def parseOperand (p : List Char) : Option (AsmAddrMode × Nat) :=
  match skipWs p with
  | [] => some (.imp, 0)
  | c :: p =>
      if isAccumulator (c :: p) then some (.acc, 0)
      else if c = '#' then parseImmediate p
      else if c = '(' then parseIndirect p
      else parseAddress (c :: p)

/-! ## Lines -/

/-- An entry that may be used: opcode and length. -/
def ReverseEntry.usable (e : ReverseEntry) (illegalEnabled : Bool) : Option (UInt8 × Nat) :=
  if e.valid ∧ ¬ (e.illegal ∧ ¬ illegalEnabled) then some (e.opcode, e.length) else none

/-- The characters `monitor_lookup_opcode` copies. -/
def upThree (mnemonic : List Char) : List Char := (mnemonic.take 3).map up

/-- `monitor_lookup_opcode`: opcode and length. -/
def lookupOpcode (mnemonic : List Char) (mode : AsmAddrMode) (illegalEnabled : Bool) :
    Option (UInt8 × Nat) :=
  if (upThree mnemonic).length ≠ 3 then none
  else
    match buildReverse.findMnem (canonicalizeMnem (upThree mnemonic)) with
    | none => none
    | some idx => (buildReverse.table idx mode).usable illegalEnabled

/-- The displacement of a branch from `pc` to `value`, or `MONITOR_RANGE`. -/
def displacement (pc : UInt16) (value : Nat) : Except MonitorError UInt8 :=
  let delta := (value : Int) - branchBase pc
  if delta < -128 ∨ delta > 127 then .error .monitorRange else .ok (UInt8.ofInt delta)

/-- The branch a line with an absolute operand stands for. -/
def promoteBranch (m : List Char) (mode : AsmAddrMode) (illegalEnabled : Bool) :
    Option UInt8 :=
  if mode = .abs ∨ mode = .zp then (lookupOpcode m .rel illegalEnabled).map Prod.fst else none

/-- The wider mode that is tried when there is no opcode for a narrow one. -/
def widened : AsmAddrMode → Option AsmAddrMode
  | .zp => some .abs
  | .zpx => some .abx
  | .zpy => some .aby
  | _ => none

/-- The end of `monitor_assemble_line`: the operand's bytes. -/
def encode (pc : UInt16) (opcode : UInt8) (length : Nat) (mode : AsmAddrMode) (value : Nat) :
    Except MonitorError AsmInsn :=
  let insn := fun bytes => ⟨bytes, length, isIllegalOpcode opcode⟩
  if length = 2 then
    if mode = .rel then
      match displacement pc value with
      | .error e => .error e
      | .ok d => .ok (insn [opcode, d, 0])
    else if value > 0xFF then .error .monitorValue
    else .ok (insn [opcode, UInt8.ofNat value, 0])
  else if length = 3 then .ok (insn [opcode, UInt8.ofNat value, UInt8.ofNat (value / 256)])
  else .ok (insn [opcode, 0, 0])

/-- `monitor_assemble_line` behind the operand. -/
def assembleOperand (m : List Char) (mode : AsmAddrMode) (value : Nat) (illegalEnabled : Bool)
    (pc : UInt16) : Except MonitorError AsmInsn :=
  match lookupOpcode m mode illegalEnabled with
  | some (opcode, length) => encode pc opcode length mode value
  | none =>
      match promoteBranch m mode illegalEnabled with
      | some opcode =>
          match displacement pc value with
          | .error e => .error e
          | .ok d => .ok ⟨[opcode, d, 0], 2, false⟩
      | none =>
          match widened mode with
          | none => .error .monitorSyntax
          | some mode =>
              match lookupOpcode m mode illegalEnabled with
              | none => .error .monitorSyntax
              | some (opcode, length) => encode pc opcode length mode value

/-- The mnemonic's loop with room for `n` more characters, and the rest. -/
def parseMnemonic : Nat → List Char → List Char × List Char
  | 0, p => ([], p)
  | _ + 1, [] => ([], [])
  | n + 1, c :: p =>
      if isWs c then ([], c :: p)
      else ((up c) :: (parseMnemonic n p).1, (parseMnemonic n p).2)

/-- `monitor_assemble_line`. -/
def assembleLine (text : List Char) (illegalEnabled : Bool) (pc : UInt16) :
    Except MonitorError AsmInsn :=
  match skipWs text with
  | [] => .error .monitorSyntax
  | p =>
      let (m, p) := parseMnemonic 3 p
      if m.length ≠ 3 then .error .monitorSyntax
      else
        match parseOperand p with
        | none => .error .monitorSyntax
        | some (mode, value) => assembleOperand m mode value illegalEnabled pc

/-! ## Round trips -/

/-- Opcodes that share a mnemonic and an addressing mode. -/
def SameOperation (op op' : UInt8) : Prop :=
  mnemonicOf op = mnemonicOf op' ∧ modeOf op = modeOf op'

/-- The bytes behind the opcode. -/
def operandBytes (bytes : Nat → UInt8) (length : Nat) : List UInt8 :=
  (List.range (length - 1)).map fun i => bytes (i + 1)

/-- The text of an instruction assembles to its length and its bytes. -/
def RoundTrips (pc : UInt16) (bytes : Nat → UInt8) (illegalEnabled : Bool) : Prop :=
  ∃ insn op,
    assembleLine (disassemble pc bytes illegalEnabled).text illegalEnabled pc = .ok insn ∧
    insn.length = (disassemble pc bytes illegalEnabled).length ∧
    insn.bytes.take insn.length = op :: operandBytes bytes insn.length ∧
    SameOperation op (bytes 0)

/-- The instruction is a branch, and its target lies beyond an end of the
    address space. -/
def BranchWraps (pc : UInt16) (bytes : Nat → UInt8) : Prop :=
  modeOf (bytes 0) = .rel ∧
    ¬ (0 ≤ (branchBase pc : Int) + int8 (bytes 1) ∧
      (branchBase pc : Int) + int8 (bytes 1) < 65536)

/-! ## The disassembler prints by mode -/

/-- The operand of an instruction with a mode. -/
def operandText (pc : UInt16) (bytes : Nat → UInt8) : AsmAddrMode → List Char
  | .imp => []
  | .acc => ['A']
  | .imm => '#' :: '$' :: hex 2 (bytes 1).toNat
  | .zp => '$' :: hex 2 (bytes 1).toNat
  | .zpx => '$' :: hex 2 (bytes 1).toNat ++ [',', 'X']
  | .zpy => '$' :: hex 2 (bytes 1).toNat ++ [',', 'Y']
  | .zps => '$' :: hex 2 (bytes 1).toNat ++ [',', 'S']
  | .izx => '(' :: '$' :: hex 2 (bytes 1).toNat ++ [',', 'X', ')']
  | .izy => '(' :: '$' :: hex 2 (bytes 1).toNat ++ [')', ',', 'Y']
  | .abs => '$' :: hex 4 (word bytes)
  | .abx => '$' :: hex 4 (word bytes) ++ [',', 'X']
  | .aby => '$' :: hex 4 (word bytes) ++ [',', 'Y']
  | .ind => '(' :: '$' :: hex 4 (word bytes) ++ [')']
  | .iax => '(' :: '$' :: hex 4 (word bytes) ++ [',', 'X', ')']
  | .rel => '$' :: hex 4 (branchTarget pc (bytes 1))

theorem operandLength_eq {t : List Char} (h : TemplateOk t) :
    instructionLength t = modeLength (templateToMode t) := by
  have hused := h.used
  rw [instructionLength, operandLength, h.spec]
  cases templateToMode t <;> rfl

theorem formatOperand_text {t : List Char} (h : TemplateOk t) (pc : UInt16) (bytes : Nat → UInt8) :
    (formatOperand pc bytes (instructionLength t) t).text
      = operandText pc bytes (templateToMode t) := by
  have hused := h.used
  rw [operandLength_eq h, formatOperand, h.spec]
  cases hm : templateToMode t <;> first | rfl | exact absurd hm hused


/-! ## What is printed is parsed -/

theorem isHex_hexChar : ∀ n : Fin 16, isHex (hexChar n) = true ∧ hexVal (hexChar n) = n := by
  decide +kernel

/-- Reading `len` digits. -/
theorem parseHexLoop_hex (rest : List Char) :
    ∀ (len k v d val : Nat), parseHexLoop (k + len) v d (hex len val ++ rest)
      = parseHexLoop k (16 ^ len * v + val % 16 ^ len) (d + len) rest := by
  intro len
  induction len generalizing rest with
  | zero =>
      intro k v d val
      rw [hex, List.nil_append, Nat.pow_zero, Nat.one_mul, Nat.mod_one]
      rfl
  | succ len ih =>
      intro k v d val
      obtain ⟨hhex, hval⟩ := isHex_hexChar ⟨val % 16, Nat.mod_lt _ (by decide)⟩
      dsimp only at hhex hval
      rw [hex, List.append_assoc, List.singleton_append,
        show k + (len + 1) = k + 1 + len by omega, ih, parseHexLoop, if_pos hhex, hval]
      have hacc : 16 * (16 ^ len * v + val / 16 % 16 ^ len) + val % 16
          = 16 ^ (len + 1) * v + val % 16 ^ (len + 1) := by
        rw [Nat.pow_succ', Nat.mod_mul, Nat.mul_add, Nat.mul_assoc]
        omega
      rw [hacc, Nat.add_assoc]

/-- A number is read to the end: four digits are the most, and fewer must not be
    followed by another digit. -/
theorem parseHexN_hex {len val : Nat} {rest : List Char} (hlen : 0 < len) (hle : len ≤ 4)
    (hval : val < 16 ^ len) (hrest : len = 4 ∨ rest.head?.all fun c => !isHex c) :
    parseHexN (hex len val ++ rest) = some (val, len, rest) := by
  have hloop := parseHexLoop_hex rest len (4 - len) 0 0 val
  rw [Nat.sub_add_cancel hle, Nat.mul_zero, Nat.zero_add, Nat.zero_add, Nat.mod_eq_of_lt hval]
    at hloop
  have hstop : parseHexLoop (4 - len) val len rest = (val, len, rest) := by
    rcases hrest with rfl | hrest
    · rfl
    · cases hk : 4 - len with
      | zero => rfl
      | succ k =>
          cases rest with
          | nil => rfl
          | cons c rest =>
              rw [parseHexLoop, if_neg]
              simpa using hrest
  rw [parseHexN, hloop, hstop]
  obtain ⟨len, rfl⟩ := Nat.exists_eq_succ_of_ne_zero (Nat.ne_of_gt hlen)
  rfl


/-- The mode an operand is read back as. -/
def readAs : AsmAddrMode → AsmAddrMode
  | .rel => .abs
  | mode => mode

/-- The value an operand is read back as. -/
def valueOf (pc : UInt16) (bytes : Nat → UInt8) : AsmAddrMode → Nat
  | .imp | .acc => 0
  | .imm | .zp | .zpx | .zpy | .zps | .izx | .izy => (bytes 1).toNat
  | .abs | .abx | .aby | .ind | .iax => word bytes
  | .rel => branchTarget pc (bytes 1)

theorem word_lt (bytes : Nat → UInt8) : word bytes < 16 ^ 4 := by
  have h1 := (bytes 1).toNat_lt
  have h2 := (bytes 2).toNat_lt
  rw [word]
  omega

theorem branchTarget_lt (pc : UInt16) (b : UInt8) : branchTarget pc b < 16 ^ 4 := by
  rw [branchTarget]
  omega

theorem parseHexN_byte (b : UInt8) (rest : List Char) (hrest : rest.head?.all fun c => !isHex c) :
    parseHexN (hex 2 b.toNat ++ rest) = some (b.toNat, 2, rest) :=
  parseHexN_hex (by decide) (by decide) b.toNat_lt (Or.inr hrest)

theorem parseHexN_word {w : Nat} (hw : w < 16 ^ 4) (rest : List Char) :
    parseHexN (hex 4 w ++ rest) = some (w, 4, rest) :=
  parseHexN_hex (by decide) (by decide) hw (Or.inl rfl)

theorem parseOperand_immediate (p : List Char) :
    parseOperand (' ' :: '#' :: p) = parseImmediate p := rfl

theorem parseOperand_indirect (p : List Char) :
    parseOperand (' ' :: '(' :: p) = parseIndirect p := rfl

theorem parseOperand_address (p : List Char) :
    parseOperand (' ' :: '$' :: p) = parseAddress ('$' :: p) := rfl

/-- The operand of an instruction is read back. -/
theorem parseOperand_text (pc : UInt16) (bytes : Nat → UInt8) (mode : AsmAddrMode) :
    parseOperand (' ' :: operandText pc bytes mode)
      = some (readAs mode, valueOf pc bytes mode) := by
  have hb := fun (rest : List Char) => parseHexN_byte (bytes 1) rest
  have hw := parseHexN_word (word_lt bytes)
  have hb₀ := hb [] rfl
  have hw₀ := hw []
  have ht₀ := parseHexN_word (branchTarget_lt pc (bytes 1)) []
  rw [List.append_nil] at hb₀ hw₀ ht₀
  cases mode with
  | imp | acc => rfl
  | imm =>
      rw [operandText, parseOperand_immediate, parseImmediate, skipDollar, hb₀]
      rfl
  | zp =>
      rw [operandText, parseOperand_address, parseAddress, skipDollar, hb₀]
      rfl
  | zpx | zpy | zps =>
      rw [operandText, List.cons_append, parseOperand_address, parseAddress, skipDollar,
        hb _ (by decide)]
      rfl
  | izx | izy =>
      rw [operandText, List.cons_append, List.cons_append, parseOperand_indirect, parseIndirect,
        skipDollar, hb _ (by decide)]
      rfl
  | abs =>
      rw [operandText, parseOperand_address, parseAddress, skipDollar, hw₀]
      rfl
  | abx | aby =>
      rw [operandText, List.cons_append, parseOperand_address, parseAddress, skipDollar, hw]
      rfl
  | ind | iax =>
      rw [operandText, List.cons_append, List.cons_append, parseOperand_indirect, parseIndirect,
        skipDollar, hw]
      rfl
  | rel =>
      rw [operandText, parseOperand_address, parseAddress, skipDollar, ht₀]
      rfl

/-! ## Lines -/

theorem isWs_capital {c : Char} (h : isCapital c) : isWs c = false := by
  rw [isCapital, decide_eq_true_eq] at h
  rw [isWs, decide_eq_false_iff_not, not_or]
  constructor <;> rintro rfl <;> exact absurd h (by decide)

theorem up_capital {c : Char} (h : isCapital c) : up c = c := by
  rw [isCapital, decide_eq_true_eq] at h
  rw [up, if_neg]
  intro hlow
  exact absurd (Char.le_trans hlow.1 h.2) (by decide)

theorem parseMnemonic_capital (rest : List Char) :
    ∀ (m : List Char), (∀ c ∈ m, isCapital c) →
      parseMnemonic m.length (m ++ rest) = (m, rest) := by
  intro m
  induction m with
  | nil => exact fun _ => rfl
  | cons c m ih =>
      intro h
      have hc := h c (List.mem_cons_self ..)
      rw [List.length_cons, List.cons_append, parseMnemonic, isWs_capital hc, if_neg (by decide),
        ih fun c hc => h c (List.mem_cons_of_mem _ hc), up_capital hc]

theorem parseOperand_line (pc : UInt16) (bytes : Nat → UInt8) (op : UInt8) :
    ∃ rest, line (mnemonicOf op) (operandText pc bytes (modeOf op)) = mnemonicOf op ++ rest ∧
      parseOperand rest = some (readAs (modeOf op), valueOf pc bytes (modeOf op)) := by
  by_cases hop : operandText pc bytes (modeOf op) = []
  · refine ⟨[], by rw [line, if_pos hop, List.append_nil], ?_⟩
    have := parseOperand_text pc bytes (modeOf op)
    rw [hop] at this
    exact this
  · exact ⟨_, by rw [line, if_neg hop], parseOperand_text pc bytes _⟩

/-- Assembling what was printed for an opcode. -/
theorem assembleLine_line (pc : UInt16) (bytes : Nat → UInt8) (ill : Bool) (op : UInt8) :
    assembleLine (line (mnemonicOf op) (operandText pc bytes (modeOf op))) ill pc
      = assembleOperand (mnemonicOf op) (readAs (modeOf op)) (valueOf pc bytes (modeOf op)) ill
          pc := by
  obtain ⟨rest, hline, hparse⟩ := parseOperand_line pc bytes op
  have hlen := mnemonicOf_length op
  have hcap := mnemonicOf_capital op
  have hm := parseMnemonic_capital rest (mnemonicOf op) hcap
  rw [hlen] at hm
  have hskip : skipWs (mnemonicOf op ++ rest) = mnemonicOf op ++ rest := by
    cases hc : mnemonicOf op with
    | nil =>
        rw [hc] at hlen
        exact absurd hlen (by decide)
    | cons c m =>
        rw [hc] at hcap
        have hws := isWs_capital (hcap c (List.mem_cons_self ..))
        rw [skipWs, List.cons_append, List.dropWhile_cons_of_neg (by rw [hws]; decide)]
  have hne : mnemonicOf op ++ rest ≠ [] := by
    intro h
    have := congrArg List.length h
    rw [List.length_append, hlen, List.length_nil] at this
    omega
  rw [hline, assembleLine, hskip]
  split
  · next h => exact absurd h hne
  · rw [hm]
    dsimp only
    rw [if_neg (by rw [hlen]; decide), hparse]


/-! ## Lookups -/

theorem upThree_mnemonicOf (op : UInt8) : upThree (mnemonicOf op) = mnemonicOf op := by
  rw [upThree, List.take_of_length_le (Nat.le_of_eq (mnemonicOf_length op))]
  calc (mnemonicOf op).map up
      = (mnemonicOf op).map id :=
        List.map_congr_left fun c hc => up_capital (mnemonicOf_capital op c hc)
    _ = mnemonicOf op := List.map_id _

/-- The row of an opcode's mnemonic. -/
theorem lookupOpcode_row {op : UInt8} {i : Nat}
    (hi : buildReverse.findMnem (mnemonicOf op) = some i) (mode : AsmAddrMode) (ill : Bool) :
    lookupOpcode (mnemonicOf op) mode ill = (buildReverse.table i mode).usable ill := by
  rw [lookupOpcode, upThree_mnemonicOf, if_neg (not_not.mpr (mnemonicOf_length op)),
    canonicalizeMnem_mnemonicOf, hi]

/-- An accepted opcode is found, or one that does the same. -/
theorem lookupOpcode_mode {op : UInt8} {ill : Bool} (hill : isIllegalOpcode op → ill) :
    ∃ op', lookupOpcode (mnemonicOf op) (modeOf op) ill = some (op', modeLength (modeOf op)) ∧
      SameOperation op' op := by
  obtain ⟨i, hi, hv, hlegal⟩ := knows_all.found op op.toNat_lt
  obtain ⟨hrow, hmode, hlen⟩ := knows_all.entry hv
  refine ⟨(buildReverse.table i (modeOf op)).opcode, ?_, ?_, hmode⟩
  · rw [lookupOpcode_row hi, ReverseEntry.usable,
      if_pos ⟨hv, fun h => h.2 (hill (hlegal h.1))⟩, hlen]
  · exact Option.some.inj (hrow.symm.trans (getElem?_of_findMnem hi))

/-- A branch has no absolute form. -/
theorem lookupOpcode_branch {op : UInt8} (hrel : modeOf op = .rel) (ill : Bool) :
    lookupOpcode (mnemonicOf op) .abs ill = none := by
  obtain ⟨i, hi, -⟩ := knows_all.found op op.toNat_lt
  rw [lookupOpcode_row hi, ReverseEntry.usable, if_neg]
  rintro ⟨hv, -⟩
  obtain ⟨hrow, hmode, -⟩ := knows_all.entry hv
  have hsame := Option.some.inj (hrow.symm.trans (getElem?_of_findMnem hi))
  have hbranch := modeOf_eq_rel.mp hrel
  rw [← hsame] at hbranch
  exact AsmAddrMode.noConfusion (hmode.symm.trans (modeOf_eq_rel.mpr hbranch))

/-! ## Operand bytes -/

theorem ofNat_word (bytes : Nat → UInt8) :
    UInt8.ofNat (word bytes) = bytes 1 ∧ UInt8.ofNat (word bytes / 256) = bytes 2 := by
  have h1 := (bytes 1).toNat_lt
  have h2 := (bytes 2).toNat_lt
  constructor <;> apply UInt8.toNat_inj.mp <;> rw [UInt8.toNat_ofNat', word] <;> omega

theorem ofInt_int8 : ∀ n : Fin 256, UInt8.ofInt (int8 (UInt8.ofNat n)) = UInt8.ofNat n := by
  decide +kernel

/-- The displacement of a branch is found unless the target wraps. -/
theorem displacement_target (pc : UInt16) (b : UInt8) :
    displacement pc (branchTarget pc b)
      = if 0 ≤ (branchBase pc : Int) + int8 b ∧ (branchBase pc : Int) + int8 b < 65536
        then .ok b else .error .monitorRange := by
  have hb := b.toNat_lt
  have hoff : -128 ≤ int8 b ∧ int8 b ≤ 127 := by
    rw [int8]
    split <;> omega
  have htarget : (branchTarget pc b : Int) = ((branchBase pc : Int) + int8 b) % 65536 := by
    rw [branchTarget, branchBase]
    omega
  have hbase : branchBase pc < 65536 := Nat.mod_lt _ (by decide)
  rw [displacement, htarget]
  by_cases hin : 0 ≤ (branchBase pc : Int) + int8 b ∧ (branchBase pc : Int) + int8 b < 65536
  · have hdelta : ((branchBase pc : Int) + int8 b) % 65536 - branchBase pc = int8 b := by omega
    have hback := ofInt_int8 ⟨b.toNat, hb⟩
    rw [UInt8.ofNat_toNat] at hback
    rw [if_pos hin, hdelta, if_neg (by omega), hback]
  · rw [if_neg hin, if_pos (by omega)]

/-- The bytes of an instruction that is no branch. -/
theorem encode_value {mode : AsmAddrMode} (hmode : mode ≠ .rel) (pc : UInt16)
    (bytes : Nat → UInt8) (op : UInt8) :
    ∃ insn, encode pc op (modeLength mode) mode (valueOf pc bytes mode) = .ok insn ∧
      insn.length = modeLength mode ∧
      insn.bytes.take insn.length = op :: operandBytes bytes insn.length := by
  have hb : ¬ (bytes 1).toNat > 0xFF := by
    have := (bytes 1).toNat_lt
    omega
  obtain ⟨hlo, hhi⟩ := ofNat_word bytes
  cases mode with
  | rel => exact absurd rfl hmode
  | imp | acc => exact ⟨_, rfl, rfl, rfl⟩
  | imm | zp | zpx | zpy | zps | izx | izy =>
      refine ⟨_, if_neg hb, rfl, ?_⟩
      show [op, UInt8.ofNat (bytes 1).toNat] = [op, bytes 1]
      rw [UInt8.ofNat_toNat]
  | abs | abx | aby | ind | iax =>
      refine ⟨_, rfl, rfl, ?_⟩
      show [op, UInt8.ofNat (word bytes), UInt8.ofNat (word bytes / 256)] = [op, bytes 1, bytes 2]
      rw [hlo, hhi]

/-! ## The round trip -/

variable {pc : UInt16} {bytes : Nat → UInt8} {ill : Bool}

/-- What the disassembler prints for an opcode it accepts. -/
theorem disassemble_accepted (h : (disassemble pc bytes ill).valid = true) :
    (isIllegalOpcode (bytes 0) → ill) ∧
      (disassemble pc bytes ill).length = modeLength (modeOf (bytes 0)) ∧
      (disassemble pc bytes ill).text
        = line (mnemonicOf (bytes 0)) (operandText pc bytes (modeOf (bytes 0))) := by
  have hok := template_ok (bytes 0)
  rw [disassemble] at h ⊢
  dsimp only at h ⊢
  by_cases hno : (isIllegalOpcode (bytes 0) && !ill) = true
  · rw [if_pos hno] at h
    exact nomatch h
  · rw [if_neg hno]
    refine ⟨fun hill => ?_, operandLength_eq hok, ?_⟩
    · cases hi : ill with
      | true => rfl
      | false =>
          rw [hill, hi] at hno
          exact absurd rfl hno
    · show line (canonicalizeMnemonic (template (bytes 0))) _ = _
      rw [hok.mnemonic, formatOperand_text hok]
      rfl

/-- What an accepted instruction that is no branch assembles to. -/
theorem roundTrips_value (h : (disassemble pc bytes ill).valid = true)
    (hrel : modeOf (bytes 0) ≠ .rel) : RoundTrips pc bytes ill := by
  obtain ⟨hill, hlen, htext⟩ := disassemble_accepted h
  obtain ⟨op, hlook, hsame⟩ := lookupOpcode_mode hill
  obtain ⟨insn, hx, hl, hbytes⟩ := encode_value hrel pc bytes op
  have hread : readAs (modeOf (bytes 0)) = modeOf (bytes 0) := by
    cases hm : modeOf (bytes 0) with
    | rel => exact absurd hm hrel
    | _ => rfl
  refine ⟨insn, op, ?_, hl.trans hlen.symm, hbytes, hsame⟩
  rw [htext, assembleLine_line, assembleOperand, hread, hlook]
  exact hx

/-- What an accepted branch assembles to. -/
theorem assembleLine_branch (h : (disassemble pc bytes ill).valid = true)
    (hrel : modeOf (bytes 0) = .rel) :
    ∃ op, SameOperation op (bytes 0) ∧ assembleLine (disassemble pc bytes ill).text ill pc
      = match displacement pc (branchTarget pc (bytes 1)) with
        | .error e => .error e
        | .ok d => .ok ⟨[op, d, 0], 2, false⟩ := by
  obtain ⟨hill, -, htext⟩ := disassemble_accepted h
  obtain ⟨op, hlook, hsame⟩ := lookupOpcode_mode hill
  refine ⟨op, hsame, ?_⟩
  rw [hrel] at hlook
  rw [htext, assembleLine_line, hrel, assembleOperand]
  show (match lookupOpcode (mnemonicOf (bytes 0)) .abs ill with
    | some (opcode, length) => _
    | none => _) = _
  rw [lookupOpcode_branch hrel]
  dsimp only
  rw [promoteBranch, if_pos (show readAs .rel = .abs ∨ readAs .rel = .zp from Or.inl rfl), hlook]
  rfl

theorem roundTrips_branch (h : (disassemble pc bytes ill).valid = true)
    (hrel : modeOf (bytes 0) = .rel) : RoundTrips pc bytes ill ↔ ¬ BranchWraps pc bytes := by
  obtain ⟨op, hsame, hx⟩ := assembleLine_branch h hrel
  obtain ⟨-, hlen, -⟩ := disassemble_accepted h
  rw [displacement_target] at hx
  rw [hrel] at hlen
  by_cases hin : 0 ≤ (branchBase pc : Int) + int8 (bytes 1) ∧
      (branchBase pc : Int) + int8 (bytes 1) < 65536
  · rw [if_pos hin] at hx
    refine ⟨fun _ hwraps => hwraps.2 hin, fun _ => ⟨_, op, hx, hlen.symm, rfl, hsame⟩⟩
  · rw [if_neg hin] at hx
    refine ⟨?_, fun hno => absurd ⟨hrel, hin⟩ hno⟩
    rintro ⟨insn, -, hok, -⟩
    exact nomatch hx.symm.trans hok

/-- **Round trip.**  What the disassembler prints for an opcode it accepts
    assembles to the same bytes, unless it is a branch that wraps. -/
theorem roundTrips_iff (pc : UInt16) (bytes : Nat → UInt8) (ill : Bool)
    (h : (disassemble pc bytes ill).valid = true) :
    RoundTrips pc bytes ill ↔ ¬ BranchWraps pc bytes := by
  by_cases hrel : modeOf (bytes 0) = .rel
  · exact roundTrips_branch h hrel
  · exact iff_of_true (roundTrips_value h hrel) fun hwraps => hrel hwraps.1

/-- `LDA #$12`. -/
def loadImmediate (i : Nat) : UInt8 := [0xA9, 0x12].getD i 0

theorem roundTrips_iff_loadImmediate :
    RoundTrips 0x1000 loadImmediate false ↔ ¬ BranchWraps 0x1000 loadImmediate :=
  roundTrips_iff 0x1000 loadImmediate false (by decide +kernel)

/-- `BNE` sixteen bytes back. -/
def branchBack (i : Nat) : UInt8 := [0xD0, 0xF0].getD i 0

/-- At address 0 this branch goes to `$FFF2`; the assembler finds that out of
    range. -/
theorem branchBack_not_roundTrips :
    (disassemble 0 branchBack false).valid = true ∧ ¬ RoundTrips 0 branchBack false := by
  have hrel : modeOf (branchBack 0) = .rel := by decide +kernel
  have hvalid : (disassemble 0 branchBack false).valid = true := by decide +kernel
  refine ⟨hvalid, fun h => (roundTrips_branch hvalid hrel).mp h ⟨hrel, ?_⟩⟩
  decide +kernel

end Assembler6502
