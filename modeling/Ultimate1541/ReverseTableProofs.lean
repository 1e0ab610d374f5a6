import Ultimate1541.Disassembler6502Proofs

/-! # The assembler's table of opcodes

    The table that turns the disassembler's templates around is filled when it
    is first needed: one row for each mnemonic, one column for each addressing
    mode.  It has an entry for every opcode, and no others (`knows_all`). -/

namespace Assembler6502

open Disassembler6502

/-- `AsmAddrMode`. -/
inductive AsmAddrMode where
  | imp
  | acc
  | imm
  | zp
  | zpx
  | zpy
  | zps
  | izx
  | izy
  | abs
  | abx
  | aby
  | ind
  | iax
  | rel
  deriving DecidableEq, Repr

/-! ## Templates -/

/-- `template_to_mode`. -/
def templateToMode (t : List Char) : AsmAddrMode :=
  if t[0]? = some 'B' ∧ t[1]? ≠ some 'R' ∧ t[1]? ≠ some 'I' then .rel
  else
    let spec := operandSpec t
    if spec = [] then .imp
    else if spec[0]? = some 'A' ∧ (spec[1]? = some ' ' ∨ spec[1]? = none) then .acc
    else if startsWith spec "rel" then .rel
    else if startsWith spec "#" then .imm
    else if startsWith spec "($nn,X)" then .izx
    else if startsWith spec "($nn),Y" then .izy
    else if startsWith spec "($nnnn,X)" ∨ startsWith spec "(ABS,X)" then .iax
    else if startsWith spec "($nnnn)" then .ind
    else if startsWith spec "$nnnn,Y" then .aby
    else if startsWith spec "$nnnn,X" then .abx
    else if startsWith spec "$nnnn" then .abs
    else if startsWith spec "$nn,Y" then .zpy
    else if startsWith spec "$nn,X" then .zpx
    else if startsWith spec "$nn,S" then .zps
    else if startsWith spec "$nn" then .zp
    else .imp

/-- `mode_length`. -/
def modeLength : AsmAddrMode → Nat
  | .imp | .acc => 1
  | .imm | .zp | .zpx | .zpy | .zps | .izx | .izy | .rel => 2
  | .abs | .abx | .aby | .ind | .iax => 3

/-- `canonicalize_mnem`. -/
def canonicalizeMnem (t : List Char) : List Char :=
  let m := t.take 3
  if m = "HLT".toList then "JAM".toList
  else if m = "ASO".toList then "SLO".toList
  else if m = "LSE".toList then "SRE".toList
  else if m = "DCM".toList then "DCP".toList
  else if m = "INS".toList then "ISC".toList
  else if m = "ISB".toList then "ISC".toList
  else if m = "KIL".toList then "JAM".toList
  else if m = "XAA".toList then "ANE".toList
  else if m = "AHX".toList then "SHA".toList
  else if m = "AXS".toList then "SBX".toList
  else if m = "ASR".toList then "ALR".toList
  else if m = "LXA".toList then "LAX".toList
  else if m = "SHS".toList then "TAS".toList
  else if m = "LAE".toList then "LAS".toList
  else if m = "LDS".toList then "LAS".toList
  else m

/-- The canonical mnemonic of an opcode. -/
def mnemonicOf (opcode : UInt8) : List Char := canonicalizeMnem (template opcode)

/-- The addressing mode of an opcode. -/
def modeOf (opcode : UInt8) : AsmAddrMode := templateToMode (template opcode)

/-! ## The table from mnemonic and mode to opcode -/

/-- `ReverseEntry`. -/
structure ReverseEntry where
  opcode : UInt8
  length : Nat
  illegal : Bool
  valid : Bool
  deriving DecidableEq, Repr

/-- `REVERSE_MNEMONIC_MAX`. -/
def reverseMnemonicMax : Nat := 96

/-- `reverse_mnemonics` with their count, and `reverse_table`. -/
structure Reverse where
  mnemonics : List (List Char)
  table : Nat → AsmAddrMode → ReverseEntry

/-- The table after `memset`. -/
def Reverse.empty : Reverse := ⟨[], fun _ _ => ⟨0, 0, false, false⟩⟩

/-- `find_mnem`. -/
def Reverse.findMnem (r : Reverse) (m : List Char) : Option Nat := r.mnemonics.findIdx? (· = m)

/-- `find_or_add_mnem`. -/
def Reverse.findOrAddMnem (r : Reverse) (m : List Char) : Option (Nat × Reverse) :=
  match r.findMnem m with
  | some i => some (i, r)
  | none =>
      if r.mnemonics.length ≥ reverseMnemonicMax then none
      else some (r.mnemonics.length, { r with mnemonics := r.mnemonics ++ [m] })

/-- `reverse_table[idx][mode] = e`. -/
def Reverse.setEntry (r : Reverse) (idx : Nat) (mode : AsmAddrMode) (e : ReverseEntry) :
    Reverse :=
  { r with table := fun i md => if i = idx ∧ md = mode then e else r.table i md }

/-- One round of `build_reverse`: a legal opcode takes the place of an illegal
    one. -/
def Reverse.add (r : Reverse) (op : UInt8) : Reverse :=
  match r.findOrAddMnem (mnemonicOf op) with
  | none => r
  | some (idx, r) =>
      let e := r.table idx (modeOf op)
      if ¬ e.valid ∨ (e.illegal ∧ ¬ isIllegalOpcode op) then
        r.setEntry idx (modeOf op) ⟨op, modeLength (modeOf op), isIllegalOpcode op, true⟩
      else r

/-- `build_reverse` for the first `n` opcodes. -/
def buildReverseTo : Nat → Reverse
  | 0 => .empty
  | n + 1 => (buildReverseTo n).add (UInt8.ofNat n)

/-- `build_reverse`. -/
def buildReverse : Reverse := buildReverseTo 256

/-! ## What the templates look like -/

/-- The operand specification that goes with a mode. -/
def specOf : AsmAddrMode → String
  | .imp => ""
  | .acc => "A        "
  | .imm => "#        "
  | .zp => "$nn      "
  | .zpx => "$nn,X    "
  | .zpy => "$nn,Y    "
  | .zps => "$nn,S    "
  | .izx => "($nn,X)  "
  | .izy => "($nn),Y  "
  | .abs => "$nnnn    "
  | .abx => "$nnnn,X  "
  | .aby => "$nnnn,Y  "
  | .ind => "($nnnn)  "
  | .iax => "($nnnn,X)"
  | .rel => "rel      "

/-- A capital letter. -/
def isCapital (c : Char) : Bool := 'A' ≤ c ∧ c ≤ 'Z'

/-- The mnemonics of the branches. -/
def branchMnemonics : List String := ["BPL", "BMI", "BVC", "BVS", "BCC", "BCS", "BNE", "BEQ"]

/-- What the disassembler and the assembler agree on about a template. -/
structure TemplateOk (t : List Char) : Prop where
  spec : operandSpec t = (specOf (templateToMode t)).toList
  mnemonic : canonicalizeMnemonic t = canonicalizeMnem t
  length : (canonicalizeMnem t).length = 3
  capital : ∀ c ∈ canonicalizeMnem t, isCapital c
  canonical : canonicalizeMnem (canonicalizeMnem t) = canonicalizeMnem t
  branch : templateToMode t = .rel ↔ canonicalizeMnem t ∈ branchMnemonics.map String.toList
  used : templateToMode t ≠ .zps

instance (t : List Char) : Decidable (TemplateOk t) :=
  decidable_of_iff
    (operandSpec t = (specOf (templateToMode t)).toList ∧
      canonicalizeMnemonic t = canonicalizeMnem t ∧ (canonicalizeMnem t).length = 3 ∧
      (canonicalizeMnem t).all isCapital = true ∧
      canonicalizeMnem (canonicalizeMnem t) = canonicalizeMnem t ∧
      (templateToMode t = .rel ↔
        (branchMnemonics.map String.toList).contains (canonicalizeMnem t) = true) ∧
      templateToMode t ≠ .zps)
    ⟨fun ⟨h1, h2, h3, h4, h5, h6, h7⟩ =>
        ⟨h1, h2, h3, List.all_eq_true.mp h4, h5, h6.trans List.contains_iff_mem, h7⟩,
      fun ⟨h1, h2, h3, h4, h5, h6, h7⟩ =>
        ⟨h1, h2, h3, List.all_eq_true.mpr h4, h5, h6.trans List.contains_iff_mem.symm, h7⟩⟩

/-- The mnemonics of all templates. -/
def allMnemonics : List (List Char) := opcodeTemplates.map fun t => canonicalizeMnem t.toList

/-- Some texts and their characters. -/
abbrev Chars : List String → List (List Char) → Prop := List.Forall₂ fun t l => t.toList = l

theorem Chars.map_eq {ts : List String} {ls : List (List Char)} (h : Chars ts ls) :
    ts.map String.toList = ls := by
  induction h with
  | nil => rfl
  | cons ht _ ih => rw [List.map_cons, ht, ih]

/-- A text that is written out. -/
theorem Chars.cons (l : List Char) {ts : List String} {ls : List (List Char)}
    (h : Chars ts ls) : Chars (String.ofList l :: ts) (l :: ls) :=
  List.Forall₂.cons String.toList_ofList h

/-- All templates are well formed.  Their characters are read off the table first. -/
theorem opcodeTemplates_ok : ∀ t ∈ opcodeTemplates, TemplateOk t.toList := by
  have h : ∃ ls, Chars opcodeTemplates ls ∧ ∀ l ∈ ls, TemplateOk l := by
    apply Exists.intro
    apply And.intro
    · dsimp only [opcodeTemplates]
      repeat apply Chars.cons
      exact List.Forall₂.nil
    · decide +kernel
  obtain ⟨ls, hls, hok⟩ := h
  intro t ht
  exact hok t.toList (hls.map_eq ▸ List.mem_map_of_mem ht)

/-- Their mnemonics fit the table. -/
theorem allMnemonics_fit : allMnemonics.dedup.length ≤ reverseMnemonicMax := by
  have h : ∃ ls, Chars opcodeTemplates ls ∧
      (ls.map canonicalizeMnem).dedup.length ≤ reverseMnemonicMax := by
    apply Exists.intro
    apply And.intro
    · dsimp only [opcodeTemplates]
      repeat apply Chars.cons
      exact List.Forall₂.nil
    · decide +kernel
  obtain ⟨ls, hls, hfit⟩ := h
  rw [← hls.map_eq, List.map_map] at hfit
  exact hfit

theorem exists_template (op : UInt8) : ∃ t ∈ opcodeTemplates, template op = t.toList := by
  have hlen : opcodeTemplates.length = 256 := by decide +kernel
  have hlt : op.toNat < opcodeTemplates.length := by
    rw [hlen]
    exact op.toNat_lt
  refine ⟨opcodeTemplates.get ⟨op.toNat, hlt⟩, List.get_mem _ _, ?_⟩
  rw [template, List.getD_eq_getElem?_getD, List.getElem?_eq_getElem hlt]
  rfl

theorem template_ok (op : UInt8) : TemplateOk (template op) := by
  obtain ⟨t, ht, hop⟩ := exists_template op
  rw [hop]
  exact opcodeTemplates_ok t ht

theorem mnemonicOf_length (op : UInt8) : (mnemonicOf op).length = 3 := (template_ok op).length

theorem mnemonicOf_capital (op : UInt8) : ∀ c ∈ mnemonicOf op, isCapital c :=
  (template_ok op).capital

theorem canonicalizeMnem_mnemonicOf (op : UInt8) :
    canonicalizeMnem (mnemonicOf op) = mnemonicOf op := (template_ok op).canonical

theorem modeOf_eq_rel {op : UInt8} :
    modeOf op = .rel ↔ mnemonicOf op ∈ branchMnemonics.map String.toList := (template_ok op).branch

theorem mnemonicOf_mem (op : UInt8) : mnemonicOf op ∈ allMnemonics := by
  obtain ⟨t, ht, hop⟩ := exists_template op
  rw [mnemonicOf, hop]
  exact List.mem_map.mpr ⟨t, ht, rfl⟩

/-! ## The table is the inverse of the templates -/

/-- A table that knows the first `n` opcodes. -/
structure Knows (n : Nat) (r : Reverse) : Prop where
  nodup : r.mnemonics.Nodup
  known : r.mnemonics ⊆ allMnemonics
  /-- A valid entry is the opcode it is for. -/
  entry : ∀ {i mode}, (r.table i mode).valid →
    r.mnemonics[i]? = some (mnemonicOf (r.table i mode).opcode) ∧
    modeOf (r.table i mode).opcode = mode ∧ (r.table i mode).length = modeLength mode
  /-- Each opcode has an entry, and a legal one has a legal entry. -/
  found : ∀ op : UInt8, op.toNat < n → ∃ i, r.findMnem (mnemonicOf op) = some i ∧
    (r.table i (modeOf op)).valid ∧
    ((r.table i (modeOf op)).illegal → isIllegalOpcode op)

theorem findIdx?_append_of_some {α : Type} [DecidableEq α] {l : List α} {a : α} {i : Nat}
    (l' : List α) (h : l.findIdx? (· = a) = some i) : (l ++ l').findIdx? (· = a) = some i := by
  rw [List.findIdx?_append, h]
  rfl

theorem findIdx?_append_of_none {α : Type} [DecidableEq α] {l : List α} {a : α}
    (h : l.findIdx? (· = a) = none) : (l ++ [a]).findIdx? (· = a) = some l.length := by
  simp [List.findIdx?_append, h]

theorem getElem?_of_findMnem {r : Reverse} {m : List Char} {i : Nat}
    (h : r.findMnem m = some i) :
    r.mnemonics[i]? = some m := by
  rw [Reverse.findMnem, List.findIdx?_eq_some_iff_getElem] at h
  obtain ⟨hi, hm, -⟩ := h
  rw [List.getElem?_eq_getElem hi, of_decide_eq_true hm]

/-- A mnemonic's row: the old one, or a new one at the end. -/
theorem Knows.findOrAdd {n : Nat} {r : Reverse} (h : Knows n r) (op : UInt8) :
    ∃ i r', r.findOrAddMnem (mnemonicOf op) = some (i, r') ∧ Knows n r' ∧
      r'.findMnem (mnemonicOf op) = some i := by
  rw [Reverse.findOrAddMnem]
  cases hf : r.findMnem (mnemonicOf op) with
  | some i => exact ⟨i, r, rfl, h, hf⟩
  | none =>
      have hnew : mnemonicOf op ∉ r.mnemonics := by
        intro hm
        have := List.findIdx?_eq_none_iff.mp hf _ hm
        exact of_decide_eq_false this rfl
      have hnodup : (r.mnemonics ++ [mnemonicOf op]).Nodup := by
        rw [List.nodup_append]
        refine ⟨h.nodup, List.nodup_singleton _, fun a ha b hb hab => hnew ?_⟩
        rw [List.mem_singleton] at hb
        exact hb ▸ hab ▸ ha
      have hsub : r.mnemonics ++ [mnemonicOf op] ⊆ allMnemonics :=
        List.append_subset.mpr ⟨h.known, fun a ha => List.mem_singleton.mp ha ▸ mnemonicOf_mem op⟩
      have hlen : (r.mnemonics ++ [mnemonicOf op]).length ≤ reverseMnemonicMax :=
        Nat.le_trans (hnodup.length_le_of_subset fun a ha => List.mem_dedup.mpr (hsub ha))
          allMnemonics_fit
      rw [List.length_append, List.length_singleton] at hlen
      dsimp only
      rw [if_neg (by omega)]
      refine ⟨_, _, rfl, ⟨hnodup, hsub, ?_, ?_⟩, findIdx?_append_of_none hf⟩
      · intro i mode hv
        obtain ⟨h1, h2⟩ := h.entry hv
        exact ⟨(List.getElem?_append_left (List.getElem?_eq_some_iff.mp h1).1).trans h1, h2⟩
      · intro op' hop'
        obtain ⟨i, h1, h2⟩ := h.found op' hop'
        exact ⟨i, findIdx?_append_of_some _ h1, h2⟩


@[simp] theorem Reverse.table_setEntry_self (r : Reverse) (i : Nat) (mode : AsmAddrMode)
    (e : ReverseEntry) : (r.setEntry i mode e).table i mode = e := if_pos ⟨rfl, rfl⟩

theorem Reverse.table_setEntry_of_ne (r : Reverse) {i j : Nat} {mode md : AsmAddrMode}
    (e : ReverseEntry) (h : ¬ (j = i ∧ md = mode)) :
    (r.setEntry i mode e).table j md = r.table j md := if_neg h

/-- Filling an empty entry, or one of an illegal opcode. -/
theorem Knows.setEntry {n : Nat} {r : Reverse} (h : Knows n r) {op : UInt8} {i : Nat}
    (hi : r.findMnem (mnemonicOf op) = some i)
    (hset : ¬ (r.table i (modeOf op)).valid = true ∨
      ((r.table i (modeOf op)).illegal = true ∧ ¬ isIllegalOpcode op = true)) :
    Knows n (r.setEntry i (modeOf op) ⟨op, modeLength (modeOf op), isIllegalOpcode op, true⟩) where
  nodup := h.nodup
  known := h.known
  entry := by
    intro j mode hv
    by_cases hat : j = i ∧ mode = modeOf op
    · obtain ⟨rfl, rfl⟩ := hat
      rw [Reverse.table_setEntry_self]
      exact ⟨getElem?_of_findMnem hi, rfl, rfl⟩
    · rw [Reverse.table_setEntry_of_ne r _ hat] at hv ⊢
      exact h.entry hv
  found := by
    intro op' hop'
    obtain ⟨j, hj, hv, hill⟩ := h.found op' hop'
    refine ⟨j, hj, ?_⟩
    by_cases hat : j = i ∧ modeOf op' = modeOf op
    · -- The entry was valid, so only a legal opcode takes its place.
      obtain ⟨rfl, hmode⟩ := hat
      rw [hmode] at hv hill ⊢
      rw [Reverse.table_setEntry_self]
      refine ⟨rfl, fun hop => ?_⟩
      rcases hset with hset | hset
      · exact absurd hv hset
      · exact absurd hop hset.2
    · rw [Reverse.table_setEntry_of_ne r _ hat]
      exact ⟨hv, hill⟩

/-- One opcode more. -/
theorem Knows.add {n : Nat} {r : Reverse} (h : Knows n r) {op : UInt8} (hn : op.toNat = n) :
    Knows (n + 1) (r.add op) := by
  obtain ⟨i, r', hx, h', hi⟩ := h.findOrAdd op
  have hextend : ∀ {q : Reverse}, Knows n q → q.findMnem (mnemonicOf op) = some i →
      (q.table i (modeOf op)).valid →
      ((q.table i (modeOf op)).illegal → isIllegalOpcode op) → Knows (n + 1) q := by
    intro q hq hi hv hill
    refine ⟨hq.nodup, hq.known, hq.entry, fun op' hop' => ?_⟩
    by_cases hlt : op'.toNat < n
    · exact hq.found op' hlt
    · obtain rfl : op' = op := UInt8.toNat_inj.mp (by omega)
      exact ⟨i, hi, hv, hill⟩
  rw [Reverse.add, hx]
  dsimp only
  by_cases hset : ¬ (r'.table i (modeOf op)).valid = true ∨
      ((r'.table i (modeOf op)).illegal = true ∧ ¬ isIllegalOpcode op = true)
  · rw [if_pos hset]
    refine hextend (h'.setEntry hi hset) hi ?_ ?_
    · rw [Reverse.table_setEntry_self]
    · rw [Reverse.table_setEntry_self]
      exact id
  · rw [if_neg hset]
    rw [not_or, not_not] at hset
    refine hextend h' hi hset.1 fun hill => ?_
    by_contra hop
    exact hset.2 ⟨hill, hop⟩

theorem knows_empty : Knows 0 .empty where
  nodup := List.nodup_nil
  known := List.nil_subset _
  entry := fun hv => nomatch hv
  found := fun _ hop => nomatch hop

theorem knows_buildReverseTo : ∀ n ≤ 256, Knows n (buildReverseTo n)
  | 0, _ => knows_empty
  | n + 1, hn =>
      (knows_buildReverseTo n (by omega)).add (show (UInt8.ofNat n).toNat = n by
        rw [UInt8.toNat_ofNat']
        omega)

/-- The table knows all opcodes. -/
theorem knows_all : Knows 256 buildReverse := knows_buildReverseTo 256 (Nat.le_refl 256)

end Assembler6502
