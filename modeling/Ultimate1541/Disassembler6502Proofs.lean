import Mathlib

/-! # The 6502 disassembler of the monitor

    Each opcode has a template: mnemonic, a star for an illegal opcode, operand
    specification.  Every function that reads a template finds the operand's kind
    by comparing prefixes, in an order of its own.  A string is the list of its
    characters. -/

namespace Disassembler6502

/-- `opcode_templates`. -/
def opcodeTemplates : List String :=
  ["BRK          ", "ORA ($nn,X)  ", "JAM*         ", "SLO*($nn,X)  ",
   "NOP*$nn      ", "ORA $nn      ", "ASL $nn      ", "SLO*$nn      ",
   "PHP          ", "ORA #        ", "ASL A        ", "ANC*#        ",
   "NOP*$nnnn    ", "ORA $nnnn    ", "ASL $nnnn    ", "SLO*$nnnn    ",
   "BPL rel      ", "ORA ($nn),Y  ", "JAM*         ", "SLO*($nn),Y  ",
   "NOP*$nn,X    ", "ORA $nn,X    ", "ASL $nn,X    ", "SLO*$nn,X    ",
   "CLC          ", "ORA $nnnn,Y  ", "NOP*         ", "SLO*$nnnn,Y  ",
   "NOP*$nnnn,X  ", "ORA $nnnn,X  ", "ASL $nnnn,X  ", "SLO*$nnnn,X  ",
   "JSR $nnnn    ", "AND ($nn,X)  ", "JAM*         ", "RLA*($nn,X)  ",
   "BIT $nn      ", "AND $nn      ", "ROL $nn      ", "RLA*$nn      ",
   "PLP          ", "AND #        ", "ROL A        ", "ANC*#        ",
   "BIT $nnnn    ", "AND $nnnn    ", "ROL $nnnn    ", "RLA*$nnnn    ",
   "BMI rel      ", "AND ($nn),Y  ", "JAM*         ", "RLA*($nn),Y  ",
   "NOP*$nn,X    ", "AND $nn,X    ", "ROL $nn,X    ", "RLA*$nn,X    ",
   "SEC          ", "AND $nnnn,Y  ", "NOP*         ", "RLA*$nnnn,Y  ",
   "NOP*$nnnn,X  ", "AND $nnnn,X  ", "ROL $nnnn,X  ", "RLA*$nnnn,X  ",
   "RTI          ", "EOR ($nn,X)  ", "JAM*         ", "SRE*($nn,X)  ",
   "NOP*$nn      ", "EOR $nn      ", "LSR $nn      ", "SRE*$nn      ",
   "PHA          ", "EOR #        ", "LSR A        ", "ALR*#        ",
   "JMP $nnnn    ", "EOR $nnnn    ", "LSR $nnnn    ", "SRE*$nnnn    ",
   "BVC rel      ", "EOR ($nn),Y  ", "JAM*         ", "SRE*($nn),Y  ",
   "NOP*$nn,X    ", "EOR $nn,X    ", "LSR $nn,X    ", "SRE*$nn,X    ",
   "CLI          ", "EOR $nnnn,Y  ", "NOP*         ", "SRE*$nnnn,Y  ",
   "NOP*$nnnn,X  ", "EOR $nnnn,X  ", "LSR $nnnn,X  ", "SRE*$nnnn,X  ",
   "RTS          ", "ADC ($nn,X)  ", "JAM*         ", "RRA*($nn,X)  ",
   "NOP*$nn      ", "ADC $nn      ", "ROR $nn      ", "RRA*$nn      ",
   "PLA          ", "ADC #        ", "ROR A        ", "ARR*#        ",
   "JMP ($nnnn)  ", "ADC $nnnn    ", "ROR $nnnn    ", "RRA*$nnnn    ",
   "BVS rel      ", "ADC ($nn),Y  ", "JAM*         ", "RRA*($nn),Y  ",
   "NOP*$nn,X    ", "ADC $nn,X    ", "ROR $nn,X    ", "RRA*$nn,X    ",
   "SEI          ", "ADC $nnnn,Y  ", "NOP*         ", "RRA*$nnnn,Y  ",
   "NOP*$nnnn,X  ", "ADC $nnnn,X  ", "ROR $nnnn,X  ", "RRA*$nnnn,X  ",
   "NOP*#        ", "STA ($nn,X)  ", "NOP*#        ", "SAX*($nn,X)  ",
   "STY $nn      ", "STA $nn      ", "STX $nn      ", "SAX*$nn      ",
   "DEY          ", "NOP*#        ", "TXA          ", "ANE*#        ",
   "STY $nnnn    ", "STA $nnnn    ", "STX $nnnn    ", "SAX*$nnnn    ",
   "BCC rel      ", "STA ($nn),Y  ", "JAM*         ", "SHA*($nn),Y  ",
   "STY $nn,X    ", "STA $nn,X    ", "STX $nn,Y    ", "SAX*$nn,Y    ",
   "TYA          ", "STA $nnnn,Y  ", "TXS          ", "TAS*$nnnn,Y  ",
   "SHY*$nnnn,X  ", "STA $nnnn,X  ", "SHX*$nnnn,Y  ", "SHA*$nnnn,Y  ",
   "LDY #        ", "LDA ($nn,X)  ", "LDX #        ", "LAX*($nn,X)  ",
   "LDY $nn      ", "LDA $nn      ", "LDX $nn      ", "LAX*$nn      ",
   "TAY          ", "LDA #        ", "TAX          ", "LAX*#        ",
   "LDY $nnnn    ", "LDA $nnnn    ", "LDX $nnnn    ", "LAX*$nnnn    ",
   "BCS rel      ", "LDA ($nn),Y  ", "JAM*         ", "LAX*($nn),Y  ",
   "LDY $nn,X    ", "LDA $nn,X    ", "LDX $nn,Y    ", "LAX*$nn,Y    ",
   "CLV          ", "LDA $nnnn,Y  ", "TSX          ", "LAS*$nnnn,Y  ",
   "LDY $nnnn,X  ", "LDA $nnnn,X  ", "LDX $nnnn,Y  ", "LAX*$nnnn,Y  ",
   "CPY #        ", "CMP ($nn,X)  ", "NOP*#        ", "DCP*($nn,X)  ",
   "CPY $nn      ", "CMP $nn      ", "DEC $nn      ", "DCP*$nn      ",
   "INY          ", "CMP #        ", "DEX          ", "SBX*#        ",
   "CPY $nnnn    ", "CMP $nnnn    ", "DEC $nnnn    ", "DCP*$nnnn    ",
   "BNE rel      ", "CMP ($nn),Y  ", "JAM*         ", "DCP*($nn),Y  ",
   "NOP*$nn,X    ", "CMP $nn,X    ", "DEC $nn,X    ", "DCP*$nn,X    ",
   "CLD          ", "CMP $nnnn,Y  ", "NOP*         ", "DCP*$nnnn,Y  ",
   "NOP*$nnnn,X  ", "CMP $nnnn,X  ", "DEC $nnnn,X  ", "DCP*$nnnn,X  ",
   "CPX #        ", "SBC ($nn,X)  ", "NOP*#        ", "ISC*($nn,X)  ",
   "CPX $nn      ", "SBC $nn      ", "INC $nn      ", "ISC*$nn      ",
   "INX          ", "SBC #        ", "NOP          ", "SBC*#        ",
   "CPX $nnnn    ", "SBC $nnnn    ", "INC $nnnn    ", "ISC*$nnnn    ",
   "BEQ rel      ", "SBC ($nn),Y  ", "JAM*         ", "ISC*($nn),Y  ",
   "NOP*$nn,X    ", "SBC $nn,X    ", "INC $nn,X    ", "ISC*$nn,X    ",
   "SED          ", "SBC $nnnn,Y  ", "NOP*         ", "ISC*$nnnn,Y  ",
   "NOP*$nnnn,X  ", "SBC $nnnn,X  ", "INC $nnnn,X  ", "ISC*$nnnn,X  "]

/-- `disassembler_6502_template`. -/
def template (opcode : UInt8) : List Char := (opcodeTemplates.getD opcode.toNat "").toList

/-- `illegal_map`. -/
def illegalMap : List Nat :=
  [0x989C, 0x9C9C, 0x888C, 0x9C9C,
   0x889C, 0x9C9C, 0x889C, 0x9C9C,
   0x8A8D, 0xD88C, 0x8888, 0x888C,
   0x888C, 0x9C9C, 0x888C, 0x9C9C]

/-- `is_illegal_opcode`. -/
def isIllegalOpcode (opcode : UInt8) : Bool :=
  (illegalMap.getD (opcode.toNat / 16) 0).testBit (opcode.toNat % 16)

/-- `!strncmp(spec, lit, strlen(lit))`. -/
def startsWith (spec : List Char) (lit : String) : Bool := lit.toList.isPrefixOf spec

/-- `canonicalize_mnemonic`. -/
def canonicalizeMnemonic (templ : List Char) : List Char :=
  let mnemonic := templ.take 3
  if mnemonic = "HLT".toList then "JAM".toList
  else if mnemonic = "ASO".toList then "SLO".toList
  else if mnemonic = "LSE".toList then "SRE".toList
  else if mnemonic = "DCM".toList then "DCP".toList
  else if mnemonic = "INS".toList then "ISC".toList
  else mnemonic

/-- `operand_spec`. -/
def operandSpec (templ : List Char) : List Char := (templ.drop 4).dropWhile (· = ' ')

/-- `operand_length`. -/
def operandLength (templ : List Char) : Nat :=
  let spec := operandSpec templ
  if spec = [] ∨ startsWith spec "A" then 0
  else if startsWith spec "rel" then 1
  else if startsWith spec "($nnnn,X)" ∨ startsWith spec "($nnnn)" ∨
      startsWith spec "(ABS,X)" ∨ startsWith spec "$nnnn,Y" ∨
      startsWith spec "$nnnn,X" ∨ startsWith spec "$nnnn" then 2
  else if startsWith spec "($nn,X)" ∨ startsWith spec "($nn),Y" ∨
      startsWith spec "$nn,Y" ∨ startsWith spec "$nn,X" ∨
      startsWith spec "$nn" ∨ startsWith spec "#" then 1
  else 0

/-- `instruction_length`. -/
def instructionLength (templ : List Char) : Nat := 1 + operandLength templ

/-- `trim_operand`. -/
def trimOperand (operand : List Char) : List Char :=
  (operand.reverse.dropWhile (· = ' ')).reverse

/-- `hexchar[n]`. -/
def hexChar (n : Nat) : Char := "0123456789ABCDEF".toList.getD n '0'

/-- What `%02x` and `%04x` print: the last `len` hex digits. -/
def hex : Nat → Nat → List Char
  | 0, _ => []
  | len + 1, val => hex len (val / 16) ++ [hexChar (val % 16)]

/-- `(int8_t)b`. -/
def int8 (b : UInt8) : Int := if b.toNat < 128 then b.toNat else (b.toNat : Int) - 256

/-- `(uint16_t)(pc + 2)`, where a branch that is not taken goes. -/
def branchBase (pc : UInt16) : Nat := (pc.toNat + 2) % 65536

/-- `(uint16_t)(pc + 2 + (int8_t)bytes[1])`. -/
def branchTarget (pc : UInt16) (b : UInt8) : Nat :=
  (((pc.toNat : Int) + 2 + int8 b) % 65536).toNat

/-- `bytes[1] | (bytes[2] << 8)`. -/
def word (bytes : Nat → UInt8) : Nat := (bytes 1).toNat + 256 * (bytes 2).toNat

/-- What `format_operand` fills in. -/
structure Operand where
  text : List Char
  hasTarget : Bool
  target : Nat
  deriving DecidableEq, Repr

/-- An operand that is no branch target. -/
def Operand.plain (text : List Char) : Operand := ⟨text, false, 0⟩

/-- `format_operand`. -/
def formatOperand (pc : UInt16) (bytes : Nat → UInt8) (length : Nat) (templ : List Char) :
    Operand :=
  let spec := operandSpec templ
  if spec = [] then .plain []
  else if startsWith spec "A" then .plain ['A']
  else if startsWith spec "rel" then
    ⟨'$' :: hex 4 (branchTarget pc (bytes 1)), true, branchTarget pc (bytes 1)⟩
  else if startsWith spec "#" then
    .plain (if length = 2 then '#' :: '$' :: hex 2 (bytes 1).toNat else [])
  else if startsWith spec "($nn,X)" then
    .plain ('(' :: '$' :: hex 2 (bytes 1).toNat ++ [',', 'X', ')'])
  else if startsWith spec "($nn),Y" then
    .plain ('(' :: '$' :: hex 2 (bytes 1).toNat ++ [')', ',', 'Y'])
  else if startsWith spec "($nnnn)" then .plain ('(' :: '$' :: hex 4 (word bytes) ++ [')'])
  else if startsWith spec "($nnnn,X)" ∨ startsWith spec "(ABS,X)" then
    .plain ('(' :: '$' :: hex 4 (word bytes) ++ [',', 'X', ')'])
  else if startsWith spec "$nnnn,Y" then .plain ('$' :: hex 4 (word bytes) ++ [',', 'Y'])
  else if startsWith spec "$nnnn,X" then .plain ('$' :: hex 4 (word bytes) ++ [',', 'X'])
  else if startsWith spec "$nnnn" then .plain ('$' :: hex 4 (word bytes))
  else if startsWith spec "$nn,Y" then .plain ('$' :: hex 2 (bytes 1).toNat ++ [',', 'Y'])
  else if startsWith spec "$nn,X" then .plain ('$' :: hex 2 (bytes 1).toNat ++ [',', 'X'])
  else if startsWith spec "$nn" then .plain ('$' :: hex 2 (bytes 1).toNat)
  else .plain (trimOperand (spec.take 23))

/-- `Disassembled6502`. -/
structure Disassembled6502 where
  length : Nat
  operandBytes : Nat
  valid : Bool
  illegal : Bool
  hasTarget : Bool
  target : Nat
  text : List Char
  deriving DecidableEq, Repr

/-- The text of an instruction. -/
def line (mnemonic operand : List Char) : List Char :=
  if operand = [] then mnemonic else mnemonic ++ ' ' :: operand

/-- `disassemble_6502`. -/
def disassemble (pc : UInt16) (bytes : Nat → UInt8) (illegalEnabled : Bool) :
    Disassembled6502 :=
  let opcode := bytes 0
  let templ := template opcode
  if isIllegalOpcode opcode && !illegalEnabled then
    { length := 1
      operandBytes := 0
      valid := false
      illegal := true
      hasTarget := false
      target := 0
      text := "???".toList }
  else
    let operand := formatOperand pc bytes (instructionLength templ) templ
    { length := instructionLength templ
      operandBytes := operandLength templ
      valid := true
      illegal := isIllegalOpcode opcode
      hasTarget := operand.hasTarget
      target := operand.target
      text := line (canonicalizeMnemonic templ) operand.text }

end Disassembler6502
