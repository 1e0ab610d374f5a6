import Ultimate1541.CartRamProofs

/-! # Cartridge images

    `c64_crt.cc` loads a CRT file: a header, and packets that each have a header of 16 bytes
    and the contents of a chip.  The chips go to the cartridge memory by their bank and
    address, small ones are repeated to 8K, and the banks are repeated over the memory.

    A file is the bytes that are still to be read.  The memory is given by its size, and
    what else the firmware brings along is the EAPI of the EasyFlash. -/

namespace Crt

abbrev Bytes := List UInt8

/-- `e_known_cart`. -/
inductive CartType where
  | notImpl
  | normal
  | action
  | retro
  | domark
  | ocean8K
  | ocean16K
  | easyFlash
  | superSnap
  | epyx
  | final3
  | system3
  | zaxxon
  | kcs
  | final12
  | comal80
  | sBasic
  | westermann
  | bBasic
  | pagefox
  | exos
  | superGames
  | nordic
  | gmod2
  | blackbox3
  | blackbox4
  | blackbox8
  | blackbox9
  | megabyter
  | twoMegabyter
  | c128Std
  | c128StdIo
  deriving DecidableEq

/-- `c_recognized_c64_carts`; the types that are not implemented are left out, since a type that
    is not in the table gives the same result. -/
def recognizedC64Carts : List (Nat × CartType) :=
  [(0, .normal), (1, .action), (2, .kcs), (3, .final3), (4, .sBasic), (5, .ocean8K), (8, .superGames),
   (9, .nordic), (10, .epyx), (11, .westermann), (13, .final12), (15, .system3), (18, .zaxxon),
   (19, .domark), (20, .superSnap), (21, .comal80), (32, .easyFlash), (36, .retro), (44, .exos),
   (53, .pagefox), (54, .bBasic), (60, .gmod2), (64, .blackbox8), (65, .blackbox3), (66, .blackbox4),
   (71, .blackbox9), (86, .megabyter), (87, .twoMegabyter)]

/-- `c_recognized_c128_carts`. -/
def recognizedC128Carts : List (Nat × CartType) := [(0, .c128Std), (1, .c128StdIo)]

/-- `SubsysResultCode_e`, as far as the loader returns it. -/
inductive Result where
  | ok
  | fileReadFailed
  | errorInFileFormat
  | notImplemented
  | eepromTooLarge
  | eepromAlreadyDefined
  | romImageTooLarge
  deriving DecidableEq

/-- `cart_def`, as far as the loader sets it. -/
structure CartDef where
  type : Nat
  prohibit : Nat
  require : Nat
  deriving DecidableEq

/-- Where a chunk has its contents. -/
inductive Location where
  | null
  | eeprom
  | cart (offset : Nat)
  deriving DecidableEq

/-- `t_crt_chip_chunk`. -/
structure Chunk where
  header : Bytes
  ramLocation : Location
  mandatory : Bool
  last : Bool

/-- What the loader is given: `max_cart`, the cartridge memory before the load, whether the FPGA
    has an EEPROM, the EAPI of the firmware, and what new memory holds. -/
structure Machine where
  maxCart : UInt32
  ram : Nat → UInt8
  capabEeprom : Bool
  eapi : Bytes
  eapi_length : eapi.length = 768
  eapi_signature : eapi.take 4 = [0x65, 0x61, 0x70, 0x69]
  heap : Nat → UInt8

/-! An EAPI of which only the signature is not zero. -/

theorem zeroEapi_length : ([0x65, 0x61, 0x70, 0x69] ++ List.replicate 764 0 : Bytes).length = 768 := by
  rw [List.length_append, List.length_replicate]
  rfl

theorem zeroEapi_signature :
    ([0x65, 0x61, 0x70, 0x69] ++ List.replicate 764 0 : Bytes).take 4 = [0x65, 0x61, 0x70, 0x69] :=
  rfl

/-- The variables of `C64_CRT`; `eepromStores` has the size of the buffer and the length of each
    store into it. -/
structure C64Crt where
  ram : Ram
  localType : CartType
  machine : Nat
  totalRead : Nat
  highestBank : Nat
  a000Seen : Bool
  bankMultiplier : Nat
  crtHeader : Bytes
  chipChunks : List Chunk
  eepromBuffer : Option Bytes
  originalEapi : Option Bytes
  eepromStores : List (Nat × Nat)

/-- `get_word`. -/
def getWord (p : Bytes) (i : Nat) : Nat := (p.getD i 0).toNat * 256 + (p.getD (i + 1) 0).toNat

/-- `get_dword`. -/
def getDword (p : Bytes) (i : Nat) : Nat := getWord p i * 65536 + getWord p (i + 2)

/-- `initialize`. -/
def initialState (env : Machine) : C64Crt where
  ram := ⟨env.ram, []⟩
  localType := .notImpl
  machine := 0
  totalRead := 0
  highestBank := 0
  a000Seen := false
  bankMultiplier := 16 * 1024
  crtHeader := []
  chipChunks := []
  eepromBuffer := none
  originalEapi := none
  eepromStores := []

/-- `C64 CARTRIDGE   `. -/
def c64Signature : Bytes :=
  [0x43, 0x36, 0x34, 0x20, 0x43, 0x41, 0x52, 0x54, 0x52, 0x49, 0x44, 0x47, 0x45, 0x20, 0x20, 0x20]

/-- `C128 CARTRIDGE  `. -/
def c128Signature : Bytes :=
  [0x43, 0x31, 0x32, 0x38, 0x20, 0x43, 0x41, 0x52, 0x54, 0x52, 0x49, 0x44, 0x47, 0x45, 0x20, 0x20]

/-- `check_header`: the machine and the type of a header, or why it is refused. -/
def checkHeader (env : Machine) (crtHeader : Bytes) : Except Result (Nat × CartType) :=
  if crtHeader.length ≠ 0x40 then .error .fileReadFailed
  else if crtHeader.take 16 = c64Signature then
    match recognizedC64Carts.lookup (getWord crtHeader 0x16) with
    | none => .error .notImplemented
    | some .gmod2 => if env.capabEeprom then .ok (64, .gmod2) else .error .notImplemented
    | some localType => .ok (64, localType)
  else if crtHeader.take 16 = c128Signature then
    match recognizedC128Carts.lookup (getWord crtHeader 0x16) with
    | none => .error .notImplemented
    | some localType => .ok (128, localType)
  else .error .errorInFileFormat

/-- `CHIP`. -/
def chipSignature : Bytes := [0x43, 0x48, 0x49, 0x50]

/-- The loop that rounds `bytes_read` up to a multiple of 2; `size` has 16 bits. -/
def roundUp (size : Nat) : Nat → Nat → Nat → Nat
  | 0, _, bytesRead => bytesRead
  | fuel + 1, i, bytesRead =>
      if i < size then
        if bytesRead < i then i else roundUp size fuel (i * 2) bytesRead
      else bytesRead

/-- The part of `read_chip_packet` for EEPROM contents: the result, what is left of the file, and
    the variables. -/
def readEeprom (env : Machine) (size : Nat) (file : Bytes) (s : C64Crt) : Result × Bytes × C64Crt :=
  if size > 0x800 then (.eepromTooLarge, file, s)
  else if s.eepromBuffer.isSome then (.eepromAlreadyDefined, file, s)
  else
    -- The file may end within the contents.
    let contents := file.take size ++ (List.range (size - (file.take size).length)).map env.heap
    (.ok, file.drop size, { s with
      eepromBuffer := some contents
      eepromStores := s.eepromStores ++ [(size, (file.take size).length)] })

/-- The part of `read_chip_packet` for the contents of a ROM. -/
def readRom (offset bank size : Nat) (file : Bytes) (s : C64Crt) : Option (Result × Bytes × C64Crt) :=
  let contents := file.take size
  let s := { s with ram := s.ram.put offset contents, totalRead := s.totalRead + contents.length }
  if contents.length ≠ size then some (.fileReadFailed, file.drop size, s)
  else
    let s := { s with highestBank := if bank > s.highestBank then bank % 256 else s.highestBank }
    if contents.length < 8192 then
      match s.ram.mirror offset 1 8192 14 (roundUp size 9 256 contents.length) with
      | none => none
      | some ram => some (.ok, file.drop size, { s with ram := ram })
    else some (.ok, file.drop size, s)

/-- The part of `read_chip_packet` behind the header: the result, the chunk, what is left of the
    file, and the variables. -/
def readContents (env : Machine) (chipHeader file : Bytes) (s : C64Crt) :
    Option (Result × Chunk × Bytes × C64Crt) :=
  let chunk : Chunk := ⟨chipHeader, .null, true, false⟩
  let bank := getWord chipHeader 0x0A
  let load := getWord chipHeader 0x0C
  let size := getWord chipHeader 0x0E
  let type := getWord chipHeader 0x08
  let s := if load = 0xC000 ∨ size = 0x8000 then { s with bankMultiplier := 32 * 1024 } else s
  if load = 0xDE00 then
    let r := readEeprom env size file s
    some (r.1, { chunk with ramLocation := .eeprom }, r.2)
  else
    let s := if load = 0xA000 then { s with a000Seen := true } else s
    let offset := bank * s.bankMultiplier + (load &&& 0x2000)
    if offset ≥ env.maxCart.toNat then some (.romImageTooLarge, chunk, file, s)
    else if size ≠ 0 ∧ (type = 0 ∨ type = 2) then
      (readRom offset bank size file s).map fun r => (r.1, { chunk with ramLocation := .cart offset }, r.2)
    else some (.ok, chunk, file, s)

/-- `read_chip_packet`. -/
def readChipPacket (env : Machine) (file : Bytes) (s : C64Crt) : Option (Result × Chunk × Bytes × C64Crt) :=
  let chipHeader := file.take 0x10
  let rest := file.drop 0x10
  if chipHeader.length ≠ 0x10 then some (.ok, ⟨chipHeader, .null, true, true⟩, rest, s)
  else if chipHeader.take 4 ≠ chipSignature then
    -- Data after the last packet are passed over.
    if s.chipChunks ≠ [] then some (.ok, ⟨chipHeader, .null, true, true⟩, rest, s)
    else some (.errorInFileFormat, ⟨chipHeader, .null, true, false⟩, rest, s)
  else readContents env chipHeader rest s

/-- The loop of `read_crt` over the packets. -/
def packetLoop (env : Machine) : Nat → Bytes → C64Crt → Option (Result × C64Crt)
  | 0, _, _ => none
  | fuel + 1, file, s =>
      match readChipPacket env file s with
      | none => none
      | some (.ok, chunk, rest, s) =>
          if chunk.last then some (.ok, s)
          else packetLoop env fuel rest { s with chipChunks := s.chipChunks ++ [chunk] }
      | some (result, _, _, s) => some (result, s)

/-- `patch_easyflash_eapi`. -/
def patchEasyflashEapi (env : Machine) (s : C64Crt) : C64Crt :=
  if s.localType = .easyFlash ∧ s.ram.slice 0x3800 4 = [0x65, 0x61, 0x70, 0x69] then
    { s with originalEapi := some (s.ram.slice 0x3800 768), ram := s.ram.put 0x3800 env.eapi }
  else s

/-- `while (size <= highest_bank) size <<= 1`. -/
def roundBanks (highestBank : Nat) : Nat → Nat → Option Nat
  | 0, _ => none
  | fuel + 1, size => if size ≤ highestBank then roundBanks highestBank fuel (2 * size) else some size

/-- `auto_mirror`.  The number of bytes would leave the `int` only behind the end of the memory. -/
def autoMirror (env : Machine) (s : C64Crt) : Option C64Crt :=
  if s.bankMultiplier = 32 * 1024 then some s
  else
    match roundBanks s.highestBank 10 1 with
    | none => none
    | some size =>
        (s.ram.mirror 0 s.bankMultiplier (env.maxCart.toNat / s.bankMultiplier) 19 size).map fun ram =>
          { s with ram := ram }

/-- A chunk of `regenerate_easyflash_chunks`. -/
def easyflashChunk (bank : Nat) (load : UInt8) (offset : Nat) : Chunk where
  header := [0x43, 0x48, 0x49, 0x50, 0, 0, 0x20, 0x10, 0, 0, 0, UInt8.ofNat bank, load, 0, 0x20, 0]
  ramLocation := .cart offset
  mandatory := false
  last := false

/-- `regenerate_easyflash_chunks`. -/
def regenerateEasyflashChunks (s : C64Crt) : C64Crt :=
  if s.localType = .easyFlash then
    { s with chipChunks := (List.range 64).flatMap fun i =>
        [easyflashChunk i 0x80 (i * 16384), easyflashChunk i 0xA0 (i * 16384 + 8192)] }
  else s

/-- The chunk that `find_eeprom` makes. -/
def eepromChunk : Chunk where
  header := [0x43, 0x48, 0x49, 0x50, 0, 0, 0x08, 0x10, 0, 0, 0, 0, 0xDE, 0, 0x08, 0]
  ramLocation := .eeprom
  mandatory := true
  last := false

/-- `find_eeprom`. -/
def findEeprom (env : Machine) (s : C64Crt) : C64Crt :=
  if env.capabEeprom = false then s
  else if s.chipChunks.any fun c => getWord c.header 0x0C = 0xDE00 ∧ getWord c.header 0x0E ≤ 0x800 then s
  else
    { s with
      chipChunks := s.chipChunks ++ [eepromChunk]
      eepromBuffer := some (List.replicate 0x800 0xFF)
      eepromStores := s.eepromStores ++ [(0x800, 0x800)] }

/-- The chips that `configure_cart` moves, and the EEPROM of a GMod2. -/
def relocate (env : Machine) (s : C64Crt) : C64Crt :=
  match s.localType with
  | .zaxxon => { s with ram := s.ram.copy 0x4000 0 0x2000 }
  | .bBasic => { s with ram := (s.ram.copy 0x2000 0x4000 0x2000).copy 0x6000 0x8000 0x2000 }
  | .gmod2 => findEeprom env s
  | _ => s

/-- `VARIANT_1` to `VARIANT_7`. -/
abbrev variant (n : Nat) : Nat := 0x20 * n

abbrev prohibitDExx : Nat := 0x001
abbrev prohibitDFxx : Nat := 0x002 ||| 0x004 ||| 0x008 ||| 0x010 ||| 0x080
abbrev prohibitIo : Nat := prohibitDExx ||| prohibitDFxx
abbrev prohibitAllButReu : Nat := prohibitDExx ||| 0x002 ||| 0x080
abbrev prohibitAllButReuAndAcia : Nat := 0x002 ||| 0x080

/-- The definition that `configure_cart` makes. -/
def cartDef (s : C64Crt) : CartDef :=
  let subtype := s.crtHeader.getD 0x1A 0
  match s.localType with
  | .normal =>
      if s.crtHeader.getD 0x18 0 = 1 ∧ s.crtHeader.getD 0x19 0 = 0 then ⟨0x01 ||| variant 5, 0, 0⟩
      else if s.crtHeader.getD 0x18 0 = 0 ∧ s.crtHeader.getD 0x19 0 = 0 then ⟨0x01, 0, 0⟩
      else if s.crtHeader.getD 0x18 0 = 0 ∧ s.crtHeader.getD 0x19 0 = 1 then ⟨0x01 ||| variant 2, 0, 0⟩
      else ⟨0, 0, 0⟩
  | .action => ⟨0x1B, prohibitIo, 0⟩
  | .retro => ⟨0x1B ||| variant 1, prohibitDExx, 0⟩
  | .domark => ⟨0x08 ||| variant 1, prohibitDExx, 0⟩
  | .ocean8K => ⟨if s.a000Seen then 0x09 ||| variant 3 else 0x08, prohibitDExx, 0⟩
  | .easyFlash => ⟨0x11, if subtype = 1 then prohibitAllButReu else prohibitIo, 0x040⟩
  | .superSnap => ⟨if s.totalRead > 65536 then 0x1A ||| variant 1 else 0x1A, prohibitDExx, 0⟩
  | .zaxxon => ⟨0x0D, 0, 0⟩
  | .epyx => ⟨0x02, prohibitIo, 0⟩
  | .final3 =>
      ⟨if s.totalRead > 65536 then 0x19 ||| variant 1 else 0x19,
        if subtype = 1 then prohibitAllButReu else prohibitIo, 0⟩
  | .system3 => ⟨0x0A, prohibitDExx, 0⟩
  | .kcs => ⟨0x1C, prohibitIo, 0⟩
  | .final12 => ⟨0x18, prohibitIo, 0⟩
  | .comal80 =>
      ⟨if subtype = 1 then 0x09 ||| variant 2 else if s.totalRead > 65536 then 0x09 ||| variant 1 else 0x09,
        prohibitDExx, 0⟩
  | .sBasic => ⟨0x05, prohibitDExx, 0⟩
  | .westermann => ⟨0x04 ||| variant 2, prohibitIo, 0⟩
  | .bBasic => ⟨0x06, prohibitDExx, 0⟩
  | .pagefox => ⟨0x10, 0, 0⟩
  | .superGames => ⟨0x0B, prohibitDFxx, 0⟩
  | .nordic => ⟨0x1B ||| variant 2, prohibitIo, 0x100 ||| 0x200⟩
  | .blackbox3 => ⟨0x07, prohibitIo, 0⟩
  | .blackbox4 => ⟨0x04 ||| variant 1, prohibitIo, 0⟩
  | .blackbox8 => ⟨0x0C, prohibitDFxx, 0⟩
  | .blackbox9 => ⟨0x0E, prohibitDExx, 0⟩
  | .megabyter => ⟨0x0F, prohibitDExx, 0⟩
  | .twoMegabyter => ⟨0x0F ||| variant 1, prohibitDExx, 0⟩
  | .gmod2 => ⟨0x08 ||| variant 2, prohibitDExx, 0⟩
  | .exos => ⟨0, 0, 0x400⟩
  | .c128Std => ⟨0x03, 0, 0⟩
  | .c128StdIo =>
      if subtype = 1 then ⟨0x03 ||| variant 3, prohibitAllButReu, 0x010⟩
      else if subtype = 2 then ⟨0x03 ||| variant 7, prohibitAllButReuAndAcia, 0x010⟩
      else ⟨0x03 ||| variant 3, prohibitIo, 0⟩
  | .notImpl => ⟨0, 0, 0⟩
  | .ocean16K => ⟨0, 0, 0⟩

/-- The steps of `read_crt` behind the packets, when all of them have been read. -/
def finishCrt (env : Machine) : Result × C64Crt → Option (Result × CartDef × C64Crt)
  | (.ok, s) =>
      (autoMirror env (patchEasyflashEapi env s)).map fun s =>
        let s := relocate env (regenerateEasyflashChunks s)
        (.ok, cartDef s, s)
  | (result, s) => some (result, ⟨0, 0, 0⟩, s)

/-- The variables when a header has been accepted. -/
def opened (env : Machine) (crtHeader : Bytes) (machine : Nat) (localType : CartType) : C64Crt :=
  { initialState env with
    ram := (initialState env).ram.fill 0 env.maxCart.toNat 0xFF
    crtHeader := crtHeader
    machine := machine
    localType := localType }

/-- `read_crt`, after `initialize`. -/
def readCrt (env : Machine) (file : Bytes) : Option (Result × CartDef × C64Crt) :=
  let crtHeader := file.take 0x40
  match checkHeader env crtHeader with
  | .error result => some (result, ⟨0, 0, 0⟩, opened env crtHeader 0 .notImpl)
  | .ok (machine, localType) =>
      let start := max (getDword crtHeader 0x10) 0x40
      (packetLoop env (file.length + 1) (file.drop start) (opened env crtHeader machine localType)).bind
        (finishCrt env)

end Crt
