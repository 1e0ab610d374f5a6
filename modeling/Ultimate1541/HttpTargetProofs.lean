import Mathlib

/-! # The body query of the HTTP target

    `BODY_QUERY` expresses a JSON value as types, lengths and bytes, and delivers them in parts.
    `BODY_ADD` reads the same encoding. Texts are bytes here, without their NUL. -/

namespace HttpTarget

/-- A C string: its bytes before the NUL. -/
structure CString where
  bytes : List UInt8
  noNul : 0 ∉ bytes
  deriving DecidableEq, Repr

/-- The C string in a buffer: `mstring` copies with `strncpy`, which ends at a NUL. -/
def CString.ofBuffer (bytes : List UInt8) : CString where
  bytes := bytes.takeWhile (· ≠ 0)
  noNul := fun h => by simpa using List.mem_takeWhile_imp h

/-- `tolower`. -/
def toLower (c : UInt8) : UInt8 := if 0x41 ≤ c ∧ c ≤ 0x5A then c + 0x20 else c

/-- `strcasecmp`, whether two texts are equal. -/
def sameKey (s t : CString) : Bool := s.bytes.map toLower = t.bytes.map toLower

/-- `JSON_String`, `JSON_Integer`, `JSON_Bool`, `JSON_Object` and `JSON_List`. -/
inductive Json where
  | str (s : CString)
  | int (v : Int32)
  | bool (b : Bool)
  | obj (members : List (CString × Json))
  | list (members : List Json)

/-- The keys and values of an object. -/
abbrev Members := List (CString × Json)

/-! ## `StreamRamFile` -/

/-- A file in blocks of one size: those that are full, the one that is written, and what is read. -/
structure StreamRamFile where
  blocksize : Nat
  blocks : List (List UInt8)
  writeBlock : List UInt8
  /-- The number of the block that is read. -/
  readBlock : Option Nat
  readOffset : Nat
  readIndex : Nat

namespace StreamRamFile

def empty (blocksize : Nat) : StreamRamFile := ⟨blocksize, [], [], none, 0, 0⟩

def charout (c : UInt8) (s : StreamRamFile) : StreamRamFile :=
  if s.writeBlock.length ≥ s.blocksize then
    { s with blocks := s.blocks ++ [s.writeBlock], writeBlock := [c] }
  else { s with writeBlock := s.writeBlock ++ [c] }

/-- What one turn of `write` copies, into a new block if this one is full. -/
def writeTurn (buffer : List UInt8) (s : StreamRamFile) : StreamRamFile :=
  if s.writeBlock.length ≥ s.blocksize then
    { s with blocks := s.blocks ++ [s.writeBlock], writeBlock := buffer.take s.blocksize }
  else { s with writeBlock := s.writeBlock ++ buffer.take (s.blocksize - s.writeBlock.length) }

/-- How much one turn of `write` copies. -/
def turnLength (len : Nat) (s : StreamRamFile) : Nat :=
  min len (if s.writeBlock.length ≥ s.blocksize then s.blocksize else s.blocksize - s.writeBlock.length)

/-- `write`, with as many turns as there may be bytes. -/
def writeLoop : (turns : Nat) → List UInt8 → StreamRamFile → StreamRamFile
  | 0, _, s => s
  | turns + 1, buffer, s =>
      if buffer = [] then s else writeLoop turns (buffer.drop (turnLength buffer.length s)) (writeTurn buffer s)

def write (buffer : List UInt8) (s : StreamRamFile) : StreamRamFile := writeLoop buffer.length buffer s

/-- `blocks[index]`. -/
def block (index : Nat) (s : StreamRamFile) : Option (List UInt8) := (s.blocks ++ [s.writeBlock])[index]?

/-- How far a block may be read. -/
def limit (index : Nat) (s : StreamRamFile) : Nat :=
  if index = s.blocks.length then s.writeBlock.length else s.blocksize

/-- How much `read` takes from a block. -/
def transferred (index len : Nat) (s : StreamRamFile) : Nat := min len (s.limit index - s.readOffset)

/-- `read` from a block that is being read. -/
def readFrom (index len : Nat) (bytes : List UInt8) (s : StreamRamFile) : List UInt8 × StreamRamFile :=
  ((bytes.drop s.readOffset).take (s.transferred index len),
    { s with
      readBlock := if s.readOffset + s.transferred index len = s.limit index then none else some index
      readOffset := s.readOffset + s.transferred index len })

/-- `read`: it goes to the end of a block at most. -/
def read (len : Nat) (s : StreamRamFile) : List UInt8 × StreamRamFile :=
  match s.readBlock with
  | some index => readFrom index len ((s.block index).getD []) s
  | none =>
      match s.block s.readIndex with
      | some bytes =>
          readFrom s.readIndex len bytes
            { s with readBlock := some s.readIndex, readIndex := s.readIndex + 1, readOffset := 0 }
      | none => ([], { s with readIndex := s.readIndex + 1, readOffset := 0 })

end StreamRamFile

/-! ## `express` -/

/-- A byte of an integer, the lowest first. -/
def intByte (v : Int32) (k : Nat) : UInt8 := UInt8.ofNat (v.toUInt32.toNat / 256 ^ k)

/-- A count or a length, as `charout` puts it. -/
def countByte (n : Nat) : UInt8 := UInt8.ofNat n

open StreamRamFile in
mutual

/-- `HttpTarget::express`. -/
def express : Json → StreamRamFile → StreamRamFile
  | .int v, s =>
      (((((s.charout 0x01).charout (intByte v 0)).charout (intByte v 1)).charout (intByte v 2)).charout (intByte v 3))
  | .bool b, s => (s.charout 0x02).charout (if b then 1 else 0)
  | .str t, s => ((s.charout 0x03).charout (countByte t.bytes.length)).write t.bytes
  | .obj members, s => expressMembers members ((s.charout 0x04).charout (countByte members.length))
  | .list members, s => expressList members ((s.charout 0x05).charout (countByte members.length))

def expressMembers : List (CString × Json) → StreamRamFile → StreamRamFile
  | [], s => s
  | (key, value) :: members, s =>
      expressMembers members (express value ((s.charout (countByte key.bytes.length)).write key.bytes))

def expressList : List Json → StreamRamFile → StreamRamFile
  | [], s => s
  | value :: members, s => expressList members (express value s)

end

/-! ## The reply -/

/-- `CMD_MAX_REPLY_LEN`. -/
def maxReplyLen : Nat := 896

/-- `HTTP_MAX_REPLY_BYTES`. -/
def maxReplyBytes : Nat := maxReplyLen - 1

/-- `get_more_data`, while there is response data: a part, what is left, and whether this was the last. -/
def getMoreData (s : StreamRamFile) : List UInt8 × StreamRamFile × Bool :=
  ((s.read maxReplyBytes).1, (s.read maxReplyBytes).2, (s.read maxReplyBytes).1.length ≠ maxReplyBytes)

/-- The parts of a reply up to the last, less than `fuel`. -/
def replyParts : (fuel : Nat) → StreamRamFile → List (List UInt8)
  | 0, _ => []
  | fuel + 1, s =>
      if (getMoreData s).2.2 then [(getMoreData s).1]
      else (getMoreData s).1 :: replyParts fuel (getMoreData s).2.1

/-- `cmd_body_query` of a value: all bytes of its reply. A part takes a byte at least, or is the
    last one. -/
def bodyQuery (j : Json) : List UInt8 :=
  (replyParts ((express j (.empty maxReplyLen)).blocks.length * maxReplyLen + maxReplyLen + 1)
    (express j (.empty maxReplyLen))).flatten

/-! ## `read_encoded_value` -/

/-- What was read, with the bytes behind it; or the text of the error. -/
abbrev Result (α : Type) := Except String (α × List UInt8)

/-- `HttpBodySlot::read_encoded_key`. -/
def readEncodedKey : List UInt8 → Result CString
  | [] => .error "400 BAD FORMAT: KEY LENGTH EXPECTED"
  | n :: data =>
      if data.length < n.toNat then .error "400 BAD FORMAT: KEY OUT OF BOUNDS"
      else .ok (.ofBuffer (data.take n.toNat), data.drop n.toNat)

def readInteger : List UInt8 → Result Json
  | b0 :: b1 :: b2 :: b3 :: data =>
      -- the four parts have no bit in common
      .ok (.int (UInt32.ofNat (b0.toNat + 256 * b1.toNat + 65536 * b2.toNat + 16777216 * b3.toNat)).toInt32, data)
  | _ => .error "400 BAD FORMAT: INTEGER OUT OF BOUNDS"

def readBool : List UInt8 → Result Json
  | [] => .error "400 BAD FORMAT: BOOL OUT OF BOUNDS"
  | b :: data => .ok (.bool (b ≠ 0), data)

def readString : List UInt8 → Result Json
  | [] => .error "400 BAD FORMAT: STRING LENGTH EXPECTED"
  | n :: data =>
      if data.length < n.toNat then .error "400 BAD FORMAT: STRING OUT OF BOUNDS"
      else .ok (.str (.ofBuffer (data.take n.toNat)), data.drop n.toNat)

/-- A value is put under its key: one that is there under the same key is removed, and the new one
    is added behind the others. -/
def put (members : Members) (key : CString) (value : Json) : Members :=
  members.eraseP (fun m => sameKey key m.1) ++ [(key, value)]

section Read

variable (read : List UInt8 → Result Json)

/-- The entries of an object; `read` reads a value. -/
def readMembers : (entries : Nat) → Members → List UInt8 → Result Members
  | 0, obj, data => .ok (obj, data)
  | entries + 1, obj, data =>
      match readEncodedKey data with
      | .error e => .error e
      | .ok (key, data) =>
          match read data with
          | .error e => .error e
          | .ok (value, data) => readMembers entries (put obj key value) data

/-- The entries of an array. -/
def readEntries : (entries : Nat) → List Json → List UInt8 → Result (List Json)
  | 0, list, data => .ok (list, data)
  | entries + 1, list, data =>
      match read data with
      | .error e => .error e
      | .ok (value, data) => readEntries entries (list ++ [value]) data

def readObject : List UInt8 → Result Json
  | [] => .error "400 BAD FORMAT: OBJECT COUNT EXPECTED"
  | n :: data => (readMembers read n.toNat [] data).map fun r => (.obj r.1, r.2)

def readArray : List UInt8 → Result Json
  | [] => .error "400 BAD FORMAT: ARRAY COUNT EXPECTED"
  | n :: data => (readEntries read n.toNat [] data).map fun r => (.list r.1, r.2)

/-- A value, where `read` reads the values in it. -/
def readValue : List UInt8 → Result Json
  | [] => .error "400 BAD FORMAT: VALUE EXPECTED"
  | type :: data =>
      if type = 0x01 then readInteger data
      else if type = 0x02 then readBool data
      else if type = 0x03 then readString data
      else if type = 0x04 then readObject read data
      else if type = 0x05 then readArray read data
      else .error "400 BAD FORMAT: UNKNOWN DATA TYPE"

end Read

/-- `HttpBodySlot::read_encoded_value`, of values that are nested less than `depth` deep. -/
def readNested : (depth : Nat) → List UInt8 → Result Json
  | 0, _ => .error ""
  | depth + 1, data => readValue (readNested depth) data

/-- `HttpBodySlot::read_encoded_value`. A value in a value is shorter than it. -/
def readEncodedValue (data : List UInt8) : Result Json := readNested (data.length + 1) data

end HttpTarget
