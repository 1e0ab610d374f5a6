import Ultimate1541.CartRamProofs

/-! # SID files

    A SID file is a header and a tune.  `prepare` reads the header, finds out where the tune goes,
    and gives each song its length in the image of the player cartridge; `load` stores the tune
    in the memory of the machine when the cartridge is there, with a copy of the header beside
    it. -/

namespace SidFile

abbrev Header := Nat → UInt8

/-- `sid_header[i] = b`. -/
def setByte (h : Header) (i : Nat) (b : UInt8) : Header := fun j => if j = i then b else h j

/-- Two bytes of the header, the high one first. -/
def word (h : Header) (i : Nat) : UInt16 := (h i).toUInt16 <<< 8 ||| (h (i + 1)).toUInt16

/-- `FileTypeSID`, of a file that is no MUS file by its name. -/
structure FileTypeSid where
  sidHeader : Header
  headerVersion : UInt16
  song : UInt16
  defaultSong : UInt16
  start : UInt16
  «end» : UInt16
  headerLocation : UInt16
  dataOffset : UInt16
  flags : UInt16
  numberOfSongs : Nat
  musFile : Bool

/-! ## The lengths of the songs -/

/-- `DEFAULT_SONG_LENGTH_MUS`. -/
def defaultSongLengthMus : UInt8 := 3

/-- `DEFAULT_SONG_LENGTH_SID`. -/
def defaultSongLengthSid : UInt8 := 5

/-- `sid_rom[i] = b`. -/
def store (rom : Ram) (i : Nat) (b : UInt8) : Ram := rom.put i [b]

/-- The values are no BCD values. -/
def notBcd (minutes seconds : UInt8) : Prop :=
  0x99 < minutes ∨ 0x09 < minutes &&& 0x0F ∨ 0x59 < seconds ∨ 0x09 < seconds &&& 0x0F

instance (minutes seconds : UInt8) : Decidable (notBcd minutes seconds) :=
  inferInstanceAs (Decidable (_ ∨ _ ∨ _ ∨ _))

/-- Values that are none are cleared. -/
def clearInvalid (i : Nat) (rom : Ram) : Ram :=
  if notBcd (rom.bytes (0x3000 + i)) (rom.bytes (0x3001 + i)) then
    store (store rom (0x3000 + i) 0) (0x3001 + i) 0
  else rom

/-- A length that is not set gets the default. -/
def setDefault (musFile : Bool) (i : Nat) (rom : Ram) : Ram :=
  if rom.bytes (0x3000 + i) = 0 ∧ rom.bytes (0x3001 + i) = 0 then
    store rom (0x3000 + i) (if musFile then defaultSongLengthMus else defaultSongLengthSid)
  else rom

/-- The loop over the songs, for the first `n` of them. -/
def checkLengths (musFile : Bool) : (n : Nat) → Ram → Ram
  | 0, rom => rom
  | n + 1, rom => setDefault musFile (n * 2) (clearInvalid (n * 2) (checkLengths musFile n rom))

/-- The header has a length, for its default song. -/
def lengthInHeader (h : Header) : Prop :=
  h 0x7B < 0xA0 ∧ h 0x7B &&& 0x0F < 0x0A ∧ h 0x7A < 0xA0 ∧ h 0x7A &&& 0x0F < 0x0A

instance (h : Header) : Decidable (lengthInHeader h) := inferInstanceAs (Decidable (_ ∧ _ ∧ _ ∧ _))

/-- What is in the area before the loop: the file with the song lengths, when there is one, or
    else the length in a header of version 2. -/
def loadLengths (s : FileTypeSid) (ssl : Option (List UInt8)) (rom : Ram) : Ram :=
  match ssl with
  | some content => rom.put 0x3000 (content.take 512)
  | none =>
      if s.sidHeader 4 = 2 ∧ lengthInHeader s.sidHeader then
        let songIndex := (s.defaultSong.toNat - 1) * 2
        store (store rom (0x3000 + songIndex) (s.sidHeader 0x7B)) (0x3001 + songIndex)
          (s.sidHeader 0x7A)
      else rom

/-- The clean-up of the header. -/
def cleanHeader (ssl : Option (List UInt8)) (h : Header) : Header :=
  match ssl with
  | some _ => h
  | none => if h 4 = 2 then setByte (setByte h 0x7A 0) 0x7B 0 else h

/-- `readSongLengths`. -/
def readSongLengths (s : FileTypeSid) (ssl : Option (List UInt8)) (rom : Ram) :
    FileTypeSid × Ram :=
  ({ s with sidHeader := cleanHeader ssl s.sidHeader },
    checkLengths s.musFile s.numberOfSongs (loadLengths s ssl (rom.fill 0x3000 512 0)))

/-! ## Preparing -/

/-- The errors of `prepare` about what is in the file. -/
inductive SubsysResult
  | errorInFileFormat
  | sidRollover
  | outOfMemory
  | invalidSongnr
  deriving DecidableEq

/-- The first bytes of the header are read. -/
def readHeader (h : Header) (content : List UInt8) : Header :=
  fun i => if i < (content.take 0x7E).length then content.getD i 0 else h i

/-- `magic_psid` or `magic_rsid`. -/
def hasMagic (h : Header) : Prop := (h 0 = 0x50 ∨ h 0 = 0x52) ∧ h 1 = 0x53 ∧ h 2 = 0x49 ∧ h 3 = 0x44

instance (h : Header) : Decidable (hasMagic h) := inferInstanceAs (Decidable (_ ∧ _ ∧ _ ∧ _))

/-- The header of an old version, as one of version 2. -/
def convertHeader (dataOffset : Nat) (h : Header) : Header :=
  setByte (setByte (setByte (fun i => if dataOffset ≤ i ∧ i < 0x7C then 0 else h i) 4 0) 5 2) 7 0x7C

/-- `processHeader`, of a file that has no MUS data. -/
def processHeader (s : FileTypeSid) : FileTypeSid :=
  let dataOffset := word s.sidHeader 6
  let old := dataOffset < 0x7C
  let h := if old then convertHeader dataOffset.toNat s.sidHeader else s.sidHeader
  { s with
    sidHeader := h
    headerVersion := if old then 2 else word s.sidHeader 4
    dataOffset := dataOffset
    numberOfSongs := (word h 0x0E).toNat }

/-- The two bytes in front of the tune. -/
def firstWord (data : List UInt8) : UInt16 :=
  (data.getD 0 0).toUInt16 ||| (data.getD 1 0).toUInt16 <<< 8

/-- The load address: in the header, or in front of the tune. -/
def loadAddress (h : Header) (data : List UInt8) : UInt16 :=
  if word h 8 = 0 then firstWord data else word h 8

/-- What the file has left. -/
def positioned (h : Header) (data : List UInt8) : List UInt8 :=
  if word h 8 = 0 then data.drop 2 else data

/-- The low byte of a word. -/
def lowByte (w : UInt16) : UInt8 := w.toUInt8

/-- The high byte. -/
def highByte (w : UInt16) : UInt8 := (w >>> 8).toUInt8

/-- Where the tune ends, and where the copy of the header goes. -/
def place (s : FileTypeSid) (length : Int) : Except SubsysResult FileTypeSid :=
  let loadEnd : Int := s.start.toNat + length
  let «end» : UInt16 := UInt16.ofNat (loadEnd % 65536).toNat
  let s := { s with
    «end» := «end»
    sidHeader := setByte (setByte s.sidHeader 0x7E (lowByte «end»)) 0x7F (highByte «end») }
  if loadEnd < s.start.toNat ∨ loadEnd > 0x10000 then .error .sidRollover
  else if s.start ≥ 0x03C0 then .ok { s with headerLocation := 0x0340 }
  else if loadEnd < 0xFF70 then .ok { s with headerLocation := 0xFF70 }
  else .error .outOfMemory

/-- The bytes of the seven words behind the magic change places. -/
def swapWords (h : Header) : Header :=
  fun i => if 4 ≤ i ∧ i < 18 then h (if i % 2 = 0 then i + 1 else i - 1) else h i

/-- The default song in the header; there is always one. -/
def defaultSongOf (h : Header) : UInt16 := if word h 0x10 = 0 then 1 else word h 0x10

/-- The song to play. -/
def songOf (useDefault : Bool) (s : FileTypeSid) : UInt16 :=
  if useDefault then defaultSongOf s.sidHeader else s.song

/-- The song, and the rest of the header. -/
def chooseSong (useDefault : Bool) (s : FileTypeSid) : Except SubsysResult FileTypeSid :=
  let song := songOf useDefault s
  if song.toNat > s.numberOfSongs then .error .invalidSongnr
  else
    let h := setByte (setByte s.sidHeader 0x10 (highByte (song - 1))) 0x11 (lowByte (song - 1))
    .ok { s with
      defaultSong := defaultSongOf s.sidHeader
      song := song
      flags := word h 0x76
      sidHeader := swapWords h }

/-- What `prepare` comes to; a file with MUS data goes another way. -/
inductive Prepared
  | failed (error : SubsysResult)
  | mus
  | ready (s : FileTypeSid) (file : List UInt8) (rom : Ram)

/-- `prepare`, of a file that can be read. -/
def prepare (useDefault : Bool) (s : FileTypeSid) (content : List UInt8)
    (ssl : Option (List UInt8)) (rom : Ram) : Prepared :=
  let s := { s with sidHeader := readHeader s.sidHeader content }
  if ¬ hasMagic s.sidHeader then .failed .errorInFileFormat
  else
    let s := processHeader s
    if s.sidHeader 0x77 &&& 1 = 1 then .mus
    else
      let data := content.drop s.dataOffset.toNat
      let s := { s with start := loadAddress s.sidHeader data }
      let file := positioned s.sidHeader data
      let bytesToSkip : Nat := 2
      match place s ((content.length : Int) - s.dataOffset.toNat - bytesToSkip) with
      | .error e => .failed e
      | .ok s =>
          match chooseSong useDefault s with
          | .error e => .failed e
          | .ok s => .ready (readSongLengths s ssl rom).1 file (readSongLengths s ssl rom).2

end SidFile
