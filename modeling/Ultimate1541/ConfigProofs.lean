import Ultimate1541.CartRamProofs

/-! # Configuration pages

    A configuration page holds the items of several stores.  Each item that is kept is packed
    as its id, its type, the length of its data and the data; `0xFF` stands where the next id
    would be when there are no more.  A page lives in a page of the flash, or, when the flash
    is full, in a file.  Registering a store reads the page, and then every entry in it that
    has the id and the type of one of the store's items is unpacked into that item. -/

namespace Config

/-- `CFG_TYPE_*`. -/
inductive ConfigType where
  | value | enum | string | func | sep | info | strfunc | strpass
  deriving DecidableEq, Repr

namespace ConfigType

def code : ConfigType → UInt8
  | value => 0x01
  | enum => 0x02
  | string => 0x03
  | func => 0x04
  | sep => 0x05
  | info => 0x06
  | strfunc => 0x07
  | strpass => 0x08

/-- What is kept as a number. -/
def isNumber : ConfigType → Bool
  | value | enum => true
  | _ => false

/-- What is kept as a string. -/
def isText : ConfigType → Bool
  | string | strfunc | strpass => true
  | _ => false

end ConfigType

/-- `t_cfg_definition`, of an item.  A table ends at id `0xFF`; a number fits an `int` and its
    default is in its range; a text has at most 255 characters and its default is shorter. -/
structure Definition where
  id : UInt8
  type : ConfigType
  min : Int
  max : Int
  «def» : Int
  text : List UInt8
  id_ne : id ≠ 0xFF
  number_range : type.isNumber → -2 ^ 31 ≤ min ∧ min ≤ «def» ∧ «def» ≤ max ∧ max < 2 ^ 31
  text_range : type.isText → (text.length : Int) < max ∧ max ≤ 255 ∧ 0 ∉ text

/-- `ConfigItem`: a number is in its range, and a string has no more characters than fit its
    buffer. -/
structure Item where
  definition : Definition
  value : Int
  string : List UInt8
  number_range : definition.type.isNumber → definition.min ≤ value ∧ value ≤ definition.max
  text_range : definition.type.isText → (string.length : Int) ≤ definition.max ∧ 0 ∉ string

namespace Item

theorem ext_content {i j : Item} (hdef : i.definition = j.definition) (hvalue : i.value = j.value)
    (hstring : i.string = j.string) : i = j := by
  obtain ⟨d, v, s, hn, ht⟩ := i
  obtain ⟨d', v', s', hn', ht'⟩ := j
  subst hdef hvalue hstring
  rfl

/-! ## Packing -/

/-- `value >> 24`, `value >> 16`, `value >> 8` and `value`, as bytes. -/
def valueBytes (value : Int) : List UInt8 :=
  [24, 16, 8, 0].map fun shift => UInt8.ofNat (value / 2 ^ shift % 256).toNat

/-- The id and the type, which are stored as far as there is room, also of what is not kept. -/
def packHead (item : Item) (b len : Nat) (mem : Ram) : Ram :=
  mem.put b ([item.definition.id, item.definition.type.code].take len)

/-- `ConfigItem::pack`: what is stored from `b` on, with `len` bytes left there, and how many
    bytes of it count. -/
def pack (item : Item) (b len : Nat) (mem : Ram) : Ram × Nat :=
  match item.definition.type with
  | .value =>
      if len - 2 < 5 then (item.packHead b len mem, 0)
      else ((item.packHead b len mem).put (b + 2) (4 :: valueBytes item.value), 7)
  | .enum =>
      if len - 2 < 2 then (item.packHead b len mem, 0)
      else ((item.packHead b len mem).put (b + 2) [1, UInt8.ofNat (item.value % 256).toNat], 4)
  | .string | .strfunc | .strpass =>
      -- `strcpy` stores the terminator too, which is not counted
      if 2 + item.string.length > len - 2 then (item.packHead b len mem, 0)
      else ((item.packHead b len mem).put (b + 2)
        (UInt8.ofNat item.string.length :: item.string ++ [0]), 3 + item.string.length)
  | .func | .sep | .info => (item.packHead b len mem, 0)

/-! ## Unpacking -/

/-- `ConfigItem::reset`, of a new item. -/
def fresh (d : Definition) : Item where
  definition := d
  value := if d.type.isText then 0 else d.def
  string := if d.type.isText then d.text else []
  number_range h := by
    have hnot : d.type.isText = false := by cases ht : d.type <;> simp_all [ConfigType.isNumber, ConfigType.isText]
    have := d.number_range h
    rw [hnot]
    exact ⟨this.2.1, this.2.2.1⟩
  text_range h := by
    have := d.text_range h
    rw [if_pos h]
    exact ⟨by omega, this.2.2⟩

/-- `value <<= 8; value |= byte`, in 32 bits. -/
def shiftIn (value : Int) (byte : UInt8) : Int := (value * 256 + byte.toNat).bmod (2 ^ 32)

/-- The number that the data of an entry is, or the default if it is out of range. -/
def number (d : Definition) (data : List UInt8) : Int :=
  if d.min ≤ data.foldl shiftIn 0 ∧ data.foldl shiftIn 0 ≤ d.max then data.foldl shiftIn 0 else d.def

/-- The string that the data of an entry is: `strncpy` of as much as the buffer holds. -/
def text (d : Definition) (data : List UInt8) : List UInt8 :=
  (data.take d.max.toNat).takeWhile (· ≠ 0)

theorem number_mem {d : Definition} (h : d.type.isNumber) (data : List UInt8) :
    d.min ≤ number d data ∧ number d data ≤ d.max := by
  rw [number]
  split
  next hin => exact hin
  next => exact ⟨(d.number_range h).2.1, (d.number_range h).2.2.1⟩

theorem text_mem {d : Definition} (h : d.type.isText) (data : List UInt8) :
    ((text d data).length : Int) ≤ d.max ∧ 0 ∉ text d data := by
  constructor
  · have htake : (text d data).length ≤ (data.take d.max.toNat).length :=
      (List.takeWhile_sublist _).length_le
    have := (d.text_range h).1
    rw [List.length_take] at htake
    omega
  · intro hmem
    rw [text] at hmem
    exact absurd (List.mem_takeWhile_imp hmem) (by decide)

/-- `ConfigItem::unpack`, of an entry of type `type`. -/
def unpack (item : Item) (type : UInt8) (data : List UInt8) : Item :=
  if type ≠ item.definition.type.code then item
  else
    { item with
      value := if item.definition.type.isNumber then number item.definition data else item.value
      string := if item.definition.type.isText then text item.definition data else item.string
      number_range h := by rw [if_pos h]; exact number_mem h data
      text_range h := by rw [if_pos h]; exact text_mem h data }

/-- `ConfigStore::check_bounds`, of one item. -/
def checkBounds (item : Item) : Item :=
  { item with
    value :=
      if item.definition.type.isNumber then
        if item.value < item.definition.min then item.definition.min
        else if item.value > item.definition.max then item.definition.max
        else item.value
      else item.value
    number_range h := by
      have := item.number_range h
      rw [if_pos h, if_neg (Int.not_lt.mpr this.1), if_neg (Int.not_lt.mpr this.2)]
      exact this }

end Item

/-! ## Stores and pages -/

/-- The loop of `ConfigStore::pack`: the memory after it, and how many bytes count. -/
def packStore : List Item → (b remain : Nat) → Ram → Ram × Nat
  | [], b, _, mem => (mem.put b [0xFF], 0)
  | item :: items, b, remain, mem =>
      if remain - (item.pack b remain mem).2 < 1 then
        -- "Configuration item doesn't fit. Dropped."
        ((item.pack b remain mem).1.put (b + (item.pack b remain mem).2) [0xFF],
          (item.pack b remain mem).2)
      else
        ((packStore items (b + (item.pack b remain mem).2) (remain - (item.pack b remain mem).2)
            (item.pack b remain mem).1).1,
          (item.pack b remain mem).2 +
            (packStore items (b + (item.pack b remain mem).2) (remain - (item.pack b remain mem).2)
              (item.pack b remain mem).1).2)

/-- The loop of `ConfigPage::pack`: the memory after it, and what remains. -/
def packStores : List (List Item) → (b remain : Nat) → Ram → Ram × Nat
  | [], _, remain, mem => (mem, remain)
  | store :: stores, b, remain, mem =>
      packStores stores (b + (packStore store b remain mem).2)
        (remain - (packStore store b remain mem).2) (packStore store b remain mem).1

/-- `ConfigPage`, with the stores that were registered on it. -/
structure ConfigPage where
  id : UInt32
  blockSize : Nat
  stores : List (List Item)
  room : 4 ≤ blockSize

/-- The loop of `ConfigStore::unpack`, which takes less than `fuel` turns. -/
def unpackLoop (blockSize : Nat) (block : Nat → UInt8) : (fuel index : Nat) → List Item → List Item
  | 0, _, items => items
  | fuel + 1, index, items =>
      if index < blockSize ∧ block index ≠ 0xFF then
        -- "Illegal length. Doesn't fit."
        if blockSize < index + 3 + (block (index + 2)).toNat then items
        else
          unpackLoop blockSize block fuel (index + (block (index + 2)).toNat + 3)
            (items.map fun item =>
              if block index = item.definition.id then
                item.unpack (block (index + 1))
                  ((List.range (block (index + 2)).toNat).map fun i => block (index + 3 + i))
              else item)
      else items

/-- `ConfigStore::unpack`. -/
def unpackStore (blockSize : Nat) (block : Nat → UInt8) (items : List Item) : List Item :=
  unpackLoop blockSize block blockSize 4 items

namespace ConfigPage

/-- The four bytes of `id` at the head of a page. -/
def idBytes (page : ConfigPage) : List UInt8 :=
  [page.id.toUInt8, (page.id >>> 8).toUInt8, (page.id >>> 16).toUInt8, (page.id >>> 24).toUInt8]

/-- `ConfigPage::pack`, into the buffer `mem`: the buffer, and its packed length. -/
def pack (page : ConfigPage) (mem : Ram) : Ram × Nat :=
  ((packStores page.stores 4 (page.blockSize - 4)
      ((mem.fill 0 page.blockSize 0xFF).put 0 page.idBytes)).1,
    page.blockSize -
      (packStores page.stores 4 (page.blockSize - 4)
        ((mem.fill 0 page.blockSize 0xFF).put 0 page.idBytes)).2)

/-- Where a page is kept: `flash_page < 0` says that it is in a file. -/
inductive Kind where
  | flash | file
  deriving DecidableEq, Repr

/-- `ConfigPage::write`: what the flash page or the file then holds. -/
def write (page : ConfigPage) (kind : Kind) (mem : Ram) : List UInt8 :=
  match kind with
  | .flash => (page.pack mem).1.slice 0 page.blockSize
  | .file => (page.pack mem).1.slice 0 (page.pack mem).2

/-- The stores of `page` registered in order on a new page: each reads what was written over
    what its buffer has, unpacks it and checks the bounds. -/
def registerStores (blockSize : Nat) (written : List UInt8) : List (List Item) → Ram → List (List Item)
  | [], _ => []
  | store :: stores, mem =>
      (unpackStore blockSize (mem.put 0 written).bytes
          (store.map fun item => Item.fresh item.definition)).map Item.checkBounds ::
        registerStores blockSize written stores (mem.put 0 written)

/-- `page` written from the buffer `before`, and its definitions then registered on a new page
    with the buffer `mem`. -/
def register (page : ConfigPage) (kind : Kind) (before mem : Ram) : List (List Item) :=
  registerStores page.blockSize (page.write kind before) page.stores mem

end ConfigPage

end Config
