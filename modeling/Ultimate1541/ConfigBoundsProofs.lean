import Ultimate1541.ConfigProofs

/-! # Configuration pages: what is stored and read outside

    The items here have any definition and any value, and the block that is unpacked any
    content.  Packing stores an item's entry when it fits, and `0xFF` behind the last one;
    where the entries fill the room to the last byte, that is behind the block.  Unpacking
    goes from entry to entry by their lengths, and reads the length of one before it knows
    that the block has it. -/

namespace ConfigBounds

open Config (ConfigType)

/-! ## Items -/

/-- `t_cfg_definition`, of an item.  A text has a buffer of `max + 1` bytes. -/
structure Definition where
  id : UInt8
  type : ConfigType
  min : Int
  max : Int
  «def» : Int
  buffer : type.isText → 0 ≤ max

/-- `ConfigItem`. -/
structure Item where
  definition : Definition
  value : Int
  string : List UInt8

/-- The id and the type, as far as there is room. -/
def Item.packHead (item : Item) (b len : Nat) (mem : Ram) : Ram :=
  mem.put b ([item.definition.id, item.definition.type.code].take len)

/-- `ConfigItem::pack`. -/
def Item.pack (item : Item) (b len : Nat) (mem : Ram) : Ram × Nat :=
  match item.definition.type with
  | .value =>
      if len - 2 < 5 then (item.packHead b len mem, 0)
      else ((item.packHead b len mem).put (b + 2) (4 :: Config.Item.valueBytes item.value), 7)
  | .enum =>
      if len - 2 < 2 then (item.packHead b len mem, 0)
      else ((item.packHead b len mem).put (b + 2) [1, UInt8.ofNat (item.value % 256).toNat], 4)
  | .string | .strfunc | .strpass =>
      if 2 + item.string.length > len - 2 then (item.packHead b len mem, 0)
      else ((item.packHead b len mem).put (b + 2)
        (UInt8.ofNat item.string.length :: item.string ++ [0]), 3 + item.string.length)
  | .func | .sep | .info => (item.packHead b len mem, 0)

/-- `ConfigStore::pack`. -/
def packStore : List Item → (b remain : Nat) → Ram → Ram × Nat
  | [], b, _, mem => (mem.put b [0xFF], 0)
  | item :: items, b, remain, mem =>
      let (mem, len) := item.pack b remain mem
      if remain - len < 1 then (mem.put (b + len) [0xFF], len)
      else
        let (mem, total) := packStore items (b + len) (remain - len) mem
        (mem, len + total)

/-- What stops `ConfigStore::unpack`. -/
inductive Stop where
  /-- A byte outside the block is read. -/
  | outside
  /-- The loop does not end. -/
  | spinning
deriving DecidableEq

/-- `mem_block[i]`. -/
def byteAt (block : List UInt8) (i : Nat) : Except Stop UInt8 :=
  match block[i]? with
  | some b => .ok b
  | none => .error .outside

/-- `n` bytes from `i` on. -/
def bytesAt (block : List UInt8) (i n : Nat) : Except Stop (List UInt8) :=
  if i + n ≤ block.length then .ok ((block.drop i).take n) else .error .outside

/-- The two tests of a number. -/
def number (d : Definition) (data : List UInt8) : Int :=
  let value := data.foldl Config.Item.shiftIn 0
  let value := if value < d.min then d.def else value
  if value > d.max then d.def else value

/-- `ConfigItem::unpack`, with `buffer` at `index`. -/
def Item.unpack (item : Item) (block : List UInt8) (index : Nat) : Except Stop Item := do
  let type ← byteAt block index
  if type ≠ item.definition.type.code then return item
  let field ← byteAt block (index + 1)
  match item.definition.type with
  | .value | .enum =>
      let data ← bytesAt block (index + 2) field.toNat
      return { item with value := number item.definition data }
  | .string | .strfunc | .strpass =>
      let data ← bytesAt block (index + 2) (min field.toNat item.definition.max.toNat)
      return { item with string := data.takeWhile (· ≠ 0) }
  | .func | .sep | .info => return item

/-- An entry is taken by the items with its id. -/
def Item.take (item : Item) (block : List UInt8) (index : Nat) (id : UInt8) : Except Stop Item :=
  if id = item.definition.id then item.unpack block (index + 1) else .ok item

/-- The loop over the items. -/
def unpackItems (block : List UInt8) (index : Nat) (id : UInt8) :
    List Item → Except Stop (List Item)
  | [] => .ok []
  | item :: items => do
      let item ← item.take block index id
      let items ← unpackItems block index id items
      return item :: items

/-- The loop of `ConfigStore::unpack`. -/
def unpackLoop (block : List UInt8) : (fuel index : Nat) → List Item → Except Stop (List Item)
  | 0, _, _ => .error .spinning
  | fuel + 1, index, items =>
      if index < block.length then do
        let id ← byteAt block index
        if id = 0xFF then .ok items
        else do
          let len ← byteAt block (index + 2)
          -- "Illegal length. Doesn't fit."
          if block.length < index + 3 + len.toNat then .ok items
          else do
            let items ← unpackItems block index id items
            unpackLoop block fuel (index + len.toNat + 3) items
      else .ok items

/-- `ConfigStore::unpack`. -/
def unpackStore (block : List UInt8) (items : List Item) : Except Stop (List Item) :=
  unpackLoop block (block.length + 1) 4 items

/-! ## Packing -/

/-- The bytes of an item's entry, when it is kept. -/
def Item.size (item : Item) : Nat :=
  match item.definition.type with
  | .value => 7
  | .enum => 4
  | .string | .strfunc | .strpass => 3 + item.string.length
  | .func | .sep | .info => 0

/-- The room an entry needs: a string is stored with its terminator. -/
def Item.need (item : Item) : Nat :=
  if item.definition.type.isText then item.size + 1 else item.size

/-- The room that is left when the entries that fit have been taken in turn. -/
def roomLeft : List Item → Nat → Nat
  | [], room => room
  | item :: items, room => roomLeft items (if item.need ≤ room then room - item.size else room)

@[simp] theorem roomLeft_zero (items : List Item) : roomLeft items 0 = 0 := by
  induction items with
  | nil => rfl
  | cons item items ih =>
      rw [roomLeft, Nat.zero_sub, ite_self]
      exact ih

theorem packHead_within {item : Item} {b len size : Nat} {mem : Ram} (hlen : b + len ≤ size)
    (h : mem.Within size) : (item.packHead b len mem).Within size := by
  refine Ram.within_put.2 ⟨h, ?_⟩
  rw [List.length_take]
  omega

/-- An item is kept when there is room for it, and is stored there in any case. -/
theorem pack_spec (item : Item) (b remain : Nat) (mem : Ram) :
    (item.pack b remain mem).2 = (if item.need ≤ remain then item.size else 0) ∧
      (mem.Within (b + remain) → (item.pack b remain mem).1.Within (b + remain)) := by
  have hhead : mem.Within (b + remain) → (item.packHead b remain mem).Within (b + remain) :=
    packHead_within (Nat.le_refl _)
  cases htype : item.definition.type with
  | value =>
      simp only [Item.pack, Item.need, Item.size, ConfigType.isText, htype]
      by_cases hfit : remain - 2 < 5
      · rw [if_pos hfit, if_neg (by simp; omega)]
        exact ⟨rfl, hhead⟩
      · rw [if_neg hfit, if_pos (by simp; omega)]
        refine ⟨rfl, fun h => Ram.within_put.2 ⟨hhead h, ?_⟩⟩
        simp [Config.Item.valueBytes]
        omega
  | enum =>
      simp only [Item.pack, Item.need, Item.size, ConfigType.isText, htype]
      by_cases hfit : remain - 2 < 2
      · rw [if_pos hfit, if_neg (by simp; omega)]
        exact ⟨rfl, hhead⟩
      · rw [if_neg hfit, if_pos (by simp; omega)]
        refine ⟨rfl, fun h => Ram.within_put.2 ⟨hhead h, ?_⟩⟩
        simp
        omega
  | string | strfunc | strpass =>
      simp only [Item.pack, Item.need, Item.size, ConfigType.isText, htype]
      by_cases hfit : 2 + item.string.length > remain - 2
      · rw [if_pos hfit, if_neg (by simp; omega)]
        exact ⟨rfl, hhead⟩
      · rw [if_neg hfit, if_pos (by simp; omega)]
        refine ⟨rfl, fun h => Ram.within_put.2 ⟨hhead h, ?_⟩⟩
        simp
        omega
  | func | sep | info =>
      simp only [Item.pack, Item.need, Item.size, ConfigType.isText, htype]
      exact ⟨by simp, hhead⟩

theorem size_le_need (item : Item) : item.size ≤ item.need := by
  rw [Item.need]
  split <;> omega

/-- What an item counts is there, and the entries behind it have what it leaves. -/
theorem pack_room (item : Item) (items : List Item) (b remain : Nat) (mem : Ram) :
    (item.pack b remain mem).2 ≤ remain ∧
      roomLeft (item :: items) remain = roomLeft items (remain - (item.pack b remain mem).2) := by
  have hsize := size_le_need item
  rw [roomLeft, (pack_spec item b remain mem).1]
  by_cases hfit : item.need ≤ remain
  · rw [if_pos hfit, if_pos hfit]
    exact ⟨by omega, rfl⟩
  · rw [if_neg hfit, if_neg hfit]
    exact ⟨Nat.zero_le remain, rfl⟩

/-- A store is packed inside the room just when its entries leave some of it. -/
theorem packStore_within_iff {items : List Item} {b remain : Nat} {mem : Ram}
    (h : mem.Within (b + remain)) :
    (packStore items b remain mem).1.Within (b + remain) ↔ 0 < roomLeft items remain := by
  induction items generalizing b remain mem with
  | nil =>
      rw [packStore, Ram.within_put, roomLeft]
      simp only [h, true_and, List.length_singleton]
      omega
  | cons item items ih =>
      have hin := (pack_spec item b remain mem).2
      obtain ⟨hle, hroom⟩ := pack_room item items b remain mem
      rw [hroom]
      simp only [packStore]
      by_cases hfull : remain - (item.pack b remain mem).2 < 1
      · -- the item takes the last byte, and `0xFF` goes behind it
        have hzero : remain - (item.pack b remain mem).2 = 0 := by omega
        rw [if_pos hfull, hzero, roomLeft_zero, Ram.within_put]
        simp only [List.length_singleton]
        omega
      · rw [if_neg hfull]
        have hend : b + (item.pack b remain mem).2 + (remain - (item.pack b remain mem).2) =
            b + remain := by omega
        have hrest := @ih (b + (item.pack b remain mem).2) (remain - (item.pack b remain mem).2)
          (item.pack b remain mem).1 (hend ▸ hin h)
        rwa [hend] at hrest

/-! ## Unpacking -/

/-- A number is in its range, or is the default. -/
def Item.Bounded (item : Item) : Prop :=
  item.definition.type.isNumber →
    item.definition.min ≤ item.value ∧ item.value ≤ item.definition.max ∨
      item.value = item.definition.def

theorem number_bounded (d : Definition) (data : List UInt8) :
    d.min ≤ number d data ∧ number d data ≤ d.max ∨ number d data = d.def := by
  simp only [number]
  generalize data.foldl Config.Item.shiftIn 0 = value
  by_cases hlow : value < d.min
  · rw [if_pos hlow]
    split <;> exact .inr rfl
  · rw [if_neg hlow]
    by_cases hhigh : value > d.max
    · rw [if_pos hhigh]
      exact .inr rfl
    · rw [if_neg hhigh]
      exact .inl ⟨by omega, by omega⟩

theorem byteAt_ok {block : List UInt8} {i : Nat} (h : i < block.length) :
    byteAt block i = .ok (block.getD i 0) := by
  simp [byteAt, h]

theorem byteAt_outside {block : List UInt8} {i : Nat} (h : block.length ≤ i) :
    byteAt block i = .error .outside := by
  simp [byteAt, h]

theorem bytesAt_ok {block : List UInt8} {i n : Nat} (h : i + n ≤ block.length) :
    bytesAt block i n = .ok ((block.drop i).take n) := if_pos h

/-- `after` is what `before` became: the same definitions, and numbers in range that were. -/
def Follows (before after : List Item) : Prop :=
  after.map (·.definition) = before.map (·.definition) ∧
    ((∀ item ∈ before, item.Bounded) → ∀ item ∈ after, item.Bounded)

theorem Follows.refl (items : List Item) : Follows items items := ⟨rfl, id⟩

theorem Follows.trans {x y z : List Item} (h : Follows x y) (h' : Follows y z) : Follows x z :=
  ⟨h'.1.trans h.1, h'.2 ∘ h.2⟩

/-- An entry that the block has is unpacked from it. -/
theorem unpack_ok (item : Item) {block : List UInt8} {index : Nat}
    (h : index + 2 + (block.getD (index + 1) 0).toNat ≤ block.length) :
    ∃ item', item.unpack block index = .ok item' ∧ item'.definition = item.definition ∧
      (item.Bounded → item'.Bounded) := by
  rw [Item.unpack, byteAt_ok (by omega)]
  by_cases htype : block.getD index 0 ≠ item.definition.type.code
  · exact ⟨item, by simp only [bind, Except.bind, if_pos htype]; rfl, rfl, id⟩
  · simp only [bind, Except.bind, if_neg htype]
    rw [byteAt_ok (by omega)]
    cases hkind : item.definition.type with
    | value | enum =>
        simp only
        rw [bytesAt_ok (by omega)]
        exact ⟨_, rfl, rfl, fun _ _ => number_bounded item.definition _⟩
    | string | strfunc | strpass =>
        simp only
        rw [bytesAt_ok (by omega)]
        exact ⟨_, rfl, rfl, fun _ hn => by simp [hkind, ConfigType.isNumber] at hn⟩
    | func | sep | info => exact ⟨item, rfl, rfl, id⟩

theorem take_ok {block : List UInt8} {index : Nat} (id : UInt8) (item : Item)
    (h : index + 3 + (block.getD (index + 2) 0).toNat ≤ block.length) :
    ∃ item', item.take block index id = .ok item' ∧ item'.definition = item.definition ∧
      (item.Bounded → item'.Bounded) := by
  rw [Item.take]
  by_cases hid : id = item.definition.id
  · rw [if_pos hid]
    exact unpack_ok item (by rw [Nat.add_assoc index 1 1]; omega)
  · rw [if_neg hid]
    exact ⟨item, rfl, rfl, fun h => h⟩

theorem unpackItems_ok {block : List UInt8} {index : Nat} (id : UInt8) (items : List Item)
    (h : index + 3 + (block.getD (index + 2) 0).toNat ≤ block.length) :
    ∃ items', unpackItems block index id items = .ok items' ∧ Follows items items' := by
  induction items with
  | nil => exact ⟨[], rfl, .refl []⟩
  | cons item items ih =>
      obtain ⟨items', heq, hmap, hbound⟩ := ih
      obtain ⟨item', hitem, hdef, hb⟩ := take_ok id item h
      refine ⟨item' :: items', ?_, ?_, ?_⟩
      · simp only [unpackItems, hitem, heq, bind, Except.bind]
        rfl
      · rw [List.map_cons, List.map_cons, hdef, hmap]
      · intro hall
        rw [List.forall_mem_cons] at hall ⊢
        exact ⟨hb hall.1, hbound hall.2⟩

/-- There is an entry at `i`, and the block has all of it. -/
structure Entry (block : List UInt8) (i : Nat) : Prop where
  head : i < block.length
  id_ne : block.getD i 0 ≠ 0xFF
  fits : i + 3 + (block.getD (i + 2) 0).toNat ≤ block.length

/-- The lengths lead from `i` to `j`. -/
inductive Walk (block : List UInt8) : Nat → Nat → Prop where
  | here (i : Nat) : Walk block i i
  | on {i j : Nat} (h : Entry block i)
      (w : Walk block (i + (block.getD (i + 2) 0).toNat + 3) j) : Walk block i j

/-- Where an entry begins at `i`, the block has its first three bytes. -/
def HeadInside (block : List UInt8) (i : Nat) : Prop :=
  i < block.length → block.getD i 0 ≠ 0xFF → i + 2 < block.length

/-- The loop stops where there is no entry. -/
theorem unpackLoop_stop {block : List UInt8} {index : Nat} (fuel : Nat) (items : List Item)
    (hhead : HeadInside block index) (h : ¬Entry block index) :
    unpackLoop block (fuel + 1) index items = .ok items := by
  rw [unpackLoop]
  by_cases hin : index < block.length
  · rw [if_pos hin, byteAt_ok hin]
    by_cases hid : block.getD index 0 = 0xFF
    · simp only [bind, Except.bind, if_pos hid]
    · have hlen : block.length < index + 3 + (block.getD (index + 2) 0).toNat := by
        by_contra hfit
        exact h ⟨hin, hid, by omega⟩
      simp only [bind, Except.bind, if_neg hid, byteAt_ok (hhead hin hid), if_pos hlen]
  · rw [if_neg hin]

/-- And takes the one there is. -/
theorem unpackLoop_entry {block : List UInt8} {index : Nat} (fuel : Nat) (items : List Item)
    (h : Entry block index) :
    ∃ items', Follows items items' ∧ unpackLoop block (fuel + 1) index items =
      unpackLoop block fuel (index + (block.getD (index + 2) 0).toNat + 3) items' := by
  have hfits := h.fits
  obtain ⟨items', heq, hf⟩ := unpackItems_ok (block.getD index 0) items hfits
  refine ⟨items', hf, ?_⟩
  rw [unpackLoop, if_pos h.head, byteAt_ok h.head]
  simp only [bind, Except.bind, if_neg h.id_ne, byteAt_ok (show index + 2 < block.length by omega),
    if_neg (Nat.not_lt.2 hfits), heq]

/-- A length behind the block is read. -/
theorem unpackLoop_outside {block : List UInt8} {index : Nat} (fuel : Nat) (items : List Item)
    (h : ¬HeadInside block index) :
    unpackLoop block (fuel + 1) index items = .error .outside := by
  simp only [HeadInside, Classical.not_imp] at h
  obtain ⟨hin, hid, hout⟩ := h
  rw [unpackLoop, if_pos hin, byteAt_ok hin]
  simp only [bind, Except.bind, if_neg hid, byteAt_outside (Nat.not_lt.1 hout)]

/-- When the loop comes to its end, all heads on its way were inside. -/
theorem heads_of_ok {block : List UInt8} {fuel index : Nat} {items last : List Item}
    (h : unpackLoop block fuel index items = .ok last) {j : Nat} (hw : Walk block index j) :
    HeadInside block j := by
  induction fuel generalizing index items with
  | zero => exact nomatch h
  | succ fuel ih =>
      cases hw with
      | here =>
          by_contra hout
          rw [unpackLoop_outside fuel items hout] at h
          exact nomatch h
      | on hentry hw =>
          obtain ⟨items', -, heq⟩ := unpackLoop_entry fuel items hentry
          exact ih (heq ▸ h) hw

/-- When all heads on its way are inside, the loop comes to its end: each turn takes at
    least three bytes. -/
theorem ok_of_heads {block : List UInt8} {fuel index : Nat} (items : List Item)
    (hfuel : block.length ≤ index + fuel) (h : ∀ j, Walk block index j → HeadInside block j) :
    ∃ last, unpackLoop block (fuel + 1) index items = .ok last ∧ Follows items last := by
  induction fuel generalizing index items with
  | zero =>
      have hentry : ¬Entry block index := fun he => by
        have := he.head
        omega
      exact ⟨items, unpackLoop_stop 0 items (h index (.here index)) hentry, .refl items⟩
  | succ fuel ih =>
      by_cases hentry : Entry block index
      · obtain ⟨items', hf, heq⟩ := unpackLoop_entry (fuel + 1) items hentry
        obtain ⟨last, hlast, hf'⟩ := ih items' (by omega) fun j hw => h j (.on hentry hw)
        exact ⟨last, heq.trans hlast, hf.trans hf'⟩
      · exact ⟨items, unpackLoop_stop _ items (h index (.here index)) hentry, .refl items⟩

/-! ## Both -/

/-- Every store is in the block that ends behind the room. -/
def PacksInside (items : List Item) (b remain : Nat) : Prop :=
  ∀ mem : Ram, mem.Within (b + remain) → (packStore items b remain mem).1.Within (b + remain)

/-- Unpacking comes to its end with what is read inside the block, and leaves each number
    in its range or the default. -/
def UnpacksInside (block : List UInt8) (items : List Item) : Prop :=
  ∃ last, unpackStore block items = .ok last ∧ Follows items last

/-- Packing stays inside just when the entries that fit leave room, and unpacking just when
    no entry begins in the last two bytes. -/
theorem pack_unpack_inside_iff (items : List Item) (b remain : Nat) (block : List UInt8) :
    (PacksInside items b remain ↔ 0 < roomLeft items remain) ∧
      (UnpacksInside block items ↔ ∀ j, Walk block 4 j → HeadInside block j) := by
  constructor
  · constructor
    · intro h
      have hnone : (⟨fun _ => 0, []⟩ : Ram).Within (b + remain) := by simp [Ram.Within]
      exact (packStore_within_iff hnone).1 (h _ hnone)
    · exact fun h mem hmem => (packStore_within_iff hmem).2 h
  · constructor
    · rintro ⟨last, hlast, -⟩ j hw
      exact heads_of_ok hlast hw
    · exact fun h => ok_of_heads items (by omega) h

/-- An item that is on. -/
def lastEnum : Item := ⟨⟨1, .enum, 0, 1, 0, fun h => nomatch h⟩, 1, []⟩

/-- A page with two entries, and the first two bytes of a third at its end. -/
def cutPage : List UInt8 :=
  [0, 0, 0, 0] ++ (1 :: 1 :: 250 :: List.replicate 250 0) ++
    (1 :: 1 :: 250 :: List.replicate 250 0) ++ [1, 1]

/-- Of a page with four bytes left, an item of four is packed, and the page with the cut
    entry is unpacked. -/
theorem pack_unpack_outside : ¬PacksInside [lastEnum] 508 4 ∧ ¬UnpacksInside cutPage [lastEnum] := by
  constructor
  · intro h
    have hw := h ⟨fun _ => 0, []⟩ (by simp [Ram.Within]) (512, 1) (by decide)
    exact absurd hw (by decide)
  · rintro ⟨last, hlast, -⟩
    have hout : (unpackStore cutPage [lastEnum]).isOk = false := by decide +kernel
    rw [hlast] at hout
    cases hout

end ConfigBounds
