import Ultimate1541.ConfigProofs

/-! # What a configuration page gives back

    A page is a list of entries: packing appends the entry of every item that is kept, and
    unpacking gives an item what the last entry with its id and type holds.  A flash page is
    written as a whole, so its entries are the packed ones.  Of a page file only the packed
    length is written, without the `0xFF` behind it: when it is read into a buffer, what the
    buffer had there is read on as entries. -/

namespace Config

/-! ## Entries -/

/-- An entry of a page. -/
structure Entry where
  id : UInt8
  type : UInt8
  data : List UInt8
  deriving DecidableEq, Repr

namespace Entry

def bytes (e : Entry) : List UInt8 := e.id :: e.type :: UInt8.ofNat e.data.length :: e.data

/-- What a page can hold: an id that does not end it, and a length in a byte. -/
def Proper (e : Entry) : Prop := e.id ≠ 0xFF ∧ e.data.length ≤ 255

/-- The entry is for items of definition `d`. -/
def isFor (e : Entry) (d : Definition) : Bool := e.id = d.id ∧ e.type = d.type.code

theorem bytes_length (e : Entry) : e.bytes.length = e.data.length + 3 := rfl

end Entry

/-- The entry at `index` of a block. -/
def entryAt (block : Nat → UInt8) (index : Nat) : Entry where
  id := block index
  type := block (index + 1)
  data := (List.range (block (index + 2)).toNat).map fun i => block (index + 3 + i)

/-- The entries from `index` on that a block of `blockSize` bytes has, up to an `0xFF` or a
    length that does not fit; they are less than `fuel`. -/
def entriesFrom (blockSize : Nat) (block : Nat → UInt8) : (fuel index : Nat) → List Entry
  | 0, _ => []
  | fuel + 1, index =>
      if index < blockSize ∧ block index ≠ 0xFF then
        if blockSize < index + 3 + (block (index + 2)).toNat then []
        else
          entryAt block index ::
            entriesFrom blockSize block fuel (index + (block (index + 2)).toNat + 3)
      else []

/-- The entries from `index` on that a block of `blockSize` bytes has. -/
def entries (blockSize : Nat) (block : Nat → UInt8) (index : Nat) : List Entry :=
  entriesFrom blockSize block (blockSize - index) index

/-- Every entry takes three bytes at least, so the size of the block is fuel enough. -/
theorem entriesFrom_eq_entries {blockSize : Nat} {block : Nat → UInt8} {fuel : Nat} :
    ∀ {index : Nat}, blockSize - index ≤ fuel →
      entriesFrom blockSize block fuel index = entries blockSize block index := by
  induction fuel using Nat.strong_induction_on with
  | _ fuel ih =>
      intro index hfuel
      rw [entries]
      cases fuel with
      | zero => rw [Nat.le_zero.mp hfuel]
      | succ fuel =>
          cases hroom : blockSize - index with
          | zero =>
              have hend : ¬(index < blockSize ∧ block index ≠ 0xFF) := fun h => absurd h.1 (by omega)
              rw [entriesFrom.eq_2, if_neg hend]
              rfl
          | succ room =>
              rw [entriesFrom, entriesFrom]
              refine if_congr Iff.rfl (if_congr Iff.rfl rfl ?_) rfl
              refine congrArg (entryAt block index :: ·) ?_
              rw [ih fuel (Nat.lt_succ_self fuel) (by omega), ih room (by omega) (by omega)]

/-- The next entry of a block, and the rest. -/
theorem entries_eq (blockSize : Nat) (block : Nat → UInt8) (index : Nat) :
    entries blockSize block index =
      if index < blockSize ∧ block index ≠ 0xFF then
        if blockSize < index + 3 + (block (index + 2)).toNat then []
        else entryAt block index :: entries blockSize block (index + (block (index + 2)).toNat + 3)
      else [] := by
  rw [← entriesFrom_eq_entries (Nat.le_succ (blockSize - index)), entriesFrom]
  refine if_congr Iff.rfl (if_congr Iff.rfl rfl ?_) rfl
  rw [entriesFrom_eq_entries (by omega)]

/-- What is before the first entry does not matter. -/
theorem entriesFrom_congr {blockSize : Nat} {block block' : Nat → UInt8} {fuel : Nat} :
    ∀ {index : Nat}, (∀ a, index ≤ a → block a = block' a) →
      entriesFrom blockSize block fuel index = entriesFrom blockSize block' fuel index := by
  induction fuel with
  | zero => exact fun _ => rfl
  | succ fuel ih =>
      intro index hsame
      have hentry : entryAt block index = entryAt block' index := by
        simp only [entryAt, hsame index (Nat.le_refl _), hsame (index + 1) (by omega),
          hsame (index + 2) (by omega)]
        congr 1
        exact List.map_congr_left fun i _ => hsame _ (by omega)
      rw [entriesFrom, entriesFrom, hsame index (Nat.le_refl _), hsame (index + 2) (by omega), hentry,
        ih fun a ha => hsame a (by omega)]

theorem entries_congr {blockSize : Nat} {block block' : Nat → UInt8} {index : Nat}
    (hsame : ∀ a, index ≤ a → block a = block' a) :
    entries blockSize block index = entries blockSize block' index :=
  entriesFrom_congr hsame

/-- `bytes` stand in the block from `off` on. -/
def Holds (block : Nat → UInt8) (off : Nat) (bytes : List UInt8) : Prop :=
  ∀ i < bytes.length, block (off + i) = bytes.getD i 0

theorem holds_append {block : Nat → UInt8} {off : Nat} {xs ys : List UInt8} :
    Holds block off (xs ++ ys) ↔ Holds block off xs ∧ Holds block (off + xs.length) ys := by
  constructor
  · intro h
    constructor
    · intro i hi
      rw [h i (by rw [List.length_append]; omega), List.getD_append _ _ _ _ hi]
    · intro i hi
      rw [Nat.add_assoc, h (xs.length + i) (by rw [List.length_append]; omega),
        List.getD_append_right _ _ _ _ (by omega), Nat.add_sub_cancel_left]
  · intro ⟨hxs, hys⟩ i hi
    rw [List.length_append] at hi
    by_cases hlt : i < xs.length
    · rw [hxs i hlt, List.getD_append _ _ _ _ hlt]
    · rw [List.getD_append_right _ _ _ _ (by omega), ← hys (i - xs.length) (by omega)]
      congr 1
      omega

/-- An entry that stands in the block is what is read there. -/
theorem entryAt_of_holds {block : Nat → UInt8} {index : Nat} {e : Entry} (hproper : e.Proper)
    (h : Holds block index e.bytes) :
    entryAt block index = e ∧ (block (index + 2)).toNat = e.data.length := by
  have hlen : (block (index + 2)).toNat = e.data.length := by
    have := h 2 (by rw [Entry.bytes_length]; omega)
    rw [this]
    exact UInt8.toNat_ofNat_of_lt' (Nat.lt_succ_of_le hproper.2)
  refine ⟨?_, hlen⟩
  obtain ⟨id, type, data⟩ := e
  have hid : block index = id := h 0 (by rw [Entry.bytes_length]; omega)
  have htype : block (index + 1) = type := h 1 (by rw [Entry.bytes_length]; omega)
  simp only [entryAt, hid, htype, hlen]
  congr 1
  refine List.ext_getElem (by simp) fun i hi hi' => ?_
  have hin : i < data.length := hi'
  have hbyte := h (3 + i) (by show 3 + i < data.length + 3; omega)
  simp only [List.getElem_map, List.getElem_range]
  rw [Nat.add_assoc, hbyte, Nat.add_comm 3 i]
  simp [Entry.bytes, hi']

/-- Entries that stand in the block are read first. -/
theorem entries_append {blockSize : Nat} {block : Nat → UInt8} {es : List Entry} :
    ∀ {index : Nat}, (∀ e ∈ es, e.Proper) → Holds block index (es.flatMap Entry.bytes) →
      index + (es.flatMap Entry.bytes).length ≤ blockSize →
      entries blockSize block index =
        es ++ entries blockSize block (index + (es.flatMap Entry.bytes).length) := by
  induction es with
  | nil => exact fun _ _ _ => rfl
  | cons e es ih =>
      intro index hproper hholds hroom
      rw [List.flatMap_cons] at hholds hroom ⊢
      obtain ⟨hhead, htail⟩ := holds_append.mp hholds
      have hp := hproper e List.mem_cons_self
      obtain ⟨hentry, hlen⟩ := entryAt_of_holds hp hhead
      rw [List.length_append, Entry.bytes_length] at hroom ⊢
      have hid : block index ≠ 0xFF := by
        have : block index = e.id := hhead 0 (by rw [Entry.bytes_length]; omega)
        rw [this]
        exact hp.1
      rw [entries_eq, if_pos ⟨by omega, hid⟩, hlen, if_neg (by omega), hentry]
      have hnext := ih (fun x hx => hproper x (List.mem_cons_of_mem e hx))
        (Entry.bytes_length e ▸ htail) (by omega)
      rw [Nat.add_assoc, hnext, Nat.add_assoc, List.cons_append]

/-! ## Packing -/

namespace Item

/-- The entry that an item is kept as. -/
def entry (item : Item) : Option Entry :=
  match item.definition.type with
  | .value => some ⟨item.definition.id, item.definition.type.code, valueBytes item.value⟩
  | .enum =>
      some ⟨item.definition.id, item.definition.type.code, [UInt8.ofNat (item.value % 256).toNat]⟩
  | .string | .strfunc | .strpass =>
      some ⟨item.definition.id, item.definition.type.code, item.string⟩
  | .func | .sep | .info => none

/-- What is packed of an item. -/
def packed (item : Item) : List UInt8 := item.entry.toList.flatMap Entry.bytes

/-- The room that packing an item asks for: of a string, also for the terminator. -/
def need (item : Item) : Nat :=
  match item.definition.type with
  | .value => 7
  | .enum => 4
  | .string | .strfunc | .strpass => 4 + item.string.length
  | .func | .sep | .info => 0

/-- The item is kept on a page. -/
def isKept (item : Item) : Bool := item.definition.type.isNumber || item.definition.type.isText

theorem entry_proper {item : Item} {e : Entry} (h : item.entry = some e) : e.Proper := by
  have htext := item.text_range
  have hmax := item.definition.text_range
  have hid := item.definition.id_ne
  obtain ⟨definition, value, string, _, _⟩ := item
  obtain ⟨id, type, min, max, default, text, _, _, _⟩ := definition
  cases type <;> simp only [entry, Option.some.injEq, reduceCtorEq] at h
  case value => subst h; exact ⟨hid, by simp [valueBytes]⟩
  case enum => subst h; exact ⟨hid, by simp⟩
  case string | strfunc | strpass =>
    subst h
    have h1 := (htext rfl).1
    have h2 := (hmax rfl).2.1
    exact ⟨hid, by simp only at h1 h2 ⊢; omega⟩

theorem entry_isFor {item : Item} {e : Entry} (h : item.entry = some e) :
    e.id = item.definition.id ∧ e.type = item.definition.type.code := by
  obtain ⟨definition, value, string, _, _⟩ := item
  obtain ⟨id, type, min, max, default, text, _, _, _⟩ := definition
  cases type <;> simp only [entry, Option.some.injEq, reduceCtorEq] at h <;> subst h <;> exact ⟨rfl, rfl⟩

theorem entry_isSome (item : Item) : item.entry.isSome = item.isKept := by
  obtain ⟨definition, value, string, _, _⟩ := item
  obtain ⟨id, type, min, max, default, text, _, _, _⟩ := definition
  cases type <;> rfl

theorem packed_length_le (item : Item) : item.packed.length ≤ item.need := by
  obtain ⟨definition, value, string, _, _⟩ := item
  obtain ⟨id, type, min, max, default, text, _, _, _⟩ := definition
  cases type <;> simp [packed, entry, need, Entry.bytes, valueBytes] <;> omega

end Item

/-- A block after `bytes` were stored from `b` on: before `b` nothing has changed. -/
structure Stored (b : Nat) (bytes : List UInt8) (mem mem' : Ram) : Prop where
  before : ∀ a < b, mem'.bytes a = mem.bytes a
  holds : Holds mem'.bytes b bytes

theorem Stored.trans {b : Nat} {xs ys : List UInt8} {mem mem' mem'' : Ram} (h : Stored b xs mem mem')
    (h' : Stored (b + xs.length) ys mem' mem'') : Stored b (xs ++ ys) mem mem'' where
  before a ha := by rw [h'.before a (by omega), h.before a ha]
  holds := holds_append.mpr ⟨fun i hi => by rw [h'.before _ (by omega), h.holds i hi], h'.holds⟩

theorem Stored.put (b : Nat) (bytes : List UInt8) (mem : Ram) : Stored b bytes mem (mem.put b bytes) where
  before a ha := by
    have hout : ¬(b ≤ a ∧ a < b + bytes.length) := by omega
    exact if_neg hout
  holds i hi := by
    have hin : b ≤ b + i ∧ b + i < b + bytes.length := by omega
    exact (if_pos hin).trans (by rw [Nat.add_sub_cancel_left])

/-- The first bytes of what is stored. -/
theorem Stored.left {b : Nat} {xs : List UInt8} (ys : List UInt8) {mem mem' : Ram} (h : Stored b (xs ++ ys) mem mem') :
    Stored b xs mem mem' where
  before := h.before
  holds := (holds_append.mp h.holds).1

namespace Item

/-- Where there is the room that it needs, an item is packed as its entry. -/
theorem pack_stored {item : Item} {b len : Nat} {mem : Ram} (h : item.need ≤ len) :
    (item.pack b len mem).2 = item.packed.length ∧
      Stored b item.packed mem (item.pack b len mem).1 := by
  obtain ⟨definition, value, string, hn, ht⟩ := item
  obtain ⟨id, type, min, max, default, text, hid, hnum, htxt⟩ := definition
  -- an entry is the id and the type, and then what is put behind them
  have hboth : ∀ (code : UInt8) (data : List UInt8), 2 ≤ len →
      Stored b (id :: code :: data) mem ((mem.put b ([id, code].take len)).put (b + 2) data) := by
    intro code data htwo
    have hhead : [id, code].take len = [id, code] := List.take_of_length_le htwo
    rw [hhead]
    exact (Stored.put b [id, code] mem).trans (Stored.put (b + 2) data _)
  cases type
  case value =>
    have hroom : ¬len - 2 < 5 := by simp only [need] at h; omega
    simp only [pack, packHead, if_neg hroom]
    exact ⟨rfl, hboth _ _ (by omega)⟩
  case enum =>
    have hroom : ¬len - 2 < 2 := by simp only [need] at h; omega
    simp only [pack, packHead, if_neg hroom]
    exact ⟨rfl, hboth _ _ (by omega)⟩
  case string | strfunc | strpass =>
    have hroom : ¬2 + string.length > len - 2 := by simp only [need] at h; omega
    simp only [pack, packHead, if_neg hroom]
    refine ⟨by simp [packed, entry, Entry.bytes]; omega, ?_⟩
    simp only [packed, entry, Option.toList, List.flatMap_cons, List.flatMap_nil, List.append_nil]
    -- the terminator is stored behind the entry
    refine Stored.left [0] ?_
    show Stored b (id :: _ :: (UInt8.ofNat string.length :: string ++ [0])) _ _
    exact hboth _ _ (by omega)
  case func | sep | info =>
    refine ⟨rfl, fun a ha => (Stored.put b _ mem).before a ha, fun i hi => nomatch hi⟩

end Item

/-- There is room for every item when its turn comes. -/
def fits : (room : Nat) → List Item → Bool
  | _, [] => true
  | room, item :: items => item.need ≤ room && fits (room - item.packed.length) items

theorem fits_append {xs ys : List Item} {room : Nat} :
    fits room (xs ++ ys) = (fits room xs && fits (room - (xs.flatMap Item.packed).length) ys) := by
  induction xs generalizing room with
  | nil => simp [fits]
  | cons item items ih =>
      rw [List.cons_append, fits, fits, ih, List.flatMap_cons, List.length_append, Nat.sub_add_eq,
        Bool.and_assoc]

theorem length_le_of_fits {items : List Item} {room : Nat} (h : fits room items) :
    (items.flatMap Item.packed).length ≤ room := by
  induction items generalizing room with
  | nil => exact Nat.zero_le room
  | cons item items ih =>
      rw [fits, Bool.and_eq_true, decide_eq_true_eq] at h
      have := ih h.2
      have := item.packed_length_le
      rw [List.flatMap_cons, List.length_append]
      omega

/-- What needs no room is not packed. -/
theorem packed_of_fits_zero {items : List Item} (h : fits 0 items) : items.flatMap Item.packed = [] :=
  List.length_eq_zero_iff.mp (Nat.le_zero.mp (length_le_of_fits h))

/-- A store that fits is packed as its entries with the end mark behind them. -/
theorem packStore_stored {items : List Item} {b remain : Nat} {mem : Ram} (h : fits remain items) :
    (packStore items b remain mem).2 = (items.flatMap Item.packed).length ∧
      Stored b (items.flatMap Item.packed ++ [0xFF]) mem (packStore items b remain mem).1 := by
  induction items generalizing b remain mem with
  | nil => exact ⟨rfl, Stored.put b [0xFF] mem⟩
  | cons item items ih =>
      rw [fits, Bool.and_eq_true, decide_eq_true_eq] at h
      obtain ⟨hlen, hstored⟩ := @Item.pack_stored item b remain mem h.1
      simp only [packStore, hlen]
      by_cases hfull : remain - item.packed.length < 1
      · have hrest : items.flatMap Item.packed = [] :=
          packed_of_fits_zero ((Nat.lt_one_iff.mp hfull) ▸ h.2)
        simp only [if_pos hfull, List.flatMap_cons, hrest, List.append_nil]
        exact ⟨trivial, hstored.trans (Stored.put _ _ _)⟩
      · obtain ⟨hlen', hstored'⟩ := @ih (b + item.packed.length) _ (item.pack b remain mem).1 h.2
        simp only [if_neg hfull, List.flatMap_cons, List.length_append, hlen']
        exact ⟨trivial, List.append_assoc _ _ _ ▸ hstored.trans hstored'⟩

/-- Stores that fit are packed one behind the other. -/
theorem packStores_stored {stores : List (List Item)} {b remain : Nat} {mem : Ram}
    (h : fits remain stores.flatten) (hend : mem.bytes b = 0xFF ∨ remain = 0) :
    (packStores stores b remain mem).2 = remain - (stores.flatten.flatMap Item.packed).length ∧
      Stored b (stores.flatten.flatMap Item.packed) mem (packStores stores b remain mem).1 ∧
      ((packStores stores b remain mem).1.bytes
          (b + (stores.flatten.flatMap Item.packed).length) = 0xFF ∨
        remain = (stores.flatten.flatMap Item.packed).length) := by
  induction stores generalizing b remain mem with
  | nil => exact ⟨rfl, ⟨fun _ _ => rfl, fun i hi => nomatch hi⟩, hend⟩
  | cons store stores ih =>
      rw [List.flatten_cons, fits_append, Bool.and_eq_true] at h
      obtain ⟨hlen, hstored⟩ := @packStore_stored store b remain mem h.1
      have hmark := (holds_append.mp hstored.holds).2 0 (by simp)
      obtain ⟨hrest, hstored', hend'⟩ :=
        @ih (b + (store.flatMap Item.packed).length) _ (packStore store b remain mem).1 h.2
          (.inl hmark)
      have hle := length_le_of_fits h.1
      simp only [packStores, hlen, List.flatten_cons, List.flatMap_append, List.length_append]
      refine ⟨by rw [hrest, Nat.sub_add_eq], hstored.left.trans hstored', ?_⟩
      rw [← Nat.add_assoc]
      exact hend'.imp id fun h => by omega

/-! ## Unpacking -/

namespace Item

/-- An item takes what an entry for it holds. -/
def load (item : Item) (data : List UInt8) : Item := item.unpack item.definition.type.code data

/-- What `ConfigStore::unpack` does to an item when it comes to an entry. -/
def take (item : Item) (e : Entry) : Item :=
  if e.id = item.definition.id then item.unpack e.type e.data else item

theorem take_eq (item : Item) (e : Entry) :
    item.take e = if e.isFor item.definition then item.load e.data else item := by
  by_cases hid : e.id = item.definition.id <;> by_cases htype : e.type = item.definition.type.code <;>
    simp [take, Entry.isFor, load, unpack, hid, htype]

@[simp] theorem load_definition (item : Item) (data : List UInt8) :
    (item.load data).definition = item.definition := by
  simp [load, unpack]

/-- Only the last load counts. -/
theorem load_load (item : Item) (data data' : List UInt8) : (item.load data).load data' = item.load data' := by
  refine ext_content (by simp) ?_ ?_
  · cases h : item.definition.type.isNumber <;> simp [load, unpack, h]
  · cases h : item.definition.type.isText <;> simp [load, unpack, h]

/-- Every item is in its bounds already. -/
theorem checkBounds_eq (item : Item) : item.checkBounds = item := by
  refine ext_content rfl ?_ rfl
  simp only [checkBounds]
  split
  next h =>
    have := item.number_range h
    rw [if_neg (Int.not_lt.mpr this.1), if_neg (Int.not_lt.mpr this.2)]
  next => rfl

end Item

/-- The last entry for items of definition `d`. -/
def latest (d : Definition) (es : List Entry) : Option Entry := (es.filter (·.isFor d)).getLast?

theorem latest_append (d : Definition) (es es' : List Entry) :
    latest d (es ++ es') = (latest d es').or (latest d es) := by
  rw [latest, List.filter_append, List.getLast?_append]
  rfl

/-- An item that comes by all entries has what the last one for it holds. -/
theorem foldl_take (item : Item) (es : List Entry) :
    es.foldl Item.take item =
      match latest item.definition es with
      | none => item
      | some e => item.load e.data := by
  induction es using List.reverseRecOn with
  | nil => rfl
  | append_singleton es e ih =>
      rw [List.foldl_append, List.foldl_cons, List.foldl_nil, ih, latest_append, Item.take_eq]
      cases hlatest : latest item.definition es with
      | none => cases hfor : e.isFor item.definition <;> simp [latest, hfor]
      | some e' => cases hfor : e.isFor item.definition <;> simp [latest, hfor, Item.load_load]

theorem unpackLoop_eq (blockSize : Nat) (block : Nat → UInt8) :
    ∀ (fuel index : Nat) (items : List Item),
      unpackLoop blockSize block fuel index items =
        items.map fun item => (entriesFrom blockSize block fuel index).foldl Item.take item := by
  intro fuel
  induction fuel with
  | zero => intro index items; exact (List.map_id' items).symm
  | succ fuel ih =>
      intro index items
      rw [unpackLoop, entriesFrom]
      by_cases hmore : index < blockSize ∧ block index ≠ 0xFF
      · by_cases hlong : blockSize < index + 3 + (block (index + 2)).toNat
        · rw [if_pos hmore, if_pos hlong, if_pos hmore, if_pos hlong]
          exact (List.map_id' items).symm
        · rw [if_pos hmore, if_neg hlong, if_pos hmore, if_neg hlong, ih, List.map_map]
          rfl
      · rw [if_neg hmore, if_neg hmore]
        exact (List.map_id' items).symm

/-- Each item of a store comes by all entries of the block. -/
theorem unpackStore_eq (blockSize : Nat) (block : Nat → UInt8) (items : List Item) :
    unpackStore blockSize block items =
      items.map fun item => (entries blockSize block 4).foldl Item.take item := by
  rw [unpackStore, unpackLoop_eq, entriesFrom_eq_entries (Nat.sub_le blockSize 4)]

/-! ## Pages -/

namespace ConfigPage

/-- The items of a page, in the order in which they are packed. -/
def items (page : ConfigPage) : List Item := page.stores.flatten

/-- The items fit the page: there is room for each when its turn comes. -/
def Fits (page : ConfigPage) : Prop := fits (page.blockSize - 4) page.items

/-- The entries that the items of a page are kept as. -/
def packedEntries (page : ConfigPage) : List Entry := page.items.flatMap (·.entry.toList)

/-- How much of a page file is written: the entries, without the mark behind them. -/
def packedLength (page : ConfigPage) : Nat := 4 + (page.packedEntries.flatMap Entry.bytes).length

/-- The entries that a buffer has behind the packed length of a page. -/
def staleEntries (page : ConfigPage) (mem : Ram) : List Entry :=
  entries page.blockSize mem.bytes page.packedLength

/-- The entries that a new page with the buffer `mem` finds. -/
def foundEntries (page : ConfigPage) (kind : Kind) (mem : Ram) : List Entry :=
  match kind with
  | .flash => page.packedEntries
  | .file => page.packedEntries ++ page.staleEntries mem

theorem packedEntries_bytes (page : ConfigPage) :
    page.packedEntries.flatMap Entry.bytes = page.items.flatMap Item.packed :=
  List.flatMap_assoc

theorem packedEntries_proper (page : ConfigPage) : ∀ e ∈ page.packedEntries, e.Proper := by
  intro e he
  obtain ⟨item, _, hitem⟩ := List.mem_flatMap.mp he
  exact Item.entry_proper (Option.mem_toList.mp hitem)

/-- A page that fits is packed as its entries, with the end mark behind them if there is room. -/
theorem pack_stored {page : ConfigPage} (hfits : page.Fits) (mem : Ram) :
    (page.pack mem).2 = page.packedLength ∧ page.packedLength ≤ page.blockSize ∧
      Holds (page.pack mem).1.bytes 4 (page.packedEntries.flatMap Entry.bytes) ∧
      (page.packedLength < page.blockSize → (page.pack mem).1.bytes page.packedLength = 0xFF) := by
  have hroom := page.room
  have hle := length_le_of_fits hfits
  have hend : ((mem.fill 0 page.blockSize 0xFF).put 0 page.idBytes).bytes 4 = 0xFF ∨
      page.blockSize - 4 = 0 := by
    by_cases hfour : page.blockSize - 4 = 0
    · exact .inr hfour
    · have hin : 0 ≤ 4 ∧ 4 < 0 + page.blockSize := by omega
      exact .inl (if_pos hin)
  obtain ⟨hremain, hstored, hmark⟩ := packStores_stored hfits hend
  have hbytes := packedEntries_bytes page
  simp only [items] at hbytes hle
  rw [packedLength, hbytes, pack, hremain]
  refine ⟨by omega, by omega, hstored.holds, fun hlt => ?_⟩
  exact hmark.resolve_right (by omega)

/-- What a new page reads over its buffer. -/
theorem read_bytes {page : ConfigPage} (hfits : page.Fits) (kind : Kind) (before mem : Ram) :
    Holds (mem.put 0 (page.write kind before)).bytes 4 (page.packedEntries.flatMap Entry.bytes) ∧
      (kind = .flash → page.packedLength < page.blockSize →
        (mem.put 0 (page.write kind before)).bytes page.packedLength = 0xFF) ∧
      (kind = .file → ∀ a, page.packedLength ≤ a →
        (mem.put 0 (page.write kind before)).bytes a = mem.bytes a) := by
  obtain ⟨hlen, hle, hholds, hmark⟩ := pack_stored hfits before
  -- inside what was written, the new page has what was packed
  have hread : ∀ a, a < (page.write kind before).length →
      (mem.put 0 (page.write kind before)).bytes a = (page.pack before).1.bytes a := by
    intro a ha
    have hin : 0 ≤ a ∧ a < 0 + (page.write kind before).length := by omega
    refine (if_pos hin).trans ?_
    cases kind
    case flash =>
      rw [write, Ram.slice_length] at ha
      rw [write, Nat.sub_zero, Ram.slice_getD _ _ ha, Nat.zero_add]
    case file =>
      rw [write, Ram.slice_length] at ha
      rw [write, Nat.sub_zero, Ram.slice_getD _ _ ha, Nat.zero_add]
  have hlong : page.packedLength ≤ (page.write kind before).length := by
    cases kind
    case flash => rw [write, Ram.slice_length]; exact hle
    case file => rw [write, Ram.slice_length, hlen]
  refine ⟨fun i hi => ?_, ?_, ?_⟩
  · rw [hread _ (Nat.lt_of_lt_of_le (by rw [packedLength]; omega) hlong), hholds i hi]
  · rintro rfl hlt
    rw [hread _ (by rw [write, Ram.slice_length]; exact hlt), hmark hlt]
  · rintro rfl a ha
    have hout : ¬(0 ≤ a ∧ a < 0 + (page.write .file before).length) := by
      rw [write, Ram.slice_length, hlen]
      omega
    exact if_neg hout

/-- A new page finds the packed entries; of a page file, also those that its buffer has behind
    them. -/
theorem entries_found {page : ConfigPage} (hfits : page.Fits) (kind : Kind) (before mem : Ram) :
    entries page.blockSize (mem.put 0 (page.write kind before)).bytes 4 = page.foundEntries kind mem := by
  obtain ⟨hholds, hflash, hfile⟩ := read_bytes hfits kind before mem
  have hle := (pack_stored hfits before).2.1
  rw [entries_append page.packedEntries_proper hholds hle]
  cases kind
  case flash =>
    have hend : ¬(page.packedLength < page.blockSize ∧
        (mem.put 0 (page.write .flash before)).bytes page.packedLength ≠ 0xFF) :=
      fun h => h.2 (hflash rfl h.1)
    rw [foundEntries, ← packedLength, entries_eq, if_neg hend, List.append_nil]
  case file => rw [foundEntries, staleEntries, ← entries_congr (hfile rfl), ← packedLength]

/-- Each store of a new page is unpacked from what was written, whatever was read before. -/
theorem registerStores_eq (blockSize : Nat) (written : List UInt8) {block : Nat → UInt8} :
    ∀ (stores : List (List Item)) (mem : Ram), (mem.put 0 written).bytes = block →
      registerStores blockSize written stores mem =
        stores.map fun store => store.map fun item =>
          (entries blockSize block 4).foldl Item.take (Item.fresh item.definition) := by
  intro stores
  induction stores with
  | nil => intro mem _; rfl
  | cons store stores ih =>
      intro mem hmem
      -- reading once more changes nothing
      have hagain : ((mem.put 0 written).put 0 written).bytes = block := by
        rw [← hmem]
        funext a
        simp only [Ram.put]
        split <;> rfl
      rw [registerStores, hmem, ih _ hagain, unpackStore_eq, List.map_cons, List.map_map, List.map_map]
      refine congrArg (· :: _) (List.map_congr_left fun item _ => ?_)
      exact Item.checkBounds_eq _

/-- A registered item has what the last entry for it holds, or its default. -/
theorem register_eq {page : ConfigPage} (hfits : page.Fits) (kind : Kind) (before mem : Ram) :
    page.register kind before mem =
      page.stores.map fun store => store.map fun item =>
        match latest item.definition (page.foundEntries kind mem) with
        | none => Item.fresh item.definition
        | some e => (Item.fresh item.definition).load e.data := by
  rw [register, registerStores_eq page.blockSize _ page.stores mem rfl, entries_found hfits]
  refine List.map_congr_left fun store _ => List.map_congr_left fun item _ => ?_
  exact foldl_take (Item.fresh item.definition) _

end ConfigPage

/-! ## What is restored -/

namespace Item

/-- What registering has to give back: the value of what is kept, and else the default. -/
def kept (item : Item) : Item where
  definition := item.definition
  value := if item.definition.type.isNumber then item.value else (fresh item.definition).value
  string := if item.definition.type.isText then item.string else (fresh item.definition).string
  number_range h := by rw [if_pos h]; exact item.number_range h
  text_range h := by rw [if_pos h]; exact item.text_range h

/-- The data of an entry is read as what the item is. -/
def readsAs (item : Item) (data : List UInt8) : Bool :=
  (item.definition.type.isNumber → number item.definition data = item.value) ∧
    (item.definition.type.isText → text item.definition data = item.string)

theorem load_eq_kept {item : Item} {data : List UInt8} :
    (fresh item.definition).load data = item.kept ↔ item.readsAs data := by
  have hfields : (fresh item.definition).load data = item.kept ↔
      ((fresh item.definition).load data).value = item.kept.value ∧
        ((fresh item.definition).load data).string = item.kept.string :=
    ⟨fun h => h ▸ ⟨rfl, rfl⟩, fun h => ext_content (load_definition _ data) h.1 h.2⟩
  rw [hfields]
  simp only [load, unpack, kept, readsAs, fresh, ne_eq, not_true_eq_false, if_false, decide_eq_true_eq]
  refine and_congr ?_ ?_
  · by_cases h : item.definition.type.isNumber
    · simp [h]
    · simp [h]
  · by_cases h : item.definition.type.isText
    · simp [h]
    · simp [h]

theorem fresh_eq_kept {item : Item} (h : item.isKept = false) : fresh item.definition = item.kept := by
  rw [isKept, Bool.or_eq_false_iff] at h
  refine ext_content rfl ?_ ?_
  · simp [kept, h.1]
  · simp [kept, h.2]

theorem shiftIn_of_lt {value : Int} (byte : UInt8) (h0 : 0 ≤ value) (h : value < 2 ^ 23) :
    shiftIn value byte = value * 256 + byte.toNat := by
  have := byte.toNat_lt
  exact Int.bmod_eq_of_le (by omega) (by omega)

theorem toNat_byte (v : Int) : ((UInt8.ofNat (v % 256).toNat).toNat : Int) = v % 256 := by
  have hlt : (v % 256).toNat < 256 := by omega
  rw [UInt8.toNat_ofNat_of_lt' hlt]
  omega

/-- The four bytes of an `int` are read as it. -/
theorem foldl_valueBytes {v : Int} (hlo : -2 ^ 31 ≤ v) (hhi : v < 2 ^ 31) :
    (valueBytes v).foldl shiftIn 0 = v := by
  have hbyte := fun shift : Nat => toNat_byte (v / 2 ^ shift)
  have h24 : shiftIn 0 (UInt8.ofNat (v / 2 ^ 24 % 256).toNat) = v / 2 ^ 24 % 256 := by
    rw [shiftIn_of_lt _ (by omega) (by omega), hbyte]
    omega
  have h16 : shiftIn (v / 2 ^ 24 % 256) (UInt8.ofNat (v / 2 ^ 16 % 256).toNat) =
      v / 2 ^ 24 % 256 * 256 + v / 2 ^ 16 % 256 := by
    rw [shiftIn_of_lt _ (by omega) (by omega), hbyte]
  have h8 : shiftIn (v / 2 ^ 24 % 256 * 256 + v / 2 ^ 16 % 256) (UInt8.ofNat (v / 2 ^ 8 % 256).toNat) =
      v / 2 ^ 8 % 2 ^ 24 := by
    rw [shiftIn_of_lt _ (by omega) (by omega), hbyte]
    omega
  simp only [valueBytes, List.map_cons, List.map_nil, List.foldl_cons, List.foldl_nil, h24, h16, h8]
  -- the last byte brings the sign
  have hlast : v / 2 ^ 8 % 2 ^ 24 * 256 + v / 2 ^ 0 % 256 = v % 2 ^ 32 := by omega
  have hmod : (v % 2 ^ 32).bmod (2 ^ 32) = v.bmod (2 ^ 32) := Int.emod_bmod v (2 ^ 32)
  rw [shiftIn, hbyte, hlast, hmod]
  exact Int.bmod_eq_of_le (by omega) (by omega)

theorem number_of_mem {d : Definition} {data : List UInt8} {v : Int} (h : data.foldl shiftIn 0 = v)
    (hmem : d.min ≤ v ∧ v ≤ d.max) : number d data = v := by
  rw [number, h, if_pos hmem]

theorem text_of_mem {d : Definition} {s : List UInt8} (hlen : (s.length : Int) ≤ d.max) (hnul : 0 ∉ s) :
    text d s = s := by
  rw [text, List.take_of_length_le (by omega), List.takeWhile_eq_self_iff]
  intro b hb
  exact decide_eq_true fun h => hnul (h ▸ hb)

/-- An enumerated value is packed in one byte. -/
def InByte (item : Item) : Prop := item.definition.type = .enum → 0 ≤ item.value ∧ item.value ≤ 255

/-- The entry of an item is read as the item. -/
theorem readsAs_entry {item : Item} {e : Entry} (hbyte : item.InByte) (h : item.entry = some e) :
    item.readsAs e.data := by
  have hnum := item.number_range
  have htext := item.text_range
  have hint := item.definition.number_range
  obtain ⟨definition, value, string, _, _⟩ := item
  obtain ⟨id, type, min, max, default, text, _, _, _⟩ := definition
  refine decide_eq_true ?_
  cases type <;> simp only [entry, Option.some.injEq, reduceCtorEq] at h <;> subst h
  case value =>
    have hin := hnum rfl
    have hbound := hint rfl
    simp only at hin hbound
    refine ⟨fun _ => number_of_mem (foldl_valueBytes (by omega) (by omega)) hin, nofun⟩
  case enum =>
    have hv := hbyte rfl
    simp only at hv
    refine ⟨fun _ => number_of_mem ?_ (hnum rfl), nofun⟩
    rw [List.foldl_cons, List.foldl_nil, shiftIn_of_lt _ (by omega) (by omega), toNat_byte]
    show 0 * 256 + value % 256 = value
    omega
  case string | strfunc | strpass => exact ⟨nofun, fun _ => text_of_mem (htext rfl).1 (htext rfl).2⟩

end Item

namespace ConfigPage

/-- The page as registering has to give it back. -/
def kept (page : ConfigPage) : List (List Item) := page.stores.map fun store => store.map Item.kept

theorem mem_items {page : ConfigPage} {item : Item} : item ∈ page.items ↔ ∃ s ∈ page.stores, item ∈ s :=
  List.mem_flatten

/-- An item that is kept has an entry on the page. -/
theorem latest_isSome {page : ConfigPage} {item : Item} (hitem : item ∈ page.items)
    (hkept : item.isKept) (es : List Entry) : latest item.definition (page.packedEntries ++ es) ≠ none := by
  obtain ⟨e, he⟩ := Option.isSome_iff_exists.mp (item.entry_isSome.trans hkept)
  have hmem : e ∈ page.packedEntries ++ es :=
    List.mem_append_left es (List.mem_flatMap.mpr ⟨item, hitem, Option.mem_toList.mpr he⟩)
  have hfor : e.isFor item.definition := decide_eq_true (Item.entry_isFor he)
  rw [latest, Ne, List.getLast?_eq_none_iff]
  exact List.ne_nil_of_mem (List.mem_filter.mpr ⟨hmem, hfor⟩)

/-- Registering restores an item unless the last entry for it is read as something else. -/
theorem register_eq_kept_iff {page : ConfigPage} (hfits : page.Fits) (kind : Kind) (before mem : Ram) :
    page.register kind before mem = page.kept ↔
      ∀ item ∈ page.items, ∀ e, latest item.definition (page.foundEntries kind mem) = some e →
        item.readsAs e.data := by
  have hitems : page.register kind before mem = page.kept ↔ ∀ item ∈ page.items,
      (match latest item.definition (page.foundEntries kind mem) with
        | none => Item.fresh item.definition
        | some e => (Item.fresh item.definition).load e.data) = item.kept := by
    rw [register_eq hfits, kept, List.map_inj_left]
    simp only [List.map_inj_left, mem_items]
    exact ⟨fun h item ⟨s, hs, hi⟩ => h s hs item hi, fun h s hs item hi => h item ⟨s, hs, hi⟩⟩
  rw [hitems]
  refine forall₂_congr fun item hitem => ?_
  cases hlatest : latest item.definition (page.foundEntries kind mem) with
  | some e => simp [Item.load_eq_kept]
  | none =>
      have hnot : item.isKept = false := by
        refine Bool.eq_false_iff.mpr fun hkept => ?_
        cases kind
        case flash => exact latest_isSome hitem hkept [] (by rw [List.append_nil]; exact hlatest)
        case file => exact latest_isSome hitem hkept _ hlatest
      exact iff_of_true (Item.fresh_eq_kept hnot) nofun

/-- What the definition tables keep to: no two items of a page share an id, and what is
    enumerated is in a byte. -/
structure Plain (page : ConfigPage) : Prop where
  ids : page.items.Pairwise fun i j => i.definition.id ≠ j.definition.id
  inByte : ∀ item ∈ page.items, item.InByte

/-- No entry of other items is for an item. -/
theorem latest_of_ids_ne {d : Definition} {items : List Item} (h : ∀ i ∈ items, i.definition.id ≠ d.id) :
    latest d (items.flatMap (·.entry.toList)) = none := by
  rw [latest, List.getLast?_eq_none_iff, List.filter_eq_nil_iff]
  intro e he hfor
  obtain ⟨i, hi, hentry⟩ := List.mem_flatMap.mp he
  exact h i hi ((Item.entry_isFor (Option.mem_toList.mp hentry)).1.symm.trans (of_decide_eq_true hfor).1)

/-- On a page whose items have their own ids, the packed entry for an item is its own. -/
theorem latest_packed {page : ConfigPage} (hplain : page.Plain) {item : Item} (hitem : item ∈ page.items)
    {e : Entry} (h : latest item.definition page.packedEntries = some e) : item.entry = some e := by
  obtain ⟨xs, ys, hsplit⟩ := List.append_of_mem hitem
  have hids := hplain.ids
  rw [hsplit, List.pairwise_append, List.pairwise_cons] at hids
  have hys : latest item.definition (ys.flatMap (·.entry.toList)) = none :=
    latest_of_ids_ne fun i hi => (hids.2.1.1 i hi).symm
  have hxs : latest item.definition (xs.flatMap (·.entry.toList)) = none :=
    latest_of_ids_ne fun i hi => hids.2.2 i hi item List.mem_cons_self
  rw [packedEntries, hsplit, List.flatMap_append, List.flatMap_cons, latest_append, latest_append, hxs, hys,
    Option.none_or, Option.or_none] at h
  rw [latest] at h
  have hmem := List.mem_of_getLast? h
  exact Option.mem_toList.mp (List.mem_filter.mp hmem).1

theorem readsAs_packed {page : ConfigPage} (hplain : page.Plain) {item : Item} (hitem : item ∈ page.items)
    {e : Entry} (h : latest item.definition page.packedEntries = some e) : item.readsAs e.data :=
  Item.readsAs_entry (hplain.inByte item hitem) (latest_packed hplain hitem h)

/-- Writing a page that its items fit and registering its definitions on a new one restores
    every item, if and only if the last entry for each item is read as it, among those that are
    packed and, on a page file, those that the new page's buffer has behind the packed length.
    So a flash page with its own ids is always restored, and a page file just if the buffer has
    no last entry for an item that is read as something else. -/
theorem register_restores (page : ConfigPage) (hfits : page.Fits) (before mem : Ram) :
    (∀ kind, page.register kind before mem = page.kept ↔
      ∀ item ∈ page.items, ∀ e, latest item.definition (page.foundEntries kind mem) = some e →
        item.readsAs e.data) ∧
    (page.Plain →
      page.register .flash before mem = page.kept ∧
      (page.register .file before mem = page.kept ↔
        ∀ item ∈ page.items, ∀ e, latest item.definition (page.staleEntries mem) = some e →
          item.readsAs e.data)) := by
  refine ⟨fun kind => register_eq_kept_iff hfits kind before mem, fun hplain => ⟨?_, ?_⟩⟩
  · rw [register_eq_kept_iff hfits]
    exact fun item hitem e he => readsAs_packed hplain hitem he
  · rw [register_eq_kept_iff hfits]
    refine forall₂_congr fun item hitem => ?_
    rw [foundEntries, latest_append]
    cases hstale : latest item.definition (page.staleEntries mem) with
    | some e => rfl
    | none =>
        rw [Option.none_or]
        exact iff_of_true (fun e he => readsAs_packed hplain hitem he) nofun

/-- A page of sixteen bytes with one enumerated item, which has the value `v`. -/
def oneEnum (v : Int) (h : 0 ≤ v ∧ v ≤ 1) : ConfigPage where
  id := 0x01020304
  blockSize := 16
  stores := [[
    { definition :=
        { id := 1, type := .enum, min := 0, max := 1, «def» := 0, text := []
          id_ne := by decide, number_range := by decide, text_range := nofun }
      value := v
      string := []
      number_range := fun _ => h
      text_range := nofun }]]
  room := by decide

/-- A buffer that has an entry for the item, and the end mark, where the packed page ends. -/
def staleBuffer : Ram := (Ram.mk (fun _ => 0xFF) []).put 8 [1, 2, 1, 1, 0xFF]

theorem register_restores_flash :
    (oneEnum 0 (by decide)).register .flash staleBuffer staleBuffer = (oneEnum 0 (by decide)).kept :=
  ((register_restores (oneEnum 0 (by decide)) (by rfl) staleBuffer staleBuffer).2
    ⟨List.pairwise_singleton _ _, by simp [oneEnum, items, Item.InByte]⟩).1

/-- The value `0` goes into a page file, and `1` comes out of it. -/
theorem register_file_stale :
    (oneEnum 0 (by decide)).Fits ∧
      (oneEnum 0 (by decide)).register .file staleBuffer staleBuffer ≠ (oneEnum 0 (by decide)).kept := by
  refine ⟨by rfl, fun h => ?_⟩
  have hvalues := congrArg (fun stores => stores.map fun store => store.map Item.value) h
  exact absurd hvalues (by decide)

end ConfigPage

end Config
