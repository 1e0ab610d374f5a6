import Ultimate1541.RecoveryAcceptProofs
import Ultimate1541.RecoveryStreamProofs

/-! # The update image in the memory of the board

    `load_image` of `recovery.c` streams an image through the reader of `RecoveryImage` and
    writes its records to the memory of the board, in blocks of 16384 bytes at most, each
    followed by eight zeros.  A block goes out when it is full, when the next record does
    not follow it, and in the end.

    In the end the memory is as if each record had been written with eight zeros behind it
    (`view_record`): what follows a record without a gap is written over them. -/

namespace RecoveryLoad

open RecoveryImage Recovery

/-- The memory of the board. -/
abbrev Memory := UInt32 → UInt8

/-- `vji_write_memory`: every byte, at consecutive addresses. -/
def store (m : Memory) (addr : UInt32) : List UInt8 → Memory
  | [] => m
  | b :: bs => store (fun a => if a = addr then b else m a) (addr + 1) bs

def blockSize : Nat := 16384

/-- The zeros behind a block (`BLOCK_PAD`). -/
def zeros : List UInt8 := List.replicate 8 0

/-- `image_load_t` without the reader, with the bytes in the block and the memory.  A block
    that is full has gone out. -/
structure Loader where
  addr : UInt32
  block : List UInt8
  memory : Memory
  room : block.length < blockSize

namespace Loader

/-- `flush_block`. -/
def flush (l : Loader) : Loader :=
  if l.block ≠ [] then ⟨l.addr, [], store l.memory l.addr (l.block ++ zeros), by decide⟩ else l

/-- Bytes are added to the block at `addr`, which goes out when it is full. -/
def put (l : Loader) (addr : UInt32) (data : List UInt8) : Loader :=
  if h : (l.block ++ data).length < blockSize then ⟨addr, l.block ++ data, l.memory, h⟩
  else ⟨addr, [], store l.memory addr (l.block ++ data ++ zeros), by decide⟩

/-- The loop of `write_memory`, `n` pieces at most. -/
def fill : Nat → Loader → UInt32 → List UInt8 → Loader
  | _, l, _, [] => l
  | 0, l, _, _ :: _ => l
  | n + 1, l, addr, b :: bs =>
      let now := min (blockSize - l.block.length) (b :: bs).length
      fill n (l.put (if l.block = [] then addr else l.addr) ((b :: bs).take now))
        (addr + UInt32.ofNat now) ((b :: bs).drop now)

end Loader

/-- `write_memory`: a piece takes one byte at least. -/
def writeMemory (l : Loader) (addr : UInt32) (data : List UInt8) : Bool × Loader :=
  let l := if l.block ≠ [] ∧ addr ≠ l.addr + UInt32.ofNat l.block.length then l.flush else l
  (true, l.fill data.length addr data)

/-- `image_sink`. -/
def imageSink (im : Image Loader) (_ : Nat) (data : List UInt8) : Bool × Image Loader :=
  match Image.feed writeMemory im data with
  | some (r, im) => (r = .ok, im)
  | none => (false, im)

def loadMin : UInt32 := 0x00010000

def loadMax : UInt32 := 0x04000000

/-- `U64MK2`. -/
def imageFamily : List UInt8 := [0x55, 0x36, 0x34, 0x4D, 0x4B, 0x32]

def bootMagicAddr : UInt32 := 0x0000FFF8

def bootMagic : UInt32 := 0x1571BABE

/-- A number as it is in memory. -/
def bytes32 (v : UInt32) : List UInt8 :=
  [v.toUInt8, (v >>> 8).toUInt8, (v >>> 16).toUInt8, (v >>> 24).toUInt8]

/-- `load_image`, when the file has a URL or not. -/
def loadImage (sha256 : List UInt8 → List UInt8) (hasUrl : Bool) (file : File) (run : Run)
    (m : Memory) : Option (Outcome × Memory) :=
  if hasUrl = false then some (.failImage, m)
  else
    match streamFile sha256 file imageSink run
        (init loadMin loadMax (some imageFamily) ⟨0, [], m, by decide⟩) with
    | none => none
    | some (false, im) => some (if run.cancelledAfter then .cancelled else .failImage, im.ctx.memory)
    | some (true, im) =>
        let memory := im.ctx.flush.memory
        match im.finish with
        | (.ok, some start) =>
            some (.done, store memory bootMagicAddr (bytes32 start ++ bytes32 bootMagic))
        | _ => some (if run.cancelledAfter then .cancelled else .failImage, memory)

/-! ## The memory -/

theorem store_append (m : Memory) (addr : UInt32) (xs ys : List UInt8) :
    store m addr (xs ++ ys) = store (store m addr xs) (addr + UInt32.ofNat xs.length) ys := by
  induction xs generalizing m addr with
  | nil => rw [List.nil_append, List.length_nil]; exact congrArg (store m · ys) (UInt32.add_zero _).symm
  | cons x xs ih =>
      rw [List.cons_append, store, store, ih, List.length_cons, Image.ofNat_succ, UInt32.add_assoc]

/-- What is stored is there, and nothing else changes. -/
theorem store_apply (m : Memory) (addr : UInt32) {data : List UInt8} (h : data.length ≤ 2 ^ 32)
    (a : UInt32) : store m addr data a = (data[(a - addr).toNat]?).getD (m a) := by
  induction data generalizing m addr with
  | nil => rfl
  | cons b bs ih =>
      have hlen : bs.length < 2 ^ 32 := h
      rw [store, ih _ _ (Nat.le_of_lt hlen)]
      by_cases ha : a = addr
      · -- The first byte: the others do not come round to it.
        have hback : (a - (addr + 1)).toNat = 2 ^ 32 - 1 := by
          rw [ha, show addr - (addr + 1) = 0xFFFFFFFF by grind]
          rfl
        have hzero : (a - addr).toNat = 0 := by rw [ha, UInt32.sub_self]; rfl
        rw [hback, hzero, List.getElem?_eq_none (by omega), if_pos ha]
        rfl
      · have hne : a - addr ≠ 0 := fun h0 => ha (by grind)
        have hpos : 0 < (a - addr).toNat := Nat.pos_of_ne_zero fun h0 => hne (UInt32.toNat_inj.mp h0)
        have hnext : (a - (addr + 1)).toNat = (a - addr).toNat - 1 := by
          rw [show a - (addr + 1) = a - addr - 1 by grind]
          exact Image.sub_one_toNat hne
        obtain ⟨d, hd⟩ : ∃ d, (a - addr).toNat = d + 1 := ⟨(a - addr).toNat - 1, by omega⟩
        rw [hnext, hd, Nat.add_sub_cancel, List.getElem?_cons_succ, if_neg ha]

/-- What is stored at once and as much or more after it at the same place. -/
theorem store_store (m : Memory) (addr : UInt32) {xs ys : List UInt8} (h : xs.length ≤ ys.length)
    (hy : ys.length ≤ 2 ^ 32) : store (store m addr xs) addr ys = store m addr ys := by
  funext a
  rw [store_apply _ _ hy, store_apply _ _ hy, store_apply _ _ (Nat.le_trans h hy)]
  by_cases hlt : (a - addr).toNat < ys.length
  · rw [List.getElem?_eq_getElem hlt, Option.getD_some, Option.getD_some]
  · rw [List.getElem?_eq_none (Nat.le_of_not_lt hlt),
      List.getElem?_eq_none (Nat.le_trans h (Nat.le_of_not_lt hlt))]
    rfl

/-! ## Blocks -/

namespace Loader

variable {l : Loader} {addr : UInt32} {data : List UInt8}

/-- Bytes at `addr` go into the block, which is empty or ends there. -/
def Continues (l : Loader) (addr : UInt32) : Prop :=
  l.block = [] ∨ addr = l.addr + UInt32.ofNat l.block.length

/-- Where the block starts when bytes at `addr` go into it. -/
def startOf (l : Loader) (addr : UInt32) : UInt32 := if l.block = [] then addr else l.addr

/-- The memory when what is in the block has gone out. -/
def view (l : Loader) : Memory := l.flush.memory

theorem flush_block (l : Loader) : l.flush.block = [] := by
  rw [flush]
  split
  · rfl
  next h => exact Classical.not_not.mp h

theorem flush_continues (l : Loader) (addr : UInt32) : l.flush.Continues addr := Or.inl l.flush_block

theorem view_flush (l : Loader) : l.flush.view = l.view :=
  congrArg Loader.memory (show l.flush.flush = l.flush from if_neg fun h => h l.flush_block)

theorem view_put (start : UInt32) (hne : data ≠ []) :
    (l.put start data).view = store l.memory start (l.block ++ data ++ zeros) := by
  rw [put]
  split
  · rw [view, flush, if_pos (by exact List.append_ne_nil_of_right_ne_nil _ hne)]
  · rfl

/-- What is added to the block is written with zeros behind it. -/
theorem view_put_eq (hc : l.Continues addr) (hne : data ≠ []) (hlen : data.length + 8 ≤ 2 ^ 32) :
    (l.put (l.startOf addr) data).view = store l.view addr (data ++ zeros) := by
  rw [view_put _ hne, startOf]
  by_cases hb : l.block = []
  · rw [if_pos hb, hb, List.nil_append, view, flush, if_neg (fun h => h hb)]
  · have haddr : addr = l.addr + UInt32.ofNat l.block.length := hc.resolve_left hb
    have hzeros : zeros.length ≤ (data ++ zeros).length := by
      rw [List.length_append]
      exact Nat.le_add_left _ _
    have hroom : (data ++ zeros).length ≤ 2 ^ 32 := by
      rw [List.length_append]
      exact hlen
    rw [if_neg hb, view, flush, if_pos hb]
    dsimp only
    rw [List.append_assoc, store_append _ _ l.block (data ++ zeros), store_append _ _ l.block zeros,
      ← haddr, store_store _ _ hzeros hroom]

theorem put_continues (hc : l.Continues addr) :
    (l.put (l.startOf addr) data).Continues (addr + UInt32.ofNat data.length) := by
  rw [put]
  split
  · right
    show addr + UInt32.ofNat data.length = l.startOf addr + UInt32.ofNat (l.block ++ data).length
    rw [startOf, List.length_append, UInt32.ofNat_add]
    by_cases hb : l.block = []
    · rw [if_pos hb, hb, List.length_nil]
      exact congrArg (addr + ·) (UInt32.zero_add _).symm
    · rw [if_neg hb, hc.resolve_left hb, UInt32.add_assoc]
  · exact Or.inl rfl

theorem fill_cons (n : Nat) (l : Loader) (addr : UInt32) {data : List UInt8} (hne : data ≠ []) :
    l.fill (n + 1) addr data =
      (l.put (l.startOf addr) (data.take (min (blockSize - l.block.length) data.length))).fill n
        (addr + UInt32.ofNat (min (blockSize - l.block.length) data.length))
        (data.drop (min (blockSize - l.block.length) data.length)) := by
  obtain ⟨b, bs, rfl⟩ := List.exists_cons_of_ne_nil hne
  rfl

theorem fill_nil (n : Nat) (l : Loader) (addr : UInt32) : l.fill n addr [] = l := by
  cases n <;> rfl

/-- A piece takes one byte at least, so there are enough pieces. -/
theorem fill_enough (n : Nat) : ∀ {m : Nat} {l : Loader} {addr : UInt32} {data : List UInt8},
    data.length ≤ n → data.length ≤ m → l.fill n addr data = l.fill m addr data := by
  induction n with
  | zero =>
      intro m l addr data hn _
      rw [List.eq_nil_of_length_eq_zero (Nat.le_zero.mp hn), fill_nil, fill_nil]
  | succ n ih =>
      intro m l addr data hn hm
      by_cases hne : data = []
      · rw [hne, fill_nil, fill_nil]
      · have hpos : 0 < data.length := List.length_pos_iff.mpr hne
        have hroom := l.room
        obtain ⟨k, rfl⟩ : ∃ k, m = k + 1 := ⟨m - 1, by omega⟩
        rw [fill_cons n l addr hne, fill_cons k l addr hne]
        refine ih ?_ ?_ <;> rw [List.length_drop] <;> omega

/-- The bytes of a piece are written with zeros behind them. -/
theorem view_fill (n : Nat) : ∀ {l : Loader} {addr : UInt32} {data : List UInt8},
    data.length ≤ n → l.Continues addr → data ≠ [] → data.length + 8 ≤ 2 ^ 32 →
      (l.fill n addr data).view = store l.view addr (data ++ zeros) := by
  induction n with
  | zero =>
      intro l addr data hn _ hne _
      exact absurd (List.eq_nil_of_length_eq_zero (Nat.le_zero.mp hn)) hne
  | succ n ih =>
      intro l addr data hn hc hne hlen
      have hpos : 0 < data.length := List.length_pos_iff.mpr hne
      have hroom := l.room
      rw [fill_cons n l addr hne]
      generalize hk : min (blockSize - l.block.length) data.length = k
      have hfirst : (data.take k).length = k := by
        rw [List.length_take]
        omega
      have hsome : data.take k ≠ [] := by
        rw [← List.length_pos_iff, hfirst]
        omega
      have hview := view_put_eq hc hsome (by rw [hfirst]; omega)
      by_cases hrest : data.drop k = []
      · have hall : data.take k = data := by
          rw [← List.take_append_drop k data, hrest, List.append_nil, List.take_take, Nat.min_self]
        rw [hrest, fill_nil, hview, hall]
      · have hnext := @put_continues _ _ (data.take k) hc
        rw [hfirst] at hnext
        rw [ih (by rw [List.length_drop]; omega) hnext hrest (by rw [List.length_drop]; omega), hview]
        -- The zeros behind the first bytes are written over by the others.
        have hzeros : zeros.length ≤ (data.drop k ++ zeros).length := by
          rw [List.length_append]
          exact Nat.le_add_left _ _
        have hsize : (data.drop k ++ zeros).length ≤ 2 ^ 32 := by
          rw [List.length_append, List.length_drop]
          show data.length - k + 8 ≤ 2 ^ 32
          omega
        rw [store_append _ _ (data.take k) zeros, hfirst, store_store _ _ hzeros hsize]
        have happend := store_append l.view addr (data.take k) (data.drop k ++ zeros)
        rw [hfirst, ← List.append_assoc, List.take_append_drop] at happend
        exact happend.symm

/-- Bytes one by one. -/
theorem fill_step (l : Loader) (addr : UInt32) (b : UInt8) {data : List UInt8} (hne : data ≠ []) :
    l.fill (b :: data).length addr (b :: data) =
      (l.put (l.startOf addr) [b]).fill data.length (addr + 1) data := by
  have hpos : 0 < data.length := List.length_pos_iff.mpr hne
  have hroom := l.room
  rw [List.length_cons, fill_cons data.length l addr (List.cons_ne_nil b data)]
  by_cases hlast : l.block.length + 1 = blockSize
  · have hone : min (blockSize - l.block.length) (b :: data).length = 1 := by
      rw [List.length_cons]
      omega
    rw [hone]
    rfl
  · have hmore : (l.block ++ [b]).length < blockSize := by
      rw [List.length_append, List.length_singleton]
      omega
    have hput : l.put (l.startOf addr) [b] = ⟨l.startOf addr, l.block ++ [b], l.memory, hmore⟩ :=
      dif_pos hmore
    generalize hk : min (blockSize - (l.block ++ [b]).length) data.length = k
    have hnow : min (blockSize - l.block.length) (b :: data).length = k + 1 := by
      rw [← hk, List.length_cons, List.length_append, List.length_singleton]
      omega
    have htogether : ∀ xs : List UInt8,
        (⟨l.startOf addr, l.block ++ [b], l.memory, hmore⟩ : Loader).put (l.startOf addr) xs
          = l.put (l.startOf addr) (b :: xs) := by
      intro xs
      have happend : l.block ++ [b] ++ xs = l.block ++ b :: xs := by
        rw [List.append_assoc]
        rfl
      rw [put, put]
      simp only [happend]
    obtain ⟨n, hn⟩ : ∃ n, data.length = n + 1 := ⟨data.length - 1, by omega⟩
    rw [hnow, hput, List.take_succ_cons, List.drop_succ_cons, Image.ofNat_succ, ← UInt32.add_assoc]
    conv_rhs => rw [hn, fill_cons n _ _ hne]
    dsimp only
    rw [hk]
    have hstart : (⟨l.startOf addr, l.block ++ [b], l.memory, hmore⟩ : Loader).startOf (addr + 1)
        = l.startOf addr :=
      if_neg (List.append_ne_nil_of_right_ne_nil _ (List.cons_ne_nil b []))
    rw [hstart, htogether]
    have hpart : 0 < k := by
      rw [List.length_append, List.length_singleton] at hk hmore
      omega
    refine fill_enough _ ?_ ?_ <;> rw [List.length_drop] <;> omega

/-- What is in the block goes out when the next bytes do not follow it. -/
def settled (l : Loader) (addr : UInt32) : Loader :=
  if l.block ≠ [] ∧ addr ≠ l.addr + UInt32.ofNat l.block.length then l.flush else l

theorem settled_continues (l : Loader) (addr : UInt32) : (l.settled addr).Continues addr := by
  rw [settled]
  split
  · exact l.flush_continues addr
  next h =>
    by_cases hb : l.block = []
    · exact Or.inl hb
    · exact Or.inr (Classical.not_not.mp fun hne => h ⟨hb, hne⟩)

theorem settled_of_continues (h : l.Continues addr) : l.settled addr = l :=
  if_neg fun hout => h.elim hout.1 hout.2

theorem view_settled (l : Loader) (addr : UInt32) : (l.settled addr).view = l.view := by
  rw [settled]
  split
  · exact l.view_flush
  · rfl

theorem fill_one (l : Loader) (addr : UInt32) (b : UInt8) :
    l.fill 1 addr [b] = l.put (l.startOf addr) [b] := by
  have hroom := l.room
  have hone : min (blockSize - l.block.length) [b].length = 1 := by
    rw [List.length_singleton]
    omega
  rw [fill_cons 0 l addr (List.cons_ne_nil b []), hone]
  rfl

end Loader

open Loader

/-- The callback takes everything, and a piece like its first byte and the rest. -/
theorem writeMemory_steady : Image.Steady writeMemory := by
  refine ⟨fun _ _ _ => rfl, fun l addr b data hne => ?_⟩
  have hnext := @put_continues _ _ [b] (l.settled_continues addr)
  rw [← fill_one] at hnext
  show (l.settled addr).fill (b :: data).length addr (b :: data)
    = (((l.settled addr).fill 1 addr [b]).settled (addr + 1)).fill data.length (addr + 1) data
  rw [@settled_of_continues _ (addr + 1) hnext, fill_one]
  exact fill_step _ addr b hne

theorem view_writeMemory (l : Loader) (addr : UInt32) {data : List UInt8} (hne : data ≠ [])
    (hlen : data.length + 8 ≤ 2 ^ 32) :
    (writeMemory l addr data).2.view = store l.view addr (data ++ zeros) := by
  show ((l.settled addr).fill data.length addr data).view = _
  rw [view_fill _ (Nat.le_refl _) (l.settled_continues addr) hne hlen, view_settled]

/-! ## Records in memory -/

/-- Records that are written one after the other, each with zeros behind it. -/
def written (m : Memory) (rs : List Record) : Memory :=
  rs.foldl (fun m r => if r.data = [] then m else store m r.load (r.data ++ zeros)) m

/-- The byte that a record has for an address. -/
def byteAt (r : Record) (a : UInt32) : Option UInt8 :=
  if r.load ≤ a then r.data[a.toNat - r.load.toNat]? else none

/-- The byte of the last record that has one. -/
def lastByte (rs : List Record) (a : UInt32) : Option UInt8 :=
  rs.foldl (fun found r => (byteAt r a).or found) none

/-- An address is one of the eight behind a record. -/
def Behind (r : Record) (a : UInt32) : Prop := ∃ j < 8, a = r.load + r.length + UInt32.ofNat j

/-- Behind no record there is, of the records before it, a byte that is not zero and that no
    record after it has. -/
def Safe (rs : List Record) : Prop :=
  ∀ before r later, rs = before ++ r :: later → r.data ≠ [] →
    ∀ a, Behind r a → lastByte later a = none → ∀ b, lastByte before a = some b → b = 0

/-- The record does not reach the end of the address space. -/
def Fits (r : Record) : Prop := r.load.toNat + r.data.length + 8 ≤ 2 ^ 32

variable {r : Record} {a : UInt32}

theorem toNat_sub_of_lt {a b : UInt32} (h : a < b) : (a - b).toNat = 2 ^ 32 + a.toNat - b.toNat := by
  have hlt := UInt32.lt_iff_toNat_lt.mp h
  have hb := b.toNat_lt
  rw [UInt32.toNat_sub]
  have hsum : 2 ^ 32 - b.toNat + a.toNat = 2 ^ 32 + a.toNat - b.toNat := by omega
  rw [hsum]
  exact Nat.mod_eq_of_lt (by omega)

/-- A record that fits has the bytes of a distance from its start. -/
theorem byteAt_eq (h : Fits r) (a : UInt32) : byteAt r a = r.data[(a - r.load).toNat]? := by
  rw [byteAt]
  split
  next hle => rw [UInt32.toNat_sub_of_le _ _ hle]
  next hgt =>
    have hlt : a < r.load := UInt32.not_le.mp hgt
    rw [toNat_sub_of_lt hlt, List.getElem?_eq_none]
    have hfit := h
    rw [Fits] at hfit
    omega

/-- The addresses behind a record that fits. -/
theorem behind_iff (h : Fits r) (a : UInt32) :
    Behind r a ↔ r.data.length ≤ (a - r.load).toNat ∧ (a - r.load).toNat < r.data.length + 8 := by
  have hfit := h
  rw [Fits] at hfit
  have hdata : r.data.length = r.length.toNat := r.length_data
  constructor
  · rintro ⟨j, hj, rfl⟩
    have hsub : r.load + r.length + UInt32.ofNat j - r.load = UInt32.ofNat (r.data.length + j) := by
      rw [hdata, UInt32.ofNat_add, UInt32.ofNat_toNat]
      grind
    rw [hsub, UInt32.toNat_ofNat', Nat.mod_eq_of_lt (by omega)]
    omega
  · rintro ⟨hlow, hhigh⟩
    refine ⟨(a - r.load).toNat - r.data.length, by omega, ?_⟩
    have hlen : r.length = UInt32.ofNat r.data.length := by rw [hdata, UInt32.ofNat_toNat]
    have hsum : UInt32.ofNat r.data.length + UInt32.ofNat ((a - r.load).toNat - r.data.length)
        = a - r.load := by
      rw [← UInt32.ofNat_add, Nat.add_sub_cancel' hlow, UInt32.ofNat_toNat]
    rw [hlen, UInt32.add_assoc, hsum]
    grind

theorem store_record (h : Fits r) (m : Memory) (a : UInt32) :
    store m r.load (r.data ++ zeros) a = ((r.data ++ zeros)[(a - r.load).toNat]?).getD (m a) := by
  refine store_apply m r.load ?_ a
  have hfit := h
  rw [Fits] at hfit
  rw [List.length_append]
  show r.data.length + 8 ≤ 2 ^ 32
  omega

theorem store_record_covered (h : Fits r) (m : Memory) {b : UInt8} (hb : byteAt r a = some b) :
    store m r.load (r.data ++ zeros) a = b := by
  rw [byteAt_eq h] at hb
  have hlt : (a - r.load).toNat < r.data.length := by
    by_contra hge
    rw [List.getElem?_eq_none (Nat.le_of_not_lt hge)] at hb
    exact nomatch hb
  rw [store_record h, List.getElem?_append_left hlt, hb, Option.getD_some]

theorem store_record_behind (h : Fits r) (m : Memory) (hb : Behind r a) :
    byteAt r a = none ∧ store m r.load (r.data ++ zeros) a = 0 := by
  obtain ⟨hlow, hhigh⟩ := (behind_iff h a).mp hb
  refine ⟨by rw [byteAt_eq h, List.getElem?_eq_none hlow], ?_⟩
  have hin : (a - r.load).toNat - r.data.length < 8 := by omega
  rw [store_record h, List.getElem?_append_right hlow, zeros, List.getElem?_replicate, if_pos hin,
    Option.getD_some]

theorem store_record_other (h : Fits r) (m : Memory) (hnone : byteAt r a = none)
    (hb : ¬ Behind r a) : store m r.load (r.data ++ zeros) a = m a := by
  rw [byteAt_eq h] at hnone
  have hge : r.data.length ≤ (a - r.load).toNat := List.getElem?_eq_none_iff.mp hnone
  have hlong : (r.data ++ zeros).length ≤ (a - r.load).toNat := by
    rw [List.length_append]
    show r.data.length + 8 ≤ _
    by_contra hlt
    exact hb ((behind_iff h a).mpr ⟨hge, by omega⟩)
  rw [store_record h, List.getElem?_eq_none hlong, Option.getD_none]

theorem lastByte_from (rs : List Record) (a : UInt32) (found : Option UInt8) :
    rs.foldl (fun found r => (byteAt r a).or found) found = (lastByte rs a).or found := by
  induction rs generalizing found with
  | nil => rfl
  | cons r rs ih =>
      rw [lastByte, List.foldl_cons, List.foldl_cons, ih, ih ((byteAt r a).or none), Option.or_assoc,
        Option.or_none]

theorem lastByte_append (xs ys : List Record) (a : UInt32) :
    lastByte (xs ++ ys) a = (lastByte ys a).or (lastByte xs a) := by
  rw [lastByte, List.foldl_append, lastByte_from, ← lastByte]

theorem lastByte_singleton (r : Record) (a : UInt32) : lastByte [r] a = byteAt r a :=
  Option.or_none

theorem byteAt_nil (h : r.data = []) (a : UInt32) : byteAt r a = none := by
  rw [byteAt, h]
  split <;> rfl

theorem written_append (m : Memory) (xs ys : List Record) :
    written m (xs ++ ys) = written (written m xs) ys := List.foldl_append

theorem written_singleton (m : Memory) (r : Record) :
    written m [r] = if r.data = [] then m else store m r.load (r.data ++ zeros) := rfl

/-- A zero stays when no record after it has a byte for its address. -/
theorem written_zero {rs : List Record} (hfit : ∀ r ∈ rs, r.data ≠ [] → Fits r) {m : Memory}
    (hnone : lastByte rs a = none) (hm : m a = 0) : written m rs a = 0 := by
  induction rs generalizing m with
  | nil => exact hm
  | cons r rs ih =>
      have hsplit := lastByte_append [r] rs a
      rw [List.singleton_append, hnone, lastByte_singleton] at hsplit
      obtain ⟨hrest, hr⟩ := Option.or_eq_none_iff.mp hsplit.symm
      refine ih (fun r' h' => hfit r' (List.mem_cons_of_mem _ h')) hrest ?_
      show (if r.data = [] then m else store m r.load (r.data ++ zeros)) a = 0
      split
      · exact hm
      next hne =>
        have hf := hfit r (List.mem_cons_self ..) hne
        by_cases hb : Behind r a
        · exact (store_record_behind hf m hb).2
        · rw [store_record_other hf m hr hb, hm]

/-- At every address there is the byte of the last record that has one, or a zero that was
    written behind a record after it. -/
theorem written_cases (rs : List Record) (hfit : ∀ r ∈ rs, r.data ≠ [] → Fits r) (m : Memory)
    (a : UInt32) :
    (∀ b, lastByte rs a = some b → written m rs a = b) ∨
      ∃ before r later, rs = before ++ r :: later ∧ r.data ≠ [] ∧ Behind r a ∧
        lastByte later a = none ∧ written m rs a = 0 := by
  induction rs using List.reverseRecOn with
  | nil => exact Or.inl nofun
  | append_singleton rs r ih =>
      have hrest := ih fun r' h' => hfit r' (List.mem_append_left _ h')
      rw [written_append, written_singleton]
      by_cases hne : r.data = []
      · -- The record has no data.
        have hnone := byteAt_nil hne a
        rw [if_pos hne]
        rcases hrest with hgood | ⟨before, r', later, rfl, hne', hb, hlater, hzero⟩
        · left
          intro b hb
          rw [lastByte_append, lastByte_singleton, hnone, Option.none_or] at hb
          exact hgood b hb
        · right
          refine ⟨before, r', later ++ [r], by rw [List.append_assoc]; rfl, hne', hb, ?_, hzero⟩
          rw [lastByte_append, lastByte_singleton, hnone, hlater]
          rfl
      · have hf := hfit r (List.mem_append_right _ (List.mem_singleton_self r)) hne
        rw [if_neg hne]
        by_cases hb : Behind r a
        · right
          exact ⟨rs, r, [], rfl, hne, hb, rfl, (store_record_behind hf _ hb).2⟩
        · cases hbyte : byteAt r a with
          | some b =>
              left
              intro b' hb'
              rw [lastByte_append, lastByte_singleton, hbyte, Option.some_or, Option.some.injEq] at hb'
              rw [← hb']
              exact store_record_covered hf _ hbyte
          | none =>
              rw [store_record_other hf _ hbyte hb]
              rcases hrest with hgood | ⟨before, r', later, rfl, hne', hb', hlater, hzero⟩
              · left
                intro b' hb'
                rw [lastByte_append, lastByte_singleton, hbyte, Option.none_or] at hb'
                exact hgood b' hb'
              · right
                refine ⟨before, r', later ++ [r], by rw [List.append_assoc]; rfl, hne', hb', ?_, hzero⟩
                rw [lastByte_append, lastByte_singleton, hbyte, hlater]
                rfl

/-- The memory is right exactly when the zeros do no harm. -/
theorem written_correct_iff {rs : List Record} (hfit : ∀ r ∈ rs, r.data ≠ [] → Fits r) (m : Memory) :
    (∀ a b, lastByte rs a = some b → written m rs a = b) ↔ Safe rs := by
  constructor
  · rintro hgood before r later rfl hne a hb hlater b hbefore
    have hmem : r ∈ before ++ r :: later := List.mem_append_right _ (List.mem_cons_self ..)
    have hf := hfit r hmem hne
    obtain ⟨hnone, hzero⟩ := store_record_behind hf (written m before) hb
    have hall : lastByte (before ++ r :: later) a = some b := by
      rw [lastByte_append, ← List.singleton_append, lastByte_append, hlater, lastByte_singleton, hnone,
        hbefore]
      rfl
    rw [← hgood a b hall, written_append, ← List.singleton_append, written_append, written_singleton,
      if_neg hne]
    exact written_zero (fun r' h' => hfit r' (List.mem_append_right _ (List.mem_cons_of_mem _ h')))
      hlater hzero
  · intro hsafe a b hlast
    rcases written_cases rs hfit m a with hgood | ⟨before, r, later, rfl, hne, hb, hlater, hzero⟩
    · exact hgood b hlast
    · have hmem : r ∈ before ++ r :: later := List.mem_append_right _ (List.mem_cons_self ..)
      have hnone := (store_record_behind (hfit r hmem hne) m hb).1
      rw [lastByte_append, ← List.singleton_append, lastByte_append, hlater, lastByte_singleton, hnone]
        at hlast
      rw [hzero, hsafe before r later rfl hne a hb hlater b hlast]

/-! ## The whole load -/

theorem loadRecords_view (rs : List Record) (hfit : ∀ r ∈ rs, r.data ≠ [] → Fits r)
    (im : Image Loader) :
    (Image.loadRecords writeMemory im rs).ctx.view = written im.ctx.view rs := by
  induction rs generalizing im with
  | nil => rfl
  | cons r rs ih =>
      rw [Image.loadRecords, List.foldl_cons, ← Image.loadRecords,
        ih (fun r' h' => hfit r' (List.mem_cons_of_mem _ h')), ← List.singleton_append,
        written_append, written_singleton]
      congr 1
      show (if r.data = [] then im.ctx else (writeMemory im.ctx r.load r.data).2).view = _
      split
      · rfl
      next hne =>
        have hf := hfit r (List.mem_cons_self ..) hne
        rw [Fits] at hf
        exact view_writeMemory _ _ hne (by omega)

/-- A record inside the window fits. -/
theorem fits_of_inside (hin : r.Inside loadMin loadMax) (hne : r.data ≠ []) : Fits r := by
  have hdata : r.data.length = r.length.toNat := r.length_data
  rcases hin with hz | ⟨-, hhigh⟩
  · rw [hz] at hdata
    exact absurd (List.eq_nil_of_length_eq_zero hdata) hne
  · have hmax : loadMax.toNat = 0x04000000 := rfl
    rw [Fits]
    omega

/-- Where the image may not be loaded the memory is as it was, and the block goes elsewhere. -/
structure Above (m : Memory) (l : Loader) : Prop where
  memory : ∀ a < loadMin, l.memory a = m a
  block : l.block ≠ [] → loadMin ≤ l.addr ∧ l.addr.toNat + l.block.length ≤ loadMax.toNat

theorem store_above (m : Memory) {addr : UInt32} {data : List UInt8} (hlow : loadMin ≤ addr)
    (hhigh : addr.toNat + data.length ≤ loadMax.toNat + 8) {a : UInt32} (ha : a < loadMin) :
    store m addr data a = m a := by
  have hmin := UInt32.le_iff_toNat_le.mp hlow
  have hlt := UInt32.lt_iff_toNat_lt.mp ha
  have hmax : loadMax.toNat = 0x04000000 := rfl
  have hfar : a < addr := UInt32.lt_iff_toNat_lt.mpr (by omega)
  rw [store_apply _ _ (by omega), toNat_sub_of_lt hfar, List.getElem?_eq_none (by omega),
    Option.getD_none]

theorem Above.flush {m : Memory} {l : Loader} (h : Above m l) : Above m l.flush := by
  rw [Loader.flush]
  split
  next hne =>
    obtain ⟨hlow, hhigh⟩ := h.block hne
    refine ⟨fun a ha => ?_, fun hnil => absurd rfl hnil⟩
    have hlen : l.addr.toNat + (l.block ++ zeros).length ≤ loadMax.toNat + 8 := by
      rw [List.length_append]
      show l.addr.toNat + (l.block.length + 8) ≤ _
      omega
    exact (store_above l.memory hlow hlen ha).trans (h.memory a ha)
  · exact h

/-- A byte inside the window. -/
theorem Above.writeMemory {m : Memory} {l : Loader} (h : Above m l) {addr : UInt32} (b : UInt8)
    (hlow : loadMin ≤ addr) (hhigh : addr < loadMax) :
    Above m (writeMemory l addr [b]).2 := by
  have hmax : loadMax.toNat = 0x04000000 := rfl
  have hhigh' := UInt32.lt_iff_toNat_lt.mp hhigh
  have hsettled : Above m (l.settled addr) := by
    rw [settled]
    split
    · exact h.flush
    · exact h
  have hcont := l.settled_continues addr
  show Above m ((l.settled addr).fill 1 addr [b])
  rw [fill_one]
  generalize l.settled addr = l' at hsettled hcont
  -- Where the block starts, and that it ends with the byte.
  have hstart : loadMin ≤ l'.startOf addr ∧
      (l'.startOf addr).toNat + (l'.block ++ [b]).length ≤ loadMax.toNat := by
    rw [startOf, List.length_append, List.length_singleton]
    by_cases hb : l'.block = []
    · rw [if_pos hb, hb]
      exact ⟨hlow, by show addr.toNat + (0 + 1) ≤ _; omega⟩
    · obtain ⟨hl, hh⟩ := hsettled.block hb
      have haddr : addr.toNat = l'.addr.toNat + l'.block.length := by
        have hroom := l'.room
        rw [hcont.resolve_left hb, UInt32.toNat_add, UInt32.toNat_ofNat']
        have hsmall : l'.block.length % 2 ^ 32 = l'.block.length := Nat.mod_eq_of_lt (by omega)
        rw [hsmall]
        exact Nat.mod_eq_of_lt (by omega)
      rw [if_neg hb]
      exact ⟨hl, by omega⟩
  rw [put]
  split
  · exact ⟨hsettled.memory, fun _ => hstart⟩
  · refine ⟨fun a ha => ?_, fun hnil => absurd rfl hnil⟩
    have hlen : (l'.startOf addr).toNat + (l'.block ++ [b] ++ zeros).length ≤ loadMax.toNat + 8 := by
      have hsum : (l'.block ++ [b] ++ zeros).length = (l'.block ++ [b]).length + 8 := List.length_append
      omega
    exact (store_above l'.memory hstart.1 hlen ha).trans (hsettled.memory a ha)

theorem above_log {m : Memory} {l : Loader} (h : Above m l) {log : List (UInt32 × UInt8)}
    (hlog : ∀ w ∈ log, loadMin ≤ w.1 ∧ w.1 < loadMax) :
    Above m (log.foldl (fun l w => (writeMemory l w.1 [w.2]).2) l) := by
  induction log generalizing l with
  | nil => exact h
  | cons w log ih =>
      obtain ⟨hlow, hhigh⟩ := hlog w (List.mem_cons_self ..)
      exact ih (h.writeMemory w.2 hlow hhigh) fun w' h' => hlog w' (List.mem_cons_of_mem _ h')

/-- The reader before the image. -/
def unread (m : Memory) : Image Loader := init loadMin loadMax (some imageFamily) ⟨0, [], m, by decide⟩

/-- However much of an image has been read, what is below the window is as it was. -/
theorem above_after (m : Memory) (data : List UInt8) :
    Above m ((unread m).after writeMemory data).ctx := by
  have hv := Image.valid_init loadMin loadMax (some imageFamily) ([] : List (UInt32 × UInt8))
  obtain ⟨added, hlog, hafter⟩ := Image.after_withCtx writeMemory_steady hv
    (⟨0, [], m, by decide⟩ : Loader) data
  have hinside : (init loadMin loadMax (some imageFamily) ([] : List (UInt32 × UInt8))).Contained :=
    ⟨nofun, nofun⟩
  have hwindow := (hinside.after hv data).written
  obtain ⟨hmin, hmax⟩ := Image.after_window Image.keep_steady hv data
  rw [hlog, hmin, hmax] at hwindow
  have hsame : unread m = (init loadMin loadMax (some imageFamily)
      ([] : List (UInt32 × UInt8))).withCtx (⟨0, [], m, by decide⟩ : Loader) := rfl
  have hstart : Above m (⟨0, [], m, by decide⟩ : Loader) :=
    ⟨fun _ _ => rfl, fun hne => absurd rfl hne⟩
  rw [hsame, hafter]
  exact above_log hstart hwindow

/-- A byte that a record has is inside the window. -/
theorem loadMin_le_of_lastByte {rs : List Record} (hin : ∀ r ∈ rs, r.Inside loadMin loadMax)
    {b : UInt8} (h : lastByte rs a = some b) : loadMin ≤ a := by
  induction rs using List.reverseRecOn with
  | nil => exact nomatch h
  | append_singleton rs r ih =>
      rw [lastByte_append, lastByte_singleton] at h
      cases hbyte : byteAt r a with
      | none =>
          rw [hbyte, Option.none_or] at h
          exact ih (fun r' h' => hin r' (List.mem_append_left _ h')) h
      | some b' =>
          have hle : r.load ≤ a := by
            by_contra hgt
            rw [byteAt, if_neg hgt] at hbyte
            exact nomatch hbyte
          rcases hin r (List.mem_append_right _ (List.mem_singleton_self r)) with hz | ⟨hlow, -⟩
          · have hnil : r.data = [] := List.eq_nil_of_length_eq_zero (by
              have hdata : r.data.length = r.length.toNat := r.length_data
              rw [hdata, hz]
              rfl)
            rw [byteAt_nil hnil] at hbyte
            exact nomatch hbyte
          · exact UInt32.le_trans hlow hle

/-- The boot magic is below the window. -/
theorem store_bootMagic (m : Memory) (start : UInt32) (h : loadMin ≤ a) :
    store m bootMagicAddr (bytes32 start ++ bytes32 bootMagic) a = m a := by
  have hmin : loadMin.toNat = 0x10000 := rfl
  have hmagic : bootMagicAddr.toNat = 0xFFF8 := rfl
  have hle := UInt32.le_iff_toNat_le.mp h
  have hbelow : bootMagicAddr ≤ a := UInt32.le_iff_toNat_le.mpr (by omega)
  have height : (bytes32 start ++ bytes32 bootMagic).length = 8 := rfl
  rw [store_apply _ _ (by omega), UInt32.toNat_sub_of_le _ _ hbelow, List.getElem?_eq_none (by omega),
    Option.getD_none]

theorem finish_of_ok {κ : Type} {im : Image κ} (h : im.finish.1 = .ok) :
    im.finish = (.ok, some im.start) := by
  rw [Image.finish] at h ⊢
  split at h
  · cases h
  · split at h
    · cases h
    · split at h
      · cases h
      · split at h
        · cases h
        · split at h
          · cases h
          · split at h
            · cases h
            next h₁ h₂ h₃ h₄ h₅ h₆ =>
              rw [if_neg h₁, if_neg h₂, if_neg h₃, if_neg h₄, if_neg h₅, if_neg h₆]

/-- Every load ends.  One that does not accept the image leaves the boot magic alone.  One
    that does has received the file of the manifest, which is an image, and each address
    that its records cover has the byte of the last of them that covers it, if and only if
    the zeros behind the records do no harm. -/
theorem load_image_correct_iff (sha256 : List UInt8 → List UInt8) (hasUrl : Bool) (file : File)
    (run : Run) (m : Memory) :
    ∃ outcome m', loadImage sha256 hasUrl file run m = some (outcome, m') ∧
      (outcome ≠ .done → ∀ a < loadMin, m' a = m a) ∧
      (outcome = .done → ∃ k front rs,
        Parts loadMin loadMax (some imageFamily) (received run k) front rs ∧
        (front = [] → ¬ Marked (received run k)) ∧
        (received run k).length = file.size.toNat ∧ sha256 (received run k) = file.sha256 ∧
        ((∀ a b, lastByte rs a = some b → m' a = b) ↔ Safe rs)) := by
  cases hasUrl with
  | false => exact ⟨.failImage, m, rfl, fun _ _ _ => rfl, nofun⟩
  | true =>
      have hv : (unread m).Valid := Image.valid_init loadMin loadMax (some imageFamily) _
      obtain ⟨ok, im, k, hstream, him, hle, hok⟩ := streamFile_spec sha256 file imageSink run
        (fun got im => im = (unread m).after writeMemory got)
        (fun got im data him _ _ => by
          rw [imageSink, him, Image.feed_eq writeMemory_steady (hv.after writeMemory_steady got),
            Image.after_append])
        (s := unread m) rfl
      have habove : Above m im.ctx := him ▸ above_after m (received run k)
      rw [unread] at hstream
      rw [loadImage, if_neg (by decide), hstream]
      cases ok with
      | false =>
          refine ⟨_, _, rfl, fun _ => habove.memory, fun hdone => ?_⟩
          split at hdone <;> exact nomatch hdone
      | true =>
          obtain ⟨hsize, hhash⟩ := hok rfl
          dsimp only
          by_cases hfinish : im.finish.1 = .ok
          · have hlen : (received run k).length < 12 * 2 ^ 32 := by
              have hmax := file.size.toNat_lt
              omega
            have haccept := hfinish
            rw [him] at haccept
            obtain ⟨front, rs, hparts, hun⟩ := (finish_ok_iff writeMemory_steady loadMin loadMax
              (some imageFamily) (⟨0, [], m, by decide⟩ : Loader) hlen).mp haccept
            obtain ⟨base, -, -, -, -, -, hctx, hafter⟩ := after_parts writeMemory_steady
              (⟨0, [], m, by decide⟩ : Loader) hparts hun
            have hfit : ∀ r ∈ rs, r.data ≠ [] → Fits r := fun r hr hne =>
              fits_of_inside (hparts.inside r hr) hne
            have hview : im.ctx.flush.memory = written m rs := by
              have hrecords := loadRecords_view rs hfit base
              rw [hctx, ← hafter, ← unread, ← him] at hrecords
              exact hrecords
            rw [finish_of_ok hfinish]
            refine ⟨_, _, rfl, fun h => absurd rfl h, fun _ =>
              ⟨k, front, rs, hparts, hun, hsize, hhash, ?_⟩⟩
            rw [← written_correct_iff hfit m, hview]
            refine forall_congr' fun a => forall_congr' fun b => imp_congr_right fun hb => ?_
            rw [store_bootMagic _ _ (loadMin_le_of_lastByte hparts.inside hb)]
          · refine ⟨if run.cancelledAfter then .cancelled else .failImage, im.ctx.flush.memory,
              ?_, fun _ => habove.flush.memory, ?_⟩
            · split
              next start heq =>
                rw [heq] at hfinish
                exact absurd rfl hfinish
              · rfl
            · intro hdone
              split at hdone <;> exact nomatch hdone

/-- A record of four bytes. -/
def laterInMemory : Record where
  head := [8, 0, 2, 0, 4, 0, 0, 0, 0, 0, 2, 0]
  data := [1, 2, 3, 4]
  padding := []
  length_head := rfl
  length_data := rfl
  length_padding := (Nat.mod_self 4).symm

/-- A record of eight bytes that ends where the other one starts. -/
def earlierInMemory : Record where
  head := [0, 0, 2, 0, 8, 0, 0, 0, 0, 0, 0, 0]
  data := [5, 5, 5, 5, 5, 5, 5, 5]
  padding := []
  length_head := rfl
  length_data := rfl
  length_padding := (Nat.mod_self 4).symm

/-- The two records in one piece. -/
def twoRecords : Run where
  opened := true
  read := fun i => if i = 0 then .bytes (laterInMemory.bytes ++ earlierInMemory.bytes) else .bytes []
  cancelled := fun _ => false
  cancelledAfter := false

/-- The zeros behind the second record are written over the first one. -/
theorem load_image_overwrites :
    Parts loadMin loadMax (some imageFamily) (received twoRecords 1) []
        [laterInMemory, earlierInMemory] ∧
      lastByte [laterInMemory, earlierInMemory] 0x00020008 = some 1 ∧
      ((loadImage (fun _ => []) true ⟨36, []⟩ twoRecords fun _ => 0).map
        fun r => (r.1, r.2 0x00020008)) = some (.done, 0) := by
  refine ⟨⟨rfl, Or.inl rfl, nofun, fun r hr => ?_, by decide, by decide⟩, rfl, by decide +kernel⟩
  rcases List.mem_cons.mp hr with rfl | hr
  · exact Or.inr ⟨by decide, by decide⟩
  · rw [List.mem_singleton.mp hr]
    exact Or.inr ⟨by decide, by decide⟩

end RecoveryLoad
