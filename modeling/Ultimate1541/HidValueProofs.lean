import Ultimate1541.HidDecoderProofs

/-! # The value of an item in a report

    `getInputItem` tells where an item lies in a report; `getValueFromData` takes it out of
    the bytes that came over the bus.  An item within one byte is taken from that byte, any
    other from the four bytes at the one it begins in.  So the code reads up to two bytes
    that are no part of the item, and leaves one out when the item lies in five.

    `none` is a byte read behind the report.  `1 << 32` has no meaning in the language:
    `wide` stands for what the machine makes of it, and what is proved of a value is proved
    for each. -/

namespace HidDecoder

/-! ## The source -/

/-- `data[i]`. -/
def byteAt (data : List UInt8) (i : Int) : Option UInt8 :=
  if i < 0 then none else data[i.toNat]?

/-- `reportMatches`. -/
def reportMatches (data : List UInt8) (loc : ItemLocation) : Bool :=
  loc.report == 0 || data.head? == some loc.report

/-- `getRequiredBytes`. -/
def getRequiredBytes (loc : ItemLocation) : Int :=
  toInt32 (loc.offset + loc.length + 7) / 8

/-- `hasValue`. -/
def hasValue (data : List UInt8) (loc : ItemLocation) : Bool :=
  if data = [] then false
  else reportMatches data loc && decide (getRequiredBytes loc ≤ data.length)

/-- `1 << n`. -/
def oneShl (wide : BitVec 32) (n : Int) : BitVec 32 :=
  if 0 ≤ n ∧ n < 32 then 1#32 <<< n.toNat else wide

/-- The bits from where the item begins: of its byte, or of four. -/
def longerBits (data : List UInt8) (loc : ItemLocation) : Option (BitVec 32) :=
  let first := loc.offset / 8
  let last := toInt32 (loc.offset + loc.length - 1) / 8
  let shift := (loc.offset % 8).toNat
  if first = last then do
    let b ← byteAt data first
    return b.toBitVec.setWidth 32 >>> shift
  else do
    let b0 ← byteAt data first
    let b1 ← byteAt data (first + 1)
    let b2 ← byteAt data (first + 2)
    let b3 ← byteAt data (first + 3)
    return (b3.toBitVec ++ b2.toBitVec ++ b1.toBitVec ++ b0.toBitVec) >>> shift

/-- The mask, and the sign. -/
def maskValue (wide : BitVec 32) (loc : ItemLocation) (bits : BitVec 32) : Int :=
  let result := bits &&& (oneShl wide loc.length - 1#32)
  if loc.min < 0 then
    if result &&& oneShl wide (loc.length - 1) ≠ 0 then (result - oneShl wide loc.length).toInt
    else result.toInt
  else result.toInt

/-- `getValueFromData`. -/
def getValueFromData (wide : BitVec 32) (data : List UInt8) (loc : ItemLocation) : Option Int :=
  if hasValue data loc = true then (longerBits data loc).map (maskValue wide loc) else some 0

/-! ## What an item of a report is -/

/-- The report is the item's, and the item lies inside. -/
def InReport (data : List UInt8) (loc : ItemLocation) : Prop :=
  data ≠ [] ∧ reportMatches data loc = true ∧ loc.offset + loc.length ≤ 8 * data.length

/-- The bits of the item, the first one the lowest. -/
def field (data : List UInt8) (loc : ItemLocation) : Nat :=
  getValue data / 2 ^ loc.offset.toNat % 2 ^ loc.length.toNat

/-- What `n` bits stand for, in two's complement when the logical minimum is negative. -/
def signed (min : Int) (n : Nat) (bits : Nat) : Int :=
  if min < 0 ∧ 2 ^ (n - 1) ≤ bits then (bits : Int) - 2 ^ n else bits

/-- The value of the item. -/
def itemValue (data : List UInt8) (loc : ItemLocation) : Int :=
  signed loc.min loc.length.toNat (field data loc)

/-- The item is read from the report's bytes only, and its value is returned when it lies
    inside. -/
def Returned (data : List UInt8) (loc : ItemLocation) : Prop :=
  ∀ wide, ∃ v, getValueFromData wide data loc = some v ∧
    (InReport data loc → v = itemValue data loc)

/-- The place of an item of 1 to 32 bits, as an `int` holds it. -/
structure Located (loc : ItemLocation) : Prop where
  offset_nonneg : 0 ≤ loc.offset
  offset_lt : loc.offset < 2 ^ 31
  length_pos : 1 ≤ loc.length
  length_le : loc.length ≤ 32

/-- How many bytes are read. -/
def bytesRead (loc : ItemLocation) : Nat :=
  if loc.offset % 8 + loc.length ≤ 8 then 1 else 4

/-- The bits of the item in the fifth byte from the one it begins in. -/
def fifthBits (data : List UInt8) (loc : ItemLocation) : Nat :=
  (data.getD ((loc.offset / 8).toNat + 4) 0).toNat %
    2 ^ ((loc.offset % 8).toNat + loc.length.toNat - 32)

/-- What the code needs of an item it takes out: the bytes it reads are there, the bits of
    the item in a fifth byte are zero, and all of them are when there are 32. -/
def Reaches (data : List UInt8) (loc : ItemLocation) : Prop :=
  (loc.offset / 8).toNat + bytesRead loc ≤ data.length ∧
    (InReport data loc →
      fifthBits data loc = 0 ∧ (loc.length = 32 → field data loc = 0))

/-! ## Bytes and bits -/

theorem getValue_drop (data : List UInt8) (k : Nat) :
    getValue (data.drop k) = getValue data / 2 ^ (8 * k) := by
  induction k generalizing data with
  | zero => simp
  | succ k ih =>
      cases data with
      | nil => simp [getValue]
      | cons b data =>
          have hb : b.toNat < 2 ^ 8 := b.toNat_lt
          rw [List.drop_succ_cons, ih, Nat.mul_succ, Nat.add_comm, Nat.pow_add,
            ← Nat.div_div_eq_div_mul, getValue]
          congr 1
          omega

theorem getValue_take (data : List UInt8) (k : Nat) :
    getValue (data.take k) = getValue data % 2 ^ (8 * k) := by
  induction k generalizing data with
  | zero => simp [getValue, Nat.mod_one]
  | succ k ih =>
      cases data with
      | nil => simp [getValue]
      | cons b data =>
          have hb : b.toNat < 2 ^ 8 := b.toNat_lt
          rw [List.take_succ_cons, Nat.mul_succ, Nat.add_comm (8 * k), Nat.pow_add]
          simp only [getValue, ih]
          rw [Nat.mod_mul]
          congr 1
          · omega
          · congr 2
            omega

/-- The byte in front is the value but for what is behind it. -/
theorem getValue_mod (data : List UInt8) {k : Nat} (hk : k ≤ 8) :
    getValue data % 2 ^ k = (data.getD 0 0).toNat % 2 ^ k := by
  cases data with
  | nil => simp [getValue]
  | cons b data =>
      have h8 : (2 : Nat) ^ 8 = 2 ^ k * 2 ^ (8 - k) := by
        rw [← Nat.pow_add]
        congr 1
        omega
      rw [getValue, h8, Nat.mul_assoc, Nat.add_mul_mod_self_left]
      rfl

/-! ## What is read -/

theorem byteAt_add (data : List UInt8) (i k : Nat) :
    byteAt data ((i : Int) + k) = (data.drop i)[k]? := by
  rw [byteAt, if_neg (by omega), List.getElem?_drop, ← Int.natCast_add, Int.toNat_natCast]

/-- A byte put below some bits. -/
theorem toNat_append_byte {n : Nat} (x : BitVec n) (b : UInt8) :
    (x ++ b.toBitVec).toNat = b.toNat + 2 ^ 8 * x.toNat := by
  rw [BitVec.toNat_append, ← Nat.shiftLeft_add_eq_or_of_lt b.toBitVec.isLt, Nat.shiftLeft_eq,
    Nat.mul_comm, Nat.add_comm]
  rfl

/-- A shift of bits that stand for a number. -/
theorem ushiftRight_eq {x : BitVec 32} {a : Nat} (h : x.toNat = a) (k : Nat) :
    x >>> k = BitVec.ofNat 32 (a / 2 ^ k) := by
  have ha : a < 2 ^ 32 := h ▸ x.isLt
  apply BitVec.eq_of_toNat_eq
  rw [BitVec.toNat_ushiftRight, Nat.shiftRight_eq_div_pow, h, BitVec.toNat_ofNat,
    Nat.mod_eq_of_lt (Nat.lt_of_le_of_lt (Nat.div_le_self _ _) ha)]

theorem toInt32_of_lt {n : Int} (h0 : 0 ≤ n) (h : n < 2 ^ 31) : toInt32 n = n := by
  simp only [toInt32, Int.bmod]
  split <;> omega

theorem toInt32_of_ge {n : Int} (h0 : 2 ^ 31 ≤ n) (h : n < 2 ^ 32) : toInt32 n = n - 2 ^ 32 := by
  simp only [toInt32, Int.bmod]
  split <;> omega

/-- The code tells an item within a byte by the byte of its last bit. -/
theorem sameByte_iff {loc : ItemLocation} (hl : Located loc) :
    loc.offset / 8 = toInt32 (loc.offset + loc.length - 1) / 8 ↔
      loc.offset % 8 + loc.length ≤ 8 := by
  have h1 := hl.offset_nonneg
  have h2 := hl.offset_lt
  have h3 := hl.length_pos
  have h4 := hl.length_le
  by_cases h : loc.offset + loc.length - 1 < 2 ^ 31
  · rw [toInt32_of_lt (by omega) h]
    omega
  · rw [toInt32_of_ge (by omega) (by omega)]
    omega

/-- The bytes from the one the item begins in. -/
def window (data : List UInt8) (loc : ItemLocation) : List UInt8 :=
  (data.drop (loc.offset / 8).toNat).take (bytesRead loc)

/-- The bits are there when the bytes are, and are the bytes from the first bit on. -/
theorem longerBits_eq {data : List UInt8} {loc : ItemLocation} (hl : Located loc) :
    longerBits data loc =
      if (loc.offset / 8).toNat + bytesRead loc ≤ data.length then
        some (BitVec.ofNat 32 (getValue (window data loc) / 2 ^ (loc.offset % 8).toNat))
      else none := by
  have h1 := hl.offset_nonneg
  obtain ⟨first, hf⟩ : ∃ first : Nat, loc.offset / 8 = first :=
    ⟨(loc.offset / 8).toNat, by omega⟩
  have hlen : (data.drop first).length = data.length - first := List.length_drop
  have h0 : byteAt data first = (data.drop first)[0]? := byteAt_add data first 0
  have h1 : byteAt data (first + 1) = (data.drop first)[1]? := byteAt_add data first 1
  have h2 : byteAt data (first + 2) = (data.drop first)[2]? := byteAt_add data first 2
  have h3 : byteAt data (first + 3) = (data.drop first)[3]? := byteAt_add data first 3
  simp only [longerBits, window, bytesRead, hf, ← sameByte_iff hl, Int.toNat_natCast]
  by_cases hs : (first : Int) = toInt32 (loc.offset + loc.length - 1) / 8
  · simp only [if_pos hs, h0]
    match hd : data.drop first with
    | [] =>
        rw [hd] at hlen
        rw [if_neg (by simp at hlen; omega)]
        rfl
    | b :: rest =>
        rw [hd] at hlen
        rw [if_pos (by simp at hlen; omega)]
        have hb : b.toNat < 2 ^ 8 := b.toNat_lt
        refine congrArg some (ushiftRight_eq ?_ _)
        rw [BitVec.toNat_setWidth]
        simp only [List.take_succ_cons, List.take_zero, getValue, UInt8.toNat_toBitVec]
        omega
  · simp only [if_neg hs, h0, h1, h2, h3]
    match hd : data.drop first with
    | [] | [_] | [_, _] | [_, _, _] =>
        rw [hd] at hlen
        rw [if_neg (by simp at hlen; omega)]
        rfl
    | b0 :: b1 :: b2 :: b3 :: rest =>
        rw [hd] at hlen
        rw [if_pos (by simp at hlen; omega)]
        refine congrArg some (ushiftRight_eq ?_ _)
        rw [toNat_append_byte, toNat_append_byte, toNat_append_byte]
        simp only [List.take_succ_cons, List.take_zero, getValue, UInt8.toNat_toBitVec]
        omega

/-! ## What the bits read are -/

theorem bytesRead_le (loc : ItemLocation) : bytesRead loc ≤ 4 := by
  rw [bytesRead]
  split <;> omega

/-- The bits read are those of the report from the offset on, up to the last byte read. -/
theorem window_div {data : List UInt8} {loc : ItemLocation} (hl : Located loc) :
    getValue (window data loc) / 2 ^ (loc.offset % 8).toNat =
      getValue data / 2 ^ loc.offset.toNat %
        2 ^ (8 * bytesRead loc - (loc.offset % 8).toNat) := by
  have h0 := hl.offset_nonneg
  have hs : (loc.offset % 8).toNat < 8 := by omega
  have hr : 1 ≤ bytesRead loc := by
    rw [bytesRead]
    split <;> omega
  have ho : loc.offset.toNat = 8 * (loc.offset / 8).toNat + (loc.offset % 8).toNat := by omega
  have hw : 8 * bytesRead loc =
      (loc.offset % 8).toNat + (8 * bytesRead loc - (loc.offset % 8).toNat) := by omega
  rw [window, getValue_take, getValue_drop]
  conv_lhs => rw [hw, Nat.pow_add, Nat.mod_mul_right_div_self]
  rw [Nat.div_div_eq_div_mul, ← Nat.pow_add, ← ho]

/-- The bits read are the item's, but for those in a fifth byte. -/
theorem field_eq (data : List UInt8) {loc : ItemLocation} (hl : Located loc) :
    field data loc =
      getValue (window data loc) / 2 ^ (loc.offset % 8).toNat % 2 ^ loc.length.toNat +
        2 ^ (32 - (loc.offset % 8).toNat) * fifthBits data loc := by
  have h0 := hl.offset_nonneg
  have hs : (loc.offset % 8).toNat < 8 := by omega
  have hlen := hl.length_le
  have hpos := hl.length_pos
  rw [window_div hl, field, fifthBits]
  by_cases h : (loc.offset % 8).toNat + loc.length.toNat ≤ 32
  · have hk : (loc.offset % 8).toNat + loc.length.toNat - 32 = 0 := by omega
    rw [hk, Nat.pow_zero, Nat.mod_one, Nat.mul_zero, Nat.add_zero, Nat.mod_mod_of_dvd]
    refine Nat.pow_dvd_pow 2 ?_
    rw [bytesRead]
    split <;> omega
  · have hb : bytesRead loc = 4 := by
      rw [bytesRead, if_neg (by omega)]
    have hn : loc.length.toNat = (32 - (loc.offset % 8).toNat) +
        ((loc.offset % 8).toNat + loc.length.toNat - 32) := by omega
    have ho : loc.offset.toNat + (32 - (loc.offset % 8).toNat) =
        8 * ((loc.offset / 8).toNat + 4) := by omega
    have hd : (data.drop ((loc.offset / 8).toNat + 4)).getD 0 0 =
        data.getD ((loc.offset / 8).toNat + 4) 0 := by
      simp [List.getD_eq_getElem?_getD]
    rw [hb, Nat.mod_mod_of_dvd' (Nat.pow_dvd_pow 2 (by omega))]
    conv_lhs => rw [hn, Nat.pow_add, Nat.mod_mul, Nat.div_div_eq_div_mul, ← Nat.pow_add, ho,
      ← getValue_drop, getValue_mod _ (by omega), hd]

theorem signed_injective (min : Int) {n bits bits' : Nat} (h : bits < 2 ^ n) (h' : bits' < 2 ^ n)
    (heq : signed min n bits = signed min n bits') : bits = bits' := by
  simp only [signed] at heq
  have hc : ((2 ^ n : Nat) : Int) = 2 ^ n := by simp
  rw [← hc] at heq
  generalize 2 ^ n = top at *
  split at heq <;> split at heq <;> omega

theorem signed_zero (min : Int) (n : Nat) : signed min n 0 = 0 := by
  have h : ¬(2 ^ (n - 1) ≤ 0) := by simp
  simp [signed, h]

/-! ## The mask and the sign -/

theorem oneShl_toNat (wide : BitVec 32) {n : Nat} (hn : n < 32) :
    (oneShl wide n).toNat = 2 ^ n := by
  rw [oneShl, if_pos (by omega), Int.toNat_natCast]
  exact BitVec.toNat_twoPow_of_lt hn

/-- The mask of less than 32 bits leaves the lower ones. -/
theorem mask_toNat (wide bits : BitVec 32) {n : Nat} (hn : n < 32) :
    (bits &&& (oneShl wide n - 1#32)).toNat = bits.toNat % 2 ^ n := by
  have hone : (1#32) ≤ oneShl wide n := by
    rw [BitVec.le_def, oneShl_toNat wide hn]
    exact Nat.one_le_two_pow
  rw [BitVec.toNat_and, BitVec.toNat_sub_of_le hone, oneShl_toNat wide hn]
  exact Nat.and_two_pow_sub_one_eq_mod _ _

/-- The test of the upper bit. -/
theorem upperBit_iff (wide : BitVec 32) {result : BitVec 32} {n : Nat} (hn : n < 32)
    (h : result.toNat < 2 ^ (n + 1)) :
    result &&& oneShl wide n ≠ 0 ↔ 2 ^ n ≤ result.toNat := by
  have hs : oneShl wide n = BitVec.twoPow 32 n := by
    rw [oneShl, if_pos (by omega), Int.toNat_natCast, BitVec.twoPow_eq]
  have hp : (BitVec.twoPow 32 n) ≠ 0#32 := by
    intro h0
    have := congrArg BitVec.toNat h0
    rw [BitVec.toNat_twoPow_of_lt hn] at this
    exact absurd this (by simp)
  have hdiv : result.toNat / 2 ^ n < 2 := by
    rw [Nat.div_lt_iff_lt_mul (Nat.two_pow_pos n)]
    omega
  rw [hs, BitVec.and_twoPow, BitVec.getLsbD, Nat.testBit_eq_decide_div_mod_eq]
  constructor
  · intro hne
    by_contra hlt
    rw [Nat.div_eq_of_lt (by omega)] at hne
    exact hne (by simp)
  · intro hle
    have h1 : 1 ≤ result.toNat / 2 ^ n := by
      rw [Nat.le_div_iff_mul_le (Nat.two_pow_pos n)]
      omega
    rw [if_pos (by simp; omega)]
    exact hp

/-- What is returned of less than 32 bits is what they stand for. -/
theorem maskValue_eq {wide bits : BitVec 32} {loc : ItemLocation} (h1 : 1 ≤ loc.length)
    (h32 : loc.length < 32) :
    maskValue wide loc bits =
      signed loc.min loc.length.toNat (bits.toNat % 2 ^ loc.length.toNat) := by
  obtain ⟨n, hn⟩ : ∃ n : Nat, loc.length = (n : Int) + 1 := ⟨(loc.length - 1).toNat, by omega⟩
  have hn' : loc.length = ((n + 1 : Nat) : Int) := by omega
  have hn31 : n < 31 := by omega
  have hmask := mask_toNat wide bits (show n + 1 < 32 by omega)
  have htop := oneShl_toNat wide (show n + 1 < 32 by omega)
  have hlt : bits.toNat % 2 ^ (n + 1) < 2 ^ (n + 1) := Nat.mod_lt _ (Nat.two_pow_pos _)
  have hle : 2 ^ (n + 1) ≤ 2 ^ 31 := Nat.pow_le_pow_right (by omega) (by omega)
  have hsub : loc.length - 1 = (n : Int) := by omega
  simp only [maskValue, hsub]
  simp only [hn', signed, Int.toNat_natCast, Nat.add_sub_cancel]
  generalize hr : bits &&& (oneShl wide ((n + 1 : Nat) : Int) - 1#32) = result at hmask ⊢
  have hint : result.toInt = (bits.toNat % 2 ^ (n + 1) : Nat) := by
    rw [BitVec.toInt_eq_toNat_of_lt (by omega), hmask]
  have hbit := upperBit_iff wide (show n < 32 by omega) (show result.toNat < 2 ^ (n + 1) by omega)
  by_cases hmin : loc.min < 0
  · by_cases hup : 2 ^ n ≤ bits.toNat % 2 ^ (n + 1)
    · rw [if_pos hmin, if_pos (hbit.2 (by omega)), if_pos ⟨hmin, hup⟩,
        BitVec.toInt_eq_toNat_cond, BitVec.toNat_sub, htop, hmask]
      have hcast : ((2 ^ (n + 1) : Nat) : Int) = 2 ^ (n + 1) := by simp
      rw [← hcast]
      generalize 2 ^ (n + 1) = top at *
      rw [Nat.mod_eq_of_lt (by omega), if_neg (by omega)]
      omega
    · rw [if_pos hmin, if_neg (by rw [hbit]; omega), if_neg (by tauto), hint]
  · rw [if_neg hmin, if_neg (by tauto), hint]

/-- When `1 << 32` is one, as where shifts count modulo 32, no bit of 32 is left. -/
theorem maskValue_one {bits : BitVec 32} {loc : ItemLocation} (h : loc.length = 32) :
    maskValue 1#32 loc bits = 0 := by
  simp [maskValue, oneShl, h]

theorem maskValue_zero (wide : BitVec 32) (loc : ItemLocation) : maskValue wide loc 0#32 = 0 := by
  simp [maskValue]

/-! ## The value -/

theorem field_lt (data : List UInt8) (loc : ItemLocation) :
    field data loc < 2 ^ loc.length.toNat :=
  Nat.mod_lt _ (Nat.two_pow_pos _)

/-- An item inside the report is seen as one. -/
theorem InReport.hasValue {data : List UInt8} {loc : ItemLocation} (hl : Located loc)
    (h : InReport data loc) : hasValue data loc = true := by
  obtain ⟨hne, hm, hle⟩ := h
  have h1 := hl.offset_nonneg
  have h2 := hl.offset_lt
  have h3 := hl.length_pos
  have h4 := hl.length_le
  have hr : getRequiredBytes loc ≤ data.length := by
    rw [getRequiredBytes]
    by_cases h : loc.offset + loc.length + 7 < 2 ^ 31
    · rw [toInt32_of_lt (by omega) h]
      omega
    · rw [toInt32_of_ge (by omega) (by omega)]
      omega
  simp [HidDecoder.hasValue, hne, hm, hr]

theorem window_lt (data : List UInt8) (loc : ItemLocation) :
    getValue (window data loc) < 2 ^ 32 := by
  have h := bytesRead_le loc
  rw [window, getValue_take]
  exact Nat.lt_of_lt_of_le (Nat.mod_lt _ (Nat.two_pow_pos _))
    (Nat.pow_le_pow_right (by omega) (by omega))

/-- The bits that are read stand for the item when those they leave out are zero. -/
theorem maskValue_eq_itemValue_iff {data : List UInt8} {loc : ItemLocation} (hl : Located loc) :
    (∀ wide, maskValue wide loc
        (BitVec.ofNat 32 (getValue (window data loc) / 2 ^ (loc.offset % 8).toNat)) =
          itemValue data loc) ↔
      fifthBits data loc = 0 ∧ (loc.length = 32 → field data loc = 0) := by
  have hfield := field_eq data hl
  have hpos := hl.length_pos
  have hle := hl.length_le
  have hbits : getValue (window data loc) / 2 ^ (loc.offset % 8).toNat < 2 ^ 32 :=
    Nat.lt_of_le_of_lt (Nat.div_le_self _ _) (window_lt data loc)
  generalize getValue (window data loc) / 2 ^ (loc.offset % 8).toNat = bits at *
  have hfifth : fifthBits data loc = 0 ↔ bits % 2 ^ loc.length.toNat = field data loc := by
    rw [hfield, Nat.left_eq_add, Nat.mul_eq_zero]
    simp
  have hlow : bits % 2 ^ loc.length.toNat ≤ field data loc := by
    rw [hfield]
    exact Nat.le_add_right _ _
  by_cases h32 : loc.length = 32
  · rw [h32] at hfifth hlow
    constructor
    · intro h
      have hf : field data loc = 0 := by
        refine signed_injective loc.min (field_lt data loc) (Nat.two_pow_pos _) ?_
        rw [signed_zero]
        exact (h 1#32).symm.trans (maskValue_one h32)
      refine ⟨?_, fun _ => hf⟩
      rw [hfifth]
      omega
    · rintro ⟨h5, hf⟩ wide
      have hzero : bits = 0 := by
        rw [← Nat.mod_eq_of_lt hbits]
        exact (hfifth.1 h5).trans (hf h32)
      rw [hzero, itemValue, hf h32, signed_zero]
      exact maskValue_zero wide loc
  · have hb : (BitVec.ofNat 32 bits).toNat = bits := Nat.mod_eq_of_lt hbits
    have hmask (wide : BitVec 32) :
        maskValue wide loc (BitVec.ofNat 32 bits) =
          signed loc.min loc.length.toNat (bits % 2 ^ loc.length.toNat) := by
      rw [maskValue_eq hpos (by omega), hb]
    constructor
    · intro h
      refine ⟨hfifth.2 ?_, fun h => absurd h h32⟩
      exact signed_injective loc.min (Nat.mod_lt _ (Nat.two_pow_pos _)) (field_lt data loc)
        ((hmask 0#32).symm.trans (h 0#32))
    · rintro ⟨h5, -⟩ wide
      rw [hmask, hfifth.1 h5, itemValue]

/-- The value of an item of 1 to 32 bits is taken from the report's bytes, and is what it
    should be, just when its bytes reach as far as the code reads and the code reads as
    far as the item. -/
theorem getValueFromData_returned_iff (data : List UInt8) (loc : ItemLocation)
    (hl : Located loc) :
    Returned data loc ↔ (hasValue data loc = true → Reaches data loc) := by
  by_cases hv : hasValue data loc = true
  · simp only [Returned, getValueFromData, longerBits_eq hl, Reaches, hv, if_true,
      forall_const]
    by_cases hr : (loc.offset / 8).toNat + bytesRead loc ≤ data.length
    · simp only [hr, if_true, true_and, Option.map_some, Option.some.injEq, exists_eq_left']
      rw [← maskValue_eq_itemValue_iff hl]
      exact ⟨fun h hin wide => h wide hin, fun h wide hin => h hin wide⟩
    · simp [hr]
  · have hin : ¬InReport data loc := fun h => hv (h.hasValue hl)
    simp [Returned, getValueFromData, hv, hin]

/-- An item of twelve bits that ends with its report. -/
def lastItem : ItemLocation := ⟨0, 4, 12, 1, 0, 0xFFF, 0⟩

theorem getValueFromData_not_returned :
    ¬ ∀ (data : List UInt8) (loc : ItemLocation), Located loc → Returned data loc := by
  intro h
  obtain ⟨v, hv, -⟩ := h [0x12, 0x34] lastItem ⟨by decide, by decide, by decide, by decide⟩ 0#32
  rw [show getValueFromData 0#32 [0x12, 0x34] lastItem = none by decide] at hv
  cases hv

/-- The same item with two more bytes behind it. -/
theorem getValueFromData_returned_long : Returned [0x12, 0x34, 0x56, 0x78] lastItem := by
  refine (getValueFromData_returned_iff _ _ ⟨by decide, by decide, by decide, by decide⟩).2 ?_
  rintro -
  exact ⟨by decide, fun _ => ⟨by decide, by decide⟩⟩

end HidDecoder
