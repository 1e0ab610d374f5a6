import Mathlib

/-! # The values of a recovery manifest

    A signed manifest names the bitstream and the update image that a
    recovery may load.  It is a text of key=value lines; this module
    models what is done with one value (`parseHexBytes`, `parseIdcode`,
    `parseSize`, `copyName`, `copyFileName`, `parseValue`) and says what
    a value has to look like for a manifest to hold it (`Holds`).

    The two agree: a value is taken exactly when some manifest holds it
    under that key (`parseValue_iff`), and taking it leaves what the
    manifest holds under every other key. -/

namespace RecoveryManifest

/-! ## Characters -/

/-- The bytes of a text constant. -/
def ascii (s : List Char) : List UInt8 :=
  s.map fun c => UInt8.ofNat c.toNat

/-- The value of a hex digit; the source answers -1 for any other byte. -/
def hexDigit (c : UInt8) : Option Nat :=
  if 48 ≤ c ∧ c ≤ 57 then some (c.toNat - 48)
  else if 97 ≤ c ∧ c ≤ 102 then some (c.toNat - 97 + 10)
  else if 65 ≤ c ∧ c ≤ 70 then some (c.toNat - 65 + 10)
  else none

/-- A decimal digit. -/
def digit (c : UInt8) : Bool :=
  48 ≤ c && c ≤ 57

/-- The characters of a name. -/
def nameChar (c : UInt8) (allowSlash : Bool) : Bool :=
  (97 ≤ c && c ≤ 122) || (65 ≤ c && c ≤ 90) || (48 ≤ c && c ≤ 57) ||
    c = 46 || c = 95 || c = 45 || (allowSlash && c = 47)

/-- A byte that may stand in a line. -/
def printable (c : UInt8) : Bool :=
  0x20 ≤ c && c ≤ 0x7E

theorem hexDigit_lt {c : UInt8} {n : Nat} (h : hexDigit c = some n) : n < 16 := by
  have hc := c.toNat_lt
  simp only [hexDigit, UInt8.le_iff_toNat_le] at h
  split at h
  · rename_i h1
    obtain ⟨_, h2⟩ := h1
    have : c.toNat ≤ 57 := h2
    injection h with h
    omega
  · split at h
    · rename_i h1
      have : c.toNat ≤ 102 := h1.2
      injection h with h
      omega
    · split at h
      · rename_i h1
        have : c.toNat ≤ 70 := h1.2
        injection h with h
        omega
      · exact nomatch h

/-- No name holds a slash. -/
theorem nameChar_slash : nameChar 47 false = false := by decide

/-! ## Hex -/

/-- The two digit values of a byte. -/
def nibbles (b : UInt8) : List (Option Nat) :=
  [some (b.toNat / 16), some (b.toNat % 16)]

/-- `v` is the hex text of the bytes. -/
def HexOf (v bytes : List UInt8) : Prop :=
  v.map hexDigit = bytes.flatMap nibbles

/-- The digits of `bytes` bytes, a pair each. -/
def hexBytes : Nat → List UInt8 → Option (List UInt8)
  | 0, _ => some []
  | n + 1, c :: d :: v => do
      let hi ← hexDigit c
      let lo ← hexDigit d
      let rest ← hexBytes n v
      return UInt8.ofNat (hi <<< 4 ||| lo) :: rest
  | _ + 1, _ => none

/-- `bytes` bytes in hex. -/
def parseHexBytes (v : List UInt8) (bytes : Nat) : Option (List UInt8) :=
  if v.length ≠ 2 * bytes then none else hexBytes bytes v

/-- The byte of two digits is the byte with these digits. -/
theorem byte_of_digits {hi lo : Nat} (hhi : hi < 16) (hlo : lo < 16) (b : UInt8) :
    UInt8.ofNat (hi <<< 4 ||| lo) = b ↔ hi = b.toNat / 16 ∧ lo = b.toNat % 16 := by
  have hor : hi <<< 4 ||| lo = hi * 16 + lo := by
    rw [← Nat.shiftLeft_add_eq_or_of_lt (by omega : lo < 2 ^ 4), Nat.shiftLeft_eq]
  have hb := b.toNat_lt
  rw [hor, ← UInt8.toNat_inj, UInt8.toNat_ofNat']
  constructor
  · intro h
    omega
  · intro h
    omega

theorem hexBytes_iff (n : Nat) (v : List UInt8) (hv : v.length = 2 * n) (bs : List UInt8) :
    hexBytes n v = some bs ↔ bs.length = n ∧ HexOf v bs := by
  induction n generalizing v bs with
  | zero =>
      have hnil : v = [] := List.length_eq_zero_iff.mp hv
      subst hnil
      constructor
      · intro h
        injection h with h
        subst h
        exact ⟨rfl, rfl⟩
      · rintro ⟨h, _⟩
        rw [List.length_eq_zero_iff.mp h]
        rfl
  | succ n ih =>
      match v, hv with
      | c :: d :: v, hv =>
        have hlen : v.length = 2 * n := by
          simp only [List.length_cons] at hv
          omega
        constructor
        · intro h
          -- both digits are there, and so is the rest
          simp only [hexBytes, Option.bind_eq_bind, Option.bind_eq_some_iff, Option.pure_def] at h
          obtain ⟨hi, hc, lo, hd, rest, hrest, h⟩ := h
          obtain ⟨hl, hhex⟩ := (ih v hlen rest).mp hrest
          injection h with h
          subst h
          have hb := (byte_of_digits (hexDigit_lt hc) (hexDigit_lt hd) _).mp rfl
          refine ⟨by rw [List.length_cons, hl], ?_⟩
          show hexDigit c :: hexDigit d :: v.map hexDigit = nibbles _ ++ rest.flatMap nibbles
          rw [hc, hd, hhex, nibbles, ← hb.1, ← hb.2]
          rfl
        · rintro ⟨hl, hhex⟩
          match bs, hl with
          | b :: bs, hl =>
            have hl' : bs.length = n := Nat.succ.inj hl
            have hcons : hexDigit c = some (b.toNat / 16) ∧ hexDigit d = some (b.toNat % 16)
                ∧ v.map hexDigit = bs.flatMap nibbles := by
              have h : hexDigit c :: hexDigit d :: v.map hexDigit
                  = some (b.toNat / 16) :: some (b.toNat % 16) :: bs.flatMap nibbles := hhex
              injection h with h1 h2
              injection h2 with h2 h3
              exact ⟨h1, h2, h3⟩
            obtain ⟨hc, hd, hrest⟩ := hcons
            have hb := (byte_of_digits (hexDigit_lt hc) (hexDigit_lt hd) b).mpr ⟨rfl, rfl⟩
            rw [hexBytes, hc, hd, (ih v hlen bs).mpr ⟨hl', hrest⟩]
            simp only [Option.bind_eq_bind, Option.bind_some, Option.pure_def, hb]

/-- Hex text of the wrong length is hex text of nothing. -/
theorem HexOf.length {v bs : List UInt8} (h : HexOf v bs) : v.length = 2 * bs.length := by
  have hlen : (v.map hexDigit).length = (bs.flatMap nibbles).length := by rw [h]
  rw [List.length_map, List.length_flatMap] at hlen
  have hsum : (bs.map fun b => (nibbles b).length).sum = 2 * bs.length := by
    induction bs with
    | nil => rfl
    | cons b bs ih =>
        simp only [List.map_cons, List.sum_cons, List.length_cons] at ih ⊢
        simp [nibbles]
        omega
  rw [hlen, hsum]

theorem parseHexBytes_iff (v : List UInt8) (n : Nat) (bs : List UInt8) :
    parseHexBytes v n = some bs ↔ bs.length = n ∧ HexOf v bs := by
  by_cases hv : v.length = 2 * n
  · rw [parseHexBytes, if_neg (not_not.mpr hv)]
    exact hexBytes_iff n v hv bs
  · rw [parseHexBytes, if_pos hv]
    constructor
    · intro h
      exact nomatch h
    · rintro ⟨hl, hhex⟩
      exact absurd (hl ▸ hhex.length) hv

/-- The four bytes of a number, the highest first. -/
def bigEndian (w : UInt32) : List UInt8 :=
  [(w >>> 24).toUInt8, (w >>> 16).toUInt8, (w >>> 8).toUInt8, w.toUInt8]

/-- The board's IDCODE. -/
def parseIdcode (v : List UInt8) : Option UInt32 :=
  match parseHexBytes v 4 with
  | some [b0, b1, b2, b3] =>
      some (b0.toUInt32 <<< 24 ||| b1.toUInt32 <<< 16 ||| b2.toUInt32 <<< 8 ||| b3.toUInt32)
  | _ => none

/-- The number put together from four bytes has these bytes. -/
theorem bigEndian_join (b0 b1 b2 b3 : UInt8) :
    bigEndian (b0.toUInt32 <<< 24 ||| b1.toUInt32 <<< 16 ||| b2.toUInt32 <<< 8 ||| b3.toUInt32)
      = [b0, b1, b2, b3] := by
  simp only [bigEndian, List.cons.injEq, and_true]
  refine ⟨?_, ?_, ?_, ?_⟩
  all_goals refine UInt8.toBitVec_inj.mp (BitVec.eq_of_getLsbD_eq fun i hi => ?_)
  all_goals simp [hi]
  all_goals grind

/-- The four bytes are the whole number. -/
theorem bigEndian_inj {w u : UInt32} (h : bigEndian w = bigEndian u) : w = u := by
  simp only [bigEndian, List.cons.injEq, and_true, ← UInt8.toNat_inj, UInt32.toNat_toUInt8,
    UInt32.toNat_shiftRight, UInt32.reduceToNat, Nat.reduceMod, Nat.shiftRight_eq_div_pow] at h
  have hw := w.toNat_lt
  have hu := u.toNat_lt
  refine UInt32.toNat_inj.mp ?_
  omega

theorem parseIdcode_iff (v : List UInt8) (w : UInt32) :
    parseIdcode v = some w ↔ HexOf v (bigEndian w) := by
  have hiff := parseHexBytes_iff v 4
  constructor
  · intro h
    simp only [parseIdcode] at h
    split at h
    · rename_i b0 b1 b2 b3 hb
      injection h with h
      rw [← h, bigEndian_join]
      exact ((hiff _).mp hb).2
    · exact nomatch h
  · intro h
    have hb := (hiff _).mpr ⟨rfl, h⟩
    rw [parseIdcode, hb]
    exact congrArg some (bigEndian_inj (bigEndian_join _ _ _ _))

/-! ## Sizes -/

/-- The digits are read from the left; at most ten of them, so the
    64-bit counter of the source never wraps. -/
def sizeLoop : List UInt8 → Nat → Option Nat
  | [], n => some n
  | c :: v, n => if digit c then sizeLoop v (n * 10 + (c.toNat - 48)) else none

/-- The size of a file. -/
def parseSize (v : List UInt8) : Option UInt32 :=
  if v.length = 0 ∨ v.length > 10 then none
  else match sizeLoop v 0 with
    | none => none
    | some n => if n = 0 ∨ n > 0xFFFFFFFF then none else some (UInt32.ofNat n)

/-- `v` is the decimal text of the number, leading zeros allowed. -/
def DecimalOf (v : List UInt8) (n : Nat) : Prop :=
  (∀ c ∈ v, digit c = true) ∧ n = Nat.ofDigits 10 (v.reverse.map fun c => c.toNat - 48)

theorem sizeLoop_iff (v : List UInt8) (n k : Nat) :
    sizeLoop v n = some k ↔ (∀ c ∈ v, digit c = true)
      ∧ k = Nat.ofDigits 10 (v.reverse.map fun c => c.toNat - 48) + 10 ^ v.length * n := by
  induction v generalizing n with
  | nil =>
      simp only [sizeLoop, Option.some.injEq, List.reverse_nil, List.map_nil, Nat.ofDigits_nil,
        List.length_nil, Nat.pow_zero, Nat.one_mul, Nat.zero_add]
      constructor
      · intro h
        exact ⟨fun c hc => (List.not_mem_nil hc).elim, h.symm⟩
      · rintro ⟨_, h⟩
        exact h.symm
  | cons c v ih =>
      by_cases hc : digit c = true
      · -- the new digit counts for what stands to its right
        have hval : Nat.ofDigits 10 (v.reverse.map fun c => c.toNat - 48)
              + 10 ^ v.length * (n * 10 + (c.toNat - 48))
            = Nat.ofDigits 10 ((c :: v).reverse.map fun c => c.toNat - 48)
              + 10 ^ (c :: v).length * n := by
          simp only [List.reverse_cons, List.map_append, Nat.ofDigits_append, List.map_cons,
            List.map_nil, Nat.ofDigits_singleton, List.length_map, List.length_reverse,
            List.length_cons]
          ring
        rw [sizeLoop, if_pos hc, ih, hval]
        simp [hc]
      · rw [sizeLoop, if_neg hc]
        simp [hc]

theorem parseSize_iff (v : List UInt8) (s : UInt32) :
    parseSize v = some s ↔ v ≠ [] ∧ v.length ≤ 10 ∧ s ≠ 0 ∧ DecimalOf v s.toNat := by
  have hs := s.toNat_lt
  have hloop := sizeLoop_iff v 0
  simp only [Nat.mul_zero, Nat.add_zero] at hloop
  constructor
  · intro h
    simp only [parseSize] at h
    split at h
    · exact nomatch h
    · rename_i hlen
      split at h
      · exact nomatch h
      · rename_i n hn
        split at h
        · exact nomatch h
        · rename_i hbig
          injection h with h
          have htoNat : s.toNat = n := by
            rw [← h, UInt32.toNat_ofNat']
            omega
          refine ⟨?_, by omega, ?_, htoNat ▸ (hloop n).mp hn⟩
          · rintro rfl
            exact hlen (Or.inl rfl)
          · rintro rfl
            exact hbig (Or.inl htoNat.symm)
  · rintro ⟨hne, hlen, hpos, hdec⟩
    have hn : s.toNat ≠ 0 := fun h0 => hpos (UInt32.toNat_inj.mp h0)
    have hl : v.length ≠ 0 := fun h0 => hne (List.length_eq_zero_iff.mp h0)
    have hlong : ¬(v.length = 0 ∨ v.length > 10) := by omega
    have hbig : ¬(s.toNat = 0 ∨ s.toNat > 0xFFFFFFFF) := by omega
    rw [parseSize, if_neg hlong, (hloop s.toNat).mpr hdec]
    show (if _ then _ else _) = _
    rw [if_neg hbig, UInt32.ofNat_toNat]

/-! ## Names -/

/-- RECOVERY_NAME_MAX, and RECOVERY_SERIAL_PATTERN_MAX alike. -/
def nameMax : Nat := 63

/-- The name of the package. -/
def copyName (v : List UInt8) : Option (List UInt8) :=
  if v.length = 0 ∨ v.length > nameMax then none
  else if v.all (nameChar · false) then some v else none

/-- A segment of a path that would step outside, or nowhere. -/
def badSegment (seg : List UInt8) : Bool :=
  seg.length = 0 || seg = [46] || seg = [46, 46]

/-- The bytes of the file name in turn; `seg` is what stands between
    the last slash and here. -/
def fileNameLoop : List UInt8 → List UInt8 → Bool
  | seg, [] => !badSegment seg
  | seg, c :: v =>
      if c = 47 then !badSegment seg && fileNameLoop [] v
      else nameChar c false && fileNameLoop (seg ++ [c]) v

/-- The path of a file, below the manifest's own location. -/
def copyFileName (v : List UInt8) : Option (List UInt8) :=
  if v.length = 0 ∨ v.length > nameMax then none
  else if fileNameLoop [] v then some v else none

/-- What a segment of a file name must be. -/
structure Segment (seg : List UInt8) : Prop where
  chars : ∀ c ∈ seg, nameChar c false = true
  filled : seg ≠ []
  notDot : seg ≠ [46]
  notDotDot : seg ≠ [46, 46]

/-- A file name: every segment between two slashes is one. -/
def FileName (v : List UInt8) : Prop :=
  ∀ seg ∈ v.splitOn 47, Segment seg

theorem badSegment_iff (seg : List UInt8) :
    badSegment seg = false ↔ seg ≠ [] ∧ seg ≠ [46] ∧ seg ≠ [46, 46] := by
  simp [badSegment, and_assoc]

/-- No segment holds a slash. -/
theorem slash_not_mem {seg : List UInt8} (h : ∀ c ∈ seg, nameChar c false = true) :
    47 ∉ seg := by
  intro hmem
  have hname := h 47 hmem
  rw [nameChar_slash] at hname
  exact nomatch hname

/-- What the loop checks at a slash. -/
theorem badSegment_eq_false {seg : List UInt8} (hseg : ∀ c ∈ seg, nameChar c false = true) :
    badSegment seg = false ↔ Segment seg := by
  rw [badSegment_iff]
  exact ⟨fun h => ⟨hseg, h.1, h.2.1, h.2.2⟩, fun h => ⟨h.filled, h.notDot, h.notDotDot⟩⟩

/-- Every other byte is in one of the segments. -/
theorem mem_segment {v : List UInt8} {c : UInt8} (h : c ∈ v) (hc : c ≠ 47) :
    ∃ seg ∈ v.splitOn 47, c ∈ seg := by
  induction v with
  | nil => exact (List.not_mem_nil h).elim
  | cons d v ih =>
      obtain ⟨first, rest, hsplit⟩ := List.exists_cons_of_ne_nil (List.splitOn_ne_nil 47 v)
      rw [hsplit] at ih
      rw [List.splitOn_cons_eq_if_modifyHead, hsplit]
      by_cases hd : d = 47
      · -- the slash itself is not the byte asked for
        have hv : c ∈ v := by
          rcases List.mem_cons.mp h with heq | hv
          · exact absurd (heq.trans hd) hc
          · exact hv
        obtain ⟨seg, hseg, hmem⟩ := ih hv
        exact ⟨seg, by simp [hd, hseg], hmem⟩
      · rw [if_neg (by simpa using hd)]
        rcases List.mem_cons.mp h with rfl | hv
        · exact ⟨c :: first, by simp, by simp⟩
        · obtain ⟨seg, hseg, hmem⟩ := ih hv
          rcases List.mem_cons.mp hseg with rfl | hseg
          · exact ⟨d :: seg, by simp, List.mem_cons_of_mem d hmem⟩
          · exact ⟨seg, by simp [hseg], hmem⟩

/-- What was read since the last slash begins the next segment. -/
theorem fileNameLoop_iff (v seg : List UInt8) (hseg : ∀ c ∈ seg, nameChar c false = true) :
    fileNameLoop seg v = true ↔ FileName (seg ++ v) := by
  induction v generalizing seg with
  | nil =>
      rw [List.append_nil, FileName, List.splitOn_eq_singleton (slash_not_mem hseg)]
      simp [fileNameLoop, badSegment_eq_false hseg]
  | cons c v ih =>
      by_cases hc : c = 47
      · -- a slash ends the segment, and the next one is empty so far
        subst hc
        have hnil := ih [] (by simp)
        rw [FileName, List.splitOn_append_cons_self_of_not_mem (slash_not_mem hseg)]
        simp [fileNameLoop, badSegment_eq_false hseg, hnil, FileName]
      · rw [fileNameLoop, if_neg hc]
        by_cases hname : nameChar c false = true
        · have hseg' : ∀ d ∈ seg ++ [c], nameChar d false = true := by
            intro d hd
            rcases List.mem_append.mp hd with hd | hd
            · exact hseg d hd
            · exact List.mem_singleton.mp hd ▸ hname
          rw [hname, Bool.true_and, ih (seg ++ [c]) hseg', List.append_assoc]
          rfl
        · -- the byte is in a segment, and no segment takes it
          have hfalse : nameChar c false = false := by simpa using hname
          rw [hfalse, Bool.false_and]
          refine ⟨(fun h => nomatch h), fun h => ?_⟩
          obtain ⟨s, hs, hmem⟩ := mem_segment (v := seg ++ c :: v) (by simp) hc
          exact absurd ((h s hs).chars c hmem) hname

/-- A name: not empty, and not too long. -/
def Fits (v : List UInt8) : Prop :=
  v ≠ [] ∧ v.length ≤ nameMax

theorem not_fits (v : List UInt8) : (v.length = 0 ∨ v.length > nameMax) ↔ ¬Fits v := by
  rw [Fits, not_and_or, not_not, Nat.not_le, List.length_eq_zero_iff]

theorem copyName_iff (v w : List UInt8) :
    copyName v = some w ↔ w = v ∧ Fits v ∧ ∀ c ∈ v, nameChar c false = true := by
  rw [copyName]
  by_cases hfit : Fits v
  · rw [if_neg (fun h => (not_fits v).mp h hfit)]
    by_cases hall : v.all (nameChar · false) = true
    · rw [if_pos hall]
      rw [List.all_eq_true] at hall
      exact ⟨fun h => ⟨(Option.some.inj h).symm, hfit, hall⟩, fun h => congrArg some h.1.symm⟩
    · rw [if_neg hall]
      rw [List.all_eq_true] at hall
      exact ⟨(fun h => nomatch h), fun h => absurd h.2.2 hall⟩
  · rw [if_pos ((not_fits v).mpr hfit)]
    exact ⟨(fun h => nomatch h), fun h => absurd h.2.1 hfit⟩

theorem copyFileName_iff (v w : List UInt8) :
    copyFileName v = some w ↔ w = v ∧ Fits v ∧ FileName v := by
  have hloop : fileNameLoop [] v = true ↔ FileName v := fileNameLoop_iff v [] (by simp)
  rw [copyFileName]
  by_cases hfit : Fits v
  · rw [if_neg (fun h => (not_fits v).mp h hfit)]
    by_cases hname : fileNameLoop [] v = true
    · rw [if_pos hname]
      exact ⟨fun h => ⟨(Option.some.inj h).symm, hfit, hloop.mp hname⟩,
        fun h => congrArg some h.1.symm⟩
    · rw [if_neg hname]
      exact ⟨(fun h => nomatch h), fun h => absurd (hloop.mpr h.2.2) hname⟩
  · rw [if_pos ((not_fits v).mpr hfit)]
    exact ⟨(fun h => nomatch h), fun h => absurd h.2.1 hfit⟩

/-! ## The manifest and its keys -/

/-- One file of the manifest.  A text field of the source is a buffer
    that is cleared first and holds the text with a NUL behind it; here
    it is the text. -/
structure File where
  name : List UInt8
  size : UInt32
  sha256 : List UInt8
deriving DecidableEq

structure Manifest where
  package : List UInt8
  idcode : UInt32
  serial : List UInt8
  fpga : File
  image : File
deriving DecidableEq

/-- The cleared file. -/
def File.zero : File where
  name := []
  size := 0
  sha256 := List.replicate 32 0

/-- The cleared manifest. -/
def Manifest.zero : Manifest where
  package := []
  idcode := 0
  serial := []
  fpga := File.zero
  image := File.zero

/-- The keys, in the order of the source. -/
inductive Key
  | format | package | idcode | serial
  | fpgaFile | fpgaSize | fpgaSha256
  | imageFile | imageSize | imageSha256
deriving DecidableEq

/-- The name of a key. -/
def Key.name : Key → List UInt8
  | .format => ascii ['f', 'o', 'r', 'm', 'a', 't']
  | .package => ascii ['p', 'a', 'c', 'k', 'a', 'g', 'e']
  | .idcode => ascii ['i', 'd', 'c', 'o', 'd', 'e']
  | .serial => ascii ['s', 'e', 'r', 'i', 'a', 'l']
  | .fpgaFile => ascii ['f', 'p', 'g', 'a', '.', 'f', 'i', 'l', 'e']
  | .fpgaSize => ascii ['f', 'p', 'g', 'a', '.', 's', 'i', 'z', 'e']
  | .fpgaSha256 => ascii ['f', 'p', 'g', 'a', '.', 's', 'h', 'a', '2', '5', '6']
  | .imageFile => ascii ['i', 'm', 'a', 'g', 'e', '.', 'f', 'i', 'l', 'e']
  | .imageSize => ascii ['i', 'm', 'a', 'g', 'e', '.', 's', 'i', 'z', 'e']
  | .imageSha256 => ascii ['i', 'm', 'a', 'g', 'e', '.', 's', 'h', 'a', '2', '5', '6']

/-- All keys. -/
def allKeys : List Key :=
  [.format, .package, .idcode, .serial, .fpgaFile, .fpgaSize, .fpgaSha256,
    .imageFile, .imageSize, .imageSha256]

theorem mem_allKeys (k : Key) : k ∈ allKeys := by
  cases k <;> decide

/-- The pattern of the serial numbers. -/
def copySerial (v : List UInt8) : Option (List UInt8) :=
  if v.length = 0 ∨ v.length > nameMax then none else some v

/-- One value put into the manifest; none for a bad one.  What a bad
    value leaves in the buffers is not looked at again. -/
def parseValue (m : Manifest) : Key → List UInt8 → Option Manifest
  | .package, v => (copyName v).map fun x => { m with package := x }
  | .idcode, v => (parseIdcode v).map fun x => { m with idcode := x }
  | .fpgaFile, v => (copyFileName v).map fun x => { m with fpga := { m.fpga with name := x } }
  | .fpgaSize, v => (parseSize v).map fun x => { m with fpga := { m.fpga with size := x } }
  | .fpgaSha256, v =>
      (parseHexBytes v 32).map fun x => { m with fpga := { m.fpga with sha256 := x } }
  | .imageFile, v => (copyFileName v).map fun x => { m with image := { m.image with name := x } }
  | .imageSize, v => (parseSize v).map fun x => { m with image := { m.image with size := x } }
  | .imageSha256, v =>
      (parseHexBytes v 32).map fun x => { m with image := { m.image with sha256 := x } }
  | .serial, v => (copySerial v).map fun x => { m with serial := x }
  | .format, _ => none

/-- The manifest holds what the value says. -/
def Holds (m : Manifest) : Key → List UInt8 → Prop
  | .format, v => v = ascii ['1']
  | .package, v => m.package = v ∧ Fits v ∧ ∀ c ∈ v, nameChar c false = true
  | .idcode, v => HexOf v (bigEndian m.idcode)
  | .serial, v => m.serial = v ∧ Fits v
  | .fpgaFile, v => m.fpga.name = v ∧ Fits v ∧ FileName v
  | .fpgaSize, v => v ≠ [] ∧ v.length ≤ 10 ∧ m.fpga.size ≠ 0 ∧ DecimalOf v m.fpga.size.toNat
  | .fpgaSha256, v => m.fpga.sha256.length = 32 ∧ HexOf v m.fpga.sha256
  | .imageFile, v => m.image.name = v ∧ Fits v ∧ FileName v
  | .imageSize, v => v ≠ [] ∧ v.length ≤ 10 ∧ m.image.size ≠ 0 ∧ DecimalOf v m.image.size.toNat
  | .imageSha256, v => m.image.sha256.length = 32 ∧ HexOf v m.image.sha256

theorem copySerial_iff (v w : List UInt8) : copySerial v = some w ↔ w = v ∧ Fits v := by
  rw [copySerial]
  by_cases hfit : Fits v
  · rw [if_neg (fun h => (not_fits v).mp h hfit)]
    exact ⟨fun h => ⟨(Option.some.inj h).symm, hfit⟩, fun h => congrArg some h.1.symm⟩
  · rw [if_pos ((not_fits v).mpr hfit)]
    exact ⟨(fun h => nomatch h), fun h => absurd h.2 hfit⟩

/-- The check of a key answers what the manifest has there. -/
def Reads (m : Manifest) : Key → List UInt8 → Prop
  | .format, v => v = ascii ['1']
  | .package, v => copyName v = some m.package
  | .idcode, v => parseIdcode v = some m.idcode
  | .serial, v => copySerial v = some m.serial
  | .fpgaFile, v => copyFileName v = some m.fpga.name
  | .fpgaSize, v => parseSize v = some m.fpga.size
  | .fpgaSha256, v => parseHexBytes v 32 = some m.fpga.sha256
  | .imageFile, v => copyFileName v = some m.image.name
  | .imageSize, v => parseSize v = some m.image.size
  | .imageSha256, v => parseHexBytes v 32 = some m.image.sha256

/-- A value is held exactly when its check answers what is there. -/
theorem holds_iff (m : Manifest) (k : Key) (v : List UInt8) : Holds m k v ↔ Reads m k v := by
  cases k with
  | format => exact Iff.rfl
  | package => exact (copyName_iff v _).symm
  | idcode => exact (parseIdcode_iff v _).symm
  | serial => exact (copySerial_iff v _).symm
  | fpgaFile => exact (copyFileName_iff v _).symm
  | fpgaSize => exact (parseSize_iff v _).symm
  | fpgaSha256 => exact (parseHexBytes_iff v 32 _).symm
  | imageFile => exact (copyFileName_iff v _).symm
  | imageSize => exact (parseSize_iff v _).symm
  | imageSha256 => exact (parseHexBytes_iff v 32 _).symm

instance decidableReads (m : Manifest) : (k : Key) → (v : List UInt8) → Decidable (Reads m k v)
  | .format, v => inferInstanceAs (Decidable (v = _))
  | .package, v => inferInstanceAs (Decidable (copyName v = _))
  | .idcode, v => inferInstanceAs (Decidable (parseIdcode v = _))
  | .serial, v => inferInstanceAs (Decidable (copySerial v = _))
  | .fpgaFile, v => inferInstanceAs (Decidable (copyFileName v = _))
  | .fpgaSize, v => inferInstanceAs (Decidable (parseSize v = _))
  | .fpgaSha256, v => inferInstanceAs (Decidable (parseHexBytes v 32 = _))
  | .imageFile, v => inferInstanceAs (Decidable (copyFileName v = _))
  | .imageSize, v => inferInstanceAs (Decidable (parseSize v = _))
  | .imageSha256, v => inferInstanceAs (Decidable (parseHexBytes v 32 = _))

instance decidableHolds (m : Manifest) (k : Key) (v : List UInt8) : Decidable (Holds m k v) :=
  decidable_of_iff (Reads m k v) (holds_iff m k v).symm

/-- A value that is taken is held. -/
theorem parseValue_holds {m m' : Manifest} {k : Key} {v : List UInt8}
    (h : parseValue m k v = some m') : Holds m' k v := by
  rw [holds_iff]
  cases k with
  | format => exact nomatch h
  | _ =>
      obtain ⟨x, hx, rfl⟩ := Option.map_eq_some_iff.mp h
      exact hx

/-- Taking a value leaves what is held under the other keys. -/
theorem parseValue_keeps {m m' : Manifest} {k : Key} {v : List UInt8}
    (h : parseValue m k v = some m') {k' : Key} (hk : k' ≠ k) {w : List UInt8} :
    Holds m' k' w ↔ Holds m k' w := by
  cases k with
  | format => exact nomatch h
  | _ =>
      obtain ⟨x, _, rfl⟩ := Option.map_eq_some_iff.mp h
      cases k' with
      | _ => first | exact Iff.rfl | exact absurd rfl hk

/-- A value some manifest holds is taken, whatever was taken before. -/
theorem parseValue_takes {m : Manifest} {k : Key} {v : List UInt8} (hk : k ≠ .format)
    (h : Holds m k v) (m₀ : Manifest) : ∃ m', parseValue m₀ k v = some m' := by
  rw [holds_iff] at h
  cases k with
  | format => exact absurd rfl hk
  | _ => exact ⟨_, Option.map_eq_some_iff.mpr ⟨_, h, rfl⟩⟩

/-- The pattern that stands where the manifest names no serial. -/
def anySerial : List UInt8 := ascii ['*']

/-- The pattern of a manifest without a serial line. -/
theorem holds_withSerial {m : Manifest} {k : Key} (hk : k ≠ .serial) {v s : List UInt8} :
    Holds { m with serial := s } k v ↔ Holds m k v := by
  cases k with
  | serial => exact absurd rfl hk
  | _ => exact Iff.rfl

/-- The values determine the manifest. -/
theorem holds_unique {m m' : Manifest}
    (hheld : ∀ k, k ≠ .serial → ∃ v, Holds m k v ∧ Holds m' k v) (hserial : m.serial = m'.serial) :
    m = m' := by
  have hsome : ∀ {α : Type} {o : Option α} {a b : α}, o = some a → o = some b → a = b :=
    fun ha hb => Option.some.inj (ha.symm.trans hb)
  have hfield : ∀ k, k ≠ Key.serial → ∃ v, Reads m k v ∧ Reads m' k v := by
    intro k hk
    obtain ⟨v, h, h'⟩ := hheld k hk
    exact ⟨v, (holds_iff m k v).mp h, (holds_iff m' k v).mp h'⟩
  obtain ⟨_, hp, hp'⟩ := hfield .package (nofun)
  obtain ⟨_, hi, hi'⟩ := hfield .idcode (nofun)
  obtain ⟨_, hff, hff'⟩ := hfield .fpgaFile (nofun)
  obtain ⟨_, hfs, hfs'⟩ := hfield .fpgaSize (nofun)
  obtain ⟨_, hfh, hfh'⟩ := hfield .fpgaSha256 (nofun)
  obtain ⟨_, hif, hif'⟩ := hfield .imageFile (nofun)
  obtain ⟨_, his, his'⟩ := hfield .imageSize (nofun)
  obtain ⟨_, hih, hih'⟩ := hfield .imageSha256 (nofun)
  obtain ⟨p, i, s, ⟨_, _, _⟩, ⟨_, _, _⟩⟩ := m
  obtain ⟨p', i', s', ⟨_, _, _⟩, ⟨_, _, _⟩⟩ := m'
  rw [Manifest.mk.injEq, File.mk.injEq, File.mk.injEq]
  exact ⟨hsome hp hp', hsome hi hi', hserial, ⟨hsome hff hff', hsome hfs hfs', hsome hfh hfh'⟩,
    hsome hif hif', hsome his his', hsome hih hih'⟩

end RecoveryManifest
