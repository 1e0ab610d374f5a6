import Mathlib

/-! # CBM names as text

    `petscii_to_text` shows a name in the lower/upper case set, with `{XX}` for the bytes that
    have no character of their own, and `text_to_petscii` reads it back.  What the one writes
    and the other accepts is a small notation, `Spells`: characters that stand for a byte, and
    groups of hexadecimal bytes in braces. -/

namespace Petscii

/-- The bytes of a C string: those in front of the first zero. -/
def cstring (mem : List UInt8) : List UInt8 := mem.takeWhile (· != 0)

/-- `hex2bin`. -/
def hex2bin (c : UInt8) : Option UInt8 :=
  if 0x30 ≤ c ∧ c ≤ 0x39 then some (c - 0x30)
  else if 0x41 ≤ c ∧ c ≤ 0x46 then some (c - 0x41 + 10)
  else if 0x61 ≤ c ∧ c ≤ 0x66 then some (c - 0x61 + 10)
  else none

/-- The table `hex`. -/
def hexChar (d : UInt8) : UInt8 := if d < 10 then 0x30 + d else 0x41 + (d - 10)

/-- `petscii_text_char`; `none` is the answer 0. -/
def petsciiTextChar (p : UInt8) : Option UInt8 :=
  if 0x41 ≤ p ∧ p ≤ 0x5A then some (p + 0x20)
  else if 0xC1 ≤ p ∧ p ≤ 0xDA then some (p - 0x80)
  else if 0x20 ≤ p ∧ p ≤ 0x5F ∧ p ≠ 0x5C then some p
  else none

/-- The character `petscii_to_text` shows a byte as. -/
def shown (lossless : Bool) (p : UInt8) : Option UInt8 :=
  if lossless = false ∧ 0x61 ≤ p ∧ p ≤ 0x7A then some (p - 0x20) else petsciiTextChar p

/-- The closing brace, while there is an open one. -/
def closing (escape : Bool) : List UInt8 := if escape then [0x7D] else []

/-- The opening brace, while there is none. -/
def opening (escape : Bool) : List UInt8 := if escape then [] else [0x7B]

/-- The loop of `petscii_to_text`, with `i` characters in the buffer: the characters that follow
    them, and the bytes the loop leaves over. -/
def textLoop (len : Int) (lossless : Bool) :
    Bool → Nat → List UInt8 → List UInt8 × List UInt8
  | escape, _, [] => (closing escape, [])
  | escape, i, p :: pet =>
      -- three characters, a closing brace and the terminator
      if (i : Int) + 5 > len then (closing escape, p :: pet)
      else
        match shown lossless p with
        | some c =>
            let out : List UInt8 := closing escape ++ [c]
            let r := textLoop len lossless false (i + out.length) pet
            (out ++ r.1, r.2)
        | none =>
            let out : List UInt8 := opening escape ++ [hexChar (p >>> 4), hexChar (p &&& 15)]
            let r := textLoop len lossless true (i + out.length) pet
            (out ++ r.1, r.2)

/-- `petscii_to_text`: the result, and the bytes that are stored in the buffer. -/
def petsciiToText (pet : List UInt8) (len : Int) (lossless : Bool) : Bool × List UInt8 :=
  if len ≤ 0 then (false, [])
  else
    let r := textLoop len lossless false 0 (cstring pet)
    (r.2.isEmpty, r.1 ++ [0])

/-- The byte of a single character, in `text_to_petscii`. -/
def charByte (c : UInt8) : Option UInt8 :=
  if 0x61 ≤ c ∧ c ≤ 0x7A then some (c - 0x20)
  else if 0x41 ≤ c ∧ c ≤ 0x5A then some (c + 0x80)
  else if petsciiTextChar c = some c then some c
  else none

/-- The loop of `text_to_petscii`, with `i` bytes in the buffer: the bytes that follow them, or
    the answer -1.  In a group the loop stands in front of a pair of digits. -/
def bytesLoop (len : Int) : Bool → Nat → List UInt8 → Option (List UInt8)
  | false, _, [] => some []
  | false, i, c :: text =>
      if c = 0x7B then bytesLoop len true i text
      else
        match charByte c with
        | none => none
        | some p =>
            if (i : Int) ≥ len - 1 then none
            else (bytesLoop len false (i + 1) text).map (p :: ·)
  | true, i, h :: l :: text =>
      match hex2bin h, hex2bin l with
      | some h, some l =>
          if (h <<< 4 ||| l) = 0 ∨ (i : Int) ≥ len - 1 then none
          else
            match text with
            | 0x7D :: text => (bytesLoop len false (i + 1) text).map ((h <<< 4 ||| l) :: ·)
            | text => (bytesLoop len true (i + 1) text).map ((h <<< 4 ||| l) :: ·)
      | _, _ => none
  | true, _, _ => none

/-- `text_to_petscii`; `none` is the answer -1. -/
def textToPetscii (text : List UInt8) (len : Int) : Option (List UInt8) :=
  if len ≤ 0 then none else bytesLoop len false 0 (cstring text)

/-! ## The notation -/

/-- Digits in pairs, and the bytes they stand for; none of them is zero. -/
inductive Group : List UInt8 → List UInt8 → Prop
  | done : Group [] []
  | pair {h l x y : UInt8} {digits bytes : List UInt8} : hex2bin h = some x → hex2bin l = some y →
      (x <<< 4 ||| y) ≠ 0 → Group digits bytes →
      Group (h :: l :: digits) ((x <<< 4 ||| y) :: bytes)

/-- A text, and the bytes it stands for. -/
inductive Spells : List UInt8 → List UInt8 → Prop
  | done : Spells [] []
  | char {c p : UInt8} {text bytes : List UInt8} : petsciiTextChar p = some c → Spells text bytes →
      Spells (c :: text) (p :: bytes)
  | group {digits inside text bytes : List UInt8} : Group digits inside → inside ≠ [] →
      Spells text bytes → Spells (0x7B :: (digits ++ 0x7D :: text)) (inside ++ bytes)

/-- A text that starts inside a group. -/
def Inside (text bytes : List UInt8) : Prop :=
  ∃ digits inside text' bytes', Group digits inside ∧ Spells text' bytes' ∧
    text = digits ++ 0x7D :: text' ∧ bytes = inside ++ bytes'

/-! ## Bytes and characters -/

/-- What holds of the 256 bytes holds of every byte. -/
theorem byte_forall (P : UInt8 → Prop) (h : ∀ n < 256, P (UInt8.ofNat n)) (b : UInt8) : P b := by
  have hb := h b.toNat b.toNat_lt
  rwa [UInt8.ofNat_toNat] at hb

/-- The same for a function of bytes and its values. -/
theorem byte_forall_of_eq_some {f : UInt8 → Option UInt8} (P : UInt8 → UInt8 → Bool)
    (h : ∀ n < 256, (f (UInt8.ofNat n)).all (P (UInt8.ofNat n)) = true) {b c : UInt8}
    (hf : f b = some c) : P b c = true := by
  have hb := byte_forall (fun b => (f b).all (P b) = true) h b
  rwa [hf, Option.all_some] at hb

theorem charByte_of_char {p c : UInt8} (h : petsciiTextChar p = some c) : charByte c = some p :=
  of_decide_eq_true
    (byte_forall_of_eq_some (fun p c => charByte c = some p) (by decide +kernel) h)

theorem char_of_charByte {p c : UInt8} (h : charByte c = some p) : petsciiTextChar p = some c :=
  of_decide_eq_true
    (byte_forall_of_eq_some (fun c p => petsciiTextChar p = some c) (by decide +kernel) h)

/-- No brace and no zero is the character of a byte, and zero has no character. -/
theorem char_plain {p c : UInt8} (h : petsciiTextChar p = some c) :
    c ≠ 0x7B ∧ c ≠ 0x7D ∧ c ≠ 0 ∧ p ≠ 0 :=
  of_decide_eq_true (byte_forall_of_eq_some
    (fun p c => c ≠ 0x7B ∧ c ≠ 0x7D ∧ c ≠ 0 ∧ p ≠ 0) (by decide +kernel) h)

theorem digit_plain {d x : UInt8} (h : hex2bin d = some x) : d ≠ 0x7B ∧ d ≠ 0x7D ∧ d ≠ 0 :=
  of_decide_eq_true (byte_forall_of_eq_some
    (fun d _ => d ≠ 0x7B ∧ d ≠ 0x7D ∧ d ≠ 0) (by decide +kernel) h)

/-- The two digits of a byte. -/
theorem hex_digits (p : UInt8) :
    hex2bin (hexChar (p >>> 4)) = some (p >>> 4) ∧ hex2bin (hexChar (p &&& 15)) = some (p &&& 15) ∧
      ((p >>> 4) <<< 4 ||| (p &&& 15)) = p :=
  byte_forall (fun p => hex2bin (hexChar (p >>> 4)) = some (p >>> 4) ∧
    hex2bin (hexChar (p &&& 15)) = some (p &&& 15) ∧ ((p >>> 4) <<< 4 ||| (p &&& 15)) = p)
    (by decide +kernel) p

example : hex2bin (hexChar 11) = some 11 := by decide +kernel

/-! ## What `text_to_petscii` accepts -/

/-- A text that starts in front of the first pair of a group. -/
def Opened (text bytes : List UInt8) : Prop :=
  ∃ digits inside text' bytes', Group digits inside ∧ inside ≠ [] ∧ Spells text' bytes' ∧
    text = digits ++ 0x7D :: text' ∧ bytes = inside ++ bytes'

/-- The last pair of a group. -/
theorem opened_last {h l x y : UInt8} {text bytes : List UInt8} (hh : hex2bin h = some x)
    (hl : hex2bin l = some y) (hne : (x <<< 4 ||| y) ≠ 0) (ht : Spells text bytes) :
    Opened (h :: l :: 0x7D :: text) ((x <<< 4 ||| y) :: bytes) :=
  ⟨[h, l], [x <<< 4 ||| y], text, bytes, .pair hh hl hne .done, List.cons_ne_nil _ _, ht, rfl, rfl⟩

/-- A pair in front of another one. -/
theorem opened_more {h l x y : UInt8} {text bytes : List UInt8} (hh : hex2bin h = some x)
    (hl : hex2bin l = some y) (hne : (x <<< 4 ||| y) ≠ 0) (ht : Opened text bytes) :
    Opened (h :: l :: text) ((x <<< 4 ||| y) :: bytes) := by
  obtain ⟨digits, inside, text', bytes', hg, -, hs, rfl, rfl⟩ := ht
  exact ⟨h :: l :: digits, _ :: inside, text', bytes', .pair hh hl hne hg, List.cons_ne_nil _ _, hs,
    rfl, rfl⟩

theorem spells_of_opened {text bytes : List UInt8} (h : Opened text bytes) :
    Spells (0x7B :: text) bytes := by
  obtain ⟨digits, inside, text', bytes', hg, hne, hs, rfl, rfl⟩ := h
  exact .group hg hne hs

/-- What the loop accepts, in a group and outside. -/
def Accepts : Bool → List UInt8 → List UInt8 → Prop
  | true => Opened
  | false => Spells

/-- What the loop has accepted is in the notation, and fits. -/
theorem bytesLoop_sound {len : Int} {group : Bool} {i : Nat} {text bytes : List UInt8}
    (h : bytesLoop len group i text = some bytes) (hi : (i : Int) < len) :
    Accepts group text bytes ∧ (i : Int) + bytes.length < len := by
  fun_induction bytesLoop len group i text generalizing bytes with
  | case1 i =>
      cases h
      exact ⟨.done, by simpa using hi⟩
  | case2 i text ih =>
      obtain ⟨hopen, hlen⟩ := ih h hi
      exact ⟨spells_of_opened hopen, hlen⟩
  | case3 => exact nomatch h
  | case4 => exact nomatch h
  | case5 i c text hc p hp hroom ih =>
      obtain ⟨bytes, hrest, rfl⟩ := Option.map_eq_some_iff.mp h
      obtain ⟨hs, hlen⟩ := ih hrest (by omega)
      refine ⟨.char (char_of_charByte hp) hs, ?_⟩
      simp only [List.length_cons]
      omega
  | case6 => exact nomatch h
  | case7 i d l x y hl hh hroom text ih =>
      obtain ⟨bytes, hrest, rfl⟩ := Option.map_eq_some_iff.mp h
      obtain ⟨hs, hlen⟩ := ih hrest (by omega)
      refine ⟨opened_last hh hl (fun h0 => hroom (Or.inl h0)) hs, ?_⟩
      simp only [List.length_cons]
      omega
  | case8 i d l x y hl hh hroom text hmore ih =>
      obtain ⟨bytes, hrest, rfl⟩ := Option.map_eq_some_iff.mp h
      obtain ⟨hs, hlen⟩ := ih hrest (by omega)
      refine ⟨opened_more hh hl (fun h0 => hroom (Or.inl h0)) hs, ?_⟩
      simp only [List.length_cons]
      omega
  | case9 => exact nomatch h
  | case10 => exact nomatch h

/-- The loop reads a group to its end. -/
theorem bytesLoop_group {len : Int} {digits inside text bytes : List UInt8} (hg : Group digits inside)
    (hne : inside ≠ []) {i : Nat}
    (hrest : bytesLoop len false (i + inside.length) text = some bytes)
    (hroom : (i : Int) + inside.length < len) :
    bytesLoop len true i (digits ++ 0x7D :: text) = some (inside ++ bytes) := by
  induction hg generalizing i with
  | done => exact absurd rfl hne
  | @pair h l x y digits inside hh hl h0 hg ih =>
      rw [List.length_cons] at hrest hroom
      have hstop : ¬ ((x <<< 4 ||| y) = 0 ∨ (i : Int) ≥ len - 1) := by
        rintro (hz | hfull)
        · exact h0 hz
        · omega
      cases hg with
      | done =>
          rw [List.cons_append, List.cons_append, List.nil_append, bytesLoop, hh, hl]
          simp only [if_neg hstop]
          rw [show i + 1 = i + (([] : List UInt8).length + 1) by rfl, hrest]
          rfl
      | @pair h' l' x' y' digits inside hh' hl' h0' hg' =>
          have hnext := ih (List.cons_ne_nil _ _) (i := i + 1)
            (by rw [Nat.add_assoc, Nat.add_comm 1]; exact hrest)
            (by omega)
          have hbrace : h' ≠ 0x7D := (digit_plain hh').2.1
          rw [List.cons_append, List.cons_append, bytesLoop, hh, hl]
          simp only [if_neg hstop]
          split
          next text' heq =>
            rw [List.cons_append] at heq
            exact absurd (List.cons.inj heq).1 hbrace
          next =>
            rw [hnext]
            rfl

/-- The loop accepts what is in the notation and fits. -/
theorem bytesLoop_complete {len : Int} {text bytes : List UInt8} (hs : Spells text bytes) {i : Nat}
    (hroom : (i : Int) + bytes.length < len) : bytesLoop len false i text = some bytes := by
  induction hs generalizing i with
  | done => rfl
  | @char c p text bytes hc hs ih =>
      rw [List.length_cons] at hroom
      rw [bytesLoop, if_neg (char_plain hc).1, charByte_of_char hc]
      dsimp only
      rw [if_neg (by omega), ih (by omega)]
      rfl
  | @group digits inside text bytes hg hne hs ih =>
      rw [List.length_append] at hroom
      rw [bytesLoop, if_pos rfl]
      exact bytesLoop_group hg hne (ih (by omega)) (by omega)

/-- `text_to_petscii` accepts the texts of the notation whose bytes fit the buffer. -/
theorem textToPetscii_eq_some {text bytes : List UInt8} {len : Int} :
    textToPetscii text len = some bytes ↔ Spells (cstring text) bytes ∧ (bytes.length : Int) < len := by
  rw [textToPetscii]
  by_cases hlen : len ≤ 0
  · rw [if_pos hlen]
    constructor
    · exact fun h => nomatch h
    · rintro ⟨-, h⟩
      omega
  · rw [if_neg hlen]
    constructor
    · intro h
      obtain ⟨hs, hroom⟩ := bytesLoop_sound h (by omega)
      exact ⟨hs, by omega⟩
    · rintro ⟨hs, hroom⟩
      exact bytesLoop_complete hs (by omega)

/-! ## What `petscii_to_text` writes -/

/-- A byte that has no character goes on a group. -/
theorem inside_pair {p : UInt8} (hp : p ≠ 0) {text bytes : List UInt8} (h : Inside text bytes) :
    Inside (hexChar (p >>> 4) :: hexChar (p &&& 15) :: text) (p :: bytes) := by
  obtain ⟨digits, inside, text', bytes', hg, hs, rfl, rfl⟩ := h
  obtain ⟨hh, hl, hbyte⟩ := hex_digits p
  refine ⟨_ :: _ :: digits, p :: inside, text', bytes', ?_, hs, rfl, rfl⟩
  have hpair := Group.pair hh hl (by rw [hbyte]; exact hp) hg
  rwa [hbyte] at hpair

/-- A byte that has no character starts a group. -/
theorem spells_pair {p : UInt8} (hp : p ≠ 0) {text bytes : List UInt8} (h : Inside text bytes) :
    Spells (0x7B :: hexChar (p >>> 4) :: hexChar (p &&& 15) :: text) (p :: bytes) := by
  obtain ⟨digits, inside, text', bytes', hg, hs, rfl, rfl⟩ := h
  obtain ⟨hh, hl, hbyte⟩ := hex_digits p
  have hpair := Group.pair hh hl (by rw [hbyte]; exact hp) hg
  rw [hbyte] at hpair
  exact .group hpair (List.cons_ne_nil _ _) hs

/-- The brace that ends a group. -/
theorem inside_close {text bytes : List UInt8} (h : Spells text bytes) :
    Inside (0x7D :: text) bytes :=
  ⟨[], [], text, bytes, .done, h, rfl, rfl⟩

/-- What the loop writes stands for the bytes it takes. -/
theorem textLoop_spells (len : Int) {pet : List UInt8} (h0 : 0 ∉ pet) (escape : Bool) (i : Nat) :
    ∃ taken, pet = taken ++ (textLoop len true escape i pet).2 ∧
      if escape then Inside (textLoop len true escape i pet).1 taken
      else Spells (textLoop len true escape i pet).1 taken := by
  induction pet generalizing escape i with
  | nil =>
      cases escape with
      | false => exact ⟨[], rfl, .done⟩
      | true => exact ⟨[], rfl, inside_close .done⟩
  | cons p pet ih =>
      rw [List.mem_cons, not_or] at h0
      rw [textLoop]
      split
      · cases escape with
        | false => exact ⟨[], rfl, .done⟩
        | true => exact ⟨[], rfl, inside_close .done⟩
      · cases hc : shown true p with
        | some c =>
            obtain ⟨taken, hpet, hs⟩ := ih h0.2 false (i + (closing escape ++ [c]).length)
            have hchar : petsciiTextChar p = some c := by simpa [shown] using hc
            have htext := Spells.char hchar hs
            refine ⟨p :: taken, by rw [List.cons_append, ← hpet], ?_⟩
            cases escape with
            | false => exact htext
            | true => exact inside_close htext
        | none =>
            obtain ⟨taken, hpet, hs⟩ := ih h0.2 true
              (i + (opening escape ++ [hexChar (p >>> 4), hexChar (p &&& 15)]).length)
            refine ⟨p :: taken, by rw [List.cons_append, ← hpet], ?_⟩
            cases escape with
            | false => exact spells_pair (Ne.symm h0.1) hs
            | true => exact inside_pair (Ne.symm h0.1) hs

/-- The closing brace and the terminator still fit behind what the loop writes. -/
theorem textLoop_length {len : Int} {lossless : Bool} {pet : List UInt8} (escape : Bool) (i : Nat)
    (h : (i : Int) + (closing escape).length < len) :
    (i : Int) + (textLoop len lossless escape i pet).1.length < len := by
  induction pet generalizing escape i with
  | nil => exact h
  | cons p pet ih =>
      rw [textLoop]
      split
      · exact h
      next hroom =>
        have hclose : (closing escape).length ≤ 1 := by cases escape <;> decide
        have hopen : (opening escape).length ≤ 1 := by cases escape <;> decide
        cases shown lossless p with
        | some c =>
            have hrest := ih false (i + (closing escape ++ [c]).length) (by
              rw [List.length_append]
              simp only [List.length_singleton, closing] at hclose ⊢
              simp
              omega)
            simp only [List.length_append] at hrest ⊢
            omega
        | none =>
            have hrest := ih true
              (i + (opening escape ++ [hexChar (p >>> 4), hexChar (p &&& 15)]).length) (by
              simp [closing]
              omega)
            simp only [List.length_append] at hrest ⊢
            omega

/-- With four characters for each byte the loop takes them all. -/
theorem textLoop_takes_all {len : Int} {lossless : Bool} {pet : List UInt8} (escape : Bool) (i : Nat)
    (h : (i : Int) + (closing escape).length + 4 * pet.length < len) :
    (textLoop len lossless escape i pet).2 = [] := by
  induction pet generalizing escape i with
  | nil => rfl
  | cons p pet ih =>
      rw [List.length_cons] at h
      rw [textLoop, if_neg (by omega)]
      cases shown lossless p with
      | some c =>
          refine ih _ _ ?_
          cases escape with
          | false => simp [closing] at h ⊢; omega
          | true => simp [closing] at h ⊢; omega
      | none =>
          refine ih _ _ ?_
          cases escape with
          | false => simp [closing, opening] at h ⊢; omega
          | true => simp [closing, opening] at h ⊢; omega

/-! ## The two together -/

theorem cstring_of_not_mem {text : List UInt8} (h : 0 ∉ text) (rest : List UInt8) :
    cstring (text ++ 0 :: rest) = text := by
  rw [cstring, List.takeWhile_append_of_pos]
  · simp
  · intro c hc
    rw [bne_iff_ne]
    exact fun h0 => h (h0 ▸ hc)

theorem cstring_nonzero (mem : List UInt8) : 0 ∉ cstring mem := by
  intro h0
  exact absurd (List.mem_takeWhile_imp h0) (by simp)

theorem group_nonzero {digits inside : List UInt8} (h : Group digits inside) : 0 ∉ digits := by
  induction h with
  | done => exact List.not_mem_nil
  | pair hh hl _ _ ih =>
      simp only [List.mem_cons, not_or]
      exact ⟨Ne.symm (digit_plain hh).2.2, Ne.symm (digit_plain hl).2.2, ih⟩

/-- A text of the notation is a C string. -/
theorem spells_nonzero {text bytes : List UInt8} (h : Spells text bytes) : 0 ∉ text := by
  induction h with
  | done => exact List.not_mem_nil
  | char hc _ ih =>
      rw [List.mem_cons, not_or]
      exact ⟨Ne.symm (char_plain hc).2.2.1, ih⟩
  | group hg _ _ ih =>
      simp only [List.mem_cons, List.mem_append, not_or]
      exact ⟨by decide, group_nonzero hg, by decide, ih⟩

/-- `petscii_to_text` stays in the buffer.  Without loss its text stands for the bytes it took,
    all of them when it answers true, which it does when there are four characters for each and
    the terminator; `text_to_petscii` gives back those bytes.  That accepts exactly the texts of
    the notation whose bytes and terminator fit its buffer. -/
theorem petsciiText_inverse :
    (∀ (pet : List UInt8) (len : Int) (lossless : Bool),
      (petsciiToText pet len lossless).2.length ≤ len.toNat) ∧
    (∀ (pet : List UInt8) (len : Int), 1 ≤ len → ∃ taken text,
      (petsciiToText pet len true).2 = text ++ [0] ∧ taken <+: cstring pet ∧
      ((petsciiToText pet len true).1 = true ↔ taken = cstring pet) ∧
      (4 * (cstring pet).length + 1 ≤ len → taken = cstring pet) ∧
      ∀ room : Int, taken.length < room → textToPetscii (text ++ [0]) room = some taken) ∧
    ∀ (text bytes : List UInt8) (len : Int),
      textToPetscii text len = some bytes ↔ Spells (cstring text) bytes ∧ (bytes.length : Int) < len := by
  refine ⟨?_, ?_, fun _ _ _ => textToPetscii_eq_some⟩
  · intro pet len lossless
    rw [petsciiToText]
    split
    · exact Nat.zero_le _
    next hlen =>
      have hroom : ((0 : Nat) : Int) + (textLoop len lossless false 0 (cstring pet)).1.length < len :=
        textLoop_length false 0 (by simp [closing]; omega)
      simp only [List.length_append, List.length_singleton]
      omega
  · intro pet len hlen
    obtain ⟨taken, hpet, hs⟩ := textLoop_spells len (cstring_nonzero pet) false 0
    have hrun : petsciiToText pet len true = ((textLoop len true false 0 (cstring pet)).2.isEmpty,
        (textLoop len true false 0 (cstring pet)).1 ++ [0]) := by
      rw [petsciiToText, if_neg (by omega)]
    have hall : taken = cstring pet ↔ (textLoop len true false 0 (cstring pet)).2 = [] := by
      constructor
      · intro h
        rw [← h] at hpet
        exact List.self_eq_append_right.mp (h ▸ hpet)
      · intro h
        rw [h, List.append_nil] at hpet
        exact hpet.symm
    refine ⟨taken, _, by rw [hrun], ⟨_, hpet.symm⟩, ?_, ?_, ?_⟩
    · rw [hrun, hall, List.isEmpty_iff]
    · intro hroom
      exact hall.mpr (textLoop_takes_all false 0 (by simp [closing]; omega))
    · intro room hroom
      refine textToPetscii_eq_some.mpr ⟨?_, hroom⟩
      rw [cstring_of_not_mem (spells_nonzero hs)]
      exact hs

/-- In a buffer of four bytes there is no room for a character. -/
theorem petsciiToText_short :
    ¬ ∀ (pet : List UInt8) (len : Int), 1 ≤ len →
      textToPetscii (petsciiToText pet len true).2 256 = some (cstring pet) := by
  intro h
  exact absurd (h [0x41] 4 (by decide)) (by decide)

end Petscii
