import Mathlib

/-! # Number expressions in the monitor

    A number field takes an expression of hexadecimal, binary and decimal numbers with the
    four operators.  The evaluator cuts a token out of the text and hands it to one of three
    number parsers.

    The operators are right: what is accepted are the expressions of a grammar over the
    numbers as the parsers read them, and a step that leaves 32 bits is refused.  The numbers
    are not always right: the hexadecimal parser stops after four digits and does not look at
    what stands behind them, and the decimal one counts modulo 2^32. -/

namespace MonitorNumber

abbrev Text := List Char

/-! ## The source -/

inductive MonitorError
  | monitorAddr
  | monitorSyntax
  | monitorValue
  | monitorRange
  deriving DecidableEq

def isSpaceChar (c : Char) : Bool := c = ' ' || c = '\t' || c = '\r' || c = '\n'

def isHexChar (c : Char) : Bool :=
  ('0' ≤ c && c ≤ '9') || ('A' ≤ c && c ≤ 'F') || ('a' ≤ c && c ≤ 'f')

def toUpperChar (c : Char) : Char :=
  if 'a' ≤ c ∧ c ≤ 'z' then Char.ofNat (c.toNat - 32) else c

def skipSpaces (cursor : Text) : Text := cursor.dropWhile isSpaceChar

/-- The value of a hexadecimal digit. -/
def hexValue (c : Char) : Nat :=
  let c := toUpperChar c
  if '0' ≤ c ∧ c ≤ '9' then c.toNat - '0'.toNat else c.toNat - 'A'.toNat + 10

/-- The digits of `parse_hex_digits`: how many, their value, and what is left.  There are at
    most five of them, and the value does not overflow. -/
def hexLoop (maxDigits : Nat) : (cursor : Text) → (digits parsed : Nat) → Nat × Nat × Text
  | [], digits, parsed => (digits, parsed, [])
  | c :: cursor, digits, parsed =>
      if isHexChar c = true ∧ digits < maxDigits then
        hexLoop maxDigits cursor (digits + 1) (parsed * 16 + hexValue c)
      else (digits, parsed, c :: cursor)

/-- `parse_hex_digits`. -/
def parseHexDigits (minDigits maxDigits maxValue : Nat) (cursor : Text) :
    Except MonitorError (Nat × Text) :=
  let cursor := skipSpaces cursor
  let cursor := if cursor.head? = some '$' then cursor.tail else cursor
  let (digits, parsed, cursor) := hexLoop maxDigits cursor 0 0
  if digits < minDigits then .error .monitorAddr
  else if maxValue < parsed then
    .error (if maxValue = 0xFF then .monitorValue else .monitorAddr)
  else .ok (parsed, cursor)

/-- The digits of `parse_decimal`; `parsed` has 32 bits. -/
def decimalLoop : (cursor : Text) → (digits parsed : Nat) → Nat × Nat × Text
  | [], digits, parsed => (digits, parsed, [])
  | c :: cursor, digits, parsed =>
      if '0' ≤ c ∧ c ≤ '9' then
        decimalLoop cursor (digits + 1) ((parsed * 10 + (c.toNat - '0'.toNat)) % 4294967296)
      else (digits, parsed, c :: cursor)

/-- `parse_decimal`. -/
def parseDecimal (cursor : Text) : Option Nat :=
  let (digits, parsed, cursor) := decimalLoop cursor 0 0
  if digits = 0 ∨ cursor ≠ [] then none
  else if 0xFFFF < parsed then none
  else some parsed

/-- The digits of `parse_binary`, which ends when there are too many. -/
def binaryLoop : (cursor : Text) → (digits parsed : Nat) → Option (Nat × Nat × Text)
  | [], digits, parsed => some (digits, parsed, [])
  | c :: cursor, digits, parsed =>
      if c = '0' ∨ c = '1' then
        let parsed := parsed * 2 + (c.toNat - '0'.toNat)
        if 0xFFFF < parsed then none else binaryLoop cursor (digits + 1) parsed
      else some (digits, parsed, c :: cursor)

/-- `parse_binary`. -/
def parseBinary (cursor : Text) : Option Nat :=
  match binaryLoop cursor 0 0 with
  | none => none
  | some (digits, parsed, cursor) => if digits = 0 ∨ cursor ≠ [] then none else some parsed

/-- `parse_number_core`. -/
def parseNumberCore (text : Text) : Except MonitorError Nat :=
  let buffer := (text.filter fun c => !isSpaceChar c).take 79
  match buffer with
  | [] => .error .monitorSyntax
  | '$' :: _ => (parseHexDigits 1 4 0xFFFF buffer).map Prod.fst
  | '%' :: binary =>
      match parseBinary binary with
      | some value => .ok value
      | none => .error .monitorSyntax
  | _ =>
      match parseDecimal buffer with
      | some value => .ok value
      | none => .error .monitorSyntax

/-- `monitor_number_expr_operator`. -/
def isOperator (c : Char) : Bool := c = '+' || c = '-' || c = '*' || c = '/'

/-- What a token is made of. -/
def isPlain (c : Char) : Bool := !isSpaceChar c && !isOperator c

/-- The token of `monitor_number_expr_parse_value`, which has room for 31 characters. -/
def tokenLoop : (cursor token : Text) → Option (Text × Text)
  | [], token => some (token, [])
  | c :: cursor, token =>
      if isPlain c = true then
        if 31 ≤ token.length then none else tokenLoop cursor (token ++ [c])
      else some (token, c :: cursor)

/-- `monitor_number_expr_parse_value`. -/
def parseValue (cursor : Text) : Option (Nat × Text) :=
  match tokenLoop (skipSpaces cursor) [] with
  | none => none
  | some (token, cursor) =>
      if token.length ≤ 0 then none
      else
        match parseNumberCore token with
        | .error _ => none
        | .ok value => some (value, cursor)

/-- The loop of `monitor_number_expr_parse_term`, in at most `fuel` rounds. -/
def termLoop : (fuel result : Nat) → (cursor : Text) → Except MonitorError (Nat × Text)
  | 0, _, _ => .error .monitorSyntax
  | fuel + 1, result, cursor =>
      match skipSpaces cursor with
      | '*' :: cursor =>
          match parseValue cursor with
          | none => .error .monitorSyntax
          | some (rhs, cursor) =>
              if rhs ≠ 0 ∧ 0xFFFFFFFF / rhs < result then .error .monitorRange
              else termLoop fuel (result * rhs) cursor
      | '/' :: cursor =>
          match parseValue cursor with
          | none => .error .monitorSyntax
          | some (rhs, cursor) =>
              if rhs = 0 then .error .monitorValue
              else termLoop fuel (result / rhs) cursor
      | cursor => .ok (result, cursor)

/-- `monitor_number_expr_parse_term`. -/
def parseTerm (cursor : Text) : Except MonitorError (Nat × Text) :=
  match parseValue cursor with
  | none => .error .monitorSyntax
  | some (result, cursor) => termLoop (cursor.length + 1) result cursor

/-- The loop of `monitor_number_expr_evaluate`, in at most `fuel` rounds. -/
def sumLoop : (fuel result : Nat) → (cursor : Text) → Except MonitorError Nat
  | 0, _, _ => .error .monitorSyntax
  | fuel + 1, result, cursor =>
      match skipSpaces cursor with
      | [] => .ok result
      | '+' :: cursor =>
          match parseTerm cursor with
          | .error error => .error error
          | .ok (rhs, cursor) =>
              if 0xFFFFFFFF - rhs < result then .error .monitorRange
              else sumLoop fuel (result + rhs) cursor
      | '-' :: cursor =>
          match parseTerm cursor with
          | .error error => .error error
          | .ok (rhs, cursor) =>
              if result < rhs then .error .monitorRange
              else sumLoop fuel (result - rhs) cursor
      | _ => .error .monitorSyntax

/-- `monitor_number_expr_evaluate`. -/
def evaluate (text : Text) (maxValue : UInt16) : Except MonitorError Nat :=
  match parseTerm text with
  | .error error => .error error
  | .ok (result, cursor) =>
      match sumLoop (cursor.length + 1) result cursor with
      | .error error => .error error
      | .ok result => if maxValue.toNat < result then .error .monitorRange else .ok result

/-! ## The grammar

    Over any reading of the numbers: an expression is a chain of terms, a term a chain of
    numbers, both to the left, and every step has its bounds. -/

def Spaces (s : Text) : Prop := ∀ c ∈ s, isSpaceChar c = true

def Plain (t : Text) : Prop := t ≠ [] ∧ ∀ c ∈ t, isPlain c = true

section Grammar

variable (number : Text → Option Nat)

inductive Term : Text → Nat → Prop
  | number {s t : Text} {v : Nat} : Spaces s → Plain t → number t = some v → Term (s ++ t) v
  | mul {l s r t : Text} {a b : Nat} : Term l a → Spaces s → Spaces r → Plain t →
      number t = some b → a * b ≤ 0xFFFFFFFF → Term (l ++ (s ++ '*' :: (r ++ t))) (a * b)
  | div {l s r t : Text} {a b : Nat} : Term l a → Spaces s → Spaces r → Plain t →
      number t = some b → b ≠ 0 → Term (l ++ (s ++ '/' :: (r ++ t))) (a / b)

inductive Sum : Text → Nat → Prop
  | term {t : Text} {v : Nat} : Term number t v → Sum t v
  | add {l s r : Text} {a b : Nat} : Sum l a → Spaces s → Term number r b → a + b ≤ 0xFFFFFFFF →
      Sum (l ++ (s ++ '+' :: r)) (a + b)
  | sub {l s r : Text} {a b : Nat} : Sum l a → Spaces s → Term number r b → b ≤ a →
      Sum (l ++ (s ++ '-' :: r)) (a - b)

/-- The text is an expression with this value. -/
def Expression (text : Text) (v : Nat) : Prop :=
  ∃ l s, text = l ++ s ∧ Spaces s ∧ Sum number l v

end Grammar

/-! ## Numbers -/

/-- The value of digits. -/
def digitsValue (base : Nat) (ds : Text) : Nat := ds.foldl (fun a c => a * base + hexValue c) 0

/-- Digits of a base, with a value of at most 65535. -/
def exactDigits (base : Nat) (digit : Char → Bool) (ds : Text) : Option Nat :=
  if ds ≠ [] ∧ ds.all digit = true ∧ digitsValue base ds ≤ 65535 then some (digitsValue base ds)
  else none

/-- What a number is: `$` and hexadecimal digits, `%` and binary digits, or decimal digits. -/
def exactNumber : Text → Option Nat
  | '$' :: ds => exactDigits 16 isHexChar ds
  | '%' :: ds => exactDigits 2 (fun c => c = '0' || c = '1') ds
  | ds => exactDigits 10 (fun c => '0' ≤ c && c ≤ '9') ds

/-- What the code takes a token for. -/
def readNumber (t : Text) : Option Nat :=
  if t.length ≤ 31 then (parseNumberCore t).toOption else none

/-- The code takes the token for the number that it is. -/
def ReadRight (t : Text) : Prop := readNumber t = exactNumber t

instance (t : Text) : Decidable (ReadRight t) := inferInstanceAs (Decidable (_ = _))

/-- A text ends, or goes on with a space or an operator. -/
def Ends (rest : Text) : Prop := ∀ c ∈ rest.head?, isPlain c = false

/-- A number of the text: plain characters between spaces, operators and the ends. -/
def IsToken (text t : Text) : Prop :=
  Plain t ∧ ∃ before after, text = before ++ (t ++ after) ∧ Ends after ∧ Ends before.reverse

/-! ## Tokens -/

theorem tokenLoop_eq (cursor : Text) : ∀ token : Text, token.length ≤ 31 →
    tokenLoop cursor token =
      if (token ++ cursor.takeWhile isPlain).length ≤ 31 then
        some (token ++ cursor.takeWhile isPlain, cursor.dropWhile isPlain)
      else none := by
  induction cursor with
  | nil =>
      intro token htoken
      rw [tokenLoop, List.takeWhile_nil, List.append_nil, if_pos htoken, List.dropWhile_nil]
  | cons c cursor ih =>
      intro token htoken
      rw [tokenLoop]
      by_cases hc : isPlain c = true
      · rw [if_pos hc, List.takeWhile_cons_of_pos hc, List.dropWhile_cons_of_pos hc]
        by_cases hfull : 31 ≤ token.length
        · rw [if_pos hfull, if_neg (by
            rw [List.length_append, List.length_cons]
            omega)]
        · rw [if_neg hfull, ih _ (by
            rw [List.length_append, List.length_singleton]
            omega), List.append_assoc, List.singleton_append]
      · rw [if_neg hc, List.takeWhile_cons_of_neg hc, List.dropWhile_cons_of_neg hc,
          List.append_nil, if_pos htoken]

/-- A value is the number that the next token is taken for. -/
theorem parseValue_eq (cursor : Text) :
    parseValue cursor =
      if (skipSpaces cursor).takeWhile isPlain = [] then none
      else (readNumber ((skipSpaces cursor).takeWhile isPlain)).map
        fun v => (v, (skipSpaces cursor).dropWhile isPlain) := by
  rw [parseValue, tokenLoop_eq _ _ (Nat.zero_le _), List.nil_append]
  generalize (skipSpaces cursor).takeWhile isPlain = t
  generalize (skipSpaces cursor).dropWhile isPlain = rest
  by_cases hempty : t = []
  · rw [hempty]
    rfl
  · rw [if_neg hempty, readNumber]
    by_cases hlen : t.length ≤ 31
    · rw [if_pos hlen, if_pos hlen]
      have hpos : ¬ t.length ≤ 0 := fun h => hempty (List.length_eq_zero_iff.mp (Nat.le_zero.mp h))
      simp only [if_neg hpos]
      cases parseNumberCore t with
      | error _ => rfl
      | ok value => rfl
    · rw [if_neg hlen, if_neg hlen]
      rfl

theorem takeWhile_plain {t rest : Text} (ht : Plain t) (hrest : Ends rest) :
    (t ++ rest).takeWhile isPlain = t ∧ (t ++ rest).dropWhile isPlain = rest := by
  rw [List.takeWhile_append_of_pos ht.2, List.dropWhile_append_of_pos ht.2]
  cases rest with
  | nil => simp
  | cons c rest =>
      have hc : ¬ isPlain c = true := by
        rw [hrest c rfl]
        exact Bool.false_ne_true
      rw [List.takeWhile_cons_of_neg hc, List.dropWhile_cons_of_neg hc, List.append_nil]
      exact ⟨rfl, rfl⟩

theorem ends_dropWhile (cursor : Text) : Ends (cursor.dropWhile isPlain) := by
  intro c hc
  cases hd : isPlain c with
  | false => rfl
  | true =>
      have := List.head?_dropWhile_not isPlain cursor
      rw [Option.mem_def] at hc
      rw [hc] at this
      simp [hd] at this

theorem isPlain_of_space {c : Char} (h : isSpaceChar c = true) : isPlain c = false := by
  rw [isPlain, h]
  rfl

theorem not_space_of_plain {c : Char} (h : isPlain c = true) : isSpaceChar c = false := by
  cases hs : isSpaceChar c with
  | false => rfl
  | true => exact absurd h (by rw [isPlain_of_space hs]; exact Bool.false_ne_true)

/-- Spaces are skipped up to what is none. -/
theorem skipSpaces_append {s rest : Text} (hs : Spaces s) :
    skipSpaces (s ++ rest) = skipSpaces rest :=
  List.dropWhile_append_of_pos hs

theorem skipSpaces_cons {c : Char} {rest : Text} (hc : isSpaceChar c = false) :
    skipSpaces (c :: rest) = c :: rest :=
  List.dropWhile_cons_of_neg (by rw [hc]; exact Bool.false_ne_true)

theorem skipSpaces_split (cursor : Text) :
    ∃ s, Spaces s ∧ cursor = s ++ skipSpaces cursor :=
  ⟨cursor.takeWhile isSpaceChar, fun _ hc => List.mem_takeWhile_imp hc,
    (List.takeWhile_append_dropWhile ..).symm⟩

theorem skipSpaces_skipSpaces (cursor : Text) :
    skipSpaces (skipSpaces cursor) = skipSpaces cursor := by
  obtain ⟨s, hs, hcursor⟩ := skipSpaces_split cursor
  have h : skipSpaces (s ++ skipSpaces cursor) = skipSpaces (skipSpaces cursor) :=
    skipSpaces_append hs
  rw [← hcursor] at h
  exact h.symm

/-- What is behind spaces begins with a number, so no more of it is skipped. -/
theorem skipSpaces_plain {t rest : Text} (ht : Plain t) : skipSpaces (t ++ rest) = t ++ rest := by
  cases t with
  | nil => exact absurd rfl ht.1
  | cons c t => exact skipSpaces_cons (not_space_of_plain (ht.2 c (List.mem_cons_self ..)))

theorem parseValue_complete {s t rest : Text} {v : Nat} (hs : Spaces s) (ht : Plain t)
    (hv : readNumber t = some v) (hrest : Ends rest) :
    parseValue (s ++ t ++ rest) = some (v, rest) := by
  obtain ⟨htake, hdrop⟩ := takeWhile_plain ht hrest
  rw [parseValue_eq, List.append_assoc, skipSpaces_append hs, skipSpaces_plain ht, htake, hdrop,
    if_neg ht.1, hv]
  rfl

theorem parseValue_sound {cursor rest : Text} {v : Nat}
    (h : parseValue cursor = some (v, rest)) :
    ∃ s t, cursor = s ++ t ++ rest ∧ Spaces s ∧ Plain t ∧ readNumber t = some v ∧ Ends rest := by
  rw [parseValue_eq] at h
  obtain ⟨s, hs, hcursor⟩ := skipSpaces_split cursor
  generalize skipSpaces cursor = tail at h hcursor
  by_cases hempty : tail.takeWhile isPlain = []
  · rw [if_pos hempty] at h
    exact nomatch h
  · rw [if_neg hempty, Option.map_eq_some_iff] at h
    obtain ⟨v', hv, heq⟩ := h
    obtain ⟨rfl, rfl⟩ := Prod.mk.inj heq
    refine ⟨s, tail.takeWhile isPlain, ?_, hs,
      ⟨hempty, fun c hc => List.mem_takeWhile_imp hc⟩, hv, ends_dropWhile tail⟩
    rw [List.append_assoc, List.takeWhile_append_dropWhile, ← hcursor]

/-! ## Terms -/

theorem ends_operator {s rest : Text} {c : Char} (hs : Spaces s) (hc : isOperator c = true) :
    Ends (s ++ c :: rest) := by
  cases s with
  | nil =>
      intro d hd
      obtain rfl := Option.some.inj hd
      rw [isPlain, hc]
      exact Bool.and_false _
  | cons b s =>
      intro d hd
      obtain rfl := Option.some.inj hd
      exact isPlain_of_space (hs b (List.mem_cons_self ..))

theorem skipSpaces_operator {s rest : Text} {c : Char} (hs : Spaces s)
    (hc : isSpaceChar c = false) : skipSpaces (s ++ c :: rest) = c :: rest := by
  rw [skipSpaces_append hs, skipSpaces_cons hc]

/-- What follows a term: no factor. -/
def NoFactor (rest : Text) : Prop :=
  (skipSpaces rest).head? ≠ some '*' ∧ (skipSpaces rest).head? ≠ some '/'

theorem termLoop_stop {fuel result : Nat} {rest : Text} (h : NoFactor rest) :
    termLoop (fuel + 1) result rest = .ok (result, skipSpaces rest) := by
  rw [termLoop]
  split
  · next hmul => exact absurd (congrArg List.head? hmul) h.1
  · next hdiv => exact absurd (congrArg List.head? hdiv) h.2
  · rfl

theorem termLoop_mul {fuel a b : Nat} {s r t rest : Text} (hs : Spaces s) (hr : Spaces r)
    (ht : Plain t) (hb : readNumber t = some b) (hrest : Ends rest) (hfits : a * b ≤ 0xFFFFFFFF) :
    termLoop (fuel + 1) a (s ++ '*' :: (r ++ t ++ rest)) = termLoop fuel (a * b) rest := by
  have hover : ¬ (b ≠ 0 ∧ 0xFFFFFFFF / b < a) := by
    rintro ⟨hne, hlt⟩
    have := (Nat.div_lt_iff_lt_mul (Nat.pos_of_ne_zero hne)).mp hlt
    omega
  rw [termLoop, skipSpaces_operator hs (by decide)]
  simp only [parseValue_complete hr ht hb hrest, if_neg hover]

theorem termLoop_div {fuel a b : Nat} {s r t rest : Text} (hs : Spaces s) (hr : Spaces r)
    (ht : Plain t) (hb : readNumber t = some b) (hrest : Ends rest) (hne : b ≠ 0) :
    termLoop (fuel + 1) a (s ++ '/' :: (r ++ t ++ rest)) = termLoop fuel (a / b) rest := by
  rw [termLoop, skipSpaces_operator hs (by decide)]
  simp only [parseValue_complete hr ht hb hrest, if_neg hne]

/-- A term is read to its end, with rounds left for what follows. -/
theorem parseTerm_reaches {t : Text} {v : Nat} (h : Term readNumber t v) :
    ∀ rest, Ends rest → ∃ fuel, rest.length < fuel ∧
      parseTerm (t ++ rest) = termLoop fuel v rest := by
  induction h with
  | number hs ht hv =>
      intro rest hrest
      refine ⟨rest.length + 1, Nat.lt_succ_self _, ?_⟩
      rw [parseTerm, parseValue_complete hs ht hv hrest]
  | @mul l s r t a b _ hs hr ht hb hfits ih =>
      intro rest hrest
      obtain ⟨fuel, hfuel, hread⟩ := ih (s ++ '*' :: (r ++ t ++ rest)) (ends_operator hs (by decide))
      obtain ⟨fuel, rfl⟩ : ∃ k, fuel = k + 1 := Nat.exists_eq_succ_of_ne_zero (by omega)
      refine ⟨fuel, ?_, ?_⟩
      · simp only [List.length_append, List.length_cons] at hfuel
        omega
      · simp only [List.append_assoc, List.cons_append] at hread ⊢
        rw [hread, ← List.append_assoc r, termLoop_mul hs hr ht hb hrest hfits]
  | @div l s r t a b _ hs hr ht hb hne ih =>
      intro rest hrest
      obtain ⟨fuel, hfuel, hread⟩ := ih (s ++ '/' :: (r ++ t ++ rest)) (ends_operator hs (by decide))
      obtain ⟨fuel, rfl⟩ : ∃ k, fuel = k + 1 := Nat.exists_eq_succ_of_ne_zero (by omega)
      refine ⟨fuel, ?_, ?_⟩
      · simp only [List.length_append, List.length_cons] at hfuel
        omega
      · simp only [List.append_assoc, List.cons_append] at hread ⊢
        rw [hread, ← List.append_assoc r, termLoop_div hs hr ht hb hrest hne]

theorem parseTerm_complete {t rest : Text} {v : Nat} (h : Term readNumber t v) (hrest : Ends rest)
    (hstop : NoFactor rest) : parseTerm (t ++ rest) = .ok (v, skipSpaces rest) := by
  obtain ⟨fuel, hfuel, hread⟩ := parseTerm_reaches h rest hrest
  obtain ⟨fuel, rfl⟩ : ∃ k, fuel = k + 1 := Nat.exists_eq_succ_of_ne_zero (by omega)
  rw [hread, termLoop_stop hstop]

/-- Where the loop ends it has read a term, and spaces. -/
theorem termLoop_sound : ∀ (fuel a v : Nat) (cursor rest l : Text),
    termLoop fuel a cursor = .ok (v, rest) → Term readNumber l a → Ends cursor →
    ∃ m s, cursor = m ++ s ++ rest ∧ Spaces s ∧ Term readNumber (l ++ m) v ∧ Ends (s ++ rest) := by
  intro fuel
  induction fuel with
  | zero =>
      intro a v cursor rest l h
      exact nomatch h
  | succ fuel ih =>
      intro a v cursor rest l h hl hends
      obtain ⟨s, hs, hcursor⟩ := skipSpaces_split cursor
      rw [termLoop] at h
      split at h
      · next tail hmul =>
          split at h
          · exact nomatch h
          · next b tail' hvalue =>
              obtain ⟨r, t, htail, hr, ht, hb, hends'⟩ := parseValue_sound hvalue
              by_cases hover : b ≠ 0 ∧ 0xFFFFFFFF / b < a
              · rw [if_pos hover] at h
                exact nomatch h
              · rw [if_neg hover] at h
                have hfits : a * b ≤ 0xFFFFFFFF := by
                  by_cases hzero : b = 0
                  · rw [hzero, Nat.mul_zero]
                    exact Nat.zero_le _
                  · exact (Nat.le_div_iff_mul_le (Nat.pos_of_ne_zero hzero)).mp
                      (Nat.not_lt.mp fun hlt => hover ⟨hzero, hlt⟩)
                obtain ⟨m, s', hm, hs', hterm, hend⟩ :=
                  ih _ _ _ _ _ h (Term.mul hl hs hr ht hb hfits) hends'
                refine ⟨s ++ '*' :: (r ++ t) ++ m, s', ?_, hs', ?_, hend⟩
                · rw [hcursor, hmul, htail, hm]
                  simp only [List.append_assoc, List.cons_append]
                · rw [← List.append_assoc]
                  exact hterm
      · next tail hdiv =>
          split at h
          · exact nomatch h
          · next b tail' hvalue =>
              obtain ⟨r, t, htail, hr, ht, hb, hends'⟩ := parseValue_sound hvalue
              by_cases hzero : b = 0
              · rw [if_pos hzero] at h
                exact nomatch h
              · rw [if_neg hzero] at h
                obtain ⟨m, s', hm, hs', hterm, hend⟩ :=
                  ih _ _ _ _ _ h (Term.div hl hs hr ht hb hzero) hends'
                refine ⟨s ++ '/' :: (r ++ t) ++ m, s', ?_, hs', ?_, hend⟩
                · rw [hcursor, hdiv, htail, hm]
                  simp only [List.append_assoc, List.cons_append]
                · rw [← List.append_assoc]
                  exact hterm
      · obtain ⟨rfl, rfl⟩ := Prod.mk.inj (Except.ok.inj h)
        refine ⟨[], s, hcursor, hs, ?_, ?_⟩
        · rw [List.append_nil]
          exact hl
        · rw [← hcursor]
          exact hends

theorem parseTerm_sound {cursor rest : Text} {v : Nat} (h : parseTerm cursor = .ok (v, rest)) :
    ∃ t s, cursor = t ++ s ++ rest ∧ Spaces s ∧ Term readNumber t v ∧ Ends (s ++ rest) := by
  rw [parseTerm] at h
  split at h
  · exact nomatch h
  · next a tail hvalue =>
      obtain ⟨r, t, hcursor, hr, ht, ha, hends⟩ := parseValue_sound hvalue
      obtain ⟨m, s, htail, hs, hterm, hend⟩ :=
        termLoop_sound _ _ _ _ _ _ h (Term.number hr ht ha) hends
      refine ⟨r ++ t ++ m, s, ?_, hs, hterm, hend⟩
      rw [hcursor, htail]
      simp only [List.append_assoc]

/-! ## Sums -/

theorem sumLoop_skip (fuel v : Nat) (rest : Text) :
    sumLoop fuel v (skipSpaces rest) = sumLoop fuel v rest := by
  cases fuel with
  | zero => rfl
  | succ fuel => rw [sumLoop, sumLoop, skipSpaces_skipSpaces]

theorem noFactor_operator {s rest : Text} {c : Char} (hs : Spaces s) (hc : isSpaceChar c = false)
    (hmul : c ≠ '*') (hdiv : c ≠ '/') : NoFactor (s ++ c :: rest) := by
  rw [NoFactor, skipSpaces_operator hs hc]
  exact ⟨fun h => hmul (Option.some.inj h), fun h => hdiv (Option.some.inj h)⟩

/-- The loop of the evaluator as it is entered behind the first term. -/
def sumStart (cursor : Text) : Except MonitorError Nat :=
  match parseTerm cursor with
  | .error error => .error error
  | .ok (result, cursor) => sumLoop (cursor.length + 1) result cursor

theorem length_skipSpaces_le (rest : Text) : (skipSpaces rest).length ≤ rest.length :=
  (List.dropWhile_sublist _).length_le

/-- A sum is read to its end, with rounds left for what follows. -/
theorem sumStart_reaches {t : Text} {v : Nat} (h : Sum readNumber t v) :
    ∀ rest, Ends rest → NoFactor rest → ∃ fuel, (skipSpaces rest).length < fuel ∧
      sumStart (t ++ rest) = sumLoop fuel v rest := by
  induction h with
  | term hterm =>
      intro rest hrest hstop
      refine ⟨(skipSpaces rest).length + 1, Nat.lt_succ_self _, ?_⟩
      rw [sumStart, parseTerm_complete hterm hrest hstop]
      exact sumLoop_skip _ _ _
  | @add l s r a b _ hs hr hfits ih =>
      intro rest hrest hstop
      obtain ⟨fuel, hfuel, hread⟩ := ih (s ++ '+' :: (r ++ rest)) (ends_operator hs (by decide))
        (noFactor_operator hs (by decide) (by decide) (by decide))
      rw [skipSpaces_operator hs (by decide), List.length_cons, List.length_append] at hfuel
      obtain ⟨fuel, rfl⟩ : ∃ k, fuel = k + 1 := Nat.exists_eq_succ_of_ne_zero (by omega)
      have hle := length_skipSpaces_le rest
      refine ⟨fuel, by omega, ?_⟩
      simp only [List.append_assoc, List.cons_append] at hread ⊢
      rw [hread, sumLoop, skipSpaces_operator hs (by decide)]
      simp only [parseTerm_complete hr hrest hstop, if_neg (show ¬ 0xFFFFFFFF - b < a by omega),
        sumLoop_skip]
  | @sub l s r a b _ hs hr hfits ih =>
      intro rest hrest hstop
      obtain ⟨fuel, hfuel, hread⟩ := ih (s ++ '-' :: (r ++ rest)) (ends_operator hs (by decide))
        (noFactor_operator hs (by decide) (by decide) (by decide))
      rw [skipSpaces_operator hs (by decide), List.length_cons, List.length_append] at hfuel
      obtain ⟨fuel, rfl⟩ : ∃ k, fuel = k + 1 := Nat.exists_eq_succ_of_ne_zero (by omega)
      have hle := length_skipSpaces_le rest
      refine ⟨fuel, by omega, ?_⟩
      simp only [List.append_assoc, List.cons_append] at hread ⊢
      rw [hread, sumLoop, skipSpaces_operator hs (by decide)]
      simp only [parseTerm_complete hr hrest hstop, if_neg (Nat.not_lt.mpr hfits), sumLoop_skip]

/-- What the code takes a token for has 16 bits. -/
theorem binaryLoop_le (cursor : Text) : ∀ (digits parsed d v : Nat) (rest : Text),
    parsed ≤ 0xFFFF → binaryLoop cursor digits parsed = some (d, v, rest) → v ≤ 0xFFFF := by
  induction cursor with
  | nil =>
      intro digits parsed d v rest hle h
      obtain ⟨-, h⟩ := Prod.mk.inj (Option.some.inj h)
      obtain ⟨rfl, -⟩ := Prod.mk.inj h
      exact hle
  | cons c cursor ih =>
      intro digits parsed d v rest hle h
      rw [binaryLoop] at h
      by_cases hc : c = '0' ∨ c = '1'
      · rw [if_pos hc] at h
        by_cases hover : 0xFFFF < parsed * 2 + (c.toNat - '0'.toNat)
        · rw [if_pos hover] at h
          exact nomatch h
        · rw [if_neg hover] at h
          exact ih _ _ _ _ _ (Nat.not_lt.mp hover) h
      · rw [if_neg hc] at h
        obtain ⟨-, h⟩ := Prod.mk.inj (Option.some.inj h)
        obtain ⟨rfl, -⟩ := Prod.mk.inj h
        exact hle

theorem parseHexDigits_le {minDigits maxDigits maxValue v : Nat} {cursor rest : Text}
    (h : parseHexDigits minDigits maxDigits maxValue cursor = .ok (v, rest)) : v ≤ maxValue := by
  simp only [parseHexDigits] at h
  generalize hexLoop maxDigits (if (skipSpaces cursor).head? = some '$' then
    (skipSpaces cursor).tail else skipSpaces cursor) 0 0 = r at h
  by_cases hfew : r.1 < minDigits
  · rw [if_pos hfew] at h
    exact nomatch h
  · rw [if_neg hfew] at h
    by_cases hover : maxValue < r.2.1
    · rw [if_pos hover] at h
      exact nomatch h
    · rw [if_neg hover] at h
      obtain ⟨rfl, -⟩ := Prod.mk.inj (Except.ok.inj h)
      exact Nat.not_lt.mp hover

theorem parseBinary_le {cursor : Text} {v : Nat} (h : parseBinary cursor = some v) :
    v ≤ 0xFFFF := by
  rw [parseBinary] at h
  split at h
  · exact nomatch h
  · next hloop =>
      split at h
      · exact nomatch h
      · obtain rfl := Option.some.inj h
        exact binaryLoop_le _ _ _ _ _ _ (Nat.zero_le _) hloop

theorem parseDecimal_le {cursor : Text} {v : Nat} (h : parseDecimal cursor = some v) :
    v ≤ 0xFFFF := by
  rw [parseDecimal] at h
  dsimp only at h
  split at h
  · exact nomatch h
  · split at h
    · exact nomatch h
    · next hle =>
        obtain rfl := Option.some.inj h
        exact Nat.not_lt.mp hle

theorem parseNumberCore_le {t : Text} {v : Nat} (h : parseNumberCore t = .ok v) : v ≤ 0xFFFF := by
  rw [parseNumberCore] at h
  split at h
  · exact nomatch h
  · cases hhex : parseHexDigits 1 4 0xFFFF ((t.filter fun c => !isSpaceChar c).take 79) with
    | error e =>
        rw [hhex] at h
        exact nomatch h
    | ok r =>
        rw [hhex] at h
        obtain rfl := Except.ok.inj h
        exact @parseHexDigits_le 1 4 0xFFFF r.1 _ r.2 hhex
  · split at h
    · next hbinary =>
        obtain rfl := Except.ok.inj h
        exact parseBinary_le hbinary
    · exact nomatch h
  · split at h
    · next hdecimal =>
        obtain rfl := Except.ok.inj h
        exact parseDecimal_le hdecimal
    · exact nomatch h

theorem readNumber_le {t : Text} {v : Nat} (h : readNumber t = some v) : v ≤ 0xFFFF := by
  rw [readNumber] at h
  by_cases hlen : t.length ≤ 31
  · rw [if_pos hlen] at h
    cases hcore : parseNumberCore t with
    | error _ =>
        rw [hcore] at h
        exact nomatch h
    | ok v' =>
        rw [hcore] at h
        obtain rfl := Option.some.inj h
        exact parseNumberCore_le hcore
  · rw [if_neg hlen] at h
    exact nomatch h

/-- A term has 32 bits. -/
theorem term_le {t : Text} {v : Nat} (h : Term readNumber t v) : v ≤ 0xFFFFFFFF := by
  induction h with
  | number _ _ hv => exact Nat.le_trans (readNumber_le hv) (by decide)
  | mul _ _ _ _ _ hfits _ => exact hfits
  | div _ _ _ _ _ _ ih => exact Nat.le_trans (Nat.div_le_self _ _) ih

/-- Where the loop ends it has read the whole text. -/
theorem sumLoop_sound : ∀ (fuel a v : Nat) (cursor l : Text),
    sumLoop fuel a cursor = .ok v → Sum readNumber l a →
    ∃ m s, cursor = m ++ s ∧ Spaces s ∧ Sum readNumber (l ++ m) v := by
  intro fuel
  induction fuel with
  | zero =>
      intro a v cursor l h
      exact nomatch h
  | succ fuel ih =>
      intro a v cursor l h hl
      obtain ⟨s, hs, hcursor⟩ := skipSpaces_split cursor
      rw [sumLoop] at h
      split at h
      · next hempty =>
          obtain rfl := Except.ok.inj h
          refine ⟨[], s, ?_, hs, ?_⟩
          · rw [hcursor, hempty, List.append_nil, List.nil_append]
          · rw [List.append_nil]
            exact hl
      · next tail hadd =>
          split at h
          · exact nomatch h
          · next b tail' hterm =>
              obtain ⟨t, s', htail, hs', ht, -⟩ := parseTerm_sound hterm
              by_cases hover : 0xFFFFFFFF - b < a
              · rw [if_pos hover] at h
                exact nomatch h
              · rw [if_neg hover, ← sumLoop_skip, ← skipSpaces_append hs', sumLoop_skip] at h
                have hb := term_le ht
                obtain ⟨m, s'', hm, hs'', hsum⟩ := ih _ _ _ _ h (Sum.add hl hs ht (by omega))
                refine ⟨s ++ '+' :: t ++ m, s'', ?_, hs'', ?_⟩
                · rw [hcursor, hadd, htail, List.append_assoc t, hm]
                  simp only [List.append_assoc, List.cons_append]
                · rw [← List.append_assoc]
                  exact hsum
      · next tail hsub =>
          split at h
          · exact nomatch h
          · next b tail' hterm =>
              obtain ⟨t, s', htail, hs', ht, -⟩ := parseTerm_sound hterm
              by_cases hover : a < b
              · rw [if_pos hover] at h
                exact nomatch h
              · rw [if_neg hover, ← sumLoop_skip, ← skipSpaces_append hs', sumLoop_skip] at h
                obtain ⟨m, s'', hm, hs'', hsum⟩ :=
                  ih _ _ _ _ h (Sum.sub hl hs ht (Nat.not_lt.mp hover))
                refine ⟨s ++ '-' :: t ++ m, s'', ?_, hs'', ?_⟩
                · rw [hcursor, hsub, htail, List.append_assoc t, hm]
                  simp only [List.append_assoc, List.cons_append]
                · rw [← List.append_assoc]
                  exact hsum
      · exact nomatch h

/-! ## Expressions -/

/-- Without its bound the evaluator reads the expressions over the numbers as the code takes
    them. -/
theorem sumStart_eq_ok {text : Text} {v : Nat} :
    sumStart text = .ok v ↔ Expression readNumber text v := by
  constructor
  · intro h
    rw [sumStart] at h
    split at h
    · exact nomatch h
    · next a rest hterm =>
        obtain ⟨t, s, htext, hs, ht, -⟩ := parseTerm_sound hterm
        rw [← sumLoop_skip, ← skipSpaces_append hs, sumLoop_skip] at h
        obtain ⟨m, s', hm, hs', hsum⟩ := sumLoop_sound _ _ _ _ _ h (Sum.term ht)
        refine ⟨t ++ m, s', ?_, hs', hsum⟩
        rw [htext, List.append_assoc, hm, List.append_assoc]
  · rintro ⟨l, s, rfl, hs, hsum⟩
    have hempty : skipSpaces s = [] := by
      have hskip : skipSpaces (s ++ []) = skipSpaces [] := skipSpaces_append hs
      rwa [List.append_nil] at hskip
    have hends : Ends s := by
      intro c hc
      exact isPlain_of_space (hs c (List.mem_of_mem_head? hc))
    obtain ⟨fuel, hfuel, hread⟩ := sumStart_reaches hsum s hends (by
      rw [NoFactor, hempty]
      exact ⟨(fun h => nomatch h), (fun h => nomatch h)⟩)
    obtain ⟨fuel, rfl⟩ : ∃ k, fuel = k + 1 := Nat.exists_eq_succ_of_ne_zero (by omega)
    rw [hread, sumLoop, hempty]

/-- What the evaluator accepts. -/
theorem evaluate_eq_ok {text : Text} {maxValue : UInt16} {v : Nat} :
    evaluate text maxValue = .ok v ↔ Expression readNumber text v ∧ v ≤ maxValue.toNat := by
  rw [← sumStart_eq_ok]
  have hstart : evaluate text maxValue = match sumStart text with
      | .error error => .error error
      | .ok result => if maxValue.toNat < result then .error .monitorRange else .ok result := by
    rw [evaluate, sumStart]
    cases parseTerm text with
    | error e => rfl
    | ok r => rfl
  rw [hstart]
  cases sumStart text with
  | error e => simp
  | ok r =>
      by_cases hmax : maxValue.toNat < r
      · simp only [if_pos hmax]
        constructor
        · intro h
          exact nomatch h
        · rintro ⟨h, hle⟩
          obtain rfl := Except.ok.inj h
          omega
      · simp only [if_neg hmax]
        constructor
        · intro h
          obtain rfl := Except.ok.inj h
          exact ⟨rfl, Nat.not_lt.mp hmax⟩
        · exact fun h => h.1

/-! ## Two readings of the numbers -/

section Readings

variable {number number' : Text → Option Nat}

theorem isToken_left {l r t : Text} (h : IsToken l t) (hr : Ends r) : IsToken (l ++ r) t := by
  obtain ⟨ht, before, after, rfl, hafter, hbefore⟩ := h
  refine ⟨ht, before, after ++ r, by simp only [List.append_assoc], ?_, hbefore⟩
  cases after with
  | nil => exact hr
  | cons c after => exact hafter

theorem isToken_right {l r t : Text} {c : Char} (h : IsToken r t) (hc : isPlain c = false) :
    IsToken (l ++ c :: r) t := by
  obtain ⟨ht, before, after, rfl, hafter, hbefore⟩ := h
  refine ⟨ht, l ++ c :: before, after, by simp only [List.append_assoc, List.cons_append],
    hafter, ?_⟩
  rw [List.reverse_append, List.reverse_cons]
  cases hrev : before.reverse with
  | nil =>
      intro d hd
      obtain rfl := Option.some.inj hd
      exact hc
  | cons d before' =>
      rw [hrev] at hbefore
      exact hbefore

theorem isToken_number {s t : Text} (hs : Spaces s) (ht : Plain t) : IsToken (s ++ t) t := by
  refine ⟨ht, s, [], by rw [List.append_nil], (fun c hc => nomatch hc), ?_⟩
  intro c hc
  exact isPlain_of_space (hs c (List.mem_reverse.mp (List.mem_of_mem_head? hc)))

theorem operator_not_plain {c : Char} (h : isOperator c = true) : isPlain c = false := by
  rw [isPlain, h]
  exact Bool.and_false _

theorem Term.congr {t : Text} {v : Nat} (h : Term number t v) :
    (∀ u, IsToken t u → number u = number' u) → Term number' t v := by
  induction h with
  | number hs ht hv =>
      intro hsame
      exact Term.number hs ht ((hsame _ (isToken_number hs ht)).symm.trans hv)
  | mul _ hs hr ht hb hfits ih =>
      intro hsame
      refine Term.mul (ih fun u hu => hsame u (isToken_left hu (ends_operator hs (by decide))))
        hs hr ht ((hsame _ ?_).symm.trans hb) hfits
      rw [← List.append_assoc]
      exact isToken_right (isToken_number hr ht) (operator_not_plain (by decide))
  | div _ hs hr ht hb hne ih =>
      intro hsame
      refine Term.div (ih fun u hu => hsame u (isToken_left hu (ends_operator hs (by decide))))
        hs hr ht ((hsame _ ?_).symm.trans hb) hne
      rw [← List.append_assoc]
      exact isToken_right (isToken_number hr ht) (operator_not_plain (by decide))

theorem Sum.congr {t : Text} {v : Nat} (h : Sum number t v) :
    (∀ u, IsToken t u → number u = number' u) → Sum number' t v := by
  induction h with
  | term ht =>
      intro hsame
      exact Sum.term (ht.congr hsame)
  | add _ hs hr hfits ih =>
      intro hsame
      refine Sum.add (ih fun u hu => hsame u (isToken_left hu (ends_operator hs (by decide)))) hs
        (hr.congr fun u hu => hsame u ?_) hfits
      rw [← List.append_assoc]
      exact isToken_right hu (operator_not_plain (by decide))
  | sub _ hs hr hfits ih =>
      intro hsame
      refine Sum.sub (ih fun u hu => hsame u (isToken_left hu (ends_operator hs (by decide)))) hs
        (hr.congr fun u hu => hsame u ?_) hfits
      rw [← List.append_assoc]
      exact isToken_right hu (operator_not_plain (by decide))

/-- Only the numbers of the text matter. -/
theorem Expression.congr {text : Text} {v : Nat} (h : Expression number text v)
    (hsame : ∀ u, IsToken text u → number u = number' u) : Expression number' text v := by
  obtain ⟨l, s, rfl, hs, hsum⟩ := h
  refine ⟨l, s, rfl, hs, hsum.congr fun u hu => hsame u (isToken_left hu ?_)⟩
  intro c hc
  exact isPlain_of_space (hs c (List.mem_of_mem_head? hc))

end Readings

/-! ## One number -/

section Number

variable {number : Text → Option Nat}

theorem not_plain_of_operator {l s r : Text} {c : Char} (hc : isOperator c = true)
    (h : Plain (l ++ (s ++ c :: r))) : False := by
  have := h.2 c (by simp)
  rw [operator_not_plain hc] at this
  exact Bool.false_ne_true this

theorem Term.of_plain {t : Text} {v : Nat} (h : Term number t v) (ht : Plain t) :
    number t = some v := by
  cases h with
  | @number s t _ hs hp hv =>
      cases s with
      | nil => exact hv
      | cons c s =>
          have := ht.2 c (by simp)
          rw [isPlain_of_space (hs c (List.mem_cons_self ..))] at this
          exact absurd this Bool.false_ne_true
  | mul _ _ _ _ _ _ => exact (not_plain_of_operator (by decide) ht).elim
  | div _ _ _ _ _ _ => exact (not_plain_of_operator (by decide) ht).elim

theorem plain_left {l s : Text} (h : Plain (l ++ s)) (hs : Spaces s) : s = [] := by
  cases s with
  | nil => rfl
  | cons c s =>
      have := h.2 c (by simp)
      rw [isPlain_of_space (hs c (List.mem_cons_self ..))] at this
      exact absurd this Bool.false_ne_true

/-- One number is an expression with its own value. -/
theorem expression_plain {t : Text} {v : Nat} (ht : Plain t) :
    Expression number t v ↔ number t = some v := by
  constructor
  · rintro ⟨l, s, rfl, hs, hsum⟩
    obtain rfl := plain_left ht hs
    rw [List.append_nil] at ht ⊢
    cases hsum with
    | term hterm => exact hterm.of_plain ht
    | add _ _ _ _ => exact (not_plain_of_operator (by decide) ht).elim
    | sub _ _ _ _ => exact (not_plain_of_operator (by decide) ht).elim
  · intro hv
    have hempty : Spaces [] := fun c hc => nomatch hc
    exact ⟨t, [], by rw [List.append_nil], hempty, Sum.term (Term.number hempty ht hv)⟩

end Number

theorem exactDigits_le {base v : Nat} {digit : Char → Bool} {ds : Text}
    (h : exactDigits base digit ds = some v) : v ≤ 65535 := by
  rw [exactDigits] at h
  split at h
  · next hds =>
      obtain rfl := Option.some.inj h
      exact hds.2.2
  · exact nomatch h

theorem exactNumber_le {t : Text} {v : Nat} (h : exactNumber t = some v) : v ≤ 65535 := by
  unfold exactNumber at h
  split at h
  · exact exactDigits_le h
  · exact exactDigits_le h
  · exact exactDigits_le h

example : evaluate " 2 + $10*3/ %101 -1".toList 65535 = .ok 10 := by decide +kernel

end MonitorNumber
