import Mathlib

/-! # The small formatter

    `_my_vnprintf` walks over a format and writes what comes of it, as long as it has not
    written as many characters as it may.  `snprintf` leaves room for the terminator.

    A format is a list of pieces: texts, and unknown conversions, which are written as they
    stand.  Of a text as much is written as there is room for.  An unknown conversion is two
    characters and is written whole or not at all, and then the walk goes on: with room for
    one character what follows it takes the place. -/

namespace SmallPrintf

/-! ## The source

    Without `FP_SUPPORT`. -/

def hexchar (n : Nat) : Char := "0123456789ABCDEF".toList.getD (n % 16) '0'

/-- An argument: an `int`, or a pointer to characters. -/
inductive Arg
  | int (v : UInt32)
  | str (s : Option (List Char))

def signed (v : UInt32) : Int :=
  if v.toNat < 2147483648 then v.toNat else (v.toNat : Int) - 4294967296

/-- `while (v)` in `_cvt`: the digits, beginning with the last one. -/
def digitLoop : (fuel v : Nat) → List Char
  | 0, _ => []
  | fuel + 1, v => if v = 0 then [] else hexchar (v % 10) :: digitLoop fuel (v / 10)

/-- `_cvt` with the radix ten.  There is no text where the digits do not fit in `temp`. -/
def cvt (v : UInt32) (leadingZeros : Bool) (width : Int) (signd : Bool) : Option (List Char) :=
  let negative := signd && decide (signed v < 0)
  let sign := if negative = true then ['-'] else []
  let magnitude := if negative = true then (0 - v).toNat else v.toNat
  let digits := if magnitude = 0 then ['0'] else digitLoop 10 magnitude
  let temp :=
    if leadingZeros = true then
      digits ++ List.replicate (width - (sign.length + digits.length)).toNat '0'
    else digits
  if 16 < temp.length then none else some (sign ++ temp.reverse)

/-- `_hex`. -/
def hexText : (len v : Nat) → List Char
  | 0, _ => []
  | len + 1, v => hexText len (v / 16) ++ [hexchar v]

/-- `_bin`. -/
def binText : (len v : Nat) → List Char
  | 0, _ => []
  | len + 1, v => binText len (v / 2) ++ [if v % 2 = 1 then '*' else '.']

/-- What a conversion comes to: a character, a text between spaces, or nothing known. -/
inductive Conversion
  | char (c : Char)
  | field (prepad : Int) (text : List Char) (postpad : Int)
  | unknown (c : Char)

/-- `switch (c)`.  There is no result where the argument is missing or of another type, and
    where `temp` or `buf` is left. -/
def convert (c : Char) (leadingZeros : Bool) (width : Int) (args : List Arg) :
    Option (Conversion × List Arg) :=
  if c = 'd' ∨ c = 'u' ∨ c = 'i' then
    match args with
    | .int v :: args =>
        (cvt v leadingZeros width (c ≠ 'u')).map fun text =>
          (.field (width - text.length) text 0, args)
    | _ => none
  else if c = 's' then
    match args with
    | .str s :: args =>
        let s := s.getD "(null)".toList
        let length : Int := if width ≠ 0 ∧ width < s.length then width else s.length
        some (.field 0 (s.take length.toNat) (width - s.length), args)
    | _ => none
  else if c = 'c' then
    match args with
    | .int v :: args => some (.char (Char.ofNat (v.toNat % 256)), args)
    | _ => none
  else if c = 'p' then
    match args with
    | .int v :: args => some (.field 0 (hexText 8 v.toNat) 0, args)
    | _ => none
  else if c = 'x' ∨ c = 'X' then
    match args with
    | .int v :: args =>
        let length := if width = 0 ∨ 8 < width then 8 else width
        if length < 0 then none else some (.field 0 (hexText length.toNat v.toNat) 0, args)
    | _ => none
  else if c = 'b' then
    match args with
    | .int v :: args => some (.field 0 (hexText 2 v.toNat) 0, args)
    | _ => none
  else if c = 'B' then
    match args with
    | .int v :: args => some (.field 0 (binText 8 v.toNat) 0, args)
    | _ => none
  else some (.unknown c, args)

/-- The digits of a width: its value, and how many there are. -/
def widthLoop : (fmt : List Char) → (width count : Nat) → Nat × Nat
  | [], width, count => (width, count)
  | c :: fmt, width, count =>
      if '0' ≤ c ∧ c ≤ '9' then widthLoop fmt (width * 10 + (c.toNat - '0'.toNat)) (count + 1)
      else (width, count)

/-- The last character of a conversion, behind so many others. -/
def conversionEnd (leadingZeros : Bool) (width : Int) (before : Nat) (fmt : List Char)
    (args : List Arg) : Option (Conversion × Nat × List Arg) :=
  match fmt with
  | [] => none
  | c :: _ => (convert c leadingZeros width args).map fun r => (r.1, before + 1, r.2)

/-- What stands behind a `%`, and how many characters of the format that takes.  There is no
    result where the format ends in it: the walk goes on behind the terminator. -/
def conversion (fmt : List Char) (args : List Arg) : Option (Conversion × Nat × List Arg) :=
  let leadingZeros := decide (fmt.head? = some '0')
  let minus := if fmt.head? = some '-' then 1 else 0
  match fmt.drop minus with
  | [] => none
  | c :: rest =>
      if c = '#' ∨ c = '*' then
        match args with
        | .int v :: args => conversionEnd leadingZeros (signed v) (minus + 1) rest args
        | _ => none
      else
        let width := widthLoop (c :: rest) 0 0
        conversionEnd leadingZeros width.1 (minus + width.2) ((c :: rest).drop width.2) args

/-- So many characters may be written, with `none` for no bound. -/
def fits (limit : Option Nat) (n : Nat) : Bool := limit.all fun maxlen => decide (n ≤ maxlen)

/-- `while ((length-- > 0) && (res < maxlen))`. -/
def putText (limit : Option Nat) : (out text : List Char) → List Char
  | out, [] => out
  | out, c :: text =>
      if fits limit (out.length + 1) = true then putText limit (out ++ [c]) text else out

/-- `_my_vnprintf`, with as many characters of the format to be skipped as the last conversion
    has behind its `%`. -/
def myVnprintf (limit : Option Nat) :
    (fmt : List Char) → (skip : Nat) → List Arg → (out : List Char) → Option (List Char)
  | [], _, _, out => some out
  | _ :: fmt, skip + 1, args, out => myVnprintf limit fmt skip args out
  | c :: fmt, 0, args, out =>
      if fits limit (out.length + 1) = false then some out
      else if c = '%' then
        match conversion fmt args with
        | none => none
        | some (.char c, n, args) => myVnprintf limit fmt n args (out ++ [c])
        | some (.field prepad text postpad, n, args) =>
            let out := putText limit out (List.replicate prepad.toNat ' ')
            let out := putText limit out text
            let out := putText limit out (List.replicate postpad.toNat ' ')
            myVnprintf limit fmt n args out
        | some (.unknown c, n, args) =>
            myVnprintf limit fmt n args
              (if fits limit (out.length + 2) = true then out ++ ['%', c] else out)
      else myVnprintf limit fmt 0 args (out ++ [c])

def nul : Char := Char.ofNat 0

/-- `snprintf`: what is written to `str`. -/
def snprintf (size : Nat) (fmt : List Char) (args : List Arg) : Option (List Char) :=
  (myVnprintf (some (size - 1)) fmt 0 args []).map fun out =>
    if size = 0 then out else out ++ [nul]

/-- `sprintf`: its bound is 9999 characters. -/
def sprintf (fmt : List Char) (args : List Arg) : Option (List Char) :=
  (myVnprintf (some 9999) fmt 0 args []).map fun out => out ++ [nul]

/-- The text that comes of a format without any bound. -/
def unbounded (fmt : List Char) (args : List Arg) : Option (List Char) :=
  myVnprintf none fmt 0 args []

/-! ## The pieces of a format -/

/-- A text, an unknown conversion, or one that has no result. -/
inductive Piece
  | known (text : List Char)
  | unknown (c : Char)
  | broken

def Conversion.piece : Conversion → Piece
  | .char c => .known [c]
  | .field prepad text postpad =>
      .known (List.replicate prepad.toNat ' ' ++ (text ++ List.replicate postpad.toNat ' '))
  | .unknown c => .unknown c

def pieces : (fmt : List Char) → (skip : Nat) → List Arg → List Piece
  | [], _, _ => []
  | _ :: fmt, skip + 1, args => pieces fmt skip args
  | c :: fmt, 0, args =>
      if c = '%' then
        match conversion fmt args with
        | none => [.broken]
        | some (conv, n, args) => conv.piece :: pieces fmt n args
      else .known [c] :: pieces fmt 0 args

/-- The text of the pieces. -/
def whole : List Piece → List Char
  | [] => []
  | .known text :: ps => text ++ whole ps
  | .unknown c :: ps => '%' :: c :: whole ps
  | .broken :: _ => []

/-- What is written of them where there is room for so many characters. -/
def written : (room : Nat) → List Piece → List Char
  | _, [] => []
  | room, .known text :: ps => text.take room ++ written (room - text.length) ps
  | 0, .unknown _ :: _ => []
  | 1, .unknown _ :: ps => written 1 ps
  | room + 2, .unknown c :: ps => '%' :: c :: written room ps
  | _, .broken :: _ => []

/-- The text without the unknown conversions. -/
def knownText : List Piece → List Char
  | [] => []
  | .known text :: ps => text ++ knownText ps
  | .unknown _ :: ps => knownText ps
  | .broken :: _ => []

/-- Every conversion is complete. -/
def Complete (ps : List Piece) : Prop := ∀ p ∈ ps, p ≠ .broken

/-- An unknown conversion begins where there is room for one more character, and the texts
    behind it do not begin with a `%` themselves. -/
def Straddles : (room : Nat) → List Piece → Prop
  | _, [] => False
  | room, .known text :: ps => Straddles (room - text.length) ps
  | 0, .unknown _ :: _ => False
  | 1, .unknown _ :: ps => (knownText ps).head? ≠ some '%'
  | room + 2, .unknown _ :: ps => Straddles room ps
  | _, .broken :: _ => False

/-! ## What is written -/

theorem written_zero (ps : List Piece) : written 0 ps = [] := by
  induction ps with
  | nil => rfl
  | cons p ps ih =>
      cases p with
      | known text => rw [written, List.take_zero, Nat.zero_sub, ih, List.append_nil]
      | unknown c => rfl
      | broken => rfl

theorem written_one (ps : List Piece) : written 1 ps = (knownText ps).take 1 := by
  induction ps with
  | nil => rfl
  | cons p ps ih =>
      cases p with
      | known text =>
          cases text with
          | nil => exact ih
          | cons c text =>
              rw [written, List.length_cons, Nat.sub_eq_zero_of_le (Nat.le_add_left 1 _),
                written_zero]
              rfl
      | unknown c => exact ih
      | broken => rfl

theorem not_straddles_zero (ps : List Piece) : ¬ Straddles 0 ps := by
  induction ps with
  | nil => exact id
  | cons p ps ih =>
      cases p with
      | known text =>
          rw [Straddles, Nat.zero_sub]
          exact ih
      | unknown c => exact id
      | broken => exact id

theorem take_one_eq {c : Char} {text : List Char} : text.take 1 = [c] ↔ text.head? = some c := by
  cases text with
  | nil => simp
  | cons d text => simp

/-- As much as fits of the whole text is written, but where an unknown conversion straddles the
    end. -/
theorem written_eq_take_iff (ps : List Piece) : ∀ room : Nat,
    written room ps = (whole ps).take room ↔ ¬ Straddles room ps := by
  induction ps with
  | nil =>
      intro room
      rw [written, whole, List.take_nil]
      exact ⟨fun _ => id, fun _ => rfl⟩
  | cons p ps ih =>
      intro room
      cases p with
      | known text =>
          rw [written, whole, List.take_append, List.append_cancel_left_eq, Straddles]
          exact ih _
      | unknown c =>
          match room with
          | 0 =>
              rw [written_zero, List.take_zero]
              exact ⟨fun _ => not_straddles_zero _, fun _ => rfl⟩
          | 1 =>
              rw [written, written_one, whole, List.take_succ_cons, List.take_zero, take_one_eq,
                Straddles]
              exact not_not.symm
          | room + 2 =>
              rw [written, whole, List.take_succ_cons, List.take_succ_cons, Straddles,
                List.cons_inj_right, List.cons_inj_right]
              exact ih room
      | broken =>
          have hno : ∀ room, ¬ Straddles room (.broken :: ps) := by
            intro room
            cases room with
            | zero => exact id
            | succ room => exact id
          have hnil : written room (.broken :: ps) = [] := by
            cases room with
            | zero => rfl
            | succ room => rfl
          rw [hnil, whole, List.take_nil]
          exact ⟨fun _ => hno room, fun _ => rfl⟩

/-- A text that fits is written. -/
theorem written_of_fits (ps : List Piece) : ∀ room : Nat, (whole ps).length ≤ room →
    written room ps = whole ps := by
  induction ps with
  | nil =>
      intro room _
      rfl
  | cons p ps ih =>
      intro room hfits
      cases p with
      | known text =>
          rw [whole, List.length_append] at hfits
          rw [written, whole, List.take_of_length_le (by omega), ih _ (by omega)]
      | unknown c =>
          rw [whole, List.length_cons, List.length_cons] at hfits
          match room, hfits with
          | room + 2, hfits => rw [written, whole, ih room (by omega)]
      | broken =>
          cases room with
          | zero => rfl
          | succ room => rfl

theorem length_written_le (ps : List Piece) : ∀ room : Nat, (written room ps).length ≤ room := by
  induction ps with
  | nil =>
      intro room
      exact Nat.zero_le _
  | cons p ps ih =>
      intro room
      cases p with
      | known text =>
          have := ih (room - text.length)
          rw [written, List.length_append, List.length_take]
          omega
      | unknown c =>
          match room with
          | 0 => exact Nat.zero_le _
          | 1 => exact ih 1
          | room + 2 =>
              have := ih room
              rw [written, List.length_cons, List.length_cons]
              omega
      | broken =>
          cases room with
          | zero => exact Nat.le_refl _
          | succ room => exact Nat.zero_le _

/-! ## The formatter writes the pieces -/

theorem fits_none (n : Nat) : fits none n = true := rfl

theorem fits_some {maxlen n : Nat} : fits (some maxlen) n = true ↔ n ≤ maxlen := by
  rw [fits, Option.all_some, decide_eq_true_iff]

theorem putText_none (text : List Char) : ∀ out : List Char, putText none out text = out ++ text := by
  induction text with
  | nil =>
      intro out
      rw [putText, List.append_nil]
  | cons c text ih =>
      intro out
      rw [putText, if_pos (fits_none _), ih, List.append_assoc, List.singleton_append]

theorem putText_some (text : List Char) : ∀ (out : List Char) (room : Nat),
    putText (some (out.length + room)) out text = out ++ text.take room := by
  induction text with
  | nil =>
      intro out room
      rw [putText, List.take_nil, List.append_nil]
  | cons c text ih =>
      intro out room
      rw [putText]
      cases room with
      | zero =>
          rw [if_neg (by rw [fits_some]; omega), List.take_zero, List.append_nil]
      | succ room =>
          have hstep := ih (out ++ [c]) room
          rw [List.length_append, List.length_singleton, Nat.add_right_comm] at hstep
          rw [if_pos (fits_some.mpr (by omega)), Nat.add_succ, hstep, List.append_assoc,
            List.take_succ_cons, List.singleton_append]

/-- Three texts one after the other are one. -/
theorem putText_append (limit : Option Nat) (text text' : List Char) : ∀ out : List Char,
    putText limit (putText limit out text) text' = putText limit out (text ++ text') := by
  induction text with
  | nil =>
      intro out
      rfl
  | cons c text ih =>
      intro out
      rw [putText, List.cons_append, putText]
      by_cases hroom : fits limit (out.length + 1) = true
      · simp only [if_pos hroom]
        exact ih _
      · simp only [if_neg hroom]
        cases text' with
        | nil => rfl
        | cons d text' => rw [putText, if_neg hroom]

theorem complete_cons {p : Piece} {ps : List Piece} :
    Complete (p :: ps) ↔ p ≠ .broken ∧ Complete ps :=
  List.forall_mem_cons

/-- Without a bound the whole text is written, and there is one where every conversion is
    complete. -/
theorem myVnprintf_none (fmt : List Char) : ∀ (skip : Nat) (args : List Arg) (out : List Char),
    (Complete (pieces fmt skip args) →
      myVnprintf none fmt skip args out = some (out ++ whole (pieces fmt skip args))) ∧
    (¬ Complete (pieces fmt skip args) → myVnprintf none fmt skip args out = none) := by
  induction fmt with
  | nil =>
      intro skip args out
      constructor
      · intro _
        rw [myVnprintf, pieces, whole, List.append_nil]
      · intro h
        exact absurd (fun p hp => nomatch hp) h
  | cons c fmt ih =>
      intro skip args out
      cases skip with
      | succ skip => exact ih skip args out
      | zero =>
          have hfits : ¬ fits none (out.length + 1) = false := Bool.noConfusion
          rw [myVnprintf, pieces, if_neg hfits]
          by_cases hc : c = '%'
          · simp only [if_pos hc]
            cases hconv : conversion fmt args with
            | none =>
                constructor
                · intro h
                  exact absurd rfl (h _ (List.mem_singleton_self _))
                · intro _
                  rfl
            | some r =>
                obtain ⟨conv, n, args'⟩ := r
                cases conv with
                | char d =>
                    have h := ih n args' (out ++ [d])
                    simp only [Conversion.piece, complete_cons, whole]
                    refine ⟨fun hcomplete => ?_, fun hbroken => h.2 fun hc => hbroken ⟨nofun, hc⟩⟩
                    rw [h.1 hcomplete.2, List.append_assoc]
                | field prepad text postpad =>
                    have h := ih n args' (out ++ (List.replicate prepad.toNat ' ' ++
                      (text ++ List.replicate postpad.toNat ' ')))
                    simp only [Conversion.piece, complete_cons, whole, putText_none,
                      List.append_assoc] at h ⊢
                    refine ⟨fun hcomplete => ?_, fun hbroken => ?_⟩
                    · exact h.1 hcomplete.2
                    · exact h.2 fun hc => hbroken ⟨nofun, hc⟩
                | unknown d =>
                    have h := ih n args' (out ++ ['%', d])
                    simp only [Conversion.piece, complete_cons, whole]
                    refine ⟨fun hcomplete => ?_, fun hbroken => ?_⟩
                    · rw [if_pos (fits_none _), h.1 hcomplete.2, List.append_assoc]
                      rfl
                    · rw [if_pos (fits_none _)]
                      exact h.2 fun hc => hbroken ⟨nofun, hc⟩
          · simp only [if_neg hc]
            have h := ih 0 args (out ++ [c])
            simp only [complete_cons, whole]
            refine ⟨fun hcomplete => ?_, fun hbroken => h.2 fun hc => hbroken ⟨nofun, hc⟩⟩
            rw [h.1 hcomplete.2, List.append_assoc]

/-- With a bound as much of the pieces is written as there is room for. -/
theorem myVnprintf_some (fmt : List Char) :
    ∀ (skip : Nat) (args : List Arg) (out : List Char) (room : Nat),
      Complete (pieces fmt skip args) →
      myVnprintf (some (out.length + room)) fmt skip args out =
        some (out ++ written room (pieces fmt skip args)) := by
  induction fmt with
  | nil =>
      intro skip args out room _
      rw [myVnprintf, pieces, written, List.append_nil]
  | cons c fmt ih =>
      intro skip args out room hcomplete
      cases skip with
      | succ skip => exact ih skip args out room hcomplete
      | zero =>
          -- with no room left nothing is written, whatever the pieces are
          cases room with
          | zero =>
              have hfull : fits (some (out.length + 0)) (out.length + 1) = false := by
                rw [← Bool.not_eq_true, fits_some]
                omega
              rw [myVnprintf, if_pos hfull, written_zero, List.append_nil]
          | succ room =>
              have hroom : ¬ fits (some (out.length + (room + 1))) (out.length + 1) = false := by
                rw [Bool.not_eq_false, fits_some]
                omega
              rw [myVnprintf, if_neg hroom]
              rw [pieces] at hcomplete ⊢
              by_cases hc : c = '%'
              · simp only [if_pos hc] at hcomplete ⊢
                cases hconv : conversion fmt args with
                | none =>
                    rw [hconv] at hcomplete
                    exact absurd rfl (hcomplete _ (List.mem_singleton_self _))
                | some r =>
                    obtain ⟨conv, n, args'⟩ := r
                    rw [hconv] at hcomplete
                    simp only [complete_cons] at hcomplete
                    cases conv with
                    | char d =>
                        have h := ih n args' (out ++ [d]) room hcomplete.2
                        rw [List.length_append, List.length_singleton, Nat.add_assoc,
                          Nat.add_comm 1] at h
                        simp only [Conversion.piece, written, h, List.append_assoc,
                          List.length_singleton, Nat.add_sub_cancel, List.take_succ_cons,
                          List.take_nil]
                    | field prepad text postpad =>
                        simp only [Conversion.piece, putText_append, written]
                        rw [List.append_assoc]
                        generalize List.replicate prepad.toNat ' ' ++
                          (text ++ List.replicate postpad.toNat ' ') = body
                        rw [putText_some]
                        have h := ih n args' (out ++ body.take (room + 1))
                          (room + 1 - body.length) hcomplete.2
                        rw [List.length_append, List.length_take,
                          show out.length + min (room + 1) body.length + (room + 1 - body.length) =
                            out.length + (room + 1) by omega] at h
                        rw [h, List.append_assoc]
                    | unknown d =>
                        cases room with
                        | zero =>
                            have hone : ¬ fits (some (out.length + (0 + 1))) (out.length + 2)
                                = true := by
                              rw [fits_some]
                              omega
                            simp only [Conversion.piece, if_neg hone, ih n args' out 1 hcomplete.2,
                              written]
                        | succ room =>
                            have htwo : fits (some (out.length + (room + 1 + 1)))
                                (out.length + 2) = true := by
                              rw [fits_some]
                              omega
                            have h := ih n args' (out ++ ['%', d]) room hcomplete.2
                            rw [List.length_append, List.length_cons, List.length_singleton,
                              show out.length + (1 + 1) + room = out.length + (room + 1 + 1) by
                                omega] at h
                            simp only [Conversion.piece, if_pos htwo, h, written,
                              List.append_assoc]
                            rfl
              · simp only [if_neg hc] at hcomplete ⊢
                have h := ih 0 args (out ++ [c]) room (complete_cons.mp hcomplete).2
                rw [List.length_append, List.length_singleton, Nat.add_assoc,
                  Nat.add_comm 1] at h
                simp only [written, h, List.append_assoc, List.length_singleton,
                  Nat.add_sub_cancel, List.take_succ_cons, List.take_nil]

/-! ## `snprintf` -/

/-- What `snprintf` is for: it returns, it writes at most `size` characters with the
    terminator, and these are the beginning of the whole text. -/
def SnprintfRight (size : Nat) (fmt : List Char) (args : List Arg) : Prop :=
  ∃ text, snprintf size fmt args = some text ∧ text.length ≤ size ∧
    ∃ all, unbounded fmt args = some all ∧
      (size ≠ 0 → text = all.take (size - 1) ++ [nul])

theorem unbounded_eq {fmt : List Char} {args : List Arg} (h : Complete (pieces fmt 0 args)) :
    unbounded fmt args = some (whole (pieces fmt 0 args)) :=
  (myVnprintf_none fmt 0 args []).1 h

theorem myVnprintf_eq {fmt : List Char} {args : List Arg} (room : Nat)
    (h : Complete (pieces fmt 0 args)) :
    myVnprintf (some room) fmt 0 args [] = some (written room (pieces fmt 0 args)) := by
  have hsome := myVnprintf_some fmt 0 args [] room h
  rwa [List.length_nil, Nat.zero_add] at hsome

/-- `snprintf` is right for complete formats, unless an unknown conversion straddles the end.
    `sprintf` writes the whole text where it has at most 9999 characters. -/
theorem snprintf_right_iff (size : Nat) (fmt : List Char) (args : List Arg) :
    (SnprintfRight size fmt args ↔
      Complete (pieces fmt 0 args) ∧ ¬ Straddles (size - 1) (pieces fmt 0 args)) ∧
    ∀ all, unbounded fmt args = some all → all.length ≤ 9999 →
      sprintf fmt args = some (all ++ [nul]) := by
  have hcomplete : ∀ all, unbounded fmt args = some all → Complete (pieces fmt 0 args) := by
    intro all hall
    by_contra hbroken
    rw [unbounded, (myVnprintf_none fmt 0 args []).2 hbroken] at hall
    exact nomatch hall
  constructor
  · constructor
    · rintro ⟨text, hsn, -, all, hall, htext⟩
      have hc := hcomplete all hall
      refine ⟨hc, ?_⟩
      rw [unbounded_eq hc] at hall
      obtain rfl := Option.some.inj hall
      by_cases hsize : size = 0
      · rw [hsize]
        exact not_straddles_zero _
      · rw [snprintf, myVnprintf_eq _ hc, Option.map_some, if_neg hsize, htext hsize] at hsn
        exact (written_eq_take_iff _ _).mp (List.append_cancel_right (Option.some.inj hsn))
    · rintro ⟨hc, hstraddle⟩
      have htake := (written_eq_take_iff _ _).mpr hstraddle
      by_cases hsize : size = 0
      · refine ⟨[], ?_, Nat.zero_le _, _, unbounded_eq hc, fun h => absurd hsize h⟩
        rw [snprintf, myVnprintf_eq _ hc, hsize, Nat.zero_sub, written_zero]
        rfl
      · refine ⟨written (size - 1) (pieces fmt 0 args) ++ [nul], ?_, ?_, _, unbounded_eq hc, ?_⟩
        · rw [snprintf, myVnprintf_eq _ hc, Option.map_some, if_neg hsize]
        · have := length_written_le (pieces fmt 0 args) (size - 1)
          rw [List.length_append, List.length_singleton]
          omega
        · intro _
          rw [htake]
  · intro all hall hlen
    have hc := hcomplete all hall
    rw [unbounded_eq hc] at hall
    obtain rfl := Option.some.inj hall
    rw [sprintf, myVnprintf_eq _ hc, Option.map_some, written_of_fits _ _ hlen]

theorem snprintf_right_number :
    SnprintfRight 4 "%05d".toList [.int 7] ∧
      ∀ all, unbounded "%05d".toList [.int 7] = some all → all.length ≤ 9999 →
        sprintf "%05d".toList [.int 7] = some (all ++ [nul]) := by
  have h := snprintf_right_iff 4 "%05d".toList [.int 7]
  refine ⟨h.1.mpr ⟨?_, ?_⟩, h.2⟩
  · intro p hp hbroken
    rw [hbroken] at hp
    have : pieces "%05d".toList 0 [.int 7] = [.known "00007".toList] := by rfl
    rw [this] at hp
    exact absurd (List.mem_singleton.mp hp) nofun
  · exact id

example : snprintf 9 "%3d|%-4s|".toList [.int 42, .str (some "ab".toList)] =
    some (" 42|ab  ".toList ++ [nul]) := by rfl

/-- An unknown conversion that does not fit is passed over. -/
theorem snprintf_not_right : ¬ SnprintfRight 2 "%zA".toList [] := by
  rintro ⟨text, hsn, -, all, hall, htext⟩
  have hwritten : snprintf 2 "%zA".toList [] = some ['A', nul] := by rfl
  have hwhole : unbounded "%zA".toList [] = some ['%', 'z', 'A'] := by rfl
  rw [hwritten] at hsn
  rw [hwhole] at hall
  obtain rfl := Option.some.inj hsn
  obtain rfl := Option.some.inj hall
  exact absurd (htext (by decide)) (by decide)

end SmallPrintf
