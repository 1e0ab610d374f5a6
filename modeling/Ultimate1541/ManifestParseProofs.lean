import Ultimate1541.ManifestValueProofs

/-! # Reading a recovery manifest

    `recovery_manifest_split` finds the signature line of a manifest and
    `recovery_manifest_parse` reads the text before it, line by line:
    every line is `key=value`, the first is the format line, no key is
    unknown or comes twice, and every required one is there.

    The parser is tied to the text a list of entries is written as
    (`render`): it answers a manifest exactly when the text is that of
    entries that describe it (`Describes`).  One line is one entry
    (`parseLine_iff`), and the loop over the lines takes the entries in
    turn (`parseLoop_iff`).  Only the bytes it is given the length of
    are read (`parse_congr`), so that nothing behind the signed part
    counts. -/

namespace RecoveryManifest

/-! ## The text -/

/-- The memory the text pointer points to. -/
abbrev Text := Nat → UInt8

/-- The `n` bytes from `pos` on. -/
def slice (text : Text) (pos n : Nat) : List UInt8 :=
  (List.range' pos n).map text

@[simp] theorem length_slice (text : Text) (pos n : Nat) : (slice text pos n).length = n := by
  simp [slice]

theorem slice_succ (text : Text) (pos n : Nat) :
    slice text pos (n + 1) = text pos :: slice text (pos + 1) n := rfl

theorem slice_append (text : Text) (pos a b : Nat) :
    slice text pos (a + b) = slice text pos a ++ slice text (pos + a) b := by
  rw [slice, slice, slice, ← List.map_append, List.range'_append_1]

theorem slice_congr {text text' : Text} {pos n : Nat}
    (h : ∀ i, pos ≤ i → i < pos + n → text' i = text i) : slice text' pos n = slice text pos n := by
  refine List.map_congr_left fun i hi => ?_
  obtain ⟨hlo, hhi⟩ := List.mem_range'_1.mp hi
  exact h i hlo hhi

/-- The bytes of a slice, one by one. -/
theorem slice_eq_iff {text text' : Text} {pos n : Nat} :
    slice text' pos n = slice text pos n ↔ ∀ i, pos ≤ i → i < pos + n → text' i = text i := by
  refine ⟨fun h i hlo hhi => ?_, slice_congr⟩
  exact List.map_inj_left.mp h i (List.mem_range'_1.mpr ⟨hlo, hhi⟩)

/-! ## The parser -/

/-- The errors of a manifest. -/
inductive Refusal
  | tooLarge | noSignature | badSignature | badSyntax | format
  | unknownKey | duplicateKey | missingKey | badValue
deriving DecidableEq

/-- The scan for the end of the line that `eol` stands in, with `left`
    bytes of text from there; none where a byte may not stand in a line
    or the text ends first. -/
def lineEnd (text : Text) : Nat → Nat → Option Nat
  | 0, _ => none
  | left + 1, eol =>
      if text eol = 10 then some eol
      else if text eol < 0x20 ∨ text eol > 0x7E then none
      else lineEnd text left (eol + 1)

/-- The key of this name. -/
def findKey (name : List UInt8) : Option Key :=
  allKeys.find? fun k => k.name = name

/-- One line, its LF left off.  `seen` are the keys before it. -/
def parseLine (first : Bool) (line : List UInt8) (seen : List Key) (m : Manifest) :
    Except Refusal (List Key × Manifest) :=
  let name := line.takeWhile (· ≠ 61)
  if name.length = line.length ∨ name.length = 0 then .error .badSyntax
  else
    let v := line.drop (name.length + 1)
    if first then
      if findKey name = some .format ∧ v = ascii ['1'] then .ok (.format :: seen, m)
      else .error .format
    else
      match findKey name with
      | none => .error .unknownKey
      | some key =>
          if key ∈ seen then .error .duplicateKey
          else
            match parseValue m key v with
            | none => .error .badValue
            | some m' => .ok (key :: seen, m')

/-- The lines from `pos` on; none if the fuel runs out first. -/
def parseLoop (text : Text) (len : Nat) :
    Nat → Nat → List Key → Manifest → Option (Except Refusal (List Key × Manifest))
  | 0, pos, seen, m => if pos < len then none else some (.ok (seen, m))
  | fuel + 1, pos, seen, m =>
      if pos < len then
        match lineEnd text (len - pos) pos with
        | none => some (.error .badSyntax)
        | some eol =>
            match parseLine (pos = 0) (slice text pos (eol - pos)) seen m with
            | .error e => some (.error e)
            | .ok (seen', m') => parseLoop text len fuel (eol + 1) seen' m'
      else some (.ok (seen, m))

/-- The checks behind the last line. -/
def finish (len : Nat) (seen : List Key) (m : Manifest) : Except Refusal Manifest :=
  if len = 0 then .error .format
  else if ¬∀ k ∈ allKeys, k ≠ .serial → k ∈ seen then .error .missingKey
  else if .serial ∈ seen then .ok m
  else .ok { m with serial := anySerial }

/-- recovery_manifest_parse.  A line takes a byte at least, so the
    length is fuel enough (`parseLoop_returns`). -/
def parse (text : Text) (len : Nat) : Option (Except Refusal Manifest) :=
  match parseLoop text len len 0 [] Manifest.zero with
  | none => none
  | some (.error e) => some (.error e)
  | some (.ok (seen, m)) => some (finish len seen m)

/-! ## What a text says -/

/-- A key and its value. -/
abbrev Entry := Key × List UInt8

/-- The line of an entry, without its LF. -/
def lineOf (e : Entry) : List UInt8 :=
  e.1.name ++ 61 :: e.2

/-- The text of a list of entries. -/
def render (entries : List Entry) : List UInt8 :=
  entries.flatMap fun e => lineOf e ++ [10]

/-- The entries are those of a manifest, and `m` is that manifest. -/
structure Describes (entries : List Entry) (m : Manifest) : Prop where
  head : entries.head? = some (.format, ascii ['1'])
  once : (entries.map Prod.fst).Nodup
  required : ∀ k, k ≠ Key.serial → k ∈ entries.map Prod.fst
  chars : ∀ e ∈ entries, ∀ c ∈ e.2, printable c = true
  held : ∀ e ∈ entries, Holds m e.1 e.2
  anySerial : Key.serial ∉ entries.map Prod.fst → m.serial = anySerial

/-! ## The end of a line -/

theorem printable_iff (c : UInt8) :
    printable c = true ↔ ¬(c < 0x20 ∨ c > 0x7E) := by
  simp [printable, UInt8.not_lt]

/-- No printable byte ends a line. -/
theorem printable_ne_lf {c : UInt8} (h : printable c = true) : c ≠ 10 := by
  rintro rfl
  exact absurd h (by decide)

theorem lineEnd_iff (text : Text) (left eol e : Nat) :
    lineEnd text left eol = some e ↔ eol ≤ e ∧ e < eol + left ∧ text e = 10
      ∧ ∀ i, eol ≤ i → i < e → printable (text i) = true := by
  induction left generalizing eol with
  | zero =>
      refine ⟨(fun h => nomatch h), ?_⟩
      rintro ⟨h1, h2, _⟩
      omega
  | succ left ih =>
      by_cases hlf : text eol = 10
      · rw [lineEnd, if_pos hlf]
        constructor
        · intro h
          injection h with h
          subst h
          exact ⟨Nat.le_refl _, by omega, hlf, fun i h1 h2 => absurd h1 (by omega)⟩
        · rintro ⟨h1, _, _, hall⟩
          rcases Nat.eq_or_lt_of_le h1 with rfl | hlt
          · rfl
          · exact absurd hlf (printable_ne_lf (hall eol (Nat.le_refl _) hlt))
      · rw [lineEnd, if_neg hlf]
        by_cases hprint : printable (text eol) = true
        · rw [if_neg ((printable_iff _).mp hprint), ih]
          constructor
          · rintro ⟨h1, h2, h3, hall⟩
            refine ⟨by omega, by omega, h3, fun i hi hie => ?_⟩
            rcases Nat.eq_or_lt_of_le hi with rfl | hlt
            · exact hprint
            · exact hall i hlt hie
          · rintro ⟨h1, h2, h3, hall⟩
            have hne : eol ≠ e := fun h => hlf (h ▸ h3)
            exact ⟨by omega, by omega, h3, fun i hi => hall i (by omega)⟩
        · rw [if_pos (not_not.mp fun h => hprint ((printable_iff _).mpr h))]
          refine ⟨(fun h => nomatch h), ?_⟩
          rintro ⟨h1, _, h3, hall⟩
          have hne : eol ≠ e := fun h => hlf (h ▸ h3)
          exact absurd (hall eol (Nat.le_refl _) (by omega)) hprint

/-! ## One line -/

theorem findKey_iff (name : List UInt8) (k : Key) : findKey name = some k ↔ k.name = name := by
  constructor
  · intro h
    simpa using List.find?_some h
  · rintro rfl
    cases k <;> decide +kernel

/-- The name of a key holds no equals sign, and is not empty. -/
theorem name_chars (k : Key) : (∀ c ∈ k.name, c ≠ 61 ∧ printable c = true) ∧ k.name ≠ [] := by
  have hchars : k.name.all (fun c => c ≠ 61 ∧ printable c = true) = true := by
    cases k <;> decide +kernel
  refine ⟨fun c hc => of_decide_eq_true (List.all_eq_true.mp hchars c hc), ?_⟩
  cases k <;> exact List.cons_ne_nil _ _

/-- The name of an entry's line ends at its first equals sign. -/
theorem takeWhile_lineOf (e : Entry) : (lineOf e).takeWhile (· ≠ 61) = e.1.name := by
  rw [lineOf, List.takeWhile_append_of_pos]
  · simp
  · intro c hc
    simpa using ((name_chars e.1).1 c hc).1

/-- A line with an equals sign is the name before it, the sign and the
    value. -/
theorem line_split {line : List UInt8}
    (h : (line.takeWhile (· ≠ 61)).length ≠ line.length) :
    line = line.takeWhile (· ≠ 61) ++ 61 :: line.drop ((line.takeWhile (· ≠ 61)).length + 1) := by
  induction line with
  | nil => exact absurd rfl h
  | cons c line ih =>
      by_cases hc : c = 61
      · subst hc
        simp
      · have htw : (c :: line).takeWhile (· ≠ 61) = c :: line.takeWhile (· ≠ 61) := by
          simp [hc]
        rw [htw] at h ⊢
        have hrest := ih (fun heq => h (by rw [List.length_cons, heq, List.length_cons]))
        rw [List.cons_append, List.length_cons, List.drop_succ_cons]
        exact congrArg (c :: ·) hrest

/-- The line of an entry is read as that entry. -/
theorem parseLine_lineOf (first : Bool) (e : Entry) (seen : List Key) (m : Manifest) :
    parseLine first (lineOf e) seen m =
      if first then
        if e.1 = .format ∧ e.2 = ascii ['1'] then .ok (.format :: seen, m) else .error .format
      else if e.1 ∈ seen then .error .duplicateKey
      else
        match parseValue m e.1 e.2 with
        | none => .error .badValue
        | some m' => .ok (e.1 :: seen, m') := by
  have hkey : findKey e.1.name = some e.1 := (findKey_iff _ _).mpr rfl
  have hlen : ¬(e.1.name.length = (lineOf e).length ∨ e.1.name.length = 0) := by
    have hpos := List.length_pos_iff.mpr (name_chars e.1).2
    simp only [lineOf, List.length_append, List.length_cons]
    omega
  have hdrop : (lineOf e).drop (e.1.name.length + 1) = e.2 := by
    simp [lineOf, List.drop_append]
  simp only [parseLine, takeWhile_lineOf, if_neg hlen, hdrop, hkey, Option.some.injEq]

/-- A line that is taken is the line of an entry. -/
theorem parseLine_shape {first : Bool} {line : List UInt8} {seen : List Key} {m : Manifest}
    {r : List Key × Manifest} (h : parseLine first line seen m = .ok r) :
    ∃ e : Entry, line = lineOf e := by
  by_cases hname : (line.takeWhile (· ≠ 61)).length = line.length
      ∨ (line.takeWhile (· ≠ 61)).length = 0
  · simp only [parseLine, if_pos hname] at h
    exact nomatch h
  · have hline := line_split fun heq => hname (Or.inl heq)
    -- an unknown key is refused on the first line as on any other
    have hkey : ∃ k, findKey (line.takeWhile (· ≠ 61)) = some k := by
      simp only [parseLine, if_neg hname] at h
      cases hfind : findKey (line.takeWhile (· ≠ 61)) with
      | some k => exact ⟨k, rfl⟩
      | none =>
          rw [hfind] at h
          cases first <;> simp at h
    obtain ⟨k, hk⟩ := hkey
    exact ⟨(k, line.drop ((line.takeWhile (· ≠ 61)).length + 1)),
      by rw [lineOf, (findKey_iff _ _).mp hk]; exact hline⟩

/-- What an entry does to the keys seen and to the manifest. -/
def Takes (first : Bool) (e : Entry) (seen : List Key) (m m' : Manifest) : Prop :=
  if first then e = (.format, ascii ['1']) ∧ m' = m
  else e.1 ∉ seen ∧ parseValue m e.1 e.2 = some m'

theorem parseLine_iff (first : Bool) (line : List UInt8) (seen seen' : List Key)
    (m m' : Manifest) :
    parseLine first line seen m = .ok (seen', m') ↔
      ∃ e : Entry, line = lineOf e ∧ seen' = e.1 :: seen ∧ Takes first e seen m m' := by
  constructor
  · intro h
    obtain ⟨e, rfl⟩ := parseLine_shape h
    refine ⟨e, rfl, ?_⟩
    rw [parseLine_lineOf] at h
    cases first with
    | true =>
        rw [if_pos rfl] at h
        split at h
        · rename_i he
          injection h with h
          injection h with h1 h2
          rw [← h1, ← h2, he.1]
          exact ⟨rfl, Prod.ext he.1 he.2, rfl⟩
        · exact nomatch h
    | false =>
        rw [if_neg (nofun)] at h
        split at h
        · exact nomatch h
        · rename_i hseen
          split at h
          · exact nomatch h
          · rename_i m₁ hm
            injection h with h
            injection h with h1 h2
            rw [← h1, ← h2]
            exact ⟨rfl, hseen, hm⟩
  · rintro ⟨e, rfl, rfl, htakes⟩
    rw [parseLine_lineOf]
    cases first with
    | true =>
        obtain ⟨rfl, rfl⟩ : e = (.format, ascii ['1']) ∧ m' = m := htakes
        rfl
    | false =>
        obtain ⟨hseen, hm⟩ : e.1 ∉ seen ∧ parseValue m e.1 e.2 = some m' := htakes
        rw [if_neg (nofun), if_neg hseen, hm]

/-! ## All lines -/

/-- Entries taken in turn, none of them the first. -/
inductive TakesAll : List Entry → List Key → Manifest → List Key → Manifest → Prop
  | nil (seen : List Key) (m : Manifest) : TakesAll [] seen m seen m
  | cons {e : Entry} {es : List Entry} {seen seen' : List Key} {m m₁ m' : Manifest} :
      Takes false e seen m m₁ → TakesAll es (e.1 :: seen) m₁ seen' m' →
        TakesAll (e :: es) seen m seen' m'

/-- The values of the entries are printable. -/
def Clean (entries : List Entry) : Prop :=
  ∀ e ∈ entries, ∀ c ∈ e.2, printable c = true

/-- The text from `pos` is one line and what follows it. -/
theorem slice_line {text : Text} {pos len e : Nat} (hpos : pos ≤ e) (he : e < len)
    (hlf : text e = 10) :
    slice text pos (len - pos) = slice text pos (e - pos) ++ 10 :: slice text (e + 1) (len - (e + 1)) := by
  have hsplit : len - pos = (e - pos) + ((len - (e + 1)) + 1) := by omega
  rw [hsplit, slice_append, Nat.add_sub_cancel' hpos, slice_succ, hlf]

/-- A line of printable bytes ends where its LF is. -/
theorem lineEnd_of_line {text : Text} {pos len : Nat} {line rest : List UInt8}
    (htext : slice text pos (len - pos) = line ++ 10 :: rest)
    (hline : ∀ c ∈ line, printable c = true) :
    lineEnd text (len - pos) pos = some (pos + line.length)
      ∧ slice text pos line.length = line
      ∧ slice text (pos + line.length + 1) (len - (pos + line.length + 1)) = rest := by
  have hlen : len - pos = line.length + (rest.length + 1) := by
    have h := congrArg List.length htext
    rwa [length_slice, List.length_append, List.length_cons] at h
  rw [hlen, slice_append] at htext
  obtain ⟨hhead, htail⟩ := List.append_inj htext (length_slice _ _ _)
  rw [slice_succ] at htail
  injection htail with hlf hrest
  refine ⟨(lineEnd_iff _ _ _ _).mpr ⟨Nat.le_add_right _ _, by omega, hlf, fun i hlo hhi => ?_⟩,
    hhead, ?_⟩
  · refine hline _ ?_
    rw [← hhead]
    exact List.mem_map.mpr ⟨i, List.mem_range'_1.mpr ⟨hlo, hhi⟩, rfl⟩
  · rw [show len - (pos + line.length + 1) = rest.length by omega]
    exact hrest

/-- The line of an entry is printable when its value is. -/
theorem lineOf_printable {e : Entry} (h : ∀ c ∈ e.2, printable c = true) :
    ∀ c ∈ lineOf e, printable c = true := by
  intro c hc
  rcases List.mem_append.mp hc with hc | hc
  · exact ((name_chars e.1).1 c hc).2
  · rcases List.mem_cons.mp hc with rfl | hc
    · rfl
    · exact h c hc

/-- A step of the loop takes one entry off the text. -/
theorem parseLoop_step (text : Text) (len fuel pos : Nat) (hpos : pos < len)
    (seen seen' : List Key) (m m' : Manifest) :
    parseLoop text len (fuel + 1) pos seen m = some (.ok (seen', m')) ↔
      ∃ (e : Entry) (rest : List UInt8) (m₁ : Manifest),
        slice text pos (len - pos) = lineOf e ++ 10 :: rest
        ∧ (∀ c ∈ e.2, printable c = true)
        ∧ Takes (pos = 0) e seen m m₁
        ∧ parseLoop text len fuel (pos + (lineOf e).length + 1) (e.1 :: seen) m₁
            = some (.ok (seen', m')) := by
  constructor
  · intro h
    rw [parseLoop, if_pos hpos] at h
    split at h
    · exact nomatch h
    · rename_i eol heol
      obtain ⟨h1, h2, hlf, hprint⟩ := (lineEnd_iff _ _ _ _).mp heol
      split at h
      · exact nomatch h
      · rename_i r₁ m₁ hline
        obtain ⟨e, he, rfl, htakes⟩ := (parseLine_iff _ _ _ _ _ _).mp hline
        have hlen : (lineOf e).length = eol - pos := by rw [← he, length_slice]
        refine ⟨e, slice text (eol + 1) (len - (eol + 1)), m₁, ?_, fun c hc => ?_, htakes, ?_⟩
        · rw [slice_line h1 (by omega) hlf, he]
        · -- the value is part of the line that was scanned
          have hmem : c ∈ slice text pos (eol - pos) := by
            rw [he, lineOf]
            exact List.mem_append_right _ (List.mem_cons_of_mem _ hc)
          obtain ⟨i, hi, rfl⟩ := List.mem_map.mp hmem
          obtain ⟨hlo, hhi⟩ := List.mem_range'_1.mp hi
          exact hprint i hlo (by omega)
        · rw [hlen, Nat.add_sub_cancel' h1]
          exact h
  · rintro ⟨e, rest, m₁, htext, hchars, htakes, hrun⟩
    obtain ⟨heol, hslice, _⟩ := lineEnd_of_line htext (lineOf_printable hchars)
    have hline := (parseLine_iff (pos = 0) (lineOf e) seen (e.1 :: seen) m m₁).mpr
      ⟨e, rfl, rfl, htakes⟩
    rw [parseLoop, if_pos hpos, heol]
    simp only [Nat.add_sub_cancel_left, hslice, hline]
    exact hrun

/-- Behind the last line the loop is done. -/
theorem parseLoop_end {text : Text} {len pos : Nat} (h : ¬pos < len) (fuel : Nat)
    (seen : List Key) (m : Manifest) :
    parseLoop text len fuel pos seen m = some (.ok (seen, m)) := by
  cases fuel with
  | zero => rw [parseLoop, if_neg h]
  | succ fuel => rw [parseLoop, if_neg h]

/-- The rendered text begins with the first entry's line. -/
theorem render_cons (e : Entry) (es : List Entry) :
    render (e :: es) = lineOf e ++ 10 :: render es := by
  simp [render]

/-- Only no entries are written as no text. -/
theorem render_eq_nil {es : List Entry} (h : render es = []) : es = [] := by
  cases es with
  | nil => rfl
  | cons e es =>
      rw [render_cons] at h
      simp at h

/-- With no text left there are no entries to take. -/
theorem parseEnd_iff (text : Text) (pos : Nat) (seen seen' : List Key) (m m' : Manifest) :
    some (Except.ok (ε := Refusal) (seen, m)) = some (.ok (seen', m')) ↔
      ∃ es : List Entry, slice text pos 0 = render es ∧ Clean es
        ∧ TakesAll es seen m seen' m' := by
  constructor
  · intro h
    injection h with h
    injection h with h
    injection h with h1 h2
    subst h1 h2
    exact ⟨[], rfl, (fun e he => (List.not_mem_nil he).elim), .nil _ _⟩
  · rintro ⟨es, hes, _, hall⟩
    obtain rfl := render_eq_nil hes.symm
    cases hall
    rfl

/-- From the second line on, the loop takes the entries the text is
    made of. -/
theorem parseLoop_iff (text : Text) (len : Nat) (fuel pos : Nat) (hpos : pos ≠ 0)
    (hle : pos ≤ len) (hfuel : len - pos ≤ fuel) (seen seen' : List Key) (m m' : Manifest) :
    parseLoop text len fuel pos seen m = some (.ok (seen', m')) ↔
      ∃ es : List Entry, slice text pos (len - pos) = render es ∧ Clean es
        ∧ TakesAll es seen m seen' m' := by
  induction fuel generalizing pos seen m with
  | zero =>
      have hend : ¬pos < len := by omega
      rw [parseLoop_end hend, show len - pos = 0 by omega]
      exact parseEnd_iff text pos seen seen' m m'
  | succ fuel ih =>
      by_cases hlt : pos < len
      · rw [parseLoop_step text len fuel pos hlt]
        have hfirst : decide (pos = 0) = false := decide_eq_false hpos
        rw [hfirst]
        constructor
        · rintro ⟨e, rest, m₁, htext, hchars, htakes, hrun⟩
          obtain ⟨_, _, hrest⟩ := lineEnd_of_line htext (lineOf_printable hchars)
          have hlen : len - pos = (lineOf e).length + (rest.length + 1) := by
            have h := congrArg List.length htext
            rwa [length_slice, List.length_append, List.length_cons] at h
          obtain ⟨es, hes, hclean, hall⟩ :=
            (ih _ (by omega) (by omega) (by omega) _ _).mp hrun
          refine ⟨e :: es, ?_, ?_, .cons htakes hall⟩
          · rw [htext, render_cons, ← hes, hrest]
          · exact List.forall_mem_cons.mpr ⟨hchars, hclean⟩
        · rintro ⟨es, htext, hclean, hall⟩
          cases hall with
          | nil =>
              -- there is text left, so there is an entry left
              have h := congrArg List.length htext
              rw [length_slice] at h
              exact absurd h (by simp [render]; omega)
          | cons htakes hall =>
              rename_i e es m₁
              rw [render_cons] at htext
              have hchars := hclean e (List.mem_cons_self ..)
              obtain ⟨_, _, hrest⟩ := lineEnd_of_line htext (lineOf_printable hchars)
              have hlen : len - pos = (lineOf e).length + ((render es).length + 1) := by
                have h := congrArg List.length htext
                rwa [length_slice, List.length_append, List.length_cons] at h
              refine ⟨e, render es, m₁, htext, hchars, htakes, ?_⟩
              exact (ih _ (by omega) (by omega) (by omega) _ _).mpr
                ⟨es, hrest, fun d hd => hclean d (List.mem_cons_of_mem _ hd), hall⟩
      · rw [parseLoop_end hlt, show len - pos = 0 by omega]
        exact parseEnd_iff text pos seen seen' m m'

/-- The loop never runs out of fuel. -/
theorem parseLoop_returns (text : Text) (len fuel pos : Nat) (hfuel : len - pos ≤ fuel)
    (seen : List Key) (m : Manifest) : ∃ r, parseLoop text len fuel pos seen m = some r := by
  induction fuel generalizing pos seen m with
  | zero => exact ⟨_, parseLoop_end (by omega) _ _ _⟩
  | succ fuel ih =>
      by_cases hlt : pos < len
      · rw [parseLoop, if_pos hlt]
        split
        · exact ⟨_, rfl⟩
        · rename_i eol heol
          obtain ⟨h1, h2, _⟩ := (lineEnd_iff _ _ _ _).mp heol
          split
          · exact ⟨_, rfl⟩
          · exact ih (eol + 1) (by omega) _ _
      · exact ⟨_, parseLoop_end hlt _ _ _⟩

/-! ## The entries taken -/

/-- The keys seen are those of the entries, each of them once. -/
theorem TakesAll.keys {es : List Entry} {seen seen' : List Key} {m m' : Manifest}
    (h : TakesAll es seen m seen' m') :
    (∀ k, k ∈ seen' ↔ k ∈ seen ∨ k ∈ es.map Prod.fst) ∧ (es.map Prod.fst).Nodup
      ∧ ∀ k ∈ es.map Prod.fst, k ∉ seen := by
  induction h with
  | nil seen m => simp
  | @cons e es seen seen' m m₁ m' htakes _ ih =>
      obtain ⟨hkeys, hnodup, hfresh⟩ := ih
      obtain ⟨hnew, _⟩ : e.1 ∉ seen ∧ parseValue m e.1 e.2 = some m₁ := htakes
      refine ⟨fun k => ?_, ?_, fun k hk => ?_⟩
      · rw [hkeys, List.map_cons, List.mem_cons, List.mem_cons]
        tauto
      · rw [List.map_cons, List.nodup_cons]
        exact ⟨fun hmem => hfresh _ hmem (List.mem_cons_self ..), hnodup⟩
      · rcases List.mem_cons.mp hk with rfl | hk
        · exact hnew
        · exact fun hmem => hfresh k hk (List.mem_cons_of_mem _ hmem)

/-- What no entry names stays as it is. -/
theorem TakesAll.keeps {es : List Entry} {seen seen' : List Key} {m m' : Manifest}
    (h : TakesAll es seen m seen' m') {k : Key} (hk : k ∉ es.map Prod.fst) {w : List UInt8} :
    Holds m' k w ↔ Holds m k w := by
  induction h with
  | nil seen m => exact Iff.rfl
  | @cons e es seen seen' m m₁ m' htakes _ ih =>
      rw [List.map_cons, List.mem_cons, not_or] at hk
      rw [ih hk.2]
      exact parseValue_keeps htakes.2 hk.1

/-- Every entry taken is held in the end. -/
theorem TakesAll.held {es : List Entry} {seen seen' : List Key} {m m' : Manifest}
    (h : TakesAll es seen m seen' m') : ∀ e ∈ es, Holds m' e.1 e.2 := by
  induction h with
  | nil seen m => exact fun e he => (List.not_mem_nil he).elim
  | @cons e es seen seen' m m₁ m' htakes hall ih =>
      refine List.forall_mem_cons.mpr ⟨?_, ih⟩
      -- no later entry has the same key
      have hlater : e.1 ∉ es.map Prod.fst :=
        fun hmem => hall.keys.2.2 _ hmem (List.mem_cons_self ..)
      exact (hall.keeps hlater).mpr (parseValue_holds htakes.2)

/-- Entries that some manifest holds, with new keys, are all taken. -/
theorem takesAll_of_held {es : List Entry} {M : Manifest} (hheld : ∀ e ∈ es, Holds M e.1 e.2)
    (hnodup : (es.map Prod.fst).Nodup) {seen : List Key}
    (hfresh : ∀ k ∈ es.map Prod.fst, k ∉ seen) (hformat : Key.format ∈ seen) (m : Manifest) :
    ∃ seen' m', TakesAll es seen m seen' m' := by
  induction es generalizing seen m with
  | nil => exact ⟨seen, m, .nil _ _⟩
  | cons e es ih =>
      rw [List.map_cons, List.nodup_cons] at hnodup
      obtain ⟨he, hes⟩ := List.forall_mem_cons.mp hheld
      have hnew : e.1 ∉ seen := hfresh _ (List.mem_cons_self ..)
      have hne : e.1 ≠ .format := fun heq => hnew (heq ▸ hformat)
      obtain ⟨m₁, hm₁⟩ := parseValue_takes hne he m
      have hfresh' : ∀ k ∈ es.map Prod.fst, k ∉ e.1 :: seen := by
        intro k hk hmem
        rcases List.mem_cons.mp hmem with rfl | hmem
        · exact hnodup.1 hk
        · exact hfresh k (List.mem_cons_of_mem _ hk) hmem
      obtain ⟨seen', m', hall⟩ := ih hes hnodup.2 hfresh' (List.mem_cons_of_mem _ hformat) m₁
      exact ⟨seen', m', .cons ⟨hnew, hm₁⟩ hall⟩

/-! ## The whole text -/

/-- The first line of every manifest. -/
def formatLine : Entry := (.format, ascii ['1'])

theorem formatLine_printable : ∀ c ∈ formatLine.2, printable c = true :=
  List.all_eq_true.mp (by decide +kernel)

/-- The loop over a whole text takes the format line and then entries. -/
theorem parseLoop_whole (text : Text) (len : Nat) (hlen : len ≠ 0) (seen : List Key)
    (m : Manifest) :
    parseLoop text len len 0 [] Manifest.zero = some (.ok (seen, m)) ↔
      ∃ es : List Entry, slice text 0 len = render (formatLine :: es) ∧ Clean es
        ∧ TakesAll es [.format] Manifest.zero seen m := by
  obtain ⟨n, rfl⟩ := Nat.exists_eq_succ_of_ne_zero hlen
  rw [parseLoop_step text (n + 1) n 0 (by omega)]
  constructor
  · rintro ⟨e, rest, m₁, htext, hchars, ⟨rfl, rfl⟩, hrun⟩
    obtain ⟨_, _, hrest⟩ := lineEnd_of_line htext (lineOf_printable hchars)
    have hle : n + 1 = (lineOf formatLine).length + (rest.length + 1) := by
      have h := congrArg List.length htext
      rwa [length_slice, List.length_append, List.length_cons] at h
    obtain ⟨es, hes, hclean, hall⟩ := (parseLoop_iff text (n + 1) n _ (by omega)
      (by show 0 + (lineOf formatLine).length + 1 ≤ n + 1; omega)
      (by show n + 1 - (0 + (lineOf formatLine).length + 1) ≤ n; omega) _ _ _ _).mp hrun
    refine ⟨es, ?_, hclean, hall⟩
    rw [render_cons, ← hes]
    rw [hrest]
    exact htext
  · rintro ⟨es, htext, hclean, hall⟩
    rw [render_cons] at htext
    obtain ⟨_, _, hrest⟩ := lineEnd_of_line htext (lineOf_printable formatLine_printable)
    have hle : n + 1 = (lineOf formatLine).length + ((render es).length + 1) := by
      have h := congrArg List.length htext
      rwa [length_slice, List.length_append, List.length_cons] at h
    refine ⟨formatLine, render es, Manifest.zero, htext, formatLine_printable, ⟨rfl, rfl⟩, ?_⟩
    exact (parseLoop_iff text (n + 1) n _ (by omega) (by omega) (by omega) _ _ _ _).mpr
      ⟨es, hrest, hclean, hall⟩

/-- The checks behind the last line, as conditions. -/
theorem finish_ok_iff (len : Nat) (seen : List Key) (m m' : Manifest) :
    finish len seen m = .ok m' ↔ len ≠ 0 ∧ (∀ k, k ≠ Key.serial → k ∈ seen)
      ∧ m' = if .serial ∈ seen then m else { m with serial := anySerial } := by
  have hall : (∀ k ∈ allKeys, k ≠ .serial → k ∈ seen) ↔ ∀ k, k ≠ Key.serial → k ∈ seen :=
    ⟨fun h k => h k (mem_allKeys k), fun h k _ => h k⟩
  by_cases hlen : len = 0
  · rw [finish, if_pos hlen]
    exact ⟨(fun h => nomatch h), fun h => absurd hlen h.1⟩
  · by_cases hreq : ∀ k ∈ allKeys, k ≠ .serial → k ∈ seen
    · rw [finish, if_neg hlen, if_neg (not_not.mpr hreq)]
      by_cases hserial : Key.serial ∈ seen
      · rw [if_pos hserial, if_pos hserial]
        exact ⟨fun h => ⟨hlen, hall.mp hreq, (Except.ok.inj h).symm⟩,
          fun h => congrArg Except.ok h.2.2.symm⟩
      · rw [if_neg hserial, if_neg hserial]
        exact ⟨fun h => ⟨hlen, hall.mp hreq, (Except.ok.inj h).symm⟩,
          fun h => congrArg Except.ok h.2.2.symm⟩
    · rw [finish, if_neg hlen, if_pos hreq]
      exact ⟨(fun h => nomatch h), fun h => absurd (hall.mpr h.2.1) hreq⟩

/-- A manifest is answered exactly when the loop ends well and the
    checks behind it pass. -/
theorem parse_eq_ok (text : Text) (len : Nat) (m : Manifest) :
    parse text len = some (.ok m) ↔ ∃ seen m₀,
      parseLoop text len len 0 [] Manifest.zero = some (.ok (seen, m₀))
        ∧ finish len seen m₀ = .ok m := by
  rw [parse]
  constructor
  · intro h
    split at h
    · exact nomatch h
    · exact nomatch h
    · rename_i seen m₀ hloop
      exact ⟨seen, m₀, hloop, Option.some.inj h⟩
  · rintro ⟨seen, m₀, hloop, hfinish⟩
    rw [hloop]
    exact congrArg some hfinish

theorem parse_returns (text : Text) (len : Nat) : ∃ r, parse text len = some r := by
  obtain ⟨r, hr⟩ := parseLoop_returns text len len 0 (Nat.le_refl _) [] Manifest.zero
  rw [parse, hr]
  rcases r with _ | ⟨_, _⟩
  · exact ⟨_, rfl⟩
  · exact ⟨_, rfl⟩

/-- The manifest the lines leave, with the pattern for an absent serial
    line, is the one the entries describe. -/
theorem describes_of_takesAll {es : List Entry} {seen : List Key} {m : Manifest}
    (hclean : Clean es) (hall : TakesAll es [.format] Manifest.zero seen m)
    (hreq : ∀ k, k ≠ Key.serial → k ∈ seen) :
    Describes (formatLine :: es)
      (if .serial ∈ seen then m else { m with serial := anySerial }) := by
  obtain ⟨hkeys, hnodup, hfresh⟩ := hall.keys
  have hseen : ∀ k, k ∈ seen ↔ k ∈ (formatLine :: es).map Prod.fst := by
    intro k
    rw [hkeys, List.mem_singleton, List.map_cons, List.mem_cons]
    exact Iff.rfl
  have hheld : ∀ e ∈ formatLine :: es, Holds m e.1 e.2 :=
    List.forall_mem_cons.mpr ⟨rfl, hall.held⟩
  refine ⟨rfl, ?_, fun k hk => (hseen k).mp (hreq k hk), ?_, fun e he => ?_, fun hserial => ?_⟩
  · rw [List.map_cons, List.nodup_cons]
    exact ⟨fun hmem => hfresh _ hmem (List.mem_singleton_self _), hnodup⟩
  · exact List.forall_mem_cons.mpr ⟨formatLine_printable, hclean⟩
  · by_cases hserial : Key.serial ∈ seen
    · rw [if_pos hserial]
      exact hheld e he
    · rw [if_neg hserial]
      refine (holds_withSerial fun heq => hserial ?_).mpr (hheld e he)
      exact (hseen _).mpr (heq ▸ List.mem_map_of_mem he)
  · rw [if_neg fun hmem => hserial ((hseen _).mp hmem)]

/-- The entries of a text describe one manifest at most. -/
theorem Describes.unique {entries : List Entry} {m m' : Manifest} (h : Describes entries m)
    (h' : Describes entries m') : m = m' := by
  have hvalue : ∀ k, k ∈ entries.map Prod.fst → ∃ v, Holds m k v ∧ Holds m' k v := by
    intro k hk
    obtain ⟨e, he, rfl⟩ := List.mem_map.mp hk
    exact ⟨e.2, h.held e he, h'.held e he⟩
  refine holds_unique (fun k hk => hvalue k (h.required k hk)) ?_
  by_cases hserial : Key.serial ∈ entries.map Prod.fst
  · obtain ⟨v, hv, hv'⟩ := hvalue _ hserial
    exact hv.1.trans hv'.1.symm
  · rw [h.anySerial hserial, h'.anySerial hserial]

/-- The parser answers a manifest exactly when the text is that of
    entries that describe it. -/
theorem parse_ok_iff (text : Text) (len : Nat) (m : Manifest) :
    parse text len = some (.ok m) ↔
      ∃ entries, slice text 0 len = render entries ∧ Describes entries m := by
  rw [parse_eq_ok]
  constructor
  · rintro ⟨seen, m₀, hloop, hfinish⟩
    obtain ⟨hlen, hreq, rfl⟩ := (finish_ok_iff _ _ _ _).mp hfinish
    obtain ⟨es, htext, hclean, hall⟩ := (parseLoop_whole text len hlen seen m₀).mp hloop
    exact ⟨formatLine :: es, htext, describes_of_takesAll hclean hall hreq⟩
  · rintro ⟨entries, htext, hdesc⟩
    obtain ⟨es, rfl⟩ := List.head?_eq_some_iff.mp hdesc.head
    have hlen : len ≠ 0 := by
      rintro rfl
      exact nomatch (render_eq_nil htext.symm)
    have honce := hdesc.once
    rw [List.map_cons, List.nodup_cons] at honce
    have hclean : Clean es := fun e he => hdesc.chars e (List.mem_cons_of_mem _ he)
    obtain ⟨seen, m₀, hall⟩ := takesAll_of_held
      (fun e he => hdesc.held e (List.mem_cons_of_mem _ he)) honce.2
      (fun k hk (hmem : k ∈ [Key.format]) => honce.1 (List.mem_singleton.mp hmem ▸ hk))
      (List.mem_singleton_self _) Manifest.zero
    have hreq : ∀ k, k ≠ Key.serial → k ∈ seen := by
      intro k hk
      rw [hall.keys.1, List.mem_singleton]
      exact List.mem_cons.mp (hdesc.required k hk)
    refine ⟨seen, m₀, (parseLoop_whole text len hlen seen m₀).mpr ⟨es, htext, hclean, hall⟩, ?_⟩
    exact (finish_ok_iff _ _ _ _).mpr
      ⟨hlen, hreq, hdesc.unique (describes_of_takesAll hclean hall hreq)⟩

/-! ## The signed part -/

/-- Two texts with the same line have it end in the same place. -/
theorem lineEnd_congr (text text' : Text) (left eol : Nat)
    (h : ∀ i, eol ≤ i → i < eol + left → text' i = text i) :
    lineEnd text' left eol = lineEnd text left eol := by
  induction left generalizing eol with
  | zero => rfl
  | succ left ih =>
      rw [lineEnd, lineEnd, h eol (Nat.le_refl _) (by omega),
        ih (eol + 1) fun i hlo hhi => h i (by omega) (by omega)]

/-- Nothing behind the length given is read. -/
theorem parseLoop_congr {text text' : Text} {len : Nat} (h : ∀ i < len, text' i = text i)
    (fuel pos : Nat) (seen : List Key) (m : Manifest) :
    parseLoop text' len fuel pos seen m = parseLoop text len fuel pos seen m := by
  induction fuel generalizing pos seen m with
  | zero => rfl
  | succ fuel ih =>
      by_cases hlt : pos < len
      · rw [parseLoop, parseLoop, if_pos hlt, if_pos hlt,
          lineEnd_congr text text' (len - pos) pos fun i _ hhi => h i (by omega)]
        cases heol : lineEnd text (len - pos) pos with
        | none => rfl
        | some eol =>
            obtain ⟨h1, h2, _⟩ := (lineEnd_iff _ _ _ _).mp heol
            have hslice : slice text' pos (eol - pos) = slice text pos (eol - pos) :=
              slice_congr fun i _ hhi => h i (by omega)
            simp only [hslice, ih]
      · rw [parseLoop_end hlt, parseLoop_end hlt]

theorem parse_congr {text text' : Text} {len : Nat} (h : ∀ i < len, text' i = text i) :
    parse text' len = parse text len := by
  rw [parse, parse, parseLoop_congr h]

/-- Where the signature is in the text. -/
structure Signature where
  signedLen : Nat
  sigBase64 : Nat
  sigBase64Len : Nat
deriving DecidableEq

/-- The start of the line that ends before `line`. -/
def lineStart (text : Text) : Nat → Nat
  | 0 => 0
  | line + 1 => if text line = 10 then line + 1 else lineStart text line

/-- RECOVERY_MANIFEST_MAX_SIZE. -/
def maxSize : Nat := 2048

/-- SIG_BASE64_MAX: the text of the longest signature. -/
def sigBase64Max : Nat := (80 + 2) / 3 * 4

/-- What begins the signature line. -/
def sigPrefix : List UInt8 := ascii ['s', 'i', 'g', '=']

/-- The end of the last line, one LF left off. -/
def textEnd (text : Text) (len : Nat) : Nat :=
  if len ≠ 0 ∧ text (len - 1) = 10 then len - 1 else len

/-- recovery_manifest_split. -/
def split (text : Text) (len : Nat) : Except Refusal Signature :=
  if len > maxSize then .error .tooLarge
  else
    let last := textEnd text len
    let line := lineStart text last
    if line = 0 ∨ last - line ≤ 4 ∨ slice text line 4 ≠ sigPrefix then .error .noSignature
    else if last - line - 4 > sigBase64Max then .error .noSignature
    else .ok { signedLen := line, sigBase64 := line + 4, sigBase64Len := last - line - 4 }

/-- What stands behind the last line: nothing, or its LF. -/
theorem textEnd_spec (text : Text) (len : Nat) :
    ∃ tail, (tail = [] ∨ tail = [10])
      ∧ slice text 0 len = slice text 0 (textEnd text len) ++ tail := by
  rw [textEnd]
  by_cases hlf : len ≠ 0 ∧ text (len - 1) = 10
  · obtain ⟨n, rfl⟩ := Nat.exists_eq_succ_of_ne_zero hlf.1
    have hn : text n = 10 := hlf.2
    rw [if_pos hlf]
    refine ⟨[10], Or.inr rfl, ?_⟩
    rw [Nat.succ_eq_add_one, slice_append, Nat.zero_add, slice_succ, hn]
    rfl
  · rw [if_neg hlf]
    exact ⟨[], Or.inl rfl, (List.append_nil _).symm⟩

/-- The text of an accepted manifest: the signed part, and the
    signature line that is its last. -/
theorem split_text {text : Text} {len : Nat} {sig : Signature} (h : split text len = .ok sig) :
    0 < sig.signedLen ∧ sig.signedLen < len
      ∧ ∃ tail, (tail = [] ∨ tail = [10])
        ∧ slice text 0 len = slice text 0 sig.signedLen
            ++ (sigPrefix ++ slice text sig.sigBase64 sig.sigBase64Len) ++ tail := by
  simp only [split] at h
  split at h
  · exact nomatch h
  · split at h
    · exact nomatch h
    · rename_i hline
      split at h
      · exact nomatch h
      · injection h with h
        subst h
        obtain ⟨hline0, hlong, hprefix⟩ := not_or.mp hline |>.imp_right not_or.mp
        have hle : textEnd text len ≤ len := by
          rw [textEnd]
          split
          · omega
          · exact Nat.le_refl _
        obtain ⟨tail, htail, htext⟩ := textEnd_spec text len
        refine ⟨Nat.pos_of_ne_zero hline0, ?_, tail, htail, ?_⟩
        · show lineStart text (textEnd text len) < len
          omega
        · show slice text 0 len = slice text 0 (lineStart text (textEnd text len))
            ++ (sigPrefix ++ slice text (lineStart text (textEnd text len) + 4) _) ++ tail
          rw [htext, ← not_not.mp hprefix, ← slice_append]
          congr 1
          have hsum : textEnd text len = lineStart text (textEnd text len)
              + (4 + (textEnd text len - lineStart text (textEnd text len) - 4)) := by omega
          conv_lhs => rw [hsum, slice_append, Nat.zero_add]

/-- **THE MANIFEST IS READ AS IT IS WRITTEN**: the parser always
    answers, and answers a manifest exactly when the text is that of
    entries which describe it.  Of an accepted text it is given the
    bytes before the signature line, which is the last one, and what it
    answers depends on these bytes alone. -/
theorem manifest_parse_iff (text : Text) (len : Nat) :
    (∃ r, parse text len = some r ∧ ∀ m, r = .ok m ↔
      ∃ entries, slice text 0 len = render entries ∧ Describes entries m)
    ∧ ∀ sig, split text len = .ok sig →
        sig.signedLen < len
        ∧ (∃ tail, (tail = [] ∨ tail = [10])
          ∧ slice text 0 len = slice text 0 sig.signedLen
              ++ (sigPrefix ++ slice text sig.sigBase64 sig.sigBase64Len) ++ tail)
        ∧ ∀ (text' : Text) (n : Nat), slice text' 0 n = slice text 0 sig.signedLen →
            parse text' n = parse text sig.signedLen := by
  constructor
  · obtain ⟨r, hr⟩ := parse_returns text len
    refine ⟨r, hr, fun m => ?_⟩
    rw [← parse_ok_iff, hr, Option.some.injEq]
  · intro sig hsig
    obtain ⟨_, hlt, htext⟩ := split_text hsig
    refine ⟨hlt, htext, fun text' n hsame => ?_⟩
    have hn : n = sig.signedLen := by
      have h := congrArg List.length hsame
      rwa [length_slice, length_slice] at h
    subst hn
    exact parse_congr fun i hi => slice_eq_iff.mp hsame i (Nat.zero_le _) (by omega)

/-! ## A name that does not fit -/

/-- The memory that holds a text. -/
def textOf (bytes : List UInt8) : Text := fun i => bytes.getD i 0

/-- The lines of a manifest whose package has a name of 64 letters. -/
def longEntries : List Entry :=
  [formatLine,
    (.package, List.replicate 64 97),
    (.idcode, ascii ['0', '3', '6', '2', 'c', '0', '9', '3']),
    (.fpgaFile, ascii ['u']), (.fpgaSize, ascii ['1']), (.fpgaSha256, List.replicate 64 48),
    (.imageFile, ascii ['u']), (.imageSize, ascii ['1']), (.imageSha256, List.replicate 64 48)]

/-- What these lines say. -/
def longManifest : Manifest where
  package := List.replicate 64 97
  idcode := 0x0362c093
  serial := anySerial
  fpga := { name := ascii ['u'], size := 1, sha256 := List.replicate 32 0 }
  image := { name := ascii ['u'], size := 1, sha256 := List.replicate 32 0 }

/-- Every line is there once and every value is as it has to be, the
    name of the package made of the characters of a name; still its
    length makes it a bad value. -/
theorem parse_refuses_long_name :
    longEntries.head? = some formatLine
    ∧ (longEntries.map Prod.fst).Nodup
    ∧ (∀ k ∈ allKeys, k ≠ .serial → k ∈ longEntries.map Prod.fst)
    ∧ (∀ e ∈ longEntries, ∀ c ∈ e.2, printable c = true)
    ∧ (∀ e ∈ longEntries, e.1 ≠ .package → Holds longManifest e.1 e.2)
    ∧ (∀ c ∈ longManifest.package, nameChar c false = true)
    ∧ (Key.package, longManifest.package) ∈ longEntries
    ∧ longManifest.package.length = 64
    ∧ parse (textOf (render longEntries)) (render longEntries).length
        = some (.error .badValue) := by
  have hprint : longEntries.all (fun e => e.2.all printable) = true := by decide +kernel
  have hname : longManifest.package.all (nameChar · false) = true := by decide +kernel
  refine ⟨by decide +kernel, by decide +kernel, by decide +kernel, ?_, by decide +kernel,
    List.all_eq_true.mp hname, by decide +kernel, by decide +kernel, by decide +kernel⟩
  intro e he
  exact List.all_eq_true.mp (List.all_eq_true.mp hprint e he)

end RecoveryManifest
