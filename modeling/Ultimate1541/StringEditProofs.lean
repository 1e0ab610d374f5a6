import Mathlib

/-! # The string field

    `UIStringEdit` edits a text in the buffer of its caller, which has room for `max_len`
    characters and a terminator.  Characters are inserted and deleted by moving the rest of
    the buffer, and a policy is asked about a key by inserting it and taking it out again.

    What the field is for is a text with a cursor in it: the characters before the cursor,
    the next one first, and those behind it (`Field`).  For every policy and all keys the
    buffer holds that text, nothing is accessed behind the terminator's place, and the
    cursor stays in the part that is shown (`polls_refine`). -/

namespace StringEdit

/-! ## The source -/

/-- `UIStringEditPolicy`; no policy is one without these members. -/
structure Policy where
  accepts : Option (List UInt8 → Bool)
  transform : Option (List UInt8 → Nat → Int → Int)
  cancelKey : Int

/-- `UIStringEdit`. -/
structure Edit where
  buffer : Nat → UInt8
  maxLen : Nat
  len : Nat
  cur : Nat
  editOffs : Int
  maxChars : Int
  clearTemplate : Bool
  uppercase : Bool

/-- Keys that do something. -/
def keyBack : Int := 0x08
def keyReturn : Int := 0x0D
def keyBreak : Int := 0x11
def keyDown : Int := 0x12
def keyHome : Int := 0x13
def keyEscape : Int := 0x1B
def keyRight : Int := 0x1D
def keyDelete : Int := 0x7F
def keyUp : Int := 0x91
def keyClear : Int := 0x93
def keyEnd : Int := 0x96
def keyLeft : Int := 0x9D

def Printable (key : Int) : Prop := 32 ≤ key ∧ key < 127

instance (key : Int) : Decidable (Printable key) :=
  inferInstanceAs (Decidable (32 ≤ key ∧ key < 127))

/-- `(char)key`. -/
def charOf (key : Int) : UInt8 := UInt8.ofNat (key % 256).toNat

section Source

variable (maxLen : Nat)

def get (b : Nat → UInt8) (i : Nat) : Option UInt8 := if i ≤ maxLen then some (b i) else none

def put (b : Nat → UInt8) (i : Nat) (v : UInt8) : Option (Nat → UInt8) :=
  if i ≤ maxLen then some (Function.update b i v) else none

/-- `for (i = cur + n - 1; i >= cur; i--) buffer[i+1] = buffer[i]`. -/
def shiftUp (cur : Nat) : (n : Nat) → (Nat → UInt8) → Option (Nat → UInt8)
  | 0, b => some b
  | n + 1, b =>
      (get maxLen b (cur + n)).bind fun v => (put maxLen b (cur + n + 1) v).bind (shiftUp cur n)

/-- `for (; i < i + n; i++) buffer[i] = buffer[i+1]`. -/
def shiftDown : (n i : Nat) → (Nat → UInt8) → Option (Nat → UInt8)
  | 0, _, b => some b
  | n + 1, i, b => (get maxLen b (i + 1)).bind fun v => (put maxLen b i v).bind (shiftDown n (i + 1))

/-- The characters up to the terminator. -/
def cstring (b : Nat → UInt8) : (fuel i : Nat) → Option (List UInt8)
  | 0, _ => none
  | fuel + 1, i => if b i = 0 then some [] else (cstring b fuel (i + 1)).map (b i :: ·)

/-- Room is made at the cursor, and the character is put there. -/
def insertAt (cur len : Nat) (c : UInt8) (b : Nat → UInt8) : Option (Nat → UInt8) :=
  (shiftUp maxLen cur (len + 1 - cur) b).bind fun b => put maxLen b cur c

/-- The character at the cursor is taken out; `len` is the length without it. -/
def removeAt (cur len : Nat) (b : Nat → UInt8) : Option (Nat → UInt8) :=
  (shiftDown maxLen (len - cur) cur b).bind fun b => put maxLen b len 0

end Source

/-- `candidate_allowed`: the answer, and the buffer as it is afterwards. -/
def candidateAllowed (accepts : List UInt8 → Bool) (s : Edit) (key : Int) :
    Option (Bool × Edit) :=
  if s.clearTemplate = true then some (accepts ([charOf key].takeWhile (· ≠ 0)), s)
  else if s.maxLen ≤ s.len then some (true, s)
  else
    (insertAt s.maxLen s.cur s.len (charOf key) s.buffer).bind fun b =>
      (cstring b (s.maxLen + 1) 0).bind fun candidate =>
        (removeAt s.maxLen s.cur s.len b).map fun b => (accepts candidate, { s with buffer := b })

/-- The key that would be inserted. -/
def settle (p : Policy) (s : Edit) (key : Int) : Option Int :=
  (match p.transform with
    | none => some key
    | some transform => (cstring s.buffer (s.maxLen + 1) 0).map fun text => transform text s.cur key).map
    fun key => if s.uppercase = true ∧ 97 ≤ key ∧ key ≤ 122 then key - 97 + 65 else key

/-- The empty field. -/
def Edit.emptied (s : Edit) : Option Edit :=
  (put s.maxLen s.buffer 0 0).map fun b =>
    { s with buffer := b, len := 0, cur := 0, editOffs := 0, clearTemplate := false }

/-- `if (cur-5 < edit_offs)`. -/
def Edit.scrollLeft (s : Edit) : Edit :=
  if (s.cur : Int) - 5 < s.editOffs then { s with editOffs := max 0 (s.editOffs - 5) } else s

/-- `switch(key)`. -/
def Edit.switch (s : Edit) (key : Int) : Option (Int × Edit) :=
  if key = keyReturn then (put s.maxLen s.buffer s.len 0).map fun b => (1, { s with buffer := b })
  else if key = keyLeft then
    some (0, if 0 < s.cur then { s with cur := s.cur - 1 }.scrollLeft else s)
  else if key = keyRight then
    some (0,
      if s.cur < s.len then
        { s with
          cur := s.cur + 1
          editOffs := if s.maxChars - 1 < (s.cur + 1 : Nat) - s.editOffs then s.editOffs + 1
            else s.editOffs }
      else s)
  else if key = keyBack then
    if 0 < s.cur then
      (removeAt s.maxLen (s.cur - 1) (s.len - 1) s.buffer).map fun b =>
        (0, { s with buffer := b, cur := s.cur - 1, len := s.len - 1 }.scrollLeft)
    else some (0, s)
  else if key = keyClear then s.emptied.map fun s => (0, s)
  else if key = keyDelete then
    if s.cur < s.len then
      (removeAt s.maxLen s.cur (s.len - 1) s.buffer).map fun b =>
        (0, { s with buffer := b, len := s.len - 1 })
    else some (0, s)
  else if key = keyHome ∨ key = keyUp then some (0, { s with cur := 0, editOffs := 0 })
  else if key = keyDown ∨ key = keyEnd then
    some (0,
      if s.cur ≠ s.len then
        { s with
          cur := s.len
          editOffs := if s.maxChars - 1 ≤ s.len then 1 + s.len - s.maxChars else s.editOffs }
      else s)
  else if key = keyBreak ∨ key = keyEscape then some (-1, s)
  else if Printable key then
    if s.len < s.maxLen then
      (insertAt s.maxLen s.cur s.len (charOf key) s.buffer).map fun b =>
        (0, { s with
          buffer := b, cur := s.cur + 1, len := s.len + 1, clearTemplate := false
          editOffs := if (s.cur + 1 : Nat) - s.editOffs < s.maxChars then s.editOffs
            else s.editOffs + 1 })
    else some (0, { s with clearTemplate := false })
  else some (0, s)

/-- An untouched template makes room for what is typed. -/
def Edit.act (s : Edit) (key : Int) : Option (Int × Edit) :=
  if s.clearTemplate = true ∧ (Printable key ∨ key = keyClear ∨ key = keyDelete) then
    s.emptied.bind fun s => s.switch key
  else s.switch key

/-- `poll`, with the key from the keyboard. -/
def Edit.poll (p : Policy) (s : Edit) (key : Int) : Option (Int × Edit) :=
  if key = -1 then some (0, s)
  else if key = -2 then some (-1, s)
  else if p.cancelKey ≠ 0 ∧ key = p.cancelKey then some (-1, s)
  else if Printable key then
    (settle p s key).bind fun key =>
      match p.accepts with
      | none => s.act key
      | some accepts =>
          (candidateAllowed accepts s key).bind fun r =>
            if r.1 = true then r.2.act key else some (0, r.2)
  else s.act key

/-- Keys until one ends the editing: what `poll` answered last. -/
def Edit.polls (p : Policy) : List Int → Edit → Option (Int × Edit)
  | [], s => some (0, s)
  | key :: keys, s =>
      (s.poll p key).bind fun r => if r.1 = 0 then r.2.polls p keys else some r

/-- `init` on a buffer that holds a text of some length. -/
def Edit.init (buffer : Nat → UInt8) (strlen maxLen : Nat) (maxChars : Int)
    (template uppercase : Bool) : Edit :=
  let len := min strlen maxLen
  { buffer := if maxLen < strlen then Function.update buffer maxLen 0 else buffer
    maxLen := maxLen
    len := len
    cur := if template = true then 0 else len
    editOffs := if template = true then 0 else if maxChars - 1 < len then 1 + len - maxChars else 0
    maxChars := maxChars
    clearTemplate := template && decide (0 < len)
    uppercase := uppercase }

/-! ## What a field is for -/

/-- A text with a cursor: the characters before it, backwards, and those behind it. -/
structure Field where
  left : List UInt8
  right : List UInt8
  template : Bool

namespace Field

def text (f : Field) : List UInt8 := f.left.reverse ++ f.right

/-- A key that is not typed over a template. -/
def switch (maxLen : Nat) (f : Field) (key : Int) : Int × Field :=
  if key = keyReturn then (1, f)
  else if key = keyLeft then
    (0, match f.left with
      | [] => f
      | c :: left => { f with left := left, right := c :: f.right })
  else if key = keyRight then
    (0, match f.right with
      | [] => f
      | c :: right => { f with left := c :: f.left, right := right })
  else if key = keyBack then (0, { f with left := f.left.tail })
  else if key = keyClear then (0, ⟨[], [], false⟩)
  else if key = keyDelete then (0, { f with right := f.right.tail })
  else if key = keyHome ∨ key = keyUp then (0, { f with left := [], right := f.text })
  else if key = keyDown ∨ key = keyEnd then (0, { f with left := f.text.reverse, right := [] })
  else if key = keyBreak ∨ key = keyEscape then (-1, f)
  else if Printable key then
    (0, if f.text.length < maxLen then ⟨charOf key :: f.left, f.right, false⟩
      else { f with template := false })
  else (0, f)

/-- What is typed replaces a template. -/
def act (maxLen : Nat) (f : Field) (key : Int) : Int × Field :=
  if f.template = true ∧ (Printable key ∨ key = keyClear ∨ key = keyDelete) then
    switch maxLen ⟨[], [], false⟩ key
  else switch maxLen f key

/-- The text as it would be with a key. -/
def candidate (f : Field) (key : Int) : List UInt8 :=
  (if f.template = true then [charOf key] else f.left.reverse ++ charOf key :: f.right).takeWhile
    (· ≠ 0)

def settle (p : Policy) (uppercase : Bool) (f : Field) (key : Int) : Int :=
  let key := match p.transform with
    | none => key
    | some transform => transform f.text f.left.length key
  if uppercase = true ∧ 97 ≤ key ∧ key ≤ 122 then key - 97 + 65 else key

/-- The policy allows a key, or there is no room for it anyway. -/
def allows (p : Policy) (maxLen : Nat) (f : Field) (key : Int) : Bool :=
  match p.accepts with
  | none => true
  | some accepts =>
      if f.template = false ∧ maxLen ≤ f.text.length then true else accepts (f.candidate key)

def press (p : Policy) (uppercase : Bool) (maxLen : Nat) (f : Field) (key : Int) : Int × Field :=
  if key = -1 then (0, f)
  else if key = -2 then (-1, f)
  else if p.cancelKey ≠ 0 ∧ key = p.cancelKey then (-1, f)
  else if Printable key then
    let key := f.settle p uppercase key
    if f.allows p maxLen key = true then f.act maxLen key else (0, f)
  else f.act maxLen key

def presses (p : Policy) (uppercase : Bool) (maxLen : Nat) : List Int → Field → Int × Field
  | [], f => (0, f)
  | key :: keys, f =>
      let r := f.press p uppercase maxLen key
      if r.1 = 0 then presses p uppercase maxLen keys r.2 else r

end Field

/-! ## The buffer -/

/-- A buffer holds a text and its terminator. -/
def Spells (b : Nat → UInt8) (t : List UInt8) : Prop := ∀ i ≤ t.length, b i = t.getD i 0

theorem shiftUp_eq {maxLen cur : Nat} (n : Nat) : ∀ b : Nat → UInt8, cur + n ≤ maxLen →
    ∃ b', shiftUp maxLen cur n b = some b' ∧
      ∀ j, b' j = if cur < j ∧ j ≤ cur + n then b (j - 1) else b j := by
  induction n with
  | zero =>
      intro b _
      refine ⟨b, rfl, ?_⟩
      intro j
      rw [if_neg (by omega)]
  | succ n ih =>
      intro b hn
      obtain ⟨b', h', hb'⟩ := ih (Function.update b (cur + n + 1) (b (cur + n))) (by omega)
      refine ⟨b', ?_, ?_⟩
      · rw [shiftUp, get, if_pos (by omega), Option.bind_some, put, if_pos (by omega),
          Option.bind_some, h']
      · intro j
        rw [hb']
        by_cases hj : j = cur + n + 1
        · rw [if_neg (by omega), if_pos (by omega), hj, Function.update_self]
          rfl
        · rw [Function.update_of_ne hj]
          by_cases hlow : cur < j ∧ j ≤ cur + n
          · rw [if_pos hlow, if_pos (by omega), Function.update_of_ne (by omega)]
          · rw [if_neg hlow, if_neg (by omega)]

theorem shiftDown_eq {maxLen : Nat} (n : Nat) : ∀ (i : Nat) (b : Nat → UInt8), i + n ≤ maxLen →
    ∃ b', shiftDown maxLen n i b = some b' ∧
      ∀ j, b' j = if i ≤ j ∧ j < i + n then b (j + 1) else b j := by
  induction n with
  | zero =>
      intro i b _
      refine ⟨b, rfl, ?_⟩
      intro j
      rw [if_neg (by omega)]
  | succ n ih =>
      intro i b hn
      obtain ⟨b', h', hb'⟩ := ih (i + 1) (Function.update b i (b (i + 1))) (by omega)
      refine ⟨b', ?_, ?_⟩
      · rw [shiftDown, get, if_pos (by omega), Option.bind_some, put, if_pos (by omega),
          Option.bind_some, h']
      · intro j
        rw [hb']
        by_cases hj : j = i
        · rw [if_neg (by omega), if_pos (by omega), hj, Function.update_self]
        · rw [Function.update_of_ne hj]
          by_cases hlow : i + 1 ≤ j ∧ j < i + 1 + n
          · rw [if_pos hlow, if_pos (by omega), Function.update_of_ne (by omega)]
          · rw [if_neg hlow, if_neg (by omega)]

theorem getD_middle (x y : List UInt8) (c : UInt8) (j : Nat) :
    (x ++ c :: y).getD j 0 =
      if j < x.length then (x ++ y).getD j 0
      else if j = x.length then c else (x ++ y).getD (j - 1) 0 := by
  simp only [List.getD_eq_getElem?_getD, List.getElem?_append, List.getElem?_cons]
  split_ifs <;> first | rfl | omega | skip
  congr 2
  omega

theorem insertAt_spells {maxLen : Nat} {x y : List UInt8} {b : Nat → UInt8} (c : UInt8)
    (h : Spells b (x ++ y)) (hroom : (x ++ y).length < maxLen) :
    ∃ b', insertAt maxLen x.length (x ++ y).length c b = some b' ∧ Spells b' (x ++ c :: y) := by
  rw [List.length_append] at hroom
  obtain ⟨b', h', hb'⟩ := shiftUp_eq ((x ++ y).length + 1 - x.length) b
    (show x.length + _ ≤ maxLen by rw [List.length_append]; omega)
  refine ⟨Function.update b' x.length c, ?_, ?_⟩
  · rw [insertAt, h', Option.bind_some, put, if_pos (by omega)]
  · intro j hj
    rw [List.length_append, List.length_cons] at hj
    rw [getD_middle]
    by_cases hx : j = x.length
    · rw [if_neg (by omega), if_pos hx, hx, Function.update_self]
    · rw [Function.update_of_ne hx, hb', List.length_append]
      by_cases hlt : j < x.length
      · rw [if_neg (by omega), if_pos hlt]
        exact h j (by rw [List.length_append]; omega)
      · rw [if_pos (by omega), if_neg hlt, if_neg hx]
        exact h (j - 1) (by rw [List.length_append]; omega)

theorem removeAt_spells {maxLen : Nat} {x y : List UInt8} {b : Nat → UInt8} {c : UInt8}
    (h : Spells b (x ++ c :: y)) (hroom : (x ++ y).length ≤ maxLen) :
    ∃ b', removeAt maxLen x.length (x ++ y).length b = some b' ∧ Spells b' (x ++ y) := by
  rw [List.length_append] at hroom
  obtain ⟨b', h', hb'⟩ := shiftDown_eq ((x ++ y).length - x.length) x.length b
    (show _ ≤ maxLen by rw [List.length_append]; omega)
  refine ⟨Function.update b' (x ++ y).length 0, ?_, ?_⟩
  · rw [removeAt, h', Option.bind_some, put, if_pos (by rw [List.length_append]; omega)]
  · intro j hj
    by_cases hend : j = (x ++ y).length
    · rw [hend, Function.update_self, List.getD_eq_getElem?_getD,
        List.getElem?_eq_none (Nat.le_refl _), Option.getD_none]
    · rw [Function.update_of_ne hend, hb']
      rw [List.length_append] at hj hend ⊢
      have hbytes : ∀ k ≤ x.length + (y.length + 1), b k = (x ++ c :: y).getD k 0 := by
        intro k hk
        exact h k (by rw [List.length_append, List.length_cons]; omega)
      by_cases hlt : j < x.length
      · rw [if_neg (by omega), hbytes j (by omega), getD_middle, if_pos hlt]
      · rw [if_pos (by omega), hbytes (j + 1) (by omega), getD_middle, if_neg (by omega),
          if_neg (by omega), Nat.add_sub_cancel]

theorem cstring_eq (t : List UInt8) : ∀ (b : Nat → UInt8) (fuel i : Nat), t.length < fuel →
    (∀ j ≤ t.length, b (i + j) = t.getD j 0) →
    cstring b fuel i = some (t.takeWhile (· ≠ 0)) := by
  induction t with
  | nil =>
      intro b fuel i hfuel h
      obtain ⟨fuel, rfl⟩ : ∃ n, fuel = n + 1 := ⟨fuel - 1, by rw [List.length_nil] at hfuel; omega⟩
      have hend : b i = 0 := h 0 (Nat.le_refl 0)
      rw [cstring, if_pos hend, List.takeWhile_nil]
  | cons c t ih =>
      intro b fuel i hfuel h
      rw [List.length_cons] at hfuel h
      obtain ⟨fuel, rfl⟩ : ∃ n, fuel = n + 1 := ⟨fuel - 1, by omega⟩
      have hc : b i = c := h 0 (Nat.zero_le _)
      rw [cstring, hc]
      by_cases hzero : c = 0
      · rw [if_pos hzero, List.takeWhile_cons_of_neg (by simp [hzero])]
      · have hrest := ih b fuel (i + 1) (by omega) (fun j hj => by
          rw [Nat.add_assoc, Nat.add_comm 1 j]
          exact h (j + 1) (by omega))
        rw [if_neg hzero, hrest, List.takeWhile_cons_of_pos (by simp [hzero]), Option.map_some]

/-! ## The field is the text with the cursor -/

/-- The field's buffer holds the text, and its cursor is that of the text. -/
structure Holds (s : Edit) (f : Field) : Prop where
  cur : s.cur = f.left.length
  len : s.len = f.text.length
  room : s.len ≤ s.maxLen
  bytes : Spells s.buffer f.text
  chars : ∀ c ∈ f.text, c ≠ 0
  template : s.clearTemplate = f.template

/-- The part that is shown begins in the text, and the cursor is in it. -/
structure Shown (s : Edit) : Prop where
  nonneg : 0 ≤ s.editOffs
  before : s.editOffs ≤ s.cur
  visible : s.cur - s.editOffs < s.maxChars
  whole : (s.maxLen : Int) < s.maxChars → s.editOffs = 0

/-- Scrolling by five characters keeps the cursor in view, or all of the text is shown. -/
def Wide (s : Edit) : Prop := 10 ≤ s.maxChars ∨ (s.maxLen : Int) < s.maxChars

/-- The field with its mode: what does not change. -/
def SameMode (s s' : Edit) : Prop :=
  s'.maxLen = s.maxLen ∧ s'.maxChars = s.maxChars ∧ s'.uppercase = s.uppercase

/-- The field does what is done to the text. -/
def Follows (s : Edit) (done : Option (Int × Edit)) (r : Int × Field) : Prop :=
  ∃ s', done = some (r.1, s') ∧ Holds s' r.2 ∧ SameMode s s' ∧ (Wide s → Shown s → Shown s')

variable {s : Edit} {f : Field}

theorem text_length (f : Field) : f.text.length = f.left.length + f.right.length := by
  rw [Field.text, List.length_append, List.length_reverse]

/-- Nothing is done. -/
theorem Holds.stays (h : Holds s f) (n : Int) : Follows s (some (n, s)) (n, f) :=
  ⟨s, rfl, h, ⟨rfl, rfl, rfl⟩, fun _ => id⟩

/-- The cursor goes to another place in the same text. -/
theorem Holds.goTo (h : Holds s f) (left right : List UInt8) {cur : Nat} {offs : Int}
    (hcur : cur = left.length) (htext : left.reverse ++ right = f.text)
    (hshown : Wide s → Shown s → Shown { s with cur := cur, editOffs := offs }) :
    Follows s (some (0, { s with cur := cur, editOffs := offs }))
      (0, { f with left := left, right := right }) := by
  refine ⟨_, rfl, ⟨hcur, ?_, h.room, ?_, ?_, h.template⟩, ⟨rfl, rfl, rfl⟩, hshown⟩
  · rw [Field.text, htext]
    exact h.len
  · rw [Field.text, htext]
    exact h.bytes
  · rw [Field.text, htext]
    exact h.chars

theorem scrollLeft_eq (s : Edit) : s.scrollLeft = { s with
    editOffs := if (s.cur : Int) - 5 < s.editOffs then max 0 (s.editOffs - 5) else s.editOffs } := by
  rw [Edit.scrollLeft]
  split <;> rfl

/-- One character to the left, with the scrolling that goes with it. -/
theorem shown_left {cur : Nat} {buffer : Nat → UInt8} {len : Nat} (hcur : s.cur = cur + 1)
    (hwide : Wide s) (h : Shown s) :
    Shown { s with
      buffer := buffer, cur := cur, len := len
      editOffs := if (cur : Int) - 5 < s.editOffs then max 0 (s.editOffs - 5) else s.editOffs } := by
  obtain ⟨hnonneg, hbefore, hvisible, hwhole⟩ := h
  rw [hcur] at hbefore hvisible
  rw [Wide] at hwide
  refine ⟨?_, ?_, ?_, ?_⟩ <;> dsimp only <;> split_ifs <;> omega

theorem Holds.emptied (h : Holds s f) :
    ∃ s', s.emptied = some s' ∧ Holds s' ⟨[], [], false⟩ ∧ SameMode s s' ∧ (Shown s → Shown s') := by
  rw [Edit.emptied, put, if_pos (Nat.zero_le _), Option.map_some]
  refine ⟨_, rfl, ⟨rfl, rfl, Nat.zero_le _, ?_, nofun, rfl⟩, ⟨rfl, rfl, rfl⟩, ?_⟩
  · intro i hi
    obtain rfl : i = 0 := Nat.le_zero.mp hi
    exact Function.update_self 0 _ s.buffer
  · rintro ⟨hnonneg, hbefore, hvisible, -⟩
    refine ⟨Int.le_refl 0, Int.le_refl 0, ?_, fun _ => rfl⟩
    show (0 : Int) - 0 < s.maxChars
    omega

theorem Holds.delete (h : Holds s f) (left right : List UInt8) (c : UInt8)
    (htext : f.text = left.reverse ++ c :: right) (offs : Int)
    (hshown : ∀ b, Wide s → Shown s →
      Shown { s with buffer := b, cur := left.length, len := s.len - 1, editOffs := offs }) :
    Follows s ((removeAt s.maxLen left.length (s.len - 1) s.buffer).map fun b =>
        (0, { s with buffer := b, cur := left.length, len := s.len - 1, editOffs := offs }))
      (0, { f with left := left, right := right }) := by
  have hlen : s.len - 1 = (left.reverse ++ right).length := by
    rw [h.len, htext]
    simp only [List.length_append, List.length_cons]
    omega
  have hroom := h.room
  obtain ⟨b, hb, hspells⟩ := removeAt_spells (htext ▸ h.bytes) (show _ ≤ s.maxLen by omega)
  rw [List.length_reverse, ← hlen] at hb
  rw [hb, Option.map_some]
  refine ⟨_, rfl, ⟨rfl, hlen, ?_, hspells, ?_, h.template⟩, ⟨rfl, rfl, rfl⟩, hshown b⟩
  · show s.len - 1 ≤ s.maxLen
    omega
  · intro c' hc'
    refine h.chars c' ?_
    rw [htext, List.mem_append, List.mem_cons]
    rcases List.mem_append.mp hc' with hl | hr
    · exact Or.inl hl
    · exact Or.inr (Or.inr hr)

/-- A printable character is no terminator. -/
theorem charOf_ne_zero {key : Int} (h : Printable key) : charOf key ≠ 0 := by
  obtain ⟨hlow, hhigh⟩ := h
  intro hzero
  have := congrArg UInt8.toNat hzero
  rw [charOf, UInt8.toNat_ofNat'] at this
  have h0 : (0 : UInt8).toNat = 0 := rfl
  omega

theorem Holds.type (h : Holds s f) {key : Int} (hkey : Printable key) :
    Follows s
      (if s.len < s.maxLen then
        (insertAt s.maxLen s.cur s.len (charOf key) s.buffer).map fun b =>
          (0, { s with
            buffer := b, cur := s.cur + 1, len := s.len + 1, clearTemplate := false
            editOffs := if (s.cur + 1 : Nat) - s.editOffs < s.maxChars then s.editOffs
              else s.editOffs + 1 })
      else some (0, { s with clearTemplate := false }))
      (0, if f.text.length < s.maxLen then ⟨charOf key :: f.left, f.right, false⟩
        else { f with template := false }) := by
  rw [← h.len]
  by_cases hroom : s.len < s.maxLen
  · rw [if_pos hroom, if_pos hroom]
    have hcur : s.cur = f.left.reverse.length := by
      rw [List.length_reverse]
      exact h.cur
    obtain ⟨b, hb, hspells⟩ := insertAt_spells (charOf key) h.bytes
      (show _ < s.maxLen by rw [← Field.text, ← h.len]; exact hroom)
    rw [← hcur, ← Field.text, ← h.len] at hb
    have htext : Field.text ⟨charOf key :: f.left, f.right, false⟩ =
        f.left.reverse ++ charOf key :: f.right := by
      rw [Field.text, List.reverse_cons, List.append_assoc, List.singleton_append]
    rw [hb, Option.map_some]
    refine ⟨_, rfl, ⟨?_, ?_, hroom, ?_, ?_, rfl⟩, ⟨rfl, rfl, rfl⟩, ?_⟩
    · exact congrArg (· + 1) h.cur
    · have hlen := h.len
      rw [text_length] at hlen
      show s.len + 1 = (Field.text ⟨charOf key :: f.left, f.right, false⟩).length
      rw [htext, List.length_append, List.length_cons, List.length_reverse]
      omega
    · rw [htext]
      exact hspells
    · intro c hc
      rw [htext, List.mem_append, List.mem_cons] at hc
      rcases hc with hl | rfl | hr
      · exact h.chars c (List.mem_append.mpr (Or.inl hl))
      · exact charOf_ne_zero hkey
      · exact h.chars c (List.mem_append.mpr (Or.inr hr))
    · rintro hwide ⟨hnonneg, hbefore, hvisible, hwhole⟩
      have hle := h.cur
      have hlen := h.len
      rw [text_length] at hlen
      refine ⟨?_, ?_, ?_, ?_⟩ <;> dsimp only <;> split_ifs <;> omega
  · rw [if_neg hroom, if_neg hroom]
    exact ⟨_, rfl, ⟨h.cur, h.len, h.room, h.bytes, h.chars, rfl⟩, ⟨rfl, rfl, rfl⟩,
      fun _ hs => ⟨hs.nonneg, hs.before, hs.visible, hs.whole⟩⟩

/-- `switch(key)`, one key after the other. -/
theorem switch_follows (h : Holds s f) (key : Int) :
    Follows s (s.switch key) (f.switch s.maxLen key) := by
  have hcur := h.cur
  have hlen := h.len
  rw [text_length] at hlen
  rw [Edit.switch, Field.switch]
  by_cases hret : key = keyReturn
  · rw [if_pos hret, if_pos hret]
    -- return: the terminator is written once more
    rw [put, if_pos h.room, Option.map_some]
    refine ⟨_, rfl, ⟨h.cur, h.len, h.room, ?_, h.chars, h.template⟩, ⟨rfl, rfl, rfl⟩,
      fun _ hs => ⟨hs.nonneg, hs.before, hs.visible, hs.whole⟩⟩
    intro i hi
    by_cases hi' : i = s.len
    · dsimp only
      rw [hi', Function.update_self, h.len, List.getD_eq_getElem?_getD,
        List.getElem?_eq_none (Nat.le_refl _), Option.getD_none]
    · dsimp only
      rw [Function.update_of_ne hi']
      exact h.bytes i hi
  rw [if_neg hret, if_neg hret]
  by_cases hleft : key = keyLeft
  · rw [if_pos hleft, if_pos hleft]
    -- left
    cases hl : f.left with
    | nil =>
        rw [if_neg (by rw [hcur, hl]; exact Nat.lt_irrefl 0)]
        exact h.stays 0
    | cons c left =>
        have hpos : s.cur = left.length + 1 := by rw [hcur, hl, List.length_cons]
        rw [if_pos (by omega), scrollLeft_eq, hpos, Nat.add_sub_cancel]
        refine h.goTo left (c :: f.right) rfl ?_ (shown_left hpos)
        rw [Field.text, hl, List.reverse_cons, List.append_assoc, List.singleton_append]
  rw [if_neg hleft, if_neg hleft]
  by_cases hright : key = keyRight
  · rw [if_pos hright, if_pos hright]
    -- right
    cases hr : f.right with
    | nil =>
        rw [hr, List.length_nil] at hlen
        rw [if_neg (by omega)]
        exact h.stays 0
    | cons c right =>
        rw [hr, List.length_cons] at hlen
        rw [if_pos (by omega)]
        refine h.goTo (c :: f.left) right ?_ ?_ ?_
        · rw [hcur, List.length_cons]
        · rw [Field.text, hr, List.reverse_cons, List.append_assoc, List.singleton_append]
        · rintro - ⟨hnonneg, hbefore, hvisible, hwhole⟩
          have hroom := h.room
          refine ⟨?_, ?_, ?_, ?_⟩ <;> dsimp only [List.length_cons] <;> split_ifs <;> omega
  rw [if_neg hright, if_neg hright]
  by_cases hback : key = keyBack
  · rw [if_pos hback, if_pos hback]
    -- backspace
    cases hl : f.left with
    | nil =>
        rw [if_neg (by rw [hcur, hl]; exact Nat.lt_irrefl 0)]
        have heq : { f with left := ([] : List UInt8) } = f := by rw [← hl]
        rw [List.tail_nil, heq]
        exact h.stays 0
    | cons c left =>
        have hpos : s.cur = left.length + 1 := by rw [hcur, hl, List.length_cons]
        rw [if_pos (by omega), hpos, Nat.add_sub_cancel, List.tail_cons]
        simp only [scrollLeft_eq]
        refine h.delete left f.right c ?_ _ fun b => shown_left hpos
        rw [Field.text, hl, List.reverse_cons, List.append_assoc, List.singleton_append]
  rw [if_neg hback, if_neg hback]
  by_cases hclear : key = keyClear
  · rw [if_pos hclear, if_pos hclear]
    -- clear
    obtain ⟨s', hs', hholds, hmode, hshown⟩ := h.emptied
    rw [hs', Option.map_some]
    exact ⟨s', rfl, hholds, hmode, fun _ => hshown⟩
  rw [if_neg hclear, if_neg hclear]
  by_cases hdelete : key = keyDelete
  · rw [if_pos hdelete, if_pos hdelete]
    -- delete
    cases hr : f.right with
    | nil =>
        rw [hr, List.length_nil] at hlen
        rw [if_neg (by omega)]
        have heq : { f with right := ([] : List UInt8) } = f := by rw [← hr]
        rw [List.tail_nil, heq]
        exact h.stays 0
    | cons c right =>
        rw [hr, List.length_cons] at hlen
        rw [if_pos (by omega), hcur, List.tail_cons]
        have hdel := h.delete f.left right c (by rw [Field.text, hr]) s.editOffs
          (fun b _ hs => ⟨hs.nonneg, hcur ▸ hs.before, hcur ▸ hs.visible, hs.whole⟩)
        rw [← hcur] at hdel ⊢
        exact hdel
  rw [if_neg hdelete, if_neg hdelete]
  by_cases hhome : key = keyHome ∨ key = keyUp
  · rw [if_pos hhome, if_pos hhome]
    -- to the beginning
    refine h.goTo [] f.text rfl rfl ?_
    · rintro - ⟨hnonneg, hbefore, hvisible, -⟩
      refine ⟨Int.le_refl 0, Int.le_refl 0, ?_, fun _ => rfl⟩
      show (0 : Int) - 0 < s.maxChars
      omega
  rw [if_neg hhome, if_neg hhome]
  by_cases hend : key = keyDown ∨ key = keyEnd
  · rw [if_pos hend, if_pos hend]
    -- to the end
    have hall : s.len = f.text.reverse.length := by rw [List.length_reverse, h.len]
    have htext : f.text.reverse.reverse ++ [] = f.text := by
      rw [List.reverse_reverse, List.append_nil]
    by_cases hat : s.cur = s.len
    · rw [if_neg (not_not.mpr hat)]
      exact h.goTo f.text.reverse [] (hat.trans hall) htext fun _ hs => hs
    · rw [if_pos hat]
      refine h.goTo f.text.reverse [] hall htext ?_
      rintro - ⟨hnonneg, hbefore, hvisible, hwhole⟩
      have hroom := h.room
      refine ⟨?_, ?_, ?_, ?_⟩ <;> dsimp only <;> split_ifs <;> omega
  rw [if_neg hend, if_neg hend]
  by_cases hbreak : key = keyBreak ∨ key = keyEscape
  · rw [if_pos hbreak, if_pos hbreak]
    exact h.stays (-1)
  rw [if_neg hbreak, if_neg hbreak]
  by_cases hprint : Printable key
  · rw [if_pos hprint, if_pos hprint]
    exact h.type hprint
  rw [if_neg hprint, if_neg hprint]
  exact h.stays 0

theorem act_follows (h : Holds s f) (key : Int) : Follows s (s.act key) (f.act s.maxLen key) := by
  rw [Edit.act, Field.act, h.template]
  split
  · obtain ⟨s', hs', hholds, hmode, hshown⟩ := h.emptied
    obtain ⟨s'', h'', hholds', hmode', hshown'⟩ := switch_follows hholds key
    rw [hs', Option.bind_some, ← hmode.1]
    refine ⟨s'', h'', hholds', ⟨hmode'.1.trans hmode.1, hmode'.2.1.trans hmode.2.1,
      hmode'.2.2.trans hmode.2.2⟩, fun hwide hs => hshown' ?_ (hshown hs)⟩
    rw [Wide, hmode.1, hmode.2.1]
    exact hwide
  · exact switch_follows h key

/-! ## Asking the policy -/

theorem Holds.cstring (h : Holds s f) : cstring s.buffer (s.maxLen + 1) 0 = some f.text := by
  have hroom := h.room
  rw [h.len] at hroom
  rw [cstring_eq f.text s.buffer _ 0 (by omega) fun j hj => by
    rw [Nat.zero_add]
    exact h.bytes j hj]
  congr 1
  exact List.takeWhile_eq_self_iff.mpr fun c hc => decide_eq_true (h.chars c hc)

theorem Holds.settle (h : Holds s f) (p : Policy) (key : Int) :
    settle p s key = some (f.settle p s.uppercase key) := by
  rw [StringEdit.settle, Field.settle]
  cases p.transform with
  | none => rfl
  | some transform =>
      dsimp only
      rw [h.cstring, h.cur, Option.map_some, Option.map_some]

/-- The key is inserted and taken out again: the field is as it was. -/
theorem Holds.candidate (h : Holds s f) (accepts : List UInt8 → Bool) (key : Int) :
    ∃ s', candidateAllowed accepts s key =
        some (if f.template = false ∧ s.maxLen ≤ f.text.length then true
          else accepts (f.candidate key), s') ∧
      Holds s' f ∧ SameMode s s' ∧ (Shown s → Shown s') := by
  have htempl := h.template
  rw [candidateAllowed, Field.candidate, ← htempl, ← h.len]
  by_cases htemplate : s.clearTemplate = true
  · rw [if_pos htemplate, if_pos htemplate, if_neg (by rw [htemplate]; exact fun h => nomatch h.1)]
    exact ⟨s, rfl, h, ⟨rfl, rfl, rfl⟩, id⟩
  · rw [if_neg htemplate, if_neg htemplate]
    by_cases hfull : s.maxLen ≤ s.len
    · rw [if_pos hfull, if_pos ⟨eq_false_of_ne_true htemplate, hfull⟩]
      exact ⟨s, rfl, h, ⟨rfl, rfl, rfl⟩, id⟩
    · rw [if_neg hfull, if_neg fun h => hfull h.2]
      have hcur : s.cur = f.left.reverse.length := by
        rw [List.length_reverse]
        exact h.cur
      have hlt : f.text.length < s.maxLen := by
        rw [← h.len]
        omega
      obtain ⟨b, hb, hspells⟩ := insertAt_spells (charOf key) h.bytes hlt
      obtain ⟨b', hb', hspells'⟩ := removeAt_spells hspells (Nat.le_of_lt hlt)
      have hread : StringEdit.cstring b (s.maxLen + 1) 0 =
          some ((f.left.reverse ++ charOf key :: f.right).takeWhile (· ≠ 0)) := by
        refine cstring_eq _ b _ 0 ?_ fun j hj => by
          rw [Nat.zero_add]
          exact hspells j hj
        rw [Field.text, List.length_append] at hlt
        rw [List.length_append, List.length_cons]
        omega
      rw [← hcur, ← Field.text, ← h.len] at hb hb'
      refine ⟨{ s with buffer := b' }, ?_, ⟨h.cur, h.len, h.room, hspells', h.chars, h.template⟩,
        ⟨rfl, rfl, rfl⟩, fun hs => ⟨hs.nonneg, hs.before, hs.visible, hs.whole⟩⟩
      rw [hb, Option.bind_some, hread, Option.bind_some, hb', Option.map_some]

/-- One key. -/
theorem poll_follows (h : Holds s f) (p : Policy) (key : Int) :
    Follows s (s.poll p key) (f.press p s.uppercase s.maxLen key) := by
  rw [Edit.poll, Field.press]
  by_cases hnone : key = -1
  · rw [if_pos hnone, if_pos hnone]
    exact h.stays 0
  rw [if_neg hnone, if_neg hnone]
  by_cases herror : key = -2
  · rw [if_pos herror, if_pos herror]
    exact h.stays (-1)
  rw [if_neg herror, if_neg herror]
  by_cases hcancel : p.cancelKey ≠ 0 ∧ key = p.cancelKey
  · rw [if_pos hcancel, if_pos hcancel]
    exact h.stays (-1)
  rw [if_neg hcancel, if_neg hcancel]
  by_cases hprint : Printable key
  · rw [if_pos hprint, if_pos hprint, h.settle, Option.bind_some]
    dsimp only
    generalize f.settle p s.uppercase key = key
    rw [Field.allows]
    cases p.accepts with
    | none => exact act_follows h key
    | some accepts =>
        obtain ⟨s', hcand, hholds, hmode, hshown⟩ := h.candidate accepts key
        dsimp only
        rw [hcand, Option.bind_some]
        dsimp only
        by_cases hallowed : (if f.template = false ∧ s.maxLen ≤ f.text.length then true
          else accepts (f.candidate key)) = true
        · rw [if_pos hallowed, if_pos hallowed]
          obtain ⟨s'', h'', hholds', hmode', hshown'⟩ := act_follows hholds key
          rw [hmode.1] at h'' hholds'
          refine ⟨s'', h'', hholds', ⟨hmode'.1.trans hmode.1, hmode'.2.1.trans hmode.2.1,
            hmode'.2.2.trans hmode.2.2⟩, fun hwide hs => hshown' ?_ (hshown hs)⟩
          rw [Wide, hmode.1, hmode.2.1]
          exact hwide
        · rw [if_neg hallowed, if_neg hallowed]
          exact ⟨s', rfl, hholds, hmode, fun _ => hshown⟩
  rw [if_neg hprint, if_neg hprint]
  exact act_follows h key

theorem polls_follow (p : Policy) (keys : List Int) : ∀ (s : Edit) (f : Field), Holds s f →
    ∃ s', s.polls p keys = some ((f.presses p s.uppercase s.maxLen keys).1, s') ∧
      Holds s' (f.presses p s.uppercase s.maxLen keys).2 ∧ (Wide s → Shown s → Shown s') := by
  induction keys with
  | nil =>
      intro s f h
      exact ⟨s, rfl, h, fun _ => id⟩
  | cons key keys ih =>
      intro s f h
      obtain ⟨s₁, h₁, hholds, hmode, hshown⟩ := poll_follows h p key
      rw [Edit.polls, h₁, Option.bind_some, Field.presses]
      dsimp only
      by_cases hbusy : (f.press p s.uppercase s.maxLen key).1 = 0
      · rw [if_pos hbusy, if_pos hbusy]
        obtain ⟨s', h', hholds', hshown'⟩ := ih s₁ _ hholds
        rw [hmode.1, hmode.2.2] at h' hholds'
        refine ⟨s', h', hholds', fun hwide hs => hshown' ?_ (hshown hwide hs)⟩
        rw [Wide, hmode.1, hmode.2.1]
        exact hwide
      · rw [if_neg hbusy, if_neg hbusy]
        exact ⟨s₁, rfl, hholds, hshown⟩

/-- The text of a field that is opened: what there is room for, with the cursor behind it, or
    before it where it is a template. -/
def Field.opened (t : List UInt8) (maxLen : Nat) (template : Bool) : Field :=
  if template = true then ⟨[], t.take maxLen, decide (0 < (t.take maxLen).length)⟩
  else ⟨(t.take maxLen).reverse, [], false⟩

theorem text_opened (t : List UInt8) (maxLen : Nat) (template : Bool) :
    (Field.opened t maxLen template).text = t.take maxLen := by
  rw [Field.opened]
  split
  · rfl
  · rw [Field.text, List.reverse_reverse, List.append_nil]

theorem holds_init {buffer : Nat → UInt8} {t : List UInt8} (hspells : Spells buffer t)
    (hchars : ∀ c ∈ t, c ≠ 0) (maxLen : Nat) (maxChars : Int) (template uppercase : Bool) :
    Holds (Edit.init buffer t.length maxLen maxChars template uppercase)
      (Field.opened t maxLen template) := by
  have hlen : min t.length maxLen = (t.take maxLen).length := by
    rw [List.length_take, Nat.min_comm]
  refine ⟨?_, ?_, Nat.min_le_right _ _, ?_, ?_, ?_⟩
  · rw [Edit.init, Field.opened]
    cases template with
    | false =>
        show min t.length maxLen = (t.take maxLen).reverse.length
        rw [List.length_reverse, hlen]
    | true => rfl
  · rw [text_opened]
    exact hlen
  · rw [text_opened]
    intro i hi
    rw [List.length_take] at hi
    rw [Edit.init, List.getD_eq_getElem?_getD, List.getElem?_take]
    dsimp only
    by_cases hend : i < maxLen
    · rw [if_pos hend, ← List.getD_eq_getElem?_getD, ← hspells i (by omega)]
      split
      · exact Function.update_of_ne (by omega) _ _
      · rfl
    · -- the text is cut where the buffer ends
      have hi' : i = maxLen := by omega
      rw [if_neg hend, Option.getD_none]
      split
      · rw [hi', Function.update_self]
      · rw [hspells i (by omega), List.getD_eq_getElem?_getD, List.getElem?_eq_none (by omega),
          Option.getD_none]
  · intro c hc
    rw [text_opened] at hc
    exact hchars c (List.mem_of_mem_take hc)
  · rw [Edit.init, Field.opened]
    cases template with
    | false => rfl
    | true =>
        show (true && decide (0 < min t.length maxLen)) = decide (0 < (t.take maxLen).length)
        rw [hlen, Bool.true_and]

theorem shown_init (buffer : Nat → UInt8) (strlen maxLen : Nat) {maxChars : Int}
    (hpos : 0 < maxChars) (template uppercase : Bool) :
    Shown (Edit.init buffer strlen maxLen maxChars template uppercase) := by
  rw [Edit.init]
  refine ⟨?_, ?_, ?_, ?_⟩ <;> dsimp only <;> split_ifs <;> omega

/-- Whatever is typed, with whatever policy, the field does what is done to the text: `poll`
    gives the same answers, the buffer holds the text and its terminator, and the cursor stays
    in the part that is shown. -/
theorem polls_refine (p : Policy) (keys : List Int) {buffer : Nat → UInt8} {t : List UInt8}
    (hspells : Spells buffer t) (hchars : ∀ c ∈ t, c ≠ 0) (maxLen : Nat) {maxChars : Int}
    (hpos : 0 < maxChars) (template uppercase : Bool) :
    ∃ s', (Edit.init buffer t.length maxLen maxChars template uppercase).polls p keys =
        some (((Field.opened t maxLen template).presses p uppercase maxLen keys).1, s') ∧
      Holds s' ((Field.opened t maxLen template).presses p uppercase maxLen keys).2 ∧
      (10 ≤ maxChars ∨ (maxLen : Int) < maxChars → Shown s') := by
  obtain ⟨s', hrun, hholds, hshown⟩ := polls_follow p keys _ _
    (holds_init hspells hchars maxLen maxChars template uppercase)
  exact ⟨s', hrun, hholds, fun hwide =>
    hshown hwide (shown_init buffer t.length maxLen hpos template uppercase)⟩

/-- A field without a policy. -/
def noPolicy : Policy := ⟨none, none, 0⟩

theorem polls_refine_two :
    ∃ s', (Edit.init (fun i => [65, 66].getD i 0) [(65 : UInt8), 66].length 3 4 false true).polls
        noPolicy [keyLeft, 120, keyReturn] =
        some (((Field.opened [65, 66] 3 false).presses noPolicy true 3 [keyLeft, 120, keyReturn]).1,
          s') ∧
      Holds s' ((Field.opened [65, 66] 3 false).presses noPolicy true 3 [keyLeft, 120, keyReturn]).2 ∧
      (10 ≤ (4 : Int) ∨ ((3 : Nat) : Int) < 4 → Shown s') :=
  polls_refine noPolicy [keyLeft, 120, keyReturn] (fun _ _ => rfl)
    (by intro c hc; rcases List.mem_cons.mp hc with rfl | hc <;> [decide; skip];
        rcases List.mem_singleton.mp hc with rfl; decide) 3 (by decide) false true

example : ((Field.opened [65, 66] 3 false).presses noPolicy true 3 [keyLeft, 120, keyReturn]).2.text =
    [65, 88, 66] := by decide

end StringEdit
