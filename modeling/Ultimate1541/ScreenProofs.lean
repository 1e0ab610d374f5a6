import Mathlib

/-! # The character matrix

    A screen is a matrix of characters in memory with a colour for each cell.  The cursor is
    no cell of its own: it is shown by the top bit of the character below it, and each
    operation takes it away, draws, and puts it back (`under`).

    No operation leaves the matrix, wherever it is told to go.  And the cursor is an overlay:
    what is drawn with the cursor on is what is drawn without one, with the top bit of one
    cell turned (`plain`).  Clearing the screen and the two operations for a popup do not
    take the cursor away, so this is for runs that use them while it is hidden. -/

namespace Screen

/-- A matrix has a cell. -/
structure Size where
  x : Nat
  y : Nat
  x_pos : 0 < x
  y_pos : 0 < y

def Size.cells (z : Size) : Nat := z.x * z.y

abbrev Cells := Nat → UInt8

/-- What `backup` keeps. -/
structure Backup where
  chars : Cells
  color : Cells
  x : Int
  y : Int

/-- `Screen_MemMappedCharMatrix`; `codes` are the `cell_colour_codes`. -/
structure Matrix where
  escape : Bool
  chars : Cells
  colors : Cells
  codes : Cells
  cursorX : Int
  cursorY : Int
  pointer : Int
  color : UInt32
  background : UInt32
  reverse : Bool
  cursorOn : Bool
  allowScroll : Bool
  saved : Option Backup

/-! ## The source

    An access outside of the matrix has no result. -/

section Source

variable (z : Size)

def load (m : Cells) (i : Int) : Option UInt8 :=
  if 0 ≤ i ∧ i < z.cells then some (m i.toNat) else none

def store (m : Cells) (i : Int) (v : UInt8) : Option Cells :=
  if 0 ≤ i ∧ i < z.cells then some (Function.update m i.toNat v) else none

/-- `char_base[pointer] ^= 0x80`. -/
def invert (s : Matrix) : Option Matrix :=
  (load z s.chars s.pointer).bind fun c =>
    (store z s.chars s.pointer (c ^^^ 0x80)).map fun m => { s with chars := m }

/-- Places the cursor, or takes it away. -/
def toggle (s : Matrix) : Option Matrix := if s.cursorOn = true then invert z s else some s

/-- Cells are copied one after the other, to the first index of a pair from the second. -/
def copyCells : List (Int × Int) → Cells → Option Cells
  | [], m => some m
  | (dst, src) :: rest, m =>
      (load z m src).bind fun v => (store z m dst v).bind (copyCells rest)

def fillCells (v : UInt8) : List Int → Cells → Option Cells
  | [], m => some m
  | i :: rest, m => (store z m i v).bind (fillCells v rest)

/-- The two loops of `scroll_up`: each row comes from the one below it. -/
def rowMoves : List (Int × Int) :=
  (List.range (z.y - 1)).flatMap fun y => (List.range z.x).map fun x =>
    (((y * z.x + x : Nat) : Int), ((y * z.x + x + z.x : Nat) : Int))

/-- Its last loop. -/
def lastRow : List Int := (List.range z.x).map fun x => (((z.y - 1) * z.x + x : Nat) : Int)

def scrollCells (fill : UInt8) (m : Cells) : Option Cells :=
  (copyCells z (rowMoves z) m).bind (fillCells z fill (lastRow z))

def scrollUp (s : Matrix) : Option Matrix :=
  if s.allowScroll = false then some s
  else
    (scrollCells z 0 s.chars).bind fun chars =>
      (scrollCells z 15 s.colors).bind fun colors =>
        (scrollCells z 15 s.codes).map fun codes =>
          { s with chars := chars, colors := colors, codes := codes }

/-- One row down. -/
def newLine (s : Matrix) : Option Matrix :=
  if s.cursorY = z.y - 1 then scrollUp z s
  else some { s with pointer := s.pointer + z.x, cursorY := s.cursorY + 1 }

def cellColourCode (s : Matrix) : UInt8 :=
  ((s.color &&& 15) ||| ((s.background &&& (15 : UInt32)) <<< (4 : UInt32))).toUInt8

/-- A character is put into its cell. -/
def place (s : Matrix) (c : UInt8) : Option Matrix :=
  (store z s.chars s.pointer (if s.reverse = true then c ||| 0x80 else c &&& 0x7F)).bind fun chars =>
    (store z s.colors s.pointer (cellColourCode s)).bind fun colors =>
      (store z s.codes s.pointer (cellColourCode s)).map fun codes =>
        { s with chars := chars, colors := colors, codes := codes,
                 pointer := s.pointer + 1, cursorX := s.cursorX + 1 }

/-- `switch (c)` in `output_raw`. -/
def draw (c : UInt8) (s : Matrix) : Option Matrix :=
  if c = 0x0A then
    (newLine z s).map fun s => { s with pointer := s.pointer - s.cursorX, cursorX := 0 }
  else if c = 0x0D then some { s with pointer := s.pointer - s.cursorX, cursorX := 0 }
  else if c = 0x08 then
    if 0 < s.pointer then
      (store z s.chars (s.pointer - 1) 0).map fun chars =>
        if s.cursorX - 1 < 0 then
          { s with chars := chars, pointer := s.pointer - 1, cursorX := z.x - 1,
                   cursorY := s.cursorY - 1 }
        else { s with chars := chars, pointer := s.pointer - 1, cursorX := s.cursorX - 1 }
    else some s
  else
    (place z s c).bind fun s =>
      if (z.x : Int) ≤ s.cursorX then
        newLine z { s with pointer := s.pointer - s.cursorX, cursorX := 0 }
      else some s

/-- The cursor is taken away, something is done, and the cursor is placed again. -/
def under (core : Matrix → Option Matrix) (s : Matrix) : Option Matrix :=
  (toggle z s).bind fun s => (core s).bind (toggle z)

def outputRaw (c : UInt8) : Matrix → Option Matrix := under z (draw z c)

/-- `output` of a character: it answers how many cells it has drawn. -/
def output (c : UInt8) (s : Matrix) : Option (Nat × Matrix) :=
  if s.escape = true then
    some (0,
      if c = 'R'.toUInt8 then { s with reverse := true, escape := false }
      else if c = 'r'.toUInt8 then { s with reverse := false, escape := false }
      else if c = 'B'.toUInt8 then { s with background := c.toUInt32 &&& 15, escape := false }
      else { s with color := c.toUInt32 &&& 15, escape := false })
  else if c = 27 then some (0, { s with escape := true })
  else (outputRaw z c s).map fun s => (1, s)

/-- `cursor_on` is clear while something is done. -/
def withoutCursor (core : Matrix → Option Matrix) (s : Matrix) : Option Matrix :=
  (core { s with cursorOn := false }).map fun r => { r with cursorOn := s.cursorOn }

def repeatLoop (a : UInt8) : Nat → Matrix → Option Matrix
  | 0, s => some s
  | n + 1, s => (outputRaw z a s).bind (repeatLoop a n)

/-- `repeat`. -/
def repeatChar (a : UInt8) (len : Int) : Matrix → Option Matrix :=
  under z (withoutCursor (repeatLoop z a len.toNat))

/-- The loop of `output_fixed_length`, with so many characters still to be placed. -/
def fixedLoop : List UInt8 → (left : Int) → Matrix → Option Matrix
  | [], left, s => if 0 < left then repeatChar z 32 left s else some s
  | c :: string, left, s =>
      if 0 < left then (output z c s).bind fun r => fixedLoop string (left - r.1) r.2 else some s

def outputFixedLength (string : List UInt8) (width : Int) : Matrix → Option Matrix :=
  under z (withoutCursor (fixedLoop z string width))

/-- A coordinate, brought inside. -/
def clamp (n : Nat) (x : Int) : Int :=
  let x := if (n : Int) - 1 < x then (n : Int) - 1 else x
  if x < 0 then 0 else x

def moveCursor (x y : Int) : Matrix → Option Matrix :=
  under z fun s =>
    some { s with cursorX := clamp z.x x, cursorY := clamp z.y y,
                  pointer := clamp z.y y * z.x + clamp z.x x }

def cursorVisible (a : Bool) (s : Matrix) : Option Matrix :=
  if s.cursorOn = a then some { s with cursorOn := a }
  else (invert z s).map fun s => { s with cursorOn := a }

/-- The first cells of a copy, the others as they are. -/
def copied (src dst : Cells) : Cells := fun i => if i < z.cells then src i else dst i

def clear (s : Matrix) : Option Matrix :=
  moveCursor z 0 0 { s with
    reverse := false, color := 15, chars := copied z (fun _ => 32) s.chars,
    colors := copied z (fun _ => 15) s.colors, codes := copied z (fun _ => 15) s.codes }

def restore (s : Matrix) : Option Matrix :=
  match s.saved with
  | none => some s
  | some b =>
      (moveCursor z b.x b.y { s with
        chars := copied z b.chars s.chars, colors := copied z b.color s.colors,
        codes := copied z b.color s.codes }).map fun s => { s with saved := none }

def backup (s : Matrix) : Option Matrix :=
  (restore z s).map fun s => { s with saved := some ⟨s.chars, s.codes, s.cursorX, s.cursorY⟩ }

end Source

/-- What is called from outside. -/
inductive Op
  | output (c : UInt8)
  | repeatChar (a : UInt8) (len : Int)
  | outputFixedLength (string : List UInt8) (width : Int)
  | moveCursor (x y : Int)
  | cursorVisible (a : Bool)
  | setColor (c : UInt32)
  | setBackground (c : UInt32)
  | reverseMode (r : Bool)
  | scrollMode (b : Bool)
  | clear
  | backup
  | restore

def Op.run (z : Size) (s : Matrix) : Op → Option Matrix
  | .output c => (Screen.output z c s).map Prod.snd
  | .repeatChar a len => Screen.repeatChar z a len s
  | .outputFixedLength string width => Screen.outputFixedLength z string width s
  | .moveCursor x y => Screen.moveCursor z x y s
  | .cursorVisible a => Screen.cursorVisible z a s
  | .setColor c => some { s with color := c }
  | .setBackground c => some { s with background := c }
  | .reverseMode r => some { s with reverse := r }
  | .scrollMode b => some { s with allowScroll := b }
  | .clear => Screen.clear z s
  | .backup => Screen.backup z s
  | .restore => Screen.restore z s

def runAll (z : Size) : List Op → Matrix → Option Matrix
  | [], s => some s
  | op :: ops, s => (op.run z s).bind (runAll z ops)

/-! ## The cursor is inside -/

/-- The cursor is in the matrix, and the pointer is at its cell. -/
structure Inside (z : Size) (s : Matrix) : Prop where
  left : 0 ≤ s.cursorX
  right : s.cursorX < z.x
  top : 0 ≤ s.cursorY
  bottom : s.cursorY < z.y
  pointer : s.pointer = s.cursorY * z.x + s.cursorX

variable {z : Size} {s : Matrix}

theorem cell_lt {x y : Int} (hx : x < z.x) (hy : y < z.y) : y * z.x + x < z.cells := by
  have hrow : y * z.x ≤ ((z.y : Int) - 1) * z.x :=
    Int.mul_le_mul_of_nonneg_right (by omega) (Int.natCast_nonneg _)
  rw [Int.sub_mul, Int.one_mul] at hrow
  rw [Size.cells, Int.natCast_mul, Int.mul_comm (z.x : Int)]
  omega

theorem Inside.nonneg (h : Inside z s) : 0 ≤ s.pointer := by
  rw [h.pointer]
  exact Int.add_nonneg (Int.mul_nonneg h.top (Int.natCast_nonneg _)) h.left

theorem Inside.lt (h : Inside z s) : s.pointer < z.cells := by
  rw [h.pointer]
  exact cell_lt h.right h.bottom

theorem load_eq {m : Cells} {i : Int} (h0 : 0 ≤ i) (h : i < z.cells) :
    load z m i = some (m i.toNat) := if_pos ⟨h0, h⟩

theorem store_eq {m : Cells} {i : Int} {v : UInt8} (h0 : 0 ≤ i) (h : i < z.cells) :
    store z m i v = some (Function.update m i.toNat v) := if_pos ⟨h0, h⟩

theorem Inside.store (h : Inside z s) (m : Cells) (v : UInt8) :
    store z m s.pointer v = some (Function.update m s.pointer.toNat v) := store_eq h.nonneg h.lt

/-! ## The loops of `scroll_up` -/

theorem copyCells_ok (moves : List (Int × Int)) :
    (∀ p ∈ moves, (0 ≤ p.1 ∧ p.1 < z.cells) ∧ 0 ≤ p.2 ∧ p.2 < z.cells) →
      ∀ m : Cells, ∃ m', copyCells z moves m = some m' := by
  induction moves with
  | nil =>
      intro _ m
      exact ⟨m, rfl⟩
  | cons p rest ih =>
      intro h m
      obtain ⟨hp, hrest⟩ := List.forall_mem_cons.mp h
      rw [copyCells, load_eq hp.2.1 hp.2.2, Option.bind_some, store_eq hp.1.1 hp.1.2,
        Option.bind_some]
      exact ih hrest _

theorem fillCells_ok (v : UInt8) (cells : List Int) :
    (∀ i ∈ cells, 0 ≤ i ∧ i < z.cells) → ∀ m : Cells, ∃ m', fillCells z v cells m = some m' := by
  induction cells with
  | nil =>
      intro _ m
      exact ⟨m, rfl⟩
  | cons i rest ih =>
      intro h m
      obtain ⟨hi, hrest⟩ := List.forall_mem_cons.mp h
      rw [fillCells, store_eq hi.1 hi.2, Option.bind_some]
      exact ih hrest _

/-- The last row is read and written, and nothing behind it. -/
theorem scrollCells_ok (fill : UInt8) (m : Cells) : ∃ m', scrollCells z fill m = some m' := by
  have hcell : ∀ {x y : Nat}, x < z.x → y < z.y → ((y * z.x + x : Nat) : Int) < z.cells := by
    intro x y hx hy
    have := cell_lt (z := z) (Int.ofNat_lt.mpr hx) (Int.ofNat_lt.mpr hy)
    rwa [← Int.natCast_mul, ← Int.natCast_add] at this
  obtain ⟨m₁, h₁⟩ := copyCells_ok (z := z) (rowMoves z) (fun p hp => by
    obtain ⟨y, hy, x, hx, rfl⟩ : ∃ y < z.y - 1, ∃ x < z.x,
        (((y * z.x + x : Nat) : Int), ((y * z.x + x + z.x : Nat) : Int)) = p := by
      simpa [rowMoves] using hp
    have hnext := hcell hx (show y + 1 < z.y by omega)
    rw [Nat.add_mul, Nat.one_mul, Nat.add_right_comm] at hnext
    exact ⟨⟨Int.natCast_nonneg _, hcell hx (by omega)⟩, Int.natCast_nonneg _, hnext⟩) m
  obtain ⟨m₂, h₂⟩ := fillCells_ok (z := z) fill (lastRow z) (fun i hi => by
    obtain ⟨x, hx, rfl⟩ : ∃ x < z.x, (((z.y - 1) * z.x + x : Nat) : Int) = i := by
      simpa [lastRow] using hi
    have := z.y_pos
    exact ⟨Int.natCast_nonneg _, hcell hx (by omega)⟩) m₁
  rw [scrollCells, h₁, Option.bind_some]
  exact ⟨m₂, h₂⟩

/-- The codes are those that have been written to the colour memory. -/
def Painted (s : Matrix) : Prop := s.colors = s.codes

/-- The cursor stays inside, and the codes stay those of the colour memory. -/
def Safe (z : Size) (f : Matrix → Option Matrix) : Prop :=
  ∀ s, Inside z s → ∃ s', f s = some s' ∧ Inside z s' ∧ (Painted s → Painted s')

/-- What draws without looking at whether there is a cursor. -/
structure Draws (z : Size) (core : Matrix → Option Matrix) : Prop where
  safe : Safe z core
  blind : ∀ s b, core { s with cursorOn := b } =
    (core s).map fun s' => { s' with cursorOn := b }

theorem Safe.bind {f g : Matrix → Option Matrix} (hf : Safe z f) (hg : Safe z g) :
    Safe z fun s => (f s).bind g := by
  intro s hs
  obtain ⟨s₁, h₁, hin₁, hp₁⟩ := hf s hs
  obtain ⟨s₂, h₂, hin₂, hp₂⟩ := hg s₁ hin₁
  refine ⟨s₂, ?_, hin₂, hp₂ ∘ hp₁⟩
  dsimp only
  rw [h₁, Option.bind_some, h₂]

theorem Draws.bind {f g : Matrix → Option Matrix} (hf : Draws z f) (hg : Draws z g) :
    Draws z fun s => (f s).bind g where
  safe := hf.safe.bind hg.safe
  blind := by
    intro s b
    rw [hf.blind, Option.bind_map, Option.map_bind]
    exact Option.bind_congr fun s' _ => hg.blind s' b

/-- The cursor goes somewhere, and nothing is drawn. -/
theorem draws_move {f : Matrix → Matrix} (hin : ∀ s, Inside z s → Inside z (f s))
    (hpaint : ∀ s, Painted s → Painted (f s))
    (hblind : ∀ s b, f { s with cursorOn := b } = { f s with cursorOn := b }) :
    Draws z fun s => some (f s) where
  safe := fun s hs => ⟨f s, rfl, hin s hs, hpaint s⟩
  blind := fun s b => congrArg some (hblind s b)

/-! ## A character -/

theorem draws_scrollUp : Draws z (scrollUp z) where
  safe := by
    intro s hs
    rw [scrollUp]
    split
    · exact ⟨s, rfl, hs, id⟩
    · obtain ⟨chars, hchars⟩ := scrollCells_ok (z := z) 0 s.chars
      obtain ⟨colors, hcolors⟩ := scrollCells_ok (z := z) 15 s.colors
      obtain ⟨codes, hcodes⟩ := scrollCells_ok (z := z) 15 s.codes
      refine ⟨{ s with chars := chars, colors := colors, codes := codes }, ?_,
        ⟨hs.left, hs.right, hs.top, hs.bottom, hs.pointer⟩, ?_⟩
      · rw [hchars, Option.bind_some, hcolors, Option.bind_some, hcodes, Option.map_some]
      · intro hp
        rw [Painted] at hp
        rw [hp, hcodes] at hcolors
        exact (Option.some.inj hcolors).symm
  blind := by
    intro s b
    simp only [scrollUp]
    split
    · rfl
    · simp only [Option.map_bind, Option.map_map, Function.comp_def]

theorem draws_newLine : Draws z (newLine z) where
  safe := by
    intro s hs
    by_cases hlast : s.cursorY = z.y - 1
    · rw [newLine, if_pos hlast]
      exact draws_scrollUp.safe s hs
    · have := hs.bottom
      have := hs.top
      rw [newLine, if_neg hlast]
      refine ⟨_, rfl, ⟨hs.left, hs.right, ?_, ?_, ?_⟩, id⟩
      · show 0 ≤ s.cursorY + 1
        omega
      · show s.cursorY + 1 < z.y
        omega
      · show s.pointer + z.x = (s.cursorY + 1) * z.x + s.cursorX
        rw [hs.pointer, Int.add_mul, Int.one_mul]
        omega
  blind := by
    intro s b
    simp only [newLine]
    split
    · exact draws_scrollUp.blind s b
    · rfl

/-- Back to the first column. -/
theorem draws_return :
    Draws z fun s => some { s with pointer := s.pointer - s.cursorX, cursorX := 0 } := by
  refine draws_move (fun s hs => ⟨Int.le_refl 0, ?_, hs.top, hs.bottom, ?_⟩) (fun s h => h)
    fun s b => rfl
  · exact Int.ofNat_lt.mpr z.x_pos
  · show s.pointer - s.cursorX = s.cursorY * z.x + 0
    rw [hs.pointer]
    omega

/-- A backspace goes to the cell before, also over the left edge. -/
theorem draws_backspace : Draws z fun s =>
    if 0 < s.pointer then
      (store z s.chars (s.pointer - 1) 0).map fun chars =>
        if s.cursorX - 1 < 0 then
          { s with chars := chars, pointer := s.pointer - 1, cursorX := z.x - 1,
                   cursorY := s.cursorY - 1 }
        else { s with chars := chars, pointer := s.pointer - 1, cursorX := s.cursorX - 1 }
    else some s where
  safe := by
    intro s hs
    have hlt := hs.lt
    have hleft := hs.left
    have hright := hs.right
    have htop := hs.top
    have hbottom := hs.bottom
    have hpointer := hs.pointer
    by_cases hpos : 0 < s.pointer
    · simp only [if_pos hpos, store_eq (show 0 ≤ s.pointer - 1 by omega)
        (show s.pointer - 1 < z.cells by omega), Option.map_some]
      refine ⟨_, rfl, ?_, ?_⟩
      · by_cases hedge : s.cursorX - 1 < 0
        · rw [if_pos hedge]
          -- at the left edge there is a row above, since the pointer is not at the first cell
          have hrow : 0 < s.cursorY := by
            by_contra hno
            have h0 : s.cursorY = 0 := by omega
            rw [h0, Int.zero_mul] at hpointer
            omega
          have := z.x_pos
          refine ⟨?_, ?_, ?_, ?_, ?_⟩ <;> dsimp only
          · omega
          · omega
          · omega
          · omega
          · rw [hpointer, Int.sub_mul, Int.one_mul]
            omega
        · rw [if_neg hedge]
          refine ⟨?_, ?_, htop, hbottom, ?_⟩ <;> dsimp only <;> omega
      · intro hp
        split <;> exact hp
    · simp only [if_neg hpos]
      exact ⟨s, rfl, hs, id⟩
  blind := by
    intro s b
    dsimp only
    split
    · rw [Option.map_map]
      congr 1
      funext chars
      dsimp only [Function.comp]
      split <;> rfl
    · rfl

/-- A cell is written, and the cursor goes on, to the next row at the right edge. -/
theorem draws_place (c : UInt8) : Draws z fun s =>
    (place z s c).bind fun s =>
      if (z.x : Int) ≤ s.cursorX then
        newLine z { s with pointer := s.pointer - s.cursorX, cursorX := 0 }
      else some s where
  safe := by
    intro s hs
    have hleft := hs.left
    have hright := hs.right
    have hpointer := hs.pointer
    have hx := z.x_pos
    simp only [place, hs.store, Option.bind_some, Option.map_some]
    split
    · next hedge =>
      obtain ⟨s', hs', hin, hpaint⟩ := draws_newLine.safe (z := z)
        { s with
          chars := Function.update s.chars s.pointer.toNat
            (if s.reverse = true then c ||| 0x80 else c &&& 0x7F)
          colors := Function.update s.colors s.pointer.toNat (cellColourCode s)
          codes := Function.update s.codes s.pointer.toNat (cellColourCode s)
          pointer := s.pointer + 1 - (s.cursorX + 1), cursorX := 0 }
        ⟨Int.le_refl 0, Int.ofNat_lt.mpr hx, hs.top, hs.bottom, by dsimp only; omega⟩
      refine ⟨s', hs', hin, fun hp => hpaint ?_⟩
      rw [Painted] at hp ⊢
      dsimp only
      rw [hp]
    · next hedge =>
      refine ⟨_, rfl, ⟨?_, ?_, hs.top, hs.bottom, ?_⟩, ?_⟩
      · dsimp only
        omega
      · exact Int.not_le.mp hedge
      · dsimp only
        omega
      · intro hp
        rw [Painted] at hp ⊢
        dsimp only
        rw [hp]
  blind := by
    intro s b
    simp only [place, cellColourCode, Option.map_bind, Option.bind_map, Option.bind_assoc,
      Function.comp_def]
    congr 1
    funext chars
    congr 1
    funext colors
    congr 1
    funext codes
    split
    · exact draws_newLine.blind
        { s with
          chars := chars, colors := colors, codes := codes,
          pointer := s.pointer + 1 - (s.cursorX + 1), cursorX := 0 } b
    · rfl

theorem draws_draw (c : UInt8) : Draws z (draw z c) := by
  by_cases hlf : c = 0x0A
  · have h := (draws_newLine (z := z)).bind draws_return
    have heq : draw z c = fun s => (newLine z s).bind fun s =>
        some { s with pointer := s.pointer - s.cursorX, cursorX := 0 } := by
      funext s
      rw [draw, if_pos hlf, Option.map_eq_bind]
      rfl
    rwa [heq]
  · by_cases hcr : c = 0x0D
    · have heq : draw z c =
          fun s => some { s with pointer := s.pointer - s.cursorX, cursorX := 0 } := by
        funext s
        rw [draw, if_neg hlf, if_pos hcr]
      rw [heq]
      exact draws_return
    · by_cases hbs : c = 0x08
      · have h := draws_backspace (z := z)
        have heq : draw z c = _ := funext fun s => by rw [draw, if_neg hlf, if_neg hcr, if_pos hbs]
        rwa [heq]
      · have h := draws_place (z := z) c
        have heq : draw z c = _ := funext fun s => by rw [draw, if_neg hlf, if_neg hcr, if_neg hbs]
        rwa [heq]

/-! ## The overlay -/

/-- The top bit of a cell is turned. -/
def turned (m : Cells) (i : Nat) : Cells := Function.update m i (m i ^^^ 0x80)

theorem turned_turned (m : Cells) (i : Nat) : turned (turned m i) i = m := by
  rw [turned, turned, Function.update_idem, Function.update_self, UInt8.xor_assoc,
    UInt8.xor_self, UInt8.xor_zero, Function.update_eq_self]

/-- The screen with the cursor turned. -/
def toggled (s : Matrix) : Matrix :=
  { s with chars := if s.cursorOn = true then turned s.chars s.pointer.toNat else s.chars }

/-- The screen without a cursor. -/
def plain (s : Matrix) : Matrix := { toggled s with cursorOn := false }

theorem Inside.invert (h : Inside z s) :
    invert z s = some { s with chars := turned s.chars s.pointer.toNat } := by
  rw [Screen.invert, load_eq h.nonneg h.lt, Option.bind_some, h.store, Option.map_some]
  rfl

theorem Inside.toggle (h : Inside z s) : toggle z s = some (toggled s) := by
  simp only [Screen.toggle, toggled]
  split
  · exact h.invert
  · rfl

theorem Inside.toggled (h : Inside z s) : Inside z (toggled s) :=
  ⟨h.left, h.right, h.top, h.bottom, h.pointer⟩

theorem Inside.withCursor (h : Inside z s) (b : Bool) : Inside z { s with cursorOn := b } :=
  ⟨h.left, h.right, h.top, h.bottom, h.pointer⟩

theorem toggle_off (s : Matrix) (h : s.cursorOn = false) : toggle z s = some s := by
  rw [toggle, if_neg (by rw [h]; exact Bool.noConfusion)]

theorem plain_off (s : Matrix) (h : s.cursorOn = false) : plain s = s := by
  have hno : ¬ s.cursorOn = true := by
    rw [h]
    exact Bool.noConfusion
  rw [plain, toggled]
  simp only [if_neg hno, ← h]

/-- Turning the cursor twice leaves what is below it. -/
theorem plain_toggled (s : Matrix) : plain (toggled s) = { s with cursorOn := false } := by
  simp only [plain, toggled]
  split
  · rw [turned_turned]
  · rfl

/-- What an operation does that shows the cursor as before: the same as without a cursor. -/
def Overlays (z : Size) (f : Matrix → Option Matrix) : Prop :=
  ∀ s, Inside z s → ∃ s', f s = some s' ∧ Inside z s' ∧ (Painted s → Painted s') ∧
    f (plain s) = some (plain s')

theorem Overlays.safe {f : Matrix → Option Matrix} (h : Overlays z f) : Safe z f := by
  intro s hs
  obtain ⟨s', h', hin, hpaint, -⟩ := h s hs
  exact ⟨s', h', hin, hpaint⟩

/-- The cursor is taken away and placed again: it is an overlay. -/
theorem Draws.under {core : Matrix → Option Matrix} (h : Draws z core) :
    Overlays z (under z core) := by
  intro s hs
  obtain ⟨t, ht, hin, hpaint⟩ := h.safe (toggled s) hs.toggled
  have hkept : t.cursorOn = s.cursorOn := by
    have hsame : core (toggled s) =
        (core (toggled s)).map fun s' => { s' with cursorOn := s.cursorOn } :=
      h.blind (toggled s) s.cursorOn
    rw [ht, Option.map_some, Option.some.injEq] at hsame
    rw [hsame]
  refine ⟨toggled t, ?_, hin.toggled, fun hp => hpaint hp, ?_⟩
  · rw [Screen.under, hs.toggle, Option.bind_some, ht, Option.bind_some, hin.toggle]
  · have hoff : (plain s).cursorOn = false := rfl
    have hcore : core (plain s) = some { t with cursorOn := false } := by
      rw [plain, h.blind, ht, Option.map_some]
    rw [Screen.under, toggle_off _ hoff, Option.bind_some, hcore, Option.bind_some, plain_toggled]
    exact toggle_off _ rfl

theorem Safe.withoutCursor {f : Matrix → Option Matrix} (h : Safe z f) :
    Draws z (withoutCursor f) where
  safe := by
    intro s hs
    obtain ⟨s', h', hin, hpaint⟩ := h _ (hs.withCursor false)
    refine ⟨{ s' with cursorOn := s.cursorOn }, ?_, hin.withCursor _, hpaint⟩
    rw [Screen.withoutCursor, h', Option.map_some]
  blind := by
    intro s b
    rw [Screen.withoutCursor, Screen.withoutCursor, Option.map_map]
    rfl

/-! ## The operations -/

theorem overlays_outputRaw (c : UInt8) : Overlays z (outputRaw z c) := (draws_draw c).under

theorem safe_repeatLoop (a : UInt8) (n : Nat) : Safe z (repeatLoop z a n) := by
  induction n with
  | zero =>
      intro s hs
      exact ⟨s, rfl, hs, id⟩
  | succ n ih => exact (overlays_outputRaw a).safe.bind ih

theorem overlays_repeatChar (a : UInt8) (len : Int) : Overlays z (repeatChar z a len) :=
  (safe_repeatLoop a len.toNat).withoutCursor.under

/-- `output` draws a character, or changes the mode, which has nothing to do with the
    cursor. -/
theorem overlays_output (c : UInt8) {s : Matrix} (hs : Inside z s) :
    ∃ n s', output z c s = some (n, s') ∧ Inside z s' ∧ (Painted s → Painted s') ∧
      output z c (plain s) = some (n, plain s') := by
  have hsame : (plain s).escape = s.escape := rfl
  rw [output, output, hsame]
  by_cases hesc : s.escape = true
  · simp only [if_pos hesc]
    refine ⟨0, _, rfl, ?_, fun hp => ?_, ?_⟩
    · split_ifs <;> exact ⟨hs.left, hs.right, hs.top, hs.bottom, hs.pointer⟩
    · split_ifs <;> exact hp
    · split_ifs <;> rfl
  · simp only [if_neg hesc]
    by_cases hstart : c = 27
    · simp only [if_pos hstart]
      exact ⟨0, _, rfl, ⟨hs.left, hs.right, hs.top, hs.bottom, hs.pointer⟩, id, rfl⟩
    · simp only [if_neg hstart]
      obtain ⟨s', hraw, hin, hpaint, hplain⟩ := overlays_outputRaw c s hs
      refine ⟨1, s', ?_, hin, hpaint, ?_⟩
      · rw [hraw, Option.map_some]
      · rw [hplain, Option.map_some]

theorem safe_fixedLoop (string : List UInt8) : ∀ left : Int, Safe z (fixedLoop z string left) := by
  induction string with
  | nil =>
      intro left s hs
      rw [fixedLoop]
      split
      · exact (overlays_repeatChar 32 left).safe s hs
      · exact ⟨s, rfl, hs, id⟩
  | cons c string ih =>
      intro left s hs
      rw [fixedLoop]
      split
      · obtain ⟨n, s₁, h₁, hin₁, hp₁, -⟩ := overlays_output c hs
        obtain ⟨s₂, h₂, hin₂, hp₂⟩ := ih (left - n) s₁ hin₁
        refine ⟨s₂, ?_, hin₂, hp₂ ∘ hp₁⟩
        rw [h₁, Option.bind_some]
        exact h₂
      · exact ⟨s, rfl, hs, id⟩

theorem overlays_outputFixedLength (string : List UInt8) (width : Int) :
    Overlays z (outputFixedLength z string width) :=
  (safe_fixedLoop string width).withoutCursor.under

theorem clamp_bounds {n : Nat} (hn : 0 < n) (x : Int) : 0 ≤ clamp n x ∧ clamp n x < n := by
  have : (0 : Int) < n := Int.ofNat_lt.mpr hn
  rw [clamp]
  split_ifs <;> omega

theorem overlays_moveCursor (x y : Int) : Overlays z (moveCursor z x y) := by
  refine Draws.under (draws_move (fun s _ => ?_) (fun s h => h) fun s b => rfl)
  obtain ⟨hx0, hx⟩ := clamp_bounds z.x_pos x
  obtain ⟨hy0, hy⟩ := clamp_bounds z.y_pos y
  exact ⟨hx0, hx, hy0, hy, rfl⟩

/-- Showing the cursor or hiding it changes nothing below it. -/
theorem cursorVisible_plain (a : Bool) {s : Matrix} (hs : Inside z s) :
    ∃ s', cursorVisible z a s = some s' ∧ Inside z s' ∧ (Painted s → Painted s') ∧
      plain s' = plain s := by
  rw [cursorVisible]
  by_cases hsame : s.cursorOn = a
  · rw [if_pos hsame]
    refine ⟨_, rfl, hs.withCursor a, id, ?_⟩
    rw [← hsame]
  · rw [if_neg hsame, hs.invert, Option.map_some]
    refine ⟨_, rfl, ⟨hs.left, hs.right, hs.top, hs.bottom, hs.pointer⟩, id, ?_⟩
    have hnot : a = !s.cursorOn := by
      cases a <;> cases hon : s.cursorOn <;> first | rfl | exact absurd hon hsame
    rw [hnot]
    cases hon : s.cursorOn with
    | false =>
        simp only [plain, toggled, hon, Bool.not_false, if_true, turned_turned,
          Bool.false_eq_true, if_false]
    | true =>
        simp only [plain, toggled, hon, Bool.not_true, if_true, Bool.false_eq_true, if_false]

/-! ## Runs -/

/-- Clearing the screen, and what is done for a popup, is for a screen without a cursor. -/
def Op.Allowed (s : Matrix) : Op → Prop
  | .clear | .backup | .restore => s.cursorOn = false
  | _ => True

/-- Every operation of a run is allowed where it comes. -/
def Allowed (z : Size) : List Op → Matrix → Prop
  | [], _ => True
  | op :: ops, s => op.Allowed s ∧ ∀ s', op.run z s = some s' → Allowed z ops s'

def Op.isCursorVisible : Op → Bool
  | .cursorVisible _ => true
  | _ => false

/-- The cursor is not shown and not hidden. -/
def withoutCursorVisible (ops : List Op) : List Op := ops.filter fun op => !op.isCursorVisible

theorem moveCursor_hidden (x y : Int) (s : Matrix) (hoff : s.cursorOn = false) :
    ∃ s', moveCursor z x y s = some s' ∧ Inside z s' ∧ (Painted s → Painted s') ∧
      s'.cursorOn = false := by
  obtain ⟨hx0, hx⟩ := clamp_bounds z.x_pos x
  obtain ⟨hy0, hy⟩ := clamp_bounds z.y_pos y
  rw [moveCursor, under, toggle_off s hoff, Option.bind_some, Option.bind_some]
  exact ⟨_, if_neg (by rw [hoff]; exact Bool.noConfusion), ⟨hx0, hx, hy0, hy, rfl⟩, id, hoff⟩

theorem restore_hidden (hs : Inside z s) (hoff : s.cursorOn = false) :
    ∃ s', restore z s = some s' ∧ Inside z s' ∧ (Painted s → Painted s') ∧
      s'.cursorOn = false := by
  rw [restore]
  split
  · exact ⟨s, rfl, hs, id, hoff⟩
  · next b _ =>
    obtain ⟨s', h', hin, hpaint, hoff'⟩ := moveCursor_hidden (z := z) b.x b.y { s with
      chars := copied z b.chars s.chars, colors := copied z b.color s.colors,
      codes := copied z b.color s.codes } hoff
    rw [h', Option.map_some]
    refine ⟨_, rfl, ⟨hin.left, hin.right, hin.top, hin.bottom, hin.pointer⟩, fun hp => ?_, hoff'⟩
    refine hpaint ?_
    rw [Painted] at hp ⊢
    dsimp only
    rw [hp]

/-- Without a cursor there is nothing to take away. -/
theorem plain_of_hidden {f : Matrix → Option Matrix} {s' : Matrix} (hrun : f s = some s')
    (hoff : s.cursorOn = false) (hoff' : s'.cursorOn = false) :
    f (plain s) = some (plain s') := by
  rw [plain_off s hoff, plain_off s' hoff', hrun]

/-- One operation. -/
theorem step_overlay {s : Matrix} (hs : Inside z s) (op : Op) (hal : op.Allowed s) :
    ∃ s', op.run z s = some s' ∧ Inside z s' ∧ (Painted s → Painted s') ∧
      if op.isCursorVisible = true then plain s' = plain s
      else op.run z (plain s) = some (plain s') := by
  cases op with
  | output c =>
      obtain ⟨n, s', h', hin, hpaint, hplain⟩ := overlays_output c hs
      refine ⟨s', ?_, hin, hpaint, ?_⟩
      · rw [Op.run, h', Option.map_some]
      · show (output z c (plain s)).map Prod.snd = _
        rw [hplain, Option.map_some]
  | repeatChar a len => exact overlays_repeatChar a len s hs
  | outputFixedLength string width => exact overlays_outputFixedLength string width s hs
  | moveCursor x y => exact overlays_moveCursor x y s hs
  | cursorVisible a => exact cursorVisible_plain a hs
  | setColor c => exact ⟨_, rfl, ⟨hs.left, hs.right, hs.top, hs.bottom, hs.pointer⟩, id, rfl⟩
  | setBackground c => exact ⟨_, rfl, ⟨hs.left, hs.right, hs.top, hs.bottom, hs.pointer⟩, id, rfl⟩
  | reverseMode r => exact ⟨_, rfl, ⟨hs.left, hs.right, hs.top, hs.bottom, hs.pointer⟩, id, rfl⟩
  | scrollMode b => exact ⟨_, rfl, ⟨hs.left, hs.right, hs.top, hs.bottom, hs.pointer⟩, id, rfl⟩
  | clear =>
      obtain ⟨s', h', hin, hpaint, hoff'⟩ := moveCursor_hidden (z := z) 0 0 { s with
        reverse := false, color := 15, chars := copied z (fun _ => 32) s.chars,
        colors := copied z (fun _ => 15) s.colors, codes := copied z (fun _ => 15) s.codes } hal
      refine ⟨s', h', hin, fun hp => hpaint ?_, plain_of_hidden (f := clear z) h' hal hoff'⟩
      rw [Painted] at hp ⊢
      dsimp only
      rw [hp]
  | restore =>
      obtain ⟨s', h', hin, hpaint, hoff'⟩ := restore_hidden hs hal
      exact ⟨s', h', hin, hpaint, plain_of_hidden (f := restore z) h' hal hoff'⟩
  | backup =>
      obtain ⟨s', h', hin, hpaint, hoff'⟩ := restore_hidden hs hal
      have hrun : backup z s =
          some { s' with saved := some ⟨s'.chars, s'.codes, s'.cursorX, s'.cursorY⟩ } := by
        rw [backup, h', Option.map_some]
      exact ⟨_, hrun, ⟨hin.left, hin.right, hin.top, hin.bottom, hin.pointer⟩, hpaint,
        plain_of_hidden (f := backup z) hrun hal hoff'⟩

/-- No run leaves the matrix, the colour codes stay those of the colour memory, and what is
    drawn is what is drawn when the cursor is never shown. -/
theorem cursor_is_overlay (ops : List Op) : ∀ s : Matrix, Inside z s → Allowed z ops s →
    ∃ s', runAll z ops s = some s' ∧ Inside z s' ∧ (Painted s → Painted s') ∧
      runAll z (withoutCursorVisible ops) (plain s) = some (plain s') := by
  induction ops with
  | nil =>
      intro s hs _
      exact ⟨s, rfl, hs, id, rfl⟩
  | cons op ops ih =>
      intro s hs hal
      obtain ⟨s₁, h₁, hin₁, hp₁, hplain₁⟩ := step_overlay hs op hal.1
      obtain ⟨s₂, h₂, hin₂, hp₂, hplain₂⟩ := ih s₁ hin₁ (hal.2 s₁ h₁)
      refine ⟨s₂, ?_, hin₂, hp₂ ∘ hp₁, ?_⟩
      · rw [runAll, h₁, Option.bind_some, h₂]
      · cases hvis : op.isCursorVisible with
        | true =>
            rw [hvis, if_pos rfl] at hplain₁
            rw [withoutCursorVisible, List.filter_cons_of_neg (by rw [hvis]; exact Bool.noConfusion),
              ← hplain₁]
            exact hplain₂
        | false =>
            rw [hvis, if_neg Bool.noConfusion] at hplain₁
            rw [withoutCursorVisible, List.filter_cons_of_pos (by rw [hvis]; rfl), runAll, hplain₁,
              Option.bind_some]
            exact hplain₂

/-- Two rows of three cells, with nothing on them. -/
def small : Size := ⟨3, 2, by decide, by decide⟩

def empty : Matrix :=
  ⟨false, fun _ => 32, fun _ => 15, fun _ => 15, 0, 0, 0, 15, 0, false, false, true, none⟩

theorem cursor_is_overlay_small :
    ∃ s', runAll small [.backup, .cursorVisible true, .output 65, .output 10, .moveCursor 7 (-1),
        .repeatChar 66 4] empty = some s' ∧ Inside small s' ∧ (Painted empty → Painted s') ∧
      runAll small (withoutCursorVisible [.backup, .cursorVisible true, .output 65, .output 10,
        .moveCursor 7 (-1), .repeatChar 66 4]) (plain empty) = some (plain s') :=
  cursor_is_overlay _ empty ⟨by decide, by decide, by decide, by decide, by decide⟩
    ⟨rfl, fun _ _ => ⟨trivial, fun _ _ => ⟨trivial, fun _ _ => ⟨trivial, fun _ _ => ⟨trivial,
      fun _ _ => ⟨trivial, fun _ _ => trivial⟩⟩⟩⟩⟩⟩

/-- A screen that is cleared with the cursor on keeps a turned blank where the cursor was. -/
example : ((runAll small [.cursorVisible true, .output 65, .clear] empty).map fun s =>
    s.chars 1) = some 0xA0 := by decide +kernel

end Screen
