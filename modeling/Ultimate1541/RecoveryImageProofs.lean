import Mathlib

/-! # The reader of an update image

    `recovery_image.c` reads an update image as it streams in, and hands each part of it to
    a callback with the address that it is to be loaded at.  An image is a sequence of
    records, each with a head of 12 bytes (where to load, how many bytes, where to start),
    its data, and padding to a multiple of four; a head of 36 bytes with a fingerprint can
    come first.

    The reader keeps no more than a head.  It takes a piece of the stream in turns, each of
    which goes on with what the reader is in: how far it gets in one turn depends on how the
    stream is cut, what it has done after all of it does not (`feed_eq`). -/

namespace RecoveryImage

inductive Result
  | ok | errFamily | errRange | errWrite | errTruncated | errNoRecords | errNoStart | errFailed
  deriving DecidableEq

inductive State
  | detect | preheader | header | data | pad | failed
  deriving DecidableEq

/-- What a head of 36 bytes starts with. -/
def fingerprint : UInt32 := 0x4115ADDE

/-- `recovery_image_t`, with what the callback works on; `collected` is its `have`. -/
structure Image (κ : Type) where
  loadMin : UInt32
  loadMax : UInt32
  family : Option (List UInt8)
  ctx : κ
  state : State
  header : List UInt8
  collected : Nat
  addr : UInt32
  remaining : UInt32
  pad : UInt32
  start : UInt32
  records : UInt32
  loaded : UInt32
  error : Result
  deriving DecidableEq

/-- `recovery_image_init`. -/
def init {κ : Type} (loadMin loadMax : UInt32) (family : Option (List UInt8)) (ctx : κ) : Image κ where
  loadMin := loadMin
  loadMax := loadMax
  family := family
  ctx := ctx
  state := .detect
  header := List.replicate 36 0
  collected := 0
  addr := 0
  remaining := 0
  pad := 0
  start := 0
  records := 0
  loaded := 0
  error := .ok

/-- `le32`. -/
def le32 (p : List UInt8) : UInt32 :=
  (p.getD 0 0).toUInt32 ||| (p.getD 1 0).toUInt32 <<< 8 ||| (p.getD 2 0).toUInt32 <<< 16 |||
    (p.getD 3 0).toUInt32 <<< 24

/-- `strncmp` of two texts of at most `n` characters, whether they are equal. -/
def sameText : Nat → List UInt8 → List UInt8 → Bool
  | 0, _, _ => true
  | n + 1, s, t =>
      if s.headD 0 ≠ t.headD 0 then false
      else if s.headD 0 = 0 then true
      else sameText n s.tail t.tail

/-- The family of an image, which is for a product: an empty one fits every product. -/
def fits (family : Option (List UInt8)) (name : List UInt8) : Bool :=
  match family with
  | none => true
  | some family => name.headD 0 = 0 || sameText 16 name family

/-- `in_window`, of a window. -/
def inWindow (loadMin loadMax addr length : UInt32) : Bool :=
  decide (loadMin ≤ addr) && decide (addr < loadMax) && decide (length ≤ loadMax - addr)

namespace Image

variable {κ : Type}

def fail (im : Image κ) (error : Result) : Image κ := { im with state := .failed, error := error }

/-- `collect`: bytes of a head, up to `need`; whether they are all there, and what is left
    of the piece. -/
def collect (im : Image κ) (need : Nat) (data : List UInt8) : Bool × Image κ × List UInt8 :=
  let n := min (need - im.collected) data.length
  (im.collected + n = need,
    { im with
      header := im.header.take im.collected ++ data.take n ++ im.header.drop (im.collected + n)
      collected := im.collected + n },
    data.drop n)

/-- `start_record`. -/
def startRecord (im : Image κ) : Result × Image κ :=
  let load := le32 im.header
  let length := le32 (im.header.drop 4)
  let start := le32 (im.header.drop 8)
  let im := { im with collected := 0 }
  if length ≠ 0 ∧ inWindow im.loadMin im.loadMax load length = false then
    (.errRange, im.fail .errRange)
  else
    (.ok, { im with
      start := if start ≠ 0 then start else im.start
      records := im.records + 1
      addr := load
      remaining := length
      pad := (4 - (length &&& 3)) &&& 3
      state := if length ≠ 0 then .data else .header })

/-- A turn: the answer, if the loop ends with one, and what is left of the piece. -/
abbrev Turn (κ : Type) := Option Result × Image κ × List UInt8

/-- The first four bytes: is there a head with a fingerprint? -/
def detectTurn (c : Bool × Image κ × List UInt8) : Turn κ :=
  if c.1 then
    (none, { c.2.1 with
      state := if le32 c.2.1.header = fingerprint then .preheader else .header }, c.2.2)
  else (none, c.2.1, c.2.2)

/-- The head with the fingerprint. -/
def preheaderTurn (c : Bool × Image κ × List UInt8) : Turn κ :=
  if c.1 then
    if fits c.2.1.family ((c.2.1.header.drop 4).take 16) then
      (none, { c.2.1 with collected := 0, state := .header }, c.2.2)
    else (some .errFamily, c.2.1.fail .errFamily, c.2.2)
  else (none, c.2.1, c.2.2)

/-- The head of a record. -/
def headerTurn (c : Bool × Image κ × List UInt8) : Turn κ :=
  if c.1 then
    let r := c.2.1.startRecord
    (if r.1 = .ok then none else some r.2.error, r.2, c.2.2)
  else (none, c.2.1, c.2.2)

/-- The data of a record. -/
def dataTurn (write : κ → UInt32 → List UInt8 → Bool × κ) (im : Image κ) (data : List UInt8) :
    Turn κ :=
  let n := min data.length im.remaining.toNat
  let w := write im.ctx im.addr (data.take n)
  if w.1 then
    let remaining := im.remaining - UInt32.ofNat n
    (none, { im with
      ctx := w.2
      addr := im.addr + UInt32.ofNat n
      remaining := remaining
      loaded := im.loaded + UInt32.ofNat n
      state :=
        if remaining = 0 then if im.pad ≠ 0 then .pad else .header else .data }, data.drop n)
  else (some .errWrite, { im with ctx := w.2 }.fail .errWrite, data)

/-- The padding of a record. -/
def padTurn (im : Image κ) (data : List UInt8) : Turn κ :=
  let n := min data.length im.pad.toNat
  let pad := im.pad - UInt32.ofNat n
  (none, { im with pad := pad, state := if pad = 0 then .header else .pad }, data.drop n)

/-- One turn of the loop of `recovery_image_feed`. -/
def turn (write : κ → UInt32 → List UInt8 → Bool × κ) (im : Image κ) (data : List UInt8) : Turn κ :=
  match im.state with
  | .detect => detectTurn (im.collect 4 data)
  | .preheader => preheaderTurn (im.collect 36 data)
  | .header => headerTurn (im.collect 12 data)
  | .data => dataTurn write im data
  | .pad => padTurn im data
  | .failed => (some .errFailed, im, data)

/-- The loop of `recovery_image_feed`, `n` turns at most; `none` when there are more. -/
def feedLoop (write : κ → UInt32 → List UInt8 → Bool × κ) :
    Nat → Image κ → List UInt8 → Option (Result × Image κ)
  | _, im, [] => some (if im.state = .failed then .errFailed else .ok, im)
  | 0, _, _ :: _ => none
  | n + 1, im, b :: bs =>
      match turn write im (b :: bs) with
      | (some r, im, _) => some (r, im)
      | (none, im, rest) => feedLoop write n im rest

/-- `recovery_image_feed`: a turn takes one byte at least. -/
def feed (write : κ → UInt32 → List UInt8 → Bool × κ) (im : Image κ) (data : List UInt8) :
    Option (Result × Image κ) :=
  feedLoop write data.length im data

/-- A number of pieces, whatever is answered. -/
def feedAll (write : κ → UInt32 → List UInt8 → Bool × κ) (im : Image κ) :
    List (List UInt8) → Option (Image κ)
  | [] => some im
  | piece :: pieces =>
      match feed write im piece with
      | none => none
      | some (_, im) => feedAll write im pieces

/-- `recovery_image_finish`: the answer, and where the image is started. -/
def finish (im : Image κ) : Result × Option UInt32 :=
  if im.state = .failed then (.errFailed, none)
  else if im.state = .detect ∧ im.collected = 0 then (.errNoRecords, none)
  else if im.state ≠ .header ∨ im.collected ≠ 0 then (.errTruncated, none)
  else if im.records = 0 then (.errNoRecords, none)
  else if im.start = 0 then (.errNoStart, none)
  else if inWindow im.loadMin im.loadMax im.start 0 = false then (.errRange, none)
  else (.ok, some im.start)

/-! ## Turn by turn, and byte by byte -/

/-- What the reader does with one byte. -/
def step (write : κ → UInt32 → List UInt8 → Bool × κ) (im : Image κ) (b : UInt8) : Image κ :=
  (turn write im [b]).2.1

/-- What a callback has to be for the cut not to matter: it takes everything, and a piece
    like its first byte and the rest. -/
structure Steady (write : κ → UInt32 → List UInt8 → Bool × κ) : Prop where
  takes : ∀ k addr data, (write k addr data).1 = true
  cons : ∀ k addr b data, data ≠ [] →
    (write k addr (b :: data)).2 = (write (write k addr [b]).2 (addr + 1) data).2

/-- What is so between the turns. -/
structure Valid (im : Image κ) : Prop where
  header : im.header.length = 36
  detect : im.state = .detect → im.collected < 4
  preheader : im.state = .preheader → im.collected < 36
  collecting : im.state = .header → im.collected < 12
  data : im.state = .data → im.remaining ≠ 0 ∧ im.collected = 0
  pad : im.state = .pad → im.pad ≠ 0 ∧ im.collected = 0

variable {write : κ → UInt32 → List UInt8 → Bool × κ} {im : Image κ}

theorem valid_init (loadMin loadMax : UInt32) (family : Option (List UInt8)) (ctx : κ) :
    (init loadMin loadMax family ctx).Valid :=
  ⟨rfl, fun _ => Nat.zero_lt_succ 3, nofun, nofun, nofun, nofun⟩

/-- Bytes of a head one by one. -/
theorem collect_cons (hlen : im.header.length = 36) {need : Nat} (hneed : need ≤ 36)
    (hmore : im.collected + 1 < need) (b : UInt8) (bs : List UInt8) :
    im.collect need (b :: bs) = (im.collect need [b]).2.1.collect need bs := by
  have hone : min (need - im.collected) [b].length = 1 := by
    rw [List.length_singleton]
    omega
  have hall : min (need - im.collected) (b :: bs).length
      = min (need - (im.collected + 1)) bs.length + 1 := by
    rw [List.length_cons]
    omega
  rw [collect, collect, collect, hone, hall]
  dsimp only
  generalize hn : min (need - (im.collected + 1)) bs.length = n
  have hfit : im.collected + 1 ≤ (im.header.take im.collected ++ [b]).length := by
    rw [List.length_append, List.length_take, hlen, List.length_singleton]
    omega
  have hexact : (im.header.take im.collected ++ [b]).length = im.collected + 1 := by
    rw [List.length_append, List.length_take, hlen, List.length_singleton]
    omega
  have htake : (im.header.take im.collected ++ [b] ++ im.header.drop (im.collected + 1)).take
      (im.collected + 1) = im.header.take im.collected ++ [b] := by
    rw [← hexact, List.take_left]
  have hdrop : (im.header.take im.collected ++ [b] ++ im.header.drop (im.collected + 1)).drop
      (im.collected + 1 + n) = im.header.drop (im.collected + (n + 1)) := by
    rw [← List.drop_drop, ← hexact, List.drop_left, hexact, List.drop_drop]
    congr 1
    omega
  rw [List.take_succ_cons (i := 0), List.take_zero, List.take_succ_cons, List.drop_succ_cons, htake,
    hdrop]
  have hsum : im.collected + (n + 1) = im.collected + 1 + n := by omega
  have hbytes : im.header.take im.collected ++ b :: bs.take n
      = im.header.take im.collected ++ [b] ++ bs.take n := by
    rw [List.append_assoc]
    rfl
  rw [hsum, hbytes]

theorem collect_one {need : Nat} (hone : im.collected + 1 = need) (b : UInt8) (bs : List UInt8) :
    im.collect need (b :: bs) = ((im.collect need [b]).1, (im.collect need [b]).2.1, bs) := by
  have hall : min (need - im.collected) (b :: bs).length = 1 := by
    rw [List.length_cons]
    omega
  have hsingle : min (need - im.collected) [b].length = 1 := by
    rw [List.length_singleton]
    omega
  rw [collect, collect, hall, hsingle]
  rfl

theorem collect_not_done {need : Nat} (hmore : im.collected + 1 < need) (b : UInt8) :
    (im.collect need [b]).1 = false := by
  have hsingle : min (need - im.collected) [b].length = 1 := by
    rw [List.length_singleton]
    omega
  rw [collect, hsingle]
  exact decide_eq_false (Nat.ne_of_lt hmore)

theorem collect_state (need : Nat) (data : List UInt8) : (im.collect need data).2.1.state = im.state :=
  rfl

theorem turn_detect (hs : im.state = .detect) (data : List UInt8) :
    turn write im data = detectTurn (im.collect 4 data) := by
  rw [turn, hs]

theorem turn_preheader (hs : im.state = .preheader) (data : List UInt8) :
    turn write im data = preheaderTurn (im.collect 36 data) := by
  rw [turn, hs]

theorem turn_header (hs : im.state = .header) (data : List UInt8) :
    turn write im data = headerTurn (im.collect 12 data) := by
  rw [turn, hs]

theorem turn_data (hs : im.state = .data) (data : List UInt8) :
    turn write im data = dataTurn write im data := by
  rw [turn, hs]

theorem turn_pad (hs : im.state = .pad) (data : List UInt8) :
    turn write im data = padTurn im data := by
  rw [turn, hs]

theorem turn_failed (hs : im.state = .failed) (data : List UInt8) :
    turn write im data = (some .errFailed, im, data) := by
  rw [turn, hs]

/-- The turn is over after the first byte, or the next turn goes on where it was. -/
def Resumes (write : κ → UInt32 → List UInt8 → Bool × κ) (im : Image κ) (b : UInt8)
    (bs : List UInt8) : Prop :=
  turn write im (b :: bs) = ((turn write im [b]).1, im.step write b, bs) ∨
    (turn write im [b]).1 = none ∧ turn write im (b :: bs) = turn write (im.step write b) bs

/-- A head is collected, up to `need` bytes, and then something is done with it. -/
theorem resumes_collect {need : Nat} {next : Bool × Image κ × List UInt8 → Turn κ}
    (hturn : ∀ {im' : Image κ}, im'.state = im.state → ∀ data,
      turn write im' data = next (im'.collect need data))
    (hmore : ∀ c : Bool × Image κ × List UInt8, c.1 = false → next c = (none, c.2.1, c.2.2))
    (hdone : ∀ (c : Bool × Image κ × List UInt8) (rest : List UInt8),
      next (c.1, c.2.1, rest) = ((next c).1, (next c).2.1, rest))
    (hlen : im.header.length = 36) (hneed : need ≤ 36) (hlt : im.collected < need)
    (b : UInt8) (bs : List UInt8) : Resumes write im b bs := by
  rw [Resumes, step, hturn rfl, hturn rfl]
  by_cases hone : im.collected + 1 = need
  · left
    rw [collect_one hone b bs, hdone]
  · right
    have hbefore : im.collected + 1 < need := by omega
    rw [hmore _ (collect_not_done hbefore b)]
    refine ⟨rfl, ?_⟩
    rw [hturn (collect_state need [b]), collect_cons hlen hneed hbefore b bs]

theorem ofNat_succ (n : Nat) : UInt32.ofNat (n + 1) = 1 + UInt32.ofNat n := by
  rw [UInt32.ofNat_add, UInt32.add_comm]
  rfl

theorem sub_ofNat_succ (r : UInt32) (n : Nat) :
    r - UInt32.ofNat (n + 1) = r - 1 - UInt32.ofNat n := by
  rw [ofNat_succ]
  grind

theorem sub_one_toNat {r : UInt32} (h : r ≠ 0) : (r - 1).toNat = r.toNat - 1 := by
  have hpos : 0 < r.toNat := Nat.pos_of_ne_zero fun hz => h (UInt32.toNat_inj.mp hz)
  exact UInt32.toNat_sub_of_le _ _ (UInt32.le_iff_toNat_le.mpr hpos)

/-- `dataTurn`, when the callback takes everything. -/
theorem dataTurn_eq (hw : Steady write) (im : Image κ) (data : List UInt8) {n : Nat}
    (hn : min data.length im.remaining.toNat = n) :
    dataTurn write im data = (none, { im with
      ctx := (write im.ctx im.addr (data.take n)).2
      addr := im.addr + UInt32.ofNat n
      remaining := im.remaining - UInt32.ofNat n
      loaded := im.loaded + UInt32.ofNat n
      state :=
        if im.remaining - UInt32.ofNat n = 0 then if im.pad ≠ 0 then .pad else .header
        else .data }, data.drop n) := by
  rw [dataTurn, hn]
  exact if_pos (hw.takes _ _ _)

theorem resumes_data (hw : Steady write) (h : im.state = .data) (hne : im.remaining ≠ 0) (b : UInt8)
    {bs : List UInt8} (hbs : bs ≠ []) : Resumes write im b bs := by
  have hpos : 0 < im.remaining.toNat := Nat.pos_of_ne_zero fun hz => hne (UInt32.toNat_inj.mp hz)
  have hlen : 0 < bs.length := List.length_pos_iff.mpr hbs
  have hone : min [b].length im.remaining.toNat = 1 := by
    rw [List.length_singleton]
    omega
  rw [Resumes, step, turn_data h, turn_data h, dataTurn_eq hw im [b] hone]
  by_cases hlast : im.remaining.toNat = 1
  · -- It is the last byte of the record.
    left
    have hall : min (b :: bs).length im.remaining.toNat = 1 := by
      rw [List.length_cons]
      omega
    rw [dataTurn_eq hw im (b :: bs) hall]
    rfl
  · right
    have hsub := sub_one_toNat hne
    have hmore : im.remaining - UInt32.ofNat 1 ≠ 0 := fun hz => by
      rw [show im.remaining - 1 = 0 from hz] at hsub
      exact absurd hsub (by show ¬ 0 = _; omega)
    have hall : min (b :: bs).length im.remaining.toNat
        = min bs.length (im.remaining - 1).toNat + 1 := by
      rw [List.length_cons, hsub]
      omega
    generalize hn : min bs.length (im.remaining - 1).toNat = n at hall
    have htake : bs.take n ≠ [] := by
      rw [← List.length_pos_iff, List.length_take]
      omega
    rw [if_neg hmore, dataTurn_eq hw im (b :: bs) hall]
    refine ⟨rfl, ?_⟩
    rw [turn_data rfl, dataTurn_eq hw _ bs hn]
    dsimp only
    rw [List.take_succ_cons, List.drop_succ_cons, hw.cons _ _ _ _ htake, sub_ofNat_succ,
      ofNat_succ, ← UInt32.add_assoc, ← UInt32.add_assoc]
    rfl

theorem resumes_pad (h : im.state = .pad) (hne : im.pad ≠ 0) (b : UInt8) (bs : List UInt8) :
    Resumes write im b bs := by
  have hpos : 0 < im.pad.toNat := Nat.pos_of_ne_zero fun hz => hne (UInt32.toNat_inj.mp hz)
  have hone : min [b].length im.pad.toNat = 1 := by
    rw [List.length_singleton]
    omega
  rw [Resumes, step, turn_pad h, turn_pad h, padTurn, padTurn, hone]
  by_cases hlast : im.pad.toNat = 1
  · left
    have hall : min (b :: bs).length im.pad.toNat = 1 := by
      rw [List.length_cons]
      omega
    rw [hall]
    rfl
  · right
    have hsub := sub_one_toNat hne
    have hmore : im.pad - UInt32.ofNat 1 ≠ 0 := fun hz => by
      rw [show im.pad - 1 = 0 from hz] at hsub
      exact absurd hsub (by show ¬ 0 = _; omega)
    have hall : min (b :: bs).length im.pad.toNat = min bs.length (im.pad - 1).toNat + 1 := by
      rw [List.length_cons, hsub]
      omega
    rw [hall]
    dsimp only
    rw [if_neg hmore]
    refine ⟨rfl, ?_⟩
    rw [turn_pad rfl, padTurn]
    dsimp only
    rw [List.drop_succ_cons, sub_ofNat_succ]
    rfl

/-- In every state a turn can stop after a byte, and the next one resumes there. -/
theorem resumes (hw : Steady write) (hv : im.Valid) (hs : im.state ≠ .failed) (b : UInt8)
    {bs : List UInt8} (hbs : bs ≠ []) : Resumes write im b bs := by
  cases h : im.state with
  | detect =>
      refine resumes_collect (fun h' data => turn_detect (h'.trans h) data) (fun c hc => ?_)
        (fun c rest => ?_) hv.header (by decide) (hv.detect h) b bs
      · rw [detectTurn, hc, if_neg Bool.false_ne_true]
      · rw [detectTurn, detectTurn]
        dsimp only
        split <;> rfl
  | preheader =>
      refine resumes_collect (fun h' data => turn_preheader (h'.trans h) data) (fun c hc => ?_)
        (fun c rest => ?_) hv.header (by decide) (hv.preheader h) b bs
      · rw [preheaderTurn, hc, if_neg Bool.false_ne_true]
      · rw [preheaderTurn, preheaderTurn]
        dsimp only
        split
        · split <;> rfl
        · rfl
  | header =>
      refine resumes_collect (fun h' data => turn_header (h'.trans h) data) (fun c hc => ?_)
        (fun c rest => ?_) hv.header (by decide) (hv.collecting h) b bs
      · rw [headerTurn, hc, if_neg Bool.false_ne_true]
      · rw [headerTurn, headerTurn]
        dsimp only
        split <;> rfl
  | data => exact resumes_data hw h (hv.data h).1 b hbs
  | pad => exact resumes_pad h (hv.pad h).1 b bs
  | failed => exact absurd h hs

theorem length_collect (hlen : im.header.length = 36) {need : Nat} (hneed : need ≤ 36)
    (hlt : im.collected < need) (data : List UInt8) :
    (im.collect need data).2.1.header.length = 36 := by
  rw [collect]
  simp only [List.length_append, List.length_take, List.length_drop, hlen]
  omega

theorem collected_collect {need : Nat} (hlt : im.collected < need) (b : UInt8) :
    (im.collect need [b]).2.1.collected = im.collected + 1 := by
  rw [collect]
  show im.collected + min (need - im.collected) [b].length = _
  rw [List.length_singleton]
  omega

theorem done_collect {need : Nat} (hlt : im.collected < need) (b : UInt8) :
    (im.collect need [b]).1 = decide (im.collected + 1 = need) := by
  have hone : min (need - im.collected) [b].length = 1 := by
    rw [List.length_singleton]
    omega
  rw [collect, hone]

theorem rest_collect {need : Nat} (hlt : im.collected < need) (b : UInt8) :
    (im.collect need [b]).2.2 = [] := by
  rw [collect]
  exact List.drop_of_length_le (by rw [List.length_singleton]; omega)

/-- A head that is done, or one more byte of it. -/
theorem step_detect (hv : im.Valid) (hs : im.state = .detect) (b : UInt8) :
    im.step write b =
      if im.collected + 1 = 4 then { (im.collect 4 [b]).2.1 with
        state := if le32 (im.collect 4 [b]).2.1.header = fingerprint then .preheader else .header }
      else (im.collect 4 [b]).2.1 := by
  rw [step, turn_detect hs, detectTurn, done_collect (hv.detect hs)]
  by_cases h : im.collected + 1 = 4
  · rw [if_pos (decide_eq_true h), if_pos h]
  · rw [if_neg (by rw [decide_eq_false h]; decide), if_neg h]

theorem step_preheader (hv : im.Valid) (hs : im.state = .preheader) (b : UInt8) :
    im.step write b =
      if im.collected + 1 = 36 then
        if fits im.family (((im.collect 36 [b]).2.1.header.drop 4).take 16) then
          { (im.collect 36 [b]).2.1 with collected := 0, state := .header }
        else (im.collect 36 [b]).2.1.fail .errFamily
      else (im.collect 36 [b]).2.1 := by
  rw [step, turn_preheader hs, preheaderTurn, done_collect (hv.preheader hs)]
  by_cases h : im.collected + 1 = 36
  · rw [if_pos (decide_eq_true h), if_pos h]
    split
    · rw [if_pos (by assumption)]
    · rw [if_neg (by assumption)]
  · rw [if_neg (by rw [decide_eq_false h]; decide), if_neg h]

theorem step_header (hv : im.Valid) (hs : im.state = .header) (b : UInt8) :
    im.step write b =
      if im.collected + 1 = 12 then (im.collect 12 [b]).2.1.startRecord.2
      else (im.collect 12 [b]).2.1 := by
  rw [step, turn_header hs, headerTurn, done_collect (hv.collecting hs)]
  by_cases h : im.collected + 1 = 12
  · rw [if_pos (decide_eq_true h), if_pos h]
  · rw [if_neg (by rw [decide_eq_false h]; decide), if_neg h]

theorem step_data (hw : Steady write) (hv : im.Valid) (hs : im.state = .data) (b : UInt8) :
    im.step write b = { im with
      ctx := (write im.ctx im.addr [b]).2
      addr := im.addr + 1
      remaining := im.remaining - 1
      loaded := im.loaded + 1
      state := if im.remaining - 1 = 0 then if im.pad ≠ 0 then .pad else .header else .data } := by
  obtain ⟨hne, -⟩ := hv.data hs
  have hpos : 0 < im.remaining.toNat := Nat.pos_of_ne_zero fun hz => hne (UInt32.toNat_inj.mp hz)
  have hone : min [b].length im.remaining.toNat = 1 := by
    rw [List.length_singleton]
    omega
  rw [step, turn_data hs, dataTurn_eq hw im [b] hone]
  rfl

theorem step_pad (hv : im.Valid) (hs : im.state = .pad) (b : UInt8) :
    im.step write b = { im with
      pad := im.pad - 1
      state := if im.pad - 1 = 0 then .header else .pad } := by
  obtain ⟨hne, -⟩ := hv.pad hs
  have hpos : 0 < im.pad.toNat := Nat.pos_of_ne_zero fun hz => hne (UInt32.toNat_inj.mp hz)
  have hone : min [b].length im.pad.toNat = 1 := by
    rw [List.length_singleton]
    omega
  rw [step, turn_pad hs, padTurn, hone]
  rfl

theorem step_failed (hs : im.state = .failed) (b : UInt8) : im.step write b = im := by
  rw [step, turn_failed hs]

/-- What a record starts with: its data, its successor, or the end of the load. -/
theorem valid_startRecord (hlen : im.header.length = 36) : im.startRecord.2.Valid := by
  rw [startRecord]
  dsimp only
  split
  · exact ⟨hlen, nofun, nofun, nofun, nofun, nofun⟩
  · by_cases h : le32 (im.header.drop 4) ≠ 0
    · rw [if_pos h]
      exact ⟨hlen, nofun, nofun, nofun, fun _ => ⟨h, rfl⟩, nofun⟩
    · rw [if_neg h]
      exact ⟨hlen, nofun, nofun, fun _ => Nat.zero_lt_succ 11, nofun, nofun⟩

theorem Valid.step (hw : Steady write) (hv : im.Valid) (b : UInt8) : (im.step write b).Valid := by
  cases h : im.state with
  | detect =>
      have hlt := hv.detect h
      have hlen := length_collect hv.header (by decide : 4 ≤ 36) hlt [b]
      have hcount := collected_collect hlt b
      have hstate : (im.collect 4 [b]).2.1.state = .detect := h
      rw [step_detect hv h b]
      split
      · split
        · exact ⟨hlen, nofun, fun _ => by show (im.collect 4 [b]).2.1.collected < 36; omega,
            nofun, nofun, nofun⟩
        · exact ⟨hlen, nofun, nofun,
            fun _ => by show (im.collect 4 [b]).2.1.collected < 12; omega, nofun, nofun⟩
      · refine ⟨hlen, fun _ => by omega, ?_, ?_, ?_, ?_⟩ <;> rw [hstate] <;> exact nofun
  | preheader =>
      have hlt := hv.preheader h
      have hlen := length_collect hv.header (by decide : 36 ≤ 36) hlt [b]
      have hcount := collected_collect hlt b
      have hstate : (im.collect 36 [b]).2.1.state = .preheader := h
      rw [step_preheader hv h b]
      split
      · split
        · exact ⟨hlen, nofun, nofun, fun _ => Nat.zero_lt_succ 11, nofun, nofun⟩
        · exact ⟨hlen, nofun, nofun, nofun, nofun, nofun⟩
      · refine ⟨hlen, ?_, fun _ => by omega, ?_, ?_, ?_⟩ <;> rw [hstate] <;> exact nofun
  | header =>
      have hlt := hv.collecting h
      have hlen := length_collect hv.header (by decide : 12 ≤ 36) hlt [b]
      have hcount := collected_collect hlt b
      have hstate : (im.collect 12 [b]).2.1.state = .header := h
      rw [step_header hv h b]
      split
      · exact valid_startRecord hlen
      · refine ⟨hlen, ?_, ?_, fun _ => by omega, ?_, ?_⟩ <;> rw [hstate] <;> exact nofun
  | data =>
      obtain ⟨-, hnone⟩ := hv.data h
      rw [step_data hw hv h b]
      split
      · split
        next hpad => exact ⟨hv.header, nofun, nofun, nofun, nofun, fun _ => ⟨hpad, hnone⟩⟩
        next =>
          exact ⟨hv.header, nofun, nofun, fun _ => by show im.collected < 12; omega, nofun, nofun⟩
      next hmore => exact ⟨hv.header, nofun, nofun, nofun, fun _ => ⟨hmore, hnone⟩, nofun⟩
  | pad =>
      obtain ⟨-, hnone⟩ := hv.pad h
      rw [step_pad hv h b]
      split
      · exact ⟨hv.header, nofun, nofun, fun _ => by show im.collected < 12; omega, nofun, nofun⟩
      next hmore => exact ⟨hv.header, nofun, nofun, nofun, nofun, fun _ => ⟨hmore, hnone⟩⟩
  | failed =>
      rw [step_failed h b]
      exact hv

/-- A turn ends the loop when it fails, and there is nothing left of one byte. -/
theorem turn_one (hw : Steady write) (hv : im.Valid) (hs : im.state ≠ .failed) (b : UInt8) :
    turn write im [b] =
      (if (im.step write b).state = .failed then some (im.step write b).error else none,
        im.step write b, []) := by
  cases h : im.state with
  | detect =>
      have hlt := hv.detect h
      have hstate : (im.collect 4 [b]).2.1.state = .detect := h
      rw [step_detect hv h b, turn_detect h, detectTurn, done_collect hlt, rest_collect hlt]
      by_cases hone : im.collected + 1 = 4
      · rw [if_pos (decide_eq_true hone), if_pos hone]
        dsimp only
        split <;> rfl
      · rw [if_neg (by rw [decide_eq_false hone]; decide), if_neg hone, hstate]
        rfl
  | preheader =>
      have hlt := hv.preheader h
      have hstate : (im.collect 36 [b]).2.1.state = .preheader := h
      rw [step_preheader hv h b, turn_preheader h, preheaderTurn, done_collect hlt, rest_collect hlt]
      by_cases hone : im.collected + 1 = 36
      · rw [if_pos (decide_eq_true hone), if_pos hone]
        by_cases hfit : fits im.family (((im.collect 36 [b]).2.1.header.drop 4).take 16) = true
        · rw [if_pos hfit]
          exact if_pos hfit
        · rw [if_neg hfit]
          exact if_neg hfit
      · rw [if_neg (by rw [decide_eq_false hone]; decide), if_neg hone, hstate]
        rfl
  | header =>
      have hlt := hv.collecting h
      have hstate : (im.collect 12 [b]).2.1.state = .header := h
      rw [step_header hv h b, turn_header h, headerTurn, done_collect hlt, rest_collect hlt]
      by_cases hone : im.collected + 1 = 12
      · rw [if_pos (decide_eq_true hone), if_pos hone, startRecord]
        dsimp only
        split
        · rfl
        · split <;> rfl
      · rw [if_neg (by rw [decide_eq_false hone]; decide), if_neg hone, hstate]
        rfl
  | data =>
      obtain ⟨hne, -⟩ := hv.data h
      have hpos : 0 < im.remaining.toNat :=
        Nat.pos_of_ne_zero fun hz => hne (UInt32.toNat_inj.mp hz)
      have hone : min [b].length im.remaining.toNat = 1 := by
        rw [List.length_singleton]
        omega
      have hgoes : (im.step write b).state ≠ .failed := by
        rw [step_data hw hv h b]
        dsimp only
        split
        · split <;> exact nofun
        · exact nofun
      rw [if_neg hgoes, step, turn_data h, dataTurn_eq hw im [b] hone]
      rfl
  | pad =>
      obtain ⟨hne, -⟩ := hv.pad h
      have hpos : 0 < im.pad.toNat := Nat.pos_of_ne_zero fun hz => hne (UInt32.toNat_inj.mp hz)
      have hone : min [b].length im.pad.toNat = 1 := by
        rw [List.length_singleton]
        omega
      have hgoes : (im.step write b).state ≠ .failed := by
        rw [step_pad hv h b]
        dsimp only
        split <;> exact nofun
      rw [if_neg hgoes, step, turn_pad h, padTurn, hone]
      rfl
  | failed => exact absurd h hs

/-- The image after some bytes. -/
def after (write : κ → UInt32 → List UInt8 → Bool × κ) (im : Image κ) (data : List UInt8) : Image κ :=
  data.foldl (step write) im

@[simp] theorem after_nil : im.after write [] = im := rfl

@[simp] theorem after_cons (b : UInt8) (bs : List UInt8) :
    im.after write (b :: bs) = (im.step write b).after write bs := rfl

theorem after_append (xs ys : List UInt8) :
    im.after write (xs ++ ys) = (im.after write xs).after write ys :=
  List.foldl_append

theorem after_failed (hs : im.state = .failed) (data : List UInt8) : im.after write data = im := by
  induction data with
  | nil => rfl
  | cons b bs ih => rw [after_cons, step_failed hs, ih]

theorem Valid.after (hw : Steady write) (hv : im.Valid) (data : List UInt8) :
    (im.after write data).Valid := by
  induction data generalizing im with
  | nil => exact hv
  | cons b bs ih => exact ih (hv.step hw b)

/-- What `recovery_image_feed` answers. -/
def answer (im im' : Image κ) : Result :=
  if im.state = .failed then .errFailed else if im'.state = .failed then im'.error else .ok

theorem feedLoop_eq (hw : Steady write) (n : Nat) :
    ∀ {im : Image κ} {data : List UInt8}, im.Valid → data.length ≤ n →
      feedLoop write n im data = some (im.answer (im.after write data), im.after write data) := by
  induction n with
  | zero =>
      intro im data _ hlen
      rw [List.eq_nil_of_length_eq_zero (Nat.le_zero.mp hlen), feedLoop, answer, after_nil]
      by_cases h : im.state = .failed
      · rw [if_pos h, if_pos h]
      · rw [if_neg h, if_neg h, if_neg h]
  | succ n ih =>
      intro im data hv hlen
      -- Byte by byte: the loop may take several at once, but what it does is the same.
      induction data generalizing im with
      | nil =>
          rw [feedLoop, answer, after_nil]
          by_cases h : im.state = .failed
          · rw [if_pos h, if_pos h]
          · rw [if_neg h, if_neg h, if_neg h]
      | cons b bs ihbs =>
          have hshort : bs.length ≤ n := Nat.le_of_succ_le_succ hlen
          by_cases h : im.state = .failed
          · rw [feedLoop, turn_failed h, after_failed h, answer, if_pos h]
          · have hone := turn_one hw hv h b
            have hanswer : ∀ data, im.answer ((im.step write b).after write data) =
                if (im.step write b).state = .failed then (im.step write b).error
                else (im.step write b).answer ((im.step write b).after write data) := by
              intro data
              rw [answer, if_neg h]
              by_cases hf : (im.step write b).state = .failed
              · rw [after_failed hf, if_pos hf, if_pos hf]
              · rw [if_neg hf, answer, if_neg hf]
            have hfirst : ∀ rest, rest.length ≤ n →
                (match ((turn write im [b]).1, im.step write b, rest) with
                  | (some r, im, _) => some (r, im)
                  | (none, im, rest) => feedLoop write n im rest) =
                some (im.answer ((im.step write b).after write rest),
                  (im.step write b).after write rest) := by
              intro rest hrest
              rw [hanswer, hone]
              by_cases hf : (im.step write b).state = .failed
              · rw [if_pos hf, if_pos hf, after_failed hf]
              · rw [if_neg hf, if_neg hf]
                exact ih (hv.step hw b) hrest
            rw [after_cons]
            by_cases hbs : bs = []
            · subst hbs
              rw [feedLoop, hone]
              have hnil := hfirst [] hshort
              rw [hone] at hnil
              exact hnil
            · rcases resumes hw hv h b hbs with hover | ⟨hnone, hresume⟩
              · rw [feedLoop, hover]
                exact hfirst bs hshort
              · obtain ⟨b', bs', rfl⟩ := List.exists_cons_of_ne_nil hbs
                have hgoes : (im.step write b).state ≠ .failed := fun hf => by
                  rw [hone, if_pos hf] at hnone
                  exact nomatch hnone
                rw [hanswer, if_neg hgoes, ← ihbs (hv.step hw b) (Nat.le_succ_of_le hshort),
                  feedLoop, feedLoop, hresume]

/-- A piece is read to its end, and what is done is what its bytes do one by one. -/
theorem feed_eq (hw : Steady write) (hv : im.Valid) (data : List UInt8) :
    feed write im data = some (im.answer (im.after write data), im.after write data) :=
  feedLoop_eq hw data.length hv (Nat.le_refl _)

/-- The cut does not matter. -/
theorem feedAll_eq (hw : Steady write) (hv : im.Valid) (pieces : List (List UInt8)) :
    feedAll write im pieces = some (im.after write pieces.flatten) := by
  induction pieces generalizing im with
  | nil => rfl
  | cons piece pieces ih =>
      rw [feedAll, feed_eq hw hv, List.flatten_cons, after_append]
      exact ih (hv.after hw piece)

end Image

end RecoveryImage
