import Ultimate1541.PetsciiTextProofs

/-! # CBM names as host names

    A CBM file is shown to the rest of the firmware under a host name: its name with the bytes
    a host does not take in braces (`petscii_to_fat`), and its type as a suffix.  `CbmFileName`
    reads a host name back (`fat_to_petscii`).  The name comes back for every type but that of
    the partitions of a D81, whose suffix `CbmFileName` does not know; and no two files share
    a host name, since the encoded name holds no small letter and the suffix nothing else. -/

namespace Petscii

/-! ## From the CBM name to the host name -/

/-- `reserved_names`. -/
def reservedNames : List (List UInt8) :=
  [[0x43, 0x4F, 0x4E], [0x50, 0x52, 0x4E], [0x41, 0x55, 0x58], [0x4E, 0x55, 0x4C]] ++
    (List.range 9).map (fun n => [0x43, 0x4F, 0x4D, 0x31 + UInt8.ofNat n]) ++
    (List.range 9).map (fun n => [0x4C, 0x50, 0x54, 0x31 + UInt8.ofNat n])

/-- The name is a reserved one, or one with a dot behind it. -/
def isReserved : List UInt8 → List UInt8 → Bool
  | [], [] => true
  | a :: _, [] => a == 0x2E
  | [], _ :: _ => false
  | a :: pet, b :: reserved => a == b && isReserved pet reserved

/-- A byte `petscii_to_fat` writes in braces; `p < 32` holds of the bytes from 128 on where
    `char` has a sign, and `p >= 96` where it has none. -/
def mustEscape (first : Bool) (p : UInt8) : Bool :=
  p < 32 || p ≥ 96 || p == 0x3A || p == 0x2F || p == 0x5C || p == 0x2A || p == 0x22 || p == 0x3C ||
    p == 0x3E || p == 0x3F || (first && p == 0x2E)

/-- The loop of `petscii_to_fat`, with `i` characters in the buffer: the characters that follow
    them, the closing brace included. -/
def fatLoop (maxlen : Int) : Bool → Bool → Nat → List UInt8 → List UInt8
  | _, escape, _, [] => closing escape
  | first, escape, i, p :: pet =>
      -- a trailing run of shifted spaces is dropped
      if p = 160 ∧ pet.all (· == 160) then closing escape
      else if mustEscape first p then
        if (i : Int) + 4 ≥ maxlen then closing escape
        else
          let out : List UInt8 := opening escape ++ [hexChar (p >>> 4), hexChar (p &&& 15)]
          out ++ fatLoop maxlen false true (i + out.length) pet
      else
        if (i : Int) + 2 ≥ maxlen then closing escape
        else
          let out : List UInt8 := closing escape ++ [p]
          out ++ fatLoop maxlen false false (i + out.length) pet

/-- `tolower`. -/
def lower (c : UInt8) : UInt8 := if 0x41 ≤ c ∧ c ≤ 0x5A then c + 0x20 else c

/-- `toupper`. -/
def upper (c : UInt8) : UInt8 := if 0x61 ≤ c ∧ c ≤ 0x7A then c - 0x20 else c

/-- `{}`, which is in a host name for nothing but to make it another one. -/
def mark : List UInt8 := [0x7B, 0x7D]

/-- The name ends like one with a type. -/
def endsWithType (fat : List UInt8) : Bool :=
  let ext := (fat.drop (fat.length - 4)).map lower
  ext == [0x2E, 0x70, 0x72, 0x67] || ext == [0x2E, 0x73, 0x65, 0x71] ||
    ext == [0x2E, 0x75, 0x73, 0x72] || ext == [0x2E, 0x72, 0x65, 0x6C]

/-- `petscii_to_fat`: the characters in front of the terminator. -/
def petsciiToFat (pet : List UInt8) (maxlen : Int) : List UInt8 :=
  let start := if reservedNames.any (isReserved pet) then mark else []
  let fat := start ++ fatLoop maxlen true false start.length pet
  if fat.length > 3 ∧ (fat.length : Int) + 3 ≤ maxlen ∧ endsWithType fat then fat ++ mark else fat

/-- `add_extension`. -/
def addExtension (buffer ext : List UInt8) (bufSize : Int) : List UInt8 :=
  let ext := ext.dropWhile (· == 0x2E)
  let extLen : Int := ext.length + 1
  if bufSize < 1 + extLen then buffer
  else if ext = [] then buffer
  else
    let base :=
      if (buffer.length : Int) + extLen + 1 > bufSize then buffer.take (bufSize - extLen - 1).toNat
      else buffer
    base ++ 0x2E :: ext.map lower

/-- The types of the entries a CBM directory lists.  A GEOS file has one of the first three in
    its entry, and is shown as CVT. -/
inductive FileType where
  | seq
  | prg
  | usr
  | rel
  | cbm
  | dir
  | cvt
  deriving DecidableEq

/-- The extension `DirInCBM::get_entry` gives an entry. -/
def FileType.extension : FileType → List UInt8
  | .seq => [0x53, 0x45, 0x51]
  | .prg => [0x50, 0x52, 0x47]
  | .usr => [0x55, 0x53, 0x52]
  | .rel => [0x52, 0x45, 0x4C]
  | .cbm => [0x43, 0x42, 0x4D]
  | .dir => []
  | .cvt => [0x43, 0x56, 0x54]

/-- `generate_fat_name` of an entry. -/
def generateFatName (pet : List UInt8) (type : FileType) (maxLen : Int) : List UInt8 :=
  addExtension (petsciiToFat pet maxLen) type.extension maxLen

/-! ## From the host name to the CBM name -/

/-- The extension `get_extension` finds: three characters at most behind the last dot. -/
def getExtension (name : List UInt8) : List UInt8 :=
  if 0x2E ∈ name then (name.reverse.takeWhile (· != 0x2E)).reverse.take 3 else []

/-- Where `fat_to_petscii` stops: at a dot in the last four characters when the extension is
    cut, which it is only where there is one. -/
def cutAt (fat : List UInt8) : Nat :=
  match [1, 2, 3, 4].find? fun j => fat.getD (fat.length - j) 0 = 0x2E with
  | some j => fat.length - j
  | none => fat.length

/-- The loop of `fat_to_petscii`, with `i` bytes in the buffer and `left` characters in front of
    the end: the bytes that follow.  The turn that ends an escape does not go on in the text; it
    is one with the turn behind it, which reads the same character. -/
def petLoop (len : Nat) : Bool → Nat → Nat → List UInt8 → List UInt8
  | _, _, _, [] => []
  | escape, i, left, f :: rest =>
      if left = 0 ∨ len ≤ i then []
      else if f = 0x7B then
        match rest with
        | h :: l :: rest' =>
            match hex2bin h, hex2bin l with
            | some hb, some lb => (hb <<< 4 ||| lb) :: petLoop len true (i + 1) (left - 3) rest'
            | _, _ => petLoop len false i (left - 1) (h :: l :: rest')
        | _ => []
      else
        let plain :=
          if f = 0x7D then petLoop len false i (left - 1) rest
          else upper f :: petLoop len false (i + 1) (left - 1) rest
        if escape then
          match rest with
          | l :: rest' =>
              match hex2bin f, hex2bin l with
              | some hb, some lb => (hb <<< 4 ||| lb) :: petLoop len true (i + 1) (left - 2) rest'
              | _, _ => plain
          | [] => []
        else plain

/-- `fat_to_petscii`. -/
def fatToPetscii (fat : List UInt8) (cutExt : Bool) (len : Nat) : List UInt8 :=
  petLoop len false 0 (if cutExt then cutAt fat else fat.length) fat

/-- The types `CbmFileName::init` knows by their extension. -/
def knownTypes : List (List UInt8 × Nat) :=
  [([0x70, 0x72, 0x67], 2), ([0x75, 0x73, 0x72], 3), ([0x72, 0x65, 0x6C], 4), ([0x73, 0x65, 0x71], 1),
    ([0x63, 0x76, 0x74], 7)]

/-- `CbmFileName::init`: the name and the type. -/
def init (filename : List UInt8) : List UInt8 × Nat :=
  match knownTypes.lookup ((getExtension filename).map lower) with
  | some type => (fatToPetscii filename true 16, type)
  | none => (fatToPetscii filename false 16, 2)

/-- `CbmFileName::init_dir`. -/
def initDir (dirname : List UInt8) : List UInt8 × Nat := (fatToPetscii dirname false 16, 6)

/-- The number of a type, with that of `CbmFileName` for CVT. -/
def FileType.code : FileType → Nat
  | .seq => 1
  | .prg => 2
  | .usr => 3
  | .rel => 4
  | .cbm => 5
  | .dir => 6
  | .cvt => 7

/-- A host name is read back as that of a directory or of a file. -/
def readBack (type : FileType) (host : List UInt8) : List UInt8 × Nat :=
  if type = .dir then initDir host else init host

/-- A CBM file name. -/
structure IsName (pet : List UInt8) : Prop where
  nonempty : pet ≠ []
  length : pet.length ≤ 16
  nonzero : 0 ∉ pet
  unpadded : pet.getLast? ≠ some 160

/-! ## One turn of the decoder -/

/-- A byte that is written as it is: no brace, and the same in capitals. -/
theorem plain_byte {first : Bool} {p : UInt8} (h : mustEscape first p = false) :
    upper p = p ∧ p ≠ 0x7B ∧ p ≠ 0x7D ∧ p < 0x60 := by
  have hfalse : mustEscape false p = false := by
    rw [mustEscape, Bool.or_eq_false_iff] at h ⊢
    exact ⟨h.1, rfl⟩
  exact byte_forall (fun p => mustEscape false p = false → upper p = p ∧ p ≠ 0x7B ∧ p ≠ 0x7D ∧ p < 0x60)
    (by decide +kernel) p hfalse

theorem hexChar_byte (p : UInt8) :
    (hexChar (p >>> 4) ≠ 0x7B ∧ hexChar (p >>> 4) < 0x60) ∧ hexChar (p &&& 15) < 0x60 :=
  byte_forall (fun p => (hexChar (p >>> 4) ≠ 0x7B ∧ hexChar (p >>> 4) < 0x60) ∧ hexChar (p &&& 15) < 0x60)
    (by decide +kernel) p

variable {len i left : Nat} {escape : Bool} {text : List UInt8}

/-- One turn, as it is written. -/
theorem petLoop_cons (f : UInt8) (rest : List UInt8) :
    petLoop len escape i left (f :: rest) =
      if left = 0 ∨ len ≤ i then []
      else if f = 0x7B then
        match rest with
        | h :: l :: rest' =>
            match hex2bin h, hex2bin l with
            | some hb, some lb => (hb <<< 4 ||| lb) :: petLoop len true (i + 1) (left - 3) rest'
            | _, _ => petLoop len false i (left - 1) (h :: l :: rest')
        | _ => []
      else
        let plain :=
          if f = 0x7D then petLoop len false i (left - 1) rest
          else upper f :: petLoop len false (i + 1) (left - 1) rest
        if escape then
          match rest with
          | l :: rest' =>
              match hex2bin f, hex2bin l with
              | some hb, some lb => (hb <<< 4 ||| lb) :: petLoop len true (i + 1) (left - 2) rest'
              | _, _ => plain
          | [] => []
        else plain := by
  rw [petLoop.eq_def]

theorem petLoop_stop (h : left = 0 ∨ len ≤ i) : petLoop len escape i left text = [] := by
  cases text with
  | nil => rfl
  | cons f rest => rw [petLoop_cons, if_pos h]

/-- A byte in braces that are open. -/
theorem petLoop_pair (p : UInt8) (hi : i < len) :
    petLoop len true i (left + 2) (hexChar (p >>> 4) :: hexChar (p &&& 15) :: text) =
      p :: petLoop len true (i + 1) left text := by
  obtain ⟨hh, hl, hbyte⟩ := hex_digits p
  rw [petLoop_cons, if_neg (by omega), if_neg (hexChar_byte p).1.1, if_pos rfl]
  simp only [hh, hl, hbyte, Nat.add_sub_cancel]

/-- A byte that opens braces. -/
theorem petLoop_open (p : UInt8) (hi : i < len) :
    petLoop len escape i (left + 3) (0x7B :: hexChar (p >>> 4) :: hexChar (p &&& 15) :: text) =
      p :: petLoop len true (i + 1) left text := by
  obtain ⟨hh, hl, hbyte⟩ := hex_digits p
  rw [petLoop_cons, if_neg (by omega), if_pos rfl]
  simp only [hh, hl, hbyte, Nat.add_sub_cancel]

theorem hex2bin_brace : hex2bin 0x7D = none := rfl

/-- The brace that closes. -/
theorem petLoop_close : petLoop len true i (left + 1) (0x7D :: text) = petLoop len false i left text := by
  by_cases hi : len ≤ i
  · rw [petLoop_stop (Or.inr hi), petLoop_stop (Or.inr hi)]
  · rw [petLoop_cons, if_neg (by omega), if_neg (by decide), if_pos rfl]
    cases text with
    | nil => rfl
    | cons l rest => simp only [hex2bin_brace, if_pos, Nat.add_sub_cancel]

/-- A brace that closes nothing. -/
theorem petLoop_skip : petLoop len false i (left + 1) (0x7D :: text) = petLoop len false i left text := by
  by_cases hi : len ≤ i
  · rw [petLoop_stop (Or.inr hi), petLoop_stop (Or.inr hi)]
  · rw [petLoop_cons, if_neg (by omega), if_neg (by decide), if_neg (by decide), if_pos rfl,
      Nat.add_sub_cancel]

theorem petLoop_plain {first : Bool} {p : UInt8} (hp : mustEscape first p = false) (hi : i < len) :
    petLoop len false i (left + 1) (p :: text) = p :: petLoop len false (i + 1) left text := by
  obtain ⟨hupper, hopen, hclose, -⟩ := plain_byte hp
  rw [petLoop_cons, if_neg (by omega), if_neg hopen, if_neg (by decide), if_neg hclose, hupper,
    Nat.add_sub_cancel]

/-- The mark stands for nothing. -/
theorem petLoop_mark :
    petLoop len false i (left + 2) (mark ++ text) = petLoop len false i left text := by
  by_cases hi : len ≤ i
  · rw [petLoop_stop (Or.inr hi), petLoop_stop (Or.inr hi)]
  · show petLoop len false i (left + 2) (0x7B :: 0x7D :: text) = _
    rw [petLoop_cons, if_neg (by omega), if_pos rfl]
    cases text with
    | nil => rfl
    | cons l rest =>
        simp only [hex2bin_brace]
        exact petLoop_skip

/-! ## The whole name -/

/-- Two characters and a half for each byte, and half a one more to open the first brace. -/
def Room (escape : Bool) (i : Nat) (pet : List UInt8) (total : Nat) : Prop :=
  2 * i + 5 * pet.length + (if escape then 0 else 1) ≤ total

/-- A name that is not padded does not end in a run of shifted spaces. -/
theorem not_padding {p : UInt8} {pet : List UInt8} (h : (p :: pet).getLast? ≠ some 160) :
    ¬ (p = 160 ∧ pet.all (· == 160)) := by
  rintro ⟨rfl, hall⟩
  refine h ?_
  rw [List.getLast?_eq_some_getLast (List.cons_ne_nil _ _)]
  have hmem := List.getLast_mem (List.cons_ne_nil (160 : UInt8) pet)
  rcases List.mem_cons.mp hmem with heq | hin
  · rw [heq]
  · rw [eq_of_beq (List.all_eq_true.mp hall _ hin)]

theorem unpadded_tail {p : UInt8} {pet : List UInt8} (h : (p :: pet).getLast? ≠ some 160) :
    pet.getLast? ≠ some 160 := by
  cases pet with
  | nil => exact nofun
  | cons q pet => rwa [List.getLast?_cons_cons] at h

/-- What the encoder writes is read back as the bytes it was given. -/
theorem petLoop_fatLoop {maxlen : Int} (hmax : 64 ≤ maxlen) {pet : List UInt8}
    (hpad : pet.getLast? ≠ some 160) (first escape : Bool) (i j : Nat) (hroom : Room escape i pet 85)
    (hj : j + pet.length ≤ 16) (x : Nat) (tail : List UInt8) :
    petLoop 16 escape j ((fatLoop maxlen first escape i pet).length + x)
        (fatLoop maxlen first escape i pet ++ tail) =
      pet ++ petLoop 16 false (j + pet.length) x tail := by
  induction pet generalizing first escape i j with
  | nil =>
      cases escape with
      | false =>
          show petLoop 16 false j (0 + x) tail = petLoop 16 false j x tail
          rw [Nat.zero_add]
      | true =>
          show petLoop 16 true j (1 + x) (0x7D :: tail) = petLoop 16 false j x tail
          rw [Nat.add_comm, petLoop_close]
  | cons p pet ih =>
      rw [Room, List.length_cons] at hroom
      rw [List.length_cons] at hj
      have hi : i ≤ 40 := by split at hroom <;> omega
      have hcount : j + 1 + pet.length = j + (p :: pet).length := by rw [List.length_cons]; omega
      rw [fatLoop, if_neg (not_padding hpad)]
      by_cases hesc : mustEscape first p = true
      · rw [if_pos hesc, if_neg (by omega)]
        -- behind the two digits the braces are open
        have hnext := fun i' (h : Room true i' pet 85) =>
          ih (unpadded_tail hpad) false true i' (j + 1) h (by omega)
        cases escape with
        | false =>
            have hrest := hnext (i + 3) (by simp [Room] at hroom ⊢; omega)
            rw [hcount] at hrest
            rw [List.cons_append, ← hrest]
            show petLoop 16 false j (_ + 1 + 1 + 1 + x) (0x7B :: _ :: _ :: (_ ++ tail)) = _
            rw [show ∀ n, n + 1 + 1 + 1 + x = n + x + 3 by omega, petLoop_open p (by omega)]
            rfl
        | true =>
            have hrest := hnext (i + 2) (by simp [Room] at hroom ⊢; omega)
            rw [hcount] at hrest
            rw [List.cons_append, ← hrest]
            show petLoop 16 true j (_ + 1 + 1 + x) (_ :: _ :: (_ ++ tail)) = _
            rw [show ∀ n, n + 1 + 1 + x = n + x + 2 by omega, petLoop_pair p (by omega)]
            rfl
      · rw [if_neg hesc, if_neg (by omega)]
        have hplain : mustEscape first p = false := Bool.eq_false_iff.mpr hesc
        have hnext := fun i' (h : Room false i' pet 85) =>
          ih (unpadded_tail hpad) false false i' (j + 1) h (by omega)
        cases escape with
        | false =>
            have hrest := hnext (i + 1) (by simp [Room] at hroom ⊢; omega)
            rw [hcount] at hrest
            rw [List.cons_append, ← hrest]
            show petLoop 16 false j (_ + 1 + x) (p :: (_ ++ tail)) = _
            rw [show ∀ n, n + 1 + x = n + x + 1 by omega, petLoop_plain hplain (by omega)]
            rfl
        | true =>
            have hrest := hnext (i + 2) (by simp [Room] at hroom ⊢; omega)
            rw [hcount] at hrest
            rw [List.cons_append, ← hrest]
            show petLoop 16 true j (_ + 1 + 1 + x) (0x7D :: p :: (_ ++ tail)) = _
            rw [show ∀ n, n + 1 + 1 + x = n + x + 1 + 1 by omega, petLoop_close,
              petLoop_plain hplain (by omega)]
            rfl

/-- The length of what the encoder writes. -/
theorem fatLoop_length {maxlen : Int} {pet : List UInt8} {total : Nat} (first escape : Bool) (i : Nat)
    (hroom : Room escape i pet total) :
    2 * (i + (fatLoop maxlen first escape i pet).length) ≤ total + 2 := by
  have hclose : ∀ {pet : List UInt8} {escape : Bool} {i : Nat}, Room escape i pet total →
      2 * (i + (closing escape).length) ≤ total + 2 := by
    intro pet escape i h
    cases escape with
    | false => simp [Room, closing] at h ⊢; omega
    | true => simp [Room, closing] at h ⊢; omega
  induction pet generalizing first escape i with
  | nil => exact hclose hroom
  | cons p pet ih =>
      rw [fatLoop]
      split
      · exact hclose hroom
      · split
        · split
          · exact hclose hroom
          · have hrest := ih false true (i + (opening escape ++ [hexChar (p >>> 4), hexChar (p &&& 15)]).length)
              (by cases escape <;> simp [Room, opening] at hroom ⊢ <;> omega)
            simp only [List.length_append] at hrest ⊢
            omega
        · split
          · exact hclose hroom
          · have hrest := ih false false (i + (closing escape ++ [p]).length)
              (by cases escape <;> simp [Room, closing] at hroom ⊢ <;> omega)
            simp only [List.length_append] at hrest ⊢
            omega

/-- A small letter. -/
def Small (c : UInt8) : Prop := 0x61 ≤ c ∧ c ≤ 0x7A

theorem not_small {c : UInt8} (h : c < 0x60) : ¬ Small c := by
  rintro ⟨hlow, -⟩
  have h1 := UInt8.lt_iff_toNat_lt.mp h
  have h2 := UInt8.le_iff_toNat_le.mp hlow
  exact absurd (Nat.lt_of_le_of_lt h2 h1) (by decide)

theorem brace_not_small : ¬ Small 0x7B ∧ ¬ Small 0x7D := by
  simp only [Small]
  decide

theorem closing_not_small (escape : Bool) : ∀ c ∈ closing escape, ¬ Small c := by
  cases escape with
  | false => exact fun c hc => nomatch hc
  | true =>
      intro c hc
      rw [List.mem_singleton.mp hc]
      exact brace_not_small.2

theorem opening_not_small (escape : Bool) : ∀ c ∈ opening escape, ¬ Small c := by
  cases escape with
  | false =>
      intro c hc
      rw [List.mem_singleton.mp hc]
      exact brace_not_small.1
  | true => exact fun c hc => nomatch hc

/-- No small letter is in what the encoder writes. -/
theorem fatLoop_not_small {maxlen : Int} {pet : List UInt8} (first escape : Bool) (i : Nat) :
    ∀ c ∈ fatLoop maxlen first escape i pet, ¬ Small c := by
  induction pet generalizing first escape i with
  | nil => exact closing_not_small escape
  | cons p pet ih =>
      rw [fatLoop]
      split
      · exact closing_not_small escape
      · split
        · split
          · exact closing_not_small escape
          · intro c hc
            simp only [List.mem_append, List.mem_cons, List.not_mem_nil, or_false] at hc
            rcases hc with (hopen | rfl | rfl) | hrest
            · exact opening_not_small escape c hopen
            · exact not_small (hexChar_byte p).1.2
            · exact not_small (hexChar_byte p).2
            · exact ih _ _ _ c hrest
        next hesc =>
          split
          · exact closing_not_small escape
          · intro c hc
            simp only [List.mem_append, List.mem_cons, List.not_mem_nil, or_false] at hc
            rcases hc with (hclose | rfl) | hrest
            · exact closing_not_small escape c hclose
            · exact not_small (plain_byte (Bool.eq_false_iff.mpr hesc)).2.2.2
            · exact ih _ _ _ c hrest

/-- The name in the host name: the encoded bytes, with or without a mark on each side. -/
theorem petsciiToFat_shape (pet : List UInt8) (maxlen : Int) :
    ∃ start fin, (start = [] ∨ start = mark) ∧ (fin = [] ∨ fin = mark) ∧
      petsciiToFat pet maxlen = start ++ (fatLoop maxlen true false start.length pet ++ fin) := by
  obtain ⟨start, hstart⟩ : ∃ start, start = if reservedNames.any (isReserved pet) then mark else [] :=
    ⟨_, rfl⟩
  have hmark : start = [] ∨ start = mark := by
    rw [hstart]
    split
    · exact Or.inr rfl
    · exact Or.inl rfl
  rw [petsciiToFat, ← hstart]
  split
  · exact ⟨start, mark, hmark, Or.inr rfl, List.append_assoc ..⟩
  · exact ⟨start, [], hmark, Or.inl rfl, by rw [List.append_nil]⟩

theorem petsciiToFat_not_small (pet : List UInt8) (maxlen : Int) :
    ∀ c ∈ petsciiToFat pet maxlen, ¬ Small c := by
  obtain ⟨start, fin, hstart, hfin, heq⟩ := petsciiToFat_shape pet maxlen
  have hmark : ∀ l : List UInt8, (l = [] ∨ l = mark) → ∀ c ∈ l, ¬ Small c := by
    rintro l (rfl | rfl) c hc
    · exact nomatch hc
    · simp only [mark, List.mem_cons, List.not_mem_nil, or_false] at hc
      rcases hc with rfl | rfl
      · exact brace_not_small.1
      · exact brace_not_small.2
  intro c hc
  rw [heq] at hc
  simp only [List.mem_append] at hc
  rcases hc with hc | hc | hc
  · exact hmark start hstart c hc
  · exact fatLoop_not_small _ _ _ c hc
  · exact hmark fin hfin c hc

theorem petsciiToFat_length {pet : List UInt8} (hlen : pet.length ≤ 16) (maxlen : Int) :
    (petsciiToFat pet maxlen).length ≤ 45 := by
  obtain ⟨start, fin, hstart, hfin, heq⟩ := petsciiToFat_shape pet maxlen
  have hmark : ∀ l : List UInt8, (l = [] ∨ l = mark) → l.length ≤ 2 := by
    rintro l (rfl | rfl)
    · decide
    · decide
  have h1 := hmark start hstart
  have h2 := hmark fin hfin
  have hroom : Room false start.length pet 85 := by
    simp only [Room, Bool.false_eq_true, if_false]
    omega
  have hloop : 2 * (start.length + (fatLoop maxlen true false start.length pet).length) ≤ 85 + 2 :=
    fatLoop_length true false start.length hroom
  rw [heq]
  simp only [List.length_append]
  omega

/-- The name in the host name is read back as the CBM name, whatever follows it. -/
theorem petLoop_petsciiToFat {pet : List UInt8} (h : IsName pet) {maxlen : Int} (hmax : 64 ≤ maxlen)
    (tail : List UInt8) :
    petLoop 16 false 0 (petsciiToFat pet maxlen).length (petsciiToFat pet maxlen ++ tail) = pet := by
  obtain ⟨start, fin, hstart, hfin, heq⟩ := petsciiToFat_shape pet maxlen
  have hlen := h.length
  have hroom : Room false start.length pet 85 := by
    rcases hstart with rfl | rfl
    · simp only [Room, List.length_nil, Bool.false_eq_true, if_false]
      omega
    · simp only [Room, mark, List.length_cons, List.length_nil, Bool.false_eq_true, if_false]
      omega
  have hend : ∀ j, petLoop 16 false j fin.length (fin ++ tail) = [] := by
    intro j
    rcases hfin with rfl | rfl
    · exact petLoop_stop (Or.inl rfl)
    · show petLoop 16 false j (0 + 2) (mark ++ tail) = []
      rw [petLoop_mark]
      exact petLoop_stop (Or.inl rfl)
  have hname := petLoop_fatLoop hmax h.unpadded true false start.length 0 hroom
    (by omega) fin.length (fin ++ tail)
  rw [hend, List.append_nil] at hname
  rw [heq]
  rcases hstart with rfl | rfl
  · simpa [List.append_assoc] using hname
  · have hcount : ∀ n : Nat, 2 + n = n + 2 := fun n => Nat.add_comm 2 n
    simp only [List.length_append, List.append_assoc] at hname ⊢
    rw [show mark.length = 2 from rfl, hcount, petLoop_mark]
    exact hname

/-! ## The suffix -/

/-- What the file system appends for a type. -/
def FileType.suffix (type : FileType) : List UInt8 :=
  if type = .dir then [] else 0x2E :: type.extension.map lower

theorem extension_dots (type : FileType) :
    type.extension.dropWhile (· == 0x2E) = type.extension := by
  cases type <;> rfl

theorem extension_length {type : FileType} (h : type ≠ .dir) : type.extension.length = 3 := by
  cases type with
  | dir => exact absurd rfl h
  | _ => rfl

/-- There is room for the suffix. -/
theorem generateFatName_eq {pet : List UInt8} (hlen : pet.length ≤ 16) (type : FileType) {maxlen : Int}
    (hmax : 64 ≤ maxlen) : generateFatName pet type maxlen = petsciiToFat pet maxlen ++ type.suffix := by
  have hfat := petsciiToFat_length hlen maxlen
  rw [generateFatName, addExtension, extension_dots, FileType.suffix]
  by_cases hdir : type = .dir
  · subst hdir
    rw [if_pos rfl, List.append_nil]
    show (if _ then _ else if ([] : List UInt8) = [] then _ else _) = _
    rw [if_pos rfl, ite_self]
  · have hext := extension_length hdir
    have hne : type.extension ≠ [] := fun h => by simp [h] at hext
    rw [if_neg hdir]
    simp only [hext]
    rw [if_neg (by omega), if_neg hne, if_neg (by omega)]

/-- The extension of a host name is its suffix. -/
theorem getExtension_append (base : List UInt8) {ext : List UInt8} (hdot : 0x2E ∉ ext)
    (hlen : ext.length ≤ 3) : getExtension (base ++ 0x2E :: ext) = ext := by
  have htake : (base ++ 0x2E :: ext).reverse.takeWhile (· != 0x2E) = ext.reverse := by
    rw [List.reverse_append, List.reverse_cons, List.append_assoc, List.takeWhile_append_of_pos]
    · simp
    · intro c hc
      rw [bne_iff_ne]
      exact fun h => hdot (h ▸ List.mem_reverse.mp hc)
  rw [getExtension, if_pos (by simp), htake, List.reverse_reverse, List.take_of_length_le hlen]

/-- The suffix is cut. -/
theorem cutAt_append (base : List UInt8) {a b c : UInt8} (ha : a ≠ 0x2E) (hb : b ≠ 0x2E)
    (hc : c ≠ 0x2E) : cutAt (base ++ [0x2E, a, b, c]) = base.length := by
  have hlen : (base ++ [0x2E, a, b, c]).length = base.length + 4 := by simp
  have hat : ∀ j, (base ++ [0x2E, a, b, c]).getD (base.length + j) 0 = [0x2E, a, b, c].getD j 0 := by
    intro j
    rw [List.getD_append_right _ _ _ _ (Nat.le_add_right ..), Nat.add_sub_cancel_left]
  have h1 := hat 3
  have h2 := hat 2
  have h3 := hat 1
  have h4 := hat 0
  rw [cutAt, hlen]
  simp only [show base.length + 4 - 1 = base.length + 3 by omega,
    show base.length + 4 - 2 = base.length + 2 by omega,
    show base.length + 4 - 3 = base.length + 1 by omega,
    show base.length + 4 - 4 = base.length + 0 by omega, List.find?, h1, h2, h3, h4]
  simp [ha, hb, hc]

/-! ## There and back -/

theorem init_known {pet : List UInt8} (h : IsName pet) {maxlen : Int} (hmax : 64 ≤ maxlen)
    {a b c : UInt8} (ha : a ≠ 0x2E) (hb : b ≠ 0x2E) (hc : c ≠ 0x2E) {code : Nat}
    (hknown : knownTypes.lookup ([a, b, c].map lower) = some code) :
    init (petsciiToFat pet maxlen ++ [0x2E, a, b, c]) = (pet, code) := by
  have hext : getExtension (petsciiToFat pet maxlen ++ [0x2E, a, b, c]) = [a, b, c] :=
    getExtension_append _ (by simp [ha.symm, hb.symm, hc.symm]) (Nat.le_refl _)
  rw [init, hext, hknown]
  dsimp only
  rw [fatToPetscii, if_pos rfl, cutAt_append _ ha hb hc, petLoop_petsciiToFat h hmax]

/-- A host name is read back as the name and the type it was made from, but for the type of the
    partitions of a D81. -/
theorem readBack_generateFatName {pet : List UInt8} (h : IsName pet) {type : FileType}
    (htype : type ≠ .cbm) {maxlen : Int} (hmax : 64 ≤ maxlen) :
    readBack type (generateFatName pet type maxlen) = (pet, type.code) := by
  rw [generateFatName_eq h.length type hmax]
  cases type with
  | cbm => exact absurd rfl htype
  | dir =>
      have hname := petLoop_petsciiToFat h hmax []
      rw [List.append_nil] at hname
      show initDir (petsciiToFat pet maxlen ++ []) = (pet, 6)
      rw [List.append_nil, initDir, fatToPetscii, if_neg (by decide), hname]
  | _ => exact init_known h hmax (by decide) (by decide) (by decide) (by decide)

/-- The encoded name and the suffix can be told apart. -/
theorem suffix_inj {base base' : List UInt8} (hb : ∀ c ∈ base, ¬ Small c) (hb' : ∀ c ∈ base', ¬ Small c)
    {type type' : FileType} (h : base ++ type.suffix = base' ++ type'.suffix) :
    base = base' ∧ type = type' := by
  -- Only a suffix ends in a small letter.
  have hlast : ∀ {t : FileType}, t ≠ .dir → ∃ pre c, t.suffix = pre ++ [c] ∧ Small c ∧ pre.length = 3 := by
    intro t ht
    simp only [Small]
    cases t with
    | dir => exact absurd rfl ht
    | seq => exact ⟨[0x2E, 0x73, 0x65], 0x71, rfl, by decide, rfl⟩
    | prg => exact ⟨[0x2E, 0x70, 0x72], 0x67, rfl, by decide, rfl⟩
    | usr => exact ⟨[0x2E, 0x75, 0x73], 0x72, rfl, by decide, rfl⟩
    | rel => exact ⟨[0x2E, 0x72, 0x65], 0x6C, rfl, by decide, rfl⟩
    | cbm => exact ⟨[0x2E, 0x63, 0x62], 0x6D, rfl, by decide, rfl⟩
    | cvt => exact ⟨[0x2E, 0x63, 0x76], 0x74, rfl, by decide, rfl⟩
  have hmixed : ∀ {b b' : List UInt8} {t : FileType}, (∀ c ∈ b', ¬ Small c) → t ≠ .dir →
      b ++ t.suffix ≠ b' := by
    rintro b b' t hcap ht rfl
    obtain ⟨pre, c, hsuffix, hsmall, -⟩ := hlast ht
    exact hcap c (by rw [hsuffix]; simp) hsmall
  by_cases hd : type = .dir
  · by_cases hd' : type' = .dir
    · subst hd hd'
      exact ⟨List.append_cancel_right h, rfl⟩
    · subst hd
      exact absurd (h.symm.trans (List.append_nil base)) (hmixed hb hd')
  · by_cases hd' : type' = .dir
    · subst hd'
      exact absurd (h.trans (List.append_nil base')) (hmixed hb' hd)
    · obtain ⟨pre, c, hs, -, hl⟩ := hlast hd
      obtain ⟨pre', c', hs', -, hl'⟩ := hlast hd'
      have hlen : type.suffix.length = type'.suffix.length := by
        rw [hs, hs', List.length_append, List.length_append, hl, hl']
        rfl
      obtain ⟨hbase, hsuffix⟩ := List.append_inj' h hlen
      refine ⟨hbase, ?_⟩
      revert hsuffix
      cases type <;> cases type' <;> first | exact fun _ => rfl | (intro hne; exact absurd hne (by decide))

/-- The name and the type come back, and no two files have the same host name. -/
theorem generateFatName_inverse (maxlen : Int) (hmax : 64 ≤ maxlen) :
    (∀ (pet : List UInt8) (type : FileType), IsName pet → type ≠ .cbm →
      readBack type (generateFatName pet type maxlen) = (pet, type.code)) ∧
    ∀ (pet pet' : List UInt8) (type type' : FileType), IsName pet → IsName pet' →
      generateFatName pet type maxlen = generateFatName pet' type' maxlen → pet = pet' ∧ type = type' := by
  refine ⟨fun pet type h htype => readBack_generateFatName h htype hmax, ?_⟩
  intro pet pet' type type' h h' heq
  rw [generateFatName_eq h.length type hmax, generateFatName_eq h'.length type' hmax] at heq
  obtain ⟨hbase, htype⟩ := suffix_inj (petsciiToFat_not_small pet maxlen)
    (petsciiToFat_not_small pet' maxlen) heq
  refine ⟨?_, htype⟩
  rw [← petLoop_petsciiToFat h hmax [], ← petLoop_petsciiToFat h' hmax [], hbase]

theorem generateFatName_inverse_64 :
    (∀ (pet : List UInt8) (type : FileType), IsName pet → type ≠ .cbm →
      readBack type (generateFatName pet type 64) = (pet, type.code)) ∧
    ∀ (pet pet' : List UInt8) (type type' : FileType), IsName pet → IsName pet' →
      generateFatName pet type 64 = generateFatName pet' type' 64 → pet = pet' ∧ type = type' :=
  generateFatName_inverse 64 (by decide)

/-- The partition `A` is `A.cbm`, which is read as the program `A.CBM`. -/
theorem readBack_partition :
    ¬ ∀ (pet : List UInt8) (type : FileType), IsName pet →
      readBack type (generateFatName pet type 64) = (pet, type.code) := by
  intro h
  have hname : IsName [0x41] := ⟨by decide, by decide, by decide, by decide⟩
  exact absurd (h [0x41] .cbm hname) (by decide)

end Petscii
