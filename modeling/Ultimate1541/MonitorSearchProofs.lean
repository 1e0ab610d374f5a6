import Ultimate1541.MonitorTransferProofs

/-! # The monitor's compare and hunt commands

    Both walk over a range of the 64K a byte at a time, and take the bytes from a block that
    the backend has filled in one call.  A block is 256 bytes at a multiple of 256, cut down
    to what the walk asks for when its range does not wrap.

    The block holds the bytes of the memory wherever it stands, and it covers an address of
    the range whenever that is asked for.  So a walk over blocks finds what a walk over the
    memory finds. -/

namespace MonitorSearch

open MonitorTransfer

/-! ## The source -/

/-- `MonitorBlockReader`.  `buffer` has the bytes of the last block only. -/
structure MonitorBlockReader where
  first : Nat
  last : Nat
  buffer : List UInt8
  base : Nat
  held : Nat
  filled : Bool

namespace MonitorBlockReader

def new (first last : UInt16) : MonitorBlockReader :=
  ⟨first.toNat, last.toNat, [], 0, 0, false⟩

/-- The block of an address, narrowed to `first` and `last` unless these wrap. -/
def fill (m : Memory) (r : MonitorBlockReader) (address : UInt16) : MonitorBlockReader :=
  let block := address.toNat / 256 * 256
  let start := if r.first ≤ r.last ∧ block < r.first then r.first else block
  let «end» := if r.first ≤ r.last ∧ r.last < block + 255 then r.last else block + 255
  let held := («end» + 4294967296 - start + 1) % 65536
  { r with base := start, held := held, filled := true
           buffer := readBlock m (UInt16.ofNat start) held }

/-- `read`.  There is no byte where the address is not in the buffer. -/
def read (m : Memory) (r : MonitorBlockReader) (address : UInt16) :
    Option (UInt8 × MonitorBlockReader) :=
  let r := if r.filled = false ∨ address.toNat < r.base ∨ r.base + r.held ≤ address.toNat
    then r.fill m address else r
  if address.toNat < r.base then none
  else (r.buffer[address.toNat - r.base]?).map fun b => (b, r)

end MonitorBlockReader

/-- The loop that the commands share: what `test` finds at an index is `report`ed. -/
def searchLoop {ρ σ : Type} (test : Nat → ρ → Option (Bool × ρ)) (report : Nat → σ → σ) :
    (n index : Nat) → ρ → σ → Option σ
  | 0, _, _, s => some s
  | n + 1, index, r, s =>
      match test index r with
      | none => none
      | some (true, r) => searchLoop test report n (index + 1) r (report index s)
      | some (false, r) => searchLoop test report n (index + 1) r s

/-- `if (count < max_addrs) out_addrs[count] = …; count++`. -/
def collect (start : UInt16) (maxAddrs : Int) (index : Nat) (s : Nat × List UInt16) :
    Nat × List UInt16 :=
  (s.1 + 1, if (s.1 : Int) < maxAddrs then s.2 ++ [start + UInt16.ofNat index] else s.2)

/-- `append_text`. -/
def appendText (outLen : Nat) : (out text : List Char) → List Char
  | out, [] => out
  | out, c :: text => if out.length + 1 < outLen then appendText outLen (out ++ [c]) text else out

def hexchar (n : Nat) : Char := "0123456789ABCDEF".toList.getD (n % 16) '0'

/-- `"$%04x\n"`. -/
def lineAddress (address : UInt16) : List Char :=
  let a := address.toNat
  ['$', hexchar (a / 4096), hexchar (a / 256), hexchar (a / 16), hexchar a, '\n']

/-- `append_line_address(…); count++`. -/
def appendLine (start : UInt16) (outLen : Nat) (index : Nat) (s : Nat × List Char) :
    Nat × List Char :=
  (s.1 + 1, appendText outLen s.2 (lineAddress (start + UInt16.ofNat index)))

/-- What is said where nothing was found. -/
def orElseText (outLen : Nat) (text : String) (s : Nat × List Char) : Nat × List Char :=
  if s.1 = 0 then (s.1, appendText outLen s.2 text.toList) else s

section Compare

variable (m : Memory) (start «end» dest : UInt16)

/-- `left.read(start + index) != right.read(dest + index)`. -/
def differs (index : Nat) (r : MonitorBlockReader × MonitorBlockReader) :
    Option (Bool × MonitorBlockReader × MonitorBlockReader) :=
  match r.1.read m (start + UInt16.ofNat index), r.2.read m (dest + UInt16.ofNat index) with
  | some (a, left), some (b, right) => some (a != b, left, right)
  | _, _ => none

/-- `monitor_compare_memory`. -/
def monitorCompareMemory (outLen : Nat) : Option (Nat × List Char) :=
  let length := («end» - start).toNat + 1
  let left := MonitorBlockReader.new start (start + UInt16.ofNat length - 1)
  let right := MonitorBlockReader.new dest (dest + UInt16.ofNat length - 1)
  (searchLoop (differs m start dest) (appendLine start outLen) length 0 (left, right) (0, [])).map
    (orElseText outLen "No differences\n")

/-- `monitor_compare_collect`. -/
def monitorCompareCollect (maxAddrs : Int) : Option (Nat × List UInt16) :=
  let length := («end» - start).toNat + 1
  if maxAddrs ≤ 0 then some (0, [])
  else
    let left := MonitorBlockReader.new start (start + UInt16.ofNat length - 1)
    let right := MonitorBlockReader.new dest (dest + UInt16.ofNat length - 1)
    searchLoop (differs m start dest) (collect start maxAddrs) length 0 (left, right) (0, [])

end Compare

section Hunt

variable (m : Memory) (start «end» : UInt16) (needle : List UInt8)

/-- The loop over the needle, with the bytes from its `i`-th on to go. -/
def matchLoop (index : Nat) : (i : Nat) → List UInt8 → MonitorBlockReader →
    Option (Bool × MonitorBlockReader)
  | _, [], r => some (true, r)
  | i, b :: needle, r =>
      match r.read m (start + UInt16.ofNat (index + i)) with
      | none => none
      | some (v, r) => if v ≠ b then some (false, r) else matchLoop index (i + 1) needle r

/-- `monitor_hunt_collect`. -/
def monitorHuntCollect (maxAddrs : Int) : Option (Nat × List UInt16) :=
  let limit := («end» - start).toNat + 1
  if maxAddrs ≤ 0 then some (0, [])
  else if limit < needle.length then some (0, [])
  else
    searchLoop (fun index => matchLoop m start index 0 needle) (collect start maxAddrs)
      (limit + 1 - needle.length) 0 (MonitorBlockReader.new start «end») (0, [])

/-- `monitor_hunt_memory`. -/
def monitorHuntMemory (outLen : Nat) : Option (Nat × List Char) :=
  let limit := («end» - start).toNat + 1
  if limit < needle.length then some (0, appendText outLen [] "No matches\n".toList)
  else
    (searchLoop (fun index => matchLoop m start index 0 needle) (appendLine start outLen)
      (limit + 1 - needle.length) 0 (MonitorBlockReader.new start «end») (0, [])).map
      (orElseText outLen "No matches\n")

end Hunt

/-! ## What is to be found -/

/-- The addresses of the range at which the byte differs from the one as far behind `dest`, in
    ascending order from `start`. -/
def differences (m : Memory) (start «end» dest : UInt16) : List UInt16 :=
  ((List.range ((«end» - start).toNat + 1)).filter fun i =>
    m (start + UInt16.ofNat i) ≠ m (dest + UInt16.ofNat i)).map fun i => start + UInt16.ofNat i

/-- The needle stands at an index from `start`. -/
def Stands (m : Memory) (start : UInt16) (needle : List UInt8) (index : Nat) : Prop :=
  ∀ i, (h : i < needle.length) → m (start + UInt16.ofNat (index + i)) = needle[i]

instance (m : Memory) (start : UInt16) (needle : List UInt8) (index : Nat) :
    Decidable (Stands m start needle index) := Nat.decidableBallLT _ _

/-- The addresses at which the needle lies completely inside the range, in ascending order from
    `start`. -/
def occurrences (m : Memory) (start «end» : UInt16) (needle : List UInt8) : List UInt16 :=
  ((List.range ((«end» - start).toNat + 1 + 1 - needle.length)).filter fun i =>
    Stands m start needle i).map fun i => start + UInt16.ofNat i

/-- A line for each address, or that there is none. -/
def listed (none : String) (addresses : List UInt16) : List Char :=
  if addresses = [] then none.toList else addresses.flatMap lineAddress

/-! ## The block reader -/

/-- The address is not behind the end of the range, which may wrap. -/
def Within (first last address : UInt16) : Prop :=
  (address - first).toNat ≤ (last - first).toNat

/-- The reader is for this range, and its buffer has what the memory has there. -/
structure Serves (m : Memory) (first last : UInt16) (r : MonitorBlockReader) : Prop where
  first_eq : r.first = first.toNat
  last_eq : r.last = last.toNat
  window : r.filled = true → r.base + r.held ≤ 65536 ∧
    r.buffer = readBlock m (UInt16.ofNat r.base) r.held

section Reader

variable {m : Memory} {first last address : UInt16} {r : MonitorBlockReader}

theorem serves_new (m : Memory) (first last : UInt16) :
    Serves m first last (MonitorBlockReader.new first last) :=
  ⟨rfl, rfl, fun h => nomatch h⟩

/-- In a range that does not wrap the address is between its ends. -/
theorem Within.between (h : Within first last address) (hle : first.toNat ≤ last.toNat) :
    first.toNat ≤ address.toNat ∧ address.toNat ≤ last.toNat := by
  have hf := first.toNat_lt
  have hl := last.toNat_lt
  have ha := address.toNat_lt
  rw [Within, UInt16.toNat_sub, UInt16.toNat_sub] at h
  omega

/-- The block that is fetched for an address of the range covers it. -/
theorem fill_covers (hr : Serves m first last r) (h : Within first last address) :
    Serves m first last (r.fill m address) ∧ (r.fill m address).base ≤ address.toNat ∧
      address.toNat < (r.fill m address).base + (r.fill m address).held := by
  have ha := address.toNat_lt
  have hb : r.first ≤ r.last → r.first ≤ address.toNat ∧ address.toNat ≤ r.last := by
    intro hle
    rw [hr.first_eq, hr.last_eq] at hle ⊢
    exact h.between hle
  have hl := last.toNat_lt
  have hlast := hr.last_eq
  simp only [MonitorBlockReader.fill]
  by_cases hle : r.first ≤ r.last
  · obtain ⟨hlo, hhi⟩ := hb hle
    refine ⟨⟨hr.first_eq, hr.last_eq, fun _ => ⟨?_, rfl⟩⟩, ?_, ?_⟩
    · simp only [hle, true_and]
      split <;> split <;> omega
    · simp only [hle, true_and]
      split <;> omega
    · simp only [hle, true_and]
      split <;> split <;> omega
  · refine ⟨⟨hr.first_eq, hr.last_eq, fun _ => ⟨?_, rfl⟩⟩, ?_, ?_⟩
    · simp only [hle, false_and, if_false]
      omega
    · simp only [hle, false_and, if_false]
      omega
    · simp only [hle, false_and, if_false]
      omega

/-- A byte of the buffer is the byte of the memory. -/
theorem buffer_get (hr : Serves m first last r) (hf : r.filled = true)
    (hlo : r.base ≤ address.toNat) (hhi : address.toNat < r.base + r.held) :
    r.buffer[address.toNat - r.base]? = some (m address) := by
  obtain ⟨hmax, hbuffer⟩ := hr.window hf
  have hlen : address.toNat - r.base < r.buffer.length := by
    rw [hbuffer, length_readBlock]
    omega
  have hget := readBlock_getD m (UInt16.ofNat r.base)
    (show address.toNat - r.base < r.held by omega)
  have haddress : UInt16.ofNat r.base + UInt16.ofNat (address.toNat - r.base) = address := by
    rw [← UInt16.ofNat_add, Nat.add_sub_cancel' hlo, UInt16.ofNat_toNat]
  rw [← hbuffer, haddress, List.getD_eq_getElem?_getD, List.getElem?_eq_getElem hlen,
    Option.getD_some] at hget
  rw [List.getElem?_eq_getElem hlen, hget]

/-- Within its range the reader serves the memory. -/
theorem read_spec (hr : Serves m first last r) (h : Within first last address) :
    ∃ r', r.read m address = some (m address, r') ∧ Serves m first last r' := by
  rw [MonitorBlockReader.read]
  by_cases hout : r.filled = false ∨ address.toNat < r.base ∨ r.base + r.held ≤ address.toNat
  · obtain ⟨hfill, hlo, hhi⟩ := fill_covers hr h
    refine ⟨r.fill m address, ?_, hfill⟩
    simp only [if_pos hout, if_neg (Nat.not_lt.mpr hlo), buffer_get hfill rfl hlo hhi,
      Option.map_some]
  · have hf : r.filled = true := by
      cases hfilled : r.filled with
      | false => exact absurd (Or.inl hfilled) hout
      | true => rfl
    have hlo : r.base ≤ address.toNat := by omega
    have hhi : address.toNat < r.base + r.held := by omega
    refine ⟨r, ?_, hr⟩
    simp only [if_neg hout, if_neg (Nat.not_lt.mpr hlo), buffer_get hr hf hlo hhi,
      Option.map_some]

end Reader

/-! ## The loop -/

section Loop

variable {ρ σ : Type} {test : Nat → ρ → Option (Bool × ρ)} {report : Nat → σ → σ}

/-- Where the test tells whether an index has the property, the loop reports the indexes that
    have it, one after the other. -/
theorem searchLoop_spec {P : Nat → Prop} [DecidablePred P] {Inv : ρ → Prop} {total : Nat}
    (h : ∀ i r, i < total → Inv r → ∃ r', test i r = some (decide (P i), r') ∧ Inv r') :
    ∀ (n index : Nat) (r : ρ) (s : σ), index + n ≤ total → Inv r →
      searchLoop test report n index r s =
        some (((List.range' index n).filter P).foldl (fun s i => report i s) s) := by
  intro n
  induction n with
  | zero =>
      intro index r s _ _
      rfl
  | succ n ih =>
      intro index r s htotal hr
      obtain ⟨r', htest, hr'⟩ := h index r (by omega) hr
      rw [searchLoop, htest, List.range'_succ]
      by_cases hp : P index
      · rw [List.filter_cons_of_pos (by simpa using hp), List.foldl_cons]
        simp only [decide_eq_true hp]
        exact ih _ _ _ (by omega) hr'
      · rw [List.filter_cons_of_neg (by simpa using hp)]
        simp only [decide_eq_false hp]
        exact ih _ _ _ (by omega) hr'

/-- All indexes from zero on. -/
theorem searchLoop_range {P : Nat → Prop} [DecidablePred P] {Inv : ρ → Prop} {total : Nat}
    (h : ∀ i r, i < total → Inv r → ∃ r', test i r = some (decide (P i), r') ∧ Inv r')
    {r : ρ} (hr : Inv r) (s : σ) :
    searchLoop test report total 0 r s =
      some (((List.range total).filter P).foldl (fun s i => report i s) s) := by
  rw [searchLoop_spec h total 0 r s (Nat.le_of_eq (Nat.zero_add total)) hr,
    List.range_eq_range']

end Loop

/-! ## What is reported -/

theorem take_append_full {α : Type} (n : Nat) (xs ys : List α) (h : n ≤ xs.length) :
    (xs ++ ys).take n = xs.take n := by
  rw [List.take_append, Nat.sub_eq_zero_of_le h, List.take_zero, List.append_nil]

/-- The list takes the addresses until it is full, and the count goes on. -/
theorem collect_foldl (start : UInt16) {maxAddrs : Int} (hmax : 0 < maxAddrs) (is : List Nat) :
    is.foldl (fun s i => collect start maxAddrs i s) (0, []) =
      (is.length, (is.map fun i => start + UInt16.ofNat i).take maxAddrs.toNat) := by
  induction is using List.reverseRecOn with
  | nil => simp
  | append_singleton is i ih =>
      rw [List.foldl_append, ih, List.foldl_cons, List.foldl_nil, collect]
      rw [List.length_append, List.map_append, List.map_cons, List.map_nil]
      by_cases hroom : (is.length : Int) < maxAddrs
      · rw [if_pos hroom, List.take_of_length_le (by rw [List.length_map]; omega),
          List.take_of_length_le (by
            rw [List.length_append, List.length_map, List.length_singleton]
            omega)]
        rfl
      · rw [if_neg hroom, take_append_full _ _ _ (by rw [List.length_map]; omega)]
        rfl

/-- A text is appended as far as it fits. -/
theorem appendText_take (outLen : Nat) (text : List Char) : ∀ out : List Char,
    appendText outLen (out.take (outLen - 1)) text = (out ++ text).take (outLen - 1) := by
  induction text with
  | nil =>
      intro out
      rw [appendText, List.append_nil]
  | cons c text ih =>
      intro out
      rw [appendText, List.length_take]
      by_cases hroom : min (outLen - 1) out.length + 1 < outLen
      · have hlen : out.length + 1 ≤ outLen - 1 := by omega
        have hout := ih (out ++ [c])
        rw [List.take_of_length_le (by
          rw [List.length_append, List.length_singleton]
          exact hlen), List.append_assoc] at hout
        rw [if_pos hroom, List.take_of_length_le (by omega), hout]
        rfl
      · rw [if_neg hroom, take_append_full _ _ _ (by omega)]

/-- The text has the lines of the addresses as far as they fit, and the count goes on. -/
theorem appendLine_foldl (start : UInt16) (outLen : Nat) (is : List Nat) :
    is.foldl (fun s i => appendLine start outLen i s) (0, []) =
      (is.length,
        ((is.map fun i => start + UInt16.ofNat i).flatMap lineAddress).take (outLen - 1)) := by
  induction is using List.reverseRecOn with
  | nil => simp
  | append_singleton is i ih =>
      rw [List.foldl_append, ih, List.foldl_cons, List.foldl_nil, appendLine, appendText_take,
        List.length_append, List.map_append, List.flatMap_append]
      simp

/-- With the line for nothing found. -/
theorem orElseText_listed (outLen : Nat) (none : String) (addresses : List UInt16) :
    orElseText outLen none
        (addresses.length, (addresses.flatMap lineAddress).take (outLen - 1)) =
      (addresses.length, (listed none addresses).take (outLen - 1)) := by
  cases addresses with
  | nil =>
      have htext := appendText_take outLen none.toList []
      rw [List.nil_append] at htext
      simp only [orElseText, List.length_nil, if_true, List.flatMap_nil, htext, listed]
  | cons a addresses =>
      simp [orElseText, listed]

/-! ## The tests of the two commands -/

section Tests

variable {m : Memory} {start «end» dest : UInt16}

theorem within_add {length i : Nat} (hlen : length ≤ 65536) (h : i < length) :
    Within start (start + UInt16.ofNat length - 1) (start + UInt16.ofNat i) := by
  have hend : start + UInt16.ofNat length - 1 - start = UInt16.ofNat (length - 1) := by
    have hsplit : UInt16.ofNat length = UInt16.ofNat (length - 1) + 1 := by
      rw [← UInt16.ofNat_one, ← UInt16.ofNat_add, Nat.sub_add_cancel (by omega)]
    rw [hsplit]
    grind
  have hi : start + UInt16.ofNat i - start = UInt16.ofNat i := by grind
  rw [Within, hend, hi, UInt16.toNat_ofNat', UInt16.toNat_ofNat']
  omega

theorem within_range {i : Nat} (h : i < («end» - start).toNat + 1) :
    Within start «end» (start + UInt16.ofNat i) := by
  have hlt := («end» - start).toNat_lt
  have hi : start + UInt16.ofNat i - start = UInt16.ofNat i := by grind
  rw [Within, hi, UInt16.toNat_ofNat']
  omega

/-- The two readers tell whether the bytes differ. -/
theorem differs_spec {length : Nat} (hlen : length ≤ 65536) (i : Nat)
    (r : MonitorBlockReader × MonitorBlockReader) (h : i < length)
    (hr : Serves m start (start + UInt16.ofNat length - 1) r.1 ∧
      Serves m dest (dest + UInt16.ofNat length - 1) r.2) :
    ∃ r', differs m start dest i r =
        some (decide (m (start + UInt16.ofNat i) ≠ m (dest + UInt16.ofNat i)), r') ∧
      (Serves m start (start + UInt16.ofNat length - 1) r'.1 ∧
        Serves m dest (dest + UInt16.ofNat length - 1) r'.2) := by
  obtain ⟨left, hleft, hl⟩ := read_spec hr.1 (within_add hlen h)
  obtain ⟨right, hright, hr⟩ := read_spec hr.2 (within_add hlen h)
  refine ⟨(left, right), ?_, hl, hr⟩
  rw [differs, hleft, hright]
  simp only [bne, ne_eq, decide_not, beq_eq_decide]

/-- The reader tells whether the rest of the needle stands there. -/
theorem matchLoop_spec {index : Nat} : ∀ (needle : List UInt8) (i : Nat) (r : MonitorBlockReader),
    index + i + needle.length ≤ («end» - start).toNat + 1 → Serves m start «end» r →
    ∃ r', matchLoop m start index i needle r =
        some (decide (Stands m start needle (index + i)), r') ∧ Serves m start «end» r' := by
  intro needle
  induction needle with
  | nil =>
      intro i r _ hr
      refine ⟨r, ?_, hr⟩
      rw [matchLoop, decide_eq_true]
      intro j hj
      exact absurd hj (Nat.not_lt_zero j)
  | cons b needle ih =>
      intro i r hin hr
      rw [List.length_cons] at hin
      obtain ⟨r', hread, hr'⟩ := read_spec hr
        (within_range (show index + i < («end» - start).toNat + 1 by omega))
      rw [matchLoop, hread]
      by_cases hb : m (start + UInt16.ofNat (index + i)) = b
      · obtain ⟨r'', hrest, hr''⟩ := ih (i + 1) r' (by omega) hr'
        refine ⟨r'', ?_, hr''⟩
        simp only [if_neg (not_not.mpr hb), hrest]
        congr 2
        apply decide_eq_decide.mpr
        constructor
        · intro h j hj
          cases j with
          | zero => exact hb
          | succ j =>
              have := h j (Nat.lt_of_succ_lt_succ hj)
              rw [show index + (i + 1) + j = index + i + (j + 1) by omega] at this
              exact this
        · intro h j hj
          have := h (j + 1) (Nat.succ_lt_succ hj)
          rw [show index + i + (j + 1) = index + (i + 1) + j by omega] at this
          exact this
      · refine ⟨r', ?_, hr'⟩
        simp only [if_pos hb]
        rw [decide_eq_false]
        intro h
        exact hb (h 0 (Nat.succ_pos _))

end Tests

/-! ## The commands -/

section Commands

variable (m : Memory) (start «end» dest : UInt16) (needle : List UInt8)

theorem length_le : («end» - start).toNat + 1 ≤ 65536 := («end» - start).toNat_lt

theorem monitorCompareCollect_eq {maxAddrs : Int} (hmax : 0 < maxAddrs) :
    monitorCompareCollect m start «end» dest maxAddrs =
      some ((differences m start «end» dest).length,
        (differences m start «end» dest).take maxAddrs.toNat) := by
  rw [monitorCompareCollect, if_neg (Int.not_le.mpr hmax),
    searchLoop_range (differs_spec (length_le start «end»)) ⟨serves_new _ _ _, serves_new _ _ _⟩,
    collect_foldl start hmax, differences, List.length_map]

theorem monitorCompareMemory_eq (outLen : Nat) :
    monitorCompareMemory m start «end» dest outLen =
      some ((differences m start «end» dest).length,
        (listed "No differences\n" (differences m start «end» dest)).take (outLen - 1)) := by
  rw [monitorCompareMemory,
    searchLoop_range (differs_spec (length_le start «end»)) ⟨serves_new _ _ _, serves_new _ _ _⟩,
    appendLine_foldl, Option.map_some, ← orElseText_listed, differences, List.length_map]

theorem occurrences_long {needle : List UInt8} (h : («end» - start).toNat + 1 < needle.length) :
    occurrences m start «end» needle = [] := by
  rw [occurrences, Nat.sub_eq_zero_of_le h]
  rfl

theorem hunt_spec (i : Nat) (r : MonitorBlockReader)
    (h : i < («end» - start).toNat + 1 + 1 - needle.length) (hr : Serves m start «end» r) :
    ∃ r', matchLoop m start i 0 needle r = some (decide (Stands m start needle i), r') ∧
      Serves m start «end» r' :=
  matchLoop_spec needle 0 r (by omega) hr

theorem monitorHuntCollect_eq {maxAddrs : Int} (hmax : 0 < maxAddrs) :
    monitorHuntCollect m start «end» needle maxAddrs =
      some ((occurrences m start «end» needle).length,
        (occurrences m start «end» needle).take maxAddrs.toNat) := by
  rw [monitorHuntCollect, if_neg (Int.not_le.mpr hmax)]
  by_cases hlong : («end» - start).toNat + 1 < needle.length
  · rw [if_pos hlong, occurrences_long m start «end» hlong, List.take_nil]
    rfl
  · rw [if_neg hlong, searchLoop_range (hunt_spec m start «end» needle) (serves_new _ _ _),
      collect_foldl start hmax, occurrences, List.length_map]

theorem monitorHuntMemory_eq (outLen : Nat) :
    monitorHuntMemory m start «end» needle outLen =
      some ((occurrences m start «end» needle).length,
        (listed "No matches\n" (occurrences m start «end» needle)).take (outLen - 1)) := by
  rw [monitorHuntMemory]
  by_cases hlong : («end» - start).toNat + 1 < needle.length
  · have htext := appendText_take outLen "No matches\n".toList []
    rw [if_pos hlong, occurrences_long m start «end» hlong, listed, if_pos rfl]
    rw [List.take_nil, List.nil_append] at htext
    rw [htext]
    rfl
  · rw [if_neg hlong, searchLoop_range (hunt_spec m start «end» needle) (serves_new _ _ _),
      appendLine_foldl, Option.map_some, ← orElseText_listed, occurrences, List.length_map]

end Commands

/-- Compare and hunt report what is to be found, and count all of it.  A list has to have room
    for an address. -/
theorem search_reports (m : Memory) (start «end» dest : UInt16) (needle : List UInt8)
    (maxAddrs : Int) (outLen : Nat) (hmax : 0 < maxAddrs) :
    monitorCompareCollect m start «end» dest maxAddrs =
        some ((differences m start «end» dest).length,
          (differences m start «end» dest).take maxAddrs.toNat) ∧
      monitorCompareMemory m start «end» dest outLen =
        some ((differences m start «end» dest).length,
          (listed "No differences\n" (differences m start «end» dest)).take (outLen - 1)) ∧
      monitorHuntCollect m start «end» needle maxAddrs =
        some ((occurrences m start «end» needle).length,
          (occurrences m start «end» needle).take maxAddrs.toNat) ∧
      monitorHuntMemory m start «end» needle outLen =
        some ((occurrences m start «end» needle).length,
          (listed "No matches\n" (occurrences m start «end» needle)).take (outLen - 1)) :=
  ⟨monitorCompareCollect_eq m start «end» dest hmax,
    monitorCompareMemory_eq m start «end» dest outLen,
    monitorHuntCollect_eq m start «end» needle hmax,
    monitorHuntMemory_eq m start «end» needle outLen⟩

theorem search_reports_one :
    monitorCompareCollect (fun _ => 0) 0xFFFF 0 5 1 =
        some ((differences (fun _ => 0) 0xFFFF 0 5).length,
          (differences (fun _ => 0) 0xFFFF 0 5).take 1) ∧
      monitorCompareMemory (fun _ => 0) 0xFFFF 0 5 40 =
        some ((differences (fun _ => 0) 0xFFFF 0 5).length,
          (listed "No differences\n" (differences (fun _ => 0) 0xFFFF 0 5)).take 39) ∧
      monitorHuntCollect (fun _ => 0) 0xFFFF 0 [0, 0] 1 =
        some ((occurrences (fun _ => 0) 0xFFFF 0 [0, 0]).length,
          (occurrences (fun _ => 0) 0xFFFF 0 [0, 0]).take 1) ∧
      monitorHuntMemory (fun _ => 0) 0xFFFF 0 [0, 0] 40 =
        some ((occurrences (fun _ => 0) 0xFFFF 0 [0, 0]).length,
          (listed "No matches\n" (occurrences (fun _ => 0) 0xFFFF 0 [0, 0])).take 39) :=
  search_reports (fun _ => 0) 0xFFFF 0 5 [0, 0] 1 40 (by decide)

/-- A list without room is not told how much there is. -/
theorem search_not_counted :
    ¬ ∀ (m : Memory) (start «end» dest : UInt16) (maxAddrs : Int),
      monitorCompareCollect m start «end» dest maxAddrs =
        some ((differences m start «end» dest).length,
          (differences m start «end» dest).take maxAddrs.toNat) := by
  intro h
  exact absurd (h (fun a => if a = 0 then 1 else 0) 0 0 1 0) (by decide)

end MonitorSearch
