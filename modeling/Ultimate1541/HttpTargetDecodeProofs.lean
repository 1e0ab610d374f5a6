import Ultimate1541.HttpTargetStreamProofs

/-! # What the encoding can express

    A count and a length are one byte, and an object that is read has each key once. A value
    that keeps to this is read back from its encoding, and no other value is ever read. -/

namespace HttpTarget

/-! ## Values that can be expressed -/

/-- No two keys are the same. -/
def Distinct (members : Members) : Prop := members.Pairwise fun a b => sameKey b.1 a.1 = false

mutual

/-- All texts, objects and arrays are short, and no object has two keys that are the same. -/
def Fits : Json → Prop
  | .int _ => True
  | .bool _ => True
  | .str t => t.bytes.length < 256
  | .obj members => members.length < 256 ∧ Distinct members ∧ FitsMembers members
  | .list members => members.length < 256 ∧ FitsList members

def FitsMembers : List (CString × Json) → Prop
  | [] => True
  | (key, value) :: members => key.bytes.length < 256 ∧ Fits value ∧ FitsMembers members

def FitsList : List Json → Prop
  | [] => True
  | value :: members => Fits value ∧ FitsList members

end

mutual

/-- How many bytes a value takes. -/
def size : Json → Nat
  | .int _ => 5
  | .bool _ => 2
  | .str t => 2 + t.bytes.length
  | .obj members => 2 + sizeMembers members
  | .list members => 2 + sizeList members

def sizeMembers : List (CString × Json) → Nat
  | [] => 0
  | (key, value) :: members => 1 + key.bytes.length + size value + sizeMembers members

def sizeList : List Json → Nat
  | [] => 0
  | value :: members => size value + sizeList members

end

mutual

theorem length_encode : ∀ j : Json, (encode j).length = size j
  | .int _ => rfl
  | .bool _ => rfl
  | .str t => by
      rw [encode, size, List.length_cons, List.length_cons]
      omega
  | .obj members => by
      rw [encode, size, List.length_cons, List.length_cons, length_encodeMembers members]
      omega
  | .list members => by
      rw [encode, size, List.length_cons, List.length_cons, length_encodeList members]
      omega

theorem length_encodeMembers : ∀ members : List (CString × Json), (encodeMembers members).length = sizeMembers members
  | [] => rfl
  | (key, value) :: members => by
      rw [encodeMembers, sizeMembers, List.length_append, List.length_cons, List.length_append, length_encode value,
        length_encodeMembers members]
      omega

theorem length_encodeList : ∀ members : List Json, (encodeList members).length = sizeList members
  | [] => rfl
  | value :: members => by
      rw [encodeList, sizeList, List.length_append, length_encode value, length_encodeList members]

end

theorem fitsMembers_iff (members : Members) :
    FitsMembers members ↔ ∀ m ∈ members, m.1.bytes.length < 256 ∧ Fits m.2 := by
  induction members with
  | nil => exact ⟨nofun, fun _ => trivial⟩
  | cons m members ih =>
      obtain ⟨key, value⟩ := m
      rw [FitsMembers, ih, List.forall_mem_cons, and_assoc]

theorem fitsList_iff (members : List Json) : FitsList members ↔ ∀ v ∈ members, Fits v := by
  induction members with
  | nil => exact ⟨nofun, fun _ => trivial⟩
  | cons v members ih => rw [FitsList, ih, List.forall_mem_cons]

/-! ## Reading back -/

theorem countByte_toNat {n : Nat} (hn : n < 256) : (countByte n).toNat = n := by
  rw [countByte, UInt8.toNat_ofNat']
  exact Nat.mod_eq_of_lt hn

theorem ofBuffer_bytes (t : CString) : CString.ofBuffer t.bytes = t := by
  obtain ⟨bytes, hnul⟩ := t
  have hall : bytes.takeWhile (· ≠ 0) = bytes := by
    rw [List.takeWhile_eq_self_iff]
    intro b hb
    simpa only [decide_eq_true_eq] using fun h : b = 0 => hnul (h ▸ hb)
  simp only [CString.ofBuffer, hall]

/-- A text that is short is read back behind its length. -/
theorem take_text {t : CString} (ht : t.bytes.length < 256) (rest : List UInt8) :
    ¬(t.bytes ++ rest).length < (countByte t.bytes.length).toNat ∧
      CString.ofBuffer ((t.bytes ++ rest).take (countByte t.bytes.length).toNat) = t ∧
      (t.bytes ++ rest).drop (countByte t.bytes.length).toNat = rest := by
  rw [countByte_toNat ht, List.take_left, List.drop_left, ofBuffer_bytes]
  refine ⟨?_, rfl, rfl⟩
  rw [List.length_append]
  omega

theorem readInteger_intByte (v : Int32) (rest : List UInt8) :
    readInteger (intByte v 0 :: intByte v 1 :: intByte v 2 :: intByte v 3 :: rest) = .ok (.int v, rest) := by
  have hlt := v.toUInt32.toNat_lt
  have hsum : (intByte v 0).toNat + 256 * (intByte v 1).toNat + 65536 * (intByte v 2).toNat +
      16777216 * (intByte v 3).toNat = v.toUInt32.toNat := by
    simp only [intByte, UInt8.toNat_ofNat']
    omega
  rw [readInteger, hsum, UInt32.ofNat_toNat]
  rfl

/-- Under a new key a value is only added. -/
theorem put_new {members : Members} {key : CString} {value : Json}
    (h : ∀ m ∈ members, sameKey key m.1 = false) : put members key value = members ++ [(key, value)] := by
  rw [put, List.eraseP_of_forall_not]
  intro m hm
  rw [h m hm]
  exact Bool.false_ne_true

mutual

/-- A value that can be expressed is read back from its encoding. -/
theorem readNested_encode : ∀ (j : Json) (depth : Nat) (rest : List UInt8), Fits j → size j ≤ depth →
    readNested depth (encode j ++ rest) = .ok (j, rest)
  | .int v, depth, rest, _, hdepth => by
      obtain ⟨depth, rfl⟩ : ∃ d, depth = d + 1 := ⟨depth - 1, by rw [size] at hdepth; omega⟩
      exact readInteger_intByte v rest
  | .bool b, depth, rest, _, hdepth => by
      obtain ⟨depth, rfl⟩ : ∃ d, depth = d + 1 := ⟨depth - 1, by rw [size] at hdepth; omega⟩
      cases b <;> rfl
  | .str t, depth, rest, hfits, hdepth => by
      obtain ⟨depth, rfl⟩ : ∃ d, depth = d + 1 := ⟨depth - 1, by rw [size] at hdepth; omega⟩
      obtain ⟨hroom, htake, hdrop⟩ := take_text hfits rest
      have hread : readString (countByte t.bytes.length :: (t.bytes ++ rest)) = .ok (.str t, rest) := by
        rw [readString, if_neg hroom, htake, hdrop]
      exact hread
  | .obj members, depth, rest, hfits, hdepth => by
      obtain ⟨hcount, hdistinct, hmembers⟩ := hfits
      obtain ⟨depth, rfl⟩ : ∃ d, depth = d + 1 := ⟨depth - 1, by rw [size] at hdepth; omega⟩
      have hread : readObject (readNested depth) (countByte members.length :: (encodeMembers members ++ rest)) =
          .ok (.obj members, rest) := by
        rw [readObject, countByte_toNat hcount,
          readMembers_encode members [] depth rest hmembers hdistinct (by rw [size] at hdepth; omega)]
        rfl
      exact hread
  | .list members, depth, rest, hfits, hdepth => by
      obtain ⟨hcount, hmembers⟩ := hfits
      obtain ⟨depth, rfl⟩ : ∃ d, depth = d + 1 := ⟨depth - 1, by rw [size] at hdepth; omega⟩
      have hread : readArray (readNested depth) (countByte members.length :: (encodeList members ++ rest)) =
          .ok (.list members, rest) := by
        rw [readArray, countByte_toNat hcount,
          readEntries_encode members [] depth rest hmembers (by rw [size] at hdepth; omega)]
        rfl
      exact hread

/-- The members that are read are put behind those that were. -/
theorem readMembers_encode : ∀ (members before : List (CString × Json)) (depth : Nat) (rest : List UInt8),
    FitsMembers members → Distinct (before ++ members) → sizeMembers members ≤ depth →
    readMembers (readNested depth) members.length before (encodeMembers members ++ rest) = .ok (before ++ members, rest)
  | [], before, depth, rest, _, _, _ => by
      rw [List.append_nil]
      rfl
  | (key, value) :: members, before, depth, rest, hfits, hdistinct, hdepth => by
      obtain ⟨hkey, hvalue, hmembers⟩ := hfits
      rw [sizeMembers] at hdepth
      obtain ⟨hroom, htake, hdrop⟩ := take_text hkey (encode value ++ encodeMembers members ++ rest)
      have hreadKey : readEncodedKey (encodeMembers ((key, value) :: members) ++ rest) =
          .ok (key, encode value ++ (encodeMembers members ++ rest)) := by
        rw [encodeMembers, List.cons_append, List.cons_append, List.append_assoc, readEncodedKey, if_neg hroom, htake,
          hdrop, List.append_assoc]
      have hnew : ∀ m ∈ before, sameKey key m.1 = false :=
        fun m hm => (List.pairwise_append.mp hdistinct).2.2 m hm (key, value) List.mem_cons_self
      have hrest := readMembers_encode members (before ++ [(key, value)]) depth rest hmembers
        (by rwa [List.append_assoc]) (by omega)
      simp only [List.length_cons, readMembers, hreadKey,
        readNested_encode value depth (encodeMembers members ++ rest) hvalue (by omega), put_new hnew]
      rw [hrest, List.append_assoc]
      rfl

theorem readEntries_encode : ∀ (members before : List Json) (depth : Nat) (rest : List UInt8),
    FitsList members → sizeList members ≤ depth →
    readEntries (readNested depth) members.length before (encodeList members ++ rest) = .ok (before ++ members, rest)
  | [], before, depth, rest, _, _ => by
      rw [List.append_nil]
      rfl
  | value :: members, before, depth, rest, hfits, hdepth => by
      obtain ⟨hvalue, hmembers⟩ := hfits
      rw [sizeList] at hdepth
      have hrest := readEntries_encode members (before ++ [value]) depth rest hmembers (by omega)
      rw [encodeList, List.append_assoc]
      simp only [List.length_cons, readEntries,
        readNested_encode value depth (encodeList members ++ rest) hvalue (by omega)]
      rw [hrest, List.append_assoc]
      rfl

end

/-! ## What is read can be expressed -/

theorem sameKey_trans {k a b : CString} (ha : sameKey k a = true) (hb : sameKey k b = true) : sameKey b a = true := by
  simp only [sameKey, decide_eq_true_eq] at ha hb ⊢
  rw [← hb, ha]

/-- Without the member that had the key, no member has it. -/
theorem not_sameKey_of_eraseP {members : Members} (h : Distinct members) (key : CString) :
    ∀ m ∈ members.eraseP (fun m => sameKey key m.1), sameKey key m.1 = false := by
  induction members with
  | nil => exact nofun
  | cons a members ih =>
      obtain ⟨ha, hmembers⟩ := List.pairwise_cons.mp h
      intro m hm
      cases hsame : sameKey key a.1 with
      | true =>
          rw [List.eraseP_cons_of_pos (p := fun m : CString × Json => sameKey key m.1) hsame] at hm
          cases hsame' : sameKey key m.1 with
          | false => rfl
          | true =>
              have hboth := sameKey_trans hsame hsame'
              rw [ha m hm] at hboth
              exact absurd hboth Bool.false_ne_true
      | false =>
          rw [List.eraseP_cons_of_neg (p := fun m : CString × Json => sameKey key m.1) (by rw [hsame]; exact Bool.false_ne_true)] at hm
          rcases List.mem_cons.mp hm with rfl | hm
          · exact hsame
          · exact ih hmembers m hm

/-- An object stays as it is to be when a value is put into it. -/
theorem put_fits {members : Members} {key : CString} {value : Json} (hdistinct : Distinct members)
    (hmembers : FitsMembers members) (hkey : key.bytes.length < 256) (hvalue : Fits value) :
    Distinct (put members key value) ∧ FitsMembers (put members key value) ∧
      (put members key value).length ≤ members.length + 1 := by
  have hsub : (members.eraseP (fun m => sameKey key m.1)).Sublist members := List.eraseP_sublist
  refine ⟨?_, ?_, ?_⟩
  · refine List.pairwise_append.mpr ⟨hdistinct.sublist hsub, List.pairwise_singleton _ _, ?_⟩
    intro m hm n hn
    rw [List.mem_singleton.mp hn]
    exact not_sameKey_of_eraseP hdistinct key m hm
  · rw [fitsMembers_iff] at hmembers ⊢
    intro m hm
    rcases List.mem_append.mp hm with hm | hm
    · exact hmembers m (hsub.subset hm)
    · rw [List.mem_singleton.mp hm]
      exact ⟨hkey, hvalue⟩
  · have hlength := hsub.length_le
    rw [put, List.length_append, List.length_singleton]
    omega

/-- A text that is read is shorter than a length can say. -/
theorem ofBuffer_length (text : List UInt8) {n : UInt8} (h : text.length = n.toNat) :
    (CString.ofBuffer text).bytes.length < 256 := by
  have hlt := n.toNat_lt
  have hle : (CString.ofBuffer text).bytes.length ≤ text.length := (List.takeWhile_prefix _).length_le
  omega

/-- Whatever is read can be expressed. -/
def ReadsFitting (read : List UInt8 → Result Json) : Prop := ∀ data j rest, read data = .ok (j, rest) → Fits j

section Read

variable {read : List UInt8 → Result Json}

theorem readEncodedKey_ok {data rest : List UInt8} {key : CString} (h : readEncodedKey data = .ok (key, rest)) :
    ∃ (n : UInt8) (text : List UInt8), data = n :: (text ++ rest) ∧ text.length = n.toNat ∧ key = .ofBuffer text := by
  cases data with
  | nil => exact nomatch h
  | cons n data =>
      rw [readEncodedKey] at h
      by_cases hshort : data.length < n.toNat
      · rw [if_pos hshort] at h
        exact nomatch h
      · rw [if_neg hshort] at h
        obtain ⟨rfl, rfl⟩ := Prod.mk.inj (Except.ok.inj h)
        refine ⟨n, data.take n.toNat, by rw [List.take_append_drop], ?_, rfl⟩
        rw [List.length_take]
        omega

/-- One entry of an object. -/
theorem readMembers_succ {n : Nat} {obj members : Members} {data rest : List UInt8}
    (h : readMembers read (n + 1) obj data = .ok (members, rest)) :
    ∃ key data' value data'', readEncodedKey data = .ok (key, data') ∧ read data' = .ok (value, data'') ∧
      readMembers read n (put obj key value) data'' = .ok (members, rest) := by
  rw [readMembers] at h
  cases hkey : readEncodedKey data with
  | error e =>
      rw [hkey] at h
      exact nomatch h
  | ok r =>
      obtain ⟨key, data'⟩ := r
      simp only [hkey] at h
      cases hvalue : read data' with
      | error e =>
          rw [hvalue] at h
          exact nomatch h
      | ok r =>
          obtain ⟨value, data''⟩ := r
          simp only [hvalue] at h
          exact ⟨key, data', value, data'', rfl, hvalue, h⟩

/-- One entry of an array. -/
theorem readEntries_succ {n : Nat} {list members : List Json} {data rest : List UInt8}
    (h : readEntries read (n + 1) list data = .ok (members, rest)) :
    ∃ value data', read data = .ok (value, data') ∧
      readEntries read n (list ++ [value]) data' = .ok (members, rest) := by
  rw [readEntries] at h
  cases hvalue : read data with
  | error e =>
      rw [hvalue] at h
      exact nomatch h
  | ok r =>
      obtain ⟨value, data'⟩ := r
      simp only [hvalue] at h
      exact ⟨value, data', rfl, h⟩

theorem readMembers_fits (hread : ReadsFitting read) {n : Nat} {obj members : Members} {data rest : List UInt8}
    (hdistinct : Distinct obj) (hobj : FitsMembers obj) (h : readMembers read n obj data = .ok (members, rest)) :
    members.length ≤ obj.length + n ∧ Distinct members ∧ FitsMembers members := by
  induction n generalizing obj data with
  | zero =>
      obtain ⟨rfl, -⟩ := Prod.mk.inj (Except.ok.inj h)
      exact ⟨Nat.le_refl _, hdistinct, hobj⟩
  | succ n ih =>
      obtain ⟨key, data', value, data'', hkey, hvalue, h⟩ := readMembers_succ h
      obtain ⟨len, text, -, htext, rfl⟩ := readEncodedKey_ok hkey
      obtain ⟨hdistinct', hobj', hlength⟩ :=
        put_fits hdistinct hobj (ofBuffer_length text htext) (hread _ _ _ hvalue)
      obtain ⟨hmore, hrest⟩ := ih hdistinct' hobj' h
      exact ⟨by omega, hrest⟩

theorem readEntries_fits (hread : ReadsFitting read) {n : Nat} {list members : List Json} {data rest : List UInt8}
    (hlist : FitsList list) (h : readEntries read n list data = .ok (members, rest)) :
    members.length = list.length + n ∧ FitsList members := by
  induction n generalizing list data with
  | zero =>
      obtain ⟨rfl, -⟩ := Prod.mk.inj (Except.ok.inj h)
      exact ⟨rfl, hlist⟩
  | succ n ih =>
      obtain ⟨value, data', hvalue, h⟩ := readEntries_succ h
      have hlist' : FitsList (list ++ [value]) := by
        rw [fitsList_iff] at hlist ⊢
        intro v hv
        rcases List.mem_append.mp hv with hv | hv
        · exact hlist v hv
        · rw [List.mem_singleton.mp hv]
          exact hread _ _ _ hvalue
      obtain ⟨hlength, hrest⟩ := ih hlist' h
      rw [List.length_append, List.length_singleton] at hlength
      exact ⟨by omega, hrest⟩

theorem readString_ok {data rest : List UInt8} {j : Json} (h : readString data = .ok (j, rest)) :
    ∃ (n : UInt8) (text : List UInt8), data = n :: (text ++ rest) ∧ text.length = n.toNat ∧ j = .str (.ofBuffer text) := by
  cases data with
  | nil => exact nomatch h
  | cons n data =>
      rw [readString] at h
      by_cases hshort : data.length < n.toNat
      · rw [if_pos hshort] at h
        exact nomatch h
      · rw [if_neg hshort] at h
        obtain ⟨rfl, rfl⟩ := Prod.mk.inj (Except.ok.inj h)
        refine ⟨n, data.take n.toNat, by rw [List.take_append_drop], ?_, rfl⟩
        rw [List.length_take]
        omega

theorem readObject_ok {data rest : List UInt8} {j : Json} (h : readObject read data = .ok (j, rest)) :
    ∃ (n : UInt8) (data' : List UInt8) (members : Members), data = n :: data' ∧
      readMembers read n.toNat [] data' = .ok (members, rest) ∧ j = .obj members := by
  cases data with
  | nil => exact nomatch h
  | cons n data =>
      rw [readObject] at h
      cases hmembers : readMembers read n.toNat [] data with
      | error e =>
          rw [hmembers] at h
          exact nomatch h
      | ok r =>
          rw [hmembers] at h
          obtain ⟨rfl, rfl⟩ := Prod.mk.inj (Except.ok.inj h)
          exact ⟨n, data, r.1, rfl, hmembers, rfl⟩

theorem readArray_ok {data rest : List UInt8} {j : Json} (h : readArray read data = .ok (j, rest)) :
    ∃ (n : UInt8) (data' : List UInt8) (members : List Json), data = n :: data' ∧
      readEntries read n.toNat [] data' = .ok (members, rest) ∧ j = .list members := by
  cases data with
  | nil => exact nomatch h
  | cons n data =>
      rw [readArray] at h
      cases hmembers : readEntries read n.toNat [] data with
      | error e =>
          rw [hmembers] at h
          exact nomatch h
      | ok r =>
          rw [hmembers] at h
          obtain ⟨rfl, rfl⟩ := Prod.mk.inj (Except.ok.inj h)
          exact ⟨n, data, r.1, rfl, hmembers, rfl⟩

theorem readString_fits : ReadsFitting readString := by
  intro data j rest h
  obtain ⟨n, text, -, htext, rfl⟩ := readString_ok h
  exact ofBuffer_length text htext

theorem readInteger_fits : ReadsFitting readInteger := by
  intro data j rest h
  match data with
  | b0 :: b1 :: b2 :: b3 :: data =>
      obtain ⟨rfl, -⟩ := Prod.mk.inj (Except.ok.inj h)
      exact trivial

theorem readBool_fits : ReadsFitting readBool := by
  intro data j rest h
  match data with
  | b :: data =>
      obtain ⟨rfl, -⟩ := Prod.mk.inj (Except.ok.inj h)
      exact trivial

theorem readObject_fits (hread : ReadsFitting read) : ReadsFitting (readObject read) := by
  intro data j rest h
  obtain ⟨n, data', members, -, hmembers, rfl⟩ := readObject_ok h
  have hlt := n.toNat_lt
  obtain ⟨hlength, hdistinct, hfits⟩ := readMembers_fits hread List.Pairwise.nil trivial hmembers
  rw [List.length_nil] at hlength
  exact ⟨by omega, hdistinct, hfits⟩

theorem readArray_fits (hread : ReadsFitting read) : ReadsFitting (readArray read) := by
  intro data j rest h
  obtain ⟨n, data', members, -, hmembers, rfl⟩ := readArray_ok h
  have hlt := n.toNat_lt
  obtain ⟨hlength, hfits⟩ := readEntries_fits hread (by exact trivial) hmembers
  rw [List.length_nil] at hlength
  exact ⟨by omega, hfits⟩

/-- A value is read by the reader of its type. -/
theorem readValue_cases (type : UInt8) (read : List UInt8 → Result Json) :
    (∀ data, readValue read (type :: data) = readInteger data) ∨
      (∀ data, readValue read (type :: data) = readBool data) ∨
      (∀ data, readValue read (type :: data) = readString data) ∨
      (type = 0x04 ∧ ∀ data, readValue read (type :: data) = readObject read data) ∨
      (type = 0x05 ∧ ∀ data, readValue read (type :: data) = readArray read data) ∨
      ∀ data, readValue read (type :: data) = .error "400 BAD FORMAT: UNKNOWN DATA TYPE" := by
  by_cases h1 : type = 0x01
  · exact .inl fun data => by rw [readValue, if_pos h1]
  by_cases h2 : type = 0x02
  · exact .inr <| .inl fun data => by rw [readValue, if_neg h1, if_pos h2]
  by_cases h3 : type = 0x03
  · exact .inr <| .inr <| .inl fun data => by rw [readValue, if_neg h1, if_neg h2, if_pos h3]
  by_cases h4 : type = 0x04
  · exact .inr <| .inr <| .inr <| .inl ⟨h4, fun data => by rw [readValue, if_neg h1, if_neg h2, if_neg h3, if_pos h4]⟩
  by_cases h5 : type = 0x05
  · exact .inr <| .inr <| .inr <| .inr <| .inl
      ⟨h5, fun data => by rw [readValue, if_neg h1, if_neg h2, if_neg h3, if_neg h4, if_pos h5]⟩
  · exact .inr <| .inr <| .inr <| .inr <| .inr fun data => by
      rw [readValue, if_neg h1, if_neg h2, if_neg h3, if_neg h4, if_neg h5]

theorem readValue_fits (hread : ReadsFitting read) : ReadsFitting (readValue read) := by
  intro data j rest h
  cases data with
  | nil => exact nomatch h
  | cons type data =>
      rcases readValue_cases type read with hr | hr | hr | ⟨-, hr⟩ | ⟨-, hr⟩ | hr <;> rw [hr] at h
      · exact readInteger_fits _ _ _ h
      · exact readBool_fits _ _ _ h
      · exact readString_fits _ _ _ h
      · exact readObject_fits hread _ _ _ h
      · exact readArray_fits hread _ _ _ h
      · exact nomatch h

end Read

theorem readNested_fits (depth : Nat) : ReadsFitting (readNested depth) := by
  induction depth with
  | zero =>
      intro data j rest h
      exact nomatch h
  | succ depth ih => exact readValue_fits ih

/-! ## Readers -/

/-- What a reader reads has at least a byte. -/
def Consumes (read : List UInt8 → Result Json) : Prop := ∀ data j rest, read data = .ok (j, rest) → rest.length < data.length

/-- A reader does not look behind what it reads. -/
def Local (read : List UInt8 → Result Json) : Prop :=
  ∀ data j rest, read data = .ok (j, rest) → ∀ more, read (data ++ more) = .ok (j, rest ++ more)

/-- Two readers do the same on short data. -/
def AgreeBelow (length : Nat) (read read' : List UInt8 → Result Json) : Prop :=
  ∀ data, data.length < length → read data = read' data

section Readers

variable {read read' : List UInt8 → Result Json}

theorem readEncodedKey_append {data rest : List UInt8} {key : CString} (h : readEncodedKey data = .ok (key, rest))
    (more : List UInt8) : readEncodedKey (data ++ more) = .ok (key, rest ++ more) := by
  obtain ⟨n, text, rfl, htext, rfl⟩ := readEncodedKey_ok h
  have hroom : ¬(text ++ rest ++ more).length < n.toNat := by
    rw [List.length_append, List.length_append]
    omega
  rw [List.cons_append, readEncodedKey, if_neg hroom, ← htext, List.append_assoc, List.take_left, List.drop_left]

theorem readEncodedKey_length {data rest : List UInt8} {key : CString} (h : readEncodedKey data = .ok (key, rest)) :
    rest.length < data.length := by
  obtain ⟨n, text, rfl, -, -⟩ := readEncodedKey_ok h
  rw [List.length_cons, List.length_append]
  omega

theorem readMembers_length (hread : Consumes read) {n : Nat} {obj members : Members} {data rest : List UInt8}
    (h : readMembers read n obj data = .ok (members, rest)) : rest.length ≤ data.length := by
  induction n generalizing obj data with
  | zero =>
      obtain ⟨-, rfl⟩ := Prod.mk.inj (Except.ok.inj h)
      exact Nat.le_refl _
  | succ n ih =>
      obtain ⟨key, data', value, data'', hkey, hvalue, h⟩ := readMembers_succ h
      have h1 := readEncodedKey_length hkey
      have h2 := hread _ _ _ hvalue
      have h3 := ih h
      omega

theorem readEntries_length (hread : Consumes read) {n : Nat} {list members : List Json} {data rest : List UInt8}
    (h : readEntries read n list data = .ok (members, rest)) : rest.length ≤ data.length := by
  induction n generalizing list data with
  | zero =>
      obtain ⟨-, rfl⟩ := Prod.mk.inj (Except.ok.inj h)
      exact Nat.le_refl _
  | succ n ih =>
      obtain ⟨value, data', hvalue, h⟩ := readEntries_succ h
      have h1 := hread _ _ _ hvalue
      have h2 := ih h
      omega

theorem readMembers_append (hread : Local read) {n : Nat} {obj members : Members} {data rest : List UInt8}
    (h : readMembers read n obj data = .ok (members, rest)) (more : List UInt8) :
    readMembers read n obj (data ++ more) = .ok (members, rest ++ more) := by
  induction n generalizing obj data with
  | zero =>
      obtain ⟨rfl, rfl⟩ := Prod.mk.inj (Except.ok.inj h)
      rfl
  | succ n ih =>
      obtain ⟨key, data', value, data'', hkey, hvalue, h⟩ := readMembers_succ h
      simp only [readMembers, readEncodedKey_append hkey more, hread _ _ _ hvalue more]
      exact ih h

theorem readEntries_append (hread : Local read) {n : Nat} {list members : List Json} {data rest : List UInt8}
    (h : readEntries read n list data = .ok (members, rest)) (more : List UInt8) :
    readEntries read n list (data ++ more) = .ok (members, rest ++ more) := by
  induction n generalizing list data with
  | zero =>
      obtain ⟨rfl, rfl⟩ := Prod.mk.inj (Except.ok.inj h)
      rfl
  | succ n ih =>
      obtain ⟨value, data', hvalue, h⟩ := readEntries_succ h
      simp only [readEntries, hread _ _ _ hvalue more]
      exact ih h

theorem readMembers_agree {length : Nat} (hread : Consumes read) (hagree : AgreeBelow length read read') {n : Nat}
    {obj : Members} {data : List UInt8} (hdata : data.length < length) :
    readMembers read n obj data = readMembers read' n obj data := by
  induction n generalizing obj data with
  | zero => rfl
  | succ n ih =>
      rw [readMembers, readMembers]
      cases hkey : readEncodedKey data with
      | error e => rfl
      | ok r =>
          obtain ⟨key, data'⟩ := r
          have h1 := readEncodedKey_length hkey
          simp only
          rw [← hagree data' (by omega)]
          cases hvalue : read data' with
          | error e => rfl
          | ok r =>
              obtain ⟨value, data''⟩ := r
              have h2 := hread _ _ _ hvalue
              exact ih (by omega)

theorem readEntries_agree {length : Nat} (hread : Consumes read) (hagree : AgreeBelow length read read') {n : Nat}
    {list : List Json} {data : List UInt8} (hdata : data.length < length) :
    readEntries read n list data = readEntries read' n list data := by
  induction n generalizing list data with
  | zero => rfl
  | succ n ih =>
      rw [readEntries, readEntries, ← hagree data hdata]
      cases hvalue : read data with
      | error e => rfl
      | ok r =>
          obtain ⟨value, data'⟩ := r
          have h1 := hread _ _ _ hvalue
          exact ih (by omega)

theorem readValue_consumes (hread : Consumes read) : Consumes (readValue read) := by
  intro data j rest h
  cases data with
  | nil => exact nomatch h
  | cons type data =>
      rw [List.length_cons]
      rcases readValue_cases type read with hr | hr | hr | ⟨-, hr⟩ | ⟨-, hr⟩ | hr <;> rw [hr] at h
      · match data with
        | b0 :: b1 :: b2 :: b3 :: data =>
            obtain ⟨-, rfl⟩ := Prod.mk.inj (Except.ok.inj h)
            simp only [List.length_cons]
            omega
      · match data with
        | b :: data =>
            obtain ⟨-, rfl⟩ := Prod.mk.inj (Except.ok.inj h)
            simp only [List.length_cons]
            omega
      · obtain ⟨n, text, rfl, -, -⟩ := readString_ok h
        rw [List.length_cons, List.length_append]
        omega
      · obtain ⟨n, data', members, rfl, hmembers, -⟩ := readObject_ok h
        have hlength := readMembers_length hread hmembers
        rw [List.length_cons]
        omega
      · obtain ⟨n, data', members, rfl, hmembers, -⟩ := readArray_ok h
        have hlength := readEntries_length hread hmembers
        rw [List.length_cons]
        omega
      · exact nomatch h

theorem readValue_local (hread : Local read) : Local (readValue read) := by
  intro data j rest h more
  cases data with
  | nil => exact nomatch h
  | cons type data =>
      rw [List.cons_append]
      rcases readValue_cases type read with hr | hr | hr | ⟨-, hr⟩ | ⟨-, hr⟩ | hr <;> rw [hr] at h ⊢
      · match data with
        | b0 :: b1 :: b2 :: b3 :: data =>
            obtain ⟨rfl, rfl⟩ := Prod.mk.inj (Except.ok.inj h)
            rfl
      · match data with
        | b :: data =>
            obtain ⟨rfl, rfl⟩ := Prod.mk.inj (Except.ok.inj h)
            rfl
      · obtain ⟨n, text, rfl, htext, rfl⟩ := readString_ok h
        have hroom : ¬(text ++ rest ++ more).length < n.toNat := by
          rw [List.length_append, List.length_append]
          omega
        rw [List.cons_append, readString, if_neg hroom, ← htext, List.append_assoc, List.take_left, List.drop_left]
      · obtain ⟨n, data', members, rfl, hmembers, rfl⟩ := readObject_ok h
        rw [List.cons_append, readObject, readMembers_append hread hmembers more]
        rfl
      · obtain ⟨n, data', members, rfl, hmembers, rfl⟩ := readArray_ok h
        rw [List.cons_append, readArray, readEntries_append hread hmembers more]
        rfl
      · exact nomatch h

/-- Of a value only the values in it are read by the given reader, and these are shorter. -/
theorem readValue_agree {length : Nat} (hread : Consumes read) (hagree : AgreeBelow length read read') :
    AgreeBelow (length + 1) (readValue read) (readValue read') := by
  intro data hdata
  cases data with
  | nil => rfl
  | cons type data =>
      rw [List.length_cons] at hdata
      have hobject : readObject read data = readObject read' data := by
        cases data with
        | nil => rfl
        | cons n data =>
            rw [List.length_cons] at hdata
            rw [readObject, readObject, readMembers_agree hread hagree (by omega)]
      have harray : readArray read data = readArray read' data := by
        cases data with
        | nil => rfl
        | cons n data =>
            rw [List.length_cons] at hdata
            rw [readArray, readArray, readEntries_agree hread hagree (by omega)]
      rw [readValue, readValue, hobject, harray]

end Readers

theorem readNested_consumes (depth : Nat) : Consumes (readNested depth) := by
  induction depth with
  | zero =>
      intro data j rest h
      exact nomatch h
  | succ depth ih => exact readValue_consumes ih

theorem readNested_local (depth : Nat) : Local (readNested depth) := by
  induction depth with
  | zero =>
      intro data j rest h
      exact nomatch h
  | succ depth ih => exact readValue_local ih

theorem readNested_agree (depth : Nat) : AgreeBelow depth (readNested depth) (readNested (depth + 1)) := by
  induction depth with
  | zero => exact fun data hdata => absurd hdata (Nat.not_lt_zero _)
  | succ depth ih => exact readValue_agree (readNested_consumes depth) ih

/-- How deep a value may be nested does not matter beyond the length of the data. -/
theorem readNested_eq {data : List UInt8} {depth : Nat} (hdepth : data.length < depth) :
    readNested depth data = readEncodedValue data := by
  induction depth with
  | zero => exact absurd hdepth (Nat.not_lt_zero _)
  | succ depth ih =>
      rcases Nat.lt_succ_iff_lt_or_eq.mp hdepth with hdepth | rfl
      · exact (readNested_agree depth data hdepth).symm.trans (ih hdepth)
      · rfl

/-! ## The query -/

/-- What a query of a value delivers is read back as this value, all of it, if and only if the
    encoding can express the value and takes no more than a block. -/
theorem bodyQuery_reads (j : Json) :
    readEncodedValue (bodyQuery j) = .ok (j, []) ↔ Fits j ∧ size j ≤ maxReplyLen := by
  rw [bodyQuery_eq]
  have hencode : Fits j → readEncodedValue (encode j) = .ok (j, []) := by
    intro hfits
    have hread := readNested_encode j ((encode j).length + 1) [] hfits (by rw [length_encode]; omega)
    rwa [List.append_nil] at hread
  constructor
  · intro h
    have hfits : Fits j := readNested_fits _ _ _ _ h
    refine ⟨hfits, ?_⟩
    -- what is behind the first block is not read
    have hdepth : ((encode j).take maxReplyLen).length < (encode j).length + 1 :=
      Nat.lt_succ_of_le ((List.take_prefix _ _).length_le)
    have hwhole := readNested_local _ _ _ _ ((readNested_eq hdepth).trans h) ((encode j).drop maxReplyLen)
    rw [List.take_append_drop, List.nil_append] at hwhole
    have hrest := (Prod.mk.inj (Except.ok.inj (hwhole.symm.trans (hencode hfits)))).2
    rw [← length_encode]
    exact List.drop_eq_nil_iff.mp hrest
  · rintro ⟨hfits, hsize⟩
    rw [List.take_of_length_le (by rwa [length_encode])]
    exact hencode hfits

/-- An array of 180 integers takes 902 bytes: the last of them are not delivered, and what is
    delivered is not read back. -/
theorem bodyQuery_cut :
    readEncodedValue (bodyQuery (.list (List.replicate 180 (.int 7)))) ≠ .ok (.list (List.replicate 180 (.int 7)), []) := by
  intro h
  have herror : (readEncodedValue (bodyQuery (.list (List.replicate 180 (.int 7))))).isOk = false := by decide +kernel
  rw [h] at herror
  exact nomatch herror

end HttpTarget
