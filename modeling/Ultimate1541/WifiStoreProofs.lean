import Mathlib

/-! # The networks the Wi-Fi module remembers

    The module keeps up to sixteen networks in its non-volatile store.  A network
    is spread over three keys, `sa0`, `pa0` and `ma0` for the first slot and so on,
    which are written one after the other; a slot is free when its `s` key is
    missing.  `wifi_store_ap` looks for the network, or for the first free slot,
    and takes the first slot when there is none; `wifi_find_password` walks over
    all slots and answers with the error of the last one it looked at. -/

namespace WifiStore

/-- The answers of the calls. -/
inductive EspErr where
  | ok
  | notFound
  | nvsNotFound
  | nvsInvalidLength
  | nvsOpen
  | nvsWrite
  deriving DecidableEq, Repr

/-- The keys of the `recent_aps` namespace: a letter, `'a' + index` and `'0'`, or
    `last`. -/
inductive Key where
  | slot (letter : Char) (index : Nat)
  | last
  deriving DecidableEq, Repr

/-- What a key holds. -/
inductive Value where
  | str (s : List UInt8)
  | u8 (n : UInt8)
  | i8 (n : Int)
  deriving DecidableEq, Repr

/-- The store: a map from keys to values. -/
abbrev Nvs : Type := Key → Option Value

/-- Which operations of one call fail: opening the store, and the writes by number,
    a commit among them. -/
structure Faults where
  opens : Bool
  fails : Nat → Bool

/-- `nvs_get_str` into a buffer of `len` bytes. -/
def nvsGetStr (nvs : Nvs) (key : Key) (len : Nat) : Except EspErr (List UInt8) :=
  match nvs key with
  | some (.str s) => if s.length + 1 ≤ len then .ok s else .error .nvsInvalidLength
  | _ => .error .nvsNotFound

/-- `nvs_set_str`, `nvs_set_u8` and `nvs_set_i8`, as write number `n` of a call. -/
def nvsSet (e : Faults) (n : Nat) (nvs : Nvs) (key : Key) (v : Value) : EspErr × Nvs :=
  if e.fails n then (.nvsWrite, nvs) else (.ok, Function.update nvs key (some v))

/-- `nvs_commit`. -/
def nvsCommit (e : Faults) (n : Nat) : EspErr := if e.fails n then .nvsWrite else .ok

/-- What a connect command says of a network.  The command holds the SSID in 33
    bytes and the password in 65 of its 68, terminators included. -/
structure Ap where
  ssid : List UInt8
  pw : List UInt8
  authMode : UInt8
  ssid_length : ssid.length ≤ 32
  pw_length : pw.length ≤ 64

/-- `store_password`, whose first write is number `n` of the call. -/
def storePassword (e : Faults) (n : Nat) (nvs : Nvs) (i : Nat) (ap : Ap) : EspErr × Nvs :=
  match nvsSet e n nvs (.slot 'p' i) (.str ap.pw) with
  | (.ok, nvs₁) =>
      match nvsSet e (n + 1) nvs₁ (.slot 'm' i) (.u8 ap.authMode) with
      | (.ok, nvs₂) => (nvsCommit e (n + 2), nvs₂)
      | (err, nvs₂) => (err, nvs₂)
  | (err, nvs₁) => (err, nvs₁)

/-- Both keys of a network, from its SSID on: the answer, `cmd->list_index` if it
    was set, and the store. -/
def storeNew (e : Faults) (nvs : Nvs) (i : Nat) (ap : Ap) : EspErr × Option Nat × Nvs :=
  match nvsSet e 0 nvs (.slot 's' i) (.str ap.ssid) with
  | (.ok, nvs₁) => ((storePassword e 1 nvs₁ i ap).1, some i, (storePassword e 1 nvs₁ i ap).2)
  | (err, nvs₁) => (err, none, nvs₁)

/-- The loop of `wifi_store_ap`, with `left` slots to go; behind the last one the
    first is overwritten. -/
def storeLoop (e : Faults) (nvs : Nvs) (ap : Ap) : Nat → Nat → EspErr × Option Nat × Nvs
  | 0, _ => storeNew e nvs 0 ap
  | left + 1, i =>
      match nvsGetStr nvs (.slot 's' i) 33 with
      | .error _ => storeNew e nvs i ap
      | .ok ssid =>
          if ssid = ap.ssid then
            ((storePassword e 0 nvs i ap).1, some i, (storePassword e 0 nvs i ap).2)
          else storeLoop e nvs ap left (i + 1)

/-- `wifi_store_ap`. -/
def wifiStoreAp (e : Faults) (nvs : Nvs) (ap : Ap) : EspErr × Option Nat × Nvs :=
  if e.opens then storeLoop e nvs ap 16 0 else (.nvsOpen, none, nvs)

/-- `wifi_set_last_ap`. -/
def wifiSetLastAp (e : Faults) (nvs : Nvs) (index : Int) : EspErr × Nvs :=
  if e.opens then nvsSet e 0 nvs .last (.i8 index) else (.nvsOpen, nvs)

/-- `wifi_clear_aps`. -/
def wifiClearAps (e : Faults) (nvs : Nvs) : EspErr × Nvs :=
  if e.opens then
    if e.fails 0 then (.nvsWrite, nvs) else (nvsCommit e 1, fun _ => none)
  else (.nvsOpen, nvs)

/-- What `wifi_find_password` leaves: its answer, the password if it was copied, and
    `*list_idx`. -/
structure Found where
  err : EspErr
  pw : Option (List UInt8)
  listIdx : Int
  deriving DecidableEq, Repr

/-- The loop of `wifi_find_password`, with `left` slots to go; `err` is the answer so
    far. -/
def findLoop (nvs : Nvs) (ssid : List UInt8) (maxlen : Nat) : Nat → Nat → EspErr → Found
  | 0, _, err => ⟨err, none, -1⟩
  | left + 1, i, _ =>
      match nvsGetStr nvs (.slot 's' i) 36 with
      | .error _ => findLoop nvs ssid maxlen left (i + 1) .notFound
      | .ok entry =>
          if ssid = entry then
            match nvsGetStr nvs (.slot 'p' i) maxlen with
            | .ok pw => ⟨.ok, some pw, i⟩
            | .error err => findLoop nvs ssid maxlen left (i + 1) err
          else findLoop nvs ssid maxlen left (i + 1) .ok

/-- `wifi_find_password`, on a store that opens. -/
def wifiFindPassword (nvs : Nvs) (ssid : List UInt8) (maxlen : Nat) : Found :=
  findLoop nvs ssid maxlen 16 0 .ok

/-! ## Runs -/

/-- The calls that change the store, each with what fails in it. -/
inductive Call where
  | storeAp (ap : Ap) (e : Faults)
  | setLastAp (index : Int) (e : Faults)
  | clearAps (e : Faults)

/-- The store, and for each network the password given in the last store of it that
    succeeded. -/
structure State where
  nvs : Nvs
  given : List UInt8 → Option (List UInt8)

/-- One call. -/
def State.run (s : State) : Call → State
  | .storeAp ap e =>
      match wifiStoreAp e s.nvs ap with
      | (.ok, _, nvs) => ⟨nvs, Function.update s.given ap.ssid (some ap.pw)⟩
      | (_, _, nvs) => ⟨nvs, s.given⟩
  | .setLastAp index e => ⟨(wifiSetLastAp e s.nvs index).2, s.given⟩
  | .clearAps e => ⟨(wifiClearAps e s.nvs).2, s.given⟩

/-- A slot holds the SSID. -/
def StoredIn (nvs : Nvs) (ssid : List UInt8) (i : Nat) : Prop :=
  i < 16 ∧ nvs (.slot 's' i) = some (.str ssid)

/-- No two slots hold the same network, and a network is found exactly if it is
    stored, with its slot and the password that was last given for it. -/
structure Right (s : State) : Prop where
  distinct : ∀ ssid i j, StoredIn s.nvs ssid i → StoredIn s.nvs ssid j → i = j
  found_iff : ∀ ssid, (wifiFindPassword s.nvs ssid 68).err = .ok ↔ ∃ i, StoredIn s.nvs ssid i
  found : ∀ ssid, (wifiFindPassword s.nvs ssid 68).err = .ok →
    ∃ i : Nat, (wifiFindPassword s.nvs ssid 68).listIdx = i ∧ StoredIn s.nvs ssid i ∧
      ∃ pw, (wifiFindPassword s.nvs ssid 68).pw = some pw ∧ s.given ssid = some pw

/-- The calls after which all is right.  A network is stored while it has a slot
    already or one of the first fifteen is free, and none of its writes fails but
    the very first, unless the password is the one that is stored; a call that does
    not get to its first write does no harm. -/
def Careful (nvs : Nvs) : Call → Prop
  | .storeAp ap e =>
      e.opens = false ∨ e.fails 0 = true ∨
      ((∃ i < 15, nvs (.slot 's' i) = none ∨ nvs (.slot 's' i) = some (.str ap.ssid)) ∧
        ((∃ i, StoredIn nvs ap.ssid i ∧
          ((∀ n < 3, e.fails n = false) ∨ nvs (.slot 'p' i) = some (.str ap.pw))) ∨
        ((∀ i, ¬ StoredIn nvs ap.ssid i) ∧ ∀ n < 4, e.fails n = false)))
  | _ => True

/-- The states that careful calls lead to from the erased store. -/
inductive Reached : State → Prop where
  | erased : Reached ⟨fun _ => none, fun _ => none⟩
  | call {s : State} (c : Call) : Reached s → Careful s.nvs c → Reached (s.run c)

/-! ## The slots in use -/

/-- The slots hold the networks of a list, in order, and the last slot is free. -/
structure Slots (nvs : Nvs) (known : List Ap) : Prop where
  ssid : ∀ i < 16, nvs (.slot 's' i) = known[i]?.map fun a => .str a.ssid
  pw : ∀ i < 16, nvs (.slot 'p' i) = known[i]?.map fun a => .str a.pw
  length : known.length ≤ 15
  nodup : (known.map Ap.ssid).Nodup

variable {nvs : Nvs} {known : List Ap} {e : Faults} {ap : Ap}

theorem nvsGetStr_of_str {key : Key} {t : List UInt8} (h : nvs key = some (.str t)) {len : Nat}
    (hlen : t.length + 1 ≤ len) : nvsGetStr nvs key len = .ok t := by
  rw [nvsGetStr, h]
  exact if_pos hlen

theorem nvsGetStr_of_none {key : Key} (h : nvs key = none) (len : Nat) :
    nvsGetStr nvs key len = .error .nvsNotFound := by
  rw [nvsGetStr, h]

namespace Slots

theorem at_some (h : Slots nvs known) {i : Nat} {a : Ap} (ha : known[i]? = some a) :
    i < 16 ∧ nvs (.slot 's' i) = some (.str a.ssid) ∧ nvs (.slot 'p' i) = some (.str a.pw) := by
  have hi := (List.getElem?_eq_some_iff.mp ha).1
  have hlen := h.length
  have hlt : i < 16 := by omega
  refine ⟨hlt, ?_, ?_⟩
  · rw [h.ssid i hlt, ha]
    rfl
  · rw [h.pw i hlt, ha]
    rfl

theorem at_none (h : Slots nvs known) {i : Nat} (hlt : i < 16) (hi : known.length ≤ i) :
    nvs (.slot 's' i) = none := by
  rw [h.ssid i hlt, List.getElem?_eq_none hi]
  rfl

/-- A network is in one slot only. -/
theorem inj (h : Slots nvs known) {i j : Nat} {a b : Ap} (ha : known[i]? = some a)
    (hb : known[j]? = some b) (hab : a.ssid = b.ssid) : i = j := by
  obtain ⟨hi, rfl⟩ := List.getElem?_eq_some_iff.mp ha
  obtain ⟨hj, rfl⟩ := List.getElem?_eq_some_iff.mp hb
  have heq : (known.map Ap.ssid).get ⟨i, by rwa [List.length_map]⟩ =
      (known.map Ap.ssid).get ⟨j, by rwa [List.length_map]⟩ := by
    rw [List.get_eq_getElem, List.get_eq_getElem, List.getElem_map, List.getElem_map, hab]
  exact (List.Nodup.getElem_inj_iff h.nodup).mp heq

theorem storedIn_iff (h : Slots nvs known) {ssid : List UInt8} {i : Nat} :
    StoredIn nvs ssid i ↔ ∃ a, known[i]? = some a ∧ a.ssid = ssid := by
  constructor
  · rintro ⟨hlt, hs⟩
    rw [h.ssid i hlt] at hs
    obtain ⟨a, ha, hv⟩ := Option.map_eq_some_iff.mp hs
    exact ⟨a, ha, Value.str.inj hv⟩
  · rintro ⟨a, ha, rfl⟩
    obtain ⟨hlt, hs, -⟩ := h.at_some ha
    exact ⟨hlt, hs⟩

/-! ## Looking a network up -/

/-- Past the slots in use the answer is `ESP_ERR_NOT_FOUND`, since a free slot is
    looked at last. -/
theorem findLoop_free (h : Slots nvs known) (ssid : List UInt8) (maxlen : Nat) :
    ∀ left i err, known.length ≤ i → i + (left + 1) = 16 →
      findLoop nvs ssid maxlen (left + 1) i err = ⟨.notFound, none, -1⟩ := by
  intro left
  induction left with
  | zero =>
      intro i err hi hleft
      rw [findLoop, nvsGetStr_of_none (h.at_none (by omega) hi)]
      rfl
  | succ left ih =>
      intro i err hi hleft
      rw [findLoop, nvsGetStr_of_none (h.at_none (by omega) hi)]
      exact ih (i + 1) _ (by omega) (by omega)

/-- In front of them the loop passes every other network. -/
theorem findLoop_skip (h : Slots nvs known) {ssid : List UInt8} {maxlen : Nat} {i : Nat} {a : Ap}
    (ha : known[i]? = some a) (hne : a.ssid ≠ ssid) (left : Nat) (err : EspErr) :
    findLoop nvs ssid maxlen (left + 1) i err = findLoop nvs ssid maxlen left (i + 1) .ok := by
  have hlen := a.ssid_length
  rw [findLoop, nvsGetStr_of_str (h.at_some ha).2.1 (by omega)]
  exact if_neg (Ne.symm hne)

theorem find_stored (h : Slots nvs known) {j : Nat} {a : Ap} (ha : known[j]? = some a) :
    ∀ left i err, i ≤ j → i + left = 16 →
      findLoop nvs a.ssid 68 left i err = ⟨.ok, some a.pw, j⟩ := by
  intro left
  have hj := (h.at_some ha).1
  induction left with
  | zero =>
      intro i err hi hleft
      omega
  | succ left ih =>
      intro i err hi hleft
      rcases Nat.lt_or_ge i j with hlt | hge
      · obtain ⟨b, hb⟩ : ∃ b, known[i]? = some b :=
          ⟨_, List.getElem?_eq_getElem (Nat.lt_trans hlt (List.getElem?_eq_some_iff.mp ha).1)⟩
        have hne : b.ssid ≠ a.ssid := fun heq => Nat.ne_of_lt hlt (h.inj hb ha heq)
        rw [h.findLoop_skip hb hne]
        exact ih (i + 1) _ hlt (by omega)
      · obtain rfl : i = j := Nat.le_antisymm hi hge
        have hssid := a.ssid_length
        have hpw := a.pw_length
        rw [findLoop, nvsGetStr_of_str (h.at_some ha).2.1 (by omega)]
        dsimp only
        rw [if_pos rfl, nvsGetStr_of_str (h.at_some ha).2.2 (by omega)]

theorem find_unknown (h : Slots nvs known) {ssid : List UInt8} (hno : ∀ a ∈ known, a.ssid ≠ ssid) :
    ∀ left i err, i ≤ known.length → i + left = 16 →
      findLoop nvs ssid 68 left i err = ⟨.notFound, none, -1⟩ := by
  intro left
  have hlen := h.length
  induction left with
  | zero =>
      intro i err hi hleft
      omega
  | succ left ih =>
      intro i err hi hleft
      rcases Nat.lt_or_ge i known.length with hlt | hge
      · have ha := List.getElem?_eq_getElem hlt
        rw [h.findLoop_skip ha (hno _ (List.getElem_mem hlt))]
        exact ih (i + 1) _ hlt (by omega)
      · exact h.findLoop_free ssid 68 left i err hge hleft

/-- With the slots in order, all is right. -/
theorem right (h : Slots nvs known) {given : List UInt8 → Option (List UInt8)}
    (hgiven : ∀ a ∈ known, given a.ssid = some a.pw) : Right ⟨nvs, given⟩ := by
  have hstored : ∀ ssid i, StoredIn nvs ssid i →
      ∃ a ∈ known, a.ssid = ssid ∧ wifiFindPassword nvs ssid 68 = ⟨.ok, some a.pw, i⟩ := by
    intro ssid i hi
    obtain ⟨a, ha, rfl⟩ := h.storedIn_iff.mp hi
    exact ⟨a, List.mem_of_getElem? ha, rfl, h.find_stored ha 16 0 .ok (Nat.zero_le i) rfl⟩
  have hiff : ∀ ssid, (wifiFindPassword nvs ssid 68).err = .ok ↔ ∃ i, StoredIn nvs ssid i := by
    intro ssid
    constructor
    · intro hok
      by_contra hno
      have hunknown : ∀ a ∈ known, a.ssid ≠ ssid := by
        rintro a ha rfl
        obtain ⟨i, hi⟩ := List.getElem?_of_mem ha
        exact hno ⟨i, h.storedIn_iff.mpr ⟨a, hi, rfl⟩⟩
      rw [wifiFindPassword, h.find_unknown hunknown 16 0 .ok (Nat.zero_le _) rfl] at hok
      exact nomatch hok
    · rintro ⟨i, hi⟩
      obtain ⟨a, -, -, hfind⟩ := hstored ssid i hi
      rw [hfind]
  constructor
  · intro ssid i j hi hj
    obtain ⟨a, ha, hssid⟩ := h.storedIn_iff.mp hi
    obtain ⟨b, hb, rfl⟩ := h.storedIn_iff.mp hj
    exact h.inj ha hb hssid
  · exact hiff
  · intro ssid hok
    obtain ⟨i, hi⟩ := (hiff ssid).mp hok
    obtain ⟨a, ha, rfl, hfind⟩ := hstored ssid i hi
    exact ⟨i, by rw [hfind], hi, a.pw, by rw [hfind], hgiven a ha⟩

/-! ## Storing a network -/

/-- A network that has a slot gets a new password there. -/
theorem set (h : Slots nvs known) {j : Nat} {a : Ap} (ha : known[j]? = some a)
    (hssid : ap.ssid = a.ssid) {nvs' : Nvs} (hs : ∀ i, nvs' (.slot 's' i) = nvs (.slot 's' i))
    (hp : ∀ i, nvs' (.slot 'p' i) = if i = j then some (.str ap.pw) else nvs (.slot 'p' i)) :
    Slots nvs' (known.set j ap) := by
  have hj := (List.getElem?_eq_some_iff.mp ha).1
  have hmap : (known.set j ap).map Ap.ssid = known.map Ap.ssid := by
    refine List.ext_getElem? fun i => ?_
    rw [List.getElem?_map, List.getElem?_map]
    by_cases hij : j = i
    · subst hij
      rw [List.getElem?_set_self hj, ha]
      exact congrArg some hssid
    · rw [List.getElem?_set_ne hij]
  refine ⟨fun i hi => ?_, fun i hi => ?_, ?_, ?_⟩
  · have hat := congrArg (fun l : List (List UInt8) => (l[i]?).map Value.str) hmap
    rw [List.getElem?_map, List.getElem?_map, Option.map_map, Option.map_map] at hat
    rw [hs, h.ssid i hi]
    exact hat.symm
  · rw [hp]
    by_cases hij : i = j
    · subst hij
      rw [if_pos rfl, List.getElem?_set_self hj]
      rfl
    · rw [if_neg hij, List.getElem?_set_ne (Ne.symm hij), h.pw i hi]
  · rw [List.length_set]
    exact h.length
  · rw [hmap]
    exact h.nodup

/-- A new network gets the first free slot. -/
theorem append (h : Slots nvs known) (hnew : ∀ a ∈ known, a.ssid ≠ ap.ssid)
    (hroom : known.length ≤ 14) {nvs' : Nvs}
    (hs : ∀ i, nvs' (.slot 's' i) =
      if i = known.length then some (.str ap.ssid) else nvs (.slot 's' i))
    (hp : ∀ i, nvs' (.slot 'p' i) =
      if i = known.length then some (.str ap.pw) else nvs (.slot 'p' i)) :
    Slots nvs' (known ++ [ap]) := by
  have hone : ∀ i, (known ++ [ap])[i]? = if i = known.length then some ap else known[i]? := by
    intro i
    rcases Nat.lt_trichotomy i known.length with hlt | heq | hgt
    · rw [if_neg (Nat.ne_of_lt hlt), List.getElem?_append_left hlt]
    · rw [if_pos heq, heq, List.getElem?_append_right (Nat.le_refl _), Nat.sub_self]
      rfl
    · rw [if_neg (Nat.ne_of_gt hgt), List.getElem?_eq_none (Nat.le_of_lt hgt),
        List.getElem?_eq_none (by rw [List.length_append, List.length_singleton]; omega)]
  refine ⟨fun i hi => ?_, fun i hi => ?_, ?_, ?_⟩
  · rw [hs, hone, h.ssid i hi]
    split <;> rfl
  · rw [hp, hone, h.pw i hi]
    split <;> rfl
  · rw [List.length_append, List.length_singleton]
    omega
  · rw [List.map_append, List.map_singleton, List.nodup_append]
    refine ⟨h.nodup, List.nodup_singleton _, ?_⟩
    intro x hx y hy
    obtain ⟨a, ha, rfl⟩ := List.mem_map.mp hx
    rw [List.mem_singleton.mp hy]
    exact hnew a ha

end Slots

/-- `store_password` touches the password and the mode of its slot only; the password
    is new unless the first write failed. -/
theorem storePassword_spec (e : Faults) (n : Nat) (nvs : Nvs) (j : Nat) (ap : Ap) :
    (∀ i, (storePassword e n nvs j ap).2 (.slot 's' i) = nvs (.slot 's' i)) ∧
    (∀ i, (storePassword e n nvs j ap).2 (.slot 'p' i) =
      if i = j ∧ e.fails n = false then some (.str ap.pw) else nvs (.slot 'p' i)) ∧
    ((storePassword e n nvs j ap).1 = .ok ↔
      e.fails n = false ∧ e.fails (n + 1) = false ∧ e.fails (n + 2) = false) := by
  have hupdate : ∀ i, Function.update nvs (.slot 'p' j) (some (Value.str ap.pw)) (.slot 'p' i) =
      if i = j then some (.str ap.pw) else nvs (.slot 'p' i) := by
    intro i
    by_cases hij : i = j
    · rw [if_pos hij, hij, Function.update_self]
    · rw [if_neg hij, Function.update_of_ne (fun heq => hij (Key.slot.inj heq).2)]
  have hs : ∀ (letter : Char) (v : Value) (m : Nvs) (i : Nat), letter ≠ 's' →
      Function.update m (.slot letter j) (some v) (.slot 's' i) = m (.slot 's' i) := by
    intro letter v m i hne
    exact Function.update_of_ne (fun heq => hne (Key.slot.inj heq).1.symm) ..
  have hm : ∀ (v : Value) (m : Nvs) (i : Nat),
      Function.update m (.slot 'm' j) (some v) (.slot 'p' i) = m (.slot 'p' i) := by
    intro v m i
    exact Function.update_of_ne (fun heq => absurd (Key.slot.inj heq).1 (by decide)) ..
  rw [storePassword, nvsSet]
  cases h0 : e.fails n with
  | true =>
      exact ⟨fun _ => rfl, fun _ => (if_neg fun h => Bool.false_ne_true h.2.symm).symm,
        ⟨(nomatch ·), fun h => (nomatch h.1)⟩⟩
  | false =>
      simp only [Bool.false_eq_true, if_false, and_true, true_and]
      rw [nvsSet]
      cases h1 : e.fails (n + 1) with
      | true =>
          exact ⟨fun i => hs 'p' (.str ap.pw) nvs i (by decide), hupdate,
            ⟨(nomatch ·), fun h => (nomatch h.1)⟩⟩
      | false =>
          simp only [Bool.false_eq_true, if_false, true_and]
          refine ⟨fun i => (hs 'm' (.u8 ap.authMode) _ i (by decide)).trans
              (hs 'p' (.str ap.pw) nvs i (by decide)),
            fun i => (hm (.u8 ap.authMode) _ i).trans (hupdate i), ?_⟩
          rw [nvsCommit]
          cases e.fails (n + 2) with
          | true => exact ⟨(nomatch ·), (nomatch ·)⟩
          | false => exact ⟨fun _ => rfl, fun _ => rfl⟩

/-- The loop stops at the slot of a network that is stored. -/
theorem storeLoop_stored (h : Slots nvs known) {j : Nat} {a : Ap} (ha : known[j]? = some a)
    (hssid : a.ssid = ap.ssid) :
    ∀ left i, i ≤ j → i + left = 16 → storeLoop e nvs ap left i =
      ((storePassword e 0 nvs j ap).1, some j, (storePassword e 0 nvs j ap).2) := by
  intro left
  have hj := (h.at_some ha).1
  induction left with
  | zero =>
      intro i hi hleft
      omega
  | succ left ih =>
      intro i hi hleft
      rcases Nat.lt_or_ge i j with hlt | hge
      · obtain ⟨b, hb⟩ : ∃ b, known[i]? = some b :=
          ⟨_, List.getElem?_eq_getElem (Nat.lt_trans hlt (List.getElem?_eq_some_iff.mp ha).1)⟩
        have hne : b.ssid ≠ ap.ssid := fun heq =>
          Nat.ne_of_lt hlt (h.inj hb ha (heq.trans hssid.symm))
        have hlen := b.ssid_length
        rw [storeLoop, nvsGetStr_of_str (h.at_some hb).2.1 (by omega)]
        dsimp only
        rw [if_neg hne]
        exact ih (i + 1) hlt (by omega)
      · obtain rfl : i = j := Nat.le_antisymm hi hge
        have hlen := a.ssid_length
        rw [storeLoop, nvsGetStr_of_str (h.at_some ha).2.1 (by omega)]
        exact if_pos hssid

/-- For a new network it stops at the first free slot. -/
theorem storeLoop_new (h : Slots nvs known) (hnew : ∀ a ∈ known, a.ssid ≠ ap.ssid) :
    ∀ left i, i ≤ known.length → i + left = 16 →
      storeLoop e nvs ap left i = storeNew e nvs known.length ap := by
  intro left
  have hlength := h.length
  induction left with
  | zero =>
      intro i hi hleft
      omega
  | succ left ih =>
      intro i hi hleft
      rcases Nat.lt_or_ge i known.length with hlt | hge
      · have ha := List.getElem?_eq_getElem hlt
        have hlen := known[i].ssid_length
        rw [storeLoop, nvsGetStr_of_str (h.at_some ha).2.1 (by omega)]
        dsimp only
        rw [if_neg (hnew _ (List.getElem_mem hlt))]
        exact ih (i + 1) hlt (by omega)
      · obtain rfl : i = known.length := Nat.le_antisymm hi hge
        rw [storeLoop, nvsGetStr_of_none (h.at_none (by omega) (Nat.le_refl _))]

/-! ## What a run preserves -/

/-- The slots are in order and hold the passwords that were last given. -/
def Kept (s : State) : Prop :=
  ∃ known, Slots s.nvs known ∧ ∀ a ∈ known, s.given a.ssid = some a.pw

theorem run_storeAp_of_eq {s : State} {ap : Ap} {e : Faults} {err : EspErr} {idx : Option Nat}
    {nvs : Nvs} (h : wifiStoreAp e s.nvs ap = (err, idx, nvs)) :
    s.run (.storeAp ap e) = ⟨nvs, if err = .ok then
      Function.update s.given ap.ssid (some ap.pw) else s.given⟩ := by
  rw [State.run, h]
  cases err <;> rfl

theorem Slots.congr {nvs' : Nvs} (h : Slots nvs known)
    (hs : ∀ i, nvs' (.slot 's' i) = nvs (.slot 's' i))
    (hp : ∀ i, nvs' (.slot 'p' i) = nvs (.slot 'p' i)) : Slots nvs' known :=
  ⟨fun i hi => (hs i).trans (h.ssid i hi), fun i hi => (hp i).trans (h.pw i hi), h.length, h.nodup⟩

/-- A network that is stored: the first write fails, all succeed, or the password is
    the same one. -/
theorem kept_stored {s : State} {known : List Ap} (h : Slots s.nvs known)
    (hgiven : ∀ a ∈ known, s.given a.ssid = some a.pw) {ap : Ap} {e : Faults} (hopens : e.opens = true)
    {j : Nat} {a : Ap} (ha : known[j]? = some a) (hssid : a.ssid = ap.ssid)
    (hfine : e.fails 0 = true ∨ (∀ n < 3, e.fails n = false) ∨ a.pw = ap.pw) :
    Kept (s.run (.storeAp ap e)) := by
  have hcall : wifiStoreAp e s.nvs ap =
      ((storePassword e 0 s.nvs j ap).1, some j, (storePassword e 0 s.nvs j ap).2) := by
    rw [wifiStoreAp, if_pos hopens]
    exact storeLoop_stored h ha hssid 16 0 (Nat.zero_le j) rfl
  rw [run_storeAp_of_eq hcall]
  obtain ⟨hs, hp, hok⟩ := storePassword_spec e 0 s.nvs j ap
  cases h0 : e.fails 0 with
  | true =>
      have hbad : (storePassword e 0 s.nvs j ap).1 ≠ .ok := fun heq =>
        Bool.false_ne_true ((hok.mp heq).1.symm.trans h0)
      refine ⟨known, h.congr hs fun i => ?_, ?_⟩
      · refine (hp i).trans ?_
        rw [h0, if_neg fun hc => Bool.false_ne_true hc.2.symm]
      · rw [if_neg hbad]
        exact hgiven
  | false =>
      refine ⟨known.set j ap, h.set ha hssid.symm hs fun i => ?_, fun b hb => ?_⟩
      · refine (hp i).trans ?_
        rw [h0]
        by_cases hij : i = j
        · rw [if_pos ⟨hij, rfl⟩, if_pos hij]
        · rw [if_neg (fun hc => hij hc.1), if_neg hij]
      · obtain ⟨i, hi⟩ := List.getElem?_of_mem hb
        by_cases hij : j = i
        · subst hij
          rw [List.getElem?_set_self (List.getElem?_eq_some_iff.mp ha).1] at hi
          cases hi
          by_cases herr : (storePassword e 0 s.nvs j ap).1 = .ok
          · rw [if_pos herr]
            exact Function.update_self ..
          · -- a later write failed, so the password is the one that was stored
            have hsame : a.pw = ap.pw := by
              rcases hfine with hfine | hfine | hfine
              · exact absurd (h0.symm.trans hfine) Bool.false_ne_true
              · exact absurd (hok.mpr ⟨hfine 0 (by decide), hfine 1 (by decide),
                  hfine 2 (by decide)⟩) herr
              · exact hfine
            rw [if_neg herr, ← hssid, ← hsame]
            exact hgiven a (List.mem_of_getElem? ha)
        · rw [List.getElem?_set_ne hij] at hi
          have hne : b.ssid ≠ ap.ssid := fun heq => hij (h.inj ha hi (hssid.trans heq.symm))
          have hb' := hgiven b (List.mem_of_getElem? hi)
          split
          · exact (Function.update_of_ne hne ..).trans hb'
          · exact hb'

/-- A new network, with a slot to spare: the first write fails or all succeed. -/
theorem kept_new {s : State} {known : List Ap} (h : Slots s.nvs known)
    (hgiven : ∀ a ∈ known, s.given a.ssid = some a.pw) {ap : Ap} {e : Faults} (hopens : e.opens = true)
    (hnew : ∀ a ∈ known, a.ssid ≠ ap.ssid)
    (hfine : e.fails 0 = true ∨ (known.length ≤ 14 ∧ ∀ n < 4, e.fails n = false)) :
    Kept (s.run (.storeAp ap e)) := by
  have hcall : wifiStoreAp e s.nvs ap = storeNew e s.nvs known.length ap := by
    rw [wifiStoreAp, if_pos hopens]
    exact storeLoop_new h hnew 16 0 (Nat.zero_le _) (by decide)
  cases h0 : e.fails 0 with
  | true =>
      have hnothing : storeNew e s.nvs known.length ap = (.nvsWrite, none, s.nvs) := by
        rw [storeNew, nvsSet, h0]
        rfl
      rw [run_storeAp_of_eq (hcall.trans hnothing)]
      exact ⟨known, h, hgiven⟩
  | false =>
      obtain ⟨hroom, hall⟩ := hfine.resolve_left (by rw [h0]; exact Bool.false_ne_true)
      obtain ⟨nvs₁, hnvs₁⟩ : ∃ m, m = Function.update s.nvs (.slot 's' known.length)
        (some (.str ap.ssid)) := ⟨_, rfl⟩
      have hnew₁ : storeNew e s.nvs known.length ap = ((storePassword e 1 nvs₁ known.length ap).1,
          some known.length, (storePassword e 1 nvs₁ known.length ap).2) := by
        rw [storeNew, nvsSet, h0, if_neg Bool.false_ne_true, hnvs₁]
      rw [run_storeAp_of_eq (hcall.trans hnew₁)]
      obtain ⟨hs, hp, hok⟩ := storePassword_spec e 1 nvs₁ known.length ap
      have herr := hok.mpr ⟨hall 1 (by decide), hall 2 (by decide), hall 3 (by decide)⟩
      refine ⟨known ++ [ap], h.append hnew hroom (fun i => ?_) (fun i => ?_), ?_⟩
      · refine (hs i).trans ?_
        by_cases hi : i = known.length
        · rw [if_pos hi, hi, hnvs₁, Function.update_self]
        · rw [if_neg hi, hnvs₁, Function.update_of_ne fun heq => hi (Key.slot.inj heq).2]
      · refine (hp i).trans ?_
        rw [hall 1 (by decide)]
        by_cases hi : i = known.length
        · rw [if_pos ⟨hi, rfl⟩, if_pos hi]
        · rw [if_neg (fun hc => hi hc.1), if_neg hi, hnvs₁, Function.update_of_ne]
          exact fun heq => absurd (Key.slot.inj heq).1 (by decide)
      · intro b hb
        rw [if_pos herr]
        rcases List.mem_append.mp hb with hb | hb
        · exact (Function.update_of_ne (hnew b hb) ..).trans (hgiven b hb)
        · rw [List.mem_singleton.mp hb]
          exact Function.update_self ..

theorem wifiSetLastAp_slot (e : Faults) (nvs : Nvs) (index : Int) (letter : Char) (i : Nat) :
    (wifiSetLastAp e nvs index).2 (.slot letter i) = nvs (.slot letter i) := by
  have hne : Key.slot letter i ≠ .last := by
    intro h
    cases h
  rw [wifiSetLastAp, nvsSet]
  split
  · split
    · rfl
    · exact Function.update_of_ne hne (some (Value.i8 index)) nvs
  · rfl

/-- A careful call keeps the slots in order. -/
theorem Kept.run {s : State} (h : Kept s) (c : Call) (hc : Careful s.nvs c) : Kept (s.run c) := by
  obtain ⟨known, hslots, hgiven⟩ := h
  cases c with
  | setLastAp index e =>
      exact ⟨known, hslots.congr (wifiSetLastAp_slot e s.nvs index 's')
        (wifiSetLastAp_slot e s.nvs index 'p'), hgiven⟩
  | clearAps e =>
      show Kept ⟨(wifiClearAps e s.nvs).2, s.given⟩
      rw [wifiClearAps]
      split
      · split
        · exact ⟨known, hslots, hgiven⟩
        · exact ⟨[], ⟨fun _ _ => rfl, fun _ _ => rfl, Nat.zero_le _, List.nodup_nil⟩,
            fun a ha => absurd ha List.not_mem_nil⟩
      · exact ⟨known, hslots, hgiven⟩
  | storeAp ap e =>
      cases hopens : e.opens with
      | false =>
          have hnothing : wifiStoreAp e s.nvs ap = (.nvsOpen, none, s.nvs) := by
            rw [wifiStoreAp, hopens]
            rfl
          rw [run_storeAp_of_eq hnothing]
          exact ⟨known, hslots, hgiven⟩
      | true =>
          have hc' : e.fails 0 = true ∨ _ := hc.resolve_left (by
            rw [hopens]
            exact Bool.false_ne_true ∘ Eq.symm)
          by_cases hstored : ∃ a ∈ known, a.ssid = ap.ssid
          · obtain ⟨a, hmem, hssid⟩ := hstored
            obtain ⟨j, hj⟩ := List.getElem?_of_mem hmem
            refine kept_stored hslots hgiven hopens hj hssid (hc'.imp_right fun hcase => ?_)
            rcases hcase.2 with ⟨i, hi, hfine⟩ | ⟨hno, -⟩
            · refine hfine.imp_right fun hsame => ?_
              obtain ⟨b, hb, hbssid⟩ := hslots.storedIn_iff.mp hi
              obtain rfl := hslots.inj hj hb (hssid.trans hbssid.symm)
              rw [(hslots.at_some hj).2.2] at hsame
              exact Value.str.inj (Option.some.inj hsame)
            · exact absurd (hslots.storedIn_iff.mpr ⟨a, hj, hssid⟩) (hno j)
          · have hnew : ∀ a ∈ known, a.ssid ≠ ap.ssid := fun a ha heq => hstored ⟨a, ha, heq⟩
            refine kept_new hslots hgiven hopens hnew (hc'.imp_right fun hcase => ?_)
            obtain ⟨⟨i, hi, hroom⟩, hrest⟩ := hcase
            have hno : ∀ i, ¬ StoredIn s.nvs ap.ssid i := by
              intro i hi
              obtain ⟨b, hb, hbssid⟩ := hslots.storedIn_iff.mp hi
              exact hnew b (List.mem_of_getElem? hb) hbssid
            constructor
            · rcases hroom with hfree | hhere
              · by_contra hlen
                have hget := List.getElem?_eq_getElem (show i < known.length by omega)
                rw [(hslots.at_some hget).2.1] at hfree
                exact nomatch hfree
              · exact absurd ⟨by omega, hhere⟩ (hno i)
            · rcases hrest with ⟨i, hi, -⟩ | ⟨-, hall⟩
              · exact absurd hi (hno i)
              · exact hall

/-- **WHAT THE MODULE REMEMBERS IS RIGHT** in every state that careful calls lead to. -/
theorem reached_right {s : State} (h : Reached s) : Right s := by
  have hkept : Kept s := by
    induction h with
    | erased =>
        exact ⟨[], ⟨fun _ _ => rfl, fun _ _ => rfl, Nat.zero_le _, List.nodup_nil⟩,
          fun a ha => absurd ha List.not_mem_nil⟩
    | call c _ hc ih => exact ih.run c hc
  obtain ⟨known, hslots, hgiven⟩ := hkept
  exact hslots.right hgiven

/-- No operation fails. -/
def noFaults : Faults := ⟨true, fun _ => false⟩

/-- A network with an SSID of one byte. -/
def network (n : UInt8) : Ap := ⟨[n], [n, n], 3, Nat.le_add_left 1 31, Nat.le_add_left 2 62⟩

/-- A network that was stored is found with its password. -/
theorem reached_right_oneNetwork :
    Right ((⟨fun _ => none, fun _ => none⟩ : State).run (.storeAp (network 65) noFaults)) :=
  reached_right (.call _ .erased (Or.inr (Or.inr ⟨⟨0, by decide, Or.inl rfl⟩,
    Or.inr ⟨fun i h => (nomatch h.2), fun _ _ => rfl⟩⟩)))

/-- Sixteen networks, stored one after the other. -/
def sixteen : State :=
  (List.range 16).foldl (fun s n => s.run (.storeAp (network (UInt8.ofNat (65 + n))) noFaults))
    ⟨fun _ => none, fun _ => none⟩

/-- With all slots in use, a network that was never stored is found as well. -/
theorem unknown_found :
    (wifiFindPassword sixteen.nvs [120] 68).err = .ok ∧ ∀ i, ¬ StoredIn sixteen.nvs [120] i := by
  refine ⟨by decide +kernel, ?_⟩
  rintro i ⟨hi, hs⟩
  have hall : ∀ i < 16, sixteen.nvs (.slot 's' i) ≠ some (.str [120]) := by decide +kernel
  exact hall i hi hs

end WifiStore
