import Ultimate1541.RecoveryImageProofs

/-! # What an update image is

    The records of an image, the head with the fingerprint before them, and which sequences
    of bytes are images.  The reader accepts these and no others (`finish_ok_iff`), and
    writes the data of the records, all of it inside the window. -/

namespace RecoveryImage

/-- A record: its head, as many bytes as the head says, and padding to a multiple of four. -/
structure Record where
  head : List UInt8
  data : List UInt8
  padding : List UInt8
  length_head : head.length = 12
  length_data : data.length = (le32 (head.drop 4)).toNat
  length_padding : padding.length = (4 - data.length % 4) % 4

namespace Record

def load (r : Record) : UInt32 := le32 r.head

def length (r : Record) : UInt32 := le32 (r.head.drop 4)

def start (r : Record) : UInt32 := le32 (r.head.drop 8)

def bytes (r : Record) : List UInt8 := r.head ++ r.data ++ r.padding

/-- The bytes of the record are loaded inside the window. -/
def Inside (loadMin loadMax : UInt32) (r : Record) : Prop :=
  r.length = 0 ∨ loadMin ≤ r.load ∧ r.load.toNat + r.length.toNat ≤ loadMax.toNat

end Record

/-- The head of 36 bytes. -/
structure Preheader where
  bytes : List UInt8
  length_bytes : bytes.length = 36
  marked : le32 bytes = fingerprint

/-- The text that says for which family the image is. -/
def Preheader.family (p : Preheader) : List UInt8 := (p.bytes.drop 4).take 16

/-- The last start address that is not zero. -/
def lastStart (start : UInt32) (rs : List Record) : UInt32 :=
  rs.foldl (fun s r => if r.start ≠ 0 then r.start else s) start

/-- The parts of an image: a head of a fitting family or none, and records inside the
    window, the last start address of which is there too. -/
structure Parts (loadMin loadMax : UInt32) (family : Option (List UInt8)) (data front : List UInt8)
    (rs : List Record) : Prop where
  bytes : data = front ++ (rs.map Record.bytes).flatten
  head : front = [] ∨ ∃ p : Preheader, front = p.bytes ∧ fits family p.family = true
  nonempty : rs ≠ []
  inside : ∀ r ∈ rs, r.Inside loadMin loadMax
  start : lastStart 0 rs ≠ 0
  start_inside : loadMin ≤ lastStart 0 rs ∧ lastStart 0 rs < loadMax

/-- A sequence that starts with the fingerprint has a head. -/
def Marked (data : List UInt8) : Prop := 4 ≤ data.length ∧ le32 data = fingerprint

/-- An image.  One that starts with the fingerprint starts with a head. -/
def IsImage (loadMin loadMax : UInt32) (family : Option (List UInt8)) (data : List UInt8) : Prop :=
  ∃ front rs, Parts loadMin loadMax family data front rs ∧ (front = [] → ¬ Marked data)

/-! ## Windows -/

theorem inWindow_iff {loadMin loadMax addr length : UInt32} :
    inWindow loadMin loadMax addr length = true ↔
      loadMin ≤ addr ∧ addr < loadMax ∧ addr.toNat + length.toNat ≤ loadMax.toNat := by
  rw [inWindow, Bool.and_eq_true, Bool.and_eq_true, decide_eq_true_iff, decide_eq_true_iff,
    decide_eq_true_iff, and_assoc]
  refine and_congr_right fun _ => and_congr_right fun hlt => ?_
  have hle : addr ≤ loadMax := UInt32.le_of_lt hlt
  rw [UInt32.le_iff_toNat_le, UInt32.toNat_sub_of_le _ _ hle]
  have hnat := UInt32.lt_iff_toNat_lt.mp hlt
  omega

/-- A record with data is inside the window when `in_window` says so. -/
theorem Record.inside_iff {r : Record} {loadMin loadMax : UInt32} :
    r.Inside loadMin loadMax ↔
      ¬ (r.length ≠ 0 ∧ inWindow loadMin loadMax r.load r.length = false) := by
  rw [Record.Inside, not_and, Bool.not_eq_false, inWindow_iff]
  constructor
  · rintro (hz | ⟨hlow, hhigh⟩) hne
    · exact absurd hz hne
    · have hpos : 0 < r.length.toNat := Nat.pos_of_ne_zero fun hz => hne (UInt32.toNat_inj.mp hz)
      exact ⟨hlow, UInt32.lt_iff_toNat_lt.mpr (by omega), hhigh⟩
  · intro h
    by_cases hz : r.length = 0
    · exact Or.inl hz
    · exact Or.inr ⟨(h hz).1, (h hz).2.2⟩

namespace Image

variable {κ : Type} {write : κ → UInt32 → List UInt8 → Bool × κ} {im : Image κ}

/-! ## Heads, data and padding as a whole -/

/-- A piece that is done in one turn. -/
theorem after_of_turn (hw : Steady write) (hv : im.Valid) {data : List UInt8} (hne : data ≠ [])
    {o : Option Result} {im' : Image κ} (h : turn write im data = (o, im', [])) :
    im.after write data = im' := by
  obtain ⟨b, bs, rfl⟩ := List.exists_cons_of_ne_nil hne
  have hfeed := feed_eq hw hv (b :: bs)
  rw [feed, List.length_cons, feedLoop, h] at hfeed
  cases o with
  | none =>
      dsimp only at hfeed
      rw [feedLoop, Option.some.injEq, Prod.mk.injEq] at hfeed
      exact hfeed.2.symm
  | some error =>
      rw [Option.some.injEq, Prod.mk.injEq] at hfeed
      exact hfeed.2.symm

/-- The reader waits for a record. -/
structure Ready (im : Image κ) : Prop where
  valid : im.Valid
  state : im.state = .header
  collected : im.collected = 0

theorem le32_append {p : List UInt8} (h : 4 ≤ p.length) (q : List UInt8) : le32 (p ++ q) = le32 p := by
  have hget : ∀ i < 4, (p ++ q).getD i 0 = p.getD i 0 := fun i hi => by
    rw [List.getD_eq_getElem?_getD, List.getD_eq_getElem?_getD, List.getElem?_append_left (by omega)]
  rw [le32, le32, hget 0 (by decide), hget 1 (by decide), hget 2 (by decide), hget 3 (by decide)]

/-- The head of a record has been read. -/
theorem collect_head (h : im.Ready) {head : List UInt8} (hlen : head.length = 12) :
    im.collect 12 head =
      (true, { im with header := head ++ im.header.drop 12, collected := 12 }, []) := by
  have hn : min (12 - im.collected) head.length = 12 := by
    rw [h.collected, hlen]
    rfl
  rw [collect, hn, h.collected, List.take_of_length_le (Nat.le_of_eq hlen),
    List.drop_of_length_le (Nat.le_of_eq hlen)]
  rfl

/-- What follows the head of a record. -/
theorem after_head (hw : Steady write) (h : im.Ready) {head : List UInt8} (hlen : head.length = 12) :
    im.after write head =
      if le32 (head.drop 4) ≠ 0 ∧
          inWindow im.loadMin im.loadMax (le32 head) (le32 (head.drop 4)) = false then
        { im with
          header := head ++ im.header.drop 12
          collected := 0
          state := .failed
          error := .errRange }
      else { im with
        header := head ++ im.header.drop 12
        collected := 0
        start := if le32 (head.drop 8) ≠ 0 then le32 (head.drop 8) else im.start
        records := im.records + 1
        addr := le32 head
        remaining := le32 (head.drop 4)
        pad := (4 - (le32 (head.drop 4) &&& 3)) &&& 3
        state := if le32 (head.drop 4) ≠ 0 then .data else .header } := by
  have hne : head ≠ [] := by
    rw [← List.length_pos_iff, hlen]
    decide
  have hload : le32 (head ++ im.header.drop 12) = le32 head := le32_append (by omega) _
  have hlength : le32 ((head ++ im.header.drop 12).drop 4) = le32 (head.drop 4) := by
    rw [List.drop_append_of_le_length (by omega), le32_append (by rw [List.length_drop]; omega)]
  have hstart : le32 ((head ++ im.header.drop 12).drop 8) = le32 (head.drop 8) := by
    rw [List.drop_append_of_le_length (by omega), le32_append (by rw [List.length_drop]; omega)]
  have hturn := @turn_header _ write _ h.state head
  rw [collect_head h hlen, headerTurn, if_pos rfl] at hturn
  rw [after_of_turn hw h.valid hne hturn, startRecord]
  dsimp only
  rw [hload, hlength, hstart]
  split <;> rfl

/-- A head has been read in part. -/
theorem after_part (hw : Steady write) (hv : im.Valid) {need : Nat}
    {next : Bool × Image κ × List UInt8 → Turn κ} {data : List UInt8}
    (hturn : turn write im data = next (im.collect need data))
    (hmore : ∀ c : Bool × Image κ × List UInt8, c.1 = false → next c = (none, c.2.1, c.2.2))
    (hshort : im.collected + data.length < need) :
    (im.after write data).state = im.state ∧
      (im.after write data).collected = im.collected + data.length := by
  by_cases hne : data = []
  · subst hne
    exact ⟨rfl, rfl⟩
  · have hn : min (need - im.collected) data.length = data.length := by omega
    have hnot : (im.collect need data).1 = false := by
      rw [collect, hn]
      exact decide_eq_false (Nat.ne_of_lt hshort)
    have hrest : (im.collect need data).2.2 = [] := by
      rw [collect, hn]
      exact List.drop_length
    rw [hmore _ hnot, hrest] at hturn
    rw [after_of_turn hw hv hne hturn]
    refine ⟨rfl, ?_⟩
    rw [collect, hn]

theorem after_detect_part (hw : Steady write) (hv : im.Valid) (hs : im.state = .detect)
    {data : List UInt8} (hshort : im.collected + data.length < 4) :
    (im.after write data).state = .detect :=
  (after_part hw hv (turn_detect hs data) (fun c hc => by
    rw [detectTurn, hc, if_neg Bool.false_ne_true]) hshort).1.trans hs

theorem after_preheader_part (hw : Steady write) (hv : im.Valid) (hs : im.state = .preheader)
    {data : List UInt8} (hshort : im.collected + data.length < 36) :
    (im.after write data).state = .preheader :=
  (after_part hw hv (turn_preheader hs data) (fun c hc => by
    rw [preheaderTurn, hc, if_neg Bool.false_ne_true]) hshort).1.trans hs

theorem after_head_part (hw : Steady write) (hv : im.Valid) (hs : im.state = .header)
    {data : List UInt8} (hshort : im.collected + data.length < 12) :
    (im.after write data).collected = im.collected + data.length :=
  (after_part hw hv (turn_header hs data) (fun c hc => by
    rw [headerTurn, hc, if_neg Bool.false_ne_true]) hshort).2

/-- The data of a record has been read, or some of it. -/
theorem after_data (hw : Steady write) (hv : im.Valid) (hs : im.state = .data) {data : List UInt8}
    (hne : data ≠ []) (hle : data.length ≤ im.remaining.toNat) :
    im.after write data = { im with
      ctx := (write im.ctx im.addr data).2
      addr := im.addr + UInt32.ofNat data.length
      remaining := im.remaining - UInt32.ofNat data.length
      loaded := im.loaded + UInt32.ofNat data.length
      state :=
        if im.remaining - UInt32.ofNat data.length = 0 then if im.pad ≠ 0 then .pad else .header
        else .data } := by
  have hturn := @turn_data _ write _ hs data
  rw [dataTurn_eq hw im data (Nat.min_eq_left hle), List.take_length, List.drop_length] at hturn
  exact after_of_turn hw hv hne hturn

theorem after_pad (hw : Steady write) (hv : im.Valid) (hs : im.state = .pad) {data : List UInt8}
    (hne : data ≠ []) (hle : data.length ≤ im.pad.toNat) :
    im.after write data = { im with
      pad := im.pad - UInt32.ofNat data.length
      state := if im.pad - UInt32.ofNat data.length = 0 then .header else .pad } := by
  have hturn := @turn_pad _ write _ hs data
  rw [padTurn, Nat.min_eq_left hle, List.drop_length] at hturn
  exact after_of_turn hw hv hne hturn

/-! ## Records -/

theorem pad_toNat (l : UInt32) : ((4 - (l &&& 3)) &&& 3).toNat = (4 - l.toNat % 4) % 4 := by
  have hmask : ∀ x : UInt32, (x &&& 3).toNat = x.toNat % 4 := fun x => by
    rw [UInt32.toNat_and]
    exact Nat.and_two_pow_sub_one_eq_mod x.toNat 2
  have hle : (l &&& 3) ≤ 4 := by
    rw [UInt32.le_iff_toNat_le, hmask]
    show l.toNat % 4 ≤ 4
    omega
  rw [hmask, UInt32.toNat_sub_of_le _ _ hle, hmask]
  rfl

theorem sub_length {n : UInt32} {k : Nat} (h : k = n.toNat) : n - UInt32.ofNat k = 0 := by
  rw [h, UInt32.ofNat_toNat, UInt32.sub_self]

/-- The reader after a record. -/
def loadRecord (write : κ → UInt32 → List UInt8 → Bool × κ) (im : Image κ) (r : Record) : Image κ :=
  { im with
    header := r.head ++ im.header.drop 12
    collected := 0
    start := if r.start ≠ 0 then r.start else im.start
    records := im.records + 1
    addr := r.load + r.length
    remaining := 0
    pad := 0
    loaded := im.loaded + r.length
    ctx := if r.data = [] then im.ctx else (write im.ctx r.load r.data).2
    state := .header }

theorem Ready.loadRecord (h : im.Ready) (r : Record) : (loadRecord write im r).Ready := by
  refine ⟨⟨?_, nofun, nofun, fun _ => Nat.zero_lt_succ 11, nofun, nofun⟩, rfl, rfl⟩
  show (r.head ++ im.header.drop 12).length = 36
  rw [List.length_append, List.length_drop, r.length_head, h.valid.header]

/-- A record inside the window is loaded. -/
theorem after_record (hw : Steady write) (h : im.Ready) {r : Record}
    (hin : r.Inside im.loadMin im.loadMax) : im.after write r.bytes = loadRecord write im r := by
  have hhead : im.after write r.head = { im with
      header := r.head ++ im.header.drop 12
      collected := 0
      start := if r.start ≠ 0 then r.start else im.start
      records := im.records + 1
      addr := r.load
      remaining := r.length
      pad := (4 - (r.length &&& 3)) &&& 3
      state := if r.length ≠ 0 then .data else .header } :=
    (after_head hw h r.length_head).trans (if_neg (Record.inside_iff.mp hin))
  have hdata : r.data.length = r.length.toNat := r.length_data
  have hpadding := r.length_padding
  rw [Record.bytes, after_append, after_append]
  by_cases hz : r.length = 0
  · -- A record without data.
    have hnil : r.data = [] := List.eq_nil_of_length_eq_zero (by rw [hdata, hz]; rfl)
    have hpad : r.padding = [] := List.eq_nil_of_length_eq_zero (by rw [hpadding, hnil]; rfl)
    rw [hnil, hpad, after_nil, after_nil, hhead, Image.loadRecord, if_pos hnil, hz, UInt32.add_zero,
      UInt32.add_zero, if_neg (fun hne => hne rfl)]
    rfl
  · have hne : r.data ≠ [] := by
      rw [← List.length_pos_iff, hdata]
      exact Nat.pos_of_ne_zero fun h0 => hz (UInt32.toNat_inj.mp h0)
    have hvalid := h.valid.after hw r.head
    rw [hhead, if_pos hz] at hvalid ⊢
    rw [after_data hw hvalid rfl hne (Nat.le_of_eq hdata)]
    have hall := sub_length hdata
    have hlength : UInt32.ofNat r.data.length = r.length := by rw [hdata, UInt32.ofNat_toNat]
    dsimp only
    rw [if_pos hall, hall, hlength]
    have hcount : r.padding.length = ((4 - (r.length &&& 3)) &&& 3).toNat := by
      rw [pad_toNat, hpadding, hdata]
    by_cases hpad : (4 - (r.length &&& 3)) &&& 3 = (0 : UInt32)
    · -- No padding.
      have hnil : r.padding = [] := List.eq_nil_of_length_eq_zero (by rw [hcount, hpad]; rfl)
      rw [hnil, after_nil, if_neg (fun hn => hn hpad), Image.loadRecord, if_neg hne, hpad]
    · have hpne : r.padding ≠ [] := by
        rw [← List.length_pos_iff, hcount]
        exact Nat.pos_of_ne_zero fun h0 => hpad (UInt32.toNat_inj.mp h0)
      have hvalid' := hvalid.after hw r.data
      rw [after_data hw hvalid rfl hne (Nat.le_of_eq hdata)] at hvalid'
      dsimp only at hvalid'
      rw [if_pos hall, hall, hlength, if_pos hpad] at hvalid'
      rw [if_pos hpad, after_pad hw hvalid' rfl hpne (Nat.le_of_eq hcount)]
      dsimp only
      rw [sub_length hcount, if_pos rfl, Image.loadRecord, if_neg hne]

theorem sub_ne_zero_of_lt {n : UInt32} {k : Nat} (h : k < n.toNat) : n - UInt32.ofNat k ≠ 0 := by
  intro hz
  have hsmall : k % 2 ^ 32 = k := Nat.mod_eq_of_lt (Nat.lt_trans h n.toNat_lt)
  have hle : UInt32.ofNat k ≤ n := by
    rw [UInt32.le_iff_toNat_le, UInt32.toNat_ofNat', hsmall]
    exact Nat.le_of_lt h
  have hnat := UInt32.toNat_sub_of_le _ _ hle
  rw [hz, UInt32.toNat_ofNat', hsmall] at hnat
  exact absurd hnat (by show ¬ 0 = _; omega)

theorem after_data_part (hw : Steady write) (hv : im.Valid) (hs : im.state = .data)
    {data : List UInt8} (hshort : data.length < im.remaining.toNat) :
    (im.after write data).state = .data := by
  by_cases hne : data = []
  · rw [hne]
    exact hs
  · rw [after_data hw hv hs hne (Nat.le_of_lt hshort)]
    exact if_neg (sub_ne_zero_of_lt hshort)

theorem after_pad_part (hw : Steady write) (hv : im.Valid) (hs : im.state = .pad)
    {data : List UInt8} (hshort : data.length < im.pad.toNat) :
    (im.after write data).state = .pad := by
  by_cases hne : data = []
  · rw [hne]
    exact hs
  · rw [after_pad hw hv hs hne (Nat.le_of_lt hshort)]
    exact if_neg (sub_ne_zero_of_lt hshort)

/-- When the reader waits for a record again, the bytes start with one. -/
theorem record_of_after (hw : Steady write) (h : im.Ready) {data : List UInt8} (hne : data ≠ [])
    (hstate : (im.after write data).state = .header) (hnone : (im.after write data).collected = 0) :
    ∃ (r : Record) (rest : List UInt8), data = r.bytes ++ rest ∧ r.Inside im.loadMin im.loadMax := by
  have hpos : 0 < data.length := List.length_pos_iff.mpr hne
  -- The head is there.
  have hhead : 12 ≤ data.length := by
    by_contra hshort
    have hpart := @after_head_part _ _ _ hw h.valid h.state data (by rw [h.collected]; omega)
    rw [hnone, h.collected] at hpart
    omega
  generalize hh : data.take 12 = head
  generalize ht : data.drop 12 = tail
  have hlen : head.length = 12 := by
    rw [← hh, List.length_take]
    omega
  have hdata : data = head ++ tail := by rw [← hh, ← ht, List.take_append_drop]
  rw [hdata, after_append] at hstate hnone
  have hafter := after_head hw h hlen
  by_cases hout : le32 (head.drop 4) ≠ 0 ∧
      inWindow im.loadMin im.loadMax (le32 head) (le32 (head.drop 4)) = false
  · -- It is outside the window.
    rw [if_pos hout] at hafter
    rw [after_failed (by rw [hafter])] at hstate
    rw [hafter] at hstate
    exact nomatch hstate
  rw [if_neg hout] at hafter
  have hvalid := h.valid.after hw head
  generalize im.after write head = im₁ at hafter hvalid hstate hnone
  have hremaining : im₁.remaining = le32 (head.drop 4) := by rw [hafter]
  have hpadding : im₁.pad.toNat = (4 - (le32 (head.drop 4)).toNat % 4) % 4 := by
    rw [hafter]
    exact pad_toNat _
  have hstate₁ : im₁.state = if le32 (head.drop 4) ≠ 0 then .data else .header := by rw [hafter]
  generalize hlength : le32 (head.drop 4) = length at hremaining hpadding hstate₁
  -- The data and the padding are there.
  have htail : length.toNat ≤ tail.length := by
    by_contra hshort
    have hz : length ≠ 0 := fun hz => hshort (by rw [hz]; exact Nat.zero_le _)
    rw [if_pos hz] at hstate₁
    rw [after_data_part hw hvalid hstate₁ (by rw [hremaining]; omega)] at hstate
    exact nomatch hstate
  generalize hd : tail.take length.toNat = body
  generalize hr : tail.drop length.toNat = rest
  have hbody : body.length = length.toNat := by
    rw [← hd, List.length_take]
    omega
  have htl : tail = body ++ rest := by rw [← hd, ← hr, List.take_append_drop]
  have hrest : (4 - length.toNat % 4) % 4 ≤ rest.length := by
    by_contra hshort
    have hz : length ≠ 0 := fun hz => hshort (by rw [hz]; exact Nat.zero_le _)
    have hbne : body ≠ [] := by
      rw [← List.length_pos_iff, hbody]
      exact Nat.pos_of_ne_zero fun h0 => hz (UInt32.toNat_inj.mp h0)
    rw [if_pos hz] at hstate₁
    have hread := after_data hw hvalid hstate₁ hbne (by rw [hremaining]; omega)
    have hpad : im₁.pad ≠ 0 := fun h0 => by
      rw [h0] at hpadding
      have hzero : (0 : UInt32).toNat = 0 := rfl
      omega
    rw [if_pos (sub_length (by rw [hbody, hremaining])), if_pos hpad] at hread
    have hvalid' := hvalid.after hw body
    rw [htl, after_append, after_pad_part hw hvalid' (by rw [hread])
      (by rw [hread]; show rest.length < im₁.pad.toNat; omega)] at hstate
    exact nomatch hstate
  refine ⟨⟨head, body, rest.take ((4 - length.toNat % 4) % 4), hlen, by rw [hbody, hlength], ?_⟩,
    rest.drop ((4 - length.toNat % 4) % 4), ?_, ?_⟩
  · rw [List.length_take, hbody]
    omega
  · rw [Record.bytes, List.append_assoc, List.take_append_drop, List.append_assoc, ← htl]
    exact hdata
  · exact Record.inside_iff.mpr hout

/-- The reader after some records. -/
def loadRecords (write : κ → UInt32 → List UInt8 → Bool × κ) (im : Image κ) (rs : List Record) : Image κ :=
  rs.foldl (loadRecord write) im

theorem Ready.loadRecords (h : im.Ready) (rs : List Record) : (loadRecords write im rs).Ready := by
  induction rs generalizing im with
  | nil => exact h
  | cons r rs ih => exact ih (h.loadRecord r)

/-- Records one after the other. -/
theorem after_records (hw : Steady write) (h : im.Ready) {rs : List Record}
    (hin : ∀ r ∈ rs, r.Inside im.loadMin im.loadMax) :
    im.after write (rs.map Record.bytes).flatten = loadRecords write im rs := by
  induction rs generalizing im with
  | nil => rfl
  | cons r rs ih =>
      rw [List.map_cons, List.flatten_cons, after_append,
        after_record hw h (hin r (List.mem_cons_self ..))]
      exact ih (h.loadRecord r) fun r' hr' => hin r' (List.mem_cons_of_mem _ hr')

/-- When the reader waits for a record, what it has read are records. -/
theorem records_of_after (hw : Steady write) (n : Nat) :
    ∀ {im : Image κ} {data : List UInt8}, data.length ≤ n → im.Ready →
      (im.after write data).state = .header → (im.after write data).collected = 0 →
      ∃ rs : List Record, data = (rs.map Record.bytes).flatten ∧
        ∀ r ∈ rs, r.Inside im.loadMin im.loadMax := by
  induction n with
  | zero =>
      intro im data hlen _ _ _
      exact ⟨[], List.eq_nil_of_length_eq_zero (Nat.le_zero.mp hlen), nofun⟩
  | succ n ih =>
      intro im data hlen h hstate hnone
      by_cases hne : data = []
      · exact ⟨[], hne, nofun⟩
      · obtain ⟨r, rest, rfl, hin⟩ := record_of_after hw h hne hstate hnone
        rw [after_append, after_record hw h hin] at hstate hnone
        have hshort : rest.length ≤ n := by
          rw [List.length_append, Record.bytes, List.length_append, List.length_append,
            r.length_head] at hlen
          omega
        obtain ⟨rs, hrest, hins⟩ := ih hshort (h.loadRecord r) hstate hnone
        refine ⟨r :: rs, by rw [List.map_cons, List.flatten_cons, ← hrest], fun r' hr' => ?_⟩
        rcases List.mem_cons.mp hr' with rfl | hr'
        · exact hin
        · exact hins r' hr'

theorem loadRecords_start (rs : List Record) :
    (loadRecords write im rs).start = lastStart im.start rs := by
  induction rs generalizing im with
  | nil => rfl
  | cons r rs ih => exact ih

theorem loadRecords_records (rs : List Record) :
    (loadRecords write im rs).records = im.records + UInt32.ofNat rs.length := by
  induction rs generalizing im with
  | nil => exact (UInt32.add_zero _).symm
  | cons r rs ih =>
      rw [loadRecords, List.foldl_cons, ← loadRecords, ih, List.length_cons, ofNat_succ,
        ← UInt32.add_assoc]
      rfl

theorem loadRecords_window (rs : List Record) :
    (loadRecords write im rs).loadMin = im.loadMin ∧ (loadRecords write im rs).loadMax = im.loadMax := by
  induction rs generalizing im with
  | nil => exact ⟨rfl, rfl⟩
  | cons r rs ih => exact ih

/-! ## The start of an image -/

/-- The reader at the start of the records, when there is no head with the fingerprint. -/
def begun (im : Image κ) : Image κ := { im with state := .header }

/-- Four bytes that are not the fingerprint are the start of a record. -/
theorem after_unmarked (hw : Steady write) (hv : im.Valid) (hs : im.state = .detect)
    (hnone : im.collected = 0) {data : List UInt8} (hlen : 4 ≤ data.length)
    (hun : ¬ Marked data) : im.after write data = im.begun.after write data := by
  generalize hf : data.take 4 = front
  generalize hr : data.drop 4 = rest
  have hdata : data = front ++ rest := by rw [← hf, ← hr, List.take_append_drop]
  have hfour : front.length = 4 := by
    rw [← hf, List.length_take]
    omega
  have hne : front ≠ [] := by
    rw [← List.length_pos_iff, hfour]
    decide
  have hvalid : im.begun.Valid :=
    ⟨hv.header, nofun, nofun, fun _ => by show im.collected < 12; omega, nofun, nofun⟩
  have hn : min (4 - im.collected) front.length = 4 := by rw [hnone, hfour]; rfl
  have hn' : min (12 - im.begun.collected) front.length = 4 := by
    show min (12 - im.collected) front.length = 4
    rw [hnone, hfour]
    rfl
  have hnot : le32 (front ++ im.header.drop 4) ≠ fingerprint := fun heq => by
    rw [le32_append (Nat.le_of_eq hfour.symm)] at heq
    refine hun ⟨hlen, ?_⟩
    rw [hdata, le32_append (Nat.le_of_eq hfour.symm)]
    exact heq
  have hdetect : turn write im front = (none, { im with
      header := front ++ im.header.drop 4, collected := 4, state := .header }, []) := by
    rw [turn_detect hs, collect, hn, hnone, List.take_of_length_le (Nat.le_of_eq hfour),
      List.drop_of_length_le (Nat.le_of_eq hfour), detectTurn]
    dsimp only
    rw [List.take_zero, List.nil_append, if_pos (decide_eq_true rfl), if_neg hnot]
  have hbegun : turn write im.begun front = (none, { im with
      header := front ++ im.header.drop 4, collected := 4, state := .header }, []) := by
    have hnone' : im.begun.collected = 0 := hnone
    rw [turn_header rfl, collect, hn', hnone', List.take_of_length_le (Nat.le_of_eq hfour),
      List.drop_of_length_le (Nat.le_of_eq hfour), headerTurn]
    rw [if_neg (show ¬ decide (0 + 4 = 12) = true by decide)]
    rfl
  rw [hdata, after_append, after_append, after_of_turn hw hv hne hdetect,
    after_of_turn hw hvalid hne hbegun]

/-- The fingerprint. -/
theorem after_mark (hw : Steady write) (hv : im.Valid) (hs : im.state = .detect)
    (hnone : im.collected = 0) {front : List UInt8} (hfour : front.length = 4)
    (hmark : le32 front = fingerprint) :
    im.after write front = { im with
      header := front ++ im.header.drop 4, collected := 4, state := .preheader } := by
  have hne : front ≠ [] := by
    rw [← List.length_pos_iff, hfour]
    decide
  have hn : min (4 - im.collected) front.length = 4 := by rw [hnone, hfour]; rfl
  have hwhole : le32 (front ++ im.header.drop 4) = fingerprint := by
    rw [le32_append (Nat.le_of_eq hfour.symm), hmark]
  have hturn := @turn_detect _ write _ hs front
  rw [collect, hn, hnone, List.take_of_length_le (Nat.le_of_eq hfour),
    List.drop_of_length_le (Nat.le_of_eq hfour), detectTurn] at hturn
  dsimp only at hturn
  rw [List.take_zero, List.nil_append, if_pos (decide_eq_true rfl), if_pos hwhole] at hturn
  exact after_of_turn hw hv hne hturn

/-- The head with the fingerprint. -/
theorem after_preheader (hw : Steady write) (hv : im.Valid) (hs : im.state = .detect)
    (hnone : im.collected = 0) (p : Preheader) :
    im.after write p.bytes =
      if fits im.family p.family then
        { im with header := p.bytes, collected := 0, state := .header }
      else { im with
        header := p.bytes, collected := 36, state := .failed, error := .errFamily } := by
  generalize hf : p.bytes.take 4 = front
  generalize hr : p.bytes.drop 4 = rest
  have hdata : p.bytes = front ++ rest := by rw [← hf, ← hr, List.take_append_drop]
  have hlen := p.length_bytes
  have hfour : front.length = 4 := by
    rw [← hf, List.length_take]
    omega
  have hmore : rest.length = 32 := by
    rw [← hr, List.length_drop]
    omega
  have hne : rest ≠ [] := by
    rw [← List.length_pos_iff, hmore]
    decide
  have hmark : le32 front = fingerprint := by
    rw [← le32_append (Nat.le_of_eq hfour.symm) rest, ← hdata]
    exact p.marked
  have hfirst := after_mark hw hv hs hnone hfour hmark
  have hvalid := hv.after hw front
  rw [hfirst] at hvalid
  have hheader : (front ++ im.header.drop 4).take 4 ++ rest ++ (front ++ im.header.drop 4).drop 36
      = p.bytes := by
    have hall : (front ++ im.header.drop 4).length = 36 := by
      rw [List.length_append, List.length_drop, hfour, hv.header]
    rw [List.take_append_of_le_length (Nat.le_of_eq hfour.symm),
      List.take_of_length_le (Nat.le_of_eq hfour), List.drop_of_length_le (Nat.le_of_eq hall),
      List.append_nil, ← hdata]
  have hn : min (36 - 4) rest.length = 32 := by rw [hmore]; rfl
  have hread : turn write { im with
      header := front ++ im.header.drop 4, collected := 4, state := .preheader } rest =
      preheaderTurn (true, { im with header := p.bytes, collected := 36, state := .preheader }, []) := by
    rw [turn_preheader rfl, collect]
    dsimp only
    rw [hn, List.take_of_length_le (Nat.le_of_eq hmore), List.drop_of_length_le (Nat.le_of_eq hmore),
      hheader]
    rfl
  rw [hdata, after_append, hfirst, ← hdata, Preheader.family]
  rw [preheaderTurn, if_pos rfl] at hread
  dsimp only at hread
  split
  next hfit =>
    rw [if_pos hfit] at hread
    exact after_of_turn hw hvalid hne hread
  next hfit =>
    rw [if_neg hfit] at hread
    exact after_of_turn hw hvalid hne hread

end Image

end RecoveryImage
