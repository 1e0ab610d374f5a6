import Ultimate1541.RecoveryFormatProofs

/-! # Which images the reader accepts

    However the stream is cut, the reader writes the same bytes to the same addresses, all
    of them inside the window, and accepts exactly the images. -/

namespace RecoveryImage

/-- The bytes of a piece with their addresses. -/
def writes : UInt32 → List UInt8 → List (UInt32 × UInt8)
  | _, [] => []
  | addr, b :: bs => (addr, b) :: writes (addr + 1) bs

/-- A callback that keeps what is written. -/
def keep (log : List (UInt32 × UInt8)) (addr : UInt32) (data : List UInt8) :
    Bool × List (UInt32 × UInt8) :=
  (true, log ++ writes addr data)

namespace Image

variable {κ : Type} {write : κ → UInt32 → List UInt8 → Bool × κ} {im : Image κ}

theorem keep_steady : Steady keep := by
  refine ⟨fun _ _ _ => rfl, fun log addr b data _ => ?_⟩
  rw [keep, keep, keep, writes, writes, writes, List.append_assoc]
  rfl

/-! ## A callback and the log -/

/-- The reader with another thing that its callback works on. -/
def withCtx {κ κ' : Type} (im : Image κ) (k : κ') : Image κ' where
  loadMin := im.loadMin
  loadMax := im.loadMax
  family := im.family
  ctx := k
  state := im.state
  header := im.header
  collected := im.collected
  addr := im.addr
  remaining := im.remaining
  pad := im.pad
  start := im.start
  records := im.records
  loaded := im.loaded
  error := im.error

theorem Valid.withCtx {κ' : Type} (h : im.Valid) (k : κ') : (im.withCtx k).Valid :=
  ⟨h.header, h.detect, h.preheader, h.collecting, h.data, h.pad⟩

theorem collect_withCtx {κ' : Type} (im : Image κ') (k : κ) (need : Nat) (data : List UInt8) :
    ((im.withCtx k).collect need data).2.1 = (im.collect need data).2.1.withCtx k := rfl

theorem startRecord_withCtx {κ' : Type} (im : Image κ') (k : κ) :
    (im.withCtx k).startRecord.2 = im.startRecord.2.withCtx k := by
  rw [startRecord, startRecord]
  dsimp only
  by_cases h : le32 (im.header.drop 4) ≠ 0 ∧
      inWindow im.loadMin im.loadMax (le32 im.header) (le32 (im.header.drop 4)) = false
  · rw [if_pos h]
    exact congrArg Prod.snd (if_pos h)
  · rw [if_neg h]
    exact congrArg Prod.snd (if_neg h)

/-- A byte of data is kept, and given to the callback; other bytes are not. -/
theorem step_withCtx (hw : Steady write) {im : Image (List (UInt32 × UInt8))} (hv : im.Valid) (k : κ)
    (b : UInt8) : ∃ added, (im.step keep b).ctx = im.ctx ++ added ∧
      (im.withCtx k).step write b
        = (im.step keep b).withCtx (added.foldl (fun k w => (write k w.1 [w.2]).2) k) := by
  cases hs : im.state with
  | detect =>
      refine ⟨[], ?_, ?_⟩
      · rw [step_detect hv hs b, List.append_nil]
        split <;> rfl
      · rw [step_detect hv hs b, step_detect (hv.withCtx k) hs b]
        by_cases h : im.collected + 1 = 4
        · rw [if_pos h, if_pos (show (im.withCtx k).collected + 1 = 4 from h)]
          rfl
        · rw [if_neg h, if_neg (show ¬ (im.withCtx k).collected + 1 = 4 from h)]
          rfl
  | preheader =>
      refine ⟨[], ?_, ?_⟩
      · rw [step_preheader hv hs b, List.append_nil]
        split
        · split <;> rfl
        · rfl
      · rw [step_preheader hv hs b, step_preheader (hv.withCtx k) hs b]
        by_cases h : im.collected + 1 = 36
        · rw [if_pos h, if_pos (show (im.withCtx k).collected + 1 = 36 from h)]
          by_cases hf : fits im.family (((im.collect 36 [b]).2.1.header.drop 4).take 16) = true
          · rw [if_pos hf]
            exact if_pos hf
          · rw [if_neg hf]
            exact if_neg hf
        · rw [if_neg h, if_neg (show ¬ (im.withCtx k).collected + 1 = 36 from h)]
          rfl
  | header =>
      refine ⟨[], ?_, ?_⟩
      · rw [step_header hv hs b, List.append_nil]
        split
        · rw [startRecord]
          dsimp only
          split <;> rfl
        · rfl
      · rw [step_header hv hs b, step_header (hv.withCtx k) hs b]
        by_cases h : im.collected + 1 = 12
        · rw [if_pos h, if_pos (show (im.withCtx k).collected + 1 = 12 from h)]
          rw [collect_withCtx, startRecord_withCtx]
          rfl
        · rw [if_neg h, if_neg (show ¬ (im.withCtx k).collected + 1 = 12 from h)]
          rfl
  | data =>
      refine ⟨[(im.addr, b)], ?_, ?_⟩
      · rw [step_data keep_steady hv hs b]
        rfl
      · rw [step_data keep_steady hv hs b, step_data hw (hv.withCtx k) hs b]
        rfl
  | pad =>
      refine ⟨[], ?_, ?_⟩
      · rw [step_pad hv hs b, List.append_nil]
      · rw [step_pad hv hs b, step_pad (hv.withCtx k) hs b]
        rfl
  | failed =>
      refine ⟨[], ?_, ?_⟩
      · rw [step_failed hs b, List.append_nil]
      · rw [step_failed hs b, @step_failed _ _ (im.withCtx k) hs b]
        rfl

/-- A callback gets what is kept, byte by byte. -/
theorem after_withCtx (hw : Steady write) {im : Image (List (UInt32 × UInt8))} (hv : im.Valid) (k : κ)
    (data : List UInt8) : ∃ added, (im.after keep data).ctx = im.ctx ++ added ∧
      (im.withCtx k).after write data
        = (im.after keep data).withCtx (added.foldl (fun k w => (write k w.1 [w.2]).2) k) := by
  induction data generalizing im k with
  | nil => exact ⟨[], (List.append_nil _).symm, rfl⟩
  | cons b bs ih =>
      obtain ⟨added, hlog, hstep⟩ := step_withCtx hw hv k b
      obtain ⟨more, hlog', hafter⟩ := ih (hv.step keep_steady b)
        (added.foldl (fun k w => (write k w.1 [w.2]).2) k)
      refine ⟨added ++ more, ?_, ?_⟩
      · rw [after_cons, hlog', hlog, List.append_assoc]
      · rw [after_cons, after_cons, hstep, hafter, List.foldl_append]

/-! ## Inside the window -/

/-- What has been written is inside the window, and what is left of the record as well. -/
structure Contained (im : Image (List (UInt32 × UInt8))) : Prop where
  written : ∀ w ∈ im.ctx, im.loadMin ≤ w.1 ∧ w.1 < im.loadMax
  left : im.state = .data →
    im.loadMin ≤ im.addr ∧ im.addr.toNat + im.remaining.toNat ≤ im.loadMax.toNat

/-- The window and what has been written do not change while a head is collected. -/
theorem Contained.collect {im : Image (List (UInt32 × UInt8))} (h : im.Contained) (need : Nat)
    (data : List UInt8) (hs : im.state ≠ .data) (state : State) (hstate : state ≠ .data) :
    Contained { (im.collect need data).2.1 with state := state } ∧
      (im.collect need data).2.1.Contained :=
  ⟨⟨h.written, fun hd => absurd hd hstate⟩, ⟨h.written, fun hd => absurd hd hs⟩⟩

theorem Contained.startRecord {im : Image (List (UInt32 × UInt8))} (h : im.Contained) :
    im.startRecord.2.Contained := by
  rw [Image.startRecord]
  dsimp only
  split
  · exact ⟨h.written, fun h => by cases h⟩
  next hin =>
    refine ⟨h.written, fun hd => ?_⟩
    dsimp only at hd ⊢
    split at hd
    next hne =>
      have hwindow := inWindow_iff.mp ((Bool.not_eq_false _).mp fun hf => hin ⟨hne, hf⟩)
      exact ⟨hwindow.1, hwindow.2.2⟩
    · cases hd

theorem Contained.step {im : Image (List (UInt32 × UInt8))} (h : im.Contained) (hv : im.Valid)
    (b : UInt8) : (im.step keep b).Contained := by
  cases hs : im.state with
  | detect =>
      rw [step_detect hv hs b]
      split
      · refine (h.collect 4 [b] (by rw [hs]; exact nofun) _ ?_).1
        split <;> exact nofun
      · exact (h.collect 4 [b] (by rw [hs]; exact nofun) .detect nofun).2
  | preheader =>
      rw [step_preheader hv hs b]
      split
      · split
        · exact ⟨h.written, nofun⟩
        · exact ⟨h.written, nofun⟩
      · exact (h.collect 36 [b] (by rw [hs]; exact nofun) .detect nofun).2
  | header =>
      have hcollect := (h.collect 12 [b] (by rw [hs]; exact nofun) .detect nofun).2
      rw [step_header hv hs b]
      split
      · exact hcollect.startRecord
      · exact hcollect
  | data =>
      obtain ⟨hne, -⟩ := hv.data hs
      obtain ⟨hlow, hhigh⟩ := h.left hs
      have hpos : 0 < im.remaining.toNat :=
        Nat.pos_of_ne_zero fun hz => hne (UInt32.toNat_inj.mp hz)
      have hlt : im.addr < im.loadMax := UInt32.lt_iff_toNat_lt.mpr (by omega)
      have hnext : (im.addr + 1).toNat = im.addr.toNat + 1 := by
        have hmax := im.loadMax.toNat_lt
        rw [UInt32.toNat_add]
        exact Nat.mod_eq_of_lt (by show im.addr.toNat + 1 < 2 ^ 32; omega)
      rw [step_data keep_steady hv hs b]
      refine ⟨fun w hw => ?_, fun _ => ⟨?_, ?_⟩⟩
      · rcases List.mem_append.mp hw with hw | hw
        · exact h.written w hw
        · rw [List.mem_singleton.mp hw]
          exact ⟨hlow, hlt⟩
      · rw [UInt32.le_iff_toNat_le] at hlow ⊢
        show im.loadMin.toNat ≤ (im.addr + 1).toNat
        omega
      · show (im.addr + 1).toNat + (im.remaining - 1).toNat ≤ im.loadMax.toNat
        rw [hnext, sub_one_toNat hne]
        omega
  | pad =>
      rw [step_pad hv hs b]
      refine ⟨h.written, fun hd => ?_⟩
      dsimp only at hd
      split at hd <;> exact nomatch hd
  | failed =>
      rw [step_failed hs b]
      exact h

theorem Contained.after {im : Image (List (UInt32 × UInt8))} (h : im.Contained) (hv : im.Valid)
    (data : List UInt8) : (im.after keep data).Contained := by
  induction data generalizing im with
  | nil => exact h
  | cons b bs ih => exact ih (h.step hv b) (hv.step keep_steady b)

theorem step_window (hw : Steady write) (hv : im.Valid) (b : UInt8) :
    (im.step write b).loadMin = im.loadMin ∧ (im.step write b).loadMax = im.loadMax := by
  cases hs : im.state with
  | detect =>
      rw [step_detect hv hs b]
      split <;> exact ⟨rfl, rfl⟩
  | preheader =>
      rw [step_preheader hv hs b]
      split
      · split <;> exact ⟨rfl, rfl⟩
      · exact ⟨rfl, rfl⟩
  | header =>
      rw [step_header hv hs b]
      split
      · rw [Image.startRecord]
        dsimp only
        split <;> exact ⟨rfl, rfl⟩
      · exact ⟨rfl, rfl⟩
  | data =>
      rw [step_data hw hv hs b]
      exact ⟨rfl, rfl⟩
  | pad =>
      rw [step_pad hv hs b]
      exact ⟨rfl, rfl⟩
  | failed =>
      rw [step_failed hs b]
      exact ⟨rfl, rfl⟩

theorem after_window (hw : Steady write) (hv : im.Valid) (data : List UInt8) :
    (im.after write data).loadMin = im.loadMin ∧ (im.after write data).loadMax = im.loadMax := by
  induction data generalizing im with
  | nil => exact ⟨rfl, rfl⟩
  | cons b bs ih =>
      obtain ⟨hmin, hmax⟩ := ih (hv.step hw b)
      obtain ⟨hmin', hmax'⟩ := step_window hw hv b
      exact ⟨hmin.trans hmin', hmax.trans hmax'⟩

/-! ## Answers -/

/-- The end of the image is accepted between two records, when there was one, and a start
    address inside the window. -/
theorem finish_ok : im.finish.1 = .ok ↔
    im.state = .header ∧ im.collected = 0 ∧ im.records ≠ 0 ∧ im.start ≠ 0 ∧
      im.loadMin ≤ im.start ∧ im.start < im.loadMax := by
  have hwindow : inWindow im.loadMin im.loadMax im.start 0 = true ↔
      im.loadMin ≤ im.start ∧ im.start < im.loadMax := by
    rw [inWindow_iff]
    refine and_congr_right fun _ => and_iff_left_of_imp fun hlt => ?_
    exact Nat.le_of_lt (UInt32.lt_iff_toNat_lt.mp hlt)
  rw [finish, ← hwindow]
  by_cases hheader : im.state = .header ∧ im.collected = 0
  · obtain ⟨hs, hc⟩ := hheader
    rw [if_neg (by rw [hs]; exact nofun), if_neg (by rw [hs]; exact nofun),
      if_neg (by rw [hs, hc]; exact fun h => h.elim (fun h => h rfl) (fun h => h rfl))]
    split
    next h => exact ⟨nofun, fun h' => absurd h h'.2.2.1⟩
    next hrecords =>
      split
      next h => exact ⟨nofun, fun h' => absurd h h'.2.2.2.1⟩
      next hstart =>
        split
        next h => exact ⟨nofun, fun h' => nomatch h.symm.trans h'.2.2.2.2⟩
        next h => exact ⟨fun _ => ⟨hs, hc, hrecords, hstart, (Bool.not_eq_false _).mp h⟩, fun _ => rfl⟩
  · refine ⟨fun h => ?_, fun h => absurd ⟨h.1, h.2.1⟩ hheader⟩
    split at h
    · exact nomatch h
    · split at h
      · exact nomatch h
      · split at h
        · exact nomatch h
        next hno =>
          refine absurd ⟨?_, ?_⟩ hheader
          · exact Classical.not_not.mp fun hs => hno (Or.inl hs)
          · exact Classical.not_not.mp fun hc => hno (Or.inr hc)

/-- Fewer records than the counter can count. -/
theorem count_ne_zero {rs : List Record} (hne : rs ≠ []) (hfew : rs.length < 2 ^ 32) :
    UInt32.ofNat rs.length ≠ 0 := by
  intro hz
  have hnat := congrArg UInt32.toNat hz
  rw [UInt32.toNat_ofNat', Nat.mod_eq_of_lt hfew] at hnat
  exact hne (List.eq_nil_of_length_eq_zero hnat)

/-- A record has twelve bytes at least. -/
theorem length_records (rs : List Record) :
    12 * rs.length ≤ (rs.map Record.bytes).flatten.length := by
  induction rs with
  | nil => exact Nat.le_refl 0
  | cons r rs ih =>
      rw [List.map_cons, List.flatten_cons, List.length_append, List.length_cons, Record.bytes,
        List.length_append, List.length_append, r.length_head]
      omega

/-- After its records an image is accepted for their last start address. -/
theorem finish_loadRecords (h : im.Ready) (hrecords : im.records = 0) (hstart : im.start = 0)
    {rs : List Record} (hfew : rs.length < 2 ^ 32) :
    (loadRecords write im rs).finish.1 = .ok ↔
      rs ≠ [] ∧ lastStart 0 rs ≠ 0 ∧ im.loadMin ≤ lastStart 0 rs ∧ lastStart 0 rs < im.loadMax := by
  have hready := @Ready.loadRecords _ write _ h rs
  obtain ⟨hmin, hmax⟩ := @loadRecords_window _ write im rs
  rw [finish_ok, loadRecords_records, loadRecords_start, hrecords, hstart, hmin, hmax,
    UInt32.zero_add]
  constructor
  · rintro ⟨-, -, hcount, hlast⟩
    refine ⟨fun hnil => hcount ?_, hlast⟩
    rw [hnil]
    rfl
  · rintro ⟨hne, hlast⟩
    exact ⟨hready.state, hready.collected, count_ne_zero hne hfew, hlast⟩

end Image

open Image

variable {κ : Type} {write : κ → UInt32 → List UInt8 → Bool × κ}

theorem ready_begun (loadMin loadMax : UInt32) (family : Option (List UInt8)) (ctx : κ) :
    (begun (init loadMin loadMax family ctx)).Ready :=
  ⟨⟨rfl, nofun, nofun, fun _ => Nat.zero_lt_succ 11, nofun, nofun⟩, rfl, rfl⟩

theorem ready_preheader (loadMin loadMax : UInt32) (family : Option (List UInt8)) (ctx : κ)
    (p : Preheader) :
    Ready { init loadMin loadMax family ctx with header := p.bytes, collected := 0, state := .header } :=
  ⟨⟨p.length_bytes, nofun, nofun, fun _ => Nat.zero_lt_succ 11, nofun, nofun⟩, rfl, rfl⟩

/-- What is read up to the end of a record is the head of an image, or none, and records. -/
theorem parts_of_after (hw : Steady write) (loadMin loadMax : UInt32)
    (family : Option (List UInt8)) (ctx : κ) {data : List UInt8}
    (hstate : ((init loadMin loadMax family ctx).after write data).state = .header)
    (hnone : ((init loadMin loadMax family ctx).after write data).collected = 0) :
    ∃ (im : Image κ) (front : List UInt8) (rs : List Record),
      data = front ++ (rs.map Record.bytes).flatten ∧
      (front = [] ∨ ∃ p : Preheader, front = p.bytes ∧ fits family p.family = true) ∧
      (front = [] → ¬ Marked data) ∧ (∀ r ∈ rs, r.Inside loadMin loadMax) ∧
      im.Ready ∧ im.records = 0 ∧ im.start = 0 ∧ im.loadMin = loadMin ∧ im.loadMax = loadMax ∧
      (init loadMin loadMax family ctx).after write data = loadRecords write im rs := by
  have hv := valid_init loadMin loadMax family ctx
  have hlen : 4 ≤ data.length := by
    by_contra hshort
    rw [after_detect_part hw hv rfl (by show 0 + data.length < 4; omega)] at hstate
    exact nomatch hstate
  by_cases hmark : Marked data
  · -- The head with the fingerprint is there, and fits.
    have hlong : 36 ≤ data.length := by
      by_contra hshort
      generalize hf : data.take 4 = front
      generalize hr : data.drop 4 = rest
      have hdata : data = front ++ rest := by rw [← hf, ← hr, List.take_append_drop]
      have hfour : front.length = 4 := by
        rw [← hf, List.length_take]
        omega
      have hfirst : le32 front = fingerprint := by
        rw [← le32_append (Nat.le_of_eq hfour.symm) rest, ← hdata]
        exact hmark.2
      have hmarked := after_mark hw hv rfl rfl hfour hfirst
      have hvalid := hv.after hw front
      rw [hdata, after_append, hmarked] at hstate
      rw [hmarked] at hvalid
      rw [after_preheader_part hw hvalid rfl
        (by show 4 + rest.length < 36; rw [← hr, List.length_drop]; omega)] at hstate
      exact nomatch hstate
    have hlength : (data.take 36).length = 36 := by
      rw [List.length_take]
      omega
    have hsame : le32 (data.take 36) = fingerprint := by
      rw [← le32_append (by omega) (data.drop 36), List.take_append_drop]
      exact hmark.2
    have hhead := after_preheader hw hv rfl rfl ⟨data.take 36, hlength, hsame⟩
    have hsplit : data = data.take 36 ++ data.drop 36 := (List.take_append_drop 36 data).symm
    generalize hpre : (⟨data.take 36, hlength, hsame⟩ : Preheader) = p at hhead
    have hbytes : data.take 36 = p.bytes := by rw [← hpre]
    rw [hsplit, after_append, hbytes, hhead] at hstate hnone
    by_cases hfit : fits family p.family = true
    · have hready := ready_preheader loadMin loadMax family ctx p
      have hfit' : fits (init loadMin loadMax family ctx).family p.family = true := hfit
      rw [if_pos hfit'] at hstate hnone hhead
      obtain ⟨rs, hrs, hin⟩ := records_of_after hw _ (Nat.le_refl _) hready hstate hnone
      refine ⟨_, p.bytes, rs, ?_, Or.inr ⟨p, rfl, hfit⟩, fun hnil => ?_, hin, hready, rfl, rfl, rfl,
        rfl, ?_⟩
      · rw [← hbytes, ← hrs]
        exact hsplit
      · have hzero := p.length_bytes
        rw [hnil] at hzero
        exact nomatch hzero
      · rw [hsplit, after_append, hbytes, hhead, hrs, after_records hw hready hin]
    · have hfit' : ¬ fits (init loadMin loadMax family ctx).family p.family = true := hfit
      rw [if_neg hfit', after_failed rfl] at hstate
      exact nomatch hstate
  · have hready := ready_begun loadMin loadMax family ctx
    rw [after_unmarked hw hv rfl rfl hlen hmark] at hstate hnone ⊢
    obtain ⟨rs, hrs, hin⟩ := records_of_after hw _ (Nat.le_refl _) hready hstate hnone
    exact ⟨_, [], rs, hrs, Or.inl rfl, fun _ => hmark, hin, hready, rfl, rfl, rfl, rfl, by
      rw [hrs, after_records hw hready hin]⟩

/-- What the parts of an image do. -/
theorem after_parts (hw : Steady write) {loadMin loadMax : UInt32} {family : Option (List UInt8)}
    (ctx : κ) {data front : List UInt8} {rs : List Record}
    (h : Parts loadMin loadMax family data front rs) (hun : front = [] → ¬ Marked data) :
    ∃ im : Image κ, im.Ready ∧ im.records = 0 ∧ im.start = 0 ∧ im.loadMin = loadMin ∧
      im.loadMax = loadMax ∧ im.ctx = ctx ∧
      (init loadMin loadMax family ctx).after write data = loadRecords write im rs := by
  have hv := valid_init loadMin loadMax family ctx
  rcases h.head with hnil | ⟨p, hfront, hfit⟩
  · have hready := ready_begun loadMin loadMax family ctx
    have hlen : 4 ≤ data.length := by
      have hpos := List.length_pos_iff.mpr h.nonempty
      have hcount := length_records rs
      rw [h.bytes, List.length_append]
      omega
    refine ⟨_, hready, rfl, rfl, rfl, rfl, rfl, ?_⟩
    rw [after_unmarked hw hv rfl rfl hlen (hun hnil), h.bytes, hnil, List.nil_append,
      after_records hw hready h.inside]
  · have hready := ready_preheader loadMin loadMax family ctx p
    refine ⟨_, hready, rfl, rfl, rfl, rfl, rfl, ?_⟩
    rw [h.bytes, after_append, hfront, after_preheader hw hv rfl rfl p]
    have hfit' : fits (init loadMin loadMax family ctx).family p.family = true := hfit
    rw [if_pos hfit', after_records hw hready h.inside]

/-- The reader accepts the images. -/
theorem finish_ok_iff (hw : Steady write) (loadMin loadMax : UInt32) (family : Option (List UInt8))
    (ctx : κ) {data : List UInt8} (hsize : data.length < 12 * 2 ^ 32) :
    ((init loadMin loadMax family ctx).after write data).finish.1 = .ok ↔
      IsImage loadMin loadMax family data := by
  constructor
  · intro h
    obtain ⟨hstate, hnone, -⟩ := finish_ok.mp h
    obtain ⟨im, front, rs, hbytes, hfront, hun, hin, hready, hrecords, hstart, hmin, hmax, hafter⟩ :=
      parts_of_after hw loadMin loadMax family ctx hstate hnone
    have hcount := length_records rs
    have hlen := congrArg List.length hbytes
    rw [List.length_append] at hlen
    rw [hafter, finish_loadRecords hready hrecords hstart (by omega), hmin, hmax] at h
    exact ⟨front, rs, ⟨hbytes, hfront, h.1, hin, h.2.1, h.2.2⟩, hun⟩
  · rintro ⟨front, rs, hparts, hun⟩
    obtain ⟨im, hready, hrecords, hstart, hmin, hmax, -, hafter⟩ := after_parts hw ctx hparts hun
    have hcount := length_records rs
    have hlen := congrArg List.length hparts.bytes
    rw [List.length_append] at hlen
    rw [hafter, finish_loadRecords hready hrecords hstart (by omega), hmin, hmax]
    exact ⟨hparts.nonempty, hparts.start, hparts.start_inside⟩

/-- Cut in any way, an image leaves the reader as it does in one piece, with the same bytes
    written, all of them inside the window; and exactly the images are accepted. -/
theorem feed_cut (loadMin loadMax : UInt32) (family : Option (List UInt8))
    (pieces : List (List UInt8)) :
    feedAll keep (init loadMin loadMax family []) pieces
        = feedAll keep (init loadMin loadMax family []) [pieces.flatten] ∧
      ∃ im, feedAll keep (init loadMin loadMax family []) pieces = some im ∧
        (∀ w ∈ im.ctx, loadMin ≤ w.1 ∧ w.1 < loadMax) ∧
        (pieces.flatten.length < 12 * 2 ^ 32 →
          (im.finish.1 = .ok ↔ IsImage loadMin loadMax family pieces.flatten)) := by
  have hv := valid_init loadMin loadMax family ([] : List (UInt32 × UInt8))
  have hone : [pieces.flatten].flatten = pieces.flatten := List.flatten_singleton
  rw [feedAll_eq keep_steady hv, feedAll_eq keep_steady hv, hone]
  refine ⟨rfl, _, rfl, ?_, finish_ok_iff keep_steady loadMin loadMax family []⟩
  have hinside : (init loadMin loadMax family ([] : List (UInt32 × UInt8))).Contained :=
    ⟨nofun, nofun⟩
  obtain ⟨hmin, hmax⟩ := after_window keep_steady hv pieces.flatten
  have hall := (hinside.after hv pieces.flatten).written
  rw [hmin, hmax] at hall
  exact hall

/-- One record of four bytes at the start of the window, cut in two. -/
theorem feed_cut_one :
    [([0, 0, 1, 0, 4, 0, 0] : List UInt8), [0, 0, 0, 1, 0, 1, 2, 3, 4]].flatten.length < 12 * 2 ^ 32 ∧
    ∃ im, feedAll keep (init 0x00010000 0x04000000 none [])
        [[0, 0, 1, 0, 4, 0, 0], [0, 0, 0, 1, 0, 1, 2, 3, 4]] = some im ∧
      (∀ w ∈ im.ctx, (0x00010000 : UInt32) ≤ w.1 ∧ w.1 < 0x04000000) ∧
      (im.finish.1 = .ok ↔ IsImage 0x00010000 0x04000000 none
        [([0, 0, 1, 0, 4, 0, 0] : List UInt8), [0, 0, 0, 1, 0, 1, 2, 3, 4]].flatten) := by
  have hsize : [([0, 0, 1, 0, 4, 0, 0] : List UInt8), [0, 0, 0, 1, 0, 1, 2, 3, 4]].flatten.length
      < 12 * 2 ^ 32 := by decide
  obtain ⟨-, im, hfeed, hinside, haccept⟩ := feed_cut 0x00010000 0x04000000 none
    [[0, 0, 1, 0, 4, 0, 0], [0, 0, 0, 1, 0, 1, 2, 3, 4]]
  exact ⟨hsize, im, hfeed, hinside, haccept hsize⟩

/-- A record without data that names the fingerprint as its address, and a start address
    inside the window: the reader takes it for a head that is not complete. -/
def markedRecord : Record where
  head := [0xDE, 0xAD, 0x15, 0x41, 0, 0, 0, 0, 0, 0, 1, 0]
  data := []
  padding := []
  length_head := rfl
  length_data := rfl
  length_padding := rfl

theorem markedRecord_truncated :
    Parts 0x00010000 0x04000000 none markedRecord.bytes [] [markedRecord] ∧
      ((feedAll keep (init 0x00010000 0x04000000 none []) [markedRecord.bytes]).map
        fun im => im.finish.1) = some .errTruncated := by
  refine ⟨⟨rfl, Or.inl rfl, nofun, fun r hr => ?_, by decide, by decide⟩, by decide +kernel⟩
  rw [List.mem_singleton.mp hr]
  exact Or.inl rfl

end RecoveryImage
