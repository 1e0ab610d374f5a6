import Ultimate1541.Iso9660Proofs

/-! # Listing a directory of an ISO 9660 image

    Every listing ends: a turn goes on in the sector or takes a sector's size off what remains.
    What it stores stays inside the record and the `FileInfo`.  What it reads stays inside the
    sector buffer just if the records it comes to do, and no sector is filled to its last byte
    while the directory goes on: the length of the next record is read before the offset is
    checked. -/

namespace Iso9660

variable {v : Volume}

/-! ## One turn -/

theorem fetch_view (fs : Fs v) (h : Handle) : (fs.fetch h).view = fs.view.read h.sector := by
  rw [Fs.fetch, Fs.getDirRecord]
  split <;> rfl

/-- The copied length is the byte at the offset. -/
theorem fetch_length (fs : Fs v) (h : Handle) :
    (fs.fetch h).record 0 = (fs.view.read h.sector).buffer h.offset := by
  rw [Fs.fetch, Fs.getDirRecord]
  split
  next hzero => exact hzero.symm
  next hsome =>
    have hpos : 0 < ((fs.view.read h.sector).buffer h.offset).toNat :=
      Nat.pos_of_ne_zero fun h => hsome (UInt8.toNat_inj.mp h)
    have hne : ¬0 = actualSize + identifierLength (Fs.getDirRecord.copied h.offset
        { fs with view := fs.view.read h.sector }) := by rw [actualSize]; omega
    exact (if_neg hne).trans (if_pos hpos)

/-- The byte at the offset of the handle: the length of the record there. -/
def lengthAt (w : View v) (h : Handle) : UInt8 := (w.read h.sector).buffer h.offset

/-- The handle behind the record of length `len`. -/
def Handle.advance (h : Handle) (len : UInt8) : Handle := { h with offset := h.offset + len.toNat }

/-- What a turn can do, by the handle and the length of the record there. -/
theorem turn_cases (n : NameBuffer) (fs : Fs v) (h : Handle) :
    (h.remaining ≤ h.offset ∧ turn n fs h = .noFile fs) ∨
    ((h.offset : Int) < h.remaining ∧ (lengthAt fs.view h = 0 ∨ v.sectorSize ≤ h.offset) ∧
      (h.offset = 0 ∧ turn n fs h = .noFile (fs.fetch h) ∨
        h.offset ≠ 0 ∧ turn n fs h = .tryNext (fs.fetch h) (h.nextSector v))) ∨
    ((h.offset : Int) < h.remaining ∧ lengthAt fs.view h ≠ 0 ∧ h.offset < v.sectorSize ∧
      (isDot (fs.fetch h).record = true ∧
          turn n fs h = .tryNext (fs.fetch h) (h.advance (lengthAt fs.view h)) ∨
        isDot (fs.fetch h).record = false ∧
          turn n fs h = .entry ((fs.fetch h).fill n) (h.advance (lengthAt fs.view h))
            (fileInfo v n (fs.fetch h).record))) := by
  rw [turn, fetch_length, ← lengthAt]
  by_cases hend : h.remaining ≤ h.offset
  · exact .inl ⟨hend, if_pos hend⟩
  · rw [if_neg hend]
    have hmore : (h.offset : Int) < h.remaining := Int.not_le.mp hend
    by_cases hnext : lengthAt fs.view h = 0 ∨ v.sectorSize ≤ h.offset
    · rw [if_pos hnext]
      refine .inr (.inl ⟨hmore, hnext, ?_⟩)
      by_cases hzero : h.offset = 0
      · exact .inl ⟨hzero, if_pos hzero⟩
      · exact .inr ⟨hzero, if_neg hzero⟩
    · rw [if_neg hnext]
      rw [not_or, Nat.not_le] at hnext
      refine .inr (.inr ⟨hmore, hnext.1, hnext.2, ?_⟩)
      cases hdot : isDot (fs.fetch h).record with
      | true => exact .inl ⟨rfl, if_pos rfl⟩
      | false => exact .inr ⟨rfl, if_neg Bool.false_ne_true⟩

/-! ## Listing by turns -/

/-- A listing by turns, less than `fuel` of them. -/
def walk (n : NameBuffer) : (fuel : Nat) → Fs v → Handle → Option (Fs v × List FileInfo)
  | 0, _, _ => none
  | fuel + 1, fs, h =>
      match turn n fs h with
      | .tryNext fs' h' => walk n fuel fs' h'
      | .noFile fs' => some (fs', [])
      | .entry fs' h' info => (walk n fuel fs' h').map fun r => (r.1, info :: r.2)

section

variable {n : NameBuffer} {fs fs' : Fs v} {h h' : Handle} {info : FileInfo} {fuel : Nat}

theorem walk_tryNext (hturn : turn n fs h = .tryNext fs' h') : walk n (fuel + 1) fs h = walk n fuel fs' h' := by
  rw [walk, hturn]

theorem walk_noFile (hturn : turn n fs h = .noFile fs') : walk n (fuel + 1) fs h = some (fs', []) := by
  rw [walk, hturn]

theorem walk_entry (hturn : turn n fs h = .entry fs' h' info) :
    walk n (fuel + 1) fs h = (walk n fuel fs' h').map fun r => (r.1, info :: r.2) := by
  rw [walk, hturn]

end

/-- What a turn lowers. -/
def Handle.measure (v : Volume) (h : Handle) : Nat :=
  2 * h.remaining.toNat + (v.sectorSize + 256 - h.offset)

theorem advance_measure {h : Handle} {len : UInt8} (hlen : len ≠ 0) (hoff : h.offset < v.sectorSize) :
    (h.advance len).measure v < h.measure v ∧ (h.advance len).offset < v.sectorSize + 256 := by
  have hpos : 0 < len.toNat := Nat.pos_of_ne_zero fun h => hlen (UInt8.toNat_inj.mp h)
  have hlt := len.toNat_lt
  simp only [Handle.measure, Handle.advance]
  omega

theorem nextSector_measure {h : Handle} (hmore : (h.offset : Int) < h.remaining)
    (hoff : h.offset < v.sectorSize + 256) :
    (h.nextSector v).measure v < h.measure v ∧ (h.nextSector v).offset < v.sectorSize + 256 := by
  have hge := v.sectorSize_ge
  simp only [Handle.measure, Handle.nextSector]
  omega

/-- Every listing ends. -/
theorem walk_ends (n : NameBuffer) {fuel : Nat} :
    ∀ {fs : Fs v} {h : Handle}, h.offset < v.sectorSize + 256 → h.measure v < fuel →
      ∃ r, walk n fuel fs h = some r := by
  induction fuel with
  | zero => exact fun _ h => absurd h (Nat.not_lt_zero _)
  | succ fuel ih =>
      intro fs h hoff hfuel
      obtain ⟨_, ht⟩ | ⟨hmore, _, ⟨_, ht⟩ | ⟨_, ht⟩⟩ | ⟨_, hlen, hlt, ⟨_, ht⟩ | ⟨_, ht⟩⟩ := turn_cases n fs h
      · exact ⟨_, walk_noFile ht⟩
      · exact ⟨_, walk_noFile ht⟩
      · obtain ⟨hdec, hoff'⟩ := nextSector_measure hmore hoff
        rw [walk_tryNext ht]
        exact ih hoff' (by omega)
      · obtain ⟨hdec, hoff'⟩ := advance_measure hlen hlt
        rw [walk_tryNext ht]
        exact ih hoff' (by omega)
      · obtain ⟨hdec, hoff'⟩ := advance_measure hlen hlt
        obtain ⟨r, hr⟩ := @ih ((fs.fetch h).fill n) _ hoff' (by omega)
        rw [walk_entry ht, hr]
        exact ⟨_, rfl⟩

theorem getDirEntry_mono {n : NameBuffer} {fuel : Nat} :
    ∀ {fs : Fs v} {h : Handle} {r : Fs v × Handle × Option FileInfo} {more : Nat}, fuel ≤ more →
      getDirEntry n fuel fs h = some r → getDirEntry n more fs h = some r := by
  induction fuel with
  | zero => exact fun _ h => nomatch h
  | succ fuel ih =>
      intro fs h r more hle hr
      cases more with
      | zero => omega
      | succ more =>
          rw [getDirEntry] at hr ⊢
          cases hturn : turn n fs h with
          | noFile fs' => rw [hturn] at hr; exact hr
          | entry fs' h' info => rw [hturn] at hr; exact hr
          | tryNext fs' h' =>
              rw [hturn] at hr
              exact ih (by omega) hr

/-- Going on to the next record is no call of its own. -/
theorem list_tryNext {n : NameBuffer} {fs fs' : Fs v} {h h' : Handle} (hturn : turn n fs h = .tryNext fs' h')
    {fuel calls : Nat} {r : Fs v × List FileInfo} (hr : list n fuel calls fs' h' = some r) :
    list n (fuel + 1) calls fs h = list n (fuel + 1) calls fs' h' := by
  cases calls with
  | zero => rfl
  | succ calls =>
      rw [list] at hr
      have hfirst : getDirEntry n (fuel + 1) fs h = getDirEntry n fuel fs' h' := by rw [getDirEntry, hturn]
      cases hget : getDirEntry n fuel fs' h' with
      | none => rw [hget] at hr; exact nomatch hr
      | some e =>
          rw [list, list, hfirst, hget, getDirEntry_mono (Nat.le_succ fuel) hget]

/-- A listing by turns is what the calls of `get_dir_entry` list. -/
theorem list_of_walk {n : NameBuffer} {fuel : Nat} :
    ∀ {fs : Fs v} {h : Handle} {r : Fs v × List FileInfo}, walk n fuel fs h = some r →
      ∀ {more calls : Nat}, fuel ≤ more → fuel ≤ calls → list n more calls fs h = some r := by
  induction fuel with
  | zero => exact fun h => nomatch h
  | succ fuel ih =>
      intro fs h r hr more calls hmore hcalls
      obtain ⟨more, rfl⟩ : ∃ k, more = k + 1 := ⟨more - 1, by omega⟩
      cases hturn : turn n fs h with
      | tryNext fs' h' =>
          rw [walk_tryNext hturn] at hr
          have hlist : list n more calls fs' h' = some r := ih hr (by omega) (by omega)
          rw [list_tryNext hturn hlist]
          exact ih hr (by omega) (by omega)
      | noFile fs' =>
          rw [walk_noFile hturn] at hr
          obtain ⟨calls, rfl⟩ : ∃ k, calls = k + 1 := ⟨calls - 1, by omega⟩
          rw [list, getDirEntry, hturn]
          exact hr
      | entry fs' h' info =>
          rw [walk_entry hturn] at hr
          obtain ⟨calls, rfl⟩ : ∃ k, calls = k + 1 := ⟨calls - 1, by omega⟩
          obtain ⟨r', hrest, hr'⟩ := Option.map_eq_some_iff.mp hr
          rw [list, getDirEntry, hturn]
          dsimp only
          rw [ih hrest (by omega) (by omega), ← hr']
          rfl

/-! ## What is read and written -/

/-- How much of a region there is. -/
def Region.size (v : Volume) (n : NameBuffer) : Region → Nat
  | .sectorBuffer => v.sectorSize
  | .dirRecord => actualSize + 256
  | .lfname => n.lfsize
  | .extension => 4

/-- The access is inside its region. -/
def Access.Inside (v : Volume) (n : NameBuffer) (a : Access) : Prop := a.off + a.len ≤ a.region.size v n

/-- The records from a handle on are inside their sectors, and none begins behind its sector:
    up to the end of the directory, in less than `fuel` turns. -/
def contained : (fuel : Nat) → View v → Handle → Bool
  | 0, _, _ => true
  | fuel + 1, w, h =>
      if h.remaining ≤ h.offset then true
      else if v.sectorSize ≤ h.offset then false
      else if lengthAt w h = 0 then h.offset = 0 || contained fuel (w.read h.sector) (h.nextSector v)
      else h.offset + (lengthAt w h).toNat ≤ v.sectorSize &&
        contained fuel (w.read h.sector) (h.advance (lengthAt w h))

/-- What accesses there are: those that are no reads of the sector buffer are inside, and those
    that are, just if `ok`. -/
structure Accesses (n : NameBuffer) (more : List Access) (ok : Prop) : Prop where
  writes : ∀ a ∈ more, a.region ≠ .sectorBuffer → a.Inside v n
  reads : (∀ a ∈ more, a.region = .sectorBuffer → a.Inside v n) ↔ ok

theorem Accesses.append {n : NameBuffer} {xs ys : List Access} {p q : Prop} (hx : Accesses (v := v) n xs p)
    (hy : Accesses (v := v) n ys q) : Accesses (v := v) n (xs ++ ys) (p ∧ q) where
  writes := by
    simp only [List.forall_mem_append]
    exact ⟨hx.writes, hy.writes⟩
  reads := by
    simp only [List.forall_mem_append]
    exact and_congr hx.reads hy.reads

theorem length_eliminateVersion (dest : Nat) (name : List UInt8) :
    (eliminateVersion dest name).length = name.length := by
  induction dest with
  | zero => rfl
  | succ dest ih =>
      rw [eliminateVersion]
      split
      · exact List.length_set
      · exact ih

/-- A name and its terminator fit the name buffer. -/
theorem length_lfname_le (n : NameBuffer) (directory : Bool) (ident : List UInt8) :
    (lfname v n directory ident).length ≤ n.lfsize := by
  have hpos := n.pos
  have hcopied : (lfname.copiedName v n ident).length ≤ n.lfsize := by
    simp only [lfname.copiedName, List.length_append, List.length_map, List.length_range, List.length_singleton,
      nameLength]
    omega
  rw [lfname]
  split
  · exact hcopied
  · rw [length_eliminateVersion]
    exact hcopied

/-- What copying a record accesses. -/
theorem fetch_accesses (n : NameBuffer) (fs : Fs v) (h : Handle) :
    ∃ more, (fs.fetch h).accesses = fs.accesses ++ more ∧
      Accesses (v := v) n more
        (h.offset < v.sectorSize ∧ h.offset + (lengthAt fs.view h).toNat ≤ v.sectorSize) := by
  obtain ⟨w, hw⟩ : ∃ w : Fs v, w = { fs with view := fs.view.read h.sector } := ⟨_, rfl⟩
  have hlen : lengthAt fs.view h = w.view.buffer h.offset := by rw [hw]; rfl
  have hlog : w.accesses = fs.accesses := by rw [hw]
  rw [hlen, Fs.fetch, ← hw, Fs.getDirRecord, ← hlog]
  split
  next hzero =>
    refine ⟨_, rfl, fun a ha hregion => ?_, ?_⟩
    · simp only [List.mem_cons, List.not_mem_nil, or_false] at ha
      obtain rfl | rfl := ha
      · exact absurd rfl hregion
      · simp [Access.Inside, Region.size, actualSize]
    · rw [hzero]
      simp [Access.Inside, Region.size]
      omega
  next hsome =>
    have hbyte := (w.view.buffer h.offset).toNat_lt
    have hident := (Fs.getDirRecord.copied h.offset w 32).toNat_lt
    refine ⟨_, rfl, fun a ha hregion => ?_, ?_⟩
    · simp only [List.mem_cons, List.not_mem_nil, or_false] at ha
      obtain rfl | rfl | rfl | rfl := ha
      · exact absurd rfl hregion
      · exact absurd rfl hregion
      · simp only [Access.Inside, Region.size, actualSize]
        omega
      · simp only [Access.Inside, Region.size, actualSize, identifierLength]
        omega
    · simp [Access.Inside, Region.size]

/-- What filling a `FileInfo` accesses. -/
theorem fill_accesses (n : NameBuffer) (fs : Fs v) :
    ∃ more, (fs.fill n).accesses = fs.accesses ++ more ∧ Accesses (v := v) n more True := by
  refine ⟨_, rfl, fun a ha _ => ?_, ?_⟩
  · simp only [List.mem_cons, List.not_mem_nil, or_false] at ha
    obtain rfl | rfl | rfl | rfl := ha
    · simp only [Access.Inside, Region.size, Nat.zero_add]
      exact length_lfname_le n _ _
    · simp [Access.Inside, Region.size]
    · simp only [Access.Inside, Region.size]
      split <;> omega
    · simp [Access.Inside, Region.size]
  · refine iff_of_true (fun a ha hregion => ?_) trivial
    simp only [List.mem_cons, List.not_mem_nil, or_false] at ha
    obtain rfl | rfl | rfl | rfl := ha <;> exact nomatch hregion

theorem Accesses.congr {n : NameBuffer} {more : List Access} {p q : Prop} (h : Accesses (v := v) n more p)
    (hpq : p ↔ q) : Accesses (v := v) n more q := ⟨h.writes, h.reads.trans hpq⟩

/-- The directory goes on behind the last byte of the sector. -/
theorem contained_behind {fuel : Nat} {w : View v} {h : Handle} (hmore : (h.offset : Int) < h.remaining)
    (hbehind : v.sectorSize ≤ h.offset) : contained (fuel + 1) w h = false := by
  rw [contained, if_neg (Int.not_le.mpr hmore), if_pos hbehind]

/-- The sector has no more records. -/
theorem contained_zero {fuel : Nat} {w : View v} {h : Handle} (hmore : (h.offset : Int) < h.remaining)
    (hlt : h.offset < v.sectorSize) (hlen : lengthAt w h = 0) :
    contained (fuel + 1) w h = (h.offset = 0 || contained fuel (w.read h.sector) (h.nextSector v)) := by
  rw [contained, if_neg (Int.not_le.mpr hmore), if_neg (Nat.not_le.mpr hlt), if_pos hlen]

/-- A record. -/
theorem contained_record {fuel : Nat} {w : View v} {h : Handle} (hmore : (h.offset : Int) < h.remaining)
    (hlt : h.offset < v.sectorSize) (hlen : lengthAt w h ≠ 0) :
    contained (fuel + 1) w h = true ↔
      (h.offset < v.sectorSize ∧ h.offset + (lengthAt w h).toNat ≤ v.sectorSize) ∧
        contained fuel (w.read h.sector) (h.advance (lengthAt w h)) = true := by
  rw [contained, if_neg (Int.not_le.mpr hmore), if_neg (Nat.not_le.mpr hlt), if_neg hlen, Bool.and_eq_true,
    decide_eq_true_eq]
  exact and_congr_left fun _ => (and_iff_right hlt).symm

/-- A listing only adds accesses, and reads inside the sector buffer just if the records that it
    comes to are. -/
theorem walk_accesses {n : NameBuffer} {fuel : Nat} :
    ∀ {fs : Fs v} {h : Handle} {r : Fs v × List FileInfo}, walk n fuel fs h = some r →
      ∃ more, r.1.accesses = fs.accesses ++ more ∧
        Accesses (v := v) n more (contained fuel fs.view h = true) := by
  induction fuel with
  | zero => exact fun h => nomatch h
  | succ fuel ih =>
      intro fs h r hr
      obtain ⟨first, hfirst, hacc⟩ := fetch_accesses n fs h
      obtain ⟨hend, ht⟩ | ⟨hmore, hnext, ⟨hzero, ht⟩ | ⟨hne, ht⟩⟩ | ⟨hmore, hlen, hlt, ⟨_, ht⟩ | ⟨_, ht⟩⟩ :=
        turn_cases n fs h
      · rw [walk_noFile ht] at hr
        cases hr
        refine ⟨[], (List.append_nil _).symm, nofun, ?_⟩
        rw [contained, if_pos hend]
        exact iff_of_true nofun rfl
      · rw [walk_noFile ht] at hr
        cases hr
        have hge := v.sectorSize_ge
        have hlt : h.offset < v.sectorSize := by omega
        have hlen := hnext.resolve_right (Nat.not_le.mpr hlt)
        refine ⟨first, hfirst, hacc.congr ?_⟩
        rw [contained_zero hmore hlt hlen, hlen]
        exact iff_of_true ⟨hlt, Nat.le_of_lt hlt⟩ (by rw [decide_eq_true hzero]; rfl)
      · rw [walk_tryNext ht] at hr
        obtain ⟨rest, hrest, hacc'⟩ := ih hr
        refine ⟨first ++ rest, by rw [hrest, hfirst, List.append_assoc], (hacc.append hacc').congr ?_⟩
        rw [fetch_view]
        by_cases hbehind : v.sectorSize ≤ h.offset
        · rw [contained_behind hmore hbehind]
          exact iff_of_false (fun hall => absurd hall.1.1 (Nat.not_lt.mpr hbehind)) Bool.false_ne_true
        · have hlt := Nat.not_le.mp hbehind
          have hlen := hnext.resolve_right hbehind
          rw [contained_zero hmore hlt hlen, hlen, decide_eq_false hne, Bool.false_or]
          exact and_iff_right ⟨hlt, Nat.le_of_lt hlt⟩
      · rw [walk_tryNext ht] at hr
        obtain ⟨rest, hrest, hacc'⟩ := ih hr
        refine ⟨first ++ rest, by rw [hrest, hfirst, List.append_assoc], (hacc.append hacc').congr ?_⟩
        rw [fetch_view, contained_record hmore hlt hlen]
      · rw [walk_entry ht] at hr
        obtain ⟨r', hr', rfl⟩ := Option.map_eq_some_iff.mp hr
        obtain ⟨rest, hrest, hacc'⟩ := ih hr'
        obtain ⟨filled, hfilled, hfill⟩ := fill_accesses n (fs.fetch h)
        have hview : ((fs.fetch h).fill n).view = fs.view.read h.sector := fetch_view fs h
        refine ⟨(first ++ filled) ++ rest, ?_, ((hacc.append hfill).append hacc').congr ?_⟩
        · rw [hrest, hfilled, hfirst]
          simp only [List.append_assoc]
        · rw [hview, contained_record hmore hlt hlen, and_true]

end Iso9660
