import Ultimate1541.Iso9660ListProofs

/-! # Directories of an ISO 9660 image that are well formed

    In a well-formed directory every sector has records one behind the other, and a zero behind
    the last of them unless the sector is full.  The listing gives each record that is no `.`
    or `..` once, in order: also a full sector is left by its end, whatever stands in the
    memory behind the buffer. -/

namespace Iso9660

variable {v : Volume}

/-- A record as it stands in a sector: its first byte is its length, and its identifier fits. -/
structure Record where
  bytes : List UInt8
  length_eq : (bytes.getD 0 0).toNat = bytes.length
  fits : actualSize + identifierLength (fun a => bytes.getD a 0) ≤ bytes.length

namespace Record

/-- The bytes of a record, as they are in `dir_record`. -/
def record (r : Record) : Nat → UInt8 := fun a => r.bytes.getD a 0

theorem length_ge (r : Record) : actualSize ≤ r.bytes.length :=
  Nat.le_trans (Nat.le_add_right _ _) r.fits

theorem length_ne (r : Record) : r.bytes.getD 0 0 ≠ 0 := by
  intro h
  have hlen := r.length_eq
  have hge := r.length_ge
  rw [h] at hlen
  rw [actualSize] at hge
  have hzero : (0 : UInt8).toNat = 0 := rfl
  omega

end Record

/-- The bytes of records one behind the other. -/
def bytesOf (rs : List Record) : List UInt8 := rs.flatMap Record.bytes

@[simp] theorem bytesOf_append (rs rs' : List Record) : bytesOf (rs ++ rs') = bytesOf rs ++ bytesOf rs' :=
  List.flatMap_append

@[simp] theorem bytesOf_cons (r : Record) (rs : List Record) : bytesOf (r :: rs) = r.bytes ++ bytesOf rs :=
  List.flatMap_cons

/-- A sector has the records, and a zero behind them unless it is full. -/
structure SectorHas (v : Volume) (sector : Nat) (rs : List Record) : Prop where
  sector_lt : sector < 2 ^ 32
  records : rs ≠ []
  used : (bytesOf rs).length ≤ v.sectorSize
  content : ∃ content, v.disk sector = some content ∧
    (∀ i < (bytesOf rs).length, content i = (bytesOf rs).getD i 0) ∧
    ((bytesOf rs).length < v.sectorSize → content (bytesOf rs).length = 0)

/-- A directory of `size` bytes from `sector` on, with the records of each of its sectors; the
    size reaches to the last record at least, and to the end of the last sector at most. -/
def WellFormed (v : Volume) : (sector size : Nat) → List (List Record) → Prop
  | _, size, [] => size = 0
  | sector, size, [rs] => SectorHas v sector rs ∧ (bytesOf rs).length ≤ size ∧ size ≤ v.sectorSize
  | sector, size, rs :: rs' :: more =>
      SectorHas v sector rs ∧ v.sectorSize ≤ size ∧ WellFormed v (sector + 1) (size - v.sectorSize) (rs' :: more)

/-- The entries that a directory has. -/
def entriesOf (v : Volume) (n : NameBuffer) (rs : List Record) : List FileInfo :=
  (rs.filter fun r => !isDot r.record).map fun r => fileInfo v n r.record

/-! ## One record -/

/-- A sector that can be read is in the buffer afterwards. -/
theorem read_buffer {w : View v} {sector : Nat} {content : Nat → UInt8} (hdisk : v.disk sector = some content)
    {a : Nat} (ha : a < v.sectorSize) : (w.read sector).buffer a = content a := by
  have hlast : (w.read sector).lastReadSector = sector := by
    rw [View.read]
    split
    next =>
      split
      · rfl
      · rfl
    next hsame => exact not_not.mp hsame
  exact (w.read sector).coherent content (by rw [hlast]; exact hdisk) a ha

/-- What `FileInfo` takes depends on the record up to the end of its identifier. -/
theorem fileInfo_congr {n : NameBuffer} {record record' : Nat → UInt8}
    (hlen : identifierLength record = identifierLength record')
    (hsame : ∀ a < actualSize + identifierLength record', record a = record' a) :
    fileInfo v n record = fileInfo v n record' ∧ isDot record = isDot record' := by
  have hlow : ∀ a < actualSize, record a = record' a := fun a ha => hsame a (by omega)
  have hident : identifier record = identifier record' := by
    rw [identifier, identifier, hlen]
    exact List.map_congr_left fun i hi => hsame _ (by have := List.mem_range.mp hi; omega)
  have hlong : ∀ off, off + 3 < actualSize → long record off = long record' off := by
    intro off hoff
    rw [long, long, hlow off (by omega), hlow (off + 1) (by omega), hlow (off + 2) (by omega),
      hlow (off + 3) (by omega)]
  constructor
  · rw [fileInfo, fileInfo, hident, hlong 2 (by decide), hlong 10 (by decide), hlow 25 (by decide)]
  · rw [isDot, isDot, hlen]
    by_cases hone : identifierLength record' = 1
    · rw [hsame actualSize (by omega)]
    · simp [hone]

/-- A record that stands at the handle is copied as it is, up to the end of its identifier. -/
theorem fetch_record {fs : Fs v} {h : Handle} {r : Record} {n : NameBuffer}
    (hstands : ∀ i < r.bytes.length, (fs.view.read h.sector).buffer (h.offset + i) = r.bytes.getD i 0) :
    lengthAt fs.view h = r.bytes.getD 0 0 ∧
      fileInfo v n (fs.fetch h).record = fileInfo v n r.record ∧ isDot (fs.fetch h).record = isDot r.record := by
  have hge := r.length_ge
  rw [actualSize] at hge
  have hfirst : lengthAt fs.view h = r.bytes.getD 0 0 := hstands 0 (by omega)
  obtain ⟨w, hw⟩ : ∃ w : Fs v, w = { fs with view := fs.view.read h.sector } := ⟨_, rfl⟩
  have hbuf : w.view.buffer h.offset = r.bytes.getD 0 0 := by rw [hw]; exact hfirst
  have hcopied : ∀ a < r.bytes.length, Fs.getDirRecord.copied h.offset w a = r.record a := by
    intro a ha
    have hin : a < (w.view.buffer h.offset).toNat := by rw [hbuf, r.length_eq]; exact ha
    rw [Fs.getDirRecord.copied, if_pos hin, hw]
    exact hstands a ha
  have hlen : identifierLength (Fs.getDirRecord.copied h.offset w) = identifierLength r.record := by
    rw [identifierLength, identifierLength, hcopied 32 (by omega)]
  have hfits : actualSize + identifierLength r.record ≤ r.bytes.length := r.fits
  have hrecord : (fs.fetch h).record = Fs.getDirRecord.terminated (Fs.getDirRecord.copied h.offset w) := by
    have hne : ¬w.view.buffer h.offset = 0 := by rw [hbuf]; exact r.length_ne
    rw [Fs.fetch, ← hw, Fs.getDirRecord, if_neg hne]
  -- the terminator is behind the identifier
  have hsame : ∀ a < actualSize + identifierLength r.record, (fs.fetch h).record a = r.record a := by
    intro a ha
    have hne : ¬a = actualSize + identifierLength (Fs.getDirRecord.copied h.offset w) := by rw [hlen]; omega
    rw [hrecord, Fs.getDirRecord.terminated, if_neg hne]
    exact hcopied a (by omega)
  have hlen' : identifierLength (fs.fetch h).record = identifierLength r.record := by
    have h32 := hsame 32 (by rw [actualSize]; omega)
    rw [identifierLength, identifierLength, h32]
  exact ⟨hfirst, fileInfo_congr hlen' hsame⟩

/-! ## A whole directory -/

/-- The records of a sector, from one on. -/
theorem walk_records {n : NameBuffer} {sector : Nat} {remaining : Int} {content : Nat → UInt8} {all : List Record}
    (hdisk : v.disk sector = some content) (hused : (bytesOf all).length ≤ v.sectorSize)
    (hhas : ∀ i < (bytesOf all).length, content i = (bytesOf all).getD i 0)
    (hremaining : ((bytesOf all).length : Int) ≤ remaining) {rs : List Record} :
    ∀ (before : List Record) (fs : Fs v), all = before ++ rs →
      ∃ fs', ∀ fuel, walk n (fuel + rs.length) fs ⟨sector, remaining, (bytesOf before).length⟩ =
        (walk n fuel fs' ⟨sector, remaining, (bytesOf all).length⟩).map
          fun r => (r.1, entriesOf v n rs ++ r.2) := by
  induction rs with
  | nil =>
      intro before fs hall
      rw [List.append_nil] at hall
      subst hall
      refine ⟨fs, fun fuel => ?_⟩
      simp [entriesOf]
  | cons r rs ih =>
      intro before fs hall
      have hbytes : bytesOf all = bytesOf before ++ (r.bytes ++ bytesOf rs) := by
        rw [hall, bytesOf_append, bytesOf_cons]
      have hlength : (bytesOf all).length =
          (bytesOf before).length + (r.bytes.length + (bytesOf rs).length) := by
        rw [hbytes, List.length_append, List.length_append]
      have hge := r.length_ge
      rw [actualSize] at hge
      have hstands : ∀ i < r.bytes.length,
          (fs.view.read sector).buffer ((bytesOf before).length + i) = r.bytes.getD i 0 := by
        intro i hi
        rw [read_buffer hdisk (by omega), hhas _ (by omega), hbytes,
          List.getD_append_right _ _ _ _ (Nat.le_add_right _ _), Nat.add_sub_cancel_left,
          List.getD_append _ _ _ _ hi]
      obtain ⟨hlen, hinfo, hdot⟩ := @fetch_record v fs ⟨sector, remaining, (bytesOf before).length⟩ r n
        hstands
      -- the handle is then behind the record
      have hadvance : Handle.advance ⟨sector, remaining, (bytesOf before).length⟩ (r.bytes.getD 0 0) =
          ⟨sector, remaining, (bytesOf (before ++ [r])).length⟩ := by
        have hone : bytesOf [r] = r.bytes := List.append_nil r.bytes
        rw [Handle.advance, r.length_eq, bytesOf_append, hone, List.length_append]
      have hall' : all = (before ++ [r]) ++ rs := by rw [hall, List.append_assoc]; rfl
      obtain ⟨hend, _⟩ | ⟨_, hnext, _⟩ | ⟨_, _, _, ⟨hd, ht⟩ | ⟨hd, ht⟩⟩ :=
        turn_cases n fs ⟨sector, remaining, (bytesOf before).length⟩
      · simp only at hend
        omega
      · obtain hzero | hbehind := hnext
        · exact absurd (hlen ▸ hzero) r.length_ne
        · simp only at hbehind
          omega
      · obtain ⟨fs', hrest⟩ := ih (before ++ [r]) (fs.fetch _) hall'
        refine ⟨fs', fun fuel => ?_⟩
        have hskip : entriesOf v n (r :: rs) = entriesOf v n rs := by
          rw [hdot] at hd
          simp [entriesOf, hd]
        rw [List.length_cons, ← Nat.add_assoc, walk_tryNext ht, hlen, hadvance, hrest, hskip]
      · obtain ⟨fs', hrest⟩ := ih (before ++ [r]) ((fs.fetch _).fill n) hall'
        refine ⟨fs', fun fuel => ?_⟩
        have htake : entriesOf v n (r :: rs) = fileInfo v n r.record :: entriesOf v n rs := by
          rw [hdot] at hd
          simp [entriesOf, hd]
        rw [List.length_cons, ← Nat.add_assoc, walk_entry ht, hlen, hadvance, hrest, htake, hinfo, Option.map_map]
        rfl

/-- A turn that finds the directory at its end. -/
theorem walk_end {n : NameBuffer} {fs : Fs v} {h : Handle} {fuel : Nat} (hend : h.remaining ≤ h.offset) :
    walk n (fuel + 1) fs h = some (fs, []) := by
  have ht : turn n fs h = .noFile fs := if_pos hend
  exact walk_noFile ht

theorem bytesOf_length_pos {rs : List Record} (h : rs ≠ []) : 0 < (bytesOf rs).length := by
  cases rs with
  | nil => exact absurd rfl h
  | cons r rs =>
      have := r.length_ge
      rw [actualSize] at this
      rw [bytesOf_cons, List.length_append]
      omega

/-- Behind the last record of a sector, the listing goes to the next one. -/
theorem turn_nextSector {n : NameBuffer} {fs : Fs v} {sector : Nat} {remaining : Int} {rs : List Record}
    (hhas : SectorHas v sector rs) (hmore : ((bytesOf rs).length : Int) < remaining) :
    ∃ fs', turn n fs ⟨sector, remaining, (bytesOf rs).length⟩ =
      .tryNext fs' ⟨(sector + 1) % 2 ^ 32, remaining - v.sectorSize, 0⟩ := by
  obtain ⟨content, hdisk, _, hzero⟩ := hhas.content
  have hpos := bytesOf_length_pos hhas.records
  obtain ⟨hend, _⟩ | ⟨_, _, ⟨hz, _⟩ | ⟨_, ht⟩⟩ | ⟨_, hlen, hlt, _⟩ :=
    turn_cases n fs ⟨sector, remaining, (bytesOf rs).length⟩
  · simp only at hend
    omega
  · exact absurd hz (Nat.ne_of_gt hpos)
  · exact ⟨_, ht⟩
  · -- a sector that is not full has a zero there
    have : lengthAt fs.view ⟨sector, remaining, (bytesOf rs).length⟩ = 0 :=
      (read_buffer hdisk hlt).trans (hzero hlt)
    exact absurd this hlen

/-- The first sector of a well-formed directory. -/
theorem WellFormed.first {sector size : Nat} {rs : List Record} {more : List (List Record)}
    (h : WellFormed v sector size (rs :: more)) : SectorHas v sector rs ∧ (bytesOf rs).length ≤ size := by
  cases more with
  | nil => exact ⟨h.1, h.2.1⟩
  | cons rs' more => exact ⟨h.1, Nat.le_trans h.1.used h.2.1⟩

/-- A well-formed directory is listed in full. -/
theorem walk_directory {n : NameBuffer} {secs : List (List Record)} :
    ∀ {sector size : Nat} (fs : Fs v), WellFormed v sector size secs →
      ∃ fuel fs', walk n fuel fs ⟨sector, size, 0⟩ = some (fs', entriesOf v n secs.flatten) := by
  induction secs with
  | nil =>
      intro sector size fs hwell
      have hzero : size = 0 := hwell
      exact ⟨1, fs, walk_end (Int.ofNat_le.mpr (Nat.le_of_eq hzero))⟩
  | cons rs more ih =>
      intro sector size fs hwell
      obtain ⟨hhas, hsize⟩ := hwell.first
      obtain ⟨content, hdisk, hbytes, _⟩ := hhas.content
      obtain ⟨fs', hwalk⟩ := walk_records (n := n) hdisk hhas.used hbytes
        (Int.ofNat_le.mpr hsize) [] fs rfl
      have hstart : ∀ fuel, walk n (fuel + rs.length) fs ⟨sector, size, 0⟩ = _ := hwalk
      cases more with
      | nil =>
          obtain ⟨_, _, hlast⟩ := hwell
          have hentries : entriesOf v n [rs].flatten = entriesOf v n rs ++ [] := by
            rw [List.append_nil, List.flatten_cons, List.flatten_nil, List.append_nil]
          rw [hentries]
          by_cases hend : (size : Int) ≤ (bytesOf rs).length
          · exact ⟨0 + 1 + rs.length, fs', by rw [hstart, walk_end hend]; rfl⟩
          · obtain ⟨next, ht⟩ := @turn_nextSector v n fs' _ _ _ hhas (Int.not_le.mp hend)
            have hdone : (size : Int) - v.sectorSize ≤ ((0 : Nat) : Int) := by omega
            exact ⟨2 + rs.length, next, by rw [hstart, walk_tryNext ht, walk_end hdone]; rfl⟩
      | cons rs' more =>
          obtain ⟨_, hfull, hrest⟩ := hwell
          obtain ⟨hnext, hreach⟩ := hrest.first
          -- the next sector has a record, so the directory goes on behind this one
          have hmore : ((bytesOf rs).length : Int) < size := by
            have hpos := bytesOf_length_pos hnext.records
            have hused := hhas.used
            omega
          obtain ⟨next, ht⟩ := @turn_nextSector v n fs' _ _ _ hhas hmore
          obtain ⟨fuel, last, hlast⟩ := ih next hrest
          have hmod : (sector + 1) % 2 ^ 32 = sector + 1 := Nat.mod_eq_of_lt hnext.sector_lt
          have hsub : (size : Int) - v.sectorSize = ((size - v.sectorSize : Nat) : Int) := by omega
          refine ⟨fuel + 1 + rs.length, last, ?_⟩
          rw [hstart, walk_tryNext ht, hmod, hsub, hlast]
          simp [entriesOf]

/-! ## Listing -/

/-- More turns than a listing of a directory takes. -/
def turns (v : Volume) (h : Handle) : Nat := h.measure v + 1

/-- A file system whose accesses begin to be recorded. -/
def Fs.start (w : View v) (record : Nat → UInt8) : Fs v := ⟨w, record, []⟩

/-- For every image, every directory of it and every state of the file system: the listing
    ends; it writes inside `dir_record` and the `FileInfo`; it reads inside the sector buffer
    just if the records it comes to are inside their sectors and none begins behind its sector;
    and of a well-formed directory it gives each record that is no `.` or `..` once and in
    order, just if the size is an `int` or there are none. -/
theorem list_directory (v : Volume) (n : NameBuffer) (w : View v) (record : Nat → UInt8)
    (sector size : UInt32) :
    ∃ fs infos,
      (∀ fuel calls, turns v (dirOpen sector.toNat size.toNat) ≤ fuel →
        turns v (dirOpen sector.toNat size.toNat) ≤ calls →
        list n fuel calls (Fs.start w record) (dirOpen sector.toNat size.toNat) = some (fs, infos)) ∧
      (∀ a ∈ fs.accesses, a.region ≠ .sectorBuffer → a.Inside v n) ∧
      ((∀ a ∈ fs.accesses, a.region = .sectorBuffer → a.Inside v n) ↔
        contained (turns v (dirOpen sector.toNat size.toNat)) w (dirOpen sector.toNat size.toNat) = true) ∧
      (∀ secs, WellFormed v sector.toNat size.toNat secs →
        (infos = entriesOf v n secs.flatten ↔ size.toNat < 2 ^ 31 ∨ entriesOf v n secs.flatten = [])) := by
  obtain ⟨h, hh⟩ : ∃ h, h = dirOpen sector.toNat size.toNat := ⟨_, rfl⟩
  rw [← hh]
  have hoff : h.offset < v.sectorSize + 256 := by
    rw [hh]
    exact Nat.lt_add_left v.sectorSize (Nat.zero_lt_succ 255)
  obtain ⟨⟨fs, infos⟩, hwalk⟩ := @walk_ends v n _ (Fs.start w record) _ hoff (Nat.lt_succ_self _)
  obtain ⟨more, hmore, haccesses⟩ := walk_accesses hwalk
  have hlog : fs.accesses = more := hmore
  refine ⟨fs, infos, fun fuel calls hf hc => list_of_walk hwalk hf hc, hlog ▸ haccesses.writes,
    hlog ▸ haccesses.reads, fun secs hwell => ?_⟩
  have hsize := size.toNat_lt
  by_cases hint : size.toNat < 2 ^ 31
  · refine iff_of_true ?_ (.inl hint)
    have hmod : (size.toNat : Int).bmod (2 ^ 32) = size.toNat := Int.bmod_eq_of_le (by omega) (by omega)
    obtain ⟨fuel, last, hlast⟩ := walk_directory (n := n) (Fs.start w record) hwell
    have hopen : h = ⟨sector.toNat, size.toNat, 0⟩ := by rw [hh, dirOpen, hmod]
    rw [← hopen] at hlast
    -- both give what enough calls list
    have hone := list_of_walk hwalk (Nat.le_max_left _ fuel) (Nat.le_max_left _ fuel)
    have htwo := list_of_walk hlast (Nat.le_max_right (h.measure v + 1) fuel)
      (Nat.le_max_right (h.measure v + 1) fuel)
    exact congrArg Prod.snd (Option.some.inj (hone.symm.trans htwo))
  · -- the remaining size is negative, and nothing is listed
    have hneg : h.remaining ≤ h.offset := by
      have hmod : (size.toNat : Int).bmod (2 ^ 32) = size.toNat - 2 ^ 32 := by
        rw [Int.bmod_def]
        have hrange : ¬(size.toNat : Int) % ((2 ^ 32 : Nat) : Int) < (((2 ^ 32 : Nat) : Int) + 1) / 2 := by omega
        rw [if_neg hrange]
        omega
      rw [hh, dirOpen, hmod]
      simp only
      omega
    have hnone : some (fs, infos) = some (Fs.start w record, ([] : List FileInfo)) :=
      hwalk.symm.trans (walk_end hneg)
    have hinfos : infos = [] := congrArg Prod.snd (Option.some.inj hnone)
    rw [hinfos]
    exact ⟨fun h => .inr h.symm, fun h => (h.resolve_left hint).symm⟩

/-- A directory of two sectors: the records of the first, of 172, 170 and 170 bytes, fill it. -/
def fullDisk : Volume where
  sectorSize := 512
  disk sector :=
    if sector = 100 then
      some fun a =>
        if a = 0 then 172 else if a = 172 ∨ a = 342 then 170 else if a % 170 = 32 ∨ a % 170 = 34 then 1 else 0x41
    else if sector = 101 then
      some fun a => if a = 0 then 34 else if a = 32 then 1 else if a = 33 then 0x42 else 0
    else none
  joliet := false
  sectorSize_ge := Nat.le_add_right 512 0
  sectorSize_le := Nat.le_add_right 512 3584

/-- The sector buffer when nothing could be read yet. -/
def emptyView : View fullDisk := ⟨0, fun _ => 0, nofun⟩

/-- The fourth call reads behind the sector buffer. -/
theorem list_reads_behind :
    ((list ⟨128, by decide⟩ 6 6 (Fs.start emptyView fun _ => 0) (dirOpen 100 1024)).map
      fun r => (r.1.accesses.filter (fun a => a.region = .sectorBuffer ∧ fullDisk.sectorSize < a.off + a.len),
        r.2.length)) = some ([⟨.sectorBuffer, 512, 1⟩], 4) := by
  decide +kernel

end Iso9660
