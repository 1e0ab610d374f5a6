import Ultimate1541.Iso9660Proofs

/-! # Files of an ISO 9660 image, and the sector buffer they share

    A file is an extent of sectors.  Whole sectors are read straight to where they are
    wanted; what begins or ends within a sector goes through the sector buffer, which the
    open files and the directory listings of the image share, with the number of the sector
    in it.  Here a read of the device may fail, and leaves anything in the buffer then:
    `move_window` keeps the old number, `get_dir_entry` records the new one. -/

namespace IsoFile

open Iso9660 (Volume Handle FileInfo NameBuffer)

/-! ## The device -/

/-- Which reads of the device fail, as they come, and what one of them leaves. -/
structure Device where
  fails : Nat → Bool
  left : Nat → Nat → UInt8

/-- `FileSystem_ISO9660`. -/
structure Fs where
  lastReadSector : Nat
  /-- `sector_buffer`, and the memory behind it. -/
  buffer : Nat → UInt8
  /-- `dir_record`, from `actual` on. -/
  record : Nat → UInt8
  /-- The reads of the device so far. -/
  reads : Nat
  /-- The last read into the buffer failed. -/
  failed : Bool

section Fs

variable (v : Volume) (d : Device)

/-- `prt->read` of a sector. -/
def Fs.prtRead (fs : Fs) (sector : Nat) : Option (Nat → UInt8) :=
  if d.fails fs.reads = true then none else v.disk sector

/-- `prt->read(sector_buffer, sector, 1)`, and whether it answers no error. -/
def Fs.readBuffer (fs : Fs) (sector : Nat) : Bool × Fs :=
  match fs.prtRead v d sector with
  | some content =>
      (true, { fs with
        buffer := fun a => if a < v.sectorSize then content a else fs.buffer a
        reads := fs.reads + 1
        failed := false })
  | none =>
      (false, { fs with
        buffer := fun a => if a < v.sectorSize then d.left fs.reads a else fs.buffer a
        reads := fs.reads + 1
        failed := true })

/-- `FileSystem_ISO9660::move_window`. -/
def Fs.moveWindow (fs : Fs) (sector : Nat) : Bool × Fs :=
  if fs.lastReadSector = sector then (true, fs)
  else if (fs.readBuffer v d sector).1 = true then
    (true, { (fs.readBuffer v d sector).2 with lastReadSector := sector })
  else (false, (fs.readBuffer v d sector).2)

/-- The read in `get_dir_entry`, and those in `init`. -/
def Fs.fetch (fs : Fs) (sector : Nat) : Fs :=
  { (fs.readBuffer v d sector).2 with lastReadSector := sector }

/-! ## Mounting -/

/-- `volume->key[0]`. -/
def Fs.key (fs : Fs) : UInt8 := fs.buffer 0

/-- The loop of `init` that looks for a Joliet descriptor behind `sector`. -/
def Fs.probe : (fuel : Nat) → (sector : Nat) → Fs → Option Fs
  | 0, _, _ => none
  | fuel + 1, sector, fs =>
      let fs := fs.fetch v d (sector + 1)
      if fs.failed = true then some fs
      else if fs.key = 0xFF ∨ fs.key = 0x00 ∨ fs.key = 0x02 then some fs
      else Fs.probe fuel (sector + 1) fs

/-- `c_volume_key`. -/
def volumeKey : List UInt8 := [0x01, 0x43, 0x44, 0x30, 0x30, 0x31, 0x01, 0x00]

/-- `init`, of the buffer; `none` when it answers false, or is still looking. -/
def Fs.init (fuel : Nat) (fs : Fs) : Option Fs :=
  let first := 32768 / v.sectorSize
  let fs := fs.fetch v d first
  if fs.failed = true then none
  else if (List.range 8).map fs.buffer ≠ volumeKey then none
  else
    -- `volume->volume_identifier[31] = 0`
    Fs.probe v d fuel first { fs with buffer := fun a => if a = 71 then 0 else fs.buffer a }

/-! ## Directories -/

/-- `get_dir_record`, of what is in the buffer at `off`. -/
def Fs.getDirRecord (fs : Fs) (off : Nat) : Fs :=
  if fs.buffer off = 0 then
    { fs with record := fun a => if a = 0 then 0 else fs.record a }
  else
    let copied : Nat → UInt8 := fun a =>
      if a < (fs.buffer off).toNat then fs.buffer (off + a) else fs.record a
    { fs with record := fun a =>
        if a = Iso9660.actualSize + Iso9660.identifierLength copied then 0 else copied a }

/-- What one turn at `try_next` comes to. -/
inductive Turn where
  | tryNext (h : Handle)
  | noFile
  | entry (h : Handle) (info : FileInfo)

/-- One turn at `try_next` in `get_dir_entry`. -/
def Fs.turn (n : NameBuffer) (fs : Fs) (h : Handle) : Fs × Turn :=
  if h.remaining ≤ h.offset then (fs, .noFile)
  else
    let fs := if fs.lastReadSector ≠ h.sector then fs.fetch v d h.sector else fs
    let fs := fs.getDirRecord h.offset
    if fs.record 0 = 0 ∨ v.sectorSize ≤ h.offset then
      if h.offset = 0 then (fs, .noFile) else (fs, .tryNext (h.nextSector v))
    else
      let next := { h with offset := h.offset + (fs.record 0).toNat }
      if Iso9660.isDot fs.record then (fs, .tryNext next)
      else (fs, .entry next (Iso9660.fileInfo v n fs.record))

end Fs

/-! ## Files -/

/-- `File_ISO9660`, with its handle. -/
structure File where
  start : Nat
  remaining : Nat
  offset : Nat
  remaining_lt : remaining < 2 ^ 32
  offset_le : offset ≤ remaining

/-- `File_ISO9660::File_ISO9660`. -/
def File.new (cluster size : UInt32) : File :=
  ⟨cluster.toNat, size.toNat, 0, size.toNat_lt, Nat.zero_le _⟩

/-- `File_ISO9660::seek`. -/
def File.seek (f : File) (pos : UInt32) : File :=
  { f with
    offset := if f.remaining ≤ pos.toNat then f.remaining else pos.toNat
    offset_le := by
      split
      · exact Nat.le_refl _
      · omega }

/-- A read that is going on: where it is, how much is left, and what it has delivered. -/
structure Reading where
  fs : Fs
  offset : Nat
  sect : Nat
  sectOffset : Nat
  len : Nat
  dest : List UInt8
  transferred : Nat

/-- The first `n` bytes of a memory. -/
def firstBytes (m : Nat → UInt8) (n : Nat) : List UInt8 := (List.range n).map m

section Files

variable (v : Volume) (d : Device)

/-- A round of the loop of `File_ISO9660::read`; false is `FR_DISK_ERR`. -/
def Reading.round (r : Reading) : Bool × Reading :=
  if r.sectOffset = 0 ∧ v.sectorSize ≤ r.len then
    match r.fs.prtRead v d r.sect with
    | some content =>
        (true,
          { fs := { r.fs with reads := r.fs.reads + 1 }
            offset := r.offset + v.sectorSize
            sect := (r.sect + 1) % 2 ^ 32
            sectOffset := r.sectOffset
            len := r.len - v.sectorSize
            dest := r.dest ++ firstBytes content v.sectorSize
            transferred := r.transferred + v.sectorSize })
    | none => (false, { r with fs := { r.fs with reads := r.fs.reads + 1 } })
  else
    let m := r.fs.moveWindow v d r.sect
    if m.1 = true then
      let sectRemain := v.sectorSize - r.sectOffset
      let takeNow := if r.len < sectRemain then r.len else sectRemain
      (true,
        { fs := m.2
          offset := r.offset + takeNow
          sect := if sectRemain = takeNow then (r.sect + 1) % 2 ^ 32 else r.sect
          sectOffset := if sectRemain = takeNow then 0 else r.sectOffset + takeNow
          len := r.len - takeNow
          dest := r.dest ++ firstBytes (fun a => m.2.buffer (r.sectOffset + a)) takeNow
          transferred := r.transferred + takeNow })
    else (false, { r with fs := m.2 })

/-- `while(len)`, in at most `fuel` rounds. -/
def Reading.loop : (fuel : Nat) → Reading → Bool × Reading
  | 0, r => (true, r)
  | fuel + 1, r =>
      if r.len = 0 then (true, r)
      else
        let next := r.round v d
        if next.1 = true then Reading.loop fuel next.2 else next

/-- No round changes where the read ends. -/
theorem round_sum (r : Reading) :
    (r.round v d).2.offset + (r.round v d).2.len = r.offset + r.len := by
  rw [Reading.round]
  by_cases hwhole : r.sectOffset = 0 ∧ v.sectorSize ≤ r.len
  · rw [if_pos hwhole]
    split
    · show r.offset + v.sectorSize + (r.len - v.sectorSize) = r.offset + r.len
      omega
    · rfl
  · rw [if_neg hwhole]
    simp only
    split
    · simp only
      split <;> omega
    · rfl

theorem loop_sum (fuel : Nat) (r : Reading) :
    (r.loop v d fuel).2.offset + (r.loop v d fuel).2.len = r.offset + r.len := by
  induction fuel generalizing r with
  | zero => rfl
  | succ fuel ih =>
      simp only [Reading.loop]
      split
      · rfl
      · split
        · exact (ih _).trans (round_sum v d r)
        · exact round_sum v d r

/-- The length of a read: what is asked, or what remains. -/
def File.length (f : File) (len : UInt32) : Nat := min len.toNat (f.remaining - f.offset)

/-- A read at its begin. -/
def File.begin (f : File) (fs : Fs) (len : UInt32) : Reading where
  fs := fs
  offset := f.offset
  sect := (f.offset / v.sectorSize + f.start) % 2 ^ 32
  sectOffset := f.offset - v.sectorSize * (f.offset / v.sectorSize)
  len := f.length len
  dest := []
  transferred := 0

/-- A read that has ended, with its status; each round takes a byte at least. -/
def File.reading (f : File) (fs : Fs) (len : UInt32) : Bool × Reading :=
  (f.begin v fs len).loop v d (f.length len)

/-- `File_ISO9660::read`, of the file. -/
def File.read (f : File) (fs : Fs) (len : UInt32) : File :=
  { f with
    offset := (f.reading v d fs len).2.offset
    offset_le := by
      have hsum := loop_sum v d (f.length len) (f.begin v fs len)
      have hle : f.offset + f.length len ≤ f.remaining := by
        have := f.offset_le
        rw [File.length]
        omega
      exact Nat.le_trans (Nat.le_add_right _ _) (Nat.le_trans (Nat.le_of_eq hsum) hle) }

/-! ## What a file is -/

/-- The sector that byte `i` of a file is in. -/
def File.sector (f : File) (i : Nat) : Nat := (i / v.sectorSize + f.start) % 2 ^ 32

/-- Byte `i` of the extent of a file. -/
def File.byte (f : File) (i : Nat) : UInt8 :=
  match v.disk (f.sector v i) with
  | some content => content (i % v.sectorSize)
  | none => 0

/-- `n` bytes of the extent from `pos` on. -/
def File.extent (f : File) (pos n : Nat) : List UInt8 := firstBytes (fun i => f.byte v (pos + i)) n

/-- A read that answers `FR_OK` delivers the bytes of the extent, as many as asked or as
    remain, and advances by as many. -/
def File.Delivers (f : File) (fs : Fs) (len : UInt32) : Prop :=
  let r := f.reading v d fs len
  r.1 = true →
    r.2.dest = f.extent v f.offset (f.length len) ∧ r.2.transferred = f.length len ∧
      (f.read v d fs len).offset = f.offset + f.length len

/-- The buffer has the sector of its number, unless the last read into it failed. -/
def Fs.Coherent (fs : Fs) : Prop :=
  fs.failed = false →
    ∃ content, v.disk fs.lastReadSector = some content ∧
      ∀ a < v.sectorSize, fs.buffer a = content a

/-- Where a read of `len` bytes from `offset` on first uses the buffer, in sectors from the
    start of the file. -/
def firstLookup (offset len : Nat) : Option Nat :=
  if offset % v.sectorSize = 0 ∧ v.sectorSize ≤ len then
    if len % v.sectorSize = 0 then none else some ((offset + len) / v.sectorSize)
  else if len = 0 then none
  else some (offset / v.sectorSize)

/-- When the last read into the buffer has failed, the sector that is looked up first is
    not the one that the buffer has the number of. -/
def File.Fresh (f : File) (fs : Fs) (len : UInt32) : Prop :=
  fs.failed = true →
    ∀ s ∈ firstLookup v f.offset (f.length len), (s + f.start) % 2 ^ 32 ≠ fs.lastReadSector

/-! ## The buffer -/

section Buffer

variable {v d}

theorem readBuffer_coherent (fs : Fs) (sector : Nat) :
    (fs.readBuffer v d sector).1 = !(fs.readBuffer v d sector).2.failed ∧
      ((fs.readBuffer v d sector).2.failed = false → ∃ content, v.disk sector = some content ∧
        ∀ a < v.sectorSize, (fs.readBuffer v d sector).2.buffer a = content a) := by
  rw [Fs.readBuffer]
  cases hread : fs.prtRead v d sector with
  | none => exact ⟨rfl, fun h => by cases h⟩
  | some content =>
      refine ⟨rfl, fun _ => ⟨content, ?_, fun a ha => if_pos ha⟩⟩
      rw [Fs.prtRead] at hread
      split at hread
      · cases hread
      · exact hread

theorem fetch_coherent (fs : Fs) (sector : Nat) : (fs.fetch v d sector).Coherent v :=
  (readBuffer_coherent fs sector).2

/-- After `move_window` has answered no error, the buffer has the sector, when it was not
    there by a read that failed. -/
theorem moveWindow_coherent {fs : Fs} {sector : Nat} (h : fs.Coherent v)
    (hfresh : fs.failed = true → sector ≠ fs.lastReadSector) :
    (fs.moveWindow v d sector).2.Coherent v ∧
      ((fs.moveWindow v d sector).1 = true → (fs.moveWindow v d sector).2.failed = false ∧
        (fs.moveWindow v d sector).2.lastReadSector = sector) := by
  obtain ⟨hok, hread⟩ := readBuffer_coherent (v := v) (d := d) fs sector
  rw [Fs.moveWindow]
  by_cases hhit : fs.lastReadSector = sector
  · rw [if_pos hhit]
    refine ⟨h, fun _ => ⟨?_, hhit⟩⟩
    cases hfailed : fs.failed with
    | true => exact absurd hhit.symm (hfresh hfailed)
    | false => rfl
  · rw [if_neg hhit]
    by_cases hread1 : (fs.readBuffer v d sector).1 = true
    · rw [if_pos hread1]
      rw [hread1] at hok
      have hfailed : (fs.readBuffer v d sector).2.failed = false := by simpa using hok
      exact ⟨hread, fun _ => ⟨hfailed, rfl⟩⟩
    · rw [if_neg hread1]
      refine ⟨fun hfailed => ?_, fun h => nomatch h⟩
      rw [hok, show (fs.readBuffer v d sector).2.failed = false from hfailed] at hread1
      exact absurd rfl hread1

theorem probe_coherent {fuel sector : Nat} {fs fs' : Fs}
    (h : fs.probe v d fuel sector = some fs') : fs'.Coherent v := by
  induction fuel generalizing sector fs with
  | zero => exact nomatch h
  | succ fuel ih =>
      simp only [Fs.probe] at h
      split at h
      · cases h
        exact fetch_coherent fs (sector + 1)
      · split at h
        · cases h
          exact fetch_coherent fs (sector + 1)
        · exact ih h

theorem init_coherent {fuel : Nat} {fs fs' : Fs} (h : fs.init v d fuel = some fs') :
    fs'.Coherent v := by
  simp only [Fs.init] at h
  split at h
  · exact nomatch h
  · split at h
    · exact nomatch h
    · exact probe_coherent h

theorem getDirRecord_coherent {fs : Fs} (h : fs.Coherent v) (off : Nat) :
    (fs.getDirRecord off).Coherent v := by
  rw [Fs.getDirRecord]
  split <;> exact h

/-- A directory listing leaves the buffer in order, too. -/
theorem turn_coherent {fs : Fs} (h : fs.Coherent v) (n : NameBuffer) (hd : Handle) :
    (fs.turn v d n hd).1.Coherent v := by
  have hfetch : ((if fs.lastReadSector ≠ hd.sector then fs.fetch v d hd.sector else fs).getDirRecord
      hd.offset).Coherent v := by
    refine getDirRecord_coherent ?_ hd.offset
    split
    · exact fetch_coherent fs hd.sector
    · exact h
  simp only [Fs.turn]
  by_cases hend : hd.remaining ≤ hd.offset
  · rw [if_pos hend]
    exact h
  · rw [if_neg hend]
    generalize (if fs.lastReadSector ≠ hd.sector then fs.fetch v d hd.sector else fs).getDirRecord
      hd.offset = fs' at hfetch ⊢
    split <;> split <;> exact hfetch

/-! ## A round, and a read -/

theorem firstBytes_append (m : Nat → UInt8) (n k : Nat) :
    firstBytes m n ++ firstBytes (fun a => m (n + a)) k = firstBytes m (n + k) := by
  simp [firstBytes, List.range_add]

theorem firstBytes_congr {m m' : Nat → UInt8} {n : Nat} (h : ∀ a < n, m a = m' a) :
    firstBytes m n = firstBytes m' n := by
  simpa [firstBytes] using h

/-- What is asked of the file at `pos`: the read is there, has delivered the bytes up to
    it, and the buffer is in order. -/
structure Reading.At (v : Volume) (f : File) (pos : Nat) (r : Reading) : Prop where
  sect : r.sect = f.sector v r.offset
  sectOffset : r.sectOffset = r.offset % v.sectorSize
  le : pos ≤ r.offset
  dest : r.dest = f.extent v pos (r.offset - pos)
  transferred : r.transferred = r.offset - pos
  coherent : r.fs.Coherent v
  fresh : r.fs.failed = true →
    ∀ s ∈ firstLookup v r.offset r.len, (s + f.start) % 2 ^ 32 ≠ r.fs.lastReadSector

theorem sectorSize_pos (v : Volume) : 0 < v.sectorSize := by
  have := v.sectorSize_ge
  omega

/-- Bytes of one sector. -/
theorem byte_in_sector {f : File} {offset a : Nat} (h : offset % v.sectorSize + a < v.sectorSize)
    {content : Nat → UInt8} (hc : v.disk (f.sector v offset) = some content) :
    f.byte v (offset + a) = content (offset % v.sectorSize + a) := by
  have hdiv : (offset + a) / v.sectorSize = offset / v.sectorSize := by
    conv_lhs => rw [← Nat.div_add_mod offset v.sectorSize, Nat.add_assoc,
      Nat.mul_add_div (sectorSize_pos v), Nat.div_eq_of_lt h, Nat.add_zero]
  have hmod : (offset + a) % v.sectorSize = offset % v.sectorSize + a := by
    rw [← Nat.mod_add_mod, Nat.mod_eq_of_lt h]
  simp only [File.byte, File.sector, hdiv, hmod] at hc ⊢
  rw [hc]

/-- What is delivered grows by bytes of one sector. -/
theorem extent_append {f : File} {pos offset n : Nat} (hle : pos ≤ offset) {m : Nat → UInt8}
    (h : ∀ a < n, m a = f.byte v (offset + a)) :
    f.extent v pos (offset - pos) ++ firstBytes m n = f.extent v pos (offset + n - pos) := by
  have hm : firstBytes m n = firstBytes (fun a => f.byte v (pos + (offset - pos + a))) n := by
    refine firstBytes_congr fun a ha => ?_
    rw [h a ha, ← Nat.add_assoc, Nat.add_sub_cancel' hle]
  rw [hm, File.extent, File.extent, firstBytes_append (fun i => f.byte v (pos + i))]
  congr 1
  omega

/-- An offset is in a sector. -/
theorem offset_eq (v : Volume) (offset : Nat) :
    ∃ q t, t < v.sectorSize ∧ offset = t + q * v.sectorSize :=
  ⟨offset / v.sectorSize, offset % v.sectorSize, Nat.mod_lt _ (sectorSize_pos v),
    by rw [Nat.add_comm, Nat.mul_comm, Nat.div_add_mod]⟩

/-- A step within a sector, or to the begin of the next. -/
theorem sector_add (v : Volume) (f : File) (offset n : Nat)
    (h : offset % v.sectorSize + n ≤ v.sectorSize) :
    (if offset % v.sectorSize + n = v.sectorSize then (f.sector v offset + 1) % 2 ^ 32
      else f.sector v offset) = f.sector v (offset + n) ∧
    (if offset % v.sectorSize + n = v.sectorSize then 0 else offset % v.sectorSize + n) =
      (offset + n) % v.sectorSize := by
  have hpos := sectorSize_pos v
  obtain ⟨q, t, ht, rfl⟩ := offset_eq v offset
  rw [Nat.add_mul_mod_self_right, Nat.mod_eq_of_lt ht] at h ⊢
  rw [show t + q * v.sectorSize + n = (t + n) + q * v.sectorSize by omega,
    Nat.add_mul_mod_self_right, File.sector, File.sector, Nat.add_mul_div_right _ _ hpos,
    Nat.add_mul_div_right _ _ hpos, Nat.div_eq_of_lt ht]
  by_cases hend : t + n = v.sectorSize
  · rw [if_pos hend, if_pos hend, hend, Nat.mod_self, Nat.div_self hpos]
    exact ⟨by omega, rfl⟩
  · have hlt : t + n < v.sectorSize := by omega
    rw [if_neg hend, if_neg hend, Nat.mod_eq_of_lt hlt, Nat.div_eq_of_lt hlt]
    exact ⟨rfl, rfl⟩

/-- A whole sector leaves the sector that is looked up first the same. -/
theorem firstLookup_whole {offset len : Nat} (h0 : offset % v.sectorSize = 0)
    (hle : v.sectorSize ≤ len) :
    firstLookup v (offset + v.sectorSize) (len - v.sectorSize) = firstLookup v offset len := by
  have hpos := sectorSize_pos v
  have hoff : (offset + v.sectorSize) % v.sectorSize = 0 := by rw [Nat.add_mod_right, h0]
  have hlen : (len - v.sectorSize) % v.sectorSize = len % v.sectorSize :=
    (Nat.mod_eq_sub_mod hle).symm
  have hfirst : firstLookup v offset len =
      if len % v.sectorSize = 0 then none else some ((offset + len) / v.sectorSize) :=
    if_pos ⟨h0, hle⟩
  rw [hfirst, firstLookup]
  by_cases hmore : v.sectorSize ≤ len - v.sectorSize
  · rw [if_pos ⟨hoff, hmore⟩, hlen,
      show offset + v.sectorSize + (len - v.sectorSize) = offset + len by omega]
  · rw [if_neg fun h => hmore h.2]
    have hlast : len % v.sectorSize = len - v.sectorSize := by
      rw [← hlen, Nat.mod_eq_of_lt (by omega)]
    rw [hlast]
    by_cases hzero : len - v.sectorSize = 0
    · rw [if_pos hzero, if_pos hzero]
    · rw [if_neg hzero, if_neg hzero]
      congr 1
      rw [show offset + len = len - v.sectorSize + (offset + v.sectorSize) by omega]
      obtain ⟨q, t, ht, hq⟩ := offset_eq v (offset + v.sectorSize)
      have ht0 : t = 0 := by
        rw [hq, Nat.add_mul_mod_self_right, Nat.mod_eq_of_lt ht] at hoff
        exact hoff
      rw [hq, ht0, Nat.zero_add, Nat.add_mul_div_right _ _ hpos, Nat.mul_div_cancel _ hpos,
        Nat.div_eq_of_lt (by omega), Nat.zero_add]

/-- A round that answers no error is at the bytes behind. -/
theorem round_at {f : File} {pos : Nat} {r : Reading} (h : r.At v f pos) (hlen : r.len ≠ 0) :
    (r.round v d).2.fs.Coherent v ∧
      ((r.round v d).1 = true → (r.round v d).2.At v f pos ∧ (r.round v d).2.len < r.len) := by
  have hpos := sectorSize_pos v
  have hso : r.offset % v.sectorSize < v.sectorSize := Nat.mod_lt _ hpos
  rw [Reading.round]
  by_cases hwhole : r.sectOffset = 0 ∧ v.sectorSize ≤ r.len
  · rw [if_pos hwhole]
    have h0 : r.offset % v.sectorSize = 0 := h.sectOffset ▸ hwhole.1
    obtain ⟨hsect, hoff⟩ := sector_add v f r.offset v.sectorSize (by omega)
    rw [if_pos (by omega)] at hsect hoff
    cases hread : r.fs.prtRead v d r.sect with
    | none => exact ⟨h.coherent, fun h => by cases h⟩
    | some content =>
        have hdisk : v.disk (f.sector v r.offset) = some content := by
          rw [← h.sect]
          rw [Fs.prtRead] at hread
          split at hread
          · cases hread
          · exact hread
        refine ⟨h.coherent, fun _ => ⟨⟨?_, ?_, ?_, ?_, ?_, h.coherent, ?_⟩, ?_⟩⟩
        · exact (congrArg (fun s => (s + 1) % 2 ^ 32) h.sect).trans hsect
        · exact hwhole.1.trans hoff
        · exact Nat.le_trans h.le (Nat.le_add_right _ _)
        · refine (congrArg (· ++ _) h.dest).trans (extent_append h.le fun a ha => ?_)
          rw [byte_in_sector (by omega) hdisk, h0, Nat.zero_add]
        · have hle := h.le
          have htr := h.transferred
          show r.transferred + v.sectorSize = r.offset + v.sectorSize - pos
          omega
        · show r.fs.failed = true → _
          rw [firstLookup_whole h0 hwhole.2]
          exact h.fresh
        · show r.len - v.sectorSize < r.len
          omega
  · rw [if_neg hwhole]
    have hfirst : firstLookup v r.offset r.len = some (r.offset / v.sectorSize) := by
      rw [firstLookup, if_neg (h.sectOffset ▸ hwhole), if_neg hlen]
    have hfresh : r.fs.failed = true → r.sect ≠ r.fs.lastReadSector := by
      intro hfailed
      rw [h.sect]
      exact h.fresh hfailed _ hfirst
    obtain ⟨hcoh, hok⟩ := moveWindow_coherent (d := d) h.coherent hfresh
    simp only
    by_cases hread : (r.fs.moveWindow v d r.sect).1 = true
    · rw [if_pos hread]
      obtain ⟨hfailed, hlast⟩ := hok hread
      obtain ⟨content, hdisk, hbuffer⟩ := hcoh hfailed
      rw [hlast, h.sect] at hdisk
      generalize htake : (if r.len < v.sectorSize - r.sectOffset then r.len
        else v.sectorSize - r.sectOffset) = takeNow
      have htake' : 0 < takeNow ∧ takeNow ≤ r.len ∧ r.offset % v.sectorSize + takeNow ≤ v.sectorSize := by
        rw [h.sectOffset] at htake
        split at htake <;> omega
      obtain ⟨hsect, hoff⟩ := sector_add v f r.offset takeNow htake'.2.2
      have hcond : v.sectorSize - r.sectOffset = takeNow ↔
          r.offset % v.sectorSize + takeNow = v.sectorSize := by
        rw [h.sectOffset]
        omega
      refine ⟨hcoh, fun _ => ⟨⟨?_, ?_, ?_, ?_, ?_, hcoh, ?_⟩, ?_⟩⟩
      · simp only [hcond, h.sect]
        exact hsect
      · simp only [hcond]
        rw [h.sectOffset]
        exact hoff
      · exact Nat.le_trans h.le (Nat.le_add_right _ _)
      · refine (congrArg (· ++ _) h.dest).trans (extent_append h.le fun a ha => ?_)
        rw [byte_in_sector (by omega) hdisk, h.sectOffset]
        exact hbuffer _ (by omega)
      · have hle := h.le
        have htr := h.transferred
        show r.transferred + takeNow = r.offset + takeNow - pos
        omega
      · exact fun hf => absurd (hf.symm.trans hfailed) (by decide)
      · show r.len - takeNow < r.len
        omega
    · rw [if_neg hread]
      exact ⟨hcoh, fun h => by cases h⟩

/-- A read that answers no error comes to its end. -/
theorem loop_at {f : File} {pos fuel : Nat} {r : Reading} (h : r.At v f pos) (hfuel : r.len ≤ fuel) :
    (r.loop v d fuel).2.fs.Coherent v ∧
      ((r.loop v d fuel).1 = true →
        (r.loop v d fuel).2.At v f pos ∧ (r.loop v d fuel).2.len = 0) := by
  induction fuel generalizing r with
  | zero => exact ⟨h.coherent, fun _ => ⟨h, Nat.le_zero.1 hfuel⟩⟩
  | succ fuel ih =>
      simp only [Reading.loop]
      by_cases hzero : r.len = 0
      · rw [if_pos hzero]
        exact ⟨h.coherent, fun _ => ⟨h, hzero⟩⟩
      · rw [if_neg hzero]
        obtain ⟨hcoh, hround⟩ := round_at (d := d) h hzero
        by_cases hok : (r.round v d).1 = true
        · rw [if_pos hok]
          obtain ⟨hat, hlt⟩ := hround hok
          exact ih hat (by omega)
        · rw [if_neg hok]
          exact ⟨hcoh, fun h => absurd h hok⟩

/-- A read of a file through a buffer in order. -/
theorem reading_spec {f : File} {fs : Fs} {len : UInt32} (h : fs.Coherent v)
    (hfresh : f.Fresh v fs len) :
    (f.reading v d fs len).2.fs.Coherent v ∧ f.Delivers v d fs len := by
  have hbegin : (f.begin v fs len).At v f f.offset :=
    { sect := rfl
      sectOffset := by
        have := Nat.div_add_mod f.offset v.sectorSize
        show f.offset - v.sectorSize * (f.offset / v.sectorSize) = f.offset % v.sectorSize
        omega
      le := Nat.le_refl _
      dest := by
        show [] = f.extent v f.offset (f.offset - f.offset)
        rw [Nat.sub_self]
        rfl
      transferred := (Nat.sub_self f.offset).symm
      coherent := h
      fresh := hfresh }
  obtain ⟨hcoh, hloop⟩ := loop_at (d := d) hbegin (Nat.le_refl (f.length len))
  refine ⟨hcoh, fun hok => ?_⟩
  obtain ⟨hat, hzero⟩ := hloop hok
  have hsum := loop_sum v d (f.length len) (f.begin v fs len)
  rw [hzero, Nat.add_zero] at hsum
  have hoff : (f.reading v d fs len).2.offset = f.offset + f.length len := hsum
  have hlen : f.offset + f.length len - f.offset = f.length len := Nat.add_sub_cancel_left ..
  refine ⟨?_, ?_, hoff⟩
  · have hdest := hat.dest
    rwa [hsum, show (f.begin v fs len).offset + (f.begin v fs len).len - f.offset =
      f.length len from hlen] at hdest
  · have htr := hat.transferred
    rwa [hsum, show (f.begin v fs len).offset + (f.begin v fs len).len - f.offset =
      f.length len from hlen] at htr

end Buffer

end Files

/-! ## Runs -/

/-- A mounted image, with its open files and directories. -/
structure Mounted where
  fs : Fs
  files : Nat → File
  dirs : Nat → Handle

inductive Event where
  | fileOpen (id : Nat) (cluster size : UInt32)
  | seek (id : Nat) (pos : UInt32)
  | read (id : Nat) (len : UInt32)
  | dirOpen (id : Nat) (sector size : UInt32)
  /-- One turn of `get_dir_entry`: a call of it is such turns until one finds an entry, or
      no file. -/
  | tryNext (id : Nat) (n : NameBuffer)

section Runs

variable (v : Volume) (d : Device)

def Mounted.step (m : Mounted) : Event → Mounted
  | .fileOpen id cluster size =>
      { m with files := Function.update m.files id (File.new cluster size) }
  | .seek id pos => { m with files := Function.update m.files id ((m.files id).seek pos) }
  | .read id len =>
      { m with
        fs := ((m.files id).reading v d m.fs len).2.fs
        files := Function.update m.files id ((m.files id).read v d m.fs len) }
  | .dirOpen id sector size =>
      { m with dirs := Function.update m.dirs id (Iso9660.dirOpen sector.toNat size.toNat) }
  | .tryNext id n =>
      match m.fs.turn v d n (m.dirs id) with
      | (fs, .tryNext h) => { m with fs := fs, dirs := Function.update m.dirs id h }
      | (fs, .entry h _) => { m with fs := fs, dirs := Function.update m.dirs id h }
      | (fs, .noFile) => { m with fs := fs }

/-- `p` of each event, where it happens. -/
def Mounted.Each (p : Mounted → Event → Prop) : Mounted → List Event → Prop
  | _, [] => True
  | m, e :: events => p m e ∧ Mounted.Each p (m.step v d e) events

/-- What is asked of a read. -/
def Mounted.Fresh (m : Mounted) : Event → Prop
  | .read id len => (m.files id).Fresh v m.fs len
  | _ => True

/-- What a read does. -/
def Mounted.Delivers (m : Mounted) : Event → Prop
  | .read id len => (m.files id).Delivers v d m.fs len
  | _ => True

variable {v d}

/-- Every step leaves the buffer in order, and a read delivers what it should. -/
theorem step_delivers {m : Mounted} (h : m.fs.Coherent v) {e : Event} (hfresh : m.Fresh v e) :
    (m.step v d e).fs.Coherent v ∧ m.Delivers v d e := by
  cases e with
  | fileOpen id cluster size => exact ⟨h, trivial⟩
  | seek id pos => exact ⟨h, trivial⟩
  | dirOpen id sector size => exact ⟨h, trivial⟩
  | read id len => exact reading_spec h hfresh
  | tryNext id n =>
      refine ⟨?_, trivial⟩
      have hturn := turn_coherent (d := d) h n (m.dirs id)
      simp only [Mounted.step]
      split <;> rename_i heq <;> rw [heq] at hturn <;> exact hturn

theorem each_delivers {m : Mounted} (h : m.fs.Coherent v) (events : List Event)
    (hfresh : m.Each v d (Mounted.Fresh v) events) : m.Each v d (Mounted.Delivers v d) events := by
  induction events generalizing m with
  | nil => trivial
  | cons e events ih =>
      obtain ⟨he, hrest⟩ := hfresh
      obtain ⟨hstep, hdel⟩ := step_delivers (d := d) h he
      exact ⟨hdel, ih hstep hrest⟩

end Runs

/-! ## A read that fails -/

/-- An image of sectors of 512 bytes, all ones but for the descriptors. -/
def onesDisk : Volume where
  sectorSize := 512
  disk s := some fun a =>
    if s = 64 then volumeKey.getD a 0 else if s = 65 then 0 else 1
  joliet := false
  sectorSize_ge := by decide
  sectorSize_le := by decide

/-- The third read fails, and leaves sevens. -/
def thirdFails : Device := ⟨fun k => k == 2, fun _ _ => 7⟩

def anyFs : Fs := ⟨0, fun _ => 0, fun _ => 0, 0, false⟩

def anyFile : File := File.new 0 0

def anyHandle : Handle := Iso9660.dirOpen 0 0

/-- The image, mounted. -/
def onesFs : Fs := (anyFs.init onesDisk thirdFails 2).getD anyFs

theorem onesFs_init : anyFs.init onesDisk thirdFails 2 = some onesFs := by rfl

def onesName : NameBuffer := ⟨80, by decide⟩

end IsoFile
