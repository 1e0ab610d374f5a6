import Ultimate1541.MfmDiskProofs

/-! # What a drive program writes as a track

    For the command Write Track the WD177x takes the raw bytes of a whole turn of the disk.
    `decode_write_track` looks in them for the marks of headers and of data, fills the table
    of a new track, and puts the data of the sectors one after the other into a buffer.

    The model notes where the source leaves its arrays, and where it uses the size of a
    sector before it has one.  Both happen, and a header need not come before its data: the
    main result says for which raw tracks the table and the data agree. -/

namespace Mfm

/-- `MFM_RAW_BYTES_BETWEEN_INDEX_PULSES`. -/
abbrev rawBytes : Nat := 6250

/-- `MFM_BYTES_PER_TRACK`. -/
abbrev bytesPerTrack : Nat := 512 * 10

/-- `buffer` of the WD177x: a raw track, and two bytes more. -/
structure RawBuffer where
  bytes : List UInt8
  length_eq : bytes.length = rawBytes + 2

/-- What the source must not do. -/
inductive Fault where
  /-- A read behind the raw buffer. -/
  | read
  /-- `sec_size` is used before it has a value. -/
  | unset
  /-- A store behind the table of sectors. -/
  | table
  /-- A store behind the output buffer. -/
  | output
  deriving DecidableEq

/-- What `decode_write_track` returns. -/
inductive Result where
  | ok
  | illegalSectorSize
  | noCrcAfterHeader
  | noCrcAfterData
  | noSpaceOnTrack
  deriving DecidableEq

/-- The variables of `decode_write_track`; `outbuf` is the whole buffer, and its pointer is
    `wpos` bytes in. -/
structure Decoder where
  secSize : Option Nat
  wpos : Nat
  outbuf : List UInt8
  newTrack : MfmTrack

/-- What comes after a turn of the loop; `go skip` is `rpos += skip + 1`. -/
inductive Next where
  | stop (result : Result)
  | go (skip : Nat)

/-- The entry of a table that has been cleared. -/
def noSector : MfmSector := ⟨0, 0, 0, 0, 0⟩

namespace MfmTrack

/-- The header of the next sector is stored. -/
def storeHeader (t : MfmTrack) (track side sector sectorSize : UInt8) : Except Fault MfmTrack :=
  if h : t.numSectors < maxSectors then
    let header : MfmSector := ⟨track, side, sector, sectorSize, t.sectors[t.numSectors].errorByte⟩
    .ok { t with sectors := t.sectors.set t.numSectors header }
  else .error .table

end MfmTrack

/-- `memcpy` into the output buffer. -/
def copyOut (outbuf : List UInt8) (wpos : Nat) (data : List UInt8) : Except Fault (List UInt8) :=
  if wpos + data.length ≤ outbuf.length then
    .ok (outbuf.take wpos ++ data ++ outbuf.drop (wpos + data.length))
  else .error .output

/-- A header mark at `rpos`. -/
def decodeHeader (inbuf : List UInt8) (rpos : Nat) (d : Decoder) : Except Fault (Next × Decoder) :=
  match inbuf[rpos + 1]?, inbuf[rpos + 2]?, inbuf[rpos + 3]?, inbuf[rpos + 4]?, inbuf[rpos + 5]? with
  | some track, some side, some sector, some size, crc =>
      if size < 4 then
        match crc with
        | none => .error .read
        | some crc =>
            if crc ≠ 0xF7 then .ok (.stop .noCrcAfterHeader, { d with secSize := some (1 <<< (7 + size.toNat)) })
            else
              (d.newTrack.storeHeader track side sector size).map fun t =>
                (.go 15, { d with secSize := some (1 <<< (7 + size.toNat)), newTrack := t })
      else .ok (.stop .illegalSectorSize, d)
  | _, _, _, _, _ => .error .read

/-- A data mark at `rpos`. -/
def decodeData (inbuf : List UInt8) (rpos : Nat) (d : Decoder) : Except Fault (Next × Decoder) :=
  match d.secSize with
  | none => .error .unset
  | some secSize =>
      match inbuf[rpos + 1 + secSize]? with
      | none => .error .read
      | some crc =>
          if crc ≠ 0xF7 then .ok (.stop .noCrcAfterData, d)
          else if d.wpos + secSize > bytesPerTrack then .ok (.stop .noSpaceOnTrack, d)
          else
            (copyOut d.outbuf d.wpos ((inbuf.drop (rpos + 1)).take secSize)).map fun outbuf =>
              (.go (secSize + 15),
                { d with
                  outbuf := outbuf
                  wpos := d.wpos + secSize
                  newTrack := { d.newTrack with
                    actualDataSize := UInt32.ofNat (d.wpos + secSize)
                    numSectors := d.newTrack.numSectors + 1 } })

/-- One turn of the loop. -/
def decodeTurn (inbuf : List UInt8) (rpos : Nat) (d : Decoder) : Except Fault (Next × Decoder) :=
  match inbuf[rpos]? with
  | none => .error .read
  | some mark =>
      if mark = 0xFE then decodeHeader inbuf rpos d
      else if mark = 0xFB then decodeData inbuf rpos d
      else .ok (.go 0, d)

/-- The loop of `decode_write_track`, `left` bytes before the end of the raw track. -/
def decodeLoop (inbuf : List UInt8) : Nat → Nat → Decoder → Except Fault (Result × Decoder)
  | 0, _, d => .ok (.ok, d)
  | left + 1, skip + 1, d => decodeLoop inbuf left skip d
  | left + 1, 0, d =>
      match decodeTurn inbuf (rawBytes - (left + 1)) d with
      | .error e => .error e
      | .ok (.stop result, d) => .ok (result, d)
      | .ok (.go skip, d) => decodeLoop inbuf left skip d

/-- `decode_write_track`: what it returns, with the output buffer and the new track. -/
def decodeWriteTrack (inbuf : RawBuffer) : Except Fault (Result × Decoder) :=
  decodeLoop inbuf.bytes rawBytes 0
    ⟨none, 0, List.replicate bytesPerTrack 0x55, ⟨0, 0, 0, 0, Vector.replicate maxSectors noSector⟩⟩

/-! ## The marks of a raw track -/

/-- What the decoder comes to: a header with the size of its sector, data, a mark at which it
    stops, or one that makes it read what it must not. -/
inductive Mark where
  | header (size : Nat)
  | data (block : List UInt8)
  | refused
  | wild
  deriving DecidableEq

/-- The header mark at `rpos`. -/
def headerMark (inbuf : List UInt8) (rpos : Nat) : Mark :=
  match inbuf[rpos + 4]? with
  | none => .wild
  | some code =>
      if 4 ≤ code then .refused
      else if inbuf[rpos + 5]? = none then .wild
      else if inbuf[rpos + 5]? = some 0xF7 then .header (1 <<< (7 + code.toNat))
      else .refused

/-- The data mark at `rpos`, for the size of the last header and the bytes that are stored. -/
def dataMark (inbuf : List UInt8) (rpos : Nat) (size : Option Nat) (placed : Nat) : Mark :=
  match size with
  | none => .wild
  | some size =>
      if inbuf[rpos + 1 + size]? = none then .wild
      else if inbuf[rpos + 1 + size]? = some 0xF7 ∧ placed + size ≤ bytesPerTrack then
        .data ((inbuf.drop (rpos + 1)).take size)
      else .refused

def markAt (inbuf : List UInt8) (rpos : Nat) (size : Option Nat) (placed : Nat) : Option Mark :=
  if inbuf[rpos]? = some 0xFE then some (headerMark inbuf rpos)
  else if inbuf[rpos]? = some 0xFB then some (dataMark inbuf rpos size placed)
  else none

/-- The marks of a raw track. -/
def marksFrom (inbuf : List UInt8) : Nat → Nat → Option Nat → Nat → List Mark
  | 0, _, _, _ => []
  | left + 1, skip + 1, size, placed => marksFrom inbuf left skip size placed
  | left + 1, 0, size, placed =>
      match markAt inbuf (rawBytes - (left + 1)) size placed with
      | none => marksFrom inbuf left 0 size placed
      | some (.header n) => .header n :: marksFrom inbuf left 15 (some n) placed
      | some (.data block) =>
          .data block :: marksFrom inbuf left (block.length + 15) size (placed + block.length)
      | some mark => [mark]

def RawBuffer.marks (inbuf : RawBuffer) : List Mark := marksFrom inbuf.bytes rawBytes 0 none 0

/-- The data of the sectors, in the order of the track. -/
def blocks : List Mark → List (List UInt8)
  | [] => []
  | .data block :: rest => block :: blocks rest
  | _ :: rest => blocks rest

/-- A track that the decoder is made for, from a place on where `n` sectors are done and a
    header has come (`own`) or not: no mark is wild, data have a header of their own unless
    the last header's size is the smallest, and the table has room. -/
def WellFormed : Bool → Nat → List Mark → Prop
  | _, _, [] => True
  | _, n, .header _ :: rest => n < maxSectors ∧ WellFormed true n rest
  | own, n, .data block :: rest =>
      (own = true ∨ block.length = 128) ∧ n < maxSectors ∧ WellFormed false (n + 1) rest
  | _, _, .refused :: _ => True
  | _, _, .wild :: _ => False

/-- The track that is decoded: its size is that of its sectors and of the data, and once a disk
    has taken it, each sector is found within the track's space with its own data. -/
def Decoder.Agrees (d : Decoder) (data : List (List UInt8)) : Prop :=
  d.newTrack.numSectors ≤ maxSectors ∧
  d.newTrack.actualDataSize.toNat = d.newTrack.sectorTotal ∧
  d.newTrack.actualDataSize.toNat = data.flatten.length ∧
  d.outbuf = data.flatten ++ List.replicate (bytesPerTrack - data.flatten.length) 0x55 ∧
  ∀ (disk disk' : MfmDisk) (physTrack physSide : Int) (pos : UInt32),
    disk.updateTrack physTrack physSide d.newTrack = .ok (disk', pos) →
    ∀ (logical : MfmSector) (i : Nat) (spos size : UInt32),
      disk'.getSector physTrack physSide logical = some (i, spos, size) →
      ∃ loc block, MfmDisk.locate physTrack physSide = some loc ∧ data[i]? = some block ∧
        (spos - pos).toNat + size.toNat ≤ (disk.track loc).reservedSpace.toNat ∧
        (d.outbuf.drop (spos - pos).toNat).take size.toNat = block

/-- A raw track is decoded without a fault, and the new track agrees with the data. -/
def RawBuffer.Decodes (inbuf : RawBuffer) : Prop :=
  ∃ result d, decodeWriteTrack inbuf = .ok (result, d) ∧ d.Agrees (blocks inbuf.marks)

/-! ## One turn of the loop -/

section Turn

variable {inbuf : List UInt8} {rpos : Nat} {d : Decoder}

theorem turn_header (h : inbuf[rpos]? = some 0xFE) :
    decodeTurn inbuf rpos d = decodeHeader inbuf rpos d := by
  simp [decodeTurn, h]

theorem turn_data (h : inbuf[rpos]? = some 0xFB) : decodeTurn inbuf rpos d = decodeData inbuf rpos d := by
  simp [decodeTurn, h]

theorem turn_plain (hin : rpos < inbuf.length) (hheader : inbuf[rpos]? ≠ some 0xFE)
    (hdata : inbuf[rpos]? ≠ some 0xFB) : decodeTurn inbuf rpos d = .ok (.go 0, d) := by
  rw [List.getElem?_eq_getElem hin] at hheader hdata
  rw [decodeTurn, List.getElem?_eq_getElem hin]
  simp only [ne_eq, Option.some.injEq] at hheader hdata
  simp only [if_neg hheader, if_neg hdata]

/-- What `decodeHeader` does, by its mark. -/
theorem decodeHeader_spec (inbuf : List UInt8) (rpos : Nat) (d : Decoder) :
    match headerMark inbuf rpos with
    | .header n => ∃ track side sector code : UInt8, code < 4 ∧ n = 1 <<< (7 + code.toNat) ∧
        decodeHeader inbuf rpos d = (d.newTrack.storeHeader track side sector code).map fun t =>
          (.go 15, { d with secSize := some n, newTrack := t })
    | .data _ => False
    | .refused => ∃ result size, decodeHeader inbuf rpos d = .ok (.stop result, { d with secSize := size })
    | .wild => ∃ e, decodeHeader inbuf rpos d = .error e := by
  cases h4 : inbuf[rpos + 4]? with
  | none => simp [headerMark, decodeHeader, h4]
  | some code =>
      have hin : rpos + 4 < inbuf.length := (List.getElem?_eq_some_iff.mp h4).1
      have h1 := List.getElem?_eq_getElem (l := inbuf) (i := rpos + 1) (by omega)
      have h2 := List.getElem?_eq_getElem (l := inbuf) (i := rpos + 2) (by omega)
      have h3 := List.getElem?_eq_getElem (l := inbuf) (i := rpos + 3) (by omega)
      by_cases hcode : 4 ≤ code
      · simp only [headerMark, h4, if_pos hcode, decodeHeader, h1, h2, h3, if_neg (UInt8.not_lt.mpr hcode)]
        exact ⟨.illegalSectorSize, d.secSize, rfl⟩
      · have hlt : code < 4 := UInt8.not_le.mp hcode
        cases h5 : inbuf[rpos + 5]? with
        | none => simp [headerMark, decodeHeader, h1, h2, h3, h4, h5, hcode, hlt]
        | some crc =>
            by_cases hcrc : crc = 0xF7
            · simp [headerMark, decodeHeader, h1, h2, h3, h4, h5, hcode, hlt, hcrc]
              exact ⟨_, _, _, code, hlt, rfl, rfl⟩
            · simp [headerMark, decodeHeader, h1, h2, h3, h4, h5, hcode, hlt, hcrc]

/-- What `decodeData` does, by its mark. -/
theorem decodeData_spec (inbuf : List UInt8) (rpos : Nat) (d : Decoder) :
    match dataMark inbuf rpos d.secSize d.wpos with
    | .header _ => False
    | .data block => d.secSize = some block.length ∧ d.wpos + block.length ≤ bytesPerTrack ∧
        decodeData inbuf rpos d = (copyOut d.outbuf d.wpos block).map fun outbuf =>
          (.go (block.length + 15),
            { d with
              outbuf := outbuf
              wpos := d.wpos + block.length
              newTrack := { d.newTrack with
                actualDataSize := UInt32.ofNat (d.wpos + block.length)
                numSectors := d.newTrack.numSectors + 1 } })
    | .refused => ∃ result, decodeData inbuf rpos d = .ok (.stop result, d)
    | .wild => ∃ e, decodeData inbuf rpos d = .error e := by
  cases hsize : d.secSize with
  | none => simp [dataMark, decodeData, hsize]
  | some size =>
      cases hcrc : inbuf[rpos + 1 + size]? with
      | none => simp [dataMark, decodeData, hsize, hcrc]
      | some crc =>
          have hin : rpos + 1 + size < inbuf.length := (List.getElem?_eq_some_iff.mp hcrc).1
          have hlen : ((inbuf.drop (rpos + 1)).take size).length = size := by
            rw [List.length_take, List.length_drop]
            omega
          by_cases h7 : crc = 0xF7
          · by_cases hfits : d.wpos + size ≤ bytesPerTrack
            · simp only [dataMark, decodeData, hsize, hcrc, h7]
              simp [hfits, hlen, Nat.not_lt.mpr hfits]
            · simp [dataMark, decodeData, hsize, hcrc, h7, hfits, Nat.not_le.mp hfits]
          · simp [dataMark, decodeData, hsize, hcrc, h7]

end Turn

/-- The variables after a header. -/
def Decoder.header (d : Decoder) (s : MfmSector) (h : d.newTrack.numSectors < maxSectors) : Decoder :=
  { d with
    secSize := some (sectorBytes s)
    newTrack := { d.newTrack with sectors := d.newTrack.sectors.set d.newTrack.numSectors s h } }

/-- The variables after data. -/
def Decoder.data (d : Decoder) (block : List UInt8) : Decoder :=
  { d with
    outbuf := d.outbuf.take d.wpos ++ block ++ d.outbuf.drop (d.wpos + block.length)
    wpos := d.wpos + block.length
    newTrack := { d.newTrack with
      actualDataSize := UInt32.ofNat (d.wpos + block.length)
      numSectors := d.newTrack.numSectors + 1 } }

/-- A header is stored for the sector `numSectors`, when the table has room. -/
theorem storeHeader_map (d : Decoder) (track side sector code : UInt8) :
    (∃ (h : d.newTrack.numSectors < maxSectors) (s : MfmSector), s.sectorSize = code ∧
      ((d.newTrack.storeHeader track side sector code).map fun t =>
        (Next.go 15, { d with secSize := some (1 <<< (7 + code.toNat)), newTrack := t })) =
        .ok (.go 15, d.header s h)) ∨
    (maxSectors ≤ d.newTrack.numSectors ∧
      ((d.newTrack.storeHeader track side sector code).map fun t =>
        (Next.go 15, { d with secSize := some (1 <<< (7 + code.toNat)), newTrack := t })) = .error .table) := by
  rw [MfmTrack.storeHeader]
  split
  next h => exact .inl ⟨h, ⟨track, side, sector, code, _⟩, rfl, rfl⟩
  next h => exact .inr ⟨Nat.not_lt.mp h, rfl⟩

theorem copyOut_map {d : Decoder} {block : List UInt8} (hout : d.outbuf.length = bytesPerTrack)
    (hfits : d.wpos + block.length ≤ bytesPerTrack) :
    copyOut d.outbuf d.wpos block =
      .ok (d.outbuf.take d.wpos ++ block ++ d.outbuf.drop (d.wpos + block.length)) := by
  rw [copyOut, hout, if_pos hfits]

/-- One turn of the loop, by the mark that it is at. -/
theorem turn_spec (inbuf : List UInt8) (rpos : Nat) (d : Decoder) (hin : rpos < inbuf.length)
    (hout : d.outbuf.length = bytesPerTrack) :
    match markAt inbuf rpos d.secSize d.wpos with
    | none => decodeTurn inbuf rpos d = .ok (.go 0, d)
    | some (.header n) =>
        (∃ (h : d.newTrack.numSectors < maxSectors) (s : MfmSector), s.sectorSize < 4 ∧
          n = sectorBytes s ∧ decodeTurn inbuf rpos d = .ok (.go 15, d.header s h)) ∨
        (maxSectors ≤ d.newTrack.numSectors ∧ ∃ e, decodeTurn inbuf rpos d = .error e)
    | some (.data block) => d.secSize = some block.length ∧ d.wpos + block.length ≤ bytesPerTrack ∧
        decodeTurn inbuf rpos d = .ok (.go (block.length + 15), d.data block)
    | some .refused =>
        ∃ result size, decodeTurn inbuf rpos d = .ok (.stop result, { d with secSize := size })
    | some .wild => ∃ e, decodeTurn inbuf rpos d = .error e := by
  by_cases hheader : inbuf[rpos]? = some 0xFE
  · have hspec := decodeHeader_spec inbuf rpos d
    rw [markAt, if_pos hheader, turn_header hheader]
    cases hmark : headerMark inbuf rpos with
    | header n =>
        rw [hmark] at hspec
        obtain ⟨track, side, sector, code, hcode, rfl, heq⟩ := hspec
        rw [heq]
        rcases storeHeader_map d track side sector code with ⟨h, s, rfl, hstore⟩ | ⟨hfull, hstore⟩
        · exact .inl ⟨h, s, hcode, rfl, hstore⟩
        · exact .inr ⟨hfull, .table, hstore⟩
    | data block => rw [hmark] at hspec; exact hspec.elim
    | refused => rw [hmark] at hspec; exact hspec
    | wild => rw [hmark] at hspec; exact hspec
  · by_cases hdata : inbuf[rpos]? = some 0xFB
    · have hspec := decodeData_spec inbuf rpos d
      rw [markAt, if_neg hheader, if_pos hdata, turn_data hdata]
      cases hmark : dataMark inbuf rpos d.secSize d.wpos with
      | header n => rw [hmark] at hspec; exact hspec.elim
      | data block =>
          rw [hmark] at hspec
          obtain ⟨hsize, hfits, heq⟩ := hspec
          refine ⟨hsize, hfits, ?_⟩
          rw [heq, copyOut_map hout hfits]
          rfl
      | refused =>
          rw [hmark] at hspec
          obtain ⟨result, heq⟩ := hspec
          exact ⟨result, d.secSize, heq⟩
      | wild => rw [hmark] at hspec; exact hspec
    · rw [markAt, if_neg hheader, if_neg hdata]
      exact turn_plain hin hheader hdata

/-! ## What a turn keeps -/

theorem defined_header (d : Decoder) (s : MfmSector) (h : d.newTrack.numSectors < maxSectors) :
    (d.header s h).newTrack.defined = d.newTrack.defined := by
  rw [MfmTrack.defined, MfmTrack.defined, Decoder.header, Vector.toList_set,
    List.take_set_of_le (Nat.le_refl _)]

theorem defined_data (d : Decoder) (block : List UInt8) (h : d.newTrack.numSectors < maxSectors) :
    (d.data block).newTrack.defined = d.newTrack.defined ++ [d.newTrack.sectors[d.newTrack.numSectors]] := by
  simp [MfmTrack.defined, Decoder.data, List.take_add_one, h]

theorem sectorBytes_noSector : sectorBytes noSector = 128 := rfl

/-- The sizes that a header can give. -/
theorem sectorBytes_range {s : MfmSector} (h : s.sectorSize < 4) :
    128 ≤ sectorBytes s ∧ sectorBytes s ≤ 1024 := by
  have hcode : s.sectorSize.toNat < 4 := UInt8.lt_iff_toNat_lt.mp h
  have hlow : 2 ^ 7 ≤ 2 ^ (7 + s.sectorSize.toNat) := Nat.pow_le_pow_right (by decide) (by omega)
  have hhigh : 2 ^ (7 + s.sectorSize.toNat) ≤ 2 ^ 10 := Nat.pow_le_pow_right (by decide) (by omega)
  rw [sectorBytes, Nat.one_shiftLeft]
  exact ⟨hlow, hhigh⟩

/-- What holds of the variables whatever the marks are: the entries of the table behind the
    last sector are clear, but for one header, which is not larger than the size in force. -/
structure Base (d : Decoder) : Prop where
  out : d.outbuf.length = bytesPerTrack
  fits : d.wpos ≤ bytesPerTrack
  actual : d.newTrack.actualDataSize = UInt32.ofNat d.wpos
  big : ∀ n, d.secSize = some n → 128 ≤ n
  ahead : ∀ i (h : i < maxSectors), d.newTrack.numSectors ≤ i → d.newTrack.sectors[i] = noSector ∨
    (i = d.newTrack.numSectors ∧ ∃ n, d.secSize = some n ∧ sectorBytes d.newTrack.sectors[i] ≤ n)

namespace Base

theorem header {d : Decoder} (hbase : Base d) {s : MfmSector} (h : d.newTrack.numSectors < maxSectors)
    (hs : s.sectorSize < 4) : Base (d.header s h) where
  out := hbase.out
  fits := hbase.fits
  actual := hbase.actual
  big := by
    rintro m ⟨⟩
    exact (sectorBytes_range hs).1
  ahead := by
    intro i hi hle
    by_cases hnum : i = d.newTrack.numSectors
    · refine .inr ⟨hnum, sectorBytes s, rfl, ?_⟩
      simp [Decoder.header, hnum]
    · rcases hbase.ahead i hi hle with hclear | ⟨heq, _⟩
      · refine .inl ?_
        rw [← hclear]
        exact Vector.getElem_set_ne h hi (Ne.symm hnum)
      · exact absurd heq hnum

theorem data {d : Decoder} (hbase : Base d) {block : List UInt8}
    (hfits : d.wpos + block.length ≤ bytesPerTrack) : Base (d.data block) where
  out := by
    have hout := hbase.out
    simp only [Decoder.data, List.length_append, List.length_take, List.length_drop]
    omega
  fits := hfits
  actual := rfl
  big := hbase.big
  ahead := by
    intro i hi hle
    -- The header, if there was one, is that of the sector that is done.
    rcases hbase.ahead i hi (Nat.le_of_succ_le hle) with hclear | ⟨heq, _⟩
    · exact .inl hclear
    · exact absurd hle (by rw [heq]; exact Nat.not_succ_le_self _)

end Base

/-- Too many sectors, or sectors that are smaller than their data: it stays so. -/
def Decoder.Short (d : Decoder) : Prop :=
  maxSectors < d.newTrack.numSectors ∨ d.newTrack.sectorTotal < d.wpos

theorem Decoder.Short.header {d : Decoder} (hshort : d.Short) (s : MfmSector)
    (h : d.newTrack.numSectors < maxSectors) : (d.header s h).Short := by
  rcases hshort with hmany | hless
  · exact .inl hmany
  · refine .inr ?_
    rw [MfmTrack.sectorTotal, defined_header]
    exact hless

theorem Decoder.Short.data {d : Decoder} (hshort : d.Short) (hbase : Base d) {block : List UInt8}
    (hsize : d.secSize = some block.length) : (d.data block).Short := by
  rcases hshort with hmany | hless
  · exact .inl (Nat.lt_succ_of_lt hmany)
  · by_cases hroom : d.newTrack.numSectors < maxSectors
    · refine .inr ?_
      have hentry : sectorBytes d.newTrack.sectors[d.newTrack.numSectors] ≤ block.length := by
        rcases hbase.ahead _ hroom (Nat.le_refl _) with hclear | ⟨_, n, hn, hle⟩
        · rw [hclear, sectorBytes_noSector]
          exact hbase.big _ hsize
        · rwa [Option.some.inj (hn.symm.trans hsize)] at hle
      rw [MfmTrack.sectorTotal, defined_data d block hroom, List.map_append, List.sum_append]
      have hsum : ([d.newTrack.sectors[d.newTrack.numSectors]].map sectorBytes).sum =
          sectorBytes d.newTrack.sectors[d.newTrack.numSectors] := by simp
      have hwpos : (d.data block).wpos = d.wpos + block.length := rfl
      rw [hsum, hwpos]
      rw [MfmTrack.sectorTotal] at hless
      omega
    · exact .inl (Nat.lt_succ_of_le (Nat.not_lt.mp hroom))

/-- A track that is short does not agree with any data. -/
theorem Decoder.Short.not_agrees {d : Decoder} (hshort : d.Short) (hbase : Base d)
    (data : List (List UInt8)) : ¬ d.Agrees data := by
  rintro ⟨hroom, htotal, -⟩
  rcases hshort with hmany | hless
  · exact absurd hroom (Nat.not_le.mpr hmany)
  · have hsmall : d.wpos < UInt32.size := Nat.lt_of_le_of_lt hbase.fits (by decide)
    rw [hbase.actual, UInt32.toNat_ofNat_of_lt' hsmall] at htotal
    omega

/-- What holds while the track is well formed: the sectors of the table have the sizes of the
    data, and the next entry is clear or the header that has come. -/
structure Inv (d : Decoder) (own : Bool) (got : List (List UInt8)) : Prop extends Base d where
  num : d.newTrack.numSectors = got.length
  room : got.length ≤ maxSectors
  wpos : d.wpos = got.flatten.length
  content : d.outbuf = got.flatten ++ List.replicate (bytesPerTrack - got.flatten.length) 0x55
  sizes : List.Forall₂ (fun s block => s.sectorSize < 4 ∧ sectorBytes s = block.length)
    d.newTrack.defined got
  next : ∀ h : d.newTrack.numSectors < maxSectors,
    if own then d.newTrack.sectors[d.newTrack.numSectors].sectorSize < 4 ∧
      d.secSize = some (sectorBytes d.newTrack.sectors[d.newTrack.numSectors])
    else d.newTrack.sectors[d.newTrack.numSectors] = noSector

namespace Inv

variable {d : Decoder} {own : Bool} {got : List (List UInt8)}

theorem header (hinv : Inv d own got) {s : MfmSector} (h : d.newTrack.numSectors < maxSectors)
    (hs : s.sectorSize < 4) : Inv (d.header s h) true got where
  toBase := hinv.toBase.header h hs
  num := hinv.num
  room := hinv.room
  wpos := hinv.wpos
  content := hinv.content
  sizes := by
    rw [defined_header]
    exact hinv.sizes
  next := by
    intro _
    simpa [Decoder.header] using hs

theorem data {block : List UInt8} (hinv : Inv d own got) (hroom : got.length < maxSectors)
    (hsize : d.secSize = some block.length) (hfits : d.wpos + block.length ≤ bytesPerTrack)
    (hown : own = true ∨ block.length = 128) : Inv (d.data block) false (got ++ [block]) where
  toBase := hinv.toBase.data hfits
  num := by
    rw [List.length_append, List.length_singleton, ← hinv.num]
    rfl
  room := by
    rw [List.length_append]
    exact hroom
  wpos := by
    rw [List.flatten_append, List.length_append, ← hinv.wpos]
    simp [Decoder.data]
  content := by
    have hrest := hinv.wpos ▸ hfits
    rw [Decoder.data, hinv.content, hinv.wpos]
    simp only [List.take_left, List.flatten_append, List.length_append, List.flatten_singleton]
    rw [List.drop_append, List.drop_eq_nil_of_le (by omega), List.nil_append, List.drop_replicate]
    congr 2
    omega
  sizes := by
    have hnum : d.newTrack.numSectors < maxSectors := hinv.num ▸ hroom
    rw [defined_data d block hnum]
    refine List.rel_append hinv.sizes (.cons ?_ .nil)
    have hnext := hinv.next hnum
    cases own with
    | true =>
        simp only [if_true] at hnext
        exact ⟨hnext.1, Option.some.inj (hnext.2.symm.trans hsize)⟩
    | false =>
        have hclear : d.newTrack.sectors[d.newTrack.numSectors] = noSector := by simpa using hnext
        rw [hclear]
        exact ⟨by decide, (hown.resolve_left nofun).symm⟩
  next := by
    intro h
    have hsucc : d.newTrack.numSectors + 1 < maxSectors := h
    rcases hinv.ahead (d.newTrack.numSectors + 1) hsucc (Nat.le_succ _) with hclear | ⟨heq, _⟩
    · exact hclear
    · exact absurd heq (Nat.succ_ne_self _)

theorem total (hinv : Inv d own got) : d.newTrack.sectorTotal = got.flatten.length := by
  have hsum : ∀ {l : List MfmSector} {got : List (List UInt8)},
      List.Forall₂ (fun s block => s.sectorSize < 4 ∧ sectorBytes s = block.length) l got →
      (l.map sectorBytes).sum = got.flatten.length := by
    intro l got h
    induction h with
    | nil => rfl
    | cons hs _ ih => rw [List.map_cons, List.sum_cons, List.flatten_cons, List.length_append, hs.2, ih]
  exact hsum hinv.sizes

/-- The first sectors, up to one of them, have the bytes of the first data. -/
theorem sum_before {before after : List MfmSector} {s : MfmSector} (hinv : Inv d own got)
    (h : d.newTrack.defined = before ++ s :: after) :
    ∃ first block rest, got = first ++ block :: rest ∧ first.length = before.length ∧
      (before.map sectorBytes).sum = first.flatten.length ∧ sectorBytes s = block.length := by
  have hsizes := hinv.sizes
  rw [h] at hsizes
  clear h hinv
  induction before generalizing got with
  | nil =>
      cases hsizes with
      | cons hs hrest => exact ⟨[], _, _, rfl, rfl, rfl, hs.2⟩
  | cons s' before ih =>
      cases hsizes with
      | cons hs hrest =>
          obtain ⟨first, block, rest, rfl, hlen, hsum, hblock⟩ := ih hrest
          refine ⟨_ :: first, block, rest, rfl, congrArg Nat.succ hlen, ?_, hblock⟩
          rw [List.map_cons, List.sum_cons, hsum, hs.2, List.flatten_cons, List.length_append]

theorem sectorSize_lt (hinv : Inv d own got) : ∀ s ∈ d.newTrack.defined, s.sectorSize < 4 := by
  have hall : ∀ {l : List MfmSector} {got : List (List UInt8)},
      List.Forall₂ (fun s block => s.sectorSize < 4 ∧ sectorBytes s = block.length) l got →
      ∀ s ∈ l, s.sectorSize < 4 := by
    intro l got h
    induction h with
    | nil => exact nofun
    | cons hs _ ih => exact List.forall_mem_cons.mpr ⟨hs.1, ih⟩
  exact hall hinv.sizes

theorem agrees (hinv : Inv d own got) : d.Agrees got := by
  have hsmall : d.wpos < UInt32.size := Nat.lt_of_le_of_lt hinv.fits (by decide)
  have hactual : d.newTrack.actualDataSize.toNat = got.flatten.length := by
    rw [hinv.actual, UInt32.toNat_ofNat_of_lt' hsmall, hinv.wpos]
  refine ⟨hinv.num ▸ hinv.room, hactual.trans hinv.total.symm, hactual, hinv.content, ?_⟩
  intro disk disk' physTrack physSide pos hupdate logical i spos size hget
  have htotal : d.newTrack.sectorTotal < UInt32.size := by rw [hinv.total, ← hinv.wpos]; exact hsmall
  obtain ⟨loc, before, s, after, hloc, hdefined, rfl, hpos, hsize, hspace⟩ :=
    getSector_updateTrack hupdate htotal hinv.sectorSize_lt hget
  obtain ⟨first, block, rest, rfl, hlen, hsum, hblock⟩ := hinv.sum_before hdefined
  refine ⟨loc, block, hloc, ?_, hspace, ?_⟩
  · rw [← hlen, List.getElem?_append_right (Nat.le_refl _), Nat.sub_self]
    rfl
  · rw [hpos, hsize, hsum, hblock, hinv.content, List.flatten_append, List.flatten_cons, List.append_assoc,
      List.append_assoc, List.drop_left, List.take_left]

end Inv

/-! ## The whole track -/

/-- Data without a header of their own have a clear entry, which is that of a small sector. -/
theorem short_of_clear {d : Decoder} {own : Bool} {got : List (List UInt8)} {block : List UInt8}
    (hinv : Inv d own got) (hsize : d.secSize = some block.length)
    (hown : ¬ (own = true ∨ block.length = 128)) : (d.data block).Short := by
  by_cases hroom : d.newTrack.numSectors < maxSectors
  · have hclear : d.newTrack.sectors[d.newTrack.numSectors] = noSector := by
      have hnext := hinv.next hroom
      rwa [if_neg (fun h => hown (.inl h))] at hnext
    have hbig : 128 ≤ block.length := hinv.big _ hsize
    have hmore : block.length ≠ 128 := fun h => hown (.inr h)
    refine .inr ?_
    have hwpos : (d.data block).wpos = d.wpos + block.length := rfl
    have htotal := hinv.total
    rw [MfmTrack.sectorTotal, ← hinv.wpos] at htotal
    rw [MfmTrack.sectorTotal, defined_data d block hroom, hclear, List.map_append, List.sum_append, htotal, hwpos]
    have hentry : ([noSector].map sectorBytes).sum = 128 := rfl
    rw [hentry]
    omega
  · exact .inl (Nat.lt_succ_of_le (Nat.not_lt.mp hroom))

/-- Once a track is short, no run of the loop makes it agree with data. -/
theorem short_run {inbuf : List UInt8} (hlen : rawBytes ≤ inbuf.length) {got : List (List UInt8)}
    {result : Result} {d' : Decoder} {left : Nat} :
    ∀ {skip : Nat} {d : Decoder}, left ≤ rawBytes → Base d → d.Short →
      decodeLoop inbuf left skip d = .ok (result, d') → ¬ d'.Agrees got := by
  induction left with
  | zero =>
      intro skip d _ hbase hshort h
      cases skip <;> cases h <;> exact hshort.not_agrees hbase got
  | succ left ih =>
      intro skip d hleft hbase hshort h
      cases skip with
      | succ skip => exact ih (Nat.le_of_succ_le hleft) hbase hshort h
      | zero =>
          have hturn := turn_spec inbuf (rawBytes - (left + 1)) d (by omega) hbase.out
          rw [decodeLoop] at h
          cases hmark : markAt inbuf (rawBytes - (left + 1)) d.secSize d.wpos with
          | none =>
              simp only [hmark] at hturn
              rw [hturn] at h
              exact ih (Nat.le_of_succ_le hleft) hbase hshort h
          | some mark =>
              rw [hmark] at hturn
              cases mark with
              | header n =>
                  rcases hturn with ⟨hroom, s, hs, _, hgo⟩ | ⟨_, e, herr⟩
                  · rw [hgo] at h
                    exact ih (Nat.le_of_succ_le hleft) (hbase.header hroom hs) (hshort.header s hroom) h
                  · rw [herr] at h
                    exact nomatch h
              | data block =>
                  obtain ⟨hsize, hfits, hgo⟩ := hturn
                  rw [hgo] at h
                  exact ih (Nat.le_of_succ_le hleft) (hbase.data hfits) (hshort.data hbase hsize) h
              | refused =>
                  obtain ⟨r, size, hstop⟩ := hturn
                  rw [hstop] at h
                  cases h
                  exact hshort.not_agrees hbase got
              | wild =>
                  obtain ⟨e, herr⟩ := hturn
                  rw [herr] at h
                  exact nomatch h

/-- From a place on where everything is right so far, the track is decoded as it should be if and
    only if its marks are well formed. -/
theorem run_iff {inbuf : List UInt8} (hlen : rawBytes ≤ inbuf.length) {left : Nat} :
    ∀ {skip : Nat} {d : Decoder} {own : Bool} {got : List (List UInt8)}, left ≤ rawBytes → Inv d own got →
      ((∃ result d', decodeLoop inbuf left skip d = .ok (result, d') ∧
        d'.Agrees (got ++ blocks (marksFrom inbuf left skip d.secSize d.wpos))) ↔
      WellFormed own got.length (marksFrom inbuf left skip d.secSize d.wpos)) := by
  induction left with
  | zero =>
      intro skip d own got _ hinv
      have hend : ∃ result d', decodeLoop inbuf 0 skip d = .ok (result, d') ∧ d'.Agrees (got ++ []) := by
        rw [List.append_nil]
        exact ⟨.ok, d, by cases skip <;> rfl, hinv.agrees⟩
      cases skip <;> exact iff_of_true hend trivial
  | succ left ih =>
      intro skip d own got hleft hinv
      have hle : left ≤ rawBytes := Nat.le_of_succ_le hleft
      cases skip with
      | succ skip => exact ih hle hinv
      | zero =>
          have hturn := turn_spec inbuf (rawBytes - (left + 1)) d (by omega) hinv.out
          rw [decodeLoop, marksFrom]
          cases hmark : markAt inbuf (rawBytes - (left + 1)) d.secSize d.wpos with
          | none =>
              simp only [hmark] at hturn
              rw [hturn]
              exact ih hle hinv
          | some mark =>
              rw [hmark] at hturn
              cases mark with
              | header n =>
                  rcases hturn with ⟨hroom, s, hs, rfl, hgo⟩ | ⟨hfull, e, herr⟩
                  · rw [hgo]
                    simp only [blocks, WellFormed, ← hinv.num, hroom, true_and]
                    have hgood := @ih 15 _ _ _ hle (hinv.header hroom hs)
                    rw [← hinv.num] at hgood
                    exact hgood
                  · -- The table is full.
                    rw [herr]
                    refine iff_of_false (by rintro ⟨_, _, h, _⟩; exact nomatch h) ?_
                    rintro ⟨hroom, _⟩
                    exact absurd (hinv.num ▸ hroom) (Nat.not_lt.mpr hfull)
              | data block =>
                  obtain ⟨hsize, hfits, hgo⟩ := hturn
                  rw [hgo]
                  simp only [blocks, WellFormed]
                  by_cases hown : own = true ∨ block.length = 128
                  · by_cases hroom : got.length < maxSectors
                    · have hgood := @ih (block.length + 15) _ _ _ hle (hinv.data hroom hsize hfits hown)
                      rw [List.length_append, List.length_singleton, List.append_assoc] at hgood
                      simp only [hown, hroom, true_and]
                      exact hgood
                    · -- One sector more than the table has.
                      refine iff_of_false ?_ (fun h => hroom h.2.1)
                      rintro ⟨result, d', h, hagrees⟩
                      refine short_run hlen hle (hinv.toBase.data hfits) (.inl ?_) h hagrees
                      exact Nat.lt_succ_of_le (hinv.num ▸ Nat.not_lt.mp hroom)
                  · -- The entry of the sector is clear, and stands for 128 bytes.
                    refine iff_of_false ?_ (fun h => hown h.1)
                    rintro ⟨result, d', h, hagrees⟩
                    refine short_run hlen hle (hinv.toBase.data hfits) ?_ h hagrees
                    exact short_of_clear hinv hsize hown
              | refused =>
                  obtain ⟨r, size, hstop⟩ := hturn
                  rw [hstop]
                  refine iff_of_true ⟨r, _, rfl, ?_⟩ trivial
                  simp only [blocks, List.append_nil]
                  exact hinv.agrees
              | wild =>
                  obtain ⟨e, herr⟩ := hturn
                  rw [herr]
                  exact iff_of_false (by rintro ⟨_, _, h, _⟩; exact nomatch h) id

/-- The variables that `decode_write_track` starts with. -/
theorem Inv.start : Inv ⟨none, 0, List.replicate bytesPerTrack 0x55,
    ⟨0, 0, 0, 0, Vector.replicate maxSectors noSector⟩⟩ false [] where
  out := List.length_replicate
  fits := Nat.zero_le _
  actual := rfl
  big := nofun
  ahead := fun i _ _ => .inl (by simp)
  num := rfl
  room := Nat.zero_le _
  wpos := rfl
  content := rfl
  sizes := .nil
  next := fun _ => by simp

theorem RawBuffer.length_le (inbuf : RawBuffer) : rawBytes ≤ inbuf.bytes.length := by
  rw [inbuf.length_eq]
  omega

theorem RawBuffer.wellFormed_of_decodes {inbuf : RawBuffer} (h : inbuf.Decodes) :
    WellFormed false 0 inbuf.marks :=
  (run_iff inbuf.length_le (Nat.le_refl _) Inv.start).mp h

/-- A raw track is decoded without a fault, into a track that agrees with its data, if and only if
    its marks are well formed. -/
theorem RawBuffer.decodes_iff (inbuf : RawBuffer) : inbuf.Decodes ↔ WellFormed false 0 inbuf.marks :=
  run_iff inbuf.length_le (Nat.le_refl _) Inv.start

instance decidableWellFormed : ∀ (own : Bool) (n : Nat) (marks : List Mark), Decidable (WellFormed own n marks)
  | _, _, [] => .isTrue trivial
  | _, n, .header _ :: rest => by
      have := decidableWellFormed true n rest
      exact inferInstanceAs (Decidable (n < maxSectors ∧ WellFormed true n rest))
  | own, n, .data block :: rest => by
      have := decidableWellFormed false (n + 1) rest
      exact inferInstanceAs (Decidable ((own = true ∨ block.length = 128) ∧ n < maxSectors ∧
        WellFormed false (n + 1) rest))
  | _, _, .refused :: _ => .isTrue trivial
  | _, _, .wild :: _ => .isFalse id

/-- A raw track with one header, for 256 bytes, and two blocks of data behind it. -/
def twoBlocks : RawBuffer where
  bytes :=
    [0xFE, 1, 0, 1, 1, 0xF7] ++ List.replicate 10 0x4E ++
    0xFB :: List.replicate 256 0 ++ 0xF7 :: List.replicate 14 0x4E ++
    0xFB :: List.replicate 256 0 ++ 0xF7 :: List.replicate 14 0x4E ++
    List.replicate 5692 0x4E
  length_eq := by decide +kernel

/-- Its table says 256 and 128 bytes, and 512 have been stored. -/
theorem twoBlocks_disagrees : ¬ twoBlocks.Decodes :=
  fun h => absurd (RawBuffer.wellFormed_of_decodes h) (by decide +kernel)

end Mfm
