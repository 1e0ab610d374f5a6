import Ultimate1541.SoftIecLoadProofs

/-! # `SAVE` and then `LOAD`

    A range that is saved and reported as good is loaded again, at its place and with its
    end, where every write of the medium stored all it was given or a block that failed
    was reported. -/

namespace SoftIec

open IecChannel

section Load

variable {ν π : Type} {lookup : Lookup ν π} {e : Elsewhere} {command : LoadCommand}
  {stack : UInt8 × UInt8} {mem : Mem} {name : ν} {s : Store π} {content : List UInt8}

/-- Where a `LOAD` puts a file. -/
def loadAddress (command : LoadCommand) (stack : UInt8 × UInt8) (content : List UInt8) : UInt16 :=
  if command.secondary = 0 then command.address
  else UInt16.ofNat ((content.getD 1 stack.2).toNat * 256 + (content.getD 0 stack.1).toNat)

/-- The bytes of a file that a `LOAD` copies. -/
def loadedBytes (place : UInt16) (content : List UInt8) : List UInt8 :=
  (content.drop 2).take (memorySize - place.toNat)

/-- A file that is not empty is copied. -/
theorem load_file {path : π} (hfound : lookup.forReading name s = .file path)
    (hcontent : (s path).getD [] = content) (hne : content ≠ []) (c : Channel) :
    load lookup e c command stack mem name s = .copied (some
      ⟨Mem.write mem (loadAddress command stack content).toNat
        (loadedBytes (loadAddress command stack content) content),
      loadAddress command stack content +
        UInt16.ofNat (loadedBytes (loadAddress command stack content) content).length⟩) := by
  obtain ⟨hstreams, -, -⟩ := opened_start (c := { c with f := .bytes content }) rfl hne
  obtain ⟨c', hstart, hinv⟩ := getStartAddr_spec (e := e) (c := { c with f := .bytes content }) rfl
    hne stack
  have hdrop : content.drop (content.take 2).length = content.drop 2 := by
    rw [List.length_take]
    by_cases hlong : 2 ≤ content.length
    · rw [Nat.min_eq_left hlong]
    · rw [Nat.min_eq_right (by omega), List.drop_length, List.drop_eq_nil_of_le (by omega)]
  have haddress : startAddress e ({ c with f := .bytes content } : Channel).setupFileAccess.2
      command stack = (loadAddress command stack content, c') := by
    rw [startAddress, hstart]
    rfl
  have hcopied := doLoad_spec (e := e) (memorySize + 1) ⟨c', [], content.take 2⟩ mem
    (loadAddress command stack content).toNat (loadAddress command stack content)
    (memorySize - (loadAddress command stack content).toNat) hinv rfl (by omega)
  dsimp only at hcopied
  rw [hdrop] at hcopied
  have hstate : ({ c with f := .bytes content } : Channel).setupFileAccess.2.state = .file :=
    hstreams.state
  rw [load, hfound]
  dsimp only
  rw [hcontent, if_pos hstate, haddress]
  dsimp only
  rw [doLoadFrom, hcopied]
  rfl

/-- An empty file is not found. -/
theorem load_empty {path : π} (hfound : lookup.forReading name s = .file path)
    (hcontent : (s path).getD [] = []) (c : Channel) :
    load lookup e c command stack mem name s = .fileNotFound := by
  have hstate : ({ c with f := .bytes [] } : Channel).setupFileAccess.2.state = .complete :=
    complete_of_popped (opened_inv { c with f := .bytes [] } rfl : Inv [] _) rfl
  rw [load, hfound]
  dsimp only
  rw [hcontent, if_neg (by rw [hstate]; decide)]

/-- Whatever is loaded, `LOAD` comes to its end and writes nothing outside the memory. -/
theorem load_inside (c : Channel) {r : Option Copied}
    (h : load lookup e c command stack mem name s = .copied r) :
    ∃ copied, r = some copied ∧ ∀ a, memorySize ≤ a → copied.mem a = mem a := by
  cases hfound : lookup.forReading name s with
  | refused =>
      rw [load, hfound] at h
      exact nomatch h
  | listing =>
      rw [load, hfound] at h
      exact nomatch h
  | file path =>
      obtain ⟨content, hcontent⟩ : ∃ content, (s path).getD [] = content := ⟨_, rfl⟩
      by_cases hne : content = []
      · rw [hne] at hcontent
        rw [load_empty hfound hcontent] at h
        exact nomatch h
      · rw [load_file hfound hcontent hne] at h
        have hr := Loaded.copied.inj h
        refine ⟨_, hr.symm, fun a ha => ?_⟩
        refine write_apply_out fun hin => ?_
        rw [loadedBytes, List.length_take] at hin
        have hlt := (loadAddress command stack content).toNat_lt
        rw [memorySize] at ha hin
        omega

end Load

/-! ## Ranges -/

section Range

variable {start stop : UInt16}

/-- A range that stays inside the memory: it ends behind its start, or at the top. -/
def InRange (start stop : UInt16) : Prop := start ≤ stop ∨ stop = 0

/-- Where a range ends. -/
def rangeEnd (stop : UInt16) : Nat := if stop = 0 then memorySize else stop.toNat

/-- The bytes of a range. -/
def rangeBytes (mem : Mem) (start stop : UInt16) : List UInt8 :=
  (List.range (rangeEnd stop - start.toNat)).map fun i => mem (start.toNat + i)

theorem toNat_diff (start stop : UInt16) :
    (stop - start).toNat = (65536 - start.toNat + stop.toNat) % 65536 :=
  UInt16.toNat_sub stop start

/-- `SAVE` reads inside the memory exactly for such a range. -/
theorem addresses_inside_iff :
    (∀ a ∈ addresses start stop, a < memorySize) ↔ InRange start stop := by
  have hdiff := toNat_diff start stop
  have hstart := start.toNat_lt
  have hstop := stop.toNat_lt
  rw [InRange, UInt16.le_iff_toNat_le, ← UInt16.toNat_inj, UInt16.toNat_zero]
  constructor
  · intro h
    by_contra hout
    obtain ⟨hlt, hne⟩ := not_or.mp hout
    have hmem : start.toNat + ((stop - start).toNat - 1) ∈ addresses start stop :=
      List.mem_map.mpr ⟨_, List.mem_range.mpr (by omega), rfl⟩
    have hbound := h _ hmem
    rw [memorySize] at hbound
    omega
  · intro h a ha
    obtain ⟨i, hi, rfl⟩ := List.mem_map.mp ha
    have hlt := List.mem_range.mp hi
    rw [memorySize]
    omega

/-- The bytes that are saved are those of the range, but where that is all of the memory. -/
theorem map_addresses (h : InRange start stop) (hall : ¬ (start = 0 ∧ stop = 0)) (mem : Mem) :
    (addresses start stop).map mem = rangeBytes mem start stop := by
  have hdiff := toNat_diff start stop
  have hstart := start.toNat_lt
  have hstop := stop.toNat_lt
  have hend : stop.toNat = 0 ∧ rangeEnd stop = 65536 ∨ stop.toNat ≠ 0 ∧ rangeEnd stop = stop.toNat := by
    by_cases hzero : stop = 0
    · rw [rangeEnd, if_pos hzero, hzero]
      exact .inl ⟨rfl, rfl⟩
    · rw [rangeEnd, if_neg hzero]
      exact .inr ⟨fun h0 => hzero (UInt16.toNat_inj.mp h0), rfl⟩
  have hlen : (stop - start).toNat = rangeEnd stop - start.toNat := by
    rw [InRange, UInt16.le_iff_toNat_le, ← UInt16.toNat_inj, UInt16.toNat_zero] at h
    rw [← UInt16.toNat_inj, ← UInt16.toNat_inj, UInt16.toNat_zero] at hall
    omega
  rw [addresses, hlen, rangeBytes, List.map_map]
  rfl

end Range

/-! ## The round trip -/

section RoundTrip

variable {ν π : Type} [DecidableEq π]

/-- A name that is read is the file that it was written to. -/
structure Lookup.Finds (lookup : Lookup ν π) (name : ν) (s : Store π) : Prop where
  file : ∀ path, lookup.forWriting name s = .file path →
    ∀ content, lookup.forReading name (s.put path content) = .file path
  listing : lookup.forWriting name s = .listing → lookup.forReading name s = .listing

/-- Every `LOAD` to the place of the range gives its bytes back, and its end. -/
def Restores (lookup : Lookup ν π) (name : ν) (s : Store π) (mem : Mem) (start stop : UInt16) :
    Prop :=
  ∀ (e : Elsewhere) (c : Channel) (command : LoadCommand) (stack : UInt8 × UInt8) (later : Mem),
    (command.secondary = 0 → command.address = start) →
    load lookup e c command stack later name s = .copied (some
      ⟨Mem.write later start.toNat (rangeBytes mem start stop), stop⟩)

/-- What is asked of `SAVE` and `LOAD`: a range that is reported as good is restored, and
    neither leaves the memory. -/
structure RoundTrip (lookup : Lookup ν π) (m : Medium) (mem : Mem) (name : ν) (start stop : UInt16)
    (s : Store π) : Prop where
  restores : (cmdSave lookup m mem name start stop s).status = cStatusAllOk →
    Restores lookup name (cmdSave lookup m mem name start stop s).store mem start stop
  reads : ∀ a ∈ (cmdSave lookup m mem name start stop s).reads, a < memorySize
  writes : ∀ (e : Elsewhere) (c : Channel) (command : LoadCommand) (stack : UInt8 × UInt8)
    (later : Mem) (other : ν) (files : Store π) (r : Option Copied),
    load lookup e c command stack later other files = .copied r →
      ∃ copied, r = some copied ∧ ∀ a, memorySize ≤ a → copied.mem a = later a

/-- The number of bytes that `SAVE` pushes. -/
def total (start stop : UInt16) : Nat := 2 + (stop - start).toNat

/-- Where it is so: the name is refused; or the range is inside the memory, and a block
    fails, which is reported, or all is stored and the range is not the whole memory. -/
def Sound (lookup : Lookup ν π) (m : Medium) (name : ν) (start stop : UInt16) (s : Store π) : Prop :=
  match lookup.forWriting name s with
  | .refused => True
  | .listing => InRange start stop ∧ start ≠ stop
  | .file _ => InRange start stop ∧
      (BlockFails m (total start stop) ∨
        Complete m (total start stop) ∧ ¬ (start = 0 ∧ stop = 0))

variable {lookup : Lookup ν π} {m : Medium} {mem : Mem} {name : ν} {start stop : UInt16}
  {s : Store π} {path : π} {content : List UInt8}

theorem length_saveData (mem : Mem) (start stop : UInt16) :
    (saveData mem start stop).length = total start stop := by
  rw [saveData, addresses, List.length_append, List.length_map, List.length_map, List.length_range]
  rfl

/-- The address in front of what is saved is that of the range. -/
theorem saved_address (stack : UInt8 × UInt8) :
    UInt16.ofNat (((saveData mem start stop).getD 1 stack.2).toNat * 256 +
      ((saveData mem start stop).getD 0 stack.1).toNat) = start := by
  have hlt := start.toNat_lt
  show UInt16.ofNat ((highByte start).toNat * 256 + (lowByte start).toNat) = start
  have hhigh : (highByte start).toNat = start.toNat / 256 := by
    rw [highByte, UInt8.toNat_ofNat', Nat.mod_eq_of_lt (by omega)]
  have hlow : (lowByte start).toNat = start.toNat % 256 := by
    rw [lowByte, UInt8.toNat_ofNat', Nat.mod_eq_of_lt (by omega)]
  rw [hhigh, hlow, Nat.div_add_mod' start.toNat 256, UInt16.ofNat_toNat]

theorem diff_le (h : InRange start stop) : (stop - start).toNat ≤ memorySize - start.toNat := by
  have hdiff := toNat_diff start stop
  have hstart := start.toNat_lt
  have hstop := stop.toNat_lt
  rw [InRange, UInt16.le_iff_toNat_le, ← UInt16.toNat_inj, UInt16.toNat_zero] at h
  rw [memorySize]
  omega

omit [DecidableEq π] in
/-- A file that holds all that was saved is restored. -/
theorem restores_of_saved (hfound : lookup.forReading name s = .file path)
    (hcontent : (s path).getD [] = saveData mem start stop) (hrange : InRange start stop)
    (hall : ¬ (start = 0 ∧ stop = 0)) : Restores lookup name s mem start stop := by
  intro e c command stack later haddress
  have hplace : loadAddress command stack (saveData mem start stop) = start := by
    rw [loadAddress]
    split
    · next hsecondary => exact haddress hsecondary
    · exact saved_address stack
  have hlen : ((addresses start stop).map mem).length = (stop - start).toNat := by
    rw [addresses, List.length_map, List.length_map, List.length_range]
  have hbytes : loadedBytes start (saveData mem start stop) = (addresses start stop).map mem := by
    have hle := diff_le hrange
    rw [loadedBytes]
    exact List.take_of_length_le (by rw [show (saveData mem start stop).drop 2 =
      (addresses start stop).map mem from rfl, hlen]; exact hle)
  have hend : start + UInt16.ofNat ((addresses start stop).map mem).length = stop := by
    rw [hlen, UInt16.ofNat_toNat, UInt16.add_comm, UInt16.sub_add_cancel]
  rw [load_file hfound hcontent nofun, hplace, hbytes, hend, map_addresses hrange hall]

omit [DecidableEq π] in
/-- What is restored was not empty, and ends where the range does. -/
theorem length_of_restores (hfound : lookup.forReading name s = .file path)
    (hcontent : (s path).getD [] = content) (hle : content.length ≤ total start stop)
    (hrange : InRange start stop) (h : Restores lookup name s mem start stop) :
    content.length = total start stop := by
  have hdiff := (stop - start).toNat_lt
  have hbound := diff_le hrange
  rw [total] at hle ⊢
  have hne : content ≠ [] := by
    intro hempty
    have hload := h nowhere (onFile []) ⟨0, start⟩ (0, 0) mem fun _ => rfl
    rw [load_empty hfound (hcontent.trans hempty)] at hload
    exact nomatch hload
  have hpos := List.length_pos_iff.mpr hne
  -- The end of a `LOAD` to the range's start counts the bytes behind the address.
  have hload := h nowhere (onFile []) ⟨0, start⟩ (0, 0) mem fun _ => rfl
  rw [load_file hfound hcontent hne] at hload
  have hend : start + UInt16.ofNat (loadedBytes start content).length = stop :=
    congrArg Copied.addr (Option.some.inj (Loaded.copied.inj hload))
  have hcount : UInt16.ofNat (loadedBytes start content).length = stop - start := by
    rw [← hend, UInt16.add_comm, UInt16.add_sub_cancel]
  have hnat := congrArg UInt16.toNat hcount
  rw [UInt16.toNat_ofNat', loadedBytes, List.length_take, List.length_drop] at hnat
  by_contra hshort
  have hone : content.length = 1 ∧ (stop - start).toNat = 0 := by
    omega
  -- A file of one byte takes the rest of its address from the stack.
  have haddress : ∀ b : UInt8, UInt16.ofNat (b.toNat * 256 + (content.getD 0 0).toNat) = stop := by
    intro b
    have hown := h nowhere (onFile []) ⟨1, 0⟩ (0, b) mem fun h1 => nomatch h1
    rw [load_file hfound hcontent hne] at hown
    have hstop := congrArg Copied.addr (Option.some.inj (Loaded.copied.inj hown))
    have hnone : loadedBytes (loadAddress ⟨1, 0⟩ (0, b) content) content = [] := by
      rw [loadedBytes, List.drop_eq_nil_of_le (by omega), List.take_nil]
    dsimp only at hstop
    rw [hnone, List.length_nil, show UInt16.ofNat 0 = 0 from rfl, UInt16.add_zero, loadAddress,
      if_neg (by decide), List.getD_eq_default content b (by omega)] at hstop
    exact hstop
  have hsame := congrArg UInt16.toNat ((haddress 0).trans (haddress 1).symm)
  have hbyte := (content.getD 0 0).toNat_lt
  rw [UInt16.toNat_ofNat', UInt16.toNat_ofNat', UInt8.toNat_zero, UInt8.toNat_one] at hsame
  omega

/-- The first byte of a range that is the whole memory. -/
theorem write_all (later mem : Mem) : Mem.write later 0 (rangeBytes mem 0 0) 0 = mem 0 := by
  have hcount : rangeEnd 0 - (0 : UInt16).toNat = memorySize := rfl
  have hlen : 0 < (rangeBytes mem 0 0).length := by
    rw [rangeBytes, List.length_map, List.length_range, hcount]
    exact Nat.zero_lt_succ _
  have hfirst : (rangeBytes mem 0 0)[0] = mem 0 := by
    simp only [rangeBytes, List.getElem_map, List.getElem_range]
    exact congrArg mem (Nat.zero_add 0)
  rw [Mem.write, if_pos ⟨Nat.le_refl 0, (Nat.zero_add _).symm ▸ hlen⟩,
    List.getD_eq_getElem _ _ hlen]
  exact hfirst

omit [DecidableEq π] in
/-- The whole memory is not restored: nothing of it is saved. -/
theorem not_restores_all (hfound : lookup.forReading name s = .file path)
    (hcontent : (s path).getD [] = content) (hlen : content.length ≤ 2) :
    ¬ Restores lookup name s mem 0 0 := by
  intro h
  obtain ⟨later, hlater⟩ : ∃ later : Mem, later 0 ≠ mem 0 := by
    by_cases hzero : mem 0 = 0
    · exact ⟨fun _ => 1, by rw [hzero]; decide⟩
    · exact ⟨fun _ => 0, fun h0 => hzero h0.symm⟩
  have hload := h nowhere (onFile []) ⟨0, 0⟩ (0, 0) later fun _ => rfl
  by_cases hne : content = []
  · rw [load_empty hfound (hcontent.trans hne)] at hload
    exact nomatch hload
  · have hnone : loadedBytes (loadAddress ⟨0, 0⟩ (0, 0) content) content = [] := by
      rw [loadedBytes, List.drop_eq_nil_of_le (by omega), List.take_nil]
    rw [load_file hfound hcontent hne, hnone, write_nil] at hload
    have hmem := congrFun (congrArg Copied.mem (Option.some.inj (Loaded.copied.inj hload))) 0
    dsimp only at hmem
    rw [UInt16.toNat_zero, write_all] at hmem
    exact hlater hmem

theorem saveError_ne : cStatusSaveError ≠ cStatusAllOk := by decide

theorem put_self (content : List UInt8) : ((s.put path content) path).getD [] = content := by
  rw [Store.put, if_pos rfl]
  rfl

/-- The round trip of a name that opens a file. -/
theorem roundTrip_file (hopen : lookup.forWriting name s = .file path)
    (hfinds : lookup.Finds name s) :
    RoundTrip lookup m mem name start stop s ↔ InRange start stop ∧
      (BlockFails m (total start stop) ∨
        Complete m (total start stop) ∧ ¬ (start = 0 ∧ stop = 0)) := by
  have hreads : (cmdSave lookup m mem name start stop s).reads = addresses start stop := by
    rw [cmdSave, hopen]
  rcases doSave_spec (m := m) mem start stop with ⟨hgood, hwritten⟩ | ⟨hbad, hfails⟩
  · -- All blocks are good, so `SAVE` reports that all is well.
    have hsave : cmdSave lookup m mem name start stop s = ⟨cStatusAllOk,
        s.put path (fileContent m (saveData mem start stop)), addresses start stop⟩ := by
      rw [cmdSave, hopen]
      dsimp only
      rw [hgood, if_pos rfl, hwritten.close]
    have hno : ¬ BlockFails m (total start stop) := by
      rw [← length_saveData mem]
      exact not_blockFails hwritten
    have hle : (fileContent m (saveData mem start stop)).length ≤ total start stop := by
      rw [← length_saveData mem]
      exact length_fileContent_le
    constructor
    · intro h
      have hrange := addresses_inside_iff.mp (hreads ▸ h.reads)
      have hrestores := h.restores (by rw [hsave])
      rw [hsave] at hrestores
      have hfound := hfinds.file path hopen (fileContent m (saveData mem start stop))
      refine ⟨hrange, .inr ⟨?_, ?_⟩⟩
      · have hlen := length_of_restores hfound (put_self _) hle hrange hrestores
        rw [← length_saveData mem] at hlen ⊢
        exact complete_of_length hlen
      · rintro ⟨rfl, rfl⟩
        exact not_restores_all hfound (put_self _) hle hrestores
    · rintro ⟨hrange, hfails | ⟨hcomplete, hall⟩⟩
      · exact absurd hfails hno
      · refine ⟨fun _ => ?_, ?_, fun e c command stack later other files r h => load_inside c h⟩
        · rw [hsave]
          rw [← length_saveData mem] at hcomplete
          exact restores_of_saved (hfinds.file path hopen _)
            ((put_self _).trans (fileContent_eq hcomplete)) hrange hall
        · rw [hreads]
          exact addresses_inside_iff.mpr hrange
  · -- A block fails, and `SAVE` reports it.
    have hstatus : (cmdSave lookup m mem name start stop s).status = cStatusSaveError := by
      rw [cmdSave, hopen]
      dsimp only
      rw [hbad]
      rfl
    rw [length_saveData] at hfails
    constructor
    · intro h
      exact ⟨addresses_inside_iff.mp (hreads ▸ h.reads), .inl hfails⟩
    · rintro ⟨hrange, -⟩
      refine ⟨fun hok => absurd (hstatus.symm.trans hok) saveError_ne, ?_,
        fun e c command stack later other files r h => load_inside c h⟩
      rw [hreads]
      exact addresses_inside_iff.mpr hrange

/-- The round trip of a name that opens a listing, which takes no byte. -/
theorem roundTrip_listing (hopen : lookup.forWriting name s = .listing)
    (hfinds : lookup.Finds name s) :
    RoundTrip lookup m mem name start stop s ↔ InRange start stop ∧ start ≠ stop := by
  have hreads : (cmdSave lookup m mem name start stop s).reads = addresses start stop := by
    rw [cmdSave, hopen]
  have hfound := hfinds.listing hopen
  by_cases hsame : start = stop
  · -- Nothing is pushed, so nothing is missed, and `LOAD` finds a listing.
    have hsave : cmdSave lookup m mem name start stop s = ⟨cStatusAllOk, s, addresses start stop⟩ := by
      have hnone : addresses start stop = [] := by
        rw [hsame, addresses, UInt16.sub_self]
        rfl
      rw [cmdSave, hopen]
      dsimp only
      rw [doSave, hnone]
      rfl
    constructor
    · intro h
      have hload := h.restores (by rw [hsave]) nowhere (onFile []) ⟨0, start⟩ (0, 0) mem fun _ => rfl
      rw [hsave, load, hfound] at hload
      cases hload
    · exact fun h => absurd hsame h.2
  · have hstatus : (cmdSave lookup m mem name start stop s).status = cStatusSaveError := by
      have hsome : (addresses start stop).map mem ≠ [] := by
        intro hnone
        have hlen := congrArg List.length hnone
        rw [addresses, List.length_map, List.length_map, List.length_range] at hlen
        have hzero : stop - start = 0 := UInt16.toNat_inj.mp hlen
        have hback := UInt16.sub_add_cancel stop start
        rw [hzero, UInt16.zero_add] at hback
        exact hsame hback
      rw [cmdSave, hopen]
      dsimp only
      rw [doSave, show (WriteChannel.onListing.pushData m (lowByte start)).2 = .onListing from rfl,
        show (WriteChannel.onListing.pushData m (highByte start)).2 = .onListing from rfl,
        saveLoop_listing _ hsome]
      rfl
    constructor
    · exact fun h => ⟨addresses_inside_iff.mp (hreads ▸ h.reads), hsame⟩
    · rintro ⟨hrange, -⟩
      refine ⟨fun hok => absurd (hstatus.symm.trans hok) saveError_ne, ?_,
        fun e c command stack later other files r h => load_inside c h⟩
      rw [hreads]
      exact addresses_inside_iff.mpr hrange

/-- **`SAVE` and `LOAD` agree** exactly where the medium has stored all that was saved, or a
    full block has failed. -/
theorem roundTrip_iff (lookup : Lookup ν π) (m : Medium) (mem : Mem) (name : ν)
    (start stop : UInt16) (s : Store π) (hfinds : lookup.Finds name s) :
    RoundTrip lookup m mem name start stop s ↔ Sound lookup m name start stop s := by
  rw [Sound]
  cases hopen : lookup.forWriting name s with
  | file path => exact roundTrip_file hopen hfinds
  | listing => exact roundTrip_listing hopen hfinds
  | refused =>
      have hsave : cmdSave lookup m mem name start stop s = ⟨cStatusSaveError, s, []⟩ := by
        rw [cmdSave, hopen]
      refine ⟨fun _ => trivial, fun _ => ⟨fun hok => ?_, ?_,
        fun e c command stack later other files r h => load_inside c h⟩⟩
      · rw [hsave] at hok
        exact absurd hok saveError_ne
      · rw [hsave]
        exact fun a ha => nomatch ha

end RoundTrip

/-- Names as they are found on a plain medium: a new file is created under sixteen
    characters, a file is read under its own name. -/
def plainNames : Lookup (List UInt8) (List UInt8) where
  forWriting name _ := .file (name.take 16)
  forReading name s := if (s name).isSome = true then .file name else .refused

theorem plainNames_finds : plainNames.Finds [0x41] fun _ => none where
  file := by
    rintro path ⟨⟩ content
    rfl
  listing := nofun

/-- Two bytes on a medium that takes them. -/
theorem roundTrip_iff_two :
    RoundTrip plainNames ⟨fun _ => ⟨true, 512⟩, 512⟩ (fun a => UInt8.ofNat a) [0x41] 0x0801 0x0803
      fun _ => none :=
  (roundTrip_iff plainNames _ _ [0x41] 0x0801 0x0803 _ plainNames_finds).mpr
    ⟨.inl (by decide), .inr ⟨⟨fun _ _ => Nat.le_refl _, by decide, by decide⟩, by decide⟩⟩

/-- One byte on a full medium: the only write is the one that closes the channel, and `SAVE`
    reports that all is well. -/
theorem lost_on_close :
    let full : Medium := ⟨fun _ => ⟨false, 0⟩, 0⟩
    let mem : Mem := fun _ => 0xEA
    let saved := cmdSave plainNames full mem [0x41] 0x0801 0x0802 fun _ => none
    saved.status = cStatusAllOk ∧
      load plainNames nowhere (onFile []) ⟨1, 0⟩ (0, 0) mem [0x41] saved.store = .fileNotFound ∧
      ¬ RoundTrip plainNames full mem [0x41] 0x0801 0x0802 fun _ => none := by
  intro full mem saved
  have hstatus : saved.status = cStatusAllOk := by decide
  have hload : load plainNames nowhere (onFile []) ⟨1, 0⟩ (0, 0) mem [0x41] saved.store
      = .fileNotFound := load_empty rfl rfl (onFile [])
  refine ⟨hstatus, hload, fun h => ?_⟩
  have hrestored := h.restores hstatus nowhere (onFile []) ⟨1, 0⟩ (0, 0) mem nofun
  exact nomatch hload.symm.trans hrestored

end SoftIec
