import Ultimate1541.T64Proofs

/-! # What a T64 container has

    The entries of a container and the contents of its files are functions of its bytes.
    Where the container's file is at the right place, a listing and a read give these. -/

namespace T64

/-! ## Contents -/

namespace Image

variable (image : Image)

/-- The bytes from a position on. -/
def block (pos : Nat) : Nat → UInt8 := fun i => image.bytes.getD (pos + i) 0

/-- Where an entry of the table is. -/
def place (k : Nat) : Nat := 64 + 32 * k

/-- How many entries the header says there are. -/
def used : Nat := usedEntries (image.block 32)

def title : FileInfo := titleInfo (image.block 32)

def entry (k : Nat) : FileInfo := entryInfo (image.block (place k))

/-- An entry that is in the container as a whole, and not free. -/
def Regular (k : Nat) : Prop := place (k + 1) ≤ image.bytes.length ∧ image.block (place k) 0 ≠ 0

instance (k : Nat) : Decidable (image.Regular k) := inferInstanceAs (Decidable (_ ∧ _))

/-- The entries, in their order. -/
def entries : List Nat := (List.range image.used).filter (image.Regular ·)

/-- A listing: the title and the entries. -/
def listing : List FileInfo := image.title :: image.entries.map image.entry

def start (k : Nat) : Nat := ldWord (image.block (place k)) 2

/-- The end address; an entry that has none ends with the memory. -/
def stop (k : Nat) : Nat :=
  if ldWord (image.block (place k)) 4 ≠ 0 then ldWord (image.block (place k)) 4 else 65536

def addressBytes (k : Nat) : List UInt8 :=
  [UInt8.ofNat (image.start k % 256), UInt8.ofNat (image.start k / 256 % 256)]

/-- The data of an entry, as far as the container has it. -/
def dataBytes (k : Nat) : List UInt8 :=
  (image.bytes.drop (image.entry k).cluster).take (image.stop k - image.start k)

/-- What a file delivers. -/
def content (k : Nat) : List UInt8 := image.addressBytes k ++ image.dataBytes k

end Image

/-! ## The buffer of an entry -/

variable {image : Image} {junk : Nat → UInt8}

/-- A whole record that is read is the one of the container. -/
theorem filled_block {c : T64File} (himage : c.image = image) (hroom : c.pos + 32 ≤ image.bytes.length)
    {i : Nat} (hi : i < 32) : filled junk (c.bytesRead 32) i = image.block c.pos i := by
  have hdrop : i < (image.bytes.drop c.pos).length := by simp only [List.length_drop]; omega
  have hread : i < ((image.bytes.drop c.pos).take 32).length := by simp only [List.length_take]; omega
  have hplace : c.pos + i < image.bytes.length := by omega
  simp only [filled, T64File.bytesRead, himage, Image.block, List.getD_eq_getElem?_getD]
  rw [List.getElem?_eq_getElem hread, List.getElem?_eq_getElem hplace]
  simp only [Option.getD_some, List.getElem_take, List.getElem_drop]

theorem read_whole {c : T64File} (himage : c.image = image) (hroom : c.pos + 32 ≤ image.bytes.length) :
    c.read 32 = ⟨image, c.pos + 32⟩ := by
  obtain ⟨i, pos⟩ := c
  obtain rfl : i = image := himage
  have hlength : (T64File.bytesRead 32 ⟨i, pos⟩).length = 32 := by
    simp only [T64File.bytesRead, List.length_take, List.length_drop]
    have hroom' : pos + 32 ≤ i.bytes.length := hroom
    omega
  simp only [T64File.read, hlength]

variable {a b : Nat → UInt8}

theorem ldWord_congr (h : ∀ i < 32, a i = b i) {off : Nat} (hoff : off + 1 < 32) : ldWord a off = ldWord b off := by
  rw [ldWord, ldWord, h off (by omega), h (off + 1) hoff]

/-- Only the 32 bytes of the record matter for an entry. -/
theorem entryInfo_congr (h : ∀ i < 32, a i = b i) : entryInfo a = entryInfo b := by
  have hname : entryName a = entryName b := by
    have hmap : ((List.range 16).map fun s => nameChar (a (16 + s))) = (List.range 16).map fun s => nameChar (b (16 + s)) := by
      refine List.map_congr_left fun s hs => ?_
      rw [h (16 + s) (by have := List.mem_range.mp hs; omega)]
    rw [entryName, entryName, hmap]
  rw [entryInfo, entryInfo, hname, ldWord_congr h (by omega), ldWord_congr h (by omega), ldDword, ldDword,
    ldWord_congr h (by omega), ldWord_congr h (by omega)]

theorem titleInfo_congr (h : ∀ i < 32, a i = b i) : titleInfo a = titleInfo b := by
  have hmap : ((List.range 23).map fun s => a (s + 8)) = (List.range 23).map fun s => b (s + 8) := by
    refine List.map_congr_left fun s hs => ?_
    exact h (s + 8) (by have := List.mem_range.mp hs; omega)
  rw [titleInfo, titleInfo, hmap]

theorem usedEntries_congr (h : ∀ i < 32, a i = b i) : usedEntries a = usedEntries b := by
  rw [usedEntries, usedEntries, ldWord_congr h (by omega)]

theorem ldWord_lt (a : Nat → UInt8) (off : Nat) : ldWord a off < 65536 := by
  have h0 := (a off).toNat_lt
  have h1 := (a (off + 1)).toNat_lt
  simp only [ldWord]
  omega

/-! ## Listings -/

/-- A directory that has given its first `n` results, all of them right. -/
def Listed (image : Image) (d : Directory) (n : Nat) : Prop :=
  d.idx = n ∧ (0 < n → d.used = image.used ∧ n ≤ image.used + 1 ∧ ∀ k, k + 1 < n → image.Regular k)

theorem listed_opened : Listed image .opened 0 := ⟨rfl, fun h => absurd h (by omega)⟩

variable (junk) in
/-- The header is there: a listing begins with the title. -/
theorem getEntry_title {d : Directory} {c : T64File} (himage : c.image = image) (hd : d.idx = 0) :
    d.getEntry junk c = (.ok, ⟨1, image.used, image.title⟩, ⟨image, 64⟩) := by
  obtain ⟨i, pos⟩ := c
  obtain rfl : i = image := himage
  have hheader := i.header
  have hvalid : validHeader ((T64File.seek 0 ⟨i, pos⟩).bytesRead 32) = true := by
    have hprefix : (i.bytes.take 32).take 3 = [0x43, 0x36, 0x34] := by
      rw [List.take_take]
      exact i.signature
    have hlength : (i.bytes.take 32).length = 32 := by
      rw [List.length_take]
      omega
    simp only [validHeader, T64File.seek, T64File.bytesRead, List.drop_zero, hprefix, hlength, and_self,
      decide_true]
  have hfirst : (T64File.seek 0 ⟨i, pos⟩).read 32 = ⟨i, 32⟩ := read_whole rfl (by simp only [T64File.seek]; omega)
  have hsecond : T64File.read 32 ⟨i, 32⟩ = ⟨i, 64⟩ := read_whole rfl hheader
  have hbuf : ∀ k < 32, filled junk (T64File.bytesRead 32 ⟨i, 32⟩) k = i.block 32 k :=
    fun k hk => filled_block (c := ⟨i, 32⟩) rfl hheader hk
  rw [Directory.getEntry, if_pos hd, if_pos hvalid, hfirst, hsecond, usedEntries_congr hbuf, titleInfo_congr hbuf]
  rfl

variable (junk) in
/-- Where the container's file is at an entry, the listing gives it and goes on to the next. -/
theorem getEntry_entry {d : Directory} {c : T64File} {k : Nat} (himage : c.image = image) (hd : d.idx = k + 1)
    (hused : d.used = image.used) (hk : k < image.used) (hpos : c.pos = Image.place k) (hregular : image.Regular k) :
    d.getEntry junk c = (.ok, ⟨k + 2, image.used, image.entry k⟩, ⟨image, Image.place (k + 1)⟩) := by
  obtain ⟨hroom, htype⟩ := hregular
  have hroom : c.pos + 32 ≤ image.bytes.length := by
    rw [hpos]
    simp only [Image.place] at hroom ⊢
    omega
  have hbuf : ∀ i < 32, filled junk (c.bytesRead 32) i = image.block c.pos i :=
    fun i hi => filled_block himage hroom hi
  have hnext : c.read 32 = ⟨image, Image.place (k + 1)⟩ := by
    rw [read_whole himage hroom, hpos]
    simp only [Image.place]
    congr 1
  have hzero : filled junk (c.bytesRead 32) 0 ≠ 0 := by
    rw [hbuf 0 (by omega), hpos]
    exact htype
  rw [Directory.getEntry, if_neg (by omega), if_pos (by omega), if_pos hzero, hnext, entryInfo_congr hbuf, hpos,
    hd, hused]
  rfl

variable (junk) in
theorem getEntry_end {d : Directory} {c : T64File} (hd : 0 < d.idx) (hused : d.used < d.idx) :
    d.getEntry junk c = (.noFile, { d with info := cleared d.info }, c) := by
  rw [Directory.getEntry, if_neg (by omega), if_neg (by omega)]

/-! ## The entries of a listing -/

/-- Up to an entry that is reached, the entries are those of the table. -/
theorem entries_split {n : Nat} (hn : n ≤ image.used) (h : ∀ k < n, image.Regular k) :
    ∃ rest, image.entries = List.range n ++ rest ∧ ∀ k ∈ rest, n ≤ k := by
  refine ⟨((List.range (image.used - n)).map (n + ·)).filter (image.Regular ·), ?_, ?_⟩
  · have hsplit : List.range image.used = List.range n ++ (List.range (image.used - n)).map (n + ·) := by
      rw [← List.range_add]
      congr 1
      omega
    have hfirst : (List.range n).filter (image.Regular ·) = List.range n := by
      rw [List.filter_eq_self]
      intro k hk
      simpa only [decide_eq_true_eq] using h k (List.mem_range.mp hk)
    rw [Image.entries, hsplit, List.filter_append, hfirst]
  · intro k hk
    obtain ⟨j, _, rfl⟩ := List.mem_map.mp (List.mem_filter.mp hk).1
    omega

theorem listing_entry {k : Nat} (hk : k < image.used) (h : ∀ j ≤ k, image.Regular j) :
    image.listing[k + 1]? = some (image.entry k) := by
  obtain ⟨rest, hentries, _⟩ := entries_split (n := k + 1) (by omega) (fun j hj => h j (by omega))
  have hget : image.entries[k]? = some k := by
    rw [hentries, List.getElem?_append_left (by rw [List.length_range]; omega), List.getElem?_range (by omega)]
  rw [Image.listing, List.getElem?_cons_succ, List.getElem?_map, hget]
  rfl

theorem listing_end (h : ∀ j < image.used, image.Regular j) : image.listing[image.used + 1]? = none := by
  obtain ⟨rest, hentries, hrest⟩ := entries_split (n := image.used) (by omega) h
  have hnil : rest = [] := by
    refine List.eq_nil_iff_forall_not_mem.mpr fun k hk => ?_
    have hmem : k ∈ image.entries := by
      rw [hentries]
      exact List.mem_append_right _ hk
    have hlt := List.mem_range.mp (List.mem_filter.mp hmem).1
    have hge := hrest k hk
    omega
  refine List.getElem?_eq_none (Nat.le_of_eq ?_)
  rw [Image.listing, List.length_cons, List.length_map, hentries, hnil, List.append_nil, List.length_range]

/-! ## Lookups -/

/-- A lookup comes to no entry that is not regular: what it looks for is before it. -/
def Settled (image : Image) (accepts : FileInfo → Bool) : Prop :=
  ∀ k < image.used, image.Regular k ∨ ∃ j < k, image.Regular j ∧ accepts (image.entry j) = true

instance (accepts : FileInfo → Bool) : Decidable (Settled image accepts) :=
  inferInstanceAs (Decidable (∀ k < image.used, _))

variable (junk) in
/-- The search from an entry on, where those before it are not accepted. -/
theorem find_entries {accepts : FileInfo → Bool} (hsettled : Settled image accepts) :
    ∀ (left k fuel : Nat) (d : Directory) (c : T64File), k + left = image.used → left < fuel →
      (∀ j < k, image.Regular j ∧ accepts (image.entry j) = false) →
      d.idx = k + 1 → d.used = image.used → c.image = image → c.pos = Image.place k →
      (d.find junk accepts fuel c).1 = (image.entries.find? (accepts <| image.entry ·)).map image.entry ∧
        (d.find junk accepts fuel c).2.image = image := by
  intro left
  induction left with
  | zero =>
      intro k fuel d c hk hfuel hbefore hidx hused himage hpos
      obtain ⟨fuel, rfl⟩ : ∃ m, fuel = m + 1 := ⟨fuel - 1, by omega⟩
      have hnone : image.entries.find? (accepts <| image.entry ·) = none := by
        rw [List.find?_eq_none]
        intro j hj
        have hlt := List.mem_range.mp (List.mem_filter.mp hj).1
        simp only [(hbefore j (by omega)).2, Bool.false_eq_true, not_false_eq_true]
      have hend := getEntry_end junk (d := d) (c := c) (by omega) (by omega)
      simp only [Directory.find, hend, hnone, Option.map_none, himage, and_self]
  | succ left ih =>
      intro k fuel d c hk hfuel hbefore hidx hused himage hpos
      obtain ⟨fuel, rfl⟩ : ∃ m, fuel = m + 1 := ⟨fuel - 1, by omega⟩
      have hk' : k < image.used := by omega
      have hregular : image.Regular k := by
        rcases hsettled k hk' with hk | ⟨j, hj, _, haccepts⟩
        · exact hk
        · rw [(hbefore j hj).2] at haccepts
          exact absurd haccepts (by decide)
      have hnext := getEntry_entry junk (k := k) himage hidx hused hk' hpos hregular
      have hvolume : (image.entry k).volume = false := rfl
      cases haccepts : accepts (image.entry k) with
      | true =>
          obtain ⟨rest, hentries, _⟩ := entries_split (n := k + 1) hk' (fun j hj => by
            rcases Nat.lt_succ_iff_lt_or_eq.mp hj with hj | rfl
            · exact (hbefore j hj).1
            · exact hregular)
          have hbefore' : (List.range k).find? (accepts <| image.entry ·) = none := by
            rw [List.find?_eq_none]
            intro j hj
            simp only [(hbefore j (List.mem_range.mp hj)).2, Bool.false_eq_true, not_false_eq_true]
          have hfound : image.entries.find? (accepts <| image.entry ·) = some k := by
            rw [hentries, List.range_succ, List.append_assoc, List.find?_append, hbefore', List.cons_append,
              List.find?_cons_of_pos (p := (accepts <| image.entry ·)) haccepts]
            rfl
          simp only [Directory.find, hnext, hvolume, haccepts, hfound, Bool.false_eq_true, if_false, if_true,
            Option.map_some, and_self]
      | false =>
          have hrest := ih (k + 1) fuel ⟨k + 2, image.used, image.entry k⟩ ⟨image, Image.place (k + 1)⟩ (by omega)
            (by omega)
            (fun j hj => by
              rcases Nat.lt_succ_iff_lt_or_eq.mp hj with hj | rfl
              · exact hbefore j hj
              · exact ⟨hregular, haccepts⟩)
            rfl rfl rfl rfl
          simpa only [Directory.find, hnext, hvolume, haccepts, Bool.false_eq_true, if_false] using hrest

variable (junk) in
/-- A lookup that is settled finds the first entry that is accepted. -/
theorem find_opened {accepts : FileInfo → Bool} (hsettled : Settled image accepts) {c : T64File}
    (himage : c.image = image) :
    (Directory.opened.find junk accepts searchFuel c).1 =
        (image.entries.find? (accepts <| image.entry ·)).map image.entry ∧
      (Directory.opened.find junk accepts searchFuel c).2.image = image := by
  have hused : image.used < 65536 := by
    have hlt := ldWord_lt (image.block 32) 4
    simp only [Image.used, usedEntries]
    split <;> omega
  have htitle := getEntry_title junk (d := .opened) himage rfl
  have hvolume : image.title.volume = true := rfl
  have hfuel : searchFuel = 65537 + 1 := rfl
  have hrest := find_entries junk hsettled image.used 0 65537 ⟨1, image.used, image.title⟩ ⟨image, 64⟩
    (by omega) (by omega) (fun j hj => absurd hj (by omega)) rfl rfl rfl rfl
  rw [hfuel, Directory.find.eq_2, htitle]
  simpa only [hvolume, if_true] using hrest

end T64
