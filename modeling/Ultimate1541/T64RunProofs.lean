import Ultimate1541.T64SpecProofs

/-! # A T64 container in use

    Files and listings of one container in any order. All of them use the position of one
    file, that only the opening of a file and the beginning of a listing set: what they give
    is right as long as each finds that position where it left it. -/

namespace T64

/-! ## What the users are to get -/

/-- The container in use: of an open file its entry and how much it delivered, of a listing
    how many results it gave. -/
structure Use where
  files : List (Nat × Nat)
  dirs : List Nat

namespace Image

/-- One operation: every file goes through its content, every listing through the listing. -/
def step (image : Image) (u : Use) : Op → Output × Use
  | .openFile accepts =>
      match image.entries.find? (accepts <| image.entry ·) with
      | some k => (.opened true, { u with files := u.files ++ [(k, 0)] })
      | none => (.opened false, u)
  | .read i len =>
      match u.files[i]? with
      | none => (.data [], u)
      | some (k, n) =>
          (.data (((image.content k).drop n).take len),
            { u with files := u.files.set i (k, n + (((image.content k).drop n).take len).length) })
  | .openDir => (.opened true, { u with dirs := u.dirs ++ [0] })
  | .getEntry j =>
      match u.dirs[j]? with
      | none => (.listed none, u)
      | some n =>
          (.listed image.listing[n]?,
            { u with dirs := u.dirs.set j (if image.listing[n]?.isSome then n + 1 else n) })

def run (image : Image) : Use → List Op → List Output
  | _, [] => []
  | u, op :: ops => (image.step u op).1 :: image.run (image.step u op).2 ops

end Image

/-! ## Where the file has to be -/

/-- A read that is to go behind the start address has a length to go by, and finds the
    container's file where this file left it, unless it is at its end. -/
def FileInT64.Placed (f : FileInT64) (len : Nat) (c : T64File) : Prop :=
  f.offset + len ≤ max 2 f.offset ∨
    2 ≤ f.length ∧ (f.length = max 2 f.offset ∨ c.pos = f.fileOffset + (max 2 f.offset - 2))

/-- A listing that goes on finds the container's file at its next entry, and an entry there. -/
def Directory.Placed (d : Directory) (c : T64File) : Prop :=
  d.idx = 0 ∨ d.used < d.idx ∨ c.pos = Image.place (d.idx - 1) ∧ c.image.Regular (d.idx - 1)

instance (f : FileInT64) (len : Nat) (c : T64File) : Decidable (f.Placed len c) :=
  inferInstanceAs (Decidable (_ ∨ _ ∧ (_ ∨ _)))

instance (d : Directory) (c : T64File) : Decidable (d.Placed c) :=
  inferInstanceAs (Decidable (_ ∨ _ ∨ _ ∧ _))

namespace FileSystem

/-- What an operation needs of the state it finds. -/
def Meets (s : FileSystem) : Op → Prop
  | .openFile accepts => Settled s.file.image accepts
  | .read i len => ∀ f ∈ s.files[i]?, f.Placed len s.file
  | .openDir => True
  | .getEntry j => ∀ d ∈ s.dirs[j]?, d.Placed s.file

instance (s : FileSystem) (op : Op) : Decidable (s.Meets op) :=
  match op with
  | .openFile _ => inferInstanceAs (Decidable (Settled _ _))
  | .read _ _ => inferInstanceAs (Decidable (∀ f ∈ _, FileInT64.Placed f _ _))
  | .openDir => .isTrue trivial
  | .getEntry _ => inferInstanceAs (Decidable (∀ d ∈ _, Directory.Placed d _))

/-- Every operation of a run finds what it needs. -/
def AllMeet (junk : Nat → UInt8) : FileSystem → List Op → Prop
  | _, [] => True
  | s, op :: ops => s.Meets op ∧ AllMeet junk (s.step junk op).2 ops

instance decidableAllMeet (junk : Nat → UInt8) : (s : FileSystem) → (ops : List Op) → Decidable (s.AllMeet junk ops)
  | _, [] => .isTrue trivial
  | s, op :: ops =>
      have := decidableAllMeet junk (s.step junk op).2 ops
      inferInstanceAs (Decidable (_ ∧ _))

end FileSystem

/-! ## Reads -/

variable {image : Image} {junk : Nat → UInt8}

/-- An open file, at an entry of which it has delivered `n` bytes. -/
structure Reading (image : Image) (f : FileInT64) (kn : Nat × Nat) : Prop where
  place : f.fileOffset = (image.entry kn.1).cluster
  offset : f.offset = kn.2
  length : f.length = (image.stop kn.1 : Int) - image.start kn.1 + 2
  address : f.startAddr = image.start kn.1
  bound : kn.2 ≤ (image.content kn.1).length

theorem stop_le (image : Image) (k : Nat) : image.stop k ≤ 65536 := by
  have hlt := ldWord_lt (image.block (Image.place k)) 4
  rw [Image.stop]
  split <;> omega

/-- A file that was just opened. -/
theorem reading_open (k : Nat) : Reading image (.open (image.entry k)) (k, 0) where
  place := rfl
  offset := rfl
  length := by
    have hstart := ldWord_lt (image.block (Image.place k)) 2
    have hstop := ldWord_lt (image.block (Image.place k)) 4
    have hsize : (image.entry k).size = (((image.stop k : Int) - image.start k + 2) % 2 ^ 32).toNat := by
      simp only [Image.entry, entryInfo, entrySize, Image.stop, Image.start]
      split <;> rfl
    have hlt := stop_le image k
    simp only [FileInT64.open, hsize, Image.start] at hlt ⊢
    rw [Int.toNat_of_nonneg (Int.emod_nonneg _ (by decide))]
    exact (Int.emod_bmod _ (2 ^ 32)).trans (Int.bmod_eq_of_le (by omega) (by omega))
  address := rfl
  bound := Nat.zero_le _

/-- The start address is delivered as far as it is still to come and there is room. -/
theorem address_eq {f : FileInT64} {k n : Nat} (hr : Reading image f (k, n)) (len : Nat) :
    f.address len =
      ({ f with offset := n + (((image.addressBytes k).drop n).take len).length },
        len - (((image.addressBytes k).drop n).take len).length, ((image.addressBytes k).drop n).take len) := by
  obtain ⟨fileOffset, offset, length, startAddr⟩ := f
  obtain ⟨-, hoffset, -, haddress, -⟩ := hr
  obtain rfl : offset = n := hoffset
  obtain rfl : startAddr = image.start k := haddress
  match offset, len with
  | 0, 0 => rfl
  | 0, 1 => rfl
  | 0, len + 2 => simp [FileInT64.address, FileInT64.prepend, Image.addressBytes]
  | 1, 0 => rfl
  | 1, len + 1 => simp [FileInT64.address, FileInT64.prepend, Image.addressBytes]
  | n + 2, len =>
      have hnil : (image.addressBytes k).drop (n + 2) = [] := List.drop_eq_nil_of_le (Nat.le_add_left 2 n)
      have h0 : ¬(n + 2 = 0) := by omega
      have h1 : ¬(n + 2 = 1) := by omega
      simp only [FileInT64.address, FileInT64.prepend, hnil, h0, h1, and_false, if_false, List.take_nil,
        List.length_nil, Nat.add_zero, Nat.sub_zero]

theorem length_content (image : Image) (k : Nat) : (image.content k).length = 2 + (image.dataBytes k).length :=
  List.length_append

/-- Behind the start address, a read that is placed gives the data that follow. -/
theorem readData_eq {f : FileInT64} {c : T64File} {k n len : Nat} (hr : Reading image f (k, n))
    (himage : c.image = image) (hbehind : max 2 n < n + len)
    (hlength : 2 ≤ f.length) (hplaced : f.length = max 2 n ∨ c.pos = f.fileOffset + (max 2 n - 2)) :
    c.bytesRead ({ f with offset := max 2 n }.asked (len - (2 - n))) =
      ((image.dataBytes k).drop (n - 2)).take (len - (2 - n)) := by
  have hstop := stop_le image k
  have hl : f.length = (image.stop k : Int) - image.start k + 2 := hr.length
  have hbound : n ≤ 2 + (image.dataBytes k).length := length_content image k ▸ hr.bound
  have hdata : (image.dataBytes k).length ≤ image.stop k - image.start k := List.length_take_le _ _
  have hasked : { f with offset := max 2 n }.asked (len - (2 - n)) =
      min (len - (2 - n)) (image.stop k - image.start k - (n - 2)) := by
    have hleft : ((f.length - (max 2 n : Nat)) % 2 ^ 32).toNat = image.stop k - image.start k - (n - 2) := by
      rw [Int.emod_eq_of_lt (by omega) (by omega)]
      omega
    rw [FileInT64.asked, hleft]
  rw [hasked]
  rcases hplaced with hend | hpos
  · have hzero : image.stop k - image.start k - (n - 2) = 0 := by omega
    have hnil : (image.dataBytes k).drop (n - 2) = [] := List.drop_eq_nil_of_le (by omega)
    rw [hzero, hnil, Nat.min_zero, T64File.bytesRead, List.take_zero, List.take_nil]
  · have hplace : f.fileOffset = (image.entry k).cluster := hr.place
    have hsub : max 2 n - 2 = n - 2 := by omega
    rw [T64File.bytesRead, himage, hpos, hplace, hsub, Image.dataBytes, List.drop_take, List.drop_drop, List.take_take]

/-- A read that is placed delivers what follows of the content. -/
theorem read_content {f : FileInT64} {c : T64File} {k n len : Nat} (hr : Reading image f (k, n))
    (himage : c.image = image) (hplaced : f.Placed len c) :
    (f.read len c).1 = ((image.content k).drop n).take len ∧
      Reading image (f.read len c).2.1 (k, n + (((image.content k).drop n).take len).length) ∧
      (f.read len c).2.2.image = image := by
  have hoffset : f.offset = n := hr.offset
  have haddress : (((image.addressBytes k).drop n).take len).length = min len (2 - n) := by
    rw [List.length_take, List.length_drop]
    rfl
  have hsplit : ((image.content k).drop n).take len =
      ((image.addressBytes k).drop n).take len ++ ((image.dataBytes k).drop (n - 2)).take (len - (2 - n)) := by
    rw [Image.content, List.drop_append, List.take_append, List.length_drop]
    rfl
  have hbound : n + (((image.content k).drop n).take len).length ≤ (image.content k).length := by
    have hn : n ≤ (image.content k).length := hr.bound
    rw [List.length_take, List.length_drop]
    omega
  by_cases hbehind : max 2 n < n + len
  · -- the read goes behind the start address
    obtain ⟨hlength, hplace⟩ : 2 ≤ f.length ∧ (f.length = max 2 n ∨ c.pos = f.fileOffset + (max 2 n - 2)) := by
      rcases hplaced with hshort | hplaced
      · omega
      · rwa [hoffset] at hplaced
    have hdata := readData_eq hr himage hbehind hlength hplace
    have hfull : min len (2 - n) = 2 - n := by omega
    have hnext : n + (2 - n) = max 2 n := by omega
    have hroom : ¬(len - (2 - n) = 0) := by omega
    simp only [FileInT64.read, address_eq hr, haddress, hfull, hnext, FileInT64.readData, hroom, if_false, hdata]
    refine ⟨hsplit.symm, ⟨hr.place, ?_, hr.length, hr.address, hbound⟩, himage⟩
    rw [hsplit, List.length_append, haddress, hfull]
    exact (congrArg (· + _) hnext.symm).trans (Nat.add_assoc n _ _)
  · -- it ends in it, or before it
    have hzero : len - (2 - n) = 0 := by omega
    have hfull : min len (2 - n) = len := by omega
    rw [hzero, List.take_zero, List.append_nil] at hsplit
    simp only [FileInT64.read, address_eq hr, haddress, hfull, FileInT64.readData, Nat.sub_self, if_true,
      List.append_nil]
    refine ⟨hsplit.symm, ⟨hr.place, ?_, hr.length, hr.address, hbound⟩, himage⟩
    rw [hsplit, haddress, hfull]

/-! ## Listings -/

variable (junk) in
/-- A listing that is placed gives the next result. -/
theorem getEntry_listing {d : Directory} {c : T64File} {n : Nat} (hd : Listed image d n) (himage : c.image = image)
    (hplaced : d.Placed c) :
    (if (d.getEntry junk c).1 = .ok then some (d.getEntry junk c).2.1.info else none) = image.listing[n]? ∧
      Listed image (d.getEntry junk c).2.1 (if image.listing[n]?.isSome then n + 1 else n) ∧
      (d.getEntry junk c).2.2.image = image := by
  obtain ⟨hidx, hused⟩ := hd
  cases n with
  | zero =>
      have hfirst : image.listing[0]? = some image.title := rfl
      rw [getEntry_title junk himage hidx, hfirst]
      exact ⟨rfl, ⟨rfl, fun _ => ⟨rfl, by simp only [Option.isSome_some, if_true]; omega, fun k hk => by
        simp only [Option.isSome_some, if_true] at hk; omega⟩⟩, rfl⟩
  | succ k =>
      obtain ⟨hall, hle, hregular⟩ := hused (Nat.succ_pos k)
      rcases Nat.lt_or_ge k image.used with hk | hk
      · -- an entry
        obtain ⟨hpos, hnext⟩ : c.pos = Image.place k ∧ image.Regular k := by
          rcases hplaced with hplaced | hplaced | hplaced
          · omega
          · omega
          · rwa [hidx, Nat.add_sub_cancel, himage] at hplaced
        have hupto : ∀ j ≤ k, image.Regular j := by
          intro j hj
          rcases Nat.lt_or_eq_of_le hj with hj | rfl
          · exact hregular j (by omega)
          · exact hnext
        rw [getEntry_entry junk himage hidx hall hk hpos hnext, listing_entry hk hupto]
        exact ⟨rfl, ⟨rfl, fun _ => ⟨rfl, by simp only [Option.isSome_some, if_true]; omega, fun j hj => by
          simp only [Option.isSome_some, if_true] at hj; exact hupto j (by omega)⟩⟩, rfl⟩
      · -- the end
        obtain rfl : k = image.used := by omega
        rw [getEntry_end junk (by omega) (by omega), listing_end fun j hj => hregular j (by omega)]
        exact ⟨rfl, ⟨hidx, fun _ => ⟨hall, hle, hregular⟩⟩, himage⟩

/-! ## Runs -/

/-- The file system has what the users are to have. -/
structure Refines (image : Image) (s : FileSystem) (u : Use) : Prop where
  container : s.file.image = image
  files : List.Forall₂ (Reading image) s.files u.files
  dirs : List.Forall₂ (Listed image) s.dirs u.dirs

theorem refines_mounted (image : Image) (pos : Nat) : Refines image (.mounted image pos) ⟨[], []⟩ where
  container := rfl
  files := .nil
  dirs := .nil

section Lists

variable {α β : Type} {R : α → β → Prop}

/-- Of two lists that are related, what is at one place is related. -/
theorem forall₂_getElem? {l : List α} {m : List β} (h : List.Forall₂ R l m) (i : Nat) :
    (l[i]? = none ∧ m[i]? = none) ∨ ∃ x y, l[i]? = some x ∧ m[i]? = some y ∧ R x y := by
  induction h generalizing i with
  | nil => exact .inl ⟨rfl, rfl⟩
  | cons hxy _ ih =>
      cases i with
      | zero => exact .inr ⟨_, _, rfl, rfl, hxy⟩
      | succ i => exact ih i

theorem forall₂_set {l : List α} {m : List β} (h : List.Forall₂ R l m) (i : Nat) {x : α} {y : β} (hxy : R x y) :
    List.Forall₂ R (l.set i x) (m.set i y) := by
  induction h generalizing i with
  | nil => exact .nil
  | cons hab htail ih =>
      cases i with
      | zero => exact .cons hxy htail
      | succ i => exact .cons hab (ih i)

theorem forall₂_snoc {l : List α} {m : List β} (h : List.Forall₂ R l m) {x : α} {y : β} (hxy : R x y) :
    List.Forall₂ R (l ++ [x]) (m ++ [y]) := by
  induction h with
  | nil => exact .cons hxy .nil
  | cons hab _ ih => exact .cons hab ih

end Lists

variable (junk) in
/-- An operation that finds what it needs gives what it is to give. -/
theorem step_refines {s : FileSystem} {u : Use} (h : Refines image s u) {op : Op} (hm : s.Meets op) :
    (s.step junk op).1 = (image.step u op).1 ∧ Refines image (s.step junk op).2 (image.step u op).2 := by
  obtain ⟨himage, hfiles, hdirs⟩ := h
  cases op with
  | openFile accepts =>
      have hsettled : Settled image accepts := himage ▸ hm
      obtain ⟨hfound, hstay⟩ := find_opened junk hsettled himage
      obtain ⟨r, hr⟩ : ∃ r, r = Directory.opened.find junk accepts searchFuel s.file := ⟨_, rfl⟩
      obtain ⟨found, c⟩ := r
      rw [← hr] at hfound hstay
      obtain rfl : found = _ := hfound
      cases hfind : image.entries.find? (accepts <| image.entry ·) with
      | none =>
          rw [hfind, Option.map_none] at hr
          simp only [FileSystem.step, FileSystem.fileOpen, ← hr, Image.step, hfind]
          exact ⟨trivial, ⟨hstay, hfiles, hdirs⟩⟩
      | some k =>
          rw [hfind, Option.map_some] at hr
          simp only [FileSystem.step, FileSystem.fileOpen, ← hr, Image.step, hfind]
          exact ⟨trivial, ⟨hstay, forall₂_snoc hfiles (reading_open k), hdirs⟩⟩
  | read i len =>
      rcases forall₂_getElem? hfiles i with ⟨hs, hu⟩ | ⟨f, ⟨k, n⟩, hs, hu, hr⟩
      · simp only [FileSystem.step, Image.step, hs, hu]
        exact ⟨trivial, ⟨himage, hfiles, hdirs⟩⟩
      · obtain ⟨hbytes, hnext, hstay⟩ := read_content hr himage (hm f hs)
        simp only [FileSystem.step, Image.step, hs, hu]
        exact ⟨congrArg Output.data hbytes, ⟨hstay, forall₂_set hfiles i hnext, hdirs⟩⟩
  | openDir => exact ⟨rfl, ⟨himage, hfiles, forall₂_snoc hdirs listed_opened⟩⟩
  | getEntry j =>
      rcases forall₂_getElem? hdirs j with ⟨hs, hu⟩ | ⟨d, n, hs, hu, hd⟩
      · simp only [FileSystem.step, Image.step, hs, hu]
        exact ⟨trivial, ⟨himage, hfiles, hdirs⟩⟩
      · obtain ⟨hinfo, hnext, hstay⟩ := getEntry_listing junk hd himage (hm d hs)
        simp only [FileSystem.step, Image.step, hs, hu]
        exact ⟨congrArg Output.listed hinfo, ⟨hstay, hfiles, forall₂_set hdirs j hnext⟩⟩

theorem run_refines {s : FileSystem} {u : Use} (h : Refines image s u) {ops : List Op} (hm : s.AllMeet junk ops) :
    s.run junk ops = image.run u ops := by
  induction ops generalizing s u with
  | nil => rfl
  | cons op ops ih =>
      obtain ⟨hop, hops⟩ := hm
      obtain ⟨hout, hnext⟩ := step_refines junk h hop
      rw [FileSystem.run, Image.run, hout, ih hnext hops]

/-- In every run of a container whose operations find what they need, each file delivers its
    start address and its part of the container, and each listing the entries in order. -/
theorem container_run (junk : Nat → UInt8) (image : Image) (pos : Nat) (ops : List Op)
    (h : (FileSystem.mounted image pos).AllMeet junk ops) :
    (FileSystem.mounted image pos).run junk ops = image.run ⟨[], []⟩ ops :=
  run_refines (refines_mounted image pos) h

/-- A container with one file of three bytes. -/
def oneFile : Image where
  bytes :=
    [0x43, 0x36, 0x34] ++ List.replicate 61 0 ++
      ([1, 0x82, 0x01, 0x08, 0x04, 0x08, 0, 0, 96, 0, 0, 0, 0, 0, 0, 0] ++ List.replicate 16 0x41) ++ [10, 20, 30]
  signature := rfl
  header := by decide

/-- A file that is read to its end, and a listing after it. -/
theorem container_run_oneFile :
    (FileSystem.mounted oneFile 0).run (fun _ => 0) [.openFile fun _ => true, .read 0 3, .read 0 9, .openDir, .getEntry 0] =
      oneFile.run ⟨[], []⟩ [.openFile fun _ => true, .read 0 3, .read 0 9, .openDir, .getEntry 0] :=
  container_run (fun _ => 0) oneFile 0 _ (by decide +kernel)

/-- A listing that begins between two reads of a file: the second read gives the type of the
    entry in place of the second byte of the file. -/
theorem listing_moves_file :
    (FileSystem.mounted oneFile 0).run (fun _ => 0)
        [.openFile fun _ => true, .read 0 3, .openDir, .getEntry 0, .read 0 1] =
      [.opened true, .data [1, 8, 10], .opened true, .listed (some oneFile.title), .data [1]] ∧
    oneFile.run ⟨[], []⟩ [.openFile fun _ => true, .read 0 3, .openDir, .getEntry 0, .read 0 1] =
      [.opened true, .data [1, 8, 10], .opened true, .listed (some oneFile.title), .data [20]] := by
  constructor <;> decide +kernel

end T64
