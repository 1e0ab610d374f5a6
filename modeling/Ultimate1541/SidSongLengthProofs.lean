import Ultimate1541.SidFileProofs

/-! # The lengths of the songs of a SID file

    The area for the lengths has 512 bytes, two for each song.  The file with the lengths is cut
    to that, but neither the loop over the songs nor the length in the header keeps to it: a
    header may name 65535 songs, and any of them as the default.  Where the loop comes behind the
    area it leaves alone what looks like a length, and stores over the rest. -/

namespace SidFile

/-! ## Slots -/

/-- The two bytes of a song. -/
def slot (rom : Ram) (k : Nat) : UInt8 × UInt8 :=
  (rom.bytes (0x3000 + k * 2), rom.bytes (0x3001 + k * 2))

/-- Minutes and seconds in BCD, and not 00:00. -/
def Valid (v : UInt8 × UInt8) : Prop := ¬ notBcd v.1 v.2 ∧ ¬ (v.1 = 0 ∧ v.2 = 0)

/-- Every store is in the area. -/
def InArea (rom : Ram) : Prop := ∀ s ∈ rom.stores, 0x3000 ≤ s.1 ∧ s.1 + s.2 ≤ 0x3200

instance (v : UInt8 × UInt8) : Decidable (Valid v) := inferInstanceAs (Decidable (_ ∧ _))

/-- What the loop makes of a slot. -/
def repaired (musFile : Bool) (v : UInt8 × UInt8) : UInt8 × UInt8 :=
  if Valid v then v else (if musFile then defaultSongLengthMus else defaultSongLengthSid, 0)

theorem valid_repaired (musFile : Bool) (v : UInt8 × UInt8) : Valid (repaired musFile v) := by
  rw [repaired]
  by_cases h : Valid v
  · rw [if_pos h]
    exact h
  · rw [if_neg h]
    cases musFile with
    | true => exact ⟨by decide, by decide⟩
    | false => exact ⟨by decide, by decide⟩

theorem store_bytes (rom : Ram) (i : Nat) (b : UInt8) (a : Nat) :
    (store rom i b).bytes a = if a = i then b else rom.bytes a := by
  rw [store, Ram.put]
  by_cases h : a = i
  · subst h
    simp
  · simp only [List.length_singleton]
    rw [if_neg (by omega), if_neg h]

theorem inArea_append {bytes bytes' : Nat → UInt8} {stores : List (Nat × Nat)} {off len : Nat} :
    InArea ⟨bytes, stores ++ [(off, len)]⟩ ↔
      InArea ⟨bytes', stores⟩ ∧ 0x3000 ≤ off ∧ off + len ≤ 0x3200 := by
  constructor
  · intro h
    exact ⟨fun s hs => h s (List.mem_append_left _ hs),
      h (off, len) (List.mem_append_right _ (List.mem_singleton_self _))⟩
  · rintro ⟨h, hlast⟩ s hs
    rcases List.mem_append.1 hs with hs | hs
    · exact h s hs
    · rw [List.mem_singleton.1 hs]
      exact hlast

theorem inArea_put {rom : Ram} {off : Nat} {data : List UInt8} :
    InArea (rom.put off data) ↔ InArea rom ∧ 0x3000 ≤ off ∧ off + data.length ≤ 0x3200 :=
  inArea_append

theorem inArea_fill {rom : Ram} {off len : Nat} {b : UInt8} :
    InArea (rom.fill off len b) ↔ InArea rom ∧ 0x3000 ≤ off ∧ off + len ≤ 0x3200 :=
  inArea_append

theorem inArea_store {rom : Ram} {i : Nat} {b : UInt8} :
    InArea (store rom i b) ↔ InArea rom ∧ 0x3000 ≤ i ∧ i < 0x3200 :=
  inArea_put

/-! ## The loop -/

/-- A round of the loop. -/
def lengthRound (musFile : Bool) (k : Nat) (rom : Ram) : Ram :=
  setDefault musFile (k * 2) (clearInvalid (k * 2) rom)

/-- A round repairs its own slot. -/
theorem slot_lengthRound (musFile : Bool) (k j : Nat) (rom : Ram) :
    slot (lengthRound musFile k rom) j = if j = k then repaired musFile (slot rom k) else slot rom j := by
  by_cases hbad : notBcd (rom.bytes (0x3000 + k * 2)) (rom.bytes (0x3001 + k * 2))
  · rw [lengthRound, clearInvalid, if_pos hbad, setDefault]
    rw [if_pos (by simp [store_bytes])]
    by_cases hj : j = k
    · subst hj
      have hvalid : ¬ Valid (slot rom j) := fun h => h.1 hbad
      rw [if_pos rfl, repaired, if_neg hvalid]
      simp [slot, store_bytes]
    · rw [if_neg hj]
      simp only [slot, store_bytes]
      rw [if_neg (by omega), if_neg (by omega), if_neg (by omega), if_neg (by omega),
        if_neg (by omega), if_neg (by omega)]
  · rw [lengthRound, clearInvalid, if_neg hbad, setDefault]
    by_cases hzero : rom.bytes (0x3000 + k * 2) = 0 ∧ rom.bytes (0x3001 + k * 2) = 0
    · rw [if_pos hzero]
      by_cases hj : j = k
      · subst hj
        have hvalid : ¬ Valid (slot rom j) := fun h => h.2 hzero
        rw [if_pos rfl, repaired, if_neg hvalid]
        simp [slot, store_bytes, hzero.2]
      · rw [if_neg hj]
        simp only [slot, store_bytes]
        rw [if_neg (by omega), if_neg (by omega)]
    · rw [if_neg hzero]
      by_cases hj : j = k
      · subst hj
        have hvalid : Valid (slot rom j) := ⟨hbad, hzero⟩
        rw [if_pos rfl, repaired, if_pos hvalid]
      · rw [if_neg hj]

/-- A round stores nothing when the slot is valid, and else in the slot. -/
theorem inArea_lengthRound (musFile : Bool) (k : Nat) (rom : Ram) :
    InArea (lengthRound musFile k rom) ↔ InArea rom ∧ (256 ≤ k → Valid (slot rom k)) := by
  by_cases hbad : notBcd (rom.bytes (0x3000 + k * 2)) (rom.bytes (0x3001 + k * 2))
  · rw [lengthRound, clearInvalid, if_pos hbad, setDefault]
    rw [if_pos (by simp [store_bytes]), inArea_store, inArea_store, inArea_store]
    constructor
    · rintro ⟨⟨⟨hrom, -⟩, -, hlt⟩, -⟩
      exact ⟨hrom, fun hk => by omega⟩
    · rintro ⟨hrom, hvalid⟩
      have hk : k < 256 := Nat.lt_of_not_le fun hk => (hvalid hk).1 hbad
      exact ⟨⟨⟨hrom, by omega, by omega⟩, by omega, by omega⟩, by omega, by omega⟩
  · rw [lengthRound, clearInvalid, if_neg hbad, setDefault]
    by_cases hzero : rom.bytes (0x3000 + k * 2) = 0 ∧ rom.bytes (0x3001 + k * 2) = 0
    · rw [if_pos hzero, inArea_store]
      constructor
      · rintro ⟨hrom, -, hlt⟩
        exact ⟨hrom, fun hk => by omega⟩
      · rintro ⟨hrom, hvalid⟩
        have hk : k < 256 := Nat.lt_of_not_le fun hk => (hvalid hk).2 hzero
        exact ⟨hrom, by omega, by omega⟩
    · rw [if_neg hzero]
      exact ⟨fun hrom => ⟨hrom, fun _ => ⟨hbad, hzero⟩⟩, And.left⟩

/-- The loop repairs the slots of the songs. -/
theorem slot_checkLengths (musFile : Bool) (n j : Nat) (rom : Ram) :
    slot (checkLengths musFile n rom) j =
      if j < n then repaired musFile (slot rom j) else slot rom j := by
  induction n with
  | zero => rw [checkLengths, if_neg (Nat.not_lt_zero j)]
  | succ n ih =>
      have hround := slot_lengthRound musFile n j (checkLengths musFile n rom)
      rw [lengthRound] at hround
      rw [checkLengths, hround]
      by_cases hj : j = n
      · subst hj
        rw [if_pos rfl, if_pos (Nat.lt_succ_self j), ih, if_neg (Nat.lt_irrefl j)]
      · rw [if_neg hj, ih]
        exact if_congr ⟨fun h => by omega, fun h => by omega⟩ rfl rfl

/-- The loop keeps to the area when the slots it comes to behind it are valid. -/
theorem inArea_checkLengths (musFile : Bool) (n : Nat) (rom : Ram) :
    InArea (checkLengths musFile n rom) ↔
      InArea rom ∧ ∀ k < n, 256 ≤ k → Valid (slot rom k) := by
  induction n with
  | zero =>
      rw [checkLengths]
      exact ⟨fun h => ⟨h, fun k hk => absurd hk (Nat.not_lt_zero k)⟩, And.left⟩
  | succ n ih =>
      have hround := inArea_lengthRound musFile n (checkLengths musFile n rom)
      rw [lengthRound, slot_checkLengths, if_neg (Nat.lt_irrefl n), ih] at hround
      rw [checkLengths, hround]
      constructor
      · rintro ⟨⟨hrom, hbelow⟩, hlast⟩
        refine ⟨hrom, fun k hk => ?_⟩
        by_cases hkn : k = n
        · exact hkn ▸ hlast
        · exact hbelow k (by omega)
      · rintro ⟨hrom, hall⟩
        exact ⟨⟨hrom, fun k hk => hall k (by omega)⟩, hall n (by omega)⟩

/-! ## In front of the loop -/

/-- The length in the header is used. -/
def UsesHeader (s : FileTypeSid) (ssl : Option (List UInt8)) : Prop :=
  ssl = none ∧ s.sidHeader 4 = 2 ∧ lengthInHeader s.sidHeader

/-- The cleared area. -/
theorem inArea_cleared (bytes : Nat → UInt8) : InArea (Ram.fill 0x3000 512 0 ⟨bytes, []⟩) :=
  inArea_fill.2 ⟨(fun _ h => nomatch h), by omega, by omega⟩

/-- What is stored in front of the loop is in the area, except for a length in the header that is
    for a song without a slot. -/
theorem inArea_loadLengths {s : FileTypeSid} (hdefault : s.defaultSong ≠ 0)
    (ssl : Option (List UInt8)) {rom : Ram} (hrom : InArea rom) :
    InArea (loadLengths s ssl rom) ↔ (UsesHeader s ssl → s.defaultSong.toNat ≤ 256) := by
  have hpos : 0 < s.defaultSong.toNat :=
    Nat.pos_of_ne_zero fun h => hdefault (UInt16.toNat_inj.1 h)
  cases ssl with
  | some content =>
      have hlen : (content.take 512).length ≤ 512 := List.length_take_le _ _
      constructor
      · exact fun _ h => nomatch h.1
      · exact fun _ => inArea_put.2 ⟨hrom, Nat.le_refl _, by omega⟩
  | none =>
      rw [loadLengths]
      by_cases huse : s.sidHeader 4 = 2 ∧ lengthInHeader s.sidHeader
      · rw [if_pos huse, inArea_store, inArea_store]
        constructor
        · rintro ⟨-, -, hlt⟩ -
          omega
        · intro hle
          have hd := hle ⟨rfl, huse⟩
          exact ⟨⟨hrom, by omega, by omega⟩, by omega, by omega⟩
      · rw [if_neg huse]
        exact ⟨fun _ h => absurd h.2 huse, fun _ => hrom⟩

/-- Behind the area it is as before. -/
theorem slot_loadLengths {s : FileTypeSid} {ssl : Option (List UInt8)}
    (hheader : UsesHeader s ssl → s.defaultSong.toNat ≤ 256) (bytes : Nat → UInt8) {k : Nat}
    (hk : 256 ≤ k) :
    slot (loadLengths s ssl (Ram.fill 0x3000 512 0 ⟨bytes, []⟩)) k =
      (bytes (0x3000 + k * 2), bytes (0x3001 + k * 2)) := by
  have hfill : slot (Ram.fill 0x3000 512 0 ⟨bytes, []⟩) k =
      (bytes (0x3000 + k * 2), bytes (0x3001 + k * 2)) := by
    simp only [slot, Ram.fill]
    rw [if_neg (by omega), if_neg (by omega)]
  rw [← hfill]
  cases ssl with
  | some content =>
      have hlen : (content.take 512).length ≤ 512 := List.length_take_le _ _
      simp only [loadLengths, slot, Ram.put]
      rw [if_neg (by omega), if_neg (by omega)]
  | none =>
      rw [loadLengths]
      by_cases huse : s.sidHeader 4 = 2 ∧ lengthInHeader s.sidHeader
      · have hd := hheader ⟨rfl, huse⟩
        rw [if_pos huse]
        simp only [slot, store_bytes]
        rw [if_neg (by omega), if_neg (by omega), if_neg (by omega), if_neg (by omega)]
      · rw [if_neg huse]

/-! ## The whole of it -/

/-- Nothing is stored outside the area, and the songs that have a slot there have a length. -/
def LengthsRight (n : Nat) (rom : Ram) : Prop :=
  InArea rom ∧ ∀ k < n, k < 256 → Valid (slot rom k)

theorem defaultSongOf_ne_zero (h : Header) : defaultSongOf h ≠ 0 := by
  rw [defaultSongOf]
  by_cases hz : word h 0x10 = 0
  · rw [if_pos hz]
    decide
  · rw [if_neg hz]
    exact hz

/-- `prepare` has a default song. -/
theorem chooseSong_default {useDefault : Bool} {s s' : FileTypeSid}
    (h : chooseSong useDefault s = .ok s') : s'.defaultSong ≠ 0 := by
  rw [chooseSong] at h
  dsimp only at h
  by_cases hsong : (songOf useDefault s).toNat > s.numberOfSongs
  · rw [if_pos hsong] at h
    exact nomatch h
  · rw [if_neg hsong] at h
    injection h with h
    rw [← h]
    exact defaultSongOf_ne_zero s.sidHeader

/-- **What `readSongLengths` does.**  Its stores are in the area, and each song with a slot there
    has a length, if and only if the header's own length is for a song with a slot, and behind the
    area, for each song that has no slot, there is what looks like a length. -/
theorem readSongLengths_right_iff {useDefault : Bool} {s s' : FileTypeSid}
    (h : chooseSong useDefault s = .ok s') (ssl : Option (List UInt8)) (bytes : Nat → UInt8) :
    LengthsRight s'.numberOfSongs (readSongLengths s' ssl ⟨bytes, []⟩).2 ↔
      (UsesHeader s' ssl → s'.defaultSong.toNat ≤ 256) ∧
      ∀ k < s'.numberOfSongs, 256 ≤ k →
        Valid (bytes (0x3000 + k * 2), bytes (0x3001 + k * 2)) := by
  have hload := inArea_loadLengths (chooseSong_default h) ssl (inArea_cleared bytes)
  have hloop := inArea_checkLengths s'.musFile s'.numberOfSongs
    (loadLengths s' ssl (Ram.fill 0x3000 512 0 ⟨bytes, []⟩))
  constructor
  · rintro ⟨harea, -⟩
    obtain ⟨hin, hslots⟩ := hloop.1 harea
    have hheader := hload.1 hin
    refine ⟨hheader, fun k hk hbehind => ?_⟩
    rw [← slot_loadLengths hheader bytes hbehind]
    exact hslots k hk hbehind
  · rintro ⟨hheader, hbehind⟩
    refine ⟨hloop.2 ⟨hload.2 hheader, fun k hk hge => ?_⟩, fun k hk _ => ?_⟩
    · rw [slot_loadLengths hheader bytes hge]
      exact hbehind k hk hge
    · rw [readSongLengths, slot_checkLengths, if_pos hk]
      exact valid_repaired _ _

/-- A file whose header names `songs` songs. -/
def sidOf (songs : UInt16) : FileTypeSid where
  sidHeader := fun _ => 0
  headerVersion := 2
  song := 1
  defaultSong := 1
  start := 0x1000
  «end» := 0x2000
  headerLocation := 0x0340
  dataOffset := 0x7C
  flags := 0
  numberOfSongs := songs.toNat
  musFile := false

/-- One song. -/
theorem readSongLengths_right_one :
    ∃ s', chooseSong true (sidOf 1) = .ok s' ∧
      LengthsRight s'.numberOfSongs (readSongLengths s' none ⟨fun _ => 0, []⟩).2 :=
  ⟨_, rfl, (@readSongLengths_right_iff true (sidOf 1) _ rfl none _).2
    ⟨fun _ => by decide, fun k hk hge => absurd hge (Nat.not_le_of_lt
      (Nat.lt_of_lt_of_le hk (show (sidOf 1).numberOfSongs ≤ 256 by decide)))⟩⟩

/-- With 257 songs, and zeros behind the area, a default is stored behind it. -/
theorem readSongLengths_not_right :
    ¬ ∀ (useDefault : Bool) (s s' : FileTypeSid), chooseSong useDefault s = .ok s' →
      ∀ (ssl : Option (List UInt8)) (bytes : Nat → UInt8),
        LengthsRight s'.numberOfSongs (readSongLengths s' ssl ⟨bytes, []⟩).2 := by
  intro hall
  obtain ⟨s', hs', hsongs, hdefault⟩ : ∃ s', chooseSong true (sidOf 257) = .ok s' ∧
      s'.numberOfSongs = 257 ∧ s'.defaultSong = 1 := ⟨_, rfl, rfl, rfl⟩
  have hlengths := hall true (sidOf 257) s' hs' none (fun _ => 0)
  have hvalid := ((inArea_checkLengths _ _ _).1 hlengths.1).2 256 (by omega) (Nat.le_refl 256)
  have hheader : UsesHeader s' none → s'.defaultSong.toNat ≤ 256 := by
    intro _
    rw [hdefault]
    decide
  rw [slot_loadLengths hheader (fun _ => 0) (Nat.le_refl 256)] at hvalid
  exact hvalid.2 ⟨rfl, rfl⟩

end SidFile
