import Ultimate1541.SidFileProofs

/-! # Loading the tune of a SID file

    `load` waits for the player cartridge, clears the memory, reads the file in blocks up to the
    end, and stores the copy of the header and the pointers of BASIC over what is there.  The end
    that these get has been computed in `prepare`, from the size of the file and the two bytes of
    a load address in front of the tune.  They are taken off also when the address is in the
    header: then the end is two bytes short. -/

namespace SidFile

/-! ## The source -/

/-- The file at its position, and the most that each read gives. -/
structure File where
  rest : List UInt8
  most : Nat → Nat

/-- A block goes into the memory, around its end. -/
def storeBlock (offset : Nat) (bytes : List UInt8) (memory : Ram) : Ram :=
  if bytes.length + offset > 65535 then
    (memory.put offset (bytes.take (65536 - offset))).put 0 (bytes.drop (65536 - offset))
  else memory.put offset bytes

/-- The loop of `loadFile`, in at most `fuel` rounds, of which `k` have been. -/
def loadBlocks : (fuel k maxLength block offset : Nat) → File → Ram → Ram
  | 0, _, _, _, _, _, memory => memory
  | fuel + 1, k, maxLength, block, offset, file, memory =>
      if maxLength = 0 then memory
      else
        let bytes := file.rest.take (min block (file.most k))
        let memory := storeBlock offset bytes memory
        if bytes.length < block then memory
        else
          loadBlocks fuel (k + 1) (maxLength - bytes.length) 512 ((offset + bytes.length) % 65536)
            { file with rest := file.rest.drop bytes.length } memory

/-- The first block. -/
def firstBlock (offset : Nat) : Nat := (8192 + 65536 - offset) % 512

/-- `loadFile`; there is one block more than the memory has. -/
def loadFile (file : File) (offset : UInt16) (memory : Ram) : Ram :=
  loadBlocks 130 0 65536 (firstBlock offset.toNat) offset.toNat file memory

/-- The cartridge answers, in one of the next `left` rounds. -/
def handshake (peek : Nat → UInt8) : (left timeout : Nat) → Bool
  | 0, _ => false
  | left + 1, timeout => if peek timeout = 1 then true else handshake peek left (timeout + 1)

/-- `C64_POKE`. -/
def poke (memory : Ram) (p : Nat × UInt8) : Ram := memory.put p.1 [p.2]

/-- What is poked when the tune is there. -/
def pokes (s : FileTypeSid) : List (Nat × UInt8) :=
  [(0x0164, lowByte s.headerLocation), (0x0165, highByte s.headerLocation),
    (0x002D, lowByte s.end), (0x002E, highByte s.end), (0x002F, lowByte s.end), (0x0030, highByte s.end),
    (0x0031, lowByte s.end), (0x0032, highByte s.end), (0x00AE, lowByte s.end), (0x00AF, highByte s.end),
    (0x0162, 0xAA), (0x00BA, 8), (0x0090, 0x40), (0x0035, 0), (0x0036, 0xA0)]

/-- The header with the end of the tune. -/
def withEnd (s : FileTypeSid) : Header :=
  setByte (setByte s.sidHeader 0x7E (lowByte s.end)) 0x7F (highByte s.end)

/-- `load`, of a file that has no MUS data: the memory, unless the cartridge does not answer. -/
def load (s : FileTypeSid) (file : File) (peek : Nat → UInt8) (memory : Ram) : Option Ram :=
  if handshake peek 30 0 = true then
    let memory := memory.fill 0x0340 0xFCC0 0
    let memory := loadFile file s.start memory
    let memory := memory.put s.headerLocation.toNat ((List.range 0x80).map (withEnd s))
    some ((pokes s).foldl poke memory)
  else none

/-! ## What is asked -/

/-- The tune is in the memory from its load address on, the end that the header and BASIC have is
    that of the tune, and the copy of the header is beside it. -/
structure TuneLoaded (start headerLocation : UInt16) (tune : List UInt8) (memory : Ram) : Prop where
  data : ∀ i < tune.length, memory.bytes ((start.toNat + i) % 65536) = tune.getD i 0
  header : memory.bytes (headerLocation.toNat + 0x7E) = lowByte (start + UInt16.ofNat tune.length) ∧
    memory.bytes (headerLocation.toNat + 0x7F) = highByte (start + UInt16.ofNat tune.length)
  basic : ∀ p ∈ [0x2D, 0x2F, 0x31, 0xAE],
    memory.bytes p = lowByte (start + UInt16.ofNat tune.length) ∧
      memory.bytes (p + 1) = highByte (start + UInt16.ofNat tune.length)
  apart : ∀ i < tune.length, ¬ (headerLocation.toNat ≤ (start.toNat + i) % 65536 ∧
    (start.toNat + i) % 65536 < headerLocation.toNat + 0x80)

/-- The header as `prepare` sees it. -/
def headerOf (s : FileTypeSid) (content : List UInt8) : FileTypeSid :=
  processHeader { s with sidHeader := readHeader s.sidHeader content }

/-- Byte `j` of what is left comes in time when the blocks have 512 bytes and `k` reads have been:
    the reads of the blocks in front of it are full, and its own comes as far as it. -/
def ArrivesFrom (most : Nat → Nat) (k j : Nat) : Prop :=
  (∀ q < j / 512, 512 ≤ most (k + q)) ∧ j % 512 < most (k + j / 512)

/-- The same for a whole tune, whose first block is shorter. -/
def Arrives (most : Nat → Nat) (start j : Nat) : Prop :=
  if j < firstBlock start then j < most 0
  else firstBlock start ≤ most 0 ∧ ArrivesFrom most 1 (j - firstBlock start)

/-- The places below the screen that the player and BASIC have for themselves, with a tune that
    ends at `e` and a copy of the header at `$FF70`. -/
def ownBytes (e : UInt16) : List (Nat × UInt8) :=
  [(0x0164, 0x70), (0x0165, 0xFF),
    (0x002D, lowByte e), (0x002E, highByte e), (0x002F, lowByte e), (0x0030, highByte e),
    (0x0031, lowByte e), (0x0032, highByte e), (0x00AE, lowByte e), (0x00AF, highByte e),
    (0x0162, 0xAA), (0x00BA, 8), (0x0090, 0x40), (0x0035, 0), (0x0036, 0xA0)]

/-- A byte of the tune at `a` is there in the end: it is what goes to that place anyway, or nothing
    else goes there and it arrives, or it is what is there without it. -/
def Stays (most : Nat → Nat) (memory : Ram) (start e : UInt16) (tune : List UInt8) (i : Nat) : Prop :=
  match (ownBytes e).lookup (start.toNat + i) with
  | some b => tune.getD i 0 = b
  | none => Arrives most start.toNat i ∨
      tune.getD i 0 = if start.toNat + i < 0x0340 then memory.bytes (start.toNat + i) else 0

/-! ## The memory -/

theorem put_bytes (memory : Ram) (off : Nat) (data : List UInt8) (a : Nat) :
    (memory.put off data).bytes a =
      if off ≤ a ∧ a < off + data.length then data.getD (a - off) 0 else memory.bytes a := rfl

theorem poke_bytes (memory : Ram) (p : Nat × UInt8) (a : Nat) :
    (poke memory p).bytes a = if a = p.1 then p.2 else memory.bytes a := by
  rw [poke, put_bytes, List.length_singleton]
  by_cases h : a = p.1
  · rw [if_pos (by omega), if_pos h, h, Nat.sub_self]
    rfl
  · rw [if_neg (by omega), if_neg h]

/-- Pokes at different places. -/
theorem foldl_poke_bytes {ps : List (Nat × UInt8)} (hnodup : (ps.map Prod.fst).Nodup)
    (memory : Ram) (a : Nat) :
    (ps.foldl poke memory).bytes a = (ps.lookup a).getD (memory.bytes a) := by
  induction ps generalizing memory with
  | nil => rfl
  | cons p ps ih =>
      rw [List.map_cons, List.nodup_cons] at hnodup
      rw [List.foldl_cons, ih hnodup.2, poke_bytes]
      by_cases h : a = p.1
      · have hnone : ps.lookup a = none := by
          rw [List.lookup_eq_none_iff]
          intro q hq
          rw [bne_iff_ne]
          rintro heq
          exact hnodup.1 (List.mem_map.2 ⟨q, hq, heq.symm.trans h⟩)
        rw [hnone, if_pos h, h]
        simp [List.lookup]
      · have hne : (a == p.1) = false := beq_eq_false_iff_ne.2 h
        rw [if_neg h, List.lookup, hne]

theorem storeBlock_bytes {offset : Nat} {bytes : List UInt8} (h : offset + bytes.length ≤ 65536)
    (memory : Ram) (a : Nat) :
    (storeBlock offset bytes memory).bytes a =
      if offset ≤ a ∧ a < offset + bytes.length then bytes.getD (a - offset) 0
      else memory.bytes a := by
  rw [storeBlock]
  by_cases hend : bytes.length + offset > 65535
  · have htake : bytes.take (65536 - offset) = bytes := List.take_of_length_le (by omega)
    have hdrop : bytes.drop (65536 - offset) = [] := List.drop_of_length_le (by omega)
    rw [if_pos hend, htake, hdrop, put_bytes, if_neg (by rw [List.length_nil]; omega), put_bytes]
  · rw [if_neg hend, put_bytes]

/-! ## The blocks -/

/-- A round of the loop, with what the rounds after it do. -/
theorem loadBlocks_round {fuel k maxLength block offset : Nat} {file : File} {memory : Ram} {a : Nat}
    {P : Nat → Prop} [DecidablePred P] (hblock : block ≤ 512)
    (hfit : offset + file.rest.length ≤ 65536) (hmax : file.rest.length ≤ maxLength)
    (hrounds : ∀ m : Ram, block ≤ file.rest.length →
      (loadBlocks fuel (k + 1) (maxLength - block) 512 ((offset + block) % 65536)
          { file with rest := file.rest.drop block } m).bytes a =
        if offset + block ≤ a ∧ a < offset + file.rest.length ∧ P (a - (offset + block)) then
          file.rest.getD (a - offset) 0
        else m.bytes a) :
    (loadBlocks (fuel + 1) k maxLength block offset file memory).bytes a =
      if offset ≤ a ∧ a < offset + file.rest.length ∧
          (if a - offset < block then a - offset < file.most k
            else block ≤ file.most k ∧ P (a - (offset + block))) then
        file.rest.getD (a - offset) 0
      else memory.bytes a := by
  rw [loadBlocks]
  by_cases hzero : maxLength = 0
  · rw [if_pos hzero, if_neg (by omega)]
  · rw [if_neg hzero]
    dsimp only
    have hlen : (file.rest.take (min block (file.most k))).length =
        min (min block (file.most k)) file.rest.length := List.length_take
    have hget : ∀ j, j < (file.rest.take (min block (file.most k))).length →
        (file.rest.take (min block (file.most k))).getD j 0 = file.rest.getD j 0 := by
      intro j hj
      rw [List.getD_eq_getElem?_getD, List.getElem?_take_of_lt (by omega),
        ← List.getD_eq_getElem?_getD]
    generalize hbytes : file.rest.take (min block (file.most k)) = bytes at hlen hget
    by_cases hshort : bytes.length < block
    · -- The last block: the file ends in it, or the read does.
      rw [if_pos hshort, storeBlock_bytes (by omega)]
      by_cases hin : offset ≤ a ∧ a < offset + bytes.length
      · rw [if_pos hin, hget _ (by omega), if_pos ⟨hin.1, by omega, by
          rw [if_pos (by omega)]
          omega⟩]
      · rw [if_neg hin, if_neg]
        rintro ⟨hge, hlt, harr⟩
        by_cases hj : a - offset < block
        · rw [if_pos hj] at harr
          omega
        · rw [if_neg hj] at harr
          omega
    · have hfull : bytes.length = block := by omega
      rw [if_neg hshort, hfull, hrounds _ (by omega)]
      by_cases hlater : offset + block ≤ a ∧ a < offset + file.rest.length ∧
          P (a - (offset + block))
      · rw [if_pos hlater, if_pos ⟨by omega, hlater.2.1, by
          rw [if_neg (by omega)]
          exact ⟨by omega, hlater.2.2⟩⟩]
      · rw [if_neg hlater, storeBlock_bytes (by omega), hfull]
        by_cases hin : offset ≤ a ∧ a < offset + block
        · rw [if_pos hin, hget _ (by omega), if_pos ⟨hin.1, by omega, by
            rw [if_pos (by omega)]
            omega⟩]
        · rw [if_neg hin, if_neg]
          rintro ⟨hge, hlt, harr⟩
          rw [if_neg (by omega)] at harr
          exact hlater ⟨by omega, hlt, harr.2⟩

instance (most : Nat → Nat) (k : Nat) : DecidablePred (ArrivesFrom most k) :=
  fun _ => inferInstanceAs (Decidable (_ ∧ _))

/-- The next byte of a block of 512. -/
theorem arrivesFrom_iff (most : Nat → Nat) (k j : Nat) :
    ArrivesFrom most k j ↔
      if j < 512 then j < most k else 512 ≤ most k ∧ ArrivesFrom most (k + 1) (j - 512) := by
  by_cases hj : j < 512
  · rw [if_pos hj, ArrivesFrom, Nat.div_eq_of_lt hj, Nat.mod_eq_of_lt hj, Nat.add_zero]
    exact ⟨And.right, fun h => ⟨fun q hq => absurd hq (Nat.not_lt_zero q), h⟩⟩
  · have hdiv : j / 512 = (j - 512) / 512 + 1 := by omega
    have hmod : j % 512 = (j - 512) % 512 := by omega
    rw [if_neg hj, ArrivesFrom, ArrivesFrom, hdiv, hmod]
    have hnext : ∀ q, k + (q + 1) = k + 1 + q := fun q => by omega
    constructor
    · rintro ⟨hbefore, hlast⟩
      refine ⟨hbefore 0 (Nat.succ_pos _), fun q hq => ?_, ?_⟩
      · rw [← hnext]
        exact hbefore (q + 1) (by omega)
      · rw [← hnext]
        exact hlast
    · rintro ⟨hfirst, hbefore, hlast⟩
      refine ⟨fun q hq => ?_, ?_⟩
      · cases q with
        | zero => exact hfirst
        | succ q =>
            rw [hnext]
            exact hbefore q (by omega)
      · rw [hnext]
        exact hlast

/-- What the rounds behind a block store, seen from the block. -/
theorem bytes_behind {block offset a : Nat} {rest : List UInt8} {m r : Ram} {P : Nat → Prop}
    [DecidablePred P] (hfit : offset + rest.length ≤ 65536) (hblock : block ≤ rest.length)
    (h : r.bytes a =
      if (offset + block) % 65536 ≤ a ∧ a < (offset + block) % 65536 + (rest.drop block).length ∧
          P (a - (offset + block) % 65536) then
        (rest.drop block).getD (a - (offset + block) % 65536) 0
      else m.bytes a) :
    r.bytes a =
      if offset + block ≤ a ∧ a < offset + rest.length ∧ P (a - (offset + block)) then
        rest.getD (a - offset) 0
      else m.bytes a := by
  rw [h, List.length_drop]
  by_cases hend : offset + block = 65536
  · rw [if_neg (by omega), if_neg (by omega)]
  · rw [Nat.mod_eq_of_lt (show offset + block < 65536 by omega)]
    by_cases hin : offset + block ≤ a ∧ a < offset + rest.length ∧ P (a - (offset + block))
    · have hindex : block + (a - (offset + block)) = a - offset := by omega
      rw [if_pos ⟨hin.1, by omega, hin.2.2⟩, if_pos hin, List.getD_eq_getElem?_getD,
        List.getElem?_drop, ← List.getD_eq_getElem?_getD, hindex]
    · rw [if_neg (fun h => hin ⟨h.1, by omega, h.2.2⟩), if_neg hin]

/-- The blocks of 512 bytes. -/
theorem loadBlocks_bytes {fuel k maxLength offset : Nat} {file : File} {memory : Ram} {a : Nat}
    (hfuel : file.rest.length < 512 * fuel) (hfit : offset + file.rest.length ≤ 65536)
    (hmax : file.rest.length ≤ maxLength) :
    (loadBlocks fuel k maxLength 512 offset file memory).bytes a =
      if offset ≤ a ∧ a < offset + file.rest.length ∧ ArrivesFrom file.most k (a - offset) then
        file.rest.getD (a - offset) 0
      else memory.bytes a := by
  induction fuel generalizing k maxLength offset file memory with
  | zero => exact absurd hfuel (Nat.not_lt_zero _)
  | succ fuel ih =>
      rw [loadBlocks_round (P := ArrivesFrom file.most (k + 1)) (Nat.le_refl 512) hfit hmax]
      · refine if_congr ?_ rfl rfl
        rw [arrivesFrom_iff file.most k, Nat.sub_sub]
      · intro m hblock
        have hdrop : (file.rest.drop 512).length = file.rest.length - 512 := List.length_drop
        refine bytes_behind hfit hblock (ih ?_ ?_ ?_)
        · rw [hdrop]
          omega
        · rw [hdrop]
          omega
        · rw [hdrop]
          omega

instance (most : Nat → Nat) (start j : Nat) : Decidable (Arrives most start j) :=
  inferInstanceAs (Decidable (if j < firstBlock start then j < most 0
    else firstBlock start ≤ most 0 ∧ ArrivesFrom most 1 (j - firstBlock start)))

theorem firstBlock_lt (offset : Nat) : firstBlock offset < 512 := Nat.mod_lt _ (by omega)

/-- What `loadFile` stores. -/
theorem loadFile_bytes {file : File} {start : UInt16} {memory : Ram} {a : Nat}
    (hfit : start.toNat + file.rest.length ≤ 65536) :
    (loadFile file start memory).bytes a =
      if start.toNat ≤ a ∧ a < start.toNat + file.rest.length ∧
          Arrives file.most start.toNat (a - start.toNat) then
        file.rest.getD (a - start.toNat) 0
      else memory.bytes a := by
  have hfirst := firstBlock_lt start.toNat
  rw [loadFile, loadBlocks_round (P := ArrivesFrom file.most 1) (by omega) hfit (by omega)]
  · refine if_congr ?_ rfl rfl
    rw [Arrives, Nat.sub_sub]
  · intro m hblock
    have hdrop : (file.rest.drop (firstBlock start.toNat)).length =
        file.rest.length - firstBlock start.toNat := List.length_drop
    refine bytes_behind hfit hblock (loadBlocks_bytes ?_ ?_ ?_)
    · rw [hdrop]
      omega
    · rw [hdrop]
      omega
    · rw [hdrop]
      omega

/-! ## What `prepare` has found out -/

/-- The tune has its place: it ends `length` bytes behind the load address, and the copy of the
    header is below it or behind it. -/
structure Placed (s : FileTypeSid) (length : Nat) : Prop where
  fits : s.start.toNat + length ≤ 65536
  «end» : s.end = UInt16.ofNat (s.start.toNat + length)
  location : (0x03C0 ≤ s.start.toNat ∧ s.headerLocation = 0x0340) ∨
    (s.start.toNat < 0x03C0 ∧ s.headerLocation = 0xFF70 ∧ s.start.toNat + length < 0xFF70)

theorem place_placed {s s' : FileTypeSid} {length : Int} (h : place s length = .ok s') :
    s'.start = s.start ∧ ∃ n : Nat, length = n ∧ Placed s' n := by
  rw [place] at h
  dsimp only at h
  by_cases hroll : (s.start.toNat : Int) + length < s.start.toNat ∨
      (s.start.toNat : Int) + length > 0x10000
  · rw [if_pos hroll] at h
    exact nomatch h
  · rw [if_neg hroll] at h
    rw [not_or] at hroll
    obtain ⟨n, rfl⟩ : ∃ n : Nat, length = n := ⟨length.toNat, by omega⟩
    have hword : UInt16.ofNat (((s.start.toNat : Int) + n) % 65536).toNat =
        UInt16.ofNat (s.start.toNat + n) := by
      apply UInt16.toNat_inj.1
      rw [UInt16.toNat_ofNat', UInt16.toNat_ofNat']
      omega
    rw [hword] at h
    by_cases habove : s.start ≥ 0x03C0
    · rw [if_pos habove] at h
      injection h with h
      subst h
      exact ⟨rfl, n, rfl, by dsimp only; omega, rfl,
        Or.inl ⟨UInt16.le_iff_toNat_le.1 habove, rfl⟩⟩
    · rw [if_neg habove] at h
      by_cases hbelow : (s.start.toNat : Int) + n < 0xFF70
      · rw [if_pos hbelow] at h
        injection h with h
        subst h
        rw [ge_iff_le, UInt16.le_iff_toNat_le] at habove
        refine ⟨rfl, n, rfl, by dsimp only; omega, rfl, Or.inr ⟨Nat.lt_of_not_le habove, rfl, ?_⟩⟩
        dsimp only
        omega
      · rw [if_neg hbelow] at h
        exact nomatch h

theorem chooseSong_keeps {useDefault : Bool} {s s' : FileTypeSid}
    (h : chooseSong useDefault s = .ok s') :
    s'.start = s.start ∧ s'.end = s.end ∧ s'.headerLocation = s.headerLocation := by
  rw [chooseSong] at h
  dsimp only at h
  by_cases hsong : (songOf useDefault s).toNat > s.numberOfSongs
  · rw [if_pos hsong] at h
    exact nomatch h
  · rw [if_neg hsong] at h
    injection h with h
    subst h
    exact ⟨rfl, rfl, rfl⟩

/-- The data behind the header. -/
def dataOf (s : FileTypeSid) (content : List UInt8) : List UInt8 :=
  content.drop (headerOf s content).dataOffset.toNat

theorem prepare_ready {useDefault : Bool} {s₀ s : FileTypeSid} {content file : List UInt8}
    {ssl : Option (List UInt8)} {rom rom' : Ram}
    (h : prepare useDefault s₀ content ssl rom = .ready s file rom') :
    s.start = loadAddress (headerOf s₀ content).sidHeader (dataOf s₀ content) ∧
    file = positioned (headerOf s₀ content).sidHeader (dataOf s₀ content) ∧
    ∃ n, (dataOf s₀ content).length = n + 2 ∧ Placed s n := by
  rw [prepare] at h
  dsimp only at h
  by_cases hmagic : ¬ hasMagic (readHeader s₀.sidHeader content)
  · rw [if_pos hmagic] at h
    exact nomatch h
  rw [if_neg hmagic] at h
  by_cases hmus : (headerOf s₀ content).sidHeader 0x77 &&& 1 = 1
  · rw [headerOf] at hmus
    rw [if_pos hmus] at h
    exact nomatch h
  have hmus' := hmus
  rw [headerOf] at hmus'
  rw [if_neg hmus'] at h
  split at h
  · exact nomatch h
  next s₁ hplace =>
    split at h
    · exact nomatch h
    next s₂ hsong =>
      injection h with hs hfile _
      obtain ⟨hstart, n, hlength, hplaced⟩ := place_placed hplace
      obtain ⟨hstart', hend, hloc⟩ := chooseSong_keeps hsong
      have hdata : (dataOf s₀ content).length =
          content.length - (headerOf s₀ content).dataOffset.toNat := List.length_drop
      rw [← hs]
      refine ⟨hstart'.trans hstart, hfile.symm, n, ?_, ?_⟩
      · rw [hdata]
        rw [headerOf]
        omega
      · exact ⟨by rw [readSongLengths, hstart']; exact hplaced.fits,
          by rw [readSongLengths, hstart', hend]; exact hplaced.end,
          by rw [readSongLengths, hstart', hloc]; exact hplaced.location⟩

/-! ## The memory in the end -/

theorem handshake_iff (peek : Nat → UInt8) (left t : Nat) :
    handshake peek left t = true ↔ ∃ i < left, peek (t + i) = 1 := by
  induction left generalizing t with
  | zero => exact ⟨(fun h => nomatch h), fun ⟨i, hi, _⟩ => absurd hi (Nat.not_lt_zero i)⟩
  | succ left ih =>
      rw [handshake]
      by_cases hnow : peek t = 1
      · rw [if_pos hnow]
        exact ⟨fun _ => ⟨0, Nat.succ_pos left, hnow⟩, fun _ => rfl⟩
      · rw [if_neg hnow, ih]
        constructor
        · rintro ⟨i, hi, hpeek⟩
          exact ⟨i + 1, by omega, by rw [← hpeek]; congr 1; omega⟩
        · rintro ⟨i, hi, hpeek⟩
          cases i with
          | zero => exact absurd hpeek hnow
          | succ i => exact ⟨i, by omega, by rw [← hpeek]; congr 1; omega⟩

/-- The memory in front of the pokes. -/
def beforePokes (s : FileTypeSid) (file : File) (memory : Ram) : Ram :=
  (loadFile file s.start (memory.fill 0x0340 0xFCC0 0)).put s.headerLocation.toNat
    ((List.range 0x80).map (withEnd s))

theorem load_eq_some {s : FileTypeSid} {file : File} {peek : Nat → UInt8} {memory m : Ram} :
    load s file peek memory = some m ↔
      (∃ t < 30, peek t = 1) ∧ m = (pokes s).foldl poke (beforePokes s file memory) := by
  have hshake := handshake_iff peek 30 0
  rw [load]
  by_cases hanswer : handshake peek 30 0 = true
  · obtain ⟨t, ht, hpeek⟩ := hshake.1 hanswer
    rw [Nat.zero_add] at hpeek
    rw [if_pos hanswer, Option.some.injEq]
    exact ⟨fun h => ⟨⟨t, ht, hpeek⟩, h.symm⟩, fun h => h.2.symm⟩
  · rw [if_neg hanswer]
    constructor
    · exact fun h => nomatch h
    · rintro ⟨⟨t, ht, hpeek⟩, -⟩
      exact absurd (hshake.2 ⟨t, ht, by rw [Nat.zero_add]; exact hpeek⟩) hanswer

theorem pokes_nodup (s : FileTypeSid) : ((pokes s).map Prod.fst).Nodup := by
  simp [pokes]

theorem final_bytes (s : FileTypeSid) (m : Ram) (a : Nat) :
    ((pokes s).foldl poke m).bytes a = ((pokes s).lookup a).getD (m.bytes a) :=
  foldl_poke_bytes (pokes_nodup s) m a

/-- No poke is above the cassette buffer. -/
theorem lookup_above {ps : List (Nat × UInt8)} (h : ∀ p ∈ ps, p.1 < 0x0340) {a : Nat}
    (ha : 0x0340 ≤ a) : ps.lookup a = none := by
  rw [List.lookup_eq_none_iff]
  intro p hp
  have hlt := h p hp
  rw [bne_iff_ne]
  omega

theorem pokes_low (s : FileTypeSid) : ∀ p ∈ pokes s, p.1 < 0x0340 := by
  simp [pokes]

theorem ownBytes_low (e : UInt16) : ∀ p ∈ ownBytes e, p.1 < 0x0340 := by
  simp [ownBytes]

/-- The end in the copy of the header. -/
theorem header_end {s : FileTypeSid} {n : Nat} (hplaced : Placed s n) (file : File) (memory : Ram) :
    ((pokes s).foldl poke (beforePokes s file memory)).bytes (s.headerLocation.toNat + 0x7E) =
        lowByte s.end ∧
      ((pokes s).foldl poke (beforePokes s file memory)).bytes (s.headerLocation.toNat + 0x7F) =
        highByte s.end := by
  have habove : 0x0340 ≤ s.headerLocation.toNat := by
    rcases hplaced.location with ⟨-, hloc⟩ | ⟨-, hloc, -⟩
    · rw [hloc]
      decide
    · rw [hloc]
      decide
  rw [final_bytes, final_bytes, lookup_above (pokes_low s) (by omega),
    lookup_above (pokes_low s) (by omega), Option.getD_none, Option.getD_none, beforePokes,
    put_bytes, put_bytes, List.length_map, List.length_range, if_pos (by omega), if_pos (by omega),
    Nat.add_sub_cancel_left, Nat.add_sub_cancel_left]
  exact ⟨rfl, rfl⟩

/-- The end that BASIC has. -/
theorem basic_end (s : FileTypeSid) (m : Ram) :
    ∀ p ∈ [0x2D, 0x2F, 0x31, 0xAE], ((pokes s).foldl poke m).bytes p = lowByte s.end ∧
      ((pokes s).foldl poke m).bytes (p + 1) = highByte s.end := by
  intro p hp
  rw [final_bytes, final_bytes]
  simp only [List.mem_cons, List.not_mem_nil, or_false] at hp
  rcases hp with rfl | rfl | rfl | rfl
  · exact ⟨rfl, rfl⟩
  · exact ⟨rfl, rfl⟩
  · exact ⟨rfl, rfl⟩
  · exact ⟨rfl, rfl⟩

/-- A byte of a tune that does not wrap and is not where the copy of the header is. -/
theorem tune_byte {s : FileTypeSid} {file : File} {memory : Ram} {i : Nat}
    (hi : i < file.rest.length) (hfit : s.start.toNat + file.rest.length ≤ 65536)
    (hapart : ¬ (s.headerLocation.toNat ≤ s.start.toNat + i ∧
      s.start.toNat + i < s.headerLocation.toNat + 0x80)) :
    ((pokes s).foldl poke (beforePokes s file memory)).bytes (s.start.toNat + i) =
      ((pokes s).lookup (s.start.toNat + i)).getD
        (if Arrives file.most s.start.toNat i then file.rest.getD i 0
        else if s.start.toNat + i < 0x0340 then memory.bytes (s.start.toNat + i) else 0) := by
  rw [final_bytes, beforePokes, put_bytes, List.length_map, List.length_range, if_neg hapart,
    loadFile_bytes hfit, Nat.add_sub_cancel_left]
  by_cases harr : Arrives file.most s.start.toNat i
  · rw [if_pos harr, if_pos ⟨Nat.le_add_right _ _, by omega, harr⟩]
  · rw [if_neg harr, if_neg (fun h => harr h.2.2), Ram.fill]
    dsimp only
    by_cases hlow : s.start.toNat + i < 0x0340
    · rw [if_pos hlow, if_neg (by omega)]
    · rw [if_neg hlow, if_pos (by omega)]

/-- Where the tune is, the pokes put what they have there anyway. -/
theorem pokes_lookup {s : FileTypeSid} {n : Nat} (hplaced : Placed s n) {a : Nat}
    (ha : s.start.toNat ≤ a) : (pokes s).lookup a = (ownBytes s.end).lookup a := by
  rcases hplaced.location with ⟨habove, -⟩ | ⟨-, hloc, -⟩
  · rw [lookup_above (pokes_low s) (by omega), lookup_above (ownBytes_low s.end) (by omega)]
  · rw [pokes, hloc]
    rfl

theorem stays_iff {most : Nat → Nat} {memory : Ram} {start e : UInt16} {tune : List UInt8} {i : Nat} :
    ((ownBytes e).lookup (start.toNat + i)).getD
        (if Arrives most start.toNat i then tune.getD i 0
        else if start.toNat + i < 0x0340 then memory.bytes (start.toNat + i) else 0) =
      tune.getD i 0 ↔ Stays most memory start e tune i := by
  rw [Stays]
  cases (ownBytes e).lookup (start.toNat + i) with
  | some b => exact ⟨Eq.symm, Eq.symm⟩
  | none =>
      rw [Option.getD_none]
      by_cases harr : Arrives most start.toNat i
      · rw [if_pos harr]
        exact ⟨fun _ => Or.inl harr, fun _ => rfl⟩
      · rw [if_neg harr]
        exact ⟨fun h => Or.inr h.symm, fun h => (h.resolve_left harr).symm⟩

/-! ## The end of the tune -/

theorem word_ext {v w : UInt16} (hlo : lowByte v = lowByte w) (hhi : highByte v = highByte w) : v = w := by
  have h₁ := congrArg UInt8.toNat hlo
  have h₂ := congrArg UInt8.toNat hhi
  rw [lowByte, lowByte, UInt16.toNat_toUInt8, UInt16.toNat_toUInt8] at h₁
  rw [highByte, highByte, UInt16.toNat_toUInt8, UInt16.toNat_toUInt8, UInt16.toNat_shiftRight,
    UInt16.toNat_shiftRight] at h₂
  have hv := v.toNat_lt
  have hw := w.toNat_lt
  apply UInt16.toNat_inj.1
  simp only [show (8 : UInt16).toNat % 16 = 8 from rfl, Nat.shiftRight_eq_div_pow] at h₂
  omega

theorem start_add_length (start : UInt16) (n : Nat) :
    start + UInt16.ofNat n = UInt16.ofNat (start.toNat + n) := by
  rw [UInt16.ofNat_add, UInt16.ofNat_toNat]

/-- An end that is two bytes short is another address. -/
theorem end_short (start : UInt16) (n : Nat) :
    UInt16.ofNat (start.toNat + n) ≠ start + UInt16.ofNat (n + 2) := by
  intro h
  rw [start_add_length] at h
  have hnat := congrArg UInt16.toNat h
  rw [UInt16.toNat_ofNat', UInt16.toNat_ofNat'] at hnat
  omega

/-- What is loaded, with a load address in front of the tune. -/
theorem tuneLoaded_iff {s : FileTypeSid} {file : File} (hplaced : Placed s file.rest.length)
    (memory : Ram) :
    TuneLoaded s.start s.headerLocation file.rest
        ((pokes s).foldl poke (beforePokes s file memory)) ↔
      ∀ i < file.rest.length, Stays file.most memory s.start s.end file.rest i := by
  have hend : s.start + UInt16.ofNat file.rest.length = s.end := by
    rw [start_add_length, hplaced.end]
  have hfits := hplaced.fits
  have hapart : ∀ i < file.rest.length, ¬ (s.headerLocation.toNat ≤ s.start.toNat + i ∧
      s.start.toNat + i < s.headerLocation.toNat + 0x80) := by
    intro i hi
    rcases hplaced.location with ⟨habove, hloc⟩ | ⟨-, hloc, hbelow⟩
    · rw [hloc, show (0x0340 : UInt16).toNat = 0x0340 from rfl]
      omega
    · rw [hloc, show (0xFF70 : UInt16).toNat = 0xFF70 from rfl]
      omega
  have hmod : ∀ i < file.rest.length, (s.start.toNat + i) % 65536 = s.start.toNat + i :=
    fun i hi => Nat.mod_eq_of_lt (by omega)
  have hbyte : ∀ i < file.rest.length,
      (((pokes s).foldl poke (beforePokes s file memory)).bytes ((s.start.toNat + i) % 65536) =
          file.rest.getD i 0 ↔ Stays file.most memory s.start s.end file.rest i) := by
    intro i hi
    rw [hmod i hi, tune_byte hi hfits (hapart i hi), pokes_lookup hplaced (Nat.le_add_right _ _)]
    exact stays_iff
  constructor
  · intro h i hi
    exact (hbyte i hi).1 (h.data i hi)
  · intro h
    refine ⟨fun i hi => (hbyte i hi).2 (h i hi), ?_, ?_, ?_⟩
    · rw [hend]
      exact header_end hplaced file memory
    · rw [hend]
      exact basic_end s _
    · intro i hi
      rw [hmod i hi]
      exact hapart i hi

/-- With a load address in the header the end is wrong. -/
theorem not_tuneLoaded {s : FileTypeSid} {n : Nat} (hplaced : Placed s n) {file : File}
    (hlen : file.rest.length = n + 2) (memory : Ram) :
    ¬ TuneLoaded s.start s.headerLocation file.rest
        ((pokes s).foldl poke (beforePokes s file memory)) := by
  intro h
  obtain ⟨hlo, hhi⟩ := header_end hplaced file memory
  obtain ⟨hlo', hhi'⟩ := h.header
  have heq := word_ext (hlo.symm.trans hlo') (hhi.symm.trans hhi')
  rw [hplaced.end, hlen] at heq
  exact end_short s.start n heq

/-! ## The whole of it -/

/-- When the tune is loaded: its load address is in front of it, the cartridge answers, and every
    byte of it stays. -/
def LoadsRight (s : FileTypeSid) (content : List UInt8) (most : Nat → Nat) (peek : Nat → UInt8)
    (memory : Ram) : Prop :=
  word (headerOf s content).sidHeader 8 = 0 ∧ (∃ t < 30, peek t = 1) ∧
  ∀ i < ((dataOf s content).drop 2).length,
    Stays most memory (firstWord (dataOf s content))
      (firstWord (dataOf s content) + UInt16.ofNat ((dataOf s content).drop 2).length)
      ((dataOf s content).drop 2) i

/-- **What `load` leaves.**  The tune is in the memory from its load address on, the end that the
    header and BASIC have is that of the tune, and the copy of the header is beside it, if and only
    if the load address is in front of the tune, the cartridge answers, and each byte of the tune
    stays. -/
theorem load_tuneLoaded_iff {useDefault : Bool} {s₀ s : FileTypeSid} {content file : List UInt8}
    {ssl : Option (List UInt8)} {rom rom' : Ram}
    (h : prepare useDefault s₀ content ssl rom = .ready s file rom') (most : Nat → Nat)
    (peek : Nat → UInt8) (memory : Ram) :
    (∃ m, load s ⟨file, most⟩ peek memory = some m ∧
        TuneLoaded s.start s.headerLocation file m) ↔
      LoadsRight s₀ content most peek memory := by
  obtain ⟨hstart, hfile, n, hdata, hplaced⟩ := prepare_ready h
  by_cases hin : word (headerOf s₀ content).sidHeader 8 = 0
  · have hdrop : ((dataOf s₀ content).drop 2).length = n := by
      rw [List.length_drop, hdata]
      rfl
    rw [loadAddress, if_pos hin] at hstart
    rw [positioned, if_pos hin] at hfile
    have hn : file.length = n := by
      rw [hfile]
      exact hdrop
    have hplaced' : Placed s (⟨file, most⟩ : File).rest.length := by
      dsimp only
      rw [hn]
      exact hplaced
    have hiff := tuneLoaded_iff hplaced' memory
    have hend : s.end = firstWord (dataOf s₀ content) + UInt16.ofNat file.length := by
      rw [hplaced.end, ← start_add_length, hstart, hn]
    rw [hend, hstart] at hiff
    rw [LoadsRight, ← hfile]
    constructor
    · rintro ⟨m, hload, hloaded⟩
      obtain ⟨hanswer, rfl⟩ := load_eq_some.1 hload
      rw [hstart] at hloaded
      exact ⟨hin, hanswer, hiff.1 hloaded⟩
    · rintro ⟨-, hanswer, hstays⟩
      refine ⟨_, load_eq_some.2 ⟨hanswer, rfl⟩, ?_⟩
      rw [hstart]
      exact hiff.2 hstays
  · rw [positioned, if_neg hin] at hfile
    constructor
    · rintro ⟨m, hload, hloaded⟩
      have hlen : (⟨file, most⟩ : File).rest.length = n + 2 := by
        rw [hfile]
        exact hdata
      obtain ⟨-, rfl⟩ := load_eq_some.1 hload
      exact absurd hloaded (not_tuneLoaded hplaced hlen memory)
    · exact fun h => absurd h.1 hin

/-- A file with one song: the load address in the header, and what is behind the header. -/
def oneSong (address data : List UInt8) : List UInt8 :=
  [0x50, 0x53, 0x49, 0x44, 0x00, 0x02, 0x00, 0x7C] ++ address ++
    [0x10, 0x00, 0x10, 0x03, 0x00, 0x01, 0x00, 0x01] ++ List.replicate 0x6A 0 ++ data

/-- An object that has no file yet. -/
def newSid : FileTypeSid :=
  ⟨fun _ => 0, 0, 0, 0, 0, 0, 0, 0, 0, 0, false⟩

/-- The file is accepted. -/
def Prepared.isReady : Prepared → Bool
  | .ready _ _ _ => true
  | _ => false

theorem Prepared.exists_ready {p : Prepared} (h : p.isReady = true) :
    ∃ s file rom, p = .ready s file rom := by
  cases p with
  | failed error => exact nomatch h
  | mus => exact nomatch h
  | ready s file rom => exact ⟨s, file, rom, rfl⟩

/-- A tune of one byte, for `$1000`. -/
theorem load_tuneLoaded_one :
    ∃ s file rom,
      prepare true newSid (oneSong [0, 0] [0x00, 0x10, 0x60]) none ⟨fun _ => 0, []⟩ =
        .ready s file rom ∧
      ∃ m, load s ⟨file, fun _ => 512⟩ (fun _ => 1) ⟨fun _ => 0, []⟩ = some m ∧
        TuneLoaded s.start s.headerLocation file m := by
  obtain ⟨s, file, rom, hready⟩ := Prepared.exists_ready (p :=
    prepare true newSid (oneSong [0, 0] [0x00, 0x10, 0x60]) none ⟨fun _ => 0, []⟩) (by decide +kernel)
  have hin : word (headerOf newSid (oneSong [0, 0] [0x00, 0x10, 0x60])).sidHeader 8 = 0 := by
    decide +kernel
  have hone : ((dataOf newSid (oneSong [0, 0] [0x00, 0x10, 0x60])).drop 2).length = 1 := by
    decide +kernel
  have hstart : firstWord (dataOf newSid (oneSong [0, 0] [0x00, 0x10, 0x60])) = 0x1000 := by
    decide +kernel
  refine ⟨s, file, rom, hready,
    (load_tuneLoaded_iff hready _ _ _).2 ⟨hin, ⟨0, by decide, rfl⟩, ?_⟩⟩
  intro i hi
  obtain rfl : i = 0 := by omega
  rw [Stays, hstart, lookup_above (ownBytes_low _) (by decide)]
  exact Or.inl (by decide)

/-- A tune whose load address is in the header. -/
theorem load_not_tuneLoaded :
    ¬ ∀ (useDefault : Bool) (s₀ s : FileTypeSid) (content file : List UInt8)
      (ssl : Option (List UInt8)) (rom rom' : Ram),
      prepare useDefault s₀ content ssl rom = .ready s file rom' →
      ∀ (most : Nat → Nat) (peek : Nat → UInt8) (memory : Ram), (∃ t < 30, peek t = 1) →
        ∃ m, load s ⟨file, most⟩ peek memory = some m ∧
          TuneLoaded s.start s.headerLocation file m := by
  intro hall
  obtain ⟨s, file, rom, hready⟩ : ∃ s file rom,
      prepare true newSid (oneSong [0x10, 0x00] [0xA9, 0x00, 0x60]) none ⟨fun _ => 0, []⟩ =
        .ready s file rom := Prepared.exists_ready (by decide +kernel)
  obtain ⟨m, hload, hloaded⟩ := hall _ _ _ _ _ _ _ _ hready (fun _ => 512) (fun _ => 1)
    ⟨fun _ => 0, []⟩ ⟨0, by decide, rfl⟩
  obtain ⟨-, hfile, n, hdata, hplaced⟩ := prepare_ready hready
  have hin : ¬ word (headerOf newSid (oneSong [0x10, 0x00] [0xA9, 0x00, 0x60])).sidHeader 8 = 0 := by
    decide +kernel
  rw [positioned, if_neg hin] at hfile
  have hlen : (⟨file, fun _ => 512⟩ : File).rest.length = n + 2 :=
    (congrArg List.length hfile).trans hdata
  obtain ⟨-, rfl⟩ := load_eq_some.1 hload
  exact not_tuneLoaded hplaced hlen _ hloaded

end SidFile
