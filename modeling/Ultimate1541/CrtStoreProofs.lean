import Ultimate1541.CrtPacketProofs

/-! # Where the loader of cartridge images stores

    A chip is refused when it starts behind the cartridge memory, but not when it ends there,
    and the banks are doubled until they reach the end of the memory, whether they meet it or
    not.  The main result says for which files every store is in the memory. -/

namespace Crt

/-- The chips of a list of packets with their offsets, whether the banks have 32K in the end, and
    whether no packet has been refused. -/
structure Layout where
  chips : List (Nat × Packet)
  banks32K : Bool
  complete : Bool

/-- The layout of packets in a memory of `size` bytes, for the multiplier of the banks so far and
    whether there has been an EEPROM. -/
def layout (size : Nat) : Nat → Bool → List Packet → Layout
  | mult, _, [] => ⟨[], mult = 32 * 1024, true⟩
  | mult, eeprom, p :: rest =>
      let mult := if p.isC128 then 32 * 1024 else mult
      if p.isEeprom then
        if p.size > 0x800 ∨ eeprom = true then ⟨[], false, false⟩
        else layout size mult true rest
      else if p.offset mult ≥ size then ⟨[], false, false⟩
      else if p.isRom then
        if p.data.length ≠ p.size then ⟨[(p.offset mult, p)], false, false⟩
        else
          let l := layout size mult eeprom rest
          { l with chips := (p.offset mult, p) :: l.chips }
      else layout size mult eeprom rest

/-- How many bytes a chip takes: as many as there are, doubled up to 8K when none are missing. -/
def Packet.extent (p : Packet) : Nat :=
  if p.data.length ≠ p.size then p.data.length else Ram.doubled 8192 14 p.size

/-- The banks of 16K, doubled, end with the memory: there are a power of two of them, or the chips
    take the upper half of the next larger power of two. -/
def FillsUp (size : Nat) (chips : List (Nat × Packet)) : Prop :=
  size / 0x4000 = 2 ^ (size / 0x4000).log2 ∨
    size / 0x4000 < 256 ∧ ∃ c ∈ chips, 2 ^ (size / 0x4000).log2 ≤ c.2.bank

/-- The packets of a file behind its header. -/
def packetsOf (file : Bytes) : List Packet :=
  packets (file.length + 1) (file.drop (max (getDword (file.take 0x40) 0x10) 0x40))

/-- The layout of a file. -/
def layoutOf (env : Machine) (file : Bytes) : Layout :=
  layout env.maxCart.toNat (16 * 1024) false (packetsOf file)

/-- The first thing behind the header is a packet, or the end of the file. -/
def startsWell (file : Bytes) : Bool :=
  packetsOf file ≠ [] || (file.drop (max (getDword (file.take 0x40) 0x10) 0x40)).length < 0x10

/-- A file whose stores are in the memory, when its header is accepted: every chip that is loaded
    ends there, and if no packet is refused, so do the banks. -/
def Fits (env : Machine) (file : Bytes) : Prop :=
  (∃ m, checkHeader env (file.take 0x40) = .ok m) →
    (∀ c ∈ (layoutOf env file).chips, c.1 + c.2.extent ≤ env.maxCart.toNat) ∧
    ((layoutOf env file).complete = true → startsWell file = true →
      (layoutOf env file).banks32K = true ∨ FillsUp env.maxCart.toNat (layoutOf env file).chips)

/-- Every store is in the cartridge memory, or in the buffer that has been made for the EEPROM. -/
def C64Crt.StoresWithin (env : Machine) (s : C64Crt) : Prop :=
  s.ram.Within env.maxCart.toNat ∧ ∀ st ∈ s.eepromStores, st.2 ≤ st.1

/-! ## Chips -/

theorem chipRam_within {size offset : Nat} {data : Bytes} {r : Ram} (h : data ≠ []) :
    (chipRam offset data r).Within size ↔
      r.Within size ∧ offset + Ram.doubled 8192 14 data.length ≤ size := by
  rw [Ram.mirror_within (chipRam_eq offset r h), Ram.within_put, Nat.mul_one, and_assoc]
  refine and_congr_right fun _ => ?_
  by_cases hsmall : data.length < 8192
  · have hle := Ram.le_doubled 8192 14 data.length
    simp only [hsmall, true_implies]
    exact ⟨fun hall => hall.2, fun hall => ⟨by omega, hall⟩⟩
  · rw [Ram.doubled_of_le 14 (Nat.not_lt.mp hsmall)]
    simp only [hsmall, false_implies, and_true]

/-- `highest_bank` after some chips. -/
def highest : Nat → List (Nat × Packet) → Nat
  | highestBank, [] => highestBank
  | highestBank, c :: rest =>
      highest (if c.2.bank > highestBank then c.2.bank % 256 else highestBank) rest

theorem highest_lt {highestBank : Nat} {chips : List (Nat × Packet)} (h : highestBank < 256) :
    highest highestBank chips < 256 := by
  induction chips generalizing highestBank with
  | nil => exact h
  | cons c rest ih =>
      refine ih ?_
      split
      · exact Nat.mod_lt _ (by decide)
      · exact h

/-- With banks of 8 bits, it is the largest. -/
theorem le_highest {t highestBank : Nat} {chips : List (Nat × Packet)} (h : ∀ c ∈ chips, c.2.bank < 256) :
    t ≤ highest highestBank chips ↔ t ≤ highestBank ∨ ∃ c ∈ chips, t ≤ c.2.bank := by
  induction chips generalizing highestBank with
  | nil => simp [highest]
  | cons c rest ih =>
      have hc : c.2.bank % 256 = c.2.bank := Nat.mod_eq_of_lt (h c (List.mem_cons_self ..))
      rw [highest, ih (fun c' h' => h c' (List.mem_cons_of_mem _ h')), List.exists_mem_cons_iff, hc]
      split
      · constructor
        · exact fun h => h.elim (fun h => .inr (.inl h)) (fun h => .inr (.inr h))
        · exact fun h => h.elim (fun h => .inl (by omega)) id
      · constructor
        · exact fun h => h.imp_right .inr
        · exact fun h => h.elim .inl (fun h => h.elim (fun h => .inl (by omega)) .inr)

/-- What is known of the variables after some packets. -/
structure Loaded (env : Machine) (s : C64Crt) (l : Layout) (r : Result × C64Crt) : Prop where
  within : r.2.ram.Within env.maxCart.toNat ↔
    s.ram.Within env.maxCart.toNat ∧ ∀ c ∈ l.chips, c.1 + c.2.extent ≤ env.maxCart.toNat
  eeprom : (∀ st ∈ s.eepromStores, st.2 ≤ st.1) → ∀ st ∈ r.2.eepromStores, st.2 ≤ st.1
  complete : r.1 = .ok ↔ l.complete = true
  type : r.2.localType = s.localType
  mult : l.complete = true → (r.2.bankMultiplier = 32 * 1024 ↔ l.banks32K = true)
  banks16K : l.complete = true → l.banks32K = false → r.2.bankMultiplier = s.bankMultiplier ∧
    ∀ c ∈ l.chips, c.1 = c.2.offset s.bankMultiplier
  before : ∀ c ∈ l.chips, c.1 < env.maxCart.toNat
  highest : l.complete = true → r.2.highestBank = highest s.highestBank l.chips

/-- A packet that is refused, and stores nothing. -/
theorem Loaded.refused {env : Machine} {s s' : C64Crt} {result : Result} (hok : result ≠ .ok)
    (hram : s'.ram = s.ram) (heeprom : s'.eepromStores = s.eepromStores) (htype : s'.localType = s.localType) :
    Loaded env s ⟨[], false, false⟩ (result, s') where
  within := by simp [hram]
  eeprom := by
    rw [heeprom]
    exact id
  complete := ⟨fun h => absurd h hok, nofun⟩
  type := htype
  mult := nofun
  banks16K := nofun
  before := nofun
  highest := nofun

/-- A packet that changes nothing but what is not looked at here. -/
theorem Loaded.of_same {env : Machine} {s s' : C64Crt} {l : Layout} {r : Result × C64Crt}
    (h : Loaded env s' l r) (hram : s'.ram = s.ram)
    (heeprom : (∀ st ∈ s.eepromStores, st.2 ≤ st.1) → ∀ st ∈ s'.eepromStores, st.2 ≤ st.1)
    (htype : s'.localType = s.localType) (hhighest : s'.highestBank = s.highestBank)
    (hmult : s'.bankMultiplier = s.bankMultiplier ∨ (s'.bankMultiplier = 32 * 1024 ∧ (l.complete = true → l.banks32K = true))) :
    Loaded env s l r where
  within := by rw [h.within, hram]
  eeprom := fun hs => h.eeprom (heeprom hs)
  complete := h.complete
  type := h.type.trans htype
  mult := h.mult
  banks16K := by
    intro hc h16
    rcases hmult with heq | ⟨_, h32⟩
    · rw [← heq]
      exact h.banks16K hc h16
    · exact absurd (h32 hc) (by rw [h16]; decide)
  before := h.before
  highest := by
    rw [← hhighest]
    exact h.highest

/-- Banks of 32K stay. -/
theorem layout_banks32K (size : Nat) (eeprom : Bool) (ps : List Packet) :
    (layout size (32 * 1024) eeprom ps).complete = true →
      (layout size (32 * 1024) eeprom ps).banks32K = true := by
  induction ps generalizing eeprom with
  | nil => exact fun _ => rfl
  | cons p rest ih =>
      have hmult : (if p.isC128 then 32 * 1024 else 32 * 1024) = 32 * 1024 := ite_self _
      simp only [layout, hmult]
      split
      · split
        · exact nofun
        · exact ih true
      · split
        · exact nofun
        · split
          · split
            · exact nofun
            · exact ih eeprom
          · exact ih eeprom

theorem Loaded.of_seen {env : Machine} {s : C64Crt} {p : Packet} {l : Layout} {r : Result × C64Crt}
    (h : Loaded env (s.seen p) l r) (h32 : p.isC128 = true → l.complete = true → l.banks32K = true) :
    Loaded env s l r := by
  refine h.of_same rfl id rfl rfl ?_
  by_cases hc : p.isC128 = true
  · exact .inr ⟨if_pos hc, h32 hc⟩
  · exact .inl (if_neg hc)

/-- A chip in front of others. -/
theorem Loaded.chip {env : Machine} {s : C64Crt} {p : Packet} {l : Layout} {r : Result × C64Crt}
    {location : Location} (h : Loaded env ((s.withChip p).withChunk p location) l r)
    (hdata : p.data ≠ []) (hlen : p.data.length = p.size)
    (hbefore : p.offset s.bankMultiplier < env.maxCart.toNat) :
    Loaded env s { l with chips := (p.offset s.bankMultiplier, p) :: l.chips } r where
  within := by
    have hextent : p.extent = Ram.doubled 8192 14 p.data.length := by
      rw [Packet.extent, if_neg (not_not_intro hlen), hlen]
    rw [h.within, List.forall_mem_cons, hextent]
    exact (and_congr_left fun _ => chipRam_within hdata).trans and_assoc
  eeprom := h.eeprom
  complete := h.complete
  type := h.type
  mult := h.mult
  banks16K := by
    intro hc h16
    obtain ⟨hm, hall⟩ := h.banks16K hc h16
    exact ⟨hm, List.forall_mem_cons.mpr ⟨rfl, hall⟩⟩
  before := List.forall_mem_cons.mpr ⟨hbefore, h.before⟩
  highest := h.highest

/-- What the loop over the packets does, by their layout. -/
theorem loadPackets_loaded (env : Machine) (ps : List Packet) (s : C64Crt)
    (hdata : ∀ p ∈ ps, p.data.length ≤ p.size) :
    Loaded env s (layout env.maxCart.toNat s.bankMultiplier s.eepromBuffer.isSome ps)
      (loadPackets env ps s) := by
  induction ps generalizing s with
  | nil =>
      exact ⟨by simp [loadPackets, layout], id, by simp [loadPackets, layout], rfl,
        fun _ => by simp [loadPackets, layout], fun _ _ => ⟨rfl, fun _ h => by cases h⟩,
        (fun _ h => by cases h), fun _ => rfl⟩
  | cons p rest ih =>
      have hrest := fun s => ih s (fun q hq => hdata q (List.mem_cons_of_mem _ hq))
      -- The multiplier does not go back.
      have h32 : ∀ eeprom, p.isC128 = true →
          (layout env.maxCart.toNat (s.seen p).bankMultiplier eeprom rest).complete = true →
          (layout env.maxCart.toNat (s.seen p).bankMultiplier eeprom rest).banks32K = true := by
        intro eeprom hc
        have hm : (s.seen p).bankMultiplier = 32 * 1024 := if_pos hc
        rw [hm]
        exact layout_banks32K _ eeprom rest
      have hmult : (if p.isC128 then 32 * 1024 else s.bankMultiplier) = (s.seen p).bankMultiplier := rfl
      have hsome : s.eepromBuffer = (s.seen p).eepromBuffer := rfl
      simp only [loadPackets, layout, outcome, hmult]
      by_cases heeprom : p.isEeprom = true
      · simp only [if_pos heeprom]
        by_cases hlarge : p.size > 0x800
        · rw [if_pos hlarge, if_pos (.inl hlarge)]
          exact .refused (fun h => by cases h) rfl rfl rfl
        · by_cases hbuffer : (s.seen p).eepromBuffer.isSome = true
          · rw [if_neg hlarge, if_pos hbuffer, if_pos (.inr hbuffer)]
            exact .refused (fun h => by cases h) rfl rfl rfl
          · rw [if_neg hlarge, if_neg hbuffer, if_neg (fun h => h.elim hlarge hbuffer)]
            refine Loaded.of_seen (.of_same (hrest (((s.seen p).withEeprom env p).withChunk p .eeprom)) rfl ?_ rfl rfl
              (.inl rfl)) (h32 true)
            intro hall
            refine List.forall_mem_append.mpr ⟨hall, ?_⟩
            simpa using hdata p (List.mem_cons_self ..)
      · simp only [if_neg heeprom]
        by_cases hlarge : p.offset (s.seen p).bankMultiplier ≥ env.maxCart.toNat
        · rw [if_pos hlarge, if_pos hlarge]
          exact .refused (fun h => by cases h) rfl rfl rfl
        · rw [if_neg hlarge, if_neg hlarge]
          by_cases hrom : p.isRom = true
          · simp only [if_pos hrom]
            by_cases hlen : p.data.length ≠ p.size
            · simp only [if_pos hlen]
              refine ⟨?_, id, ⟨(fun h => by cases h), fun h => by cases h⟩, rfl, (fun h => by cases h),
                (fun h => by cases h), ?_, fun h => by cases h⟩
              · have hextent : p.extent = p.data.length := if_pos hlen
                rw [List.forall_mem_singleton, hextent]
                exact Ram.within_put
              · rw [List.forall_mem_singleton]
                exact Nat.not_le.mp hlarge
            · simp only [if_neg hlen]
              have hfull : p.data.length = p.size := Decidable.not_not.mp hlen
              have hsize : p.size ≠ 0 := (of_decide_eq_true hrom).2.1
              have hne : p.data ≠ [] := fun h => hsize (by rw [← hfull, h]; rfl)
              exact Loaded.of_seen (.chip (hrest _) hne hfull (Nat.not_le.mp hlarge)) (h32 _)
          · simp only [if_neg hrom]
            exact Loaded.of_seen (.of_same (hrest ((s.seen p).withChunk p .null)) rfl id rfl rfl (.inl rfl)) (h32 _)

/-! ## Banks -/

/-- The loop gives the smallest power of two that is larger than the highest bank. -/
theorem roundBanks_spec {highestBank fuel j : Nat} (hfuel : highestBank < 2 ^ (j + fuel))
    (hle : ∀ i, i < j → 2 ^ i ≤ highestBank) :
    ∃ k, roundBanks highestBank (fuel + 1) (2 ^ j) = some (2 ^ k) ∧ ∀ i, i < k ↔ 2 ^ i ≤ highestBank := by
  have hdone : ∀ {j}, highestBank < 2 ^ j → (∀ i, i < j → 2 ^ i ≤ highestBank) →
      ∀ i, i < j ↔ 2 ^ i ≤ highestBank := by
    intro j hlt hle i
    exact ⟨hle i, fun h => (Nat.pow_lt_pow_iff_right (by decide)).mp (Nat.lt_of_le_of_lt h hlt)⟩
  induction fuel generalizing j with
  | zero =>
      rw [Nat.add_zero] at hfuel
      refine ⟨j, ?_, hdone hfuel hle⟩
      rw [roundBanks, if_neg (Nat.not_le.mpr hfuel)]
  | succ fuel ih =>
      rw [roundBanks]
      split
      next hmore =>
        have hnext := @ih (j + 1) (by rwa [Nat.add_right_comm, Nat.add_assoc]) (fun i hi => by
          rcases Nat.lt_succ_iff_lt_or_eq.mp hi with hlt | rfl
          · exact hle i hlt
          · exact hmore)
        rwa [Nat.pow_succ, Nat.mul_comm] at hnext
      next hdone' => exact ⟨j, rfl, hdone (Nat.not_le.mp hdone') hle⟩

/-- The doubling of the banks stays in the memory if and only if it meets its end. -/
theorem mirror_fits_iff {size k : Nat} {chips : List (Nat × Packet)} (hsize : size < 2 ^ 32)
    (hmin : 0x10000 ≤ size) (hk : ∀ i, i < k ↔ 2 ^ i ≤ highest 0 chips)
    (hchips : ∀ c ∈ chips, c.2.bank * 0x4000 < size) :
    (2 ^ k < size / 0x4000 → 0 + Ram.doubled (size / 0x4000) 19 (2 ^ k) * 0x4000 ≤ size) ↔
      FillsUp size chips := by
  rw [FillsUp]
  have hsmall : size / 0x4000 < 2 ^ 18 := by omega
  have hpos : size / 0x4000 ≠ 0 := by omega
  have hrest : size < (size / 0x4000 + 1) * 0x4000 := by omega
  have hwhole : size / 0x4000 * 0x4000 ≤ size := by omega
  have hchips' : ∀ c ∈ chips, c.2.bank ≤ size / 0x4000 := by
    intro c hc
    have := hchips c hc
    omega
  generalize size / 0x4000 = m at *
  have hlow : 2 ^ m.log2 ≤ m := Nat.log2_self_le hpos
  have hhigh : m < 2 ^ (m.log2 + 1) := Nat.lt_log2_self
  have hfuel : m ≤ 2 ^ k * 2 ^ 19 := by
    have hone : 1 ≤ 2 ^ k := Nat.one_le_two_pow
    omega
  obtain ⟨hreach, hless⟩ := Ram.doubled_reaches hfuel
  obtain ⟨j, hj⟩ := Ram.doubled_pow m 19 (2 ^ k)
  rw [← Nat.pow_add] at hj
  by_cases hpow : m = 2 ^ m.log2
  · -- A power of two is met.
    refine iff_of_true (fun hlt => ?_) (.inl hpow)
    have hge : m.log2 ≤ k + j := by
      refine (Nat.pow_le_pow_iff_right (a := 2) (by decide)).mp ?_
      rw [← hpow, ← hj]
      exact hreach
    have hle : k + j < m.log2 + 1 := by
      refine (Nat.pow_lt_pow_iff_right (a := 2) (by decide)).mp ?_
      rw [← hj, Nat.pow_succ, ← hpow, Nat.mul_comm]
      exact hless hlt
    have heq : k + j = m.log2 := by omega
    rw [hj, heq, ← hpow, Nat.zero_add]
    exact hwhole
  · have hne : Ram.doubled m 19 (2 ^ k) ≠ m := by
      intro heq
      refine hpow ?_
      rw [hj] at heq
      rw [← heq, Nat.log2_two_pow]
    have hover : (2 ^ k < m → 0 + Ram.doubled m 19 (2 ^ k) * 0x4000 ≤ size) ↔ m ≤ 2 ^ k := by
      constructor
      · intro h
        refine Nat.not_lt.mp fun hlt => ?_
        have hin := h hlt
        have hmul : (m + 1) * 0x4000 ≤ Ram.doubled m 19 (2 ^ k) * 0x4000 := Nat.mul_le_mul_right _ (by omega)
        omega
      · exact fun h hlt => absurd h (Nat.not_le.mpr hlt)
    have hrange : m ≤ 2 ^ k ↔ m.log2 < k := by
      constructor
      · intro h
        exact (Nat.pow_lt_pow_iff_right (a := 2) (by decide)).mp (by omega)
      · intro h
        exact Nat.le_trans (Nat.le_of_lt hhigh) (Nat.pow_le_pow_right (by decide) h)
    rw [hover, hrange, hk]
    by_cases hbyte : m < 256
    · have hnone : ¬ 2 ^ m.log2 ≤ 0 := Nat.not_le.mpr (Nat.two_pow_pos _)
      rw [le_highest (fun c hc => Nat.lt_of_le_of_lt (hchips' c hc) hbyte)]
      simp only [hpow, hbyte, hnone, false_or, true_and]
    · have hbig : 256 ≤ 2 ^ m.log2 := by
        have h8 : 8 ≤ m.log2 := (Nat.le_log2 hpos).mpr (Nat.not_lt.mp hbyte)
        exact Nat.pow_le_pow_right (n := 2) (by decide) h8
      have hlt := @highest_lt 0 chips (by decide)
      refine iff_of_false (by omega) ?_
      rintro (h | ⟨h, _⟩)
      · exact hpow h
      · exact hbyte h

/-! ## The whole load -/

theorem patch_fields (env : Machine) (s : C64Crt) :
    (patchEasyflashEapi env s).bankMultiplier = s.bankMultiplier ∧
      (patchEasyflashEapi env s).highestBank = s.highestBank ∧
      (patchEasyflashEapi env s).eepromStores = s.eepromStores := by
  rw [patchEasyflashEapi]
  split <;> exact ⟨rfl, rfl, rfl⟩

theorem regenerate_fields (s : C64Crt) :
    (regenerateEasyflashChunks s).ram = s.ram ∧ (regenerateEasyflashChunks s).eepromStores = s.eepromStores := by
  rw [regenerateEasyflashChunks]
  split <;> exact ⟨rfl, rfl⟩

theorem patch_within {env : Machine} {s : C64Crt} (hmax : 0x10000 ≤ env.maxCart.toNat) :
    (patchEasyflashEapi env s).ram.Within env.maxCart.toNat ↔ s.ram.Within env.maxCart.toNat := by
  rw [patchEasyflashEapi]
  split
  · refine Ram.within_put.trans (and_iff_left ?_)
    rw [env.eapi_length]
    omega
  · exact Iff.rfl

/-- The chips that are moved, and a new EEPROM. -/
theorem relocate_within {env : Machine} {s : C64Crt} (hmax : 0x10000 ≤ env.maxCart.toNat)
    (heeprom : ∀ st ∈ s.eepromStores, st.2 ≤ st.1) :
    (relocate env s).StoresWithin env ↔ s.ram.Within env.maxCart.toNat := by
  rw [relocate]
  split
  · refine (and_iff_left heeprom).trans (Ram.within_copy.trans (and_iff_left ?_))
    omega
  · refine (and_iff_left heeprom).trans (Ram.within_copy.trans ?_)
    refine (and_iff_left (by omega)).trans (Ram.within_copy.trans (and_iff_left ?_))
    omega
  · rw [findEeprom]
    split
    · exact and_iff_left heeprom
    · split
      · exact and_iff_left heeprom
      · refine and_iff_left (List.forall_mem_append.mpr ⟨heeprom, ?_⟩)
        simp
  · exact and_iff_left heeprom

/-- The banks are doubled when they have 16K. -/
theorem autoMirror_within {env : Machine} {s : C64Crt} {chips : List (Nat × Packet)}
    (hmax : 0x10000 ≤ env.maxCart.toNat) (hmult : s.bankMultiplier ≠ 32 * 1024 → s.bankMultiplier = 0x4000)
    (hbanks : s.bankMultiplier ≠ 32 * 1024 → ∀ c ∈ chips, c.2.bank * 0x4000 < env.maxCart.toNat)
    (hhighest : s.highestBank = highest 0 chips) :
    ∃ s', autoMirror env s = some s' ∧ s'.eepromStores = s.eepromStores ∧
      (s'.ram.Within env.maxCart.toNat ↔ s.ram.Within env.maxCart.toNat ∧
        (s.bankMultiplier = 32 * 1024 ∨ FillsUp env.maxCart.toNat chips)) := by
  rw [autoMirror]
  by_cases h32 : s.bankMultiplier = 32 * 1024
  · rw [if_pos h32]
    exact ⟨s, rfl, rfl, (and_iff_left (.inl h32)).symm⟩
  · have hlt : s.highestBank < 2 ^ (0 + 9) := by
      have := @highest_lt 0 chips (by decide)
      omega
    obtain ⟨k, hspec, hk⟩ := roundBanks_spec hlt nofun
    have hround : roundBanks s.highestBank 10 1 = some (2 ^ k) := hspec
    have hfuel : env.maxCart.toNat / 0x4000 ≤ 2 ^ k * 2 ^ 18 := by
      have hone : 1 ≤ 2 ^ k := Nat.one_le_two_pow
      have hsize := env.maxCart.toNat_lt
      omega
    obtain ⟨ram, hram⟩ := @Ram.mirror_some 0 0x4000 _ _ _ s.ram hfuel
    have hmirror : s.ram.mirror 0 s.bankMultiplier (env.maxCart.toNat / s.bankMultiplier) 19 (2 ^ k) = some ram := by
      rw [hmult h32]
      exact hram
    rw [if_neg h32, hround]
    refine ⟨{ s with ram := ram }, congrArg (Option.map _) hmirror, rfl,
      (Ram.mirror_within hram).trans (and_congr_right fun _ => ?_)⟩
    rw [hhighest] at hk
    rw [mirror_fits_iff env.maxCart.toNat_lt hmax hk (hbanks h32)]
    exact (or_iff_right h32).symm

theorem packets_data {fuel : Nat} {file : Bytes} : ∀ p ∈ packets fuel file, p.data.length ≤ p.size := by
  induction fuel generalizing file with
  | zero =>
      intro p hp
      cases hp
  | succ fuel ih =>
      rw [packets]
      split
      · intro p hp
        cases hp
      · refine List.forall_mem_cons.mpr ⟨?_, ih⟩
        rw [packetAt]
        simp only
        split
        · rw [List.length_take]
          exact Nat.min_le_left _ _
        · exact Nat.zero_le _

theorem opened_within (env : Machine) (crtHeader : Bytes) (machine : Nat) (localType : CartType) :
    (opened env crtHeader machine localType).ram.Within env.maxCart.toNat :=
  Ram.within_fill.mpr ⟨nofun, by omega⟩

/-- `read_crt` behind an accepted header. -/
theorem readCrt_opened {env : Machine} {file : Bytes} {machine : Nat} {localType : CartType}
    (h : checkHeader env (file.take 0x40) = .ok (machine, localType)) :
    readCrt env file =
      finishCrt env (if startsWell file = true then
          loadPackets env (packetsOf file) (opened env (file.take 0x40) machine localType)
        else (.errorInFileFormat, opened env (file.take 0x40) machine localType)) := by
  have hlen : (file.drop (max (getDword (file.take 0x40) 0x10) 0x40)).length < file.length + 1 := by
    rw [List.length_drop]
    omega
  have hloop := packetLoop_eq env (opened env (file.take 0x40) machine localType) hlen
  have hchunks : (opened env (file.take 0x40) machine localType).chipChunks = [] := rfl
  have hstart : startsWell file = true ↔ ¬ (packetsOf file = [] ∧
      0x10 ≤ (file.drop (max (getDword (file.take 0x40) 0x10) 0x40)).length ∧
      (opened env (file.take 0x40) machine localType).chipChunks = []) := by
    simp only [startsWell, hchunks, and_true, Bool.or_eq_true, decide_eq_true_eq, not_and_or, Nat.not_le, ne_eq]
  rw [readCrt]
  simp only [h, hloop, Option.bind_some]
  refine congrArg (finishCrt env) ?_
  by_cases hs : startsWell file = true
  · rw [if_pos hs]
    exact if_neg (hstart.mp hs)
  · rw [if_neg hs]
    exact if_pos (Decidable.not_not.mp (mt hstart.mpr hs))

theorem finishCrt_refused (env : Machine) {r : Result × C64Crt} (h : r.1 ≠ .ok) :
    finishCrt env r = some (r.1, ⟨0, 0, 0⟩, r.2) := by
  obtain ⟨result, s⟩ := r
  cases result with
  | ok => exact absurd rfl h
  | fileReadFailed => rfl
  | errorInFileFormat => rfl
  | notImplemented => rfl
  | eepromTooLarge => rfl
  | eepromAlreadyDefined => rfl
  | romImageTooLarge => rfl

/-- The load of every file ends, and every store is in the memory if and only if the file fits. -/
theorem readCrt_within_iff (env : Machine) (hmax : 0x10000 ≤ env.maxCart.toNat) (file : Bytes) :
    ∃ result cart s, readCrt env file = some (result, cart, s) ∧ (s.StoresWithin env ↔ Fits env file) := by
  cases hheader : checkHeader env (file.take 0x40) with
  | error result =>
      refine ⟨result, ⟨0, 0, 0⟩, opened env (file.take 0x40) 0 .notImpl, ?_,
        iff_of_true ⟨opened_within env _ _ _, nofun⟩ ?_⟩
      · simp only [readCrt, hheader]
      · rintro ⟨m, hm⟩
        rw [hheader] at hm
        exact nomatch hm
  | ok m =>
      obtain ⟨machine, localType⟩ := m
      have hfits : Fits env file ↔
          (∀ c ∈ (layoutOf env file).chips, c.1 + c.2.extent ≤ env.maxCart.toNat) ∧
          ((layoutOf env file).complete = true → startsWell file = true →
            (layoutOf env file).banks32K = true ∨ FillsUp env.maxCart.toNat (layoutOf env file).chips) :=
        forall_prop_of_true ⟨_, hheader⟩
      rw [readCrt_opened hheader, hfits]
      by_cases hstart : startsWell file = true
      · have hload := loadPackets_loaded env (packetsOf file)
          (opened env (file.take 0x40) machine localType) packets_data
        have hlayout : layout env.maxCart.toNat (opened env (file.take 0x40) machine localType).bankMultiplier
            (opened env (file.take 0x40) machine localType).eepromBuffer.isSome (packetsOf file) =
            layoutOf env file := rfl
        rw [hlayout] at hload
        rw [if_pos hstart]
        generalize loadPackets env (packetsOf file) (opened env (file.take 0x40) machine localType) = r at hload
        have hram : r.2.ram.Within env.maxCart.toNat ↔
            ∀ c ∈ (layoutOf env file).chips, c.1 + c.2.extent ≤ env.maxCart.toNat :=
          hload.within.trans (and_iff_right (opened_within env _ machine localType))
        by_cases hok : r.1 = .ok
        · have hcomplete := hload.complete.mp hok
          obtain ⟨hmult, hhighest, hstores⟩ := patch_fields env r.2
          have h16 : (patchEasyflashEapi env r.2).bankMultiplier ≠ 32 * 1024 →
              r.2.bankMultiplier = 0x4000 ∧ ∀ c ∈ (layoutOf env file).chips, c.1 = c.2.offset 0x4000 := by
            intro hne
            rw [hmult] at hne
            exact hload.banks16K hcomplete (Bool.eq_false_iff.mpr (mt (hload.mult hcomplete).mpr hne))
          have hbanks : (patchEasyflashEapi env r.2).bankMultiplier ≠ 32 * 1024 →
              ∀ c ∈ (layoutOf env file).chips, c.2.bank * 0x4000 < env.maxCart.toNat := by
            intro hne c hc
            have hbefore := hload.before c hc
            rw [(h16 hne).2 c hc] at hbefore
            exact Nat.lt_of_le_of_lt (Nat.le_add_right _ _) hbefore
          obtain ⟨s, hmirror, hsame, hwithin⟩ := autoMirror_within hmax
            (fun hne => hmult.trans (h16 hne).1) hbanks (hhighest.trans (hload.highest hcomplete))
          obtain ⟨hregram, hregstores⟩ := regenerate_fields s
          have heeprom : ∀ st ∈ (regenerateEasyflashChunks s).eepromStores, st.2 ≤ st.1 := by
            rw [hregstores, hsame, hstores]
            exact hload.eeprom nofun
          refine ⟨.ok, cartDef (relocate env (regenerateEasyflashChunks s)),
            relocate env (regenerateEasyflashChunks s), ?_, (relocate_within hmax heeprom).trans ?_⟩
          · obtain ⟨result, s'⟩ := r
            cases hok
            rw [finishCrt, hmirror]
            rfl
          · rw [hregram, hwithin, patch_within hmax, hram, hmult, hload.mult hcomplete]
            simp only [hcomplete, hstart, true_implies]
        · have hincomplete : ¬ (layoutOf env file).complete = true := mt hload.complete.mpr hok
          refine ⟨r.1, ⟨0, 0, 0⟩, r.2, finishCrt_refused env hok, ?_⟩
          refine (and_iff_left (hload.eeprom nofun)).trans (hram.trans ?_)
          exact (and_iff_left (fun h => absurd h hincomplete)).symm
      · -- The first packet is none, and no chip has been stored.
        rw [if_neg hstart]
        refine ⟨.errorInFileFormat, ⟨0, 0, 0⟩, _, rfl, iff_of_true ⟨opened_within env _ _ _, nofun⟩ ?_⟩
        have hnone : packetsOf file = [] := by
          simp only [startsWell, Bool.or_eq_true, decide_eq_true_eq, not_or, ne_eq, not_not] at hstart
          exact hstart.1
        refine ⟨?_, fun _ h => absurd h hstart⟩
        rw [layoutOf, hnone]
        exact nofun

/-- A cartridge memory of 64K. -/
def cart64K : Machine where
  maxCart := 0x10000
  ram := fun _ => 0
  capabEeprom := true
  eapi := [0x65, 0x61, 0x70, 0x69] ++ List.replicate 764 0
  eapi_length := zeroEapi_length
  eapi_signature := zeroEapi_signature
  heap := fun _ => 0

theorem readCrt_within_cart64K :
    0x10000 ≤ cart64K.maxCart.toNat ∧
      ∃ result cart s, readCrt cart64K c64Signature = some (result, cart, s) ∧
        (s.StoresWithin cart64K ↔ Fits cart64K c64Signature) :=
  ⟨by decide, readCrt_within_iff cart64K (by decide) c64Signature⟩

/-- An image of a normal cartridge: one chip of 384 bytes for bank 3, at $A000. -/
def lastBank : Bytes :=
  c64Signature ++ [0, 0, 0, 0x40, 1, 0, 0, 0] ++ List.replicate 40 0 ++
  chipSignature ++ [0, 0, 1, 0x90, 0, 0, 0, 3, 0xA0, 0, 1, 0x80] ++ List.replicate 0x180 0

/-- It is repeated to 12K, where the memory has 8K left. -/
theorem lastBank_not_within :
    ∃ result cart s, readCrt cart64K lastBank = some (result, cart, s) ∧ ¬ s.StoresWithin cart64K := by
  have hstores : (readCrt cart64K lastBank).map (fun r => r.2.2.ram.stores.any fun st =>
      (0xF800, 0x1800) = st) = some true := by decide +kernel
  obtain ⟨⟨result, cart, s⟩, hread, hany⟩ := Option.map_eq_some_iff.mp hstores
  refine ⟨result, cart, s, hread, fun h => ?_⟩
  obtain ⟨st, hst, heq⟩ := List.any_eq_true.mp hany
  have hin := h.1 st hst
  rw [← of_decide_eq_true heq] at hin
  exact absurd hin (by decide)

end Crt
