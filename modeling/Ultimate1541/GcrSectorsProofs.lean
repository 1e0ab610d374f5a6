import Ultimate1541.GcrEncodeProofs
import Ultimate1541.GcrRotateProofs

/-! # Decoding a track of sectors

    On a track of which the blocks are the headers and the data of its sectors,
    one behind the other, the scan goes once around the track and takes each
    sector as it comes by.  Positions are counted on the unrolled track: a block
    at `pos i` in the stream is at `pos i - lead a k` there. -/

namespace GcrDecode

open Loop

/-! ## Sectors in a row -/

/-- Byte `i` of the data block at `p`, 256 being the checksum. -/
def streamData (d : Decoder) (b : Nat → UInt8) (p i : Nat) : UInt8 :=
  if i < 3 then conv5 d (fun m => b (p + m)) (i + 1) else convBlock d (fun m => b (p + 5 + m)) (i - 3)

/-- The blocks of the stream are headers and data of `n` sectors, over and over. -/
structure Sectors (d : Decoder) (b : Nat → UInt8) (pos : Nat → Nat) (len n track : Nat)
    (content : Nat → Nat → UInt8) : Prop where
  two_le : 2 ≤ n
  le_256 : n ≤ 256
  len_ge : 360 ≤ len
  /-- The stream repeats after `n` sectors. -/
  turn : ∀ i, pos (i + 2 * n) = pos i + len
  inside : ∀ i, i < 2 * n → pos i < len
  header_gap : ∀ m, pos (2 * m) + 12 ≤ pos (2 * m + 1)
  data_gap : ∀ m, pos (2 * m + 1) + 327 ≤ pos (2 * m + 2)
  header_mark : ∀ m, conv5 d (fun i => b (pos (2 * m) + i)) 0 = 8
  header_sector : ∀ m, (conv5 d (fun i => b (pos (2 * m) + i)) 2).toNat = m % n
  header_track : ∀ m, (conv5 d (fun i => b (pos (2 * m) + i)) 3).toNat = track
  data_mark : ∀ m, conv5 d (fun i => b (pos (2 * m + 1) + i)) 0 = 7
  data : ∀ m i, i ≤ 256 → streamData d b (pos (2 * m + 1)) i = content (m % n) i
  checksum : ∀ s, (List.range 256).foldl (fun chk i => chk ^^^ content s i) 0 = content s 256

namespace Sectors

variable {d : Decoder} {b : Nat → UInt8} {pos : Nat → Nat} {len n track : Nat}
  {content : Nat → Nat → UInt8}

theorem pos_succ (h : Sectors d b pos len n track content) (i : Nat) : pos i + 12 ≤ pos (i + 1) := by
  rcases Nat.even_or_odd' i with ⟨m, rfl | rfl⟩
  · exact h.header_gap m
  · have := h.data_gap m
    rw [show 2 * m + 1 + 1 = 2 * m + 2 by omega]
    omega

theorem pos_strictMono (h : Sectors d b pos len n track content) : StrictMono pos :=
  strictMono_nat_of_lt_succ fun i => by have := h.pos_succ i; omega

theorem turn_mul (h : Sectors d b pos len n track content) (i m : Nat) :
    pos (i + 2 * n * m) = pos i + len * m := by
  induction m with
  | zero => rfl
  | succ m ih => rw [Nat.mul_succ, ← Nat.add_assoc, h.turn, ih, Nat.mul_succ, Nat.add_assoc]

end Sectors

/-! ## Where the scan is -/

/-- The position `current` is that of place `e` on the unrolled track, and the scan has
    turned at the end of the track only if the place is behind it. -/
structure At (len current : Nat) (wrapped : Bool) (e : Nat) : Prop where
  le_len : current ≤ len
  place : ∃ m, current + len * m = e ∧ (wrapped = true → 1 ≤ m)

/-- `wrap` moves on. -/
theorem At.wrapNext {t : Track} {c e k : Nat} {w : Bool} (h : At t.len c w e)
    (hcount : k ≤ t.len) : At t.len (t.wrapNext c k) w (e + k) := by
  obtain ⟨hle, m, hm, hw⟩ := h
  rw [Track.wrapNext]
  split
  · refine ⟨by omega, m + 1, ?_, fun _ => by omega⟩
    rw [Nat.mul_succ]
    omega
  · exact ⟨by omega, m, by omega, hw⟩

section Scan

variable {d : Decoder} {t : Track} {b : Nat → UInt8} {pos : Nat → Nat} {a k n track : Nat}
  {content : Nat → Nat → UInt8}

/-- Before block `i` the scan is at place `e`: the next block is this one. -/
structure Before (pos : Nat → Nat) (lead e i : Nat) : Prop where
  le : e + 2 + lead ≤ pos i
  after : ∀ j, j < i → pos j < e + 2 + lead

/-- The scan finds the sync of the next block, turning at the end of the track if it
    has to. -/
theorem At.next (ht : Turned t b a k) (hf : Framed b pos)
    (hs : Sectors d b pos t.len n track content) {c e i : Nat} {w : Bool} (hat : At t.len c w e)
    (hbefore : Before pos (lead a k) e i) (hlast : pos i < 2 * t.len + lead a k) :
    t.findSync c = some ((pos i - lead a k) % t.len) ∧
      ¬ ((pos i - lead a k) % t.len < c ∧ w = true) ∧
      At t.len ((pos i - lead a k) % t.len)
        (w || decide ((pos i - lead a k) % t.len < c)) (pos i - lead a k) := by
  obtain ⟨hle, m, hm, hw⟩ := hat
  obtain ⟨hnext, hafter⟩ := hbefore
  have hpos := ht.len_pos
  -- The block is `u` in the turn of the scan.
  have hmle : m ≤ 1 := by
    by_contra hnot
    have : t.len * 2 ≤ t.len * m := Nat.mul_le_mul_left _ (by omega)
    omega
  obtain ⟨u, hu⟩ : ∃ u, u + t.len * m + lead a k = pos i := ⟨pos i - lead a k - t.len * m, by omega⟩
  have hmod : (pos i - lead a k) % t.len = u % t.len := by
    rw [← hu, Nat.add_sub_cancel, Nat.add_mul_mod_self_left]
  have hstart : ∃ j, u + lead a k = pos j := by
    interval_cases m
    · exact ⟨i, by omega⟩
    · have hi : 2 * n ≤ i := by
        by_contra hlt
        have := hs.inside i (by omega)
        omega
      have := hs.turn (i - 2 * n)
      rw [Nat.sub_add_cancel hi] at this
      exact ⟨i - 2 * n, by omega⟩
  have hfind : t.findSync c = some (u % t.len) := by
    refine t.findSync_eq hle (by omega) ((ht.syncEnds_iff hf).mpr ⟨by omega, hstart⟩) ?_
    intro v hv hsv
    obtain ⟨hcv, j, hj⟩ := (ht.syncEnds_iff hf).mp hsv
    have hturn := hs.turn_mul j m
    have hlt : j + 2 * n * m < i := hs.pos_strictMono.lt_iff_lt.mp (by omega)
    have := hafter _ hlt
    omega
  rw [hmod]
  have hplace : u % t.len + t.len * (u / t.len + m) = pos i - lead a k := by
    rw [Nat.mul_add, ← Nat.add_assoc, Nat.mod_add_div]
    omega
  refine ⟨hfind, ?_, Nat.le_of_lt (Nat.mod_lt u hpos), u / t.len + m, hplace, ?_⟩
  · rintro ⟨hback, hwrap⟩
    have hm1 : m = 1 := by have := hw hwrap; omega
    subst hm1
    rw [Nat.mod_eq_of_lt (by omega)] at hback
    omega
  · intro hwrap
    rw [Bool.or_eq_true, decide_eq_true_iff] at hwrap
    rcases hwrap with hwrap | hback
    · exact Nat.le_add_left_of_le (hw hwrap)
    · by_contra hzero
      obtain ⟨hu0, rfl⟩ : u / t.len = 0 ∧ m = 0 :=
        Nat.add_eq_zero_iff.mp (Nat.lt_one_iff.mp (Nat.lt_of_not_le hzero))
      have hlt : u < t.len := by
        by_contra hge
        have := Nat.div_pos (Nat.le_of_not_lt hge) hpos
        omega
      rw [Nat.mod_eq_of_lt hlt] at hback
      omega

end Scan

/-! ## One sector -/

theorem store_inside {mem b : Nat → UInt8} {dest i : Nat} (hi : i < 256) :
    Scan.store mem dest b (dest + i) = b i := by
  rw [Scan.store, if_pos ⟨Nat.le_add_right _ _, by omega⟩, Nat.add_sub_cancel_left]

theorem store_other {mem b : Nat → UInt8} {dest x : Nat} (h : x < dest ∨ dest + 256 ≤ x) :
    Scan.store mem dest b x = mem x := by
  rw [Scan.store, if_neg (by omega)]

theorem checksum_store (mem b : Nat → UInt8) (dest : Nat) :
    Scan.checksum (Scan.store mem dest b) dest
      = (List.range 256).foldl (fun chk i => chk ^^^ b i) 0 := by
  refine List.foldl_ext _ _ _ fun chk i hi => ?_
  rw [store_inside (List.mem_range.mp hi)]

/-- The scan after the header of sector `n`. -/
def Scan.opened (r : Request) (n current : Nat) (wrapped : Bool) (s : Scan) : Scan :=
  { s with
    expectData := true, dest := r.bin + 256 * n, status := s.status ++ [UInt8.ofNat n],
    statlen := s.statlen - 1, current := current, wrapped := wrapped }

/-- The scan after the data of a sector. -/
def Scan.closed (b : Nat → UInt8) (current : Nat) (wrapped : Bool) (s : Scan) : Scan :=
  { s with
    expectData := false, secs := s.secs + 1, mem := Scan.store s.mem s.dest b,
    status := s.status ++ [0], statlen := s.statlen - 1, current := current, wrapped := wrapped }

/-- A data block with the right checksum. -/
theorem Scan.dataBlock_good {b : Nat → UInt8} {pntr : Nat} {s : Scan} (hroom : 0 < s.statlen)
    (hchk : (List.range 256).foldl (fun chk i => chk ^^^ b i) 0 = b 256) :
    s.dataBlock b pntr = s.closed b pntr s.wrapped := by
  rw [Scan.dataBlock]
  dsimp only
  rw [if_pos hroom, if_neg (by rw [checksum_store]; exact not_not.mpr hchk), Scan.put, if_pos hroom]
  rfl

/-- The header of a sector of the track, where no data is expected. -/
theorem Scan.header_good {r : Request} {n pntr : Nat} {s : Scan} (hn : n < r.maxSector)
    (hexp : s.expectData = false) (hroom : 0 < s.statlen) :
    s.header r r.trackNumber n pntr = s.opened r n pntr s.wrapped := by
  have hput : s.putExpected = s := by
    rw [Scan.putExpected, if_neg (by rw [hexp]; exact Bool.false_ne_true)]
  rw [Scan.header_accepted (Or.inl ⟨rfl, hn⟩), Scan.noted, hput, Scan.put_of_room hroom]
  rfl

section Scan

variable {d : Decoder} {t : Track} {b : Nat → UInt8} {pos : Nat → Nat} {a k n track : Nat}
  {content : Nat → Nat → UInt8} {r : Request}

/-- The data block at `pos (2 * m + 1)` is read through the end of the track by a byte
    or more: its first five bytes do not end where the track does. -/
def Whole (t : Track) (pos : Nat → Nat) (a k m : Nat) : Prop :=
  k = 0 ∨ (pos (2 * m + 1) - lead a k) % t.len + 5 ≠ t.len

/-- The data bytes the decoder reads. -/
theorem data_eq (ht : Turned t b a k) (hf : Framed b pos)
    (hs : Sectors d b pos t.len n track content) {m : Nat}
    (hle : lead a k ≤ pos (2 * m + 1)) (hwhole : Whole t pos a k m) {i : Nat} (hi : i ≤ 256) :
    t.data d ((pos (2 * m + 1) - lead a k) % t.len) i = content (m % n) i := by
  have hlen := hs.len_ge
  rw [← hs.data m i hi, Track.data, streamData]
  split
  · exact ht.head_eq hf d (Nat.sub_add_cancel hle) (i + 1)
  · exact ht.rest_eq hf d (Nat.sub_add_cancel hle) (by omega) hwhole (by omega)

/-- The round that reads a header. -/
theorem header_round (ht : Turned t b a k) (hf : Framed b pos)
    (hs : Sectors d b pos t.len n track content) (hmax : r.maxSector = n)
    (htrack : r.trackNumber = track) {s : Scan} {e m : Nat}
    (hat : At t.len s.current s.wrapped e) (hbefore : Before pos (lead a k) e (2 * m))
    (hlast : pos (2 * m) < 2 * t.len + lead a k) (hsecs : s.secs < n)
    (hexp : s.expectData = false) (hroom : 0 < s.statlen) :
    ∃ c w, Next (step d t r) s (s.opened r (m % n) c w) ∧
      At t.len c w (pos (2 * m) - lead a k + 10) := by
  have hlen := hs.len_ge
  have htwo := hs.two_le
  obtain ⟨hfind, hnowrap, hat'⟩ := hat.next ht hf hs hbefore hlast
  have hu : pos (2 * m) - lead a k + lead a k = pos (2 * m) := by
    have := hbefore.le
    omega
  have hhead := ht.head_eq hf d hu
  have hmark : t.mark d ((pos (2 * m) - lead a k) % t.len) = 8 := (hhead 0).trans (hs.header_mark m)
  have hsector : t.headerSector d ((pos (2 * m) - lead a k) % t.len) = m % n := by
    rw [Track.headerSector, hhead]
    exact hs.header_sector m
  have htr : t.headerTrack d ((pos (2 * m) - lead a k) % t.len) = r.trackNumber := by
    rw [Track.headerTrack, hhead, htrack]
    exact hs.header_track m
  have hn : m % n < r.maxSector := by
    rw [hmax]
    exact Nat.mod_lt m (by omega)
  refine ⟨_, _, step_eq_some.mpr ⟨by omega, _, hfind, hnowrap, ?_⟩,
    (hat'.wrapNext (k := 5) (by omega)).wrapNext (k := 5) (by omega)⟩
  rw [Scan.block_header hmark, hsector, htr]
  exact Scan.header_good (s := s.found _) hn hexp hroom

/-- The round that reads the data behind it. -/
theorem data_round (ht : Turned t b a k) (hf : Framed b pos)
    (hs : Sectors d b pos t.len n track content) (hmax : r.maxSector = n) {s : Scan} {e m : Nat}
    (hat : At t.len s.current s.wrapped e) (hbefore : Before pos (lead a k) e (2 * m + 1))
    (hlast : pos (2 * m + 1) < 2 * t.len + lead a k) (hsecs : s.secs < n)
    (hexp : s.expectData = true) (hroom : 0 < s.statlen) (hwhole : Whole t pos a k m) :
    ∃ c w b', Next (step d t r) s (s.closed b' c w) ∧
      At t.len c w (pos (2 * m + 1) - lead a k + 325) ∧ ∀ i, i < 256 → b' i = content (m % n) i := by
  have hlen := hs.len_ge
  obtain ⟨hfind, hnowrap, hat'⟩ := hat.next ht hf hs hbefore hlast
  have hle : lead a k ≤ pos (2 * m + 1) := by
    have := hbefore.le
    omega
  have hmark : t.mark d ((pos (2 * m + 1) - lead a k) % t.len) = 7 :=
    (ht.head_eq hf d (Nat.sub_add_cancel hle) 0).trans (hs.data_mark m)
  have hdata : ∀ i, i ≤ 256 →
      t.data d ((pos (2 * m + 1) - lead a k) % t.len) i = content (m % n) i :=
    fun i hi => data_eq ht hf hs hle hwhole hi
  have hchk : (List.range 256).foldl (fun chk i => chk ^^^
      t.data d ((pos (2 * m + 1) - lead a k) % t.len) i) 0
        = t.data d ((pos (2 * m + 1) - lead a k) % t.len) 256 := by
    rw [hdata 256 (Nat.le_refl _), ← hs.checksum]
    refine List.foldl_ext _ _ _ fun chk i hi => ?_
    rw [hdata i (Nat.le_of_lt (List.mem_range.mp hi))]
  refine ⟨_, _, _, step_eq_some.mpr ⟨by omega, _, hfind, hnowrap, ?_⟩,
    (hat'.wrapNext (k := 5) (by omega)).wrapNext (k := 320) (by omega),
    fun i hi => hdata i (Nat.le_of_lt hi)⟩
  rw [Scan.block_data (s := s.found _) hmark hexp]
  exact Scan.dataBlock_good (s := s.found _) hroom hchk

end Scan

/-! ## Sector after sector -/

/-- The scan has taken `p` sectors, from `m₀` on, and expects a header; there was room
    for `room` status bytes. -/
structure Taken (r : Request) (content : Nat → Nat → UInt8) (mem₀ : Nat → UInt8)
    (n m₀ room p : Nat) (s : Scan) : Prop where
  secs : s.secs = p
  expectData : s.expectData = false
  status : s.status = (List.range p).flatMap fun j => [UInt8.ofNat ((m₀ + j) % n), 0]
  statlen : s.statlen + 2 * p = room
  mem : ∀ j, j < p → ∀ i, i < 256 →
    s.mem (r.bin + 256 * ((m₀ + j) % n) + i) = content ((m₀ + j) % n) i
  outside : ∀ x, x < r.bin ∨ r.bin + 256 * n ≤ x → s.mem x = mem₀ x

theorem taken_zero (r : Request) (content : Nat → Nat → UInt8) (n m₀ : Nat)
    (mem : Nat → UInt8) (statlen current : Nat) (wrapped : Bool) :
    Taken r content mem n m₀ statlen 0
      { Scan.start mem statlen with current := current, wrapped := wrapped } :=
  ⟨rfl, rfl, rfl, rfl, fun _ h => absurd h (Nat.not_lt_zero _), fun _ _ => rfl⟩

section Scan

variable {d : Decoder} {t : Track} {b : Nat → UInt8} {pos : Nat → Nat} {a k n track : Nat}
  {content : Nat → Nat → UInt8} {r : Request}

theorem Sectors.before_data (hs : Sectors d b pos t.len n track content) {lead m : Nat}
    (hle : lead ≤ pos (2 * m)) : Before pos lead (pos (2 * m) - lead + 10) (2 * m + 1) := by
  have hgap := hs.header_gap m
  refine ⟨by omega, fun j hj => ?_⟩
  have := hs.pos_strictMono.monotone (Nat.le_of_lt_succ hj)
  omega

theorem Sectors.before_header (hs : Sectors d b pos t.len n track content) {lead m : Nat}
    (hle : lead ≤ pos (2 * m + 1)) :
    Before pos lead (pos (2 * m + 1) - lead + 325) (2 * (m + 1)) := by
  have hgap := hs.data_gap m
  rw [show 2 * (m + 1) = 2 * m + 2 by omega]
  refine ⟨by omega, fun j hj => ?_⟩
  have : pos j ≤ pos (2 * m + 1) := hs.pos_strictMono.monotone (Nat.le_of_lt_succ hj)
  omega

/-- A sector taken: two rounds. -/
theorem Taken.next (ht : Turned t b a k) (hf : Framed b pos)
    (hs : Sectors d b pos t.len n track content) (hmax : r.maxSector = n)
    (htrack : r.trackNumber = track) {mem₀ : Nat → UInt8} {m₀ room p e : Nat} {s : Scan}
    (htaken : Taken r content mem₀ n m₀ room p s) (hp : p < n) (hroom : 2 * (p + 1) ≤ room)
    (hat : At t.len s.current s.wrapped e) (hbefore : Before pos (lead a k) e (2 * (m₀ + p)))
    (hlast : pos (2 * (m₀ + p) + 1) < 2 * t.len + lead a k) (hwhole : Whole t pos a k (m₀ + p)) :
    ∃ s' e', Reaches (step d t r) s s' ∧ Taken r content mem₀ n m₀ room (p + 1) s' ∧
      At t.len s'.current s'.wrapped e' ∧ Before pos (lead a k) e' (2 * (m₀ + (p + 1))) := by
  have hstatlen := htaken.statlen
  have hgap := hs.header_gap (m₀ + p)
  have hle : lead a k ≤ pos (2 * (m₀ + p)) := by
    have := hbefore.le
    omega
  have hn : (m₀ + p) % n < n := Nat.mod_lt _ (by omega)
  obtain ⟨c₁, w₁, hnext₁, hat₁⟩ := header_round ht hf hs hmax htrack hat hbefore (by omega)
    (htaken.secs.trans_lt hp) htaken.expectData (by omega)
  have hroom₁ : 0 < (s.opened r ((m₀ + p) % n) c₁ w₁).statlen := by
    show 0 < s.statlen - 1
    omega
  obtain ⟨c₂, w₂, b', hnext₂, hat₂, hb'⟩ := data_round (s := s.opened r ((m₀ + p) % n) c₁ w₁)
    ht hf hs hmax hat₁ (hs.before_data hle) hlast (htaken.secs.trans_lt hp) rfl hroom₁ hwhole
  refine ⟨_, _, .head hnext₁ (.single hnext₂), ?_, hat₂, hs.before_header (by omega)⟩
  constructor
  · exact congrArg (· + 1) htaken.secs
  · rfl
  · rw [List.range_succ, List.flatMap_append, List.flatMap_singleton, ← htaken.status]
    exact List.append_assoc _ _ _
  · show s.statlen - 1 - 1 + 2 * (p + 1) = room
    omega
  · intro j hj i hi
    show Scan.store s.mem (r.bin + 256 * ((m₀ + p) % n)) b' _ = _
    by_cases hsame : (m₀ + j) % n = (m₀ + p) % n
    · rw [hsame, store_inside hi, hb' i hi]
    · -- Another sector, taken before.
      rcases Nat.lt_succ_iff_lt_or_eq.mp hj with hj | rfl
      · rw [store_other (by omega)]
        exact htaken.mem j hj i hi
      · exact absurd rfl hsame
  · intro x hx
    show Scan.store s.mem (r.bin + 256 * ((m₀ + p) % n)) b' x = _
    rw [store_other (by omega)]
    exact htaken.outside x hx

/-- Sectors taken one after the other. -/
theorem taken_run (ht : Turned t b a k) (hf : Framed b pos)
    (hs : Sectors d b pos t.len n track content) (hmax : r.maxSector = n)
    (htrack : r.trackNumber = track) {mem₀ : Nat → UInt8} {m₀ room e : Nat} {s : Scan}
    (htaken : Taken r content mem₀ n m₀ room 0 s) (hat : At t.len s.current s.wrapped e)
    (hbefore : Before pos (lead a k) e (2 * m₀)) {p : Nat} (hp : p ≤ n) (hroom : 2 * p ≤ room)
    (hlast : ∀ j, j < p → pos (2 * (m₀ + j) + 1) < 2 * t.len + lead a k)
    (hwhole : ∀ j, j < p → Whole t pos a k (m₀ + j)) :
    ∃ s' e', Reaches (step d t r) s s' ∧ Taken r content mem₀ n m₀ room p s' ∧
      At t.len s'.current s'.wrapped e' ∧ Before pos (lead a k) e' (2 * (m₀ + p)) := by
  induction p with
  | zero => exact ⟨s, e, .refl, htaken, hat, hbefore⟩
  | succ p ih =>
      obtain ⟨s₁, e₁, hreach, htaken₁, hat₁, hbefore₁⟩ := ih (by omega) (by omega)
        (fun j hj => hlast j (by omega)) (fun j hj => hwhole j (by omega))
      obtain ⟨s₂, e₂, hreach₂, h⟩ := htaken₁.next ht hf hs hmax htrack (by omega) hroom hat₁
        hbefore₁ (hlast p (by omega)) (hwhole p (by omega))
      exact ⟨s₂, e₂, hreach.trans hreach₂, h⟩

/-- The first block the scan finds, and that a turn of the track is not longer than the
    blocks up to the one before it. -/
theorem Sectors.exists_first (hs : Sectors d b pos t.len n track content) (lead : Nat) :
    ∃ i, Before pos lead 0 i ∧ pos (i + (2 * n - 1)) < t.len + 2 + lead := by
  have hex : ∃ i, 0 + 2 + lead ≤ pos i :=
    ⟨2 + lead, by have := hs.pos_strictMono.le_apply (x := 2 + lead); omega⟩
  classical
  refine ⟨Nat.find hex, ⟨Nat.find_spec hex, fun j hj => ?_⟩, ?_⟩
  · exact Nat.lt_of_not_le (Nat.find_min hex hj)
  · have htwo := hs.two_le
    cases hi : Nat.find hex with
    | zero =>
        have := hs.inside (0 + (2 * n - 1)) (by omega)
        omega
    | succ i =>
        have hlt := Nat.lt_of_not_le (Nat.find_min hex (m := i) (by omega))
        rw [show i + 1 + (2 * n - 1) = i + 2 * n by omega, hs.turn]
        omega

/-- A data block that comes first is passed over. -/
theorem skip_round (ht : Turned t b a k) (hf : Framed b pos)
    (hs : Sectors d b pos t.len n track content) (hmax : r.maxSector = n) {s : Scan} {e m : Nat}
    (hat : At t.len s.current s.wrapped e) (hbefore : Before pos (lead a k) e (2 * m + 1))
    (hlast : pos (2 * m + 1) < 2 * t.len + lead a k) (hsecs : s.secs < n)
    (hexp : s.expectData = false) :
    ∃ c w, Next (step d t r) s { s with current := c, wrapped := w } ∧
      At t.len c w (pos (2 * m + 1) - lead a k) ∧
      Before pos (lead a k) (pos (2 * m + 1) - lead a k) (2 * (m + 1)) := by
  obtain ⟨hfind, hnowrap, hat'⟩ := hat.next ht hf hs hbefore hlast
  have hle : lead a k ≤ pos (2 * m + 1) := by
    have := hbefore.le
    omega
  have hmark : t.mark d ((pos (2 * m + 1) - lead a k) % t.len) = 7 :=
    (ht.head_eq hf d (Nat.sub_add_cancel hle) 0).trans (hs.data_mark m)
  have hafter := hs.before_header hle
  have hgap := hs.data_gap m
  refine ⟨_, _, step_eq_some.mpr ⟨by omega, _, hfind, hnowrap, ?_⟩, hat', ⟨?_, fun j hj => ?_⟩⟩
  · refine Scan.block_other (s := s.found _) (by rw [hmark]; decide) fun h => ?_
    exact absurd (hexp.symm.trans h.2) Bool.false_ne_true
  · rw [show 2 * (m + 1) = 2 * m + 2 by omega]
    omega
  · have : pos j ≤ pos (2 * m + 1) := hs.pos_strictMono.monotone (by omega)
    omega

/-- The scan gets to the first header with nothing taken. -/
theorem reaches_first_header (ht : Turned t b a k) (hf : Framed b pos)
    (hs : Sectors d b pos t.len n track content) (hmax : r.maxSector = n)
    (mem : Nat → UInt8) (statlen : Nat) :
    ∃ s m₀ e, Reaches (step d t r) (Scan.start mem statlen) s ∧
      Taken r content mem n m₀ statlen 0 s ∧ At t.len s.current s.wrapped e ∧
      Before pos (lead a k) e (2 * m₀) ∧
      ∀ j, j < n → pos (2 * (m₀ + j) + 1) < 2 * t.len + lead a k := by
  have htwo := hs.two_le
  have hlen := hs.len_ge
  obtain ⟨i, hbefore, hturn⟩ := hs.exists_first (lead a k)
  have hstart : At t.len 0 false 0 := ⟨Nat.zero_le _, 0, rfl, fun h => nomatch h⟩
  have hmono := hs.pos_strictMono
  rcases Nat.even_or_odd' i with ⟨m, rfl | rfl⟩
  · refine ⟨_, m, 0, .refl, taken_zero r content n m mem statlen 0 false, hstart, hbefore,
      fun j hj => ?_⟩
    have : pos (2 * (m + j) + 1) ≤ pos (2 * m + (2 * n - 1)) := hmono.monotone (by omega)
    omega
  · have hfirst : pos (2 * m + 1) + 12 ≤ pos (2 * m + 1 + (2 * n - 1)) :=
      (hs.pos_succ (2 * m + 1)).trans (hmono.monotone (by omega))
    obtain ⟨c, w, hnext, hat, hbefore'⟩ := skip_round ht hf hs hmax
      (s := Scan.start mem statlen) hstart hbefore (by omega)
      (show 0 < n by omega) rfl
    refine ⟨_, m + 1, _, .single hnext, taken_zero r content n (m + 1) mem statlen c w, hat, hbefore',
      fun j hj => ?_⟩
    have hle : pos (2 * (m + 1 + j) + 1) ≤ pos (2 * m + 1 + 2 * n) := hmono.monotone (by omega)
    rw [hs.turn] at hle
    omega

/-- The scan goes once around the track and takes all sectors. -/
theorem takes_all (ht : Turned t b a k) (hf : Framed b pos)
    (hs : Sectors d b pos t.len n track content) (hmax : r.maxSector = n)
    (htrack : r.trackNumber = track) (hwhole : ∀ m, lead a k ≤ pos (2 * m + 1) → Whole t pos a k m)
    (mem : Nat → UInt8) {statlen : Nat} (hroom : 2 * n ≤ statlen) :
    ∃ s m₀, EndsIn (step d t r) (Scan.start mem statlen) s ∧
      Taken r content mem n m₀ statlen n s := by
  obtain ⟨s, m₀, e, hreach, htaken, hat, hbefore, hlast⟩ :=
    reaches_first_header ht hf hs hmax mem statlen
  have hwhole' : ∀ j, j < n → Whole t pos a k (m₀ + j) := by
    intro j _
    refine hwhole _ ?_
    have hle := hbefore.le
    have : pos (2 * m₀) ≤ pos (2 * (m₀ + j) + 1) := hs.pos_strictMono.monotone (by omega)
    omega
  obtain ⟨s', _, hreach', htaken', _⟩ := taken_run ht hf hs hmax htrack htaken hat hbefore
    (Nat.le_refl n) hroom hlast hwhole'
  refine ⟨s', m₀, endsIn_iff.mpr ⟨hreach.trans hreach', ?_⟩, htaken'⟩
  rw [step, if_neg (by rw [htaken'.secs, hmax]; exact Nat.lt_irrefl n)]

end Scan

/-! ## A block cut off -/

section Scan

variable {d : Decoder} {t : Track} {b : Nat → UInt8} {pos : Nat → Nat} {a k n track : Nat}
  {content : Nat → Nat → UInt8} {r : Request}

/-- A place in the stream where the track ends, after a part of a byte. -/
def EndsAt (len a k x : Nat) : Prop := k ≠ 0 ∧ x % len = lead a k % len

/-- When the first five bytes of a data block end where the track does, it is the last
    one of the turn. -/
theorem Sectors.last_of_endsAt (hs : Sectors d b pos t.len n track content) {m : Nat}
    (hcut : EndsAt t.len a k (pos (2 * m + 1) + 5)) :
    ∃ m₀, Before pos (lead a k) 0 (2 * m₀) ∧ (m₀ + (n - 1)) % n = m % n ∧
      pos (2 * (m₀ + (n - 1)) + 1) + 5 = lead a k + t.len := by
  have htwo := hs.two_le
  have hlen := hs.len_ge
  have hmono := hs.pos_strictMono
  obtain ⟨i, hbefore, hturn⟩ := hs.exists_first (lead a k)
  -- The block of the first turn with the same data.
  obtain ⟨x, hx, q₁, q₂, hq⟩ : ∃ x, x < 2 * n ∧ ∃ q₁ q₂, i + x + 2 * n * q₁ = 2 * m + 1 + 2 * n * q₂ := by
    refine ⟨(2 * m + 1 + 2 * n * i - i) % (2 * n), Nat.mod_lt _ (by omega),
      (2 * m + 1 + 2 * n * i - i) / (2 * n), i, ?_⟩
    have hle : i ≤ 2 * n * i := Nat.le_mul_of_pos_left i (by omega)
    rw [Nat.add_assoc i, Nat.mod_add_div]
    omega
  have hpos : pos (i + x) + t.len * q₁ = pos (2 * m + 1) + t.len * q₂ := by
    rw [← hs.turn_mul, ← hs.turn_mul, hq]
  have hge : 2 + lead a k ≤ pos (i + x) := by
    have := hbefore.le
    have : pos i ≤ pos (i + x) := hmono.monotone (by omega)
    omega
  have hle : pos (i + x) ≤ pos (i + (2 * n - 1)) := hmono.monotone (by omega)
  -- It ends with the track.
  have hend : pos (i + x) + 5 = lead a k + t.len := by
    have hmod : (pos (i + x) + 5) % t.len = lead a k % t.len := by
      rw [← hcut.2, ← Nat.add_mul_mod_self_left (pos (i + x) + 5) t.len q₁,
        ← Nat.add_mul_mod_self_left (pos (2 * m + 1) + 5) t.len q₂]
      congr 1
      omega
    have hdvd : t.len ∣ pos (i + x) + 5 - lead a k :=
      (Nat.modEq_iff_dvd' (by omega)).mp hmod.symm
    obtain ⟨c, hc⟩ := hdvd
    have hc1 : c = 1 := by
      rcases Nat.lt_or_ge c 1 with h0 | h1
      · obtain rfl : c = 0 := by omega
        omega
      · by_contra hne
        have : t.len * 2 ≤ t.len * c := Nat.mul_le_mul_left _ (by omega)
        omega
    subst hc1
    omega
  -- An odd block, and the last one.
  obtain ⟨y, hy⟩ : ∃ y, i + x = 2 * y + 1 := by
    have hodd : (i + x) % 2 = 1 := by
      have h := congrArg (· % 2) hq
      simp only [Nat.mul_assoc, Nat.add_mul_mod_self_left] at h
      omega
    exact ⟨(i + x) / 2, by omega⟩
  have hlast : x = 2 * n - 1 := by
    by_contra hne
    have hgap := hs.data_gap y
    have hnext : pos (2 * y + 2) ≤ pos (i + (2 * n - 1)) := hmono.monotone (by omega)
    rw [hy] at hend
    omega
  have hi : i = 2 * (y + 1 - n) := by omega
  have hyn : y + 1 - n + (n - 1) = y := by omega
  refine ⟨y + 1 - n, hi ▸ hbefore, ?_, by rw [hyn, ← hy]; exact hend⟩
  rw [hyn]
  have hsector : y + n * q₁ = m + n * q₂ := by
    rw [hy, Nat.mul_assoc, Nat.mul_assoc] at hq
    omega
  rw [← Nat.add_mul_mod_self_left y n q₁, hsector, Nat.add_mul_mod_self_left]

/-- Behind the end of the track, `wrap` reads what is there. -/
theorem wrap_behind {g : Nat → UInt8} (hpos : 0 < k) (hk : k < 8)
    (hbehind : ∀ j, t.byte (t.len + j) = splice k (g j) (g (j + 1))) (count j : Nat) :
    t.wrap t.len count (8 - k) j = g (j + 1) := by
  have hcopy : ∀ j, t.copyPos (t.len + 1) j = t.len + (j + 1) := by
    intro j
    induction j with
    | zero => rw [Track.copyPos, Track.turn, if_neg (by omega)]
    | succ j ih => rw [Track.copyPos, ih, Track.turn, if_neg (by omega), Nat.add_assoc]
  have hcur : t.curByte t.len j = splice k (g j) (g (j + 1)) := by
    cases j with
    | zero => exact hbehind 0
    | succ j => rw [Track.curByte, hcopy, hbehind]
  rw [Track.wrap, if_neg (by omega), hcur, hcopy, hbehind, show 8 - (8 - k) = k by omega]
  exact shl_or_shr_splice hpos hk _ _ _

/-- When the first five bytes of a data block end where the track does, the others are
    read from the memory behind the track. -/
theorem reads_behind (ht : Turned t b a k) (hf : Framed b pos)
    (hs : Sectors d b pos t.len n track content) (hmax : r.maxSector = n)
    (htrack : r.trackNumber = track) {m : Nat} (hcut : EndsAt t.len a k (pos (2 * m + 1) + 5))
    {v : UInt8} {g : Nat → UInt8} (hg : ∀ j, g (j + 1) = convGroup (fun _ => v) j)
    (hbehind : ∀ j, t.byte (t.len + j) = splice k (g j) (g (j + 1)))
    (mem : Nat → UInt8) {statlen : Nat} (hroom : 2 * n ≤ statlen) :
    ∃ s, EndsIn (step d t r) (Scan.start mem statlen) s ∧
      s.mem (r.bin + 256 * (m % n) + 3) = v := by
  have htwo := hs.two_le
  have hlen := hs.len_ge
  have hmono := hs.pos_strictMono
  have hk := ht.lt_eight
  obtain ⟨m₀, hbefore, hsame, hend⟩ := hs.last_of_endsAt hcut
  have hstart : At t.len 0 false 0 := ⟨Nat.zero_le _, 0, rfl, fun h => nomatch h⟩
  -- The sectors before it.
  have hbound : ∀ j, j < n - 1 → pos (2 * (m₀ + j) + 1) + 12 ≤ pos (2 * (m₀ + (n - 1)) + 1) :=
    fun j hj => (hs.pos_succ _).trans (hmono.monotone (by omega))
  obtain ⟨s, e, hreach, htaken, hat, hbefore'⟩ := taken_run ht hf hs hmax htrack
    (taken_zero r content n m₀ mem statlen 0 false) hstart hbefore (p := n - 1) (by omega)
    (by omega) (fun j hj => by have := hbound j hj; omega) (fun j hj => by
      have := hbound j hj
      refine Or.inr ?_
      rw [Nat.mod_eq_of_lt (by omega)]
      omega)
  have hstatlen := htaken.statlen
  have hgap := hs.header_gap (m₀ + (n - 1))
  have hle : lead a k ≤ pos (2 * (m₀ + (n - 1))) := by
    have := hbefore'.le
    omega
  -- Its header.
  obtain ⟨c₁, w₁, hnext₁, hat₁⟩ := header_round ht hf hs hmax htrack hat hbefore' (by omega)
    (by rw [htaken.secs]; omega) htaken.expectData (by omega)
  -- Its data.
  obtain ⟨hfind, hnowrap, _⟩ := hat₁.next ht hf hs (hs.before_data hle) (by omega)
  have hq : (pos (2 * (m₀ + (n - 1)) + 1) - lead a k) % t.len = t.len - 5 := by
    rw [Nat.mod_eq_of_lt (by omega)]
    omega
  have hu : pos (2 * (m₀ + (n - 1)) + 1) - lead a k + lead a k
      = pos (2 * (m₀ + (n - 1)) + 1) := by omega
  have hmark : t.mark d (t.len - 5) = 7 := by
    rw [← hq]
    exact (ht.head_eq hf d hu 0).trans (hs.data_mark _)
  have hshift : t.shift (t.len - 5) = 8 - k := by
    rw [← hq, ht.shift_eq hf hu, if_neg hcut.1]
  have hdata : t.data d (t.len - 5) 3 = v := by
    have hnext : t.wrapNext (t.len - 5) 5 = t.len := by
      rw [Track.wrapNext, if_neg (by omega)]
      omega
    rw [Track.data, if_neg (by decide), Track.rest, hnext, hshift, convBlock]
    refine (conv5_congr d (c := convGroup fun _ => v) (fun i _ => ?_) _).trans
      (conv5_convGroup d _ (by decide))
    rw [wrap_behind (by have := hcut.1; omega) hk hbehind, hg]
    congr 1
    omega
  rw [hq] at hfind hnowrap
  have hnext₂ := step_eq_some (d := d) (r := r) (s := s.opened r ((m₀ + (n - 1)) % n) c₁ w₁)
    |>.mpr ⟨by rw [hmax]; exact htaken.secs.trans_lt (by omega), _, hfind, hnowrap, rfl⟩
  rw [Scan.block_data (s := (s.opened r ((m₀ + (n - 1)) % n) c₁ w₁).found _) hmark rfl] at hnext₂
  refine ⟨_, endsIn_iff.mpr ⟨hreach.trans (.head hnext₁ (.single hnext₂)), ?_⟩, ?_⟩
  · rw [step, if_neg]
    rw [Scan.dataBlock_secs, hmax]
    show ¬ s.secs + 1 < n
    rw [htaken.secs]
    omega
  · rw [Scan.dataBlock_mem, ← hsame]
    exact (store_inside (by decide)).trans hdata

end Scan

end GcrDecode
