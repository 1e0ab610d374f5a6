import Ultimate1541.CbmOpenProofs

/-! # Walking an open file

    Reading to the end, `seek` and `get_size` mark the sectors they visit, so
    they return on every handle and every image.  Together with
    `openFile_returns` and `openFile_acyclic` this decides on which images
    opening a file and using it terminates. -/

namespace CbmFile

open CbmLayout CbmBam CbmDisk ByteBuffer ChainWalk

variable {g : Geometry}

/-- The number of sectors that are not marked as visited. -/
def unvisited (g : Geometry) (visited : Nat → Bool) : Nat :=
  ((Finset.range g.numSectors).filter fun a => visited a = false).card

theorem unvisited_le (visited : Nat → Bool) : unvisited g visited ≤ g.numSectors :=
  (Finset.card_filter_le _ _).trans_eq (Finset.card_range _)

/-- Marking a sector leaves one less. -/
theorem unvisited_update {visited : Nat → Bool} {a : Nat} (ha : a < g.numSectors)
    (h : visited a = false) :
    unvisited g (Function.update visited a true) + 1 = unvisited g visited := by
  have hmem : a ∈ (Finset.range g.numSectors).filter fun b => visited b = false :=
    Finset.mem_filter.mpr ⟨Finset.mem_range.mpr ha, h⟩
  have hset : (Finset.range g.numSectors).filter
        (fun b => Function.update visited a true b = false)
      = ((Finset.range g.numSectors).filter fun b => visited b = false).erase a := by
    ext b
    rw [Finset.mem_erase, Finset.mem_filter, Finset.mem_filter]
    by_cases hb : b = a
    · subst hb
      rw [Function.update_self]
      exact ⟨fun h => absurd h.2 (by decide), fun h => absurd rfl h.1⟩
    · rw [Function.update_of_ne hb]
      exact ⟨fun h => ⟨hb, h⟩, fun h => h.2⟩
  rw [unvisited, hset]
  exact Finset.card_erase_add_one hmem

namespace FileInCBM

/-! ## Reading -/

/-- What is left to read at most: header bytes, the rest of the sector, and all
    sectors not visited yet. -/
def remaining (g : Geometry) (f : FileInCBM) : Nat :=
  match f.state with
  | .header => f.header.size - f.header.pos + (256 * unvisited g f.visited +
      (256 - f.offsetInSector))
  | .ended => 0
  | _ => 256 * unvisited g f.visited + (256 - f.offsetInSector)

theorem remaining_le {f : FileInCBM} (h : f.state ≠ .header) :
    remaining g f ≤ 256 * unvisited g f.visited + (256 - f.offsetInSector) := by
  rw [remaining]
  cases hs : f.state with
  | header => exact absurd hs h
  | linear => exact Nat.le_refl _
  | cvt => exact Nat.le_refl _
  | ended => exact Nat.zero_le _

theorem remaining_ended {f : FileInCBM} (h : f.state = .ended) : remaining g f = 0 := by
  rw [remaining, h]

/-- `visit` marks a sector or fails. -/
theorem visit_cases (g : Geometry) (f : FileInCBM) :
    ((f.visit g).res ≠ .ok ∧ (f.visit g).file = f) ∨
    ∃ a, absSector g f.currentTrack f.currentSector = some a ∧ f.visited a = false ∧
      f.visit g = ⟨.ok, { f with visited := Function.update f.visited a true }⟩ := by
  rw [visit]
  cases ha : absSector g f.currentTrack f.currentSector with
  | none =>
      left
      exact ⟨(fun h => by cases h), rfl⟩
  | some a =>
      dsimp only
      cases hv : f.visited a with
      | true =>
          left
          exact ⟨(fun h => by cases h), rfl⟩
      | false =>
          right
          exact ⟨a, rfl, hv, rfl⟩

theorem visit_remaining {f : FileInCBM} (hstate : f.state ≠ .header)
    (hoff : f.offsetInSector = 2) (h : (f.visit g).res = .ok) :
    remaining g (f.visit g).file ≤ 256 * unvisited g f.visited := by
  rcases visit_cases g f with ⟨hbad, -⟩ | ⟨a, ha, hv, hx⟩
  · exact absurd h hbad
  · have hone := unvisited_update (absSector_lt ha) hv
    rw [hx]
    refine Nat.le_trans (remaining_le hstate) ?_
    dsimp only
    rw [hoff]
    omega

/-- A new sector is reached for the first time, or there is none. -/
theorem nextPosition_remaining {f : FileInCBM} (hstate : f.state ≠ .header)
    (h : (f.nextPosition g).res = .ok) :
    remaining g (f.nextPosition g).file ≤ 256 * unvisited g f.visited := by
  rw [nextPosition] at h ⊢
  dsimp only at h ⊢
  by_cases ht : f.fs.sectBuffer.get 0 ≠ 0
  · rw [if_pos ht] at h ⊢
    exact visit_remaining hstate rfl h
  · rw [if_neg ht] at h ⊢
    cases hc : f.cvt with
    | none => exact (remaining_ended rfl).trans_le (Nat.zero_le _)
    | some c =>
        rw [hc] at h
        dsimp only at h ⊢
        by_cases hm : f.mergeCvtSector = true
        · rw [if_pos hm] at h ⊢
          by_cases h0 : (nextSection c (c.records + 1) c.currentSection f.currentTrack
              f.currentSector).2.1 = 0
          · rw [if_pos h0]
            exact (remaining_ended rfl).trans_le (Nat.zero_le _)
          · rw [if_neg h0] at h ⊢
            exact visit_remaining hstate rfl h
        · rw [if_neg hm]
          exact (remaining_ended rfl).trans_le (Nat.zero_le _)

theorem bytesLeft_le {f : FileInCBM} {left : Nat} (h : f.bytesLeft = some left) :
    left ≤ 256 - f.offsetInSector := by
  rw [bytesLeft] at h
  split at h
  · cases h
    exact Nat.le_refl _
  · split at h
    · exact nomatch h
    · cases h
      have := (f.fs.sectBuffer.get 1).toNat_lt
      omega

theorem readInView_remaining {len : Nat} {f : FileInCBM} (hstate : f.state ≠ .header)
    (h : (f.readInView g len).res = .ok) :
    remaining g (f.readInView g len).file + (f.readInView g len).bytes.length
      ≤ 256 * unvisited g f.visited + (256 - f.offsetInSector) := by
  rw [readInView] at h ⊢
  cases hb : f.bytesLeft with
  | none =>
      rw [hb] at h
      exact nomatch h
  | some left =>
      have hle := bytesLeft_le hb
      rw [hb] at h
      dsimp only at h ⊢
      by_cases hend : f.offsetInSector + min left len = 256
      · rw [if_pos hend] at h ⊢
        have hnext : remaining g ((f.advance (min left len)).nextPosition g).file
            ≤ 256 * unvisited g f.visited :=
          nextPosition_remaining (f := f.advance (min left len)) hstate h
        dsimp only
        rw [Buffer.length_slice]
        omega
      · rw [if_neg hend]
        have hrest : remaining g (f.advance (min left len))
            ≤ 256 * unvisited g f.visited + (256 - (f.offsetInSector + min left len)) :=
          remaining_le (f := f.advance (min left len)) hstate
        dsimp only
        rw [Buffer.length_slice]
        omega

/-- What `read_linear` takes is no longer left. -/
theorem readLinear_remaining {len : Nat} {f : FileInCBM}
    (hstate : f.state = .linear ∨ f.state = .cvt) (h : (f.readLinear g len).res = .ok) :
    remaining g (f.readLinear g len).file + (f.readLinear g len).bytes.length
      ≤ remaining g f := by
  have hold : remaining g f = 256 * unvisited g f.visited + (256 - f.offsetInSector) := by
    rw [remaining]
    rcases hstate with hs | hs <;> rw [hs]
  have hne : f.state ≠ .header := by
    rcases hstate with hs | hs <;> rw [hs] <;> decide
  rw [hold]
  rw [readLinear, moveTo] at h ⊢
  rcases hx : f.fs.moveWindow g (absSector g f.currentTrack f.currentSector) with ⟨res, fs⟩
  rw [hx] at h
  cases res
  case ok => exact readInView_remaining (f := { f with fs := fs }) hne h
  all_goals exact nomatch h

theorem readHeader_remaining {len : Nat} {f : FileInCBM} (hstate : f.state = .header) :
    remaining g (f.readHeader len).file + (f.readHeader len).bytes.length
      ≤ remaining g f := by
  have hold : remaining g f = f.header.size - f.header.pos + (256 * unvisited g f.visited +
      (256 - f.offsetInSector)) := by
    rw [remaining, hstate]
  rw [hold, readHeader, Buffer.length_slice, remaining]
  dsimp only
  by_cases hend : f.header.pos + min (f.header.size - f.header.pos) len = f.header.size
  · rw [if_pos hend]
    dsimp only
    omega
  · rw [if_neg hend, hstate]
    dsimp only
    omega

theorem readStep_remaining {len : Nat} {f : FileInCBM} (h : (f.readStep g len).res = .ok) :
    remaining g (f.readStep g len).file + (f.readStep g len).bytes.length
      ≤ remaining g f := by
  rw [readStep] at h ⊢
  cases hs : f.state with
  | header => exact readHeader_remaining hs
  | linear =>
      rw [hs] at h
      exact readLinear_remaining (Or.inl hs) h
  | cvt =>
      rw [hs] at h
      exact readLinear_remaining (Or.inr hs) h
  | ended => exact Nat.le_refl _

theorem readLoop_isSome : ∀ (rounds len : Nat) (f : FileInCBM), len ≤ rounds →
    ∃ r, readLoop g rounds len f = some r := by
  intro rounds
  induction rounds with
  | zero =>
      intro len f hle
      rw [readLoop, if_pos (Nat.le_zero.mp hle)]
      exact ⟨_, rfl⟩
  | succ rounds ih =>
      intro len f hle
      rw [readLoop]
      by_cases h0 : len = 0
      · rw [if_pos h0]
        exact ⟨_, rfl⟩
      · rw [if_neg h0]
        dsimp only
        by_cases hres : (f.readStep g len).res ≠ .ok
        · rw [if_pos hres]
          exact ⟨_, rfl⟩
        · rw [if_neg hres]
          by_cases hb : (f.readStep g len).bytes = []
          · rw [if_pos hb]
            exact ⟨_, rfl⟩
          · have hpos := List.length_pos_iff.mpr hb
            obtain ⟨r, hr⟩ := ih (len - (f.readStep g len).bytes.length)
              (f.readStep g len).file (by omega)
            rw [if_neg hb, hr]
            exact ⟨_, rfl⟩

/-- Every call of `read` returns. -/
theorem read_isSome (len : Nat) (f : FileInCBM) : ∃ r, f.read g len = some r :=
  readLoop_isSome len len f (Nat.le_refl _)

theorem readLoop_remaining : ∀ (rounds len : Nat) (f : FileInCBM) (r : ReadReply),
    readLoop g rounds len f = some r → r.res = .ok →
    remaining g r.file + r.bytes.length ≤ remaining g f := by
  intro rounds
  induction rounds with
  | zero =>
      intro len f r h _
      rw [readLoop] at h
      split at h
      · cases h
        exact Nat.le_refl _
      · exact nomatch h
  | succ rounds ih =>
      intro len f r h hok
      rw [readLoop] at h
      by_cases h0 : len = 0
      · rw [if_pos h0] at h
        cases h
        exact Nat.le_refl _
      · rw [if_neg h0] at h
        dsimp only at h
        by_cases hres : (f.readStep g len).res ≠ .ok
        · rw [if_pos hres] at h
          cases h
          exact absurd hok hres
        · rw [if_neg hres] at h
          have hstep := readStep_remaining (not_not.mp hres)
          by_cases hb : (f.readStep g len).bytes = []
          · rw [if_pos hb] at h
            cases h
            dsimp only
            rw [hb] at hstep
            exact hstep
          · rw [if_neg hb] at h
            cases hx : readLoop g rounds (len - (f.readStep g len).bytes.length)
                (f.readStep g len).file with
            | none =>
                rw [hx] at h
                exact nomatch h
            | some rest =>
                rw [hx] at h
                cases h
                have := ih _ _ rest hx hok
                dsimp only
                rw [List.length_append]
                omega

/-- Read until `read` takes nothing or fails, `cut i` bytes in call `i`. -/
def readToEnd (g : Geometry) (cut : Nat → Nat) : Nat → Nat → FileInCBM → Option ReadReply
  | 0, _, _ => none
  | fuel + 1, i, f =>
      match f.read g (cut i) with
      | none => none
      | some r =>
          if r.res ≠ .ok then some ⟨r.res, [], r.file⟩
          else if r.bytes = [] then some ⟨.ok, [], r.file⟩
          else
            match readToEnd g cut fuel (i + 1) r.file with
            | none => none
            | some rest => some ⟨rest.res, r.bytes ++ rest.bytes, rest.file⟩

/-- Reading to the end takes no more calls than there are bytes left. -/
theorem readToEnd_isSome (cut : Nat → Nat) :
    ∀ (fuel i : Nat) (f : FileInCBM), remaining g f < fuel →
      ∃ r, readToEnd g cut fuel i f = some r := by
  intro fuel
  induction fuel with
  | zero => exact fun i f h => absurd h (Nat.not_lt_zero _)
  | succ fuel ih =>
      intro i f hlt
      obtain ⟨r, hr⟩ := read_isSome (g := g) (cut i) f
      rw [readToEnd, hr]
      dsimp only
      by_cases hres : r.res ≠ .ok
      · rw [if_pos hres]
        exact ⟨_, rfl⟩
      · rw [if_neg hres]
        by_cases hb : r.bytes = []
        · rw [if_pos hb]
          exact ⟨_, rfl⟩
        · have hpos := List.length_pos_iff.mpr hb
          have hrem := readLoop_remaining _ _ _ _ hr (not_not.mp hres)
          obtain ⟨rest, hrest⟩ := ih (i + 1) r.file (by omega)
          rw [if_neg hb, hrest]
          exact ⟨_, rfl⟩

/-! ## Position and size -/

theorem seekLoop_isSome : ∀ (rounds pos : Nat) (f : FileInCBM), pos / 254 < rounds →
    ∃ r, seekLoop g rounds pos f = some r := by
  intro rounds
  induction rounds with
  | zero => exact fun pos f h => absurd h (Nat.not_lt_zero _)
  | succ rounds ih =>
      intro pos f hlt
      rw [seekLoop]
      by_cases hpos : pos < 254
      · rw [if_pos hpos]
        exact ⟨_, rfl⟩
      · rw [if_neg hpos]
        rcases f.visit g with ⟨res, f₁⟩
        cases res
        case ok =>
          dsimp only
          rcases f₁.moveTo g f₁.currentTrack f₁.currentSector with ⟨res, f₂⟩
          cases res
          case ok =>
            dsimp only
            split
            · exact ih _ _ (by omega)
            · exact ⟨_, rfl⟩
          all_goals exact ⟨_, rfl⟩
        all_goals exact ⟨_, rfl⟩

theorem seekChain_isSome (junk : Indeterminate) (pos : Nat) (f : FileInCBM) :
    ∃ r, seekChain g junk pos f = some r := by
  rw [seekChain]
  cases f.side with
  | none => exact seekLoop_isSome _ _ _ (Nat.lt_succ_self _)
  | some ss => exact ⟨_, rfl⟩

/-- Every call of `seek` returns. -/
theorem seek_isSome (junk : Indeterminate) (pos : Nat) (f : FileInCBM) :
    ∃ r, f.seek g junk pos = some r := by
  rw [seek]
  dsimp only
  split
  · exact ⟨_, rfl⟩
  · split
    · split
      · exact seekChain_isSome junk _ _
      · exact seekChain_isSome junk _ _
    · exact ⟨_, rfl⟩

/-- The loop of `get_size` visits no more sectors than are left to visit. -/
theorem sizeLoop_isSome : ∀ (rounds ct cs : Nat) (visited : Nat → Bool) (fs : Fs),
    unvisited g visited < rounds → ∃ r, sizeLoop g rounds ct cs visited fs = some r := by
  intro rounds
  induction rounds with
  | zero => exact fun ct cs visited fs h => absurd h (Nat.not_lt_zero _)
  | succ rounds ih =>
      intro ct cs visited fs hlt
      rw [sizeLoop]
      cases ha : absSector g ct cs with
      | none => exact ⟨_, rfl⟩
      | some a =>
          dsimp only
          cases hv : visited a with
          | true => exact ⟨_, rfl⟩
          | false =>
              rw [if_neg (by decide)]
              rcases fs.moveWindow g (some a) with ⟨res, fs'⟩
              cases res
              case ok =>
                dsimp only
                split
                · have := unvisited_update (absSector_lt ha) hv
                  obtain ⟨r, hr⟩ := ih (fs'.sectBuffer.get 0).toNat
                    (fs'.sectBuffer.get 1).toNat (Function.update visited a true) fs' (by omega)
                  rw [hr]
                  exact ⟨_, rfl⟩
                · exact ⟨_, rfl⟩
              all_goals exact ⟨_, rfl⟩

/-- Every call of `get_size` returns. -/
theorem getSize_isSome (junk : Indeterminate) (f : FileInCBM) :
    ∃ r, f.getSize g junk = some r := by
  rw [getSize]
  cases f.side with
  | some ss => exact ⟨_, rfl⟩
  | none =>
      dsimp only
      split
      · exact ⟨_, rfl⟩
      · next ct cs _ =>
          obtain ⟨r, hr⟩ := sizeLoop_isSome (g.numSectors + 1) ct cs (fun _ => false) f.fs
            (Nat.lt_succ_of_le (unvisited_le _))
          rw [hr]
          exact ⟨_, rfl⟩

/-! ## Opening and using a file -/

/-- The handles a client gets by calling `read`, `seek` and `get_size`. -/
inductive Used (g : Geometry) (junk : Indeterminate) : FileInCBM → FileInCBM → Prop where
  | refl (f : FileInCBM) : Used g junk f f
  | read {f f' : FileInCBM} {len : Nat} {r : ReadReply} :
      Used g junk f f' → f'.read g len = some r → Used g junk f r.file
  | seek {f f' : FileInCBM} {pos : Nat} {r : Reply} :
      Used g junk f f' → f'.seek g junk pos = some r → Used g junk f r.file
  | getSize {f f' : FileInCBM} {r : Nat × FileInCBM} :
      Used g junk f f' → f'.getSize g junk = some r → Used g junk f r.2

/-- Reading to the end, `seek` and `get_size` return. -/
structure Returns (g : Geometry) (junk : Indeterminate) (f : FileInCBM) : Prop where
  readToEnd : ∀ cut : Nat → Nat, ∃ fuel r, readToEnd g cut fuel 0 f = some r
  seek : ∀ pos, ∃ r, f.seek g junk pos = some r
  getSize : ∃ r, f.getSize g junk = some r

theorem returns (junk : Indeterminate) (f : FileInCBM) : Returns g junk f where
  readToEnd := by
    intro cut
    obtain ⟨r, hr⟩ := readToEnd_isSome (g := g) cut (remaining g f + 1) 0 f (Nat.lt_succ_self _)
    exact ⟨_, r, hr⟩
  seek := fun pos => seek_isSome junk pos f
  getSize := getSize_isSome junk f

/-- **OPENING TERMINATES**: on every image and for every directory entry, `open`
    returns, and so does all use of the handle, if and only if none of the
    chains `open` follows comes back to a sector. -/
theorem openFile_returns_iff (junk : Indeterminate) {fs : Fs} (hs : fs.Settled g)
    (de : DirEntryCBM) (dirTrack dirSector dirIndex : Nat) (flags : UInt8) :
    (∃ fuel r, openFile g junk fuel flags (new g fs de dirTrack dirSector dirIndex) = some r ∧
      ∀ f, Used g junk r.file f → Returns g junk f) ↔
    FollowsNoCycle g fs.disk de flags := by
  constructor
  · rintro ⟨fuel, r, h, -⟩
    exact openFile_acyclic hs h
  · intro hac
    obtain ⟨enough, hreturns⟩ := openFile_returns junk hac
    obtain ⟨r, hr⟩ := hreturns enough (Nat.le_refl _)
      (new g fs de dirTrack dirSector dirIndex) hs rfl rfl
    exact ⟨enough, r, hr, fun f _ => returns junk f⟩

/-- A closed USR file with an info block at 17/1, sequential, at 17/0. -/
def geosSequential : DirEntryCBM :=
  ((((Buffer.zero.set 2 0x83).set 3 17).set 4 0).set 21 17).set 22 1

/-- Sector 17/0 (number 336) is the only one of its chain. -/
def onlyBlock (a : Nat) : Block := if a = 336 then Buffer.zero.set 1 0xFF else Buffer.zero

/-- Sector 17/0 links to itself. -/
def selfLinked (a : Nat) : Block := if a = 336 then Buffer.zero.set 0 17 else Buffer.zero

/-- A GEOS file of one block can be opened and used. -/
theorem openFile_returns_onlyBlock :
    ∃ fuel r, openFile ⟨.d64, 683⟩ ⟨0, 0, 0⟩ fuel 0
        (new ⟨.d64, 683⟩ (mounted onlyBlock) geosSequential 18 1 0) = some r ∧
      ∀ f, Used ⟨.d64, 683⟩ ⟨0, 0, 0⟩ r.file f → Returns ⟨.d64, 683⟩ ⟨0, 0, 0⟩ f := by
  refine (openFile_returns_iff ⟨0, 0, 0⟩ (mounted_settled _ onlyBlock) geosSequential
    18 1 0 0).mpr ⟨fun h => absurd h (by decide), fun _ _ _ _ => ?_,
      fun _ _ h => absurd h (by decide)⟩
  refine links_end_iff.mp ⟨1, ?_⟩
  decide

/-- A GEOS file whose first block links to itself is never opened. -/
theorem openFile_selfLinked_never_returns :
    (mounted selfLinked).Settled ⟨.d64, 683⟩ ∧
    ¬ ∃ fuel r, openFile ⟨.d64, 683⟩ ⟨0, 0, 0⟩ fuel 0
      (new ⟨.d64, 683⟩ (mounted selfLinked) geosSequential 18 1 0) = some r := by
  refine ⟨mounted_settled _ selfLinked, ?_⟩
  rintro ⟨fuel, r, h⟩
  have hac := (openFile_acyclic (mounted_settled _ selfLinked) h).data (by decide) (by decide)
    (by decide) (by decide)
  have hsame := hac 0 1 336 (by decide) (by decide)
  exact absurd hsame (by decide)

end FileInCBM

end CbmFile
