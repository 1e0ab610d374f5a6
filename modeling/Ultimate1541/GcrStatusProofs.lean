import Ultimate1541.GcrRoundTripProofs
import Ultimate1541.BinImageProofs

/-! # The status pairs of a track

    The decoder puts out a pair for each header: the number of the sector, and
    what became of it, which is its data or an error.  `write_track` takes as
    many pairs for error bytes as there were data blocks, from the first one on.
    So an error pair in front pushes a pair of a sector out (`writeTrack_records_iff`). -/

namespace GcrDecode

/-! ## The headers and their answers -/

/-- The checksum behind 256 bytes is theirs. -/
def Good (b : Nat → UInt8) : Prop :=
  (List.range 256).foldl (fun chk i => chk ^^^ b i) 0 = b 256

instance (b : Nat → UInt8) : Decidable (Good b) :=
  inferInstanceAs (Decidable (List.foldl _ _ _ = b 256))

/-- What becomes of a header: its data is stored, or an error is noted. -/
inductive Answer where
  | data (b : Nat → UInt8)
  | error (result : UInt8)

/-- The sector number of a header with what became of it. -/
structure Entry where
  sector : Nat
  answer : Answer

namespace Entry

def isData (e : Entry) : Bool :=
  match e.answer with
  | .data _ => true
  | .error _ => false

/-- The result in the status pair. -/
def result (e : Entry) : UInt8 :=
  match e.answer with
  | .data b => if Good b then 0 else 0xE3
  | .error result => result

/-- The status pair. -/
def pair (e : Entry) : List UInt8 := [UInt8.ofNat e.sector, e.result]

/-- The data stored. -/
def store (r : Request) (mem : Nat → UInt8) (e : Entry) : Nat → UInt8 :=
  match e.answer with
  | .data b => Scan.store mem (r.bin + 256 * e.sector) b
  | .error _ => mem

end Entry

namespace Scan

/-- The sector that data is expected for. -/
def pending (r : Request) (s : Scan) : Nat := (s.dest - r.bin) / 256

/-- The header before, when another one comes where its data was expected. -/
def unanswered (r : Request) (s : Scan) : List Entry :=
  if s.expectData then [⟨s.pending r, .error 0xE4⟩] else []

/-- A header that is rejected. -/
def refused (r : Request) (t n : Nat) (s : Scan) : List Entry :=
  if (t = r.trackNumber ∧ n < r.maxSector) ∨ (s.noted n).statlen = 0 then []
  else [⟨n, .error (headerError r t)⟩]

/-- The headers answered by the block at the sync `q`. -/
def answers (d : Decoder) (t : Track) (r : Request) (q : Nat) (s : Scan) : List Entry :=
  if t.mark d q = 8 then s.unanswered r ++ s.refused r (t.headerTrack d q) (t.headerSector d q)
  else if t.mark d q = 7 ∧ s.expectData then [⟨s.pending r, .data (t.data d q)⟩]
  else []

end Scan

/-- The headers answered in a round. -/
def answers (d : Decoder) (t : Track) (r : Request) (s : Scan) : List Entry :=
  match t.findSync s.current with
  | none => []
  | some q => (s.found q).answers d t r q

/-- The headers of a track in the order in which they are answered. -/
def log (d : Decoder) (fuel : Nat) (t : Track) (r : Request) (mem : Nat → UInt8) : List Entry :=
  Loop.trace (step d t r) (answers d t r) fuel (Scan.start mem 64)

/-! ## What the scan has written -/

namespace Scan

/-- The status bytes are the first 64 of these. -/
structure Wrote (l : List UInt8) (s : Scan) : Prop where
  status : s.status = l.take 64
  statlen : s.statlen = 64 - l.length

theorem Wrote.put {l : List UInt8} {s : Scan} (h : Wrote l s) (b : UInt8) :
    Wrote (l ++ [b]) (s.put b) := by
  by_cases hroom : 0 < s.statlen
  · have hlen : l.length < 64 := by have := h.statlen; omega
    rw [put_of_room hroom]
    constructor
    · show s.status ++ [b] = _
      rw [h.status, List.take_of_length_le (by omega), List.take_of_length_le]
      rw [List.length_append, List.length_singleton]
      omega
    · show s.statlen - 1 = _
      rw [h.statlen, List.length_append, List.length_singleton]
      omega
  · have hlen : 64 ≤ l.length := by have := h.statlen; omega
    rw [put_of_full (by omega)]
    constructor
    · rw [h.status, List.take_append_of_le_length hlen]
    · rw [h.statlen, List.length_append, List.length_singleton]
      omega

/-- The number of a header that is not answered yet. -/
def opening (r : Request) (s : Scan) : List UInt8 :=
  if s.expectData then [UInt8.ofNat (s.pending r)] else []

/-- A header is noted: the one before gets its answer. -/
theorem Wrote.noted {r : Request} {l : List UInt8} {s : Scan} (h : Wrote (l ++ s.opening r) s)
    (n : Nat) :
    Wrote (l ++ (s.unanswered r).flatMap Entry.pair ++ [UInt8.ofNat n]) (s.noted n) := by
  rw [Scan.noted, putExpected]
  refine Wrote.put ?_ _
  rw [opening] at h
  rw [unanswered]
  by_cases hexp : s.expectData = true
  · rw [if_pos hexp] at h ⊢
    rw [if_pos hexp]
    have hput := h.put 0xE4
    rw [List.append_assoc] at hput
    exact hput
  · rw [if_neg hexp] at h ⊢
    rw [if_neg hexp]
    exact h

/-- The scan when the data of a sector is stored. -/
def stored (b : Nat → UInt8) (s : Scan) : Scan :=
  { s with expectData := false, secs := s.secs + 1, mem := store s.mem s.dest b }

/-- A data block, with room for its result. -/
theorem dataBlock_of_room {b : Nat → UInt8} {pntr : Nat} {s : Scan} (hroom : 0 < s.statlen) :
    s.dataBlock b pntr = { (s.stored b).put (if Good b then 0 else 0xE3) with
      current := if Good b then pntr else s.current } := by
  have hblock : s.dataBlock b pntr = if 0 < s.statlen then
      if ¬ Good b then (s.stored b).put 0xE3 else { (s.stored b).put 0 with current := pntr }
      else s.stored b := by
    show _ = if 0 < s.statlen then if ¬ List.foldl _ _ _ = b 256 then _ else _ else _
    rw [← checksum_store s.mem b s.dest]
    rfl
  rw [hblock, if_pos hroom]
  by_cases hgood : Good b
  · rw [if_neg (not_not.mpr hgood), if_pos hgood, if_pos hgood]
  · rw [if_pos hgood, if_neg hgood, if_neg hgood,
      put_of_room (show 0 < (s.stored b).statlen from hroom)]
    rfl

theorem dataBlock_of_full {b : Nat → UInt8} {pntr : Nat} {s : Scan} (hfull : s.statlen = 0) :
    s.dataBlock b pntr = s.stored b := by
  rw [dataBlock]
  exact if_neg (by show ¬ 0 < s.statlen; omega)

/-- A data block puts the result of its checksum. -/
theorem dataBlock_wrote (b : Nat → UInt8) (pntr : Nat) {l : List UInt8} {s : Scan}
    (h : Wrote l s) : Wrote (l ++ [if Good b then 0 else 0xE3]) (s.dataBlock b pntr) := by
  have hput : Wrote (l ++ [if Good b then 0 else 0xE3])
      ((s.stored b).put (if Good b then 0 else 0xE3)) :=
    Wrote.put (s := s.stored b) ⟨h.status, h.statlen⟩ _
  rcases Nat.eq_zero_or_pos s.statlen with hfull | hroom
  · rw [dataBlock_of_full hfull]
    rw [put_of_full (show (s.stored b).statlen = 0 from hfull)] at hput
    exact hput
  · rw [dataBlock_of_room hroom]
    exact ⟨hput.status, hput.statlen⟩

end Scan

/-- The log holds all that the scan has done. -/
structure Logged (r : Request) (mem₀ : Nat → UInt8) (l : List Entry) (s : Scan) : Prop where
  wrote : s.Wrote (l.flatMap Entry.pair ++ s.opening r)
  secs : s.secs = l.countP Entry.isData
  mem : s.mem = l.foldl (Entry.store r) mem₀
  dest : s.expectData = true → s.dest = r.bin + 256 * s.pending r ∧ s.pending r < 256
  sector : ∀ e ∈ l, e.sector < 256
  error : ∀ n, ⟨n, .error 0⟩ ∉ l

/-- Before the first header. -/
theorem logged_start (r : Request) (mem₀ : Nat → UInt8) : Logged r mem₀ [] (Scan.start mem₀ 64) where
  wrote := ⟨rfl, rfl⟩
  secs := rfl
  mem := rfl
  dest h := absurd h Bool.false_ne_true
  sector _ h := absurd h List.not_mem_nil
  error _ h := absurd h List.not_mem_nil

/-- Answers that are errors. -/
def Errors (l : List Entry) : Prop := ∀ e ∈ l, e.sector < 256 ∧ ∃ c, c ≠ 0 ∧ e.answer = .error c

/-- Errors store nothing and count for nothing. -/
theorem Errors.foldl_store {l : List Entry} (h : Errors l) (r : Request) (mem : Nat → UInt8) :
    l.foldl (Entry.store r) mem = mem := by
  induction l with
  | nil => rfl
  | cons e l ih =>
      obtain ⟨_, c, _, hc⟩ := h e List.mem_cons_self
      rw [List.foldl_cons, Entry.store, hc]
      exact ih fun e he => h e (List.mem_cons_of_mem _ he)

theorem Errors.countP_isData {l : List Entry} (h : Errors l) : l.countP Entry.isData = 0 := by
  rw [List.countP_eq_zero]
  intro e he
  obtain ⟨_, c, _, hc⟩ := h e he
  rw [Entry.isData, hc]
  exact Bool.false_ne_true

theorem Errors.append {l l' : List Entry} (h : Errors l) (h' : Errors l') : Errors (l ++ l') :=
  fun e he => (List.mem_append.mp he).elim (h e) (h' e)

theorem errors_unanswered {r : Request} {s : Scan} (h : s.expectData = true → s.pending r < 256) :
    Errors (s.unanswered r) := by
  intro e he
  rw [Scan.unanswered] at he
  by_cases hexp : s.expectData = true
  · rw [if_pos hexp] at he
    obtain rfl := List.mem_singleton.mp he
    exact ⟨h hexp, 0xE4, by decide, rfl⟩
  · rw [if_neg hexp] at he
    exact absurd he List.not_mem_nil

theorem errors_refused (r : Request) (t : Nat) {n : Nat} (hn : n < 256) (s : Scan) :
    Errors (s.refused r t n) := by
  intro e he
  rw [Scan.refused] at he
  split at he
  · exact absurd he List.not_mem_nil
  · obtain rfl := List.mem_singleton.mp he
    refine ⟨hn, Scan.headerError r t, ?_, rfl⟩
    rw [Scan.headerError]
    split <;> decide

/-- A header adds errors to the log, or leaves it. -/
theorem Logged.append_errors {r : Request} {mem₀ : Nat → UInt8} {l l' : List Entry} {s s' : Scan}
    (h : Logged r mem₀ l s) (herr : Errors l')
    (hwrote : s'.Wrote ((l ++ l').flatMap Entry.pair ++ s'.opening r))
    (hsecs : s'.secs = s.secs) (hmem : s'.mem = s.mem)
    (hdest : s'.expectData = true → s'.dest = r.bin + 256 * s'.pending r ∧ s'.pending r < 256) :
    Logged r mem₀ (l ++ l') s' where
  wrote := hwrote
  secs := by rw [hsecs, h.secs, List.countP_append, herr.countP_isData, Nat.add_zero]
  mem := by rw [hmem, h.mem, List.foldl_append, herr.foldl_store]
  dest := hdest
  sector e he := (List.mem_append.mp he).elim (h.sector e) fun he => (herr e he).1
  error n hn := by
    rcases List.mem_append.mp hn with hn | hn
    · exact h.error n hn
    · obtain ⟨_, c, hc, heq⟩ := herr _ hn
      exact hc (Answer.error.inj heq).symm

/-- The round of a header. -/
theorem Logged.header {r : Request} {mem₀ : Nat → UInt8} {l : List Entry} {s : Scan}
    (h : Logged r mem₀ l s) (t : Nat) {n : Nat} (pntr : Nat) (hn : n < 256) :
    Logged r mem₀ (l ++ (s.unanswered r ++ s.refused r t n)) (s.header r t n pntr) := by
  have hnoted := h.wrote.noted n
  have herr : Errors (s.unanswered r ++ s.refused r t n) :=
    (errors_unanswered fun hexp => (h.dest hexp).2).append (errors_refused r t hn s)
  have hpending : (r.bin + 256 * n - r.bin) / 256 = n := by
    rw [Nat.add_sub_cancel_left, Nat.mul_div_cancel_left n (by decide)]
  by_cases hacc : (t = r.trackNumber ∧ n < r.maxSector) ∨ (s.noted n).statlen = 0
  · rw [Scan.header_accepted hacc]
    refine h.append_errors herr ?_ (Scan.noted_secs n s) (Scan.noted_mem n s) ?_
    · rw [Scan.refused, if_pos hacc, List.append_nil, List.flatMap_append]
      refine ⟨hnoted.status.trans ?_, hnoted.statlen.trans ?_⟩ <;>
      · show _ = _
        rw [Scan.opening, if_pos rfl, Scan.pending, hpending]
    · intro _
      rw [Scan.pending, hpending]
      exact ⟨rfl, hn⟩
  · have hroom : 0 < (s.noted n).statlen := by
      rw [not_or] at hacc
      omega
    rw [Scan.header_rejected (not_or.mp hacc).1 hroom]
    refine h.append_errors herr ?_ ((Scan.put_secs _ _).trans (Scan.noted_secs n s))
      ((Scan.put_mem _ _).trans (Scan.noted_mem n s)) fun hexp => absurd hexp Bool.false_ne_true
    have hput := hnoted.put (Scan.headerError r t)
    have hlist : (l ++ (s.unanswered r ++ s.refused r t n)).flatMap Entry.pair
        = l.flatMap Entry.pair ++ (s.unanswered r).flatMap Entry.pair ++ [UInt8.ofNat n]
          ++ [Scan.headerError r t] := by
      rw [Scan.refused, if_neg hacc, List.flatMap_append, List.flatMap_append]
      simp [Entry.pair, Entry.result]
    rw [hlist]
    refine ⟨hput.status.trans ?_, hput.statlen.trans ?_⟩ <;>
    · show _ = _
      rw [Scan.opening, if_neg Bool.false_ne_true, List.append_nil]

/-- The round of a data block. -/
theorem Logged.dataBlock {r : Request} {mem₀ : Nat → UInt8} {l : List Entry} {s : Scan}
    (h : Logged r mem₀ l s) (hexp : s.expectData = true) (b : Nat → UInt8) (pntr : Nat) :
    Logged r mem₀ (l ++ [⟨s.pending r, .data b⟩]) (s.dataBlock b pntr) where
  wrote := by
    have hwrote := h.wrote
    rw [Scan.opening, if_pos hexp] at hwrote
    rw [Scan.opening, Scan.dataBlock_expectData, if_neg Bool.false_ne_true, List.append_nil,
      List.flatMap_append]
    have hblock := Scan.dataBlock_wrote b pntr hwrote
    rw [List.append_assoc] at hblock
    exact hblock
  secs := by rw [Scan.dataBlock_secs, h.secs, List.countP_append]; rfl
  mem := by
    rw [Scan.dataBlock_mem, h.mem, List.foldl_append, (h.dest hexp).1]
    rfl
  dest hexp' := absurd ((Scan.dataBlock_expectData _ _ _).symm.trans hexp') Bool.false_ne_true
  sector e he := by
    rcases List.mem_append.mp he with he | he
    · exact h.sector e he
    · obtain rfl := List.mem_singleton.mp he
      exact (h.dest hexp).2
  error n hn := by
    rcases List.mem_append.mp hn with hn | hn
    · exact h.error n hn
    · exact nomatch List.mem_singleton.mp hn

/-- One round keeps the log. -/
theorem Logged.next {d : Decoder} {t : Track} {r : Request} {mem₀ : Nat → UInt8} {l : List Entry}
    {s s' : Scan} (h : Logged r mem₀ l s) (hnext : Loop.Next (step d t r) s s') :
    Logged r mem₀ (l ++ answers d t r s) s' := by
  obtain ⟨_, q, hq, _, rfl⟩ := step_eq_some.mp hnext
  have hfound : Logged r mem₀ l (s.found q) :=
    ⟨⟨h.wrote.status, h.wrote.statlen⟩, h.secs, h.mem, h.dest, h.sector, h.error⟩
  rw [answers, hq]
  dsimp only
  rw [Scan.answers]
  by_cases h8 : t.mark d q = 8
  · rw [if_pos h8, Scan.block_header h8]
    exact hfound.header _ _ (UInt8.toNat_lt _)
  · rw [if_neg h8]
    by_cases h7 : t.mark d q = 7 ∧ (s.found q).expectData = true
    · rw [if_pos h7, Scan.block_data h7.1 h7.2]
      exact hfound.dataBlock h7.2 _ _
    · rw [if_neg h7, Scan.block_other h8 h7, List.append_nil]
      exact hfound

/-- The log of a whole run. -/
theorem logged_run {d : Decoder} {t : Track} {r : Request} {mem₀ : Nat → UInt8} {fuel : Nat}
    {s : Scan} (h : Loop.run (step d t r) fuel (Scan.start mem₀ 64) = some s) :
    Logged r mem₀ (log d fuel t r mem₀) s :=
  Loop.invariant_of_run (fun _ _ _ => Logged.next) h (logged_start r mem₀)

end GcrDecode

namespace BinImage

open GcrDecode

/-! ## What is recorded -/

/-- The pairs of the answered headers, one after the other. -/
theorem getD_pairs {l : List Entry} (rest : List UInt8) {i : Nat} {e : Entry} (h : l[i]? = some e) :
    (l.flatMap Entry.pair ++ rest).getD (2 * i) 0 = UInt8.ofNat e.sector ∧
      (l.flatMap Entry.pair ++ rest).getD (2 * i + 1) 0 = e.result := by
  induction l generalizing i with
  | nil => exact nomatch h
  | cons x l ih =>
      cases i with
      | zero =>
          obtain rfl : x = e := Option.some.inj h
          exact ⟨rfl, rfl⟩
      | succ i =>
          rw [List.getElem?_cons_succ] at h
          exact ih h

/-- The first 32 answered headers are in the status bytes. -/
theorem status_pair {r : Request} {mem₀ : Nat → UInt8} {l : List Entry} {s : Scan}
    (h : Logged r mem₀ l s) {i : Nat} (hi : i < 32) {e : Entry} (he : l[i]? = some e) :
    s.status.getD (2 * i) 0 = UInt8.ofNat e.sector ∧ s.status.getD (2 * i + 1) 0 = e.result := by
  have hpairs := getD_pairs (s.opening r) he
  have htake : ∀ j < 64, s.status.getD j 0 = (l.flatMap Entry.pair ++ s.opening r).getD j 0 := by
    intro j hj
    rw [h.wrote.status, List.getD_eq_getElem?_getD, List.getD_eq_getElem?_getD,
      List.getElem?_take_of_lt hj]
  rw [htake _ (by omega), htake _ (by omega)]
  exact hpairs

/-- Where the error byte of a sector is, if there is one. -/
def errorByte (img : BinImage) (lt k : Nat) : Option Nat :=
  match img.errors with
  | none => none
  | some errors =>
      if totalSectorsBeforeTrack lt img.doubleSided + k < img.errorSize then
        some (errors + totalSectorsBeforeTrack lt img.doubleSided + k)
      else none

theorem errorByte_inj {img : BinImage} {lt k m a : Nat} (h : img.errorByte lt k = some a)
    (h' : img.errorByte lt m = some a) : k = m := by
  rw [errorByte] at h h'
  cases herr : img.errors with
  | none => rw [herr] at h; exact nomatch h
  | some errors =>
      rw [herr] at h h'
      dsimp only at h h'
      split at h
      · split at h'
        · have := Option.some.inj h
          have := Option.some.inj h'
          omega
        · exact nomatch h'
      · exact nomatch h

/-- The last of the headers whose error byte is at `a`. -/
def lastAt (img : BinImage) (lt : Nat) (l : List Entry) (a : Nat) : Option Entry :=
  l.reverse.find? fun e => decide (img.errorByte lt e.sector = some a)

theorem lastAt_append (img : BinImage) (lt : Nat) (l : List Entry) (e : Entry) (a : Nat) :
    img.lastAt lt (l ++ [e]) a
      = if img.errorByte lt e.sector = some a then some e else img.lastAt lt l a := by
  rw [lastAt, List.reverse_append, List.reverse_singleton, List.singleton_append,
    List.find?_cons]
  by_cases h : img.errorByte lt e.sector = some a
  · rw [decide_eq_true h, if_pos h]
  · rw [decide_eq_false h, if_neg h]
    rfl

theorem lastAt_eq_some {img : BinImage} {lt : Nat} {l : List Entry} {a : Nat} {e : Entry}
    (h : img.lastAt lt l a = some e) : e ∈ l ∧ img.errorByte lt e.sector = some a := by
  have hfound : decide (img.errorByte lt e.sector = some a) = true :=
    List.find?_some (p := fun e : Entry => decide (img.errorByte lt e.sector = some a)) h
  exact ⟨List.mem_reverse.mp (List.mem_of_find?_eq_some h), of_decide_eq_true hfound⟩

/-- One status pair. -/
theorem recordError_apply (img : BinImage) (lt : Nat) {e : Entry} (he : e.sector < 256)
    (mem : Nat → UInt8) (a : Nat) :
    img.recordError (totalSectorsBeforeTrack lt img.doubleSided) (UInt8.ofNat e.sector) e.result
      mem a = if img.errorByte lt e.sector = some a then e.result else mem a := by
  rw [recordError, errorByte]
  cases img.errors with
  | none => rfl
  | some errors =>
      dsimp only
      rw [UInt8.toNat_ofNat_of_lt' he]
      split
      · by_cases ha : errors + totalSectorsBeforeTrack lt img.doubleSided + e.sector = a
        · rw [if_pos (congrArg some ha), ha, Function.update_self]
        · rw [if_neg fun h => ha (Option.some.inj h), Function.update_of_ne (Ne.symm ha)]
      · rw [if_neg fun h => nomatch h]

/-- An error byte has the result of the last header that is recorded there. -/
theorem recordErrors_apply (img : BinImage) (lt : Nat) {status : List UInt8} {l : List Entry}
    (hsector : ∀ e ∈ l, e.sector < 256) {n : Nat} (hn : n ≤ l.length)
    (hstatus : ∀ i < n, ∀ e, l[i]? = some e →
      status.getD (2 * i) 0 = UInt8.ofNat e.sector ∧ status.getD (2 * i + 1) 0 = e.result)
    (mem : Nat → UInt8) (a : Nat) :
    img.recordErrors (totalSectorsBeforeTrack lt img.doubleSided) status n mem a
      = ((img.lastAt lt (l.take n) a).map Entry.result).getD (mem a) := by
  induction n with
  | zero => rfl
  | succ n ih =>
      have hlt : n < l.length := hn
      have he : l[n]? = some l[n] := List.getElem?_eq_getElem hlt
      obtain ⟨hnum, hres⟩ := hstatus n (Nat.lt_succ_self n) l[n] he
      rw [recordErrors, hnum, hres,
        img.recordError_apply lt (hsector _ (List.getElem_mem hlt)),
        ih (Nat.le_of_succ_le hn) fun i hi => hstatus i (Nat.lt_succ_of_lt hi),
        ← List.take_concat_get' l n hlt, lastAt_append]
      split <;> rfl

/-- Data stored for other sectors leaves a sector alone. -/
theorem foldl_store_other {r : Request} {k : Nat} {l : List Entry}
    (h : k ∉ (l.filter Entry.isData).map Entry.sector) (mem : Nat → UInt8) {i : Nat} (hi : i < 256) :
    l.foldl (Entry.store r) mem (r.bin + 256 * k + i) = mem (r.bin + 256 * k + i) := by
  induction l generalizing mem with
  | nil => rfl
  | cons e l ih =>
      obtain ⟨m, answer⟩ := e
      cases answer with
      | error c => exact ih h mem
      | data b =>
          have hne : m ≠ k := fun hm => h (hm ▸ List.mem_cons_self)
          have hrest := ih (fun hk => h (List.mem_cons_of_mem m hk))
            (Entry.store r mem ⟨m, .data b⟩)
          refine hrest.trans (store_other ?_)
          show _ < r.bin + 256 * m ∨ r.bin + 256 * m + 256 ≤ _
          omega

/-- A sector whose data was stored once has it. -/
theorem foldl_store_once {r : Request} {k : Nat} {b : Nat → UInt8} {l : List Entry}
    (honce : ((l.filter Entry.isData).map Entry.sector).Nodup) (h : ⟨k, .data b⟩ ∈ l)
    (mem : Nat → UInt8) {i : Nat} (hi : i < 256) :
    l.foldl (Entry.store r) mem (r.bin + 256 * k + i) = b i := by
  induction l generalizing mem with
  | nil => exact absurd h List.not_mem_nil
  | cons e l ih =>
      rcases List.mem_cons.mp h with rfl | h
      · exact (foldl_store_other (List.nodup_cons.mp honce).1 _ hi).trans (store_inside hi)
      · refine ih ?_ h _
        obtain ⟨m, answer⟩ := e
        cases answer with
        | error c => exact honce
        | data b => exact (List.nodup_cons.mp honce).2

/-! ## When the record is right -/

/-- Sector `k` has the data of a block, and its error byte is zero if the checksum of
    this block is right and only then. -/
def Recorded (img : BinImage) (lt bin : Nat) (mem : Nat → UInt8) (k : Nat) (b : Nat → UInt8) :
    Prop :=
  (∀ i < 256, mem (bin + 256 * k + i) = b i) ∧
    ∀ a, img.errorByte lt k = some a → (mem a = 0 ↔ Good b)

/-- Each sector of a track is recorded from a block that was decoded under its header. -/
def Records (img : BinImage) (lt bin : Nat) (l : List Entry) (mem : Nat → UInt8) : Prop :=
  ∀ k < img.trackSectors lt, ∃ b, ⟨k, .data b⟩ ∈ l ∧ img.Recorded lt bin mem k b

/-- The headers that are answered with data are of the sectors of the track, each once;
    and of the pairs up to the number of sectors, the last one for a sector is no error
    if its data is good, and if there is none, then the byte there before is right. -/
structure Settled (img : BinImage) (lt bin : Nat) (l : List Entry) : Prop where
  once : ((l.filter Entry.isData).map Entry.sector).Nodup
  ofTrack : ∀ k b, ⟨k, .data b⟩ ∈ l → k < img.trackSectors lt
  noError : ∀ k b, ⟨k, .data b⟩ ∈ l → ∀ a, img.errorByte lt k = some a → ∀ m c,
    img.lastAt lt (l.take (img.trackSectors lt)) a = some ⟨m, .error c⟩ → ¬ Good b
  before : ∀ k b, ⟨k, .data b⟩ ∈ l → ∀ a, img.errorByte lt k = some a →
    img.lastAt lt (l.take (img.trackSectors lt)) a = none →
    (l.foldl (Entry.store (img.request lt bin)) img.binData a = 0 ↔ Good b)
  apart : ∀ k b, ⟨k, .data b⟩ ∈ l → ∀ i < 256, ∀ e,
    img.lastAt lt (l.take (img.trackSectors lt)) (bin + 256 * k + i) = some e → e.result = b i

/-- As many different data headers as there are sectors, if all sectors are among them. -/
theorem nodup_of_all {l : List Nat} {n : Nat} (hlen : l.length = n) (h : ∀ k < n, k ∈ l) :
    l.Nodup ∧ ∀ k ∈ l, k < n := by
  have hsub : (List.range n).Subperm l :=
    List.subperm_of_subset List.nodup_range fun k hk => h k (List.mem_range.mp hk)
  have hperm : (List.range n).Perm l :=
    hsub.perm_of_length_le (by rw [List.length_range, hlen])
  exact ⟨hperm.nodup_iff.mp List.nodup_range, fun k hk => List.mem_range.mp (hperm.mem_iff.mpr hk)⟩

theorem mem_dataSectors {l : List Entry} {k : Nat} :
    k ∈ (l.filter Entry.isData).map Entry.sector ↔ ∃ b, ⟨k, .data b⟩ ∈ l := by
  rw [List.mem_map]
  constructor
  · rintro ⟨⟨m, answer⟩, he, rfl⟩
    obtain ⟨hmem, hdata⟩ := List.mem_filter.mp he
    cases answer with
    | data b => exact ⟨b, hmem⟩
    | error c => exact absurd hdata Bool.false_ne_true
  · rintro ⟨b, hb⟩
    exact ⟨_, List.mem_filter.mpr ⟨hb, rfl⟩, rfl⟩

/-- Data stored once is found once. -/
theorem data_unique {l : List Entry} (honce : ((l.filter Entry.isData).map Entry.sector).Nodup)
    {k : Nat} {b b' : Nat → UInt8} (h : ⟨k, .data b⟩ ∈ l) (h' : ⟨k, .data b'⟩ ∈ l) : b = b' := by
  have heq := List.inj_on_of_nodup_map honce (List.mem_filter.mpr ⟨h, rfl⟩)
    (List.mem_filter.mpr ⟨h', rfl⟩) rfl
  cases heq
  rfl

variable {img : BinImage} {lt bin : Nat} {l : List Entry} {mem : Nat → UInt8}

/-- What is recorded right was settled. -/
theorem Records.settled (hcount : l.countP Entry.isData = img.trackSectors lt)
    (herr : ∀ n, ⟨n, .error 0⟩ ∉ l)
    (hmem : ∀ a, mem a = ((img.lastAt lt (l.take (img.trackSectors lt)) a).map Entry.result).getD
      (l.foldl (Entry.store (img.request lt bin)) img.binData a))
    (h : img.Records lt bin l mem) : img.Settled lt bin l := by
  obtain ⟨honce, hlt⟩ := nodup_of_all (l := (l.filter Entry.isData).map Entry.sector)
    (by rw [List.length_map, ← List.countP_eq_length_filter, hcount])
    (fun k hk => mem_dataSectors.mpr (Exists.imp (fun _ h => h.1) (h k hk)))
  have hrec : ∀ k b, ⟨k, .data b⟩ ∈ l → img.Recorded lt bin mem k b := by
    intro k b hb
    obtain ⟨b', hb', hrec⟩ := h k (hlt k (mem_dataSectors.mpr ⟨b, hb⟩))
    obtain rfl := data_unique honce hb hb'
    exact hrec
  refine ⟨honce, fun k b hb => hlt k (mem_dataSectors.mpr ⟨b, hb⟩), ?_, ?_, ?_⟩
  · intro k b hb a ha m c hlast hgood
    have hzero := ((hrec k b hb).2 a ha).mpr hgood
    rw [hmem, hlast] at hzero
    obtain rfl : c = 0 := hzero
    exact herr m (List.mem_of_mem_take (lastAt_eq_some hlast).1)
  · intro k b hb a ha hlast
    have hbyte := (hrec k b hb).2 a ha
    rw [hmem, hlast] at hbyte
    exact hbyte
  · intro k b hb i hi e hlast
    have hbyte := (hrec k b hb).1 i hi
    rw [hmem, hlast] at hbyte
    exact hbyte

/-- What is settled is recorded right. -/
theorem Settled.records (hcount : l.countP Entry.isData = img.trackSectors lt)
    (herr : ∀ n, ⟨n, .error 0⟩ ∉ l)
    (hmem : ∀ a, mem a = ((img.lastAt lt (l.take (img.trackSectors lt)) a).map Entry.result).getD
      (l.foldl (Entry.store (img.request lt bin)) img.binData a))
    (h : img.Settled lt bin l) : img.Records lt bin l mem := by
  intro k hk
  have hlen : ((l.filter Entry.isData).map Entry.sector).length = img.trackSectors lt := by
    rw [List.length_map, ← List.countP_eq_length_filter, hcount]
  -- All sectors are among the data headers, as these are different and of the track.
  have hsub : ((l.filter Entry.isData).map Entry.sector).Subperm
      (List.range (img.trackSectors lt)) :=
    List.subperm_of_subset h.once fun m hm => by
      obtain ⟨b, hb⟩ := mem_dataSectors.mp hm
      exact List.mem_range.mpr (h.ofTrack m b hb)
  have hperm := hsub.perm_of_length_le (by rw [List.length_range, hlen])
  obtain ⟨b, hb⟩ := mem_dataSectors.mp (hperm.mem_iff.mpr (List.mem_range.mpr hk))
  refine ⟨b, hb, ?_, ?_⟩
  · intro i hi
    rw [hmem]
    cases hlast : img.lastAt lt (l.take (img.trackSectors lt)) (bin + 256 * k + i) with
    | none => exact foldl_store_once (r := img.request lt bin) h.once hb _ hi
    | some e => exact h.apart k b hb i hi e hlast
  · intro a ha
    rw [hmem]
    cases hlast : img.lastAt lt (l.take (img.trackSectors lt)) a with
    | none => exact h.before k b hb a ha hlast
    | some e =>
        obtain ⟨hmem', hbyte⟩ := lastAt_eq_some hlast
        have he : e ∈ l := List.mem_of_mem_take hmem'
        obtain ⟨m, answer⟩ := e
        cases answer with
        | error c =>
            have hc : c ≠ 0 := by
              rintro rfl
              exact herr m he
            exact ⟨fun hzero => absurd hzero hc,
              fun hgood => absurd hgood (h.noError k b hb a ha m c hlast)⟩
        | data b' =>
            obtain rfl : m = k := errorByte_inj hbyte ha
            obtain rfl := data_unique h.once he hb
            show (if Good b' then 0 else 0xE3 : UInt8) = 0 ↔ Good b'
            by_cases hgood : Good b'
            · rw [if_pos hgood]
              exact iff_of_true rfl hgood
            · rw [if_neg hgood]
              exact iff_of_false (by decide) hgood

/-- An image whose tracks have no more sectors than a track can have. -/
def Sized (img : BinImage) : Prop := ∀ lt, img.trackSectors lt ≤ 21

theorem sectorsOf_le (lt : Nat) (ds : Bool) : sectorsOf lt ds ≤ 21 := by
  rw [sectorsOf, GcrImage.sectorsPerTrack]
  generalize GcrImage.trackToRegion lt ds = region
  -- The table has eight regions; behind it there are no sectors.
  iterate 8 (rcases region with _ | region; · decide)
  exact Nat.zero_le 21

theorem create_sized (mem : Nat → UInt8) (tracks : Nat) : (create mem tracks).Sized := by
  intro lt
  show (if lt < tracks then sectorsOf lt _ else 0) ≤ 21
  split
  · exact sectorsOf_le _ _
  · exact Nat.zero_le 21

/-- A track that was written has all sectors. -/
theorem finishTrack_secs {s : Scan} {file : Option Int} {errorcount : Nat}
    (hres : (img.finishTrack lt s file errorcount).result = 0) : s.secs = img.trackSectors lt := by
  by_contra hne
  have h12 : (if s.secs ≠ img.trackSectors lt then -12 else file.getD 0 : Int) = 0 := hres
  rw [if_pos hne] at h12
  exact absurd h12 (by decide)

/-- The memory after a track was written. -/
theorem finishTrack_apply (hsized : img.Sized) {s : Scan}
    (hlog : Logged (img.request lt bin) img.binData l s) (file : Option Int) (errorcount : Nat)
    (hsecs : s.secs = img.trackSectors lt) (a : Nat) :
    (img.finishTrack lt s file errorcount).img.binData a
      = ((img.lastAt lt (l.take (img.trackSectors lt)) a).map Entry.result).getD
          (l.foldl (Entry.store (img.request lt bin)) img.binData a) := by
  show img.recordErrors _ s.status s.secs s.mem a = _
  have hle : s.secs ≤ l.length := hlog.secs ▸ List.countP_le_length
  have h21 := hsized lt
  rw [img.recordErrors_apply lt hlog.sector hle
    (fun i hi e he => status_pair hlog (by omega) he), hlog.mem, hsecs]

/-- A track that was written and decoded is recorded right if and only if its headers
    are settled. -/
theorem writeTrack_records_iff {d : Decoder} {fuel : Nat} {img : BinImage} (hsized : img.Sized)
    {physTrack bin : Nat} {t : Track} {file : Option Int} {errorcount : Nat} {w : Written}
    (hbin : img.trackStart (gcrTrackToBinTrack physTrack) = some bin)
    (hw : img.writeTrack d fuel physTrack (some t) file errorcount = some w) (hres : w.result = 0) :
    img.Records (gcrTrackToBinTrack physTrack) bin
        (log d fuel t (img.request (gcrTrackToBinTrack physTrack) bin) img.binData) w.img.binData ↔
      img.Settled (gcrTrackToBinTrack physTrack) bin
        (log d fuel t (img.request (gcrTrackToBinTrack physTrack) bin) img.binData) := by
  rw [writeTrack] at hw
  dsimp only at hw
  rw [hbin] at hw
  obtain ⟨s, hrun, rfl⟩ := Option.map_eq_some_iff.mp hw
  have hlog := logged_run hrun
  have hsecs := finishTrack_secs hres
  have hcount := hlog.secs.symm.trans hsecs
  have hmem := finishTrack_apply hsized hlog file errorcount hsecs
  exact ⟨Records.settled hcount hlog.error hmem, Settled.records hcount hlog.error hmem⟩

/-! ## Tracks of an image -/

/-- The error bytes are not in the sectors of a track of the image. -/
theorem Laid.errorByte_outside (hlaid : img.Laid) (hlt : lt < img.numTracks) {k a : Nat}
    (h : img.errorByte lt k = some a) :
    256 * totalSectorsBeforeTrack lt img.doubleSided + 256 * img.trackSectors lt ≤ a := by
  rw [errorByte] at h
  cases herr : img.errors with
  | none => rw [herr] at h; exact nomatch h
  | some errors =>
      rw [herr] at h
      dsimp only at h
      split at h
      · have ha := Option.some.inj h
        have hend := hlaid.end_le (n := img.numTracks) hlt hlt
        have herrors := hlaid.errors errors herr
        omega
      · exact nomatch h

/-- On a track of the image, headers that are all answered with data, each sector of the
    track once, are settled. -/
theorem settled_of_data (hlaid : img.Laid) (hlt : lt < img.numTracks)
    (hbin : img.trackStart lt = some bin) (hlen : l.length = img.trackSectors lt)
    (hdata : ∀ e ∈ l, e.isData = true) (honce : (l.map Entry.sector).Nodup)
    (hsector : ∀ e ∈ l, e.sector < img.trackSectors lt) : img.Settled lt bin l := by
  have htake : l.take (img.trackSectors lt) = l := List.take_of_length_le hlen.le
  have hfilter : l.filter Entry.isData = l := List.filter_eq_self.mpr hdata
  refine ⟨by rw [hfilter]; exact honce, fun k b hb => hsector _ hb, ?_, ?_, ?_⟩
  · intro k b hb a ha m c hlast
    rw [htake] at hlast
    exact absurd (hdata _ (lastAt_eq_some hlast).1) Bool.false_ne_true
  · intro k b hb a ha hlast
    rw [htake, lastAt, List.find?_eq_none] at hlast
    exact absurd (decide_eq_true ha) (hlast _ (List.mem_reverse.mpr hb))
  · intro k b hb i hi e hlast
    have hout := hlaid.errorByte_outside hlt (lastAt_eq_some hlast).2
    have hk := hsector _ hb
    obtain rfl : 256 * totalSectorsBeforeTrack lt img.doubleSided = bin :=
      Option.some.inj ((hlaid.start lt hlt).symm.trans hbin)
    dsimp only at hk
    omega

/-- In as many status bytes as two for each sector are the pairs of as many headers. -/
theorem length_of_status {r : Request} {mem₀ : Nat → UInt8} {s : Scan} {n : Nat}
    (hlog : Logged r mem₀ l s) (hn : n ≤ 21) (hstatus : s.status.length = 2 * n) : l.length = n := by
  have hlen := congrArg List.length hlog.wrote.status
  have hpairs : (l.flatMap Entry.pair).length = 2 * l.length := by
    rw [List.length_flatMap]
    show (l.map fun _ => 2).sum = _
    rw [List.map_const', List.sum_replicate, smul_eq_mul, Nat.mul_comm]
  have hopening : (s.opening r).length ≤ 1 := by
    rw [Scan.opening]
    split
    · exact Nat.le_refl 1
    · exact Nat.zero_le 1
  rw [List.length_take, List.length_append, hpairs] at hlen
  omega

/-- What is decoded without an error is settled. -/
theorem settled_of_decoded (hsized : img.Sized) (hlaid : img.Laid) (hlt : lt < img.numTracks)
    (hbin : img.trackStart lt = some bin) {s : Scan}
    (hlog : Logged (img.request lt bin) img.binData l s) {data : Nat → UInt8}
    (hdec : Decoded (img.request lt bin) data s) : img.Settled lt bin l := by
  have h21 := hsized lt
  have hlen : l.length = img.trackSectors lt := length_of_status hlog h21 hdec.status_length
  have hall : l.countP Entry.isData = l.length := by rw [← hlog.secs, hdec.secs, hlen]; rfl
  obtain ⟨honce, hsector⟩ := nodup_of_all (l := l.map Entry.sector)
    ((List.length_map _).trans hlen) fun n hn => by
      obtain ⟨j, hj, hnum, _⟩ := hdec.status n hn
      have hj' : j < l.length := hj.trans_eq hlen.symm
      have hpair := (status_pair hlog (by omega) (List.getElem?_eq_getElem hj')).1
      have hstat : 2 * j < s.status.length := by
        rw [hdec.status_length]
        exact Nat.mul_lt_mul_of_pos_left hj (by decide)
      rw [List.getD_eq_getElem _ _ hstat] at hnum hpair
      have hsec : l[j].sector = n := by
        have heq := congrArg UInt8.toNat (hpair.symm.trans hnum)
        rwa [UInt8.toNat_ofNat_of_lt' (hlog.sector _ (List.getElem_mem hj')),
          UInt8.toNat_ofNat_of_lt' (by show n < 256; omega)] at heq
      exact List.mem_map.mpr ⟨l[j], List.getElem_mem hj', hsec⟩
  exact settled_of_data hlaid hlt hbin hlen (List.countP_eq_length.mp hall) honce
    fun e he => hsector _ (List.mem_map_of_mem he)

/-! ## Two tracks -/

/-- 17 headers of sector 0 of track 35, each with the first bytes of a data block behind it. -/
def copies : Track where
  byte i :=
    if i % 360 < 19 then
      UInt8.ofNat (0xFFFF5254A52A535294A55555FFFF55D4A5294A / 256 ^ (18 - i % 360))
    else 0x55
  len := 360 * 17

/-- The scan of the copies after `m` of them. -/
structure Copied (m : Nat) (s : Scan) : Prop where
  current : s.current = 360 * m ∨ s.current = 360 * m - 346 ∨ s.current = 360 * m - 21
  expectData : s.expectData = false
  wrapped : s.wrapped = false
  secs : s.secs = m
  statlen : s.statlen = 64 - 2 * m
  length : s.status.length = 2 * m
  status : ∀ j < m, s.status.getD (2 * j) 0xFF = 0

theorem copies_header : ∀ m < 17, copies.findSync (360 * m) = some (360 * m + 2) ∧
    copies.findSync (360 * m - 346) = some (360 * m + 2) ∧
    copies.findSync (360 * m - 21) = some (360 * m + 2) ∧
    copies.mark .gcr2bin (360 * m + 2) = 8 ∧ copies.headerTrack .gcr2bin (360 * m + 2) = 35 ∧
    copies.headerSector .gcr2bin (360 * m + 2) = 0 ∧
    copies.headerEnd (360 * m + 2) = 360 * m + 12 := by
  decide +kernel

theorem copies_data : ∀ m < 17, copies.findSync (360 * m + 12) = some (360 * m + 14) ∧
    copies.mark .gcr2bin (360 * m + 14) = 7 ∧ copies.dataEnd (360 * m + 14) = 360 * m + 339 := by
  decide +kernel

/-- Going on does not count as a turn. -/
theorem found_wrapped {s : Scan} {q : Nat} (hwrapped : s.wrapped = false) (hq : s.current ≤ q) :
    (s.found q).wrapped = false := by
  show (s.wrapped || decide (q < s.current)) = false
  rw [hwrapped, decide_eq_false (by omega)]
  rfl

/-- Two rounds take one copy. -/
theorem Copied.next {bin m : Nat} {s : Scan} (h : Copied m s) (hm : m < 17) :
    ∃ s', Loop.Reaches (step .gcr2bin copies ⟨35, 17, bin⟩) s s' ∧ Copied (m + 1) s' := by
  obtain ⟨hsync, hsync', hsync'', h8, htrack, hsector, hend⟩ := copies_header m hm
  obtain ⟨hdsync, h7, hdend⟩ := copies_data m hm
  have hfind : copies.findSync s.current = some (360 * m + 2) ∧ s.current ≤ 360 * m + 2 := by
    rcases h.current with hc | hc | hc
    · rw [hc]
      exact ⟨hsync, by omega⟩
    · rw [hc]
      exact ⟨hsync', by omega⟩
    · rw [hc]
      exact ⟨hsync'', by omega⟩
  have hstatlen := h.statlen
  have hlength := h.length
  have hroom : 0 < s.statlen := by omega
  have hnowrap : ∀ {q : Nat} {s : Scan}, s.wrapped = false → ¬ (q < s.current ∧ s.wrapped = true) :=
    fun hw hturn => absurd (hw.symm.trans hturn.2) Bool.false_ne_true
  -- The header.
  have hhead : Loop.Next (step .gcr2bin copies ⟨35, 17, bin⟩) s
      ((s.found (360 * m + 2)).opened ⟨35, 17, bin⟩ 0 (360 * m + 12) false) := by
    refine step_eq_some.mpr ⟨by rw [h.secs]; exact hm, _, hfind.1, hnowrap h.wrapped, ?_⟩
    rw [Scan.block_header h8, htrack, hsector, hend, ← found_wrapped h.wrapped hfind.2]
    exact Scan.header_good (s := s.found _) (r := ⟨35, 17, bin⟩) (Nat.zero_lt_succ 16) h.expectData
      hroom
  -- The data behind it.
  generalize hs₁ : (s.found (360 * m + 2)).opened ⟨35, 17, bin⟩ 0 (360 * m + 12) false = s₁ at hhead
  have hstatus₁ : s₁.status = s.status ++ [0] := by rw [← hs₁]; rfl
  have hstatlen₁ : s₁.statlen = 64 - 2 * m - 1 := by rw [← hstatlen, ← hs₁]; rfl
  have hsecs₁ : s₁.secs = m := by rw [← h.secs, ← hs₁]; rfl
  have hcurrent₁ : s₁.current = 360 * m + 12 := by rw [← hs₁]; rfl
  have hwrapped₁ : s₁.wrapped = false := by rw [← hs₁]; rfl
  have hexp₁ : s₁.expectData = true := by rw [← hs₁]; rfl
  have hroom₁ : 0 < (s₁.found (360 * m + 14)).statlen := by
    show 0 < s₁.statlen
    omega
  have hdata : Loop.Next (step .gcr2bin copies ⟨35, 17, bin⟩) s₁
      ((s₁.found (360 * m + 14)).dataBlock (copies.data .gcr2bin (360 * m + 14))
        (360 * m + 339)) := by
    refine step_eq_some.mpr ⟨by rw [hsecs₁]; exact hm, _, by rw [hcurrent₁]; exact hdsync,
      hnowrap hwrapped₁, ?_⟩
    rw [Scan.block_data (s := s₁.found _) h7 hexp₁, hdend]
  rw [Scan.dataBlock_of_room hroom₁, Scan.put_of_room (s := (s₁.found _).stored _) hroom₁] at hdata
  refine ⟨_, .tail (.single hhead) hdata, ?_⟩
  have hplace : ∀ {x : Nat}, x = 360 * m + 339 ∨ x = 360 * m + 14 → x = 360 * (m + 1) ∨
      x = 360 * (m + 1) - 346 ∨ x = 360 * (m + 1) - 21 := by omega
  refine ⟨hplace (ite_eq_or_eq _ _ _), rfl, found_wrapped hwrapped₁ (by omega), ?_, ?_, ?_, ?_⟩
  · show s₁.secs + 1 = m + 1
    rw [hsecs₁]
  · show s₁.statlen - 1 = _
    omega
  · show (s₁.status ++ [_]).length = _
    rw [hstatus₁, List.length_append, List.length_append, hlength]
    rfl
  · intro j hj
    show (s₁.status ++ [_]).getD (2 * j) 0xFF = 0
    rw [hstatus₁, List.append_assoc]
    rcases Nat.lt_or_eq_of_le (Nat.le_of_lt_succ hj) with hlt | rfl
    · rw [List.getD_append _ _ _ _ (by omega)]
      exact h.status j hlt
    · rw [List.getD_append_right _ _ _ _ (by omega), hlength, Nat.sub_self]
      rfl

/-- The scan takes the 17 copies and ends. -/
theorem copies_run (mem : Nat → UInt8) (bin : Nat) :
    ∃ s, Loop.EndsIn (step .gcr2bin copies ⟨35, 17, bin⟩) (Scan.start mem 64) s ∧ Copied 17 s := by
  have hrun : ∀ m ≤ 17, ∃ s, Loop.Reaches (step .gcr2bin copies ⟨35, 17, bin⟩)
      (Scan.start mem 64) s ∧ Copied m s := by
    intro m
    induction m with
    | zero =>
        exact fun _ => ⟨_, .refl, Or.inl rfl, rfl, rfl, rfl, rfl, rfl, fun j hj => nomatch hj⟩
    | succ m ih =>
        intro hm
        obtain ⟨s, hreach, hcopied⟩ := ih (Nat.le_of_succ_le hm)
        obtain ⟨s', hreach', hcopied'⟩ := hcopied.next hm
        exact ⟨s', hreach.trans hreach', hcopied'⟩
  obtain ⟨s, hreach, hcopied⟩ := hrun 17 (Nat.le_refl 17)
  refine ⟨s, Loop.endsIn_iff.mpr ⟨hreach, ?_⟩, hcopied⟩
  rw [step, if_neg (by rw [hcopied.secs]; exact Nat.lt_irrefl 17)]

/-- Track 35 with all bytes zero, encoded. -/
def zeroTrack35 : Track :=
  rotate (convertTrackBin2gcr ⟨0, 0, 35, fun _ => 0, fun _ => 0⟩ 3 false 0) 0 fun _ => 0

/-- It is recorded right. -/
theorem zeroTrack35_records : ∃ fuel w,
    (create (fun _ => 0) 35).writeTrack .gcr2bin fuel 68 (some zeroTrack35) none 0 = some w ∧
      w.result = 0 ∧
      (create (fun _ => 0) 35).Records (gcrTrackToBinTrack 68) 170496
        (log .gcr2bin fuel zeroTrack35
          ((create (fun _ => 0) 35).request (gcrTrackToBinTrack 68) 170496) fun _ => 0)
        w.img.binData := by
  have hclean : (⟨0, 0, 35, fun _ => 0, fun _ => 0⟩ : Content).Clean := by
    intro s
    show (0 : UInt8) ∉ [2, 3, 4, 5, 9, 11]
    decide
  have hround : RoundTrips .gcr2bin ⟨0, 0, 35, fun _ => 0, fun _ => 0⟩ 3 false 0 0 :=
    roundTrips_of_not_cutOff .gcr2bin hclean (by decide) fun h => h.1 rfl
  obtain ⟨s, ⟨fuel, hfuel⟩, hdec⟩ := hround (fun _ => 0) (fun _ => 0) 170496 64 (by decide)
  have hrun : Loop.run (step .gcr2bin zeroTrack35
      ((create (fun _ => 0) 35).request (gcrTrackToBinTrack 68) 170496)) fuel
      (Scan.start (fun _ => 0) 64) = some s := hfuel
  have hstart : (create (fun _ => 0) 35).trackStart (gcrTrackToBinTrack 68) = some 170496 := by
    decide
  have hresult : ((create (fun _ => 0) 35).finishTrack (gcrTrackToBinTrack 68) s none 0).result
      = 0 := by
    have hsectors : (create (fun _ => 0) 35).trackSectors (gcrTrackToBinTrack 68) = 17 := by decide
    show (if s.secs ≠ _ then -12 else 0 : Int) = 0
    rw [show s.secs = 17 from hdec.secs, hsectors, if_neg (not_not.mpr rfl)]
  have hwritten : (create (fun _ => 0) 35).writeTrack .gcr2bin fuel 68 (some zeroTrack35) none 0
      = some ((create (fun _ => 0) 35).finishTrack (gcrTrackToBinTrack 68) s none 0) := by
    rw [writeTrack]
    dsimp only
    rw [hstart]
    exact congrArg (Option.map _) hrun
  exact ⟨fuel, _, hwritten, hresult,
    (writeTrack_records_iff (create_sized _ _) hstart hwritten hresult).mpr
      (settled_of_decoded (create_sized _ _) (create_laid _ _) (by decide) hstart
        (logged_run hrun) hdec)⟩

/-- A track with nothing but copies of sector 0 is written with success, and sector 1 is
    not of any block that was decoded under its header. -/
theorem copies_not_records : ∃ fuel w,
    (create (fun _ => 0) 35).writeTrack .gcr2bin fuel 68 (some copies) none 0 = some w ∧
      w.result = 0 ∧
      ¬ (create (fun _ => 0) 35).Records (gcrTrackToBinTrack 68) 170496
        (log .gcr2bin fuel copies
          ((create (fun _ => 0) 35).request (gcrTrackToBinTrack 68) 170496) fun _ => 0)
        w.img.binData := by
  obtain ⟨s, ⟨fuel, hfuel⟩, hcopied⟩ := copies_run (fun _ => 0) 170496
  have hrun : Loop.run (step .gcr2bin copies
      ((create (fun _ => 0) 35).request (gcrTrackToBinTrack 68) 170496)) fuel
      (Scan.start (fun _ => 0) 64) = some s := hfuel
  have hstart : (create (fun _ => 0) 35).trackStart (gcrTrackToBinTrack 68) = some 170496 := by
    decide
  have hsectors : (create (fun _ => 0) 35).trackSectors (gcrTrackToBinTrack 68) = 17 := by decide
  refine ⟨fuel, (create (fun _ => 0) 35).finishTrack (gcrTrackToBinTrack 68) s none 0, ?_, ?_, ?_⟩
  · rw [writeTrack]
    dsimp only
    rw [hstart]
    exact congrArg (Option.map _) hrun
  · show (if s.secs ≠ _ then -12 else 0 : Int) = 0
    rw [hcopied.secs, hsectors, if_neg (not_not.mpr rfl)]
  · intro hrec
    obtain ⟨b, hb, _⟩ := hrec 1 (by rw [hsectors]; decide)
    have hlog := logged_run hrun
    have hlen := length_of_status hlog (n := 17) (by decide) hcopied.length
    obtain ⟨j, hj, heq⟩ := List.getElem_of_mem hb
    have hpair := (status_pair hlog (by omega) (List.getElem?_eq_getElem hj)).1
    have hzero := hcopied.status j (by omega)
    have hstat : 2 * j < s.status.length := by have := hcopied.length; omega
    rw [List.getD_eq_getElem _ _ hstat] at hpair hzero
    rw [hzero, heq] at hpair
    exact absurd hpair (show ¬ (0 : UInt8) = UInt8.ofNat 1 by decide)

end BinImage
