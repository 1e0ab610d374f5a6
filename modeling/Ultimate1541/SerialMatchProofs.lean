import Ultimate1541.GlobProofs

/-! # Serial numbers a manifest is for

    A manifest may name the boards it is for by a pattern for their serial
    number: `*`, `?`, bracket sets, and characters that stand for themselves.
    `matchSet` and `serialRound` are the source's; `SerialMatches` says what a
    pattern means, one constructor for each way it can begin.

    A bracket set takes a length of the pattern that does not depend on the
    serial number, and one character of that.  So a pattern is read from the
    front (`serialHead`), and the pass that goes back to the last star only is
    right (`Glob.loop_start`). -/

namespace RecoveryManifest

open Glob

/-! ## Bracket sets -/

/-- Whether `c` is one of the members between `first` and `q`, or in one of the
    ranges. -/
def inMembers (c : UInt8) : List UInt8 → Bool
  | [] => false
  | [k] => c == k
  | [k, l] => c == k || c == l
  | lo :: dash :: hi :: rest =>
      if dash = 45 then (lo ≤ c && c ≤ hi) || inMembers c rest
      else c == lo || inMembers c (dash :: hi :: rest)

/-- The set that opens in front of `p`: whether it is negated, its members, and
    what is behind its `]`; `none` when it has none. -/
def splitSet (p : List UInt8) : Option (Bool × List UInt8 × List UInt8) :=
  let negate := p.head? == some 33
  let first := if negate = true then p.tail else p
  -- a `]` in front is a member
  let k := if first.head? = some 93 then 1 else 0
  let q := (first.drop k).dropWhile (· != 93)
  if q = [] then none
  else some (negate, first.take k ++ (first.drop k).takeWhile (· != 93), q.tail)

/-- `match_set`, with the pattern behind the `[`; `none` is its -1. -/
def matchSet (p : List UInt8) (c : UInt8) : Option (Bool × List UInt8) :=
  (splitSet p).map fun r => (inMembers c r.2.1 != r.1, r.2.2)

/-! ## The matcher -/

/-- What one character of the pattern, or the set that opens with it, says of
    `c`, and the pattern behind it. -/
def element (b : UInt8) (p : List UInt8) (c : UInt8) : Bool × List UInt8 :=
  if b = 63 then (true, p)
  else if b = 91 then
    match matchSet p c with
    | some r => r
    | none => (b == c, p)
  else (b == c, p)

/-- A round of the loop of `recovery_serial_match`, and its end. -/
def serialRound (s : Pass (List UInt8) UInt8) : Round (List UInt8) UInt8 :=
  match s.f with
  | [] => .found (s.p.dropWhile (· == 42) == [])
  | c :: f =>
      match s.p with
      | [] => s.retry
      | b :: p =>
          if b = 42 then .next ⟨p, c :: f, some (p, c :: f)⟩
          else if (element b p c).1 = true then .next ⟨(element b p c).2, f, s.star⟩
          else s.retry

/-- Enough rounds for strings of these lengths. -/
def serialRounds (pattern serial : List UInt8) : Nat :=
  (serial.length + 1) * (pattern.length + 1) + pattern.length + 1

/-- `recovery_serial_match`. -/
def serialMatch (pattern serial : List UInt8) : Bool :=
  (loop serialRound (serialRounds pattern serial) ⟨pattern, serial, none⟩).getD false

/-! ## What a pattern means -/

/-- Members begin with a range. -/
def StartsRange (members : List UInt8) : Prop := ∃ lo hi rest, members = lo :: 45 :: hi :: rest

/-- `c` is a member, or in a range. -/
inductive InSet (c : UInt8) : List UInt8 → Prop
  | range {lo hi : UInt8} {rest : List UInt8} : lo ≤ c → c ≤ hi → InSet c (lo :: 45 :: hi :: rest)
  | afterRange {lo hi : UInt8} {rest : List UInt8} : InSet c rest → InSet c (lo :: 45 :: hi :: rest)
  | member {rest : List UInt8} : ¬ StartsRange (c :: rest) → InSet c (c :: rest)
  | afterMember {k : UInt8} {rest : List UInt8} : ¬ StartsRange (k :: rest) → InSet c rest →
      InSet c (k :: rest)

/-- `text` is a closed set behind its `[`, with what comes behind its `]`.  The
    first member may be a `]`. -/
inductive ClosedSet : List UInt8 → Bool → List UInt8 → List UInt8 → Prop
  | plain {m : UInt8} {ms rest : List UInt8} : m ≠ 33 → 93 ∉ ms →
      ClosedSet (m :: ms ++ 93 :: rest) false (m :: ms) rest
  | negated {m : UInt8} {ms rest : List UInt8} : 93 ∉ ms →
      ClosedSet (33 :: (m :: ms ++ 93 :: rest)) true (m :: ms) rest

/-- What a pattern stands for. -/
inductive SerialMatches : List UInt8 → List UInt8 → Prop
  | done : SerialMatches [] []
  | star {p s : List UInt8} (run : List UInt8) : SerialMatches p s →
      SerialMatches (42 :: p) (run ++ s)
  | question {p s : List UInt8} (c : UInt8) : SerialMatches p s → SerialMatches (63 :: p) (c :: s)
  | among {text members rest s : List UInt8} {c : UInt8} : ClosedSet text false members rest →
      InSet c members → SerialMatches rest s → SerialMatches (91 :: text) (c :: s)
  | notAmong {text members rest s : List UInt8} {c : UInt8} : ClosedSet text true members rest →
      ¬ InSet c members → SerialMatches rest s → SerialMatches (91 :: text) (c :: s)
  | unclosed {p s : List UInt8} : (∀ negate members rest, ¬ ClosedSet p negate members rest) →
      SerialMatches p s → SerialMatches (91 :: p) (91 :: s)
  | other {c : UInt8} {p s : List UInt8} : c ≠ 42 → c ≠ 63 → c ≠ 91 → SerialMatches p s →
      SerialMatches (c :: p) (c :: s)

/-! ## Sets are read right -/

theorem not_startsRange {k l : UInt8} {rest : List UInt8} (h : l ≠ 45) :
    ¬ StartsRange (k :: l :: rest) := by
  rintro ⟨lo, hi, rest', heq⟩
  injection heq with _ heq
  injection heq with heq _
  exact h heq

theorem not_startsRange_one (k : UInt8) : ¬ StartsRange [k] := by
  rintro ⟨lo, hi, rest, heq⟩
  injection heq with _ heq
  exact nomatch heq

theorem not_startsRange_two (k l : UInt8) : ¬ StartsRange [k, l] := by
  rintro ⟨lo, hi, rest, heq⟩
  injection heq with _ heq
  injection heq with _ heq
  exact nomatch heq

/-- Without a range in front, the first member is looked at by itself. -/
theorem inSet_cons {c k : UInt8} {rest : List UInt8} (h : ¬ StartsRange (k :: rest)) :
    InSet c (k :: rest) ↔ c = k ∨ InSet c rest := by
  constructor
  · intro hin
    cases hin with
    | range _ _ => exact absurd ⟨_, _, _, rfl⟩ h
    | afterRange _ => exact absurd ⟨_, _, _, rfl⟩ h
    | member _ => exact Or.inl rfl
    | afterMember _ hrest => exact Or.inr hrest
  · rintro (rfl | hrest)
    · exact .member h
    · exact .afterMember h hrest

theorem inSet_range {c lo hi : UInt8} {rest : List UInt8} :
    InSet c (lo :: 45 :: hi :: rest) ↔ (lo ≤ c ∧ c ≤ hi) ∨ InSet c rest := by
  constructor
  · intro hin
    cases hin with
    | range h1 h2 => exact Or.inl ⟨h1, h2⟩
    | afterRange h => exact Or.inr h
    | member h => exact absurd ⟨_, _, _, rfl⟩ h
    | afterMember h _ => exact absurd ⟨_, _, _, rfl⟩ h
  · rintro (⟨h1, h2⟩ | h)
    · exact .range h1 h2
    · exact .afterRange h

theorem not_inSet_nil {c : UInt8} : ¬ InSet c [] := fun h => nomatch h

theorem inMembers_iff {c : UInt8} {members : List UInt8} :
    inMembers c members = true ↔ InSet c members := by
  induction members using inMembers.induct with
  | case1 =>
      rw [inMembers]
      exact ⟨(fun h => nomatch h), fun h => absurd h not_inSet_nil⟩
  | case2 k =>
      rw [inMembers, beq_iff_eq, inSet_cons (not_startsRange_one k)]
      exact ⟨Or.inl, fun h => h.resolve_right not_inSet_nil⟩
  | case3 k l =>
      rw [inMembers, Bool.or_eq_true, beq_iff_eq, beq_iff_eq,
        inSet_cons (not_startsRange_two k l), inSet_cons (not_startsRange_one l)]
      exact or_congr Iff.rfl ⟨Or.inl, fun h => h.resolve_right not_inSet_nil⟩
  | case4 lo hi rest ih =>
      rw [inMembers, if_pos rfl, Bool.or_eq_true, Bool.and_eq_true, decide_eq_true_eq,
        decide_eq_true_eq, ih, inSet_range]
  | case5 lo dash hi rest hdash ih =>
      rw [inMembers, if_neg hdash, Bool.or_eq_true, beq_iff_eq, ih, inSet_cons (not_startsRange hdash)]

/-- The members up to the `]`: the first one is skipped over in either case. -/
theorem splitSet_eq (p : List UInt8) :
    splitSet p =
      match (if p.head? = some 33 then p.tail else p) with
      | [] => none
      | m :: first =>
          if first.dropWhile (· != 93) = [] then none
          else some (p.head? == some 33, m :: first.takeWhile (· != 93),
            (first.dropWhile (· != 93)).tail) := by
  rw [splitSet]
  simp only [beq_iff_eq]
  cases (if p.head? = some 33 then p.tail else p) with
  | nil => rfl
  | cons m first =>
      by_cases hm : m = 93
      · subst hm
        rfl
      · have hne : ¬ (m :: first).head? = some 93 := fun h => hm (Option.some.inj h)
        have hbne : (m != 93) = true := bne_iff_ne.mpr hm
        rw [if_neg hne, List.drop_zero, List.take_zero,
          List.dropWhile_cons_of_pos (p := (· != 93)) hbne,
          List.takeWhile_cons_of_pos (p := (· != 93)) hbne]
        rfl

/-- Where the list of members ends. -/
theorem closes_iff {first ms rest : List UInt8} :
    (first.dropWhile (· != 93) ≠ [] ∧ first.takeWhile (· != 93) = ms ∧
      (first.dropWhile (· != 93)).tail = rest) ↔ 93 ∉ ms ∧ first = ms ++ 93 :: rest := by
  constructor
  · rintro ⟨hne, rfl, rfl⟩
    refine ⟨fun hmem => ?_, ?_⟩
    · have hno : ((93 : UInt8) != 93) = true := List.mem_takeWhile_imp (p := (· != 93)) hmem
      exact absurd hno (by decide)
    · have hhead := List.head_dropWhile_not (· != 93) hne
      rw [bne_eq_false_iff_eq] at hhead
      have hcons := List.cons_head_tail hne
      rw [hhead] at hcons
      rw [hcons, List.takeWhile_append_dropWhile]
  · rintro ⟨hms, rfl⟩
    have hall : ∀ b ∈ ms, (b != 93) = true := by
      intro b hb
      rw [bne_iff_ne]
      rintro rfl
      exact hms hb
    have hstop : ¬ ((93 : UInt8) != 93) = true := by decide
    rw [List.dropWhile_append_of_pos hall, List.takeWhile_append_of_pos hall,
      List.dropWhile_cons_of_neg (p := (· != 93)) hstop,
      List.takeWhile_cons_of_neg (p := (· != 93)) hstop, List.append_nil]
    exact ⟨List.cons_ne_nil _ _, rfl, rfl⟩

theorem splitSet_iff {p members rest : List UInt8} {negate : Bool} :
    splitSet p = some (negate, members, rest) ↔ ClosedSet p negate members rest := by
  have hread : ∀ {b : Bool} {first : List UInt8},
      (match first with
        | [] => none
        | m :: first =>
            if first.dropWhile (· != 93) = [] then none
            else some (b, m :: first.takeWhile (· != 93), (first.dropWhile (· != 93)).tail))
          = some (negate, members, rest) ↔
        b = negate ∧ ∃ m ms, members = m :: ms ∧ 93 ∉ ms ∧ first = m :: ms ++ 93 :: rest := by
    intro b first
    cases first with
    | nil =>
        refine ⟨(fun h => nomatch h), ?_⟩
        rintro ⟨-, m, ms, -, -, h⟩
        exact nomatch h
    | cons m first =>
        dsimp only
        constructor
        · intro h
          split at h
          · exact nomatch h
          · next hne =>
              injection h with h
              injection h with hb h
              injection h with hm hr
              obtain ⟨hms, hfirst⟩ := closes_iff.mp ⟨hne, rfl, hr⟩
              exact ⟨hb, m, _, hm.symm, hms, congrArg (m :: ·) hfirst⟩
        · rintro ⟨rfl, m', ms, rfl, hms, heq⟩
          injection heq with hm hfirst
          subst hm
          obtain ⟨hne, htake, hrest⟩ := closes_iff.mpr ⟨hms, hfirst⟩
          rw [if_neg hne, htake, hrest]
  rw [splitSet_eq, hread]
  constructor
  · rintro ⟨hneg, m, ms, rfl, hms, hfirst⟩
    by_cases h33 : p.head? = some 33
    · rw [if_pos h33] at hfirst
      rw [h33] at hneg
      cases hneg
      cases p with
      | nil => exact nomatch h33
      | cons b p =>
          cases h33
          rw [List.tail_cons] at hfirst
          rw [hfirst]
          exact .negated hms
    · rw [if_neg h33] at hfirst
      rw [beq_eq_false_iff_ne.mpr h33] at hneg
      subst hneg hfirst
      exact .plain (fun hm => h33 (congrArg some hm)) hms
  · intro h
    cases h with
    | @plain m ms _ hm hms =>
        have h33 : ¬ (m :: ms ++ 93 :: rest).head? = some 33 := fun h => hm (Option.some.inj h)
        rw [if_neg h33]
        exact ⟨beq_eq_false_iff_ne.mpr h33, m, ms, rfl, hms, rfl⟩
    | @negated m ms _ hms => exact ⟨rfl, m, ms, rfl, hms, rfl⟩

/-- A set takes a part of the pattern. -/
theorem splitSet_length {p : List UInt8} {r : Bool × List UInt8 × List UInt8}
    (h : splitSet p = some r) : r.2.2.length < p.length := by
  obtain ⟨negate, members, rest⟩ := r
  cases splitSet_iff.mp h with
  | plain _ _ =>
      simp only [List.length_append, List.length_cons]
      omega
  | negated _ =>
      simp only [List.length_append, List.length_cons]
      omega

/-! ## The pattern from the front -/

/-- How a pattern begins. -/
def serialHead : List UInt8 → Head (List UInt8) UInt8
  | [] => .done
  | b :: p =>
      if b = 42 then .star p
      else if b = 63 then .one (fun _ => true) p
      else if b = 91 then
        match splitSet p with
        | some r => .one (fun c => inMembers c r.2.1 != r.1) r.2.2
        | none => .one (fun c => b == c) p
      else .one (fun c => b == c) p

/-- A character that is not a star is an element. -/
theorem serialHead_cons {b : UInt8} (p : List UInt8) (hb : b ≠ 42) :
    ∃ ok q, serialHead (b :: p) = .one ok q ∧ ∀ c, element b p c = (ok c, q) := by
  rw [serialHead, if_neg hb]
  by_cases h63 : b = 63
  · rw [if_pos h63]
    exact ⟨_, _, rfl, fun c => by rw [element, if_pos h63]⟩
  · rw [if_neg h63]
    by_cases h91 : b = 91
    · rw [if_pos h91]
      cases hset : splitSet p with
      | none =>
          refine ⟨_, _, rfl, fun c => ?_⟩
          rw [element, if_neg h63, if_pos h91, matchSet, hset]
          rfl
      | some r =>
          refine ⟨_, _, rfl, fun c => ?_⟩
          rw [element, if_neg h63, if_pos h91, matchSet, hset]
          rfl
    · rw [if_neg h91]
      exact ⟨_, _, rfl, fun c => by rw [element, if_neg h63, if_neg h91]⟩

/-- The loop of the source is the pass over such patterns. -/
theorem serialRound_eq :
    serialRound = Pass.round serialHead fun p => p.dropWhile (· == 42) == [] := by
  funext s
  obtain ⟨p, f, star⟩ := s
  cases f with
  | nil => rfl
  | cons c f =>
      cases p with
      | nil => rfl
      | cons b p =>
          rw [serialRound, Pass.round]
          dsimp only
          by_cases hb : b = 42
          · rw [if_pos hb, serialHead, if_pos hb]
          · obtain ⟨ok, q, hhead, helem⟩ := serialHead_cons p hb
            rw [if_neg hb, hhead, helem]

theorem measures_serialHead : Measures List.length serialHead := by
  constructor
  · intro p q h
    cases p with
    | nil => cases h
    | cons b p =>
        by_cases hb : b = 42
        · rw [serialHead, if_pos hb] at h
          cases h
          exact Nat.lt_succ_self _
        · obtain ⟨ok, r, hhead, -⟩ := serialHead_cons p hb
          cases h.symm.trans hhead
  · intro p ok q h
    cases p with
    | nil => cases h
    | cons b p =>
        have hlt : q.length ≤ p.length := by
          rw [serialHead] at h
          split at h
          · cases h
          · split at h
            · cases h
              exact Nat.le_refl _
            · split at h
              · split at h
                · next r hset =>
                    cases h
                    exact Nat.le_of_lt (splitSet_length hset)
                · cases h
                  exact Nat.le_refl _
              · cases h
                exact Nat.le_refl _
        exact Nat.lt_succ_of_le hlt

/-- Nothing at all fits stars only. -/
theorem serial_ends (p : List UInt8) :
    (p.dropWhile (· == 42) == []) = true ↔ Glob.Fits serialHead p [] := by
  rw [beq_iff_eq]
  induction p with
  | nil => exact ⟨fun _ => .done rfl, fun _ => rfl⟩
  | cons b p ih =>
      by_cases hb : b = 42
      · have hhead : serialHead (b :: p) = .star p := by rw [serialHead, if_pos hb]
        rw [List.dropWhile_cons_of_pos (p := (· == 42)) (beq_iff_eq.mpr hb), ih, fits_star hhead]
        constructor
        · exact fun h => ⟨[], List.suffix_rfl, h⟩
        · rintro ⟨g, hg, h⟩
          rwa [List.suffix_nil.mp hg] at h
      · obtain ⟨ok, q, hhead, -⟩ := serialHead_cons p hb
        rw [List.dropWhile_cons_of_neg (p := (· == 42)) (by rw [beq_iff_eq]; exact hb)]
        exact ⟨(fun h => by cases h), fun h => absurd h (not_fits_one_nil hhead)⟩

/-- A bracket opens a set, or stands for itself. -/
theorem serialHead_bracket (text : List UInt8) :
    serialHead (91 :: text) = match splitSet text with
      | some r => Head.one (fun c => inMembers c r.2.1 != r.1) r.2.2
      | none => .one (fun c => (91 : UInt8) == c) text := rfl

/-- The texts a pattern fits from the front are those it stands for. -/
theorem fits_iff {p s : List UInt8} : Glob.Fits serialHead p s ↔ SerialMatches p s := by
  constructor
  · intro h
    induction h with
    | @done p hhead =>
        cases p with
        | nil => exact .done
        | cons b p =>
            by_cases hb : b = 42
            · rw [serialHead, if_pos hb] at hhead
              cases hhead
            · obtain ⟨ok, q, hhead', -⟩ := serialHead_cons p hb
              cases hhead.symm.trans hhead'
    | @star p q f run hhead _ ih =>
        cases p with
        | nil => cases hhead
        | cons b p =>
            by_cases hb : b = 42
            · subst hb
              rw [serialHead, if_pos rfl] at hhead
              cases hhead
              exact .star run ih
            · obtain ⟨ok, q, hhead', -⟩ := serialHead_cons p hb
              cases hhead.symm.trans hhead'
    | @one p q ok d f hhead hok _ ih =>
        cases p with
        | nil => cases hhead
        | cons b p =>
            rw [serialHead] at hhead
            split at hhead
            · cases hhead
            · next h42 =>
                split at hhead
                · next h63 =>
                    cases hhead
                    subst h63
                    exact .question d ih
                · next h63 =>
                    split at hhead
                    · next h91 =>
                        subst h91
                        split at hhead
                        · next r hset =>
                            obtain ⟨negate, members, rest⟩ := r
                            cases hhead
                            have hclosed := splitSet_iff.mp hset
                            cases negate with
                            | false =>
                                have hin : (inMembers d members != false) = true := hok
                                rw [Bool.bne_false] at hin
                                exact .among hclosed (inMembers_iff.mp hin) ih
                            | true =>
                                have hout : (inMembers d members != true) = true := hok
                                rw [Bool.bne_true, Bool.not_eq_true'] at hout
                                refine .notAmong hclosed (fun hin => ?_) ih
                                rw [inMembers_iff.mpr hin] at hout
                                cases hout
                        · next hset =>
                            cases hhead
                            obtain rfl := beq_iff_eq.mp hok
                            refine .unclosed (fun negate members rest hclosed => ?_) ih
                            rw [splitSet_iff.mpr hclosed] at hset
                            cases hset
                    · next h91 =>
                        cases hhead
                        obtain rfl := beq_iff_eq.mp hok
                        exact .other h42 h63 h91 ih
  · intro h
    induction h with
    | done => exact .done rfl
    | star run _ ih => exact .star run rfl ih
    | question c _ ih => exact .one rfl rfl ih
    | @among text members rest s c hclosed hin _ ih =>
        have hhead : serialHead (91 :: text) = .one (fun c => inMembers c members != false) rest := by
          rw [serialHead_bracket, splitSet_iff.mpr hclosed]
        refine .one hhead ?_ ih
        rw [Bool.bne_false]
        exact inMembers_iff.mpr hin
    | @notAmong text members rest s c hclosed hin _ ih =>
        have hhead : serialHead (91 :: text) = .one (fun c => inMembers c members != true) rest := by
          rw [serialHead_bracket, splitSet_iff.mpr hclosed]
        refine .one hhead ?_ ih
        rw [Bool.bne_true, Bool.not_eq_true', ← Bool.not_eq_true, inMembers_iff]
        exact hin
    | @unclosed p s hno _ ih =>
        have hset : splitSet p = none := by
          cases hset : splitSet p with
          | none => rfl
          | some r => exact absurd (splitSet_iff.mp hset) (hno r.1 r.2.1 r.2.2)
        have hhead : serialHead (91 :: p) = .one (fun c => (91 : UInt8) == c) p := by
          rw [serialHead_bracket, hset]
        exact .one hhead (beq_self_eq_true _) ih
    | @other c p s h42 h63 h91 _ ih =>
        have hhead : serialHead (c :: p) = .one (fun d => c == d) p := by
          rw [serialHead, if_neg h42, if_neg h63, if_neg h91]
        exact .one hhead (beq_self_eq_true _) ih

/-! ## The answer -/

/-- **A SERIAL NUMBER IS MATCHED**: the loop returns after at most `serialRounds`
    rounds and never looks behind a string, and it says true exactly of the
    serial numbers the pattern stands for. -/
theorem serialMatch_returns (pattern serial : List UInt8) :
    (∀ n, serialRounds pattern serial ≤ n →
      loop serialRound n ⟨pattern, serial, none⟩ = some (serialMatch pattern serial)) ∧
    (serialMatch pattern serial = true ↔ SerialMatches pattern serial) := by
  have hloop : ∀ n, serialRounds pattern serial ≤ n →
      ∃ b, loop serialRound n ⟨pattern, serial, none⟩ = some b ∧
        (b = true ↔ SerialMatches pattern serial) := by
    intro n hn
    rw [serialRound_eq]
    obtain ⟨b, hb, hiff⟩ := loop_start serial_ends measures_serialHead pattern serial (n := n)
      (by rw [serialRounds] at hn; omega)
    exact ⟨b, hb, hiff.trans fits_iff⟩
  obtain ⟨b₀, hb₀, hiff₀⟩ := hloop _ (Nat.le_refl _)
  have hmatch : serialMatch pattern serial = b₀ := by
    rw [serialMatch, hb₀]
    rfl
  rw [hmatch]
  refine ⟨fun n hn => ?_, hiff₀⟩
  obtain ⟨b, hb, hiff⟩ := hloop n hn
  rw [hb, Bool.eq_iff_iff.mpr (hiff.trans hiff₀.symm)]

end RecoveryManifest
