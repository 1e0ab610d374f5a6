import Mathlib

/-! # Names and patterns

    `pattern_match` compares a name with a pattern in one pass over both, and goes
    back to the last `*` when it finds no match.  What it answers is what the pattern
    says: there is a way to fill in the stars.  Names are compared without regard to
    case, by `strcasecmp` and by `pattern_match` alike. -/

namespace Pattern

/-- The characters of a C string, without the one that ends it. -/
abbrev CString := List Char

/-- `strcasecmp` finds no difference. -/
def sameName (a b : CString) : Bool := a.map Char.toLower == b.map Char.toLower

theorem sameName_iff {a b : CString} :
    sameName a b = true ↔ a.map Char.toLower = b.map Char.toLower := by
  simp [sameName]

@[simp] theorem sameName_refl (a : CString) : sameName a a = true := sameName_iff.mpr rfl

theorem sameName_symm {a b : CString} (h : sameName a b = true) : sameName b a = true :=
  sameName_iff.mpr (sameName_iff.mp h).symm

theorem sameName_trans {a b c : CString} (h : sameName a b = true) (h' : sameName b c = true) :
    sameName a c = true :=
  sameName_iff.mpr ((sameName_iff.mp h).trans (sameName_iff.mp h'))

/-- Where no two entries of a list are alike, alike is equal. -/
theorem eq_of_pairwise {α : Type} {R : α → α → Prop} (hsymm : ∀ a b, R a b → R b a)
    {l : List α} (hl : l.Pairwise fun a b => ¬ R a b) {a b : α} (ha : a ∈ l) (hb : b ∈ l)
    (hab : R a b) : a = b := by
  induction l with
  | nil => exact nomatch ha
  | cons c l ih =>
      obtain ⟨hhead, htail⟩ := List.pairwise_cons.mp hl
      rcases List.mem_cons.mp ha with rfl | hin
      · rcases List.mem_cons.mp hb with rfl | hin
        · rfl
        · exact absurd hab (hhead b hin)
      · rcases List.mem_cons.mp hb with rfl | hin'
        · exact absurd (hsymm a b hab) (hhead a hin)
        · exact ih htail hin hin'

/-! ## What a pattern says -/

/-- `*` stands for any characters, and `?` for one: what `same` says of the others. -/
def fits (same : Char → Char → Bool) : CString → CString → Bool
  | [], f => f.isEmpty
  | c :: p, f =>
      if c = '*' then f.tails.any (fits same p)
      else
        match f with
        | [] => false
        | d :: f => (c == '?' || same c d) && fits same p f

variable {same : Char → Char → Bool} {p f : CString} {c d : Char}

theorem fits_nil : fits same [] f = true ↔ f = [] := by
  simp [fits]

theorem fits_star : fits same ('*' :: p) f = true ↔ ∃ g, g <:+ f ∧ fits same p g = true := by
  simp [fits]

theorem not_fits_nil (hc : c ≠ '*') : fits same (c :: p) [] = false := by
  simp [fits, hc]

theorem fits_cons (hc : c ≠ '*') :
    fits same (c :: p) (d :: f) = ((c == '?' || same c d) && fits same p f) := by
  simp [fits, hc]

/-- Only stars fit nothing at all. -/
theorem fits_end : fits same p [] = true ↔ p.dropWhile (· == '*') = [] := by
  induction p with
  | nil => simp [fits]
  | cons c p ih =>
      by_cases hc : c = '*'
      · subst hc
        simp [fits_star, ih]
      · simp [not_fits_nil hc, hc]

/-! ## The pass over pattern and name -/

/-- Where the pass stands: what is left of the pattern and of the fixed string, and at
    the last `*` the pattern behind it with the part of the string last tried there
    (`star_p`, `star_f`). -/
structure Pass where
  p : CString
  f : CString
  star : Option (CString × CString)

/-- One round of the loop returns or goes on. -/
inductive Round
  | found (b : Bool)
  | next (s : Pass)

/-- No match from here: let the last `*` take one more character of the fixed string. -/
def Pass.retry (s : Pass) : Round :=
  match s.star with
  | none => .found false
  | some (_, []) => .found false
  | some (p, _ :: f) => .next ⟨p, f, some (p, f)⟩

/-- `toupper` on both, unless `case_sensitive`. -/
def sameChar (caseSensitive : Bool) (c d : Char) : Bool :=
  if caseSensitive then c == d else c.toUpper == d.toUpper

/-- One round of the loop. -/
def Pass.round (same : Char → Char → Bool) (s : Pass) : Round :=
  match s.f with
  | [] => if s.p.dropWhile (· == '*') = [] then .found true else s.retry
  | d :: f =>
      match s.p with
      | [] => s.retry
      | c :: p =>
          if c = '*' then
            if p = [] then .found true else .next ⟨p, d :: f, some (p, d :: f)⟩
          else if c == '?' || same c d then .next ⟨p, f, s.star⟩
          else s.retry

/-- The loop, for `n` rounds at most. -/
def Pass.loop (same : Char → Char → Bool) : Nat → Pass → Option Bool
  | 0, _ => none
  | n + 1, s =>
      match s.round same with
      | .found b => some b
      | .next s => loop same n s

/-- Enough rounds for a pattern and a string of these lengths. -/
def rounds (pattern fixed : CString) : Nat :=
  (fixed.length + 1) * (pattern.length + 1) + pattern.length + 1

/-- `pattern_match`. -/
def patternMatch (pattern fixed : CString) (caseSensitive : Bool) : Bool :=
  (Pass.loop (sameChar caseSensitive) (rounds pattern fixed) ⟨pattern, fixed, none⟩).getD false

/-! ## What a round preserves -/

/-- From the last star on the characters were compared one by one. -/
structure Pass.Lined (same : Char → Char → Bool) (s : Pass) (P G : CString) : Prop where
  star : s.star = some (P, G)
  /-- what was compared holds no star -/
  compared : ∃ Q H, P = Q ++ s.p ∧ G = H ++ s.f ∧ Q.length = H.length ∧ '*' ∉ Q

/-- The pass stands where the rounds can have brought it. -/
def Pass.Ordered (same : Char → Char → Bool) (s : Pass) : Prop :=
  s.star = none ∨ ∃ P G, s.Lined same P G

/-- What the loop is still to answer. -/
def Pass.Answer (same : Char → Char → Bool) (s : Pass) : Prop :=
  fits same s.p s.f = true ∨
    ∃ P d G, s.star = some (P, d :: G) ∧ ∃ g, g <:+ G ∧ fits same P g = true

/-- What `found` says is the answer, and what goes on keeps it. -/
def Round.Keeps (same : Char → Char → Bool) (s : Pass) : Round → Prop
  | .found b => b = true ↔ s.Answer same
  | .next t => t.Ordered same ∧ (t.Answer same ↔ s.Answer same)

variable {s : Pass}

/-- The next try at the last star. -/
theorem retry_keeps (h : s.Ordered same) (hno : fits same s.p s.f = false) :
    s.retry.Keeps same s := by
  obtain ⟨p, f, star⟩ := s
  match star with
  | none => simp [Pass.retry, Round.Keeps, Pass.Answer, hno]
  | some (P, []) => simp [Pass.retry, Round.Keeps, Pass.Answer, hno]
  | some (P, d :: G) =>
      constructor
      · exact Or.inr ⟨P, G, rfl, [], [], rfl, rfl, rfl, by simp⟩
      · -- The tails of `G` are `G` itself and the tails behind its first character.
        simp only [Pass.Answer, hno, Option.some.injEq, Prod.mk.injEq]
        constructor
        · rintro (h | ⟨_, e, G', ⟨rfl, rfl⟩, g, hg, hfit⟩)
          · exact Or.inr ⟨P, d, G, ⟨rfl, rfl⟩, G, List.suffix_rfl, h⟩
          · exact Or.inr ⟨P, d, _, ⟨rfl, rfl⟩, g, hg.trans (List.suffix_cons e G'), hfit⟩
        · rintro (h | ⟨_, _, _, ⟨rfl, rfl, rfl⟩, g, hg, hfit⟩)
          · exact nomatch h
          · cases G with
            | nil =>
                rw [List.suffix_nil.mp hg] at hfit
                exact Or.inl hfit
            | cons e G' =>
                rcases List.suffix_cons_iff.mp hg with rfl | hg
                · exact Or.inl hfit
                · exact Or.inr ⟨P, e, G', ⟨rfl, rfl⟩, g, hg, hfit⟩

/-- Where `p` without a star stands in front, what fits has its length in front too. -/
theorem fits_append {q : CString} (hq : '*' ∉ q) {g : CString}
    (h : fits same (q ++ p) g = true) :
    ∃ g₁ g₂, g = g₁ ++ g₂ ∧ g₁.length = q.length ∧ fits same p g₂ = true := by
  induction q generalizing g with
  | nil => exact ⟨[], g, rfl, rfl, h⟩
  | cons c q ih =>
      have hc : c ≠ '*' := fun he => hq (by simp [he])
      cases g with
      | nil =>
          rw [List.cons_append, not_fits_nil hc] at h
          exact nomatch h
      | cons d g =>
          rw [List.cons_append, fits_cons hc, Bool.and_eq_true] at h
          obtain ⟨g₁, g₂, rfl, hlen, hfit⟩ := ih (fun hm => hq (by simp [hm])) h.2
          exact ⟨d :: g₁, g₂, rfl, by simp [hlen], hfit⟩

/-- A new star makes up for the last one: what would be matched further on for that one
    is matched by the new one. -/
theorem star_covers {q h f P : CString} (hlen : q.length = h.length) (hq : '*' ∉ q)
    {d : Char} {G g : CString} (hG : d :: G = h ++ f) (hg : g <:+ G)
    (hfit : fits same (q ++ '*' :: P) g = true) : fits same ('*' :: P) f = true := by
  obtain ⟨g₁, g₂, rfl, hl, hfit⟩ := fits_append hq hfit
  obtain ⟨k, hk, hP⟩ := fits_star.mp hfit
  refine fits_star.mpr ⟨k, hk.trans ?_, hP⟩
  -- `g₂` ends `d :: G`, and is not longer than `f`.
  have hsuf : g₂ <:+ h ++ f := by
    rw [← hG]
    exact ((List.suffix_append g₁ g₂).trans hg).trans (List.suffix_cons d G)
  refine List.suffix_of_suffix_length_le hsuf (List.suffix_append h f) ?_
  have h1 := hg.length_le
  have h2 := congrArg List.length hG
  simp only [List.length_append, List.length_cons] at h1 h2
  omega

/-- The round at a star. -/
theorem star_keeps {p f : CString} {star : Option (CString × CString)} {d : Char}
    (h : (⟨'*' :: p, d :: f, star⟩ : Pass).Ordered same) :
    (Round.next ⟨p, d :: f, some (p, d :: f)⟩).Keeps same ⟨'*' :: p, d :: f, star⟩ := by
  constructor
  · exact Or.inr ⟨p, d :: f, rfl, [], [], rfl, rfl, rfl, by simp⟩
  · have hnew : Pass.Answer same ⟨p, d :: f, some (p, d :: f)⟩ ↔
        fits same ('*' :: p) (d :: f) = true := by
      rw [fits_star]
      constructor
      · rintro (h | ⟨_, _, _, he, g, hg, hfit⟩)
        · exact ⟨_, List.suffix_rfl, h⟩
        · cases he
          exact ⟨g, hg.trans (List.suffix_cons _ _), hfit⟩
      · rintro ⟨g, hg, hfit⟩
        rcases List.suffix_cons_iff.mp hg with rfl | hg
        · exact Or.inl hfit
        · exact Or.inr ⟨p, d, f, rfl, g, hg, hfit⟩
    rw [hnew]
    constructor
    · exact Or.inl
    · rintro (h' | ⟨P, e, G, hstar, g, hg, hfit⟩)
      · exact h'
      · rcases h with h | ⟨P', G', hl, Q, H, rfl, hG, hlen, hQ⟩
        · exact absurd (h.symm.trans hstar) nofun
        · cases hl.symm.trans hstar
          exact star_covers hlen hQ hG hg hfit

/-- The round that compares two characters and finds them the same. -/
theorem same_keeps {p f : CString} {star : Option (CString × CString)}
    (h : (⟨c :: p, d :: f, star⟩ : Pass).Ordered same) (hc : c ≠ '*')
    (heq : (c == '?' || same c d) = true) :
    (Round.next ⟨p, f, star⟩).Keeps same ⟨c :: p, d :: f, star⟩ := by
  constructor
  · refine h.imp id ?_
    rintro ⟨P, G, hs, Q, H, rfl, rfl, hlen, hQ⟩
    refine ⟨_, _, hs, Q ++ [c], H ++ [d], by simp, by simp, by simp [hlen], ?_⟩
    simp [hQ, Ne.symm hc]
  · simp [Pass.Answer, fits_cons hc, heq]

/-- One round keeps the answer. -/
theorem round_keeps (h : s.Ordered same) : (s.round same).Keeps same s := by
  obtain ⟨p, f, star⟩ := s
  cases f with
  | nil =>
      rw [Pass.round]
      dsimp only
      split
      next hend => simp [Round.Keeps, Pass.Answer, fits_end.mpr hend]
      next hend => exact retry_keeps h (Bool.eq_false_iff.mpr fun hf => hend (fits_end.mp hf))
  | cons d f =>
      cases p with
      | nil => exact retry_keeps h rfl
      | cons c p =>
          rw [Pass.round]
          dsimp only
          split
          next hc =>
            subst hc
            split
            next hp =>
              subst hp
              have hfit : fits same ['*'] (d :: f) = true :=
                fits_star.mpr ⟨[], List.nil_suffix, fits_nil.mpr rfl⟩
              simp [Round.Keeps, Pass.Answer, hfit]
            next => exact star_keeps h
          next hc =>
            split
            next heq => exact same_keeps h hc heq
            next hne =>
              exact retry_keeps h (by rw [fits_cons hc, Bool.eq_false_iff.mpr hne, Bool.false_and])

/-! ## The loop ends -/

/-- How many rounds are left, for patterns of length `N`. -/
def Pass.fuel (N : Nat) (s : Pass) : Nat :=
  (match s.star with
    | none => s.f.length + 1
    | some (_, G) => G.length) * (N + 1) + s.p.length

/-- The parts of the pattern are no longer than it, and the string behind the last star
    holds what is left. -/
def Pass.Bounded (N : Nat) (s : Pass) : Prop :=
  s.p.length ≤ N ∧ ∀ P G, s.star = some (P, G) → P.length ≤ N ∧ s.f.length ≤ G.length

/-- What a round goes on to is bounded, with fewer rounds left. -/
def Round.Shrinks (N : Nat) (s : Pass) : Round → Prop
  | .found _ => True
  | .next t => t.Bounded N ∧ t.fuel N < s.fuel N

theorem retry_shrinks {N : Nat} (h : s.Bounded N) : s.retry.Shrinks N s := by
  obtain ⟨p, f, star⟩ := s
  match star with
  | none => trivial
  | some (_, []) => trivial
  | some (P, d :: G) =>
      obtain ⟨hP, -⟩ := h.2 P (d :: G) rfl
      refine ⟨⟨hP, ?_⟩, ?_⟩
      · rintro P' G' ⟨⟩
        exact ⟨hP, Nat.le_refl _⟩
      · simp only [Pass.fuel, List.length_cons, Nat.succ_mul]
        omega

theorem round_shrinks (same : Char → Char → Bool) {N : Nat} (h : s.Bounded N) : (s.round same).Shrinks N s := by
  obtain ⟨p, f, star⟩ := s
  cases f with
  | nil =>
      rw [Pass.round]
      dsimp only
      split
      · trivial
      · exact retry_shrinks h
  | cons d f =>
      cases p with
      | nil => exact retry_shrinks h
      | cons c p =>
          obtain ⟨hp, hstar⟩ := h
          rw [List.length_cons] at hp
          rw [Pass.round]
          dsimp only
          split
          · split
            · trivial
            · -- The new star stands where the pass stands.
              refine ⟨⟨by simp only; omega, ?_⟩, ?_⟩
              · rintro P G ⟨⟩
                exact ⟨by omega, Nat.le_refl _⟩
              · match star, hstar with
                | none, _ =>
                    simp only [Pass.fuel, List.length_cons, Nat.succ_mul]
                    omega
                | some (P, G), hstar =>
                    have hle := Nat.mul_le_mul_right (N + 1) (hstar P G rfl).2
                    simp only [Pass.fuel, List.length_cons] at hle ⊢
                    omega
          · split
            · refine ⟨⟨by simp only; omega, ?_⟩, ?_⟩
              · intro P G he
                have hle := hstar P G he
                simp only [List.length_cons] at hle ⊢
                exact ⟨hle.1, by omega⟩
              · match star with
                | none =>
                    simp only [Pass.fuel, List.length_cons, Nat.succ_mul]
                    omega
                | some (P, G) =>
                    simp only [Pass.fuel, List.length_cons]
                    omega
            · exact retry_shrinks ⟨by simpa using hp, hstar⟩

/-- With rounds enough the loop returns the answer. -/
theorem loop_spec {N n : Nat} (hord : s.Ordered same) (hb : s.Bounded N) (hn : s.fuel N < n) :
    ∃ b, Pass.loop same n s = some b ∧ (b = true ↔ s.Answer same) := by
  induction n generalizing s with
  | zero => exact absurd hn (Nat.not_lt_zero _)
  | succ n ih =>
      have hkeep := round_keeps hord
      have hshrink := round_shrinks same hb
      rw [Pass.loop]
      cases hr : s.round same with
      | found b =>
          rw [hr] at hkeep
          exact ⟨b, rfl, hkeep⟩
      | next t =>
          rw [hr] at hkeep hshrink
          obtain ⟨b, hb, hiff⟩ := ih hkeep.1 hshrink.1 (by have := hshrink.2; omega)
          exact ⟨b, hb, hiff.trans hkeep.2⟩

/-- `pattern_match` answers whether the string fits the pattern. -/
theorem patternMatch_eq_fits (pattern fixed : CString) (caseSensitive : Bool) :
    patternMatch pattern fixed caseSensitive = fits (sameChar caseSensitive) pattern fixed := by
  have hord : Pass.Ordered (sameChar caseSensitive) ⟨pattern, fixed, none⟩ := Or.inl rfl
  obtain ⟨b, hloop, hiff⟩ := loop_spec (N := pattern.length) (n := rounds pattern fixed) hord
    ⟨Nat.le_refl _, nofun⟩ (by simp only [Pass.fuel, rounds]; omega)
  rw [patternMatch, hloop, Option.getD_some, Bool.eq_iff_iff, hiff]
  exact ⟨fun h => h.resolve_right nofun, Or.inl⟩

/-- What a pattern stands for, as a relation: `*` for any run of characters, none
    included, `?` for exactly one, and any other character for itself up to `same`. -/
inductive Matches (same : Char → Char → Bool) : CString → CString → Prop
  | done : Matches same [] []
  | star {p f : CString} (run : CString) : Matches same p f → Matches same ('*' :: p) (run ++ f)
  | question {p f : CString} (d : Char) : Matches same p f → Matches same ('?' :: p) (d :: f)
  | other {p f : CString} {c d : Char} : c ≠ '*' → c ≠ '?' → same c d = true →
      Matches same p f → Matches same (c :: p) (d :: f)

theorem fits_of_matches (h : Matches same p f) : fits same p f = true := by
  induction h with
  | done => rfl
  | @star p f run _ ih => exact fits_star.mpr ⟨f, List.suffix_append run f, ih⟩
  | question d _ ih => simp [fits_cons, ih]
  | other hstar _ hsame _ ih => simp [fits_cons hstar, hsame, ih]

theorem matches_of_fits (h : fits same p f = true) : Matches same p f := by
  induction p generalizing f with
  | nil =>
      rw [fits_nil.mp h]
      exact .done
  | cons c p ih =>
      by_cases hc : c = '*'
      · subst hc
        obtain ⟨g, ⟨run, rfl⟩, hg⟩ := fits_star.mp h
        exact .star run (ih hg)
      · cases f with
        | nil =>
            rw [not_fits_nil hc] at h
            exact nomatch h
        | cons d f =>
            rw [fits_cons hc, Bool.and_eq_true] at h
            by_cases hq : c = '?'
            · subst hq
              exact .question d (ih h.2)
            · have hsame : same c d = true := by simpa [hq] using h.1
              exact .other hc hq hsame (ih h.2)

theorem fits_iff_matches : fits same p f = true ↔ Matches same p f :=
  ⟨matches_of_fits, fits_of_matches⟩

/-- The loop of `pattern_match` returns, after at most `rounds` rounds, and says true
    exactly of the strings the pattern stands for. -/
theorem patternMatch_returns (pattern fixed : CString) (caseSensitive : Bool) :
    (∀ n, rounds pattern fixed ≤ n → Pass.loop (sameChar caseSensitive) n ⟨pattern, fixed, none⟩
        = some (patternMatch pattern fixed caseSensitive)) ∧
      (patternMatch pattern fixed caseSensitive = true ↔
        Matches (sameChar caseSensitive) pattern fixed) := by
  constructor
  · intro n hn
    have hord : Pass.Ordered (sameChar caseSensitive) ⟨pattern, fixed, none⟩ := Or.inl rfl
    have hfuel : Pass.fuel pattern.length ⟨pattern, fixed, none⟩ < n := by
      simp only [Pass.fuel, rounds] at hn ⊢
      omega
    obtain ⟨b, hloop, hiff⟩ := loop_spec hord ⟨Nat.le_refl _, nofun⟩ hfuel
    -- The answer to the start is what the pattern says of the whole string.
    have hanswer : b = true ↔ fits (sameChar caseSensitive) pattern fixed = true :=
      hiff.trans ⟨fun h => h.resolve_right nofun, Or.inl⟩
    rw [hloop, patternMatch_eq_fits, Bool.eq_iff_iff.mpr hanswer]
  · rw [patternMatch_eq_fits, fits_iff_matches]

/-! ## Names as patterns -/

/-- `tolower` moves the capitals by 32. -/
theorem toNat_toLower (c : Char) :
    c.toLower.toNat = if 65 ≤ c.toNat ∧ c.toNat ≤ 90 then c.toNat + 32 else c.toNat := by
  rw [Char.toLower]
  by_cases h : c.val ≥ 'A'.val ∧ c.val ≤ 'Z'.val
  · have hrange : 65 ≤ c.toNat ∧ c.toNat ≤ 90 := h
    rw [dif_pos h, if_pos hrange]
    show (c.val + ('a'.val - 'A'.val)).toNat = _
    rw [UInt32.toNat_add]
    show (c.toNat + 32) % 4294967296 = _
    omega
  · have hrange : ¬ (65 ≤ c.toNat ∧ c.toNat ≤ 90) := h
    rw [dif_neg h, if_neg hrange]

/-- `toupper` moves the small letters back by 32. -/
theorem toNat_toUpper (c : Char) :
    c.toUpper.toNat = if 97 ≤ c.toNat ∧ c.toNat ≤ 122 then c.toNat - 32 else c.toNat := by
  rw [Char.toUpper]
  by_cases h : 'a'.val ≤ c.val ∧ c.val ≤ 'z'.val
  · have hrange : 97 ≤ c.toNat ∧ c.toNat ≤ 122 := h
    rw [dif_pos h, if_pos hrange]
    show (c.val + ('A'.val - 'a'.val)).toNat = _
    rw [UInt32.toNat_add]
    show (c.toNat + 4294967264) % 4294967296 = _
    omega
  · have hrange : ¬ (97 ≤ c.toNat ∧ c.toNat ≤ 122) := h
    rw [dif_neg h, if_neg hrange]

/-- Upper and lower case tell the same characters apart. -/
theorem toUpper_eq_iff {c d : Char} : c.toUpper = d.toUpper ↔ c.toLower = d.toLower := by
  rw [← Char.toNat_inj, ← Char.toNat_inj, toNat_toUpper, toNat_toUpper, toNat_toLower,
    toNat_toLower]
  split <;> split <;> split <;> split <;> omega

/-- A name fits itself, whatever its case. -/
theorem fits_of_sameName (h : sameName p f = true) : fits (sameChar false) p f = true := by
  induction p generalizing f with
  | nil =>
      cases f with
      | nil => rfl
      | cons d f => simp [sameName] at h
  | cons c p ih =>
      cases f with
      | nil => simp [sameName] at h
      | cons d f =>
          rw [sameName_iff, List.map_cons, List.map_cons, List.cons.injEq] at h
          have hrest := ih (sameName_iff.mpr h.2)
          by_cases hc : c = '*'
          · subst hc
            exact fits_star.mpr ⟨f, List.suffix_cons d f, hrest⟩
          · rw [fits_cons hc, hrest]
            simp [sameChar, toUpper_eq_iff.mpr h.1]

theorem patternMatch_of_sameName (h : sameName p f = true) : patternMatch p f false = true :=
  (patternMatch_eq_fits p f false).trans (fits_of_sameName h)

end Pattern
