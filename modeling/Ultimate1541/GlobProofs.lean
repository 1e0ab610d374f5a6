import Mathlib

/-! # Matching with stars in one pass

    A pattern is read from the front: it is at its end, it begins with a star, or
    it begins with something that stands for one character (`Head`).  How the rest
    of it is cut into such pieces is left to a parameter `head`, which need not
    know the text.  That is all it takes for the usual matcher to be right: it
    goes through pattern and text together, and when a character does not match
    it lets the last star take one more character and tries again from there.
    No star before the last one has to be tried again (`star_covers`).

    `loop_spec` says that with rounds enough the pass returns, and that its answer
    is whether the text is one the pattern stands for (`Fits`). -/

namespace Glob

/-- The front of a pattern. -/
inductive Head (P α : Type) where
  | done
  | star (rest : P)
  | one (ok : α → Bool) (rest : P)

variable {P α : Type}

/-- The texts a pattern stands for. -/
inductive Fits (head : P → Head P α) : P → List α → Prop
  | done {p : P} : head p = .done → Fits head p []
  | star {p q : P} {f : List α} (run : List α) : head p = .star q → Fits head q f →
      Fits head p (run ++ f)
  | one {p q : P} {ok : α → Bool} {d : α} {f : List α} : head p = .one ok q → ok d = true →
      Fits head q f → Fits head p (d :: f)

variable {head : P → Head P α} {p q : P} {f : List α} {d : α} {ok : α → Bool}

theorem fits_done (h : head p = .done) : Fits head p f ↔ f = [] := by
  constructor
  · intro hf
    cases hf with
    | done _ => rfl
    | star _ hs _ => exact nomatch h.symm.trans hs
    | one ho _ _ => exact nomatch h.symm.trans ho
  · rintro rfl
    exact .done h

theorem fits_star (h : head p = .star q) : Fits head p f ↔ ∃ g, g <:+ f ∧ Fits head q g := by
  constructor
  · intro hf
    cases hf with
    | done hd => exact nomatch h.symm.trans hd
    | @star _ _ g run hs hq =>
        cases h.symm.trans hs
        exact ⟨g, List.suffix_append run g, hq⟩
    | one ho _ _ => exact nomatch h.symm.trans ho
  · rintro ⟨g, ⟨run, rfl⟩, hq⟩
    exact .star run h hq

theorem fits_one (h : head p = .one ok q) :
    Fits head p (d :: f) ↔ ok d = true ∧ Fits head q f := by
  constructor
  · intro hf
    generalize he : d :: f = t at hf
    cases hf with
    | done _ => exact nomatch he
    | star _ hs _ => exact nomatch h.symm.trans hs
    | one ho hok hq =>
        cases he
        cases h.symm.trans ho
        exact ⟨hok, hq⟩
  · rintro ⟨hok, hq⟩
    exact .one h hok hq

theorem not_fits_one_nil (h : head p = .one ok q) : ¬ Fits head p [] := by
  intro hf
  generalize he : ([] : List α) = t at hf
  cases hf with
  | done hd => exact nomatch h.symm.trans hd
  | star _ hs _ => exact nomatch h.symm.trans hs
  | one _ _ _ => exact nomatch he

/-! ## The pass -/

/-- Where the pass stands, and for the last star the pattern behind it with the
    text last tried there. -/
structure Pass (P α : Type) where
  p : P
  f : List α
  star : Option (P × List α)

/-- A round returns, goes on, or would look behind the end of the text. -/
inductive Round (P α : Type) where
  | found (b : Bool)
  | next (s : Pass P α)
  | past

/-- The last star takes one more character. -/
def Pass.retry (s : Pass P α) : Round P α :=
  match s.star with
  | none => .found false
  | some (_, []) => .past
  | some (p, _ :: f) => .next ⟨p, f, some (p, f)⟩

/-- One round; `ends` says of a pattern that it stands for nothing at all. -/
def Pass.round (head : P → Head P α) (ends : P → Bool) (s : Pass P α) : Round P α :=
  match s.f with
  | [] => .found (ends s.p)
  | d :: f =>
      match head s.p with
      | .done => s.retry
      | .star q => .next ⟨q, d :: f, some (q, d :: f)⟩
      | .one ok q => if ok d = true then .next ⟨q, f, s.star⟩ else s.retry

/-- At most `n` rounds. -/
def loop (round : Pass P α → Round P α) : Nat → Pass P α → Option Bool
  | 0, _ => none
  | n + 1, s =>
      match round s with
      | .found b => some b
      | .next s => loop round n s
      | .past => none

/-! ## What a round keeps -/

/-- From `q` to `p` there are `n` single characters and no star. -/
inductive Singles (head : P → Head P α) : Nat → P → P → Prop
  | refl (p : P) : Singles head 0 p p
  | step {n : Nat} {p q r : P} {ok : α → Bool} : Singles head n p q → head q = .one ok r →
      Singles head (n + 1) p r

/-- What fits in front of single characters has their number in front, too. -/
theorem Singles.split {n : Nat} (h : Singles head n q p) {g : List α} (hg : Fits head q g) :
    ∃ g₁ g₂, g = g₁ ++ g₂ ∧ g₁.length = n ∧ Fits head p g₂ := by
  induction h with
  | refl p => exact ⟨[], g, rfl, rfl, hg⟩
  | @step n q p r ok _ hhead ih =>
      obtain ⟨g₁, g₂, rfl, hlen, hfit⟩ := ih hg
      cases g₂ with
      | nil => exact absurd hfit (not_fits_one_nil hhead)
      | cons d g₂ =>
          refine ⟨g₁ ++ [d], g₂, ?_, ?_, ((fits_one hhead).mp hfit).2⟩
          · rw [List.append_assoc]
            rfl
          · rw [List.length_append, hlen]
            rfl

/-- Since the last star the characters were compared one by one. -/
def Pass.Ordered (head : P → Head P α) (s : Pass P α) : Prop :=
  ∀ q G, s.star = some (q, G) → ∃ n H, G = H ++ s.f ∧ H.length = n ∧ Singles head n q s.p

/-- What the pass is still to answer. -/
def Pass.Answer (head : P → Head P α) (s : Pass P α) : Prop :=
  Fits head s.p s.f ∨
    ∃ q d G, s.star = some (q, d :: G) ∧ ∃ g, g <:+ G ∧ Fits head q g

/-- What is returned is the answer, and going on keeps it. -/
def Round.Keeps (head : P → Head P α) (s : Pass P α) : Round P α → Prop
  | .found b => b = true ↔ s.Answer head
  | .next t => t.Ordered head ∧ (t.Answer head ↔ s.Answer head)
  | .past => False

variable {s : Pass P α}

theorem ordered_start (p : P) (f : List α) : Pass.Ordered head ⟨p, f, none⟩ :=
  fun _ _ h => nomatch h

theorem answer_start (p : P) (f : List α) : Pass.Answer head ⟨p, f, none⟩ ↔ Fits head p f := by
  constructor
  · rintro (h | ⟨_, _, _, h, _⟩)
    · exact h
    · exact nomatch h
  · exact Or.inl

/-- Going back to the last star, with text left. -/
theorem retry_keeps (h : s.Ordered head) (hf : s.f ≠ []) (hno : ¬ Fits head s.p s.f) :
    s.retry.Keeps head s := by
  obtain ⟨p, f, star⟩ := s
  cases star with
  | none =>
      refine ⟨(fun hb => nomatch hb), ?_⟩
      rintro (hfit | ⟨_, _, _, hs, _⟩)
      · exact absurd hfit hno
      · exact nomatch hs
  | some tried =>
      obtain ⟨q, G⟩ := tried
      cases G with
      | nil =>
          -- what is left of the text is behind the star
          obtain ⟨n, H, hG, -⟩ := h q [] rfl
          exact hf (List.append_eq_nil_iff.mp hG.symm).2
      | cons d G =>
          refine ⟨?_, ?_⟩
          · rintro q' G' hs
            cases hs
            exact ⟨0, [], rfl, rfl, .refl q⟩
          · constructor
            · rintro (hfit | ⟨q', e, G', hs, g, hg, hfit⟩)
              · exact Or.inr ⟨q, d, G, rfl, G, List.suffix_rfl, hfit⟩
              · cases hs
                exact Or.inr ⟨q, d, e :: G', rfl, g, hg.trans (List.suffix_cons e G'), hfit⟩
            · rintro (hfit | ⟨q', e, G', hs, g, hg, hfit⟩)
              · exact absurd hfit hno
              · cases hs
                cases G with
                | nil =>
                    rw [List.suffix_nil.mp hg] at hfit
                    exact Or.inl hfit
                | cons e G' =>
                    rcases List.suffix_cons_iff.mp hg with rfl | hg
                    · exact Or.inl hfit
                    · exact Or.inr ⟨q, e, G', rfl, g, hg, hfit⟩

/-- **THE LAST STAR IS ENOUGH**: where a star comes behind single characters,
    whatever a try further on at the star before them would match, this one
    matches as well. -/
theorem star_covers {n : Nat} {r : P} {H G g : List α} (hH : H.length = n)
    (hsing : Singles head n r p) (hp : head p = .star q) (hG : d :: G = H ++ f) (hg : g <:+ G)
    (hfit : Fits head r g) : Fits head p f := by
  obtain ⟨g₁, g₂, rfl, hlen, hfit'⟩ := hsing.split hfit
  obtain ⟨k, hk, hq⟩ := (fits_star hp).mp hfit'
  refine (fits_star hp).mpr ⟨k, hk.trans ?_, hq⟩
  -- `g₂` ends the text, and is not longer than `f`
  have hsuf : g₂ <:+ H ++ f := by
    rw [← hG]
    exact ((List.suffix_append g₁ g₂).trans hg).trans (List.suffix_cons d G)
  refine List.suffix_of_suffix_length_le hsuf (List.suffix_append H f) ?_
  have h1 := hg.length_le
  have h2 := congrArg List.length hG
  rw [List.length_append] at h1 h2
  rw [List.length_cons] at h2
  omega

/-- The round at a star. -/
theorem star_keeps {star : Option (P × List α)} (hp : head p = .star q)
    (h : (⟨p, d :: f, star⟩ : Pass P α).Ordered head) :
    (Round.next ⟨q, d :: f, some (q, d :: f)⟩).Keeps head ⟨p, d :: f, star⟩ := by
  have hnew : Pass.Answer head ⟨q, d :: f, some (q, d :: f)⟩ ↔ Fits head p (d :: f) := by
    rw [fits_star hp]
    constructor
    · rintro (hfit | ⟨_, _, _, hs, g, hg, hfit⟩)
      · exact ⟨_, List.suffix_rfl, hfit⟩
      · cases hs
        exact ⟨g, hg.trans (List.suffix_cons _ _), hfit⟩
    · rintro ⟨g, hg, hfit⟩
      rcases List.suffix_cons_iff.mp hg with rfl | hg
      · exact Or.inl hfit
      · exact Or.inr ⟨q, d, f, rfl, g, hg, hfit⟩
  refine ⟨?_, hnew.trans ⟨Or.inl, ?_⟩⟩
  · rintro q' G' hs
    cases hs
    exact ⟨0, [], rfl, rfl, .refl q⟩
  · rintro (hfit | ⟨r, e, G, hs, g, hg, hfit⟩)
    · exact hfit
    · obtain ⟨n, H, hG, hH, hsing⟩ := h r (e :: G) hs
      exact star_covers hH hsing hp hG hg hfit

/-- The round that matches one character. -/
theorem one_keeps {star : Option (P × List α)} (hp : head p = .one ok q) (hok : ok d = true)
    (h : (⟨p, d :: f, star⟩ : Pass P α).Ordered head) :
    (Round.next ⟨q, f, star⟩).Keeps head ⟨p, d :: f, star⟩ := by
  refine ⟨?_, ?_⟩
  · intro r G hs
    obtain ⟨n, H, hG, hH, hsing⟩ := h r G hs
    refine ⟨n + 1, H ++ [d], ?_, ?_, hsing.step hp⟩
    · rw [hG, List.append_assoc]
      rfl
    · rw [List.length_append, hH]
      rfl
  · refine or_congr ?_ Iff.rfl
    rw [fits_one hp]
    exact ⟨fun hfit => ⟨hok, hfit⟩, fun hfit => hfit.2⟩

variable {ends : P → Bool}

/-- One round keeps the answer. -/
theorem round_keeps (hends : ∀ p, ends p = true ↔ Fits head p []) (h : s.Ordered head) :
    (s.round head ends).Keeps head s := by
  obtain ⟨p, f, star⟩ := s
  cases f with
  | nil =>
      -- nothing is left for a star to take
      refine (hends p).trans ⟨Or.inl, ?_⟩
      rintro (hfit | ⟨q, d, G, hs, g, hg, hfit⟩)
      · exact hfit
      · obtain ⟨n, H, hG, hH, hsing⟩ := h q (d :: G) hs
        obtain ⟨g₁, g₂, rfl, hlen, hfit'⟩ := hsing.split hfit
        have h1 := hg.length_le
        have h2 := congrArg List.length hG
        rw [List.length_append] at h1 h2
        rw [List.length_cons, List.length_nil] at h2
        omega
  | cons d f =>
      rw [Pass.round]
      dsimp only
      cases hp : head p with
      | done =>
          refine retry_keeps h (List.cons_ne_nil d f) fun hfit => ?_
          exact nomatch (fits_done hp).mp hfit
      | star q => exact star_keeps hp h
      | one ok q =>
          dsimp only
          by_cases hok : ok d = true
          · rw [if_pos hok]
            exact one_keeps hp hok h
          · rw [if_neg hok]
            exact retry_keeps h (List.cons_ne_nil d f) fun hfit => hok ((fits_one hp).mp hfit).1

/-! ## The rounds end -/

/-- `size` goes down with what is read of a pattern. -/
structure Measures (size : P → Nat) (head : P → Head P α) : Prop where
  star : ∀ p q, head p = .star q → size q < size p
  one : ∀ p ok q, head p = .one ok q → size q < size p

variable {size : P → Nat}

/-- How many rounds are left, for patterns of size `N`. -/
def Pass.fuel (size : P → Nat) (N : Nat) (s : Pass P α) : Nat :=
  (match s.star with
    | none => s.f.length + 1
    | some (_, G) => G.length) * (N + 1) + size s.p

/-- The patterns are not larger than `N`, and the text behind the last star holds
    what is left. -/
def Pass.Bounded (size : P → Nat) (N : Nat) (s : Pass P α) : Prop :=
  size s.p ≤ N ∧ ∀ q G, s.star = some (q, G) → size q ≤ N ∧ s.f.length ≤ G.length

/-- What a round goes on to is bounded, with fewer rounds left. -/
def Round.Shrinks (size : P → Nat) (N : Nat) (s : Pass P α) : Round P α → Prop
  | .found _ => True
  | .next t => t.Bounded size N ∧ t.fuel size N < s.fuel size N
  | .past => True

theorem retry_shrinks {N : Nat} (h : s.Bounded size N) : s.retry.Shrinks size N s := by
  obtain ⟨p, f, star⟩ := s
  match star with
  | none => trivial
  | some (_, []) => trivial
  | some (q, d :: G) =>
      obtain ⟨hq, -⟩ := h.2 q (d :: G) rfl
      refine ⟨⟨hq, ?_⟩, ?_⟩
      · rintro q' G' ⟨⟩
        exact ⟨hq, Nat.le_refl _⟩
      · simp only [Pass.fuel, List.length_cons, Nat.succ_mul]
        omega

theorem round_shrinks (hsize : Measures size head) {N : Nat} (h : s.Bounded size N) :
    (s.round head ends).Shrinks size N s := by
  obtain ⟨p, f, star⟩ := s
  cases f with
  | nil => trivial
  | cons d f =>
      rw [Pass.round]
      dsimp only
      cases hp : head p with
      | done => exact retry_shrinks h
      | star q =>
          have hlt := hsize.star p q hp
          obtain ⟨hle, hstar⟩ := h
          simp only at hle
          refine ⟨⟨by simp only; omega, ?_⟩, ?_⟩
          · rintro q' G' ⟨⟩
            exact ⟨by omega, Nat.le_refl _⟩
          · match star, hstar with
            | none, _ =>
                simp only [Pass.fuel, List.length_cons, Nat.succ_mul]
                omega
            | some (r, G), hstar =>
                have hmul := Nat.mul_le_mul_right (N + 1) (hstar r G rfl).2
                simp only [Pass.fuel, List.length_cons] at hmul ⊢
                omega
      | one ok q =>
          have hlt := hsize.one p ok q hp
          dsimp only
          by_cases hok : ok d = true
          · rw [if_pos hok]
            obtain ⟨hle, hstar⟩ := h
            simp only at hle
            refine ⟨⟨by simp only; omega, ?_⟩, ?_⟩
            · intro r G hs
              have hr := hstar r G hs
              simp only [List.length_cons] at hr ⊢
              exact ⟨hr.1, by omega⟩
            · match star with
              | none =>
                  simp only [Pass.fuel, List.length_cons, Nat.succ_mul]
                  omega
              | some (r, G) =>
                  simp only [Pass.fuel]
                  omega
          · rw [if_neg hok]
            exact retry_shrinks h

/-- With rounds enough the pass returns the answer. -/
theorem loop_spec (hends : ∀ p, ends p = true ↔ Fits head p []) (hsize : Measures size head)
    {N n : Nat} (hord : s.Ordered head) (hb : s.Bounded size N) (hn : s.fuel size N < n) :
    ∃ b, loop (Pass.round head ends) n s = some b ∧ (b = true ↔ s.Answer head) := by
  induction n generalizing s with
  | zero => exact absurd hn (Nat.not_lt_zero _)
  | succ n ih =>
      have hkeep := round_keeps hends hord
      have hshrink : (s.round head ends).Shrinks size N s := round_shrinks hsize hb
      rw [loop]
      cases hr : s.round head ends with
      | found b =>
          rw [hr] at hkeep
          exact ⟨b, rfl, hkeep⟩
      | next t =>
          rw [hr] at hkeep hshrink
          obtain ⟨b, hloop, hiff⟩ := ih hkeep.1 hshrink.1 (by have := hshrink.2; omega)
          exact ⟨b, hloop, hiff.trans hkeep.2⟩
      | past =>
          rw [hr] at hkeep
          exact hkeep.elim

/-- The pass over a pattern and a text says whether the one stands for the
    other. -/
theorem loop_start (hends : ∀ p, ends p = true ↔ Fits head p []) (hsize : Measures size head)
    (p : P) (f : List α) {n : Nat} (hn : (f.length + 1) * (size p + 1) + size p < n) :
    ∃ b, loop (Pass.round head ends) n ⟨p, f, none⟩ = some b ∧ (b = true ↔ Fits head p f) := by
  obtain ⟨b, hloop, hiff⟩ := loop_spec hends hsize (ordered_start p f)
    ⟨Nat.le_refl (size p), fun _ _ h => nomatch h⟩ hn
  exact ⟨b, hloop, hiff.trans (answer_start p f)⟩

end Glob
