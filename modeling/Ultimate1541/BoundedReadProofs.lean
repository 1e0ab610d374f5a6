import Mathlib

/-! # Reading from memory that ends

    A library for code that reads a buffer whose useful part ends somewhere.  A `Read`
    gives a value, or none where it would read past the memory it was given; that it
    gives the same value on a longer memory is part of what a `Read` is.  So a read that
    succeeds on the useful part alone does not depend on what lies behind it. -/

namespace BoundedRead

/-- A computation over a memory of `β`, seen from its first place on. -/
structure Read (β α : Type) where
  run : List β → Option α
  grows : ∀ m x a, run m = some a → run (m ++ x) = some a

variable {β α γ : Type}

namespace Read

/-- Nothing is read. -/
protected def pure (a : α) : Read β α := ⟨fun _ => some a, fun _ _ _ h => h⟩

/-- One computation after another. -/
protected def bind (p : Read β α) (f : α → Read β γ) : Read β γ where
  run m := (p.run m).bind fun a => (f a).run m
  grows := by
    intro m x c h
    obtain ⟨a, ha, hc⟩ := Option.bind_eq_some_iff.mp h
    exact Option.bind_eq_some_iff.mpr ⟨a, p.grows m x a ha, (f a).grows m x c hc⟩

instance : Monad (Read β) where
  pure := Read.pure
  bind := Read.bind

/-- A place outside is read. -/
def overrun : Read β α := ⟨fun _ => none, fun _ _ _ h => nomatch h⟩

/-- The byte at a place. -/
def byte (i : Nat) : Read β β where
  run m := m[i]?
  grows := by
    intro m x a h
    rw [List.getElem?_append_left (List.getElem?_eq_some_iff.mp h).1, h]

/-- The first bytes. -/
def firstBytes (n : Nat) : Read β (List β) where
  run m := if n ≤ m.length then some (m.take n) else none
  grows := by
    intro m x a h
    by_cases hn : n ≤ m.length
    · rw [if_pos hn] at h
      rw [if_pos (by rw [List.length_append]; omega), List.take_append_of_le_length hn, h]
    · rw [if_neg hn] at h
      exact nomatch h

section Strings

variable [DecidableEq β]

/-- What stands before the first `stop`. -/
def untilStop (stop : β) : List β → Option (List β)
  | [] => none
  | b :: m => if b = stop then some [] else (untilStop stop m).map (b :: ·)

/-- At most `n` bytes, up to the first `stop`. -/
def takeUntil (stop : β) : Nat → List β → Option (List β)
  | 0, _ => some []
  | _ + 1, [] => none
  | n + 1, b :: m => if b = stop then some [] else (takeUntil stop n m).map (b :: ·)

theorem untilStop_append (stop : β) (x : List β) : ∀ (m s : List β),
    untilStop stop m = some s → untilStop stop (m ++ x) = some s := by
  intro m
  induction m with
  | nil => exact fun _ h => nomatch h
  | cons b m ih =>
      intro s h
      rw [List.cons_append, untilStop]
      rw [untilStop] at h
      by_cases hb : b = stop
      · rw [if_pos hb] at h ⊢
        exact h
      · rw [if_neg hb] at h ⊢
        obtain ⟨s', hs', rfl⟩ := Option.map_eq_some_iff.mp h
        rw [ih s' hs']
        rfl

theorem takeUntil_append (stop : β) (x : List β) (n : Nat) : ∀ (m s : List β),
    takeUntil stop n m = some s → takeUntil stop n (m ++ x) = some s := by
  induction n with
  | zero => exact fun _ _ h => h
  | succ n ih =>
      intro m s h
      cases m with
      | nil => exact nomatch h
      | cons b m =>
          rw [List.cons_append, takeUntil]
          rw [takeUntil] at h
          by_cases hb : b = stop
          · rw [if_pos hb] at h ⊢
            exact h
          · rw [if_neg hb] at h ⊢
            obtain ⟨s', hs', rfl⟩ := Option.map_eq_some_iff.mp h
            rw [ih m s' hs']
            rfl

/-- A string from `off` on, which ends before `stop`. -/
def string (stop : β) (off : Nat) : Read β (List β) where
  run m := untilStop stop (m.drop off)
  grows := by
    intro m x s h
    have hle : off ≤ m.length := by
      by_contra hgt
      rw [List.drop_eq_nil_of_le (by omega)] at h
      exact nomatch h
    rw [List.drop_append_of_le_length hle]
    exact untilStop_append stop x _ s h

/-- At most `n` bytes of a string from `off` on. -/
def stringUpTo (stop : β) (off n : Nat) : Read β (List β) where
  run m := takeUntil stop n (m.drop off)
  grows := by
    intro m x s h
    by_cases hle : off ≤ m.length
    · rw [List.drop_append_of_le_length hle]
      exact takeUntil_append stop x n _ s h
    · cases n with
      | zero => exact h
      | succ n =>
          rw [List.drop_eq_nil_of_le (by omega)] at h
          exact nomatch h

end Strings

/-! ## Reads that succeed -/

/-- The memory suffices. -/
def Succeeds (m : List β) (p : Read β α) : Prop := (p.run m).isSome = true

instance (m : List β) (p : Read β α) : Decidable (Succeeds m p) :=
  inferInstanceAs (Decidable (_ = true))

variable {m : List β} {p : Read β α}

/-- A read that succeeds on the useful part does not depend on what lies behind. -/
theorem Succeeds.same (h : Succeeds m p) (x y : List β) : p.run (m ++ x) = p.run (m ++ y) := by
  obtain ⟨a, ha⟩ := Option.isSome_iff_exists.mp h
  rw [p.grows m x a ha, p.grows m y a ha]

theorem succeeds_pure (a : α) : Succeeds m (pure a : Read β α) := rfl

theorem succeeds_bind {f : α → Read β γ} (h : Succeeds m p)
    (hf : ∀ a, p.run m = some a → Succeeds m (f a)) : Succeeds m (p >>= f) := by
  obtain ⟨a, ha⟩ := Option.isSome_iff_exists.mp h
  have hrun : (p >>= f).run m = (f a).run m := by
    show (p.run m).bind _ = _
    rw [ha]
    rfl
  rw [Succeeds, hrun]
  exact hf a ha

theorem succeeds_ite {c : Prop} [Decidable c] {q : Read β α} (hp : Succeeds m p)
    (hq : Succeeds m q) : Succeeds m (if c then p else q) := by
  split
  · exact hp
  · exact hq

theorem succeeds_byte {i : Nat} (hi : i < m.length) : Succeeds m (byte i) := by
  simp [Succeeds, byte, hi]

theorem succeeds_firstBytes {n : Nat} (hn : n ≤ m.length) : Succeeds m (firstBytes n) := by
  simp [Succeeds, firstBytes, hn]

theorem firstBytes_eq {n : Nat} {bs : List β} (h : (firstBytes n).run m = some bs) :
    bs = m.take n := by
  by_cases hn : n ≤ m.length
  · simp only [firstBytes, if_pos hn, Option.some.injEq] at h
    exact h.symm
  · simp [firstBytes, hn] at h

section Strings

variable [DecidableEq β] {stop : β}

theorem isSome_untilStop : ∀ {m : List β}, stop ∈ m → (untilStop stop m).isSome = true := by
  intro m
  induction m with
  | nil => exact fun h => nomatch h
  | cons b m ih =>
      intro h
      rw [untilStop]
      by_cases hb : b = stop
      · rw [if_pos hb]
        rfl
      · rw [if_neg hb, Option.isSome_map]
        exact ih ((List.mem_cons.mp h).resolve_left fun heq => hb heq.symm)

theorem isSome_takeUntil (n : Nat) : ∀ {m : List β}, n ≤ m.length ∨ stop ∈ m →
    (takeUntil stop n m).isSome = true := by
  induction n with
  | zero => exact fun _ => rfl
  | succ n ih =>
      intro m h
      cases m with
      | nil => exact h.elim (fun h => absurd h (by simp)) fun h => nomatch h
      | cons b m =>
          rw [takeUntil]
          by_cases hb : b = stop
          · rw [if_pos hb]
            rfl
          · rw [if_neg hb, Option.isSome_map]
            refine ih (h.imp (fun h => ?_) fun h => ?_)
            · rw [List.length_cons] at h
              omega
            · exact (List.mem_cons.mp h).resolve_left fun heq => hb heq.symm

omit [DecidableEq β] in
/-- A memory that ends with `stop`. -/
theorem mem_drop_concat {bs : List β} {off : Nat} (h : off ≤ bs.length) :
    stop ∈ (bs ++ [stop]).drop off := by
  rw [List.drop_append_of_le_length h]
  exact List.mem_append_right _ (by simp)

theorem succeeds_string {bs : List β} {off : Nat} (h : off ≤ bs.length) :
    Succeeds (bs ++ [stop]) (string stop off) := isSome_untilStop (mem_drop_concat h)

theorem succeeds_stringUpTo {bs : List β} {off n : Nat} (h : off ≤ bs.length) :
    Succeeds (bs ++ [stop]) (stringUpTo stop off n) :=
  isSome_takeUntil n (.inr (mem_drop_concat h))

/-- The string is what stands in memory up to `stop`. -/
theorem untilStop_spec : ∀ {m s : List β}, untilStop stop m = some s → ∃ rest, m = s ++ stop :: rest := by
  intro m
  induction m with
  | nil => exact fun h => nomatch h
  | cons b m ih =>
      intro s h
      rw [untilStop] at h
      by_cases hb : b = stop
      · rw [if_pos hb] at h
        cases h
        exact ⟨m, by rw [hb, List.nil_append]⟩
      · rw [if_neg hb] at h
        obtain ⟨s', hs', rfl⟩ := Option.map_eq_some_iff.mp h
        obtain ⟨rest, rfl⟩ := ih hs'
        exact ⟨rest, rfl⟩

/-- A string that is not cut short before `i` has `i` bytes. -/
theorem length_takeUntil (n : Nat) : ∀ {m s : List β} {i : Nat}, takeUntil stop n m = some s →
    i ≤ n → i ≤ m.length → (∀ j < i, m[j]? ≠ some stop) → i ≤ s.length := by
  induction n with
  | zero =>
      intro m s i _ hi _ _
      omega
  | succ n ih =>
      intro m s i h hi hlen hne
      cases i with
      | zero => exact Nat.zero_le _
      | succ i =>
          cases m with
          | nil => exact nomatch h
          | cons b m =>
              rw [takeUntil] at h
              have hb : b ≠ stop := fun heq => hne 0 (by omega) (by simp [heq])
              rw [if_neg hb] at h
              obtain ⟨s', hs', rfl⟩ := Option.map_eq_some_iff.mp h
              rw [List.length_cons] at hlen ⊢
              have hrest := ih (i := i) hs' (by omega) (by omega) fun j hj => by
                simpa using hne (j + 1) (by omega)
              omega

omit [DecidableEq β] in
/-- A byte other than `stop` stands before the end. -/
theorem byte_lt {bs : List β} {i : Nat} {b : β} (h : (byte i).run (bs ++ [stop]) = some b)
    (hb : b ≠ stop) : i < bs.length := by
  by_contra hge
  have hi : (bs ++ [stop])[i]? = some b := h
  rw [List.getElem?_append_right (by omega)] at hi
  have hmem := List.mem_of_getElem? hi
  exact hb (List.mem_singleton.mp hmem)

end Strings

end Read

end BoundedRead
