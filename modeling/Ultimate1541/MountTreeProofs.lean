import Ultimate1541.MountOwnershipProofs

/-! # Entries and their paths

    The files of a tree differ in their numbers, so a file is found at one path only, but
    for case.  To remove an entry or to move it changes what is found at its own path, and
    with a directory below it, and what is found at the new path: nothing else. -/

namespace MountOwnership

open Pattern ManagedTemp MountCache

variable {t : Tree} {a b q src dst sub : List CString} {e : Entry} {n : Nat}

theorem sameNames_eq (a b : List CString) :
    sameNames a b = (a.map (List.map Char.toLower) == b.map (List.map Char.toLower)) := by
  induction a generalizing b with
  | nil => cases b <;> rfl
  | cons x a ih =>
      cases b with
      | nil => rfl
      | cons y b =>
          rw [sameNames, ih, List.map_cons, List.map_cons, List.cons_beq_cons]
          rfl

theorem sameNames_refl (a : List CString) : sameNames a a = true := by
  rw [sameNames_eq]
  exact beq_self_eq_true _

/-- A path found at one spelling is found at the other. -/
theorem sameNames_congr (h : sameNames a b = true) (p : List CString) :
    sameNames p a = sameNames p b := by
  rw [Bool.eq_iff_iff]
  exact ⟨fun hp => sameNames_trans hp h, fun hp => sameNames_trans hp (sameNames_symm h)⟩

theorem isEmpty_of_sameNames (h : sameNames a b = true) : a.isEmpty = b.isEmpty := by
  cases a with
  | nil =>
      cases b with
      | nil => rfl
      | cons => exact nomatch h
  | cons =>
      cases b with
      | nil => exact nomatch h
      | cons => rfl

theorem entry_congr (h : sameNames a b = true) : t.entry a = t.entry b := by
  rw [Tree.entry, Tree.entry, isEmpty_of_sameNames h]
  simp only [sameNames_congr h]

theorem mem_of_entry (h : t.entry sub = some e) :
    ∃ p, (p, e) ∈ t ∧ sameNames p sub = true ∧ sub ≠ [] := by
  rw [Tree.entry] at h
  split at h
  · exact nomatch h
  next hne =>
    obtain ⟨f, hf, rfl⟩ := Option.map_eq_some_iff.mp h
    exact ⟨f.1, List.mem_of_find?_eq_some hf, by simpa using List.find?_some hf,
      fun heq => hne (by rw [heq]; rfl)⟩

/-- The files of a tree have different numbers. -/
def Distinct (t : Tree) : Prop := (t.map fun e => e.2.number).Nodup

/-- A file is found at one path. -/
theorem sameNames_of_entry {e' : Entry} (h : Distinct t) (ha : t.entry a = some e)
    (hb : t.entry b = some e') (hn : e.number = e'.number) : sameNames a b = true := by
  obtain ⟨p, hp, hpa, -⟩ := mem_of_entry ha
  obtain ⟨p', hp', hpb, -⟩ := mem_of_entry hb
  have heq : (p, e) = (p', e') := List.inj_on_of_nodup_map h hp hp' hn
  cases heq
  exact sameNames_trans (sameNames_symm hpa) hpb

/-! ## New entries -/

theorem numbered_numbers (n : Nat) (contents : List (List CString × Bool)) :
    (numbered n contents).map (fun e => e.2.number) = List.range' n contents.length := by
  rw [numbered, List.map_map]
  exact List.zipIdx_map_snd n contents

theorem numbered_distinct (n : Nat) (contents : List (List CString × Bool)) :
    Distinct (numbered n contents) := by
  rw [Distinct, numbered_numbers]
  exact List.nodup_range'

theorem number_lt {contents : List (List CString × Bool)} {f : List CString × Entry}
    (h : f ∈ numbered n contents) : f.2.number < n + contents.length := by
  have hmem : f.2.number ∈ (numbered n contents).map fun e => e.2.number :=
    List.mem_map_of_mem (f := fun e : List CString × Entry => e.2.number) h
  rw [numbered_numbers, List.mem_range'_1] at hmem
  exact hmem.2

/-- A new entry leaves what is found. -/
theorem entry_append (hq : t.entry q = some e) (dst : List CString) (e' : Entry) :
    (t ++ [(dst, e')]).entry q = some e := by
  rw [Tree.entry] at hq ⊢
  split at hq
  · exact nomatch hq
  next hqne =>
    rw [if_neg hqne, List.find?_append]
    obtain ⟨f, hf, rfl⟩ := Option.map_eq_some_iff.mp hq
    rw [hf]
    rfl

/-- It is found at its own path. -/
theorem entry_append_self (hnew : t.entry dst = none) (hne : dst ≠ []) (e' : Entry) :
    (t ++ [(dst, e')]).entry dst = some e' := by
  have hempty : ¬ dst.isEmpty = true := by
    rw [List.isEmpty_iff]
    exact hne
  rw [Tree.entry, if_neg hempty] at hnew ⊢
  rw [List.find?_append, Option.map_eq_none_iff.mp hnew, Option.none_or,
    List.find?_cons_of_pos (by exact sameNames_refl dst)]
  rfl

/-! ## Entries that go -/

theorem find_eraseP {α : Type} {p r : α → Bool} (l : List α) (h : ∀ x, p x = true → ¬ r x = true) :
    (l.eraseP p).find? r = l.find? r := by
  induction l with
  | nil => rfl
  | cons x l ih =>
      by_cases hx : p x = true
      · rw [List.eraseP_cons_of_pos hx, List.find?_cons_of_neg (h x hx)]
      · rw [List.eraseP_cons_of_neg hx]
        by_cases hr : r x = true
        · rw [List.find?_cons_of_pos hr, List.find?_cons_of_pos hr]
        · rw [List.find?_cons_of_neg hr, List.find?_cons_of_neg hr, ih]

theorem entry_remove (hsrc : ¬ sameNames q src = true) : (t.remove src).entry q = t.entry q := by
  rw [Tree.entry, Tree.entry, Tree.remove, find_eraseP]
  intro x hx hxq
  exact hsrc (sameNames_trans (sameNames_symm hxq) hx)

theorem mem_of_mem_remove {f : List CString × Entry} (h : f ∈ t.remove src) : f ∈ t :=
  List.mem_of_mem_eraseP h

theorem remove_distinct (h : Distinct t) : Distinct (t.remove src) :=
  h.sublist (List.eraseP_sublist.map _)

/-! ## Entries that move -/

theorem under_congr (h : sameNames a b = true) (dir : List CString) : under dir a = under dir b := by
  induction dir generalizing a b with
  | nil => rw [under, under, isEmpty_of_sameNames h]
  | cons d dir ih =>
      cases a with
      | nil =>
          cases b with
          | nil => rfl
          | cons => exact nomatch h
      | cons x a =>
          cases b with
          | nil => exact nomatch h
          | cons y b =>
              rw [sameNames, Bool.and_eq_true] at h
              rw [under, under, ih h.2, sameName_congr h.1]

theorem under_append (h : b ≠ []) : under a (a ++ b) = true := by
  induction a with
  | nil =>
      cases b with
      | nil => exact absurd rfl h
      | cons => rfl
  | cons x a ih =>
      rw [List.cons_append, under, ih, sameName_refl]
      rfl

theorem drop_ne_nil (h : under a b = true) : b.drop a.length ≠ [] := by
  induction a generalizing b with
  | nil =>
      cases b with
      | nil => exact nomatch h
      | cons => exact List.cons_ne_nil _ _
  | cons x a ih =>
      cases b with
      | nil => exact nomatch h
      | cons y b =>
          rw [under, Bool.and_eq_true] at h
          exact ih h.2

/-- Where what is changed is found neither before nor after. -/
theorem find_map {α : Type} {g : α → α} {r : α → Bool} (l : List α)
    (h : ∀ x, g x = x ∨ (¬ r (g x) = true ∧ ¬ r x = true)) : (l.map g).find? r = l.find? r := by
  induction l with
  | nil => rfl
  | cons x l ih =>
      rw [List.map_cons]
      rcases h x with hx | ⟨hafter, hbefore⟩
      · rw [hx]
        by_cases hr : r x = true
        · rw [List.find?_cons_of_pos hr, List.find?_cons_of_pos hr]
        · rw [List.find?_cons_of_neg hr, List.find?_cons_of_neg hr, ih]
      · rw [List.find?_cons_of_neg hafter, List.find?_cons_of_neg hbefore, ih]

theorem entry_move (hto : ¬ sameNames dst q = true) (hdst : ¬ under dst q = true)
    (hfrom : ¬ sameNames q src = true) (hsrc : ¬ (e.isDir && under src q) = true) :
    (t.move src dst e).entry q = t.entry q := by
  rw [← entry_remove (t := t) hfrom, Tree.entry, Tree.entry, Tree.move,
    List.find?_cons_of_neg (by exact hto), find_map]
  intro f
  by_cases hmoves : (e.isDir && under src f.1) = true
  · right
    rw [if_pos hmoves]
    rw [Bool.and_eq_true] at hmoves
    constructor
    · intro h
      refine hdst ?_
      rw [← under_congr h]
      exact under_append (drop_ne_nil hmoves.2)
    · intro h
      refine hsrc ?_
      rw [← under_congr h, Bool.and_eq_true]
      exact hmoves
  · exact Or.inl (if_neg hmoves)

/-- A move changes paths only. -/
theorem numbers_move (dst : List CString) (h : t.entry src = some e) :
    ((t.move src dst e).map fun f => f.2.number).Perm (t.map fun f => f.2.number) := by
  obtain ⟨p, hp, hsame, hne⟩ := mem_of_entry h
  obtain ⟨f, l₁, l₂, hl₁, hf, ht, herase⟩ := List.exists_of_eraseP (p := fun f : List CString × Entry => sameNames f.1 src) hp hsame
  have hfind : t.find? (fun f => sameNames f.1 src) = some f := by
    rw [ht, List.find?_append, List.find?_eq_none.mpr hl₁, Option.none_or,
      List.find?_cons_of_pos (by exact hf)]
  have he : f.2 = e := by
    rw [Tree.entry, hfind] at h
    split at h
    · exact nomatch h
    · exact Option.some.inj h
  have hsame : ∀ l : Tree, (l.map fun f =>
      if e.isDir && under src f.1 then (dst ++ f.1.drop src.length, f.2) else f).map
        (fun f => f.2.number) = l.map fun f => f.2.number := by
    intro l
    rw [List.map_map]
    refine List.map_congr_left fun f _ => ?_
    rw [Function.comp]
    split <;> rfl
  rw [Tree.move, List.map_cons, hsame, Tree.remove, herase]
  rw [ht, List.map_append, List.map_append, List.map_cons, he]
  exact List.perm_middle.symm

end MountOwnership
