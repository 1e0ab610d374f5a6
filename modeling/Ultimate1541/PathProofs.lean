import Mathlib

/-! # Paths

    A `Path` keeps its elements in an array, and beside them the full path: a slash, and each
    element with a slash behind it.  `cd` takes a string apart at its slashes and edits both;
    `up` finds the end of the shorter path by looking back for a slash, and throws the last
    element away.

    What the two say is a list of elements, `Represents`, and every `cd` keeps it.  A `cd`
    that fails has gone up from the root, and has left the path there. -/

namespace FilePath

/-- The characters of a C string. -/
abbrev Text := List Char

/-- `ManagedArray<mstring *>`: `none` where no string is. -/
abbrev Elements := Int → Option Text

/-- `set`, which ignores an index below 0. -/
def Elements.set (elements : Elements) (i : Int) (e : Option Text) : Elements :=
  if i < 0 then elements else Function.update elements i e

/-- The fields of `Path`. -/
structure Path where
  fullPath : Text
  elements : Elements
  depth : Int

/-- `Path::Path()`. -/
def root : Path := ⟨['/'], fun _ => none, 0⟩

def isSep (c : Char) : Bool := c == '/' || c == '\\'

namespace Path

/-- `update(i, p)`. -/
def update (s : Path) (i : Int) (p : Text) : Path :=
  match s.elements i with
  | none => { s with elements := s.elements.set i (some p) }
  | some old => if old = p then s else { s with elements := s.elements.set i (some p) }

/-- `cleanupElements`. -/
def cleanupElements (s : Path) : Path where
  fullPath := ['/']
  elements i := if 0 ≤ i ∧ i < s.depth then none else s.elements i
  depth := 0

/-- The loop of `up`, from index `i - 1` down: where it finds a slash, or the start. -/
def upFrom (p : Text) : Nat → Option Nat
  | 0 => none
  | i + 1 => if isSep (p.getD i ' ') ∨ i = 0 then some i else upFrom p i

/-- `up`, without the element it hands out. -/
def up (s : Path) : Bool × Path :=
  match upFrom s.fullPath (s.fullPath.length - 1) with
  | none => (false, s)
  | some i =>
      (true, { s with
        fullPath := s.fullPath.take (i + 1)
        depth := s.depth - 1
        elements := s.elements.set (s.depth - 1) none })

/-- `cd_single`. -/
def cdSingle (s : Path) (cd : Text) : Bool × Path :=
  if cd = ['.', '.'] then s.up
  else if cd = ['.'] then (true, s)
  else
    let s := s.update s.depth cd
    (true, { s with depth := s.depth + 1, fullPath := s.fullPath ++ cd ++ ['/'] })

/-- The loop of `cd` over the characters, with the part in front of it, and the part behind the
    last slash. -/
def cdParts (s : Path) (part : Text) : Text → Bool × Path
  | [] => s.cdSingle part
  | c :: rest =>
      if isSep c then
        match s.cdSingle part with
        | (false, s) => (false, s)
        | (true, s) => cdParts s [] rest
      else cdParts s (part ++ [c]) rest

/-- The slash at the end is cut off. -/
def cutLast (pa : Text) : Text :=
  match pa.getLast? with
  | some c => if isSep c then pa.dropLast else pa
  | none => pa

/-- The part of `cd` behind the look for a slash in front. -/
def cdRelative (s : Path) (pa : Text) : Bool × Path :=
  if pa = [] then (true, s)
  else if cutLast pa = [] then (true, s)
  else s.cdParts [] (cutLast pa)

/-- `cd`. -/
def cd (s : Path) (pa : Text) : Bool × Path :=
  match pa with
  | [] => (true, s)
  | c :: rest => if isSep c then s.cleanupElements.cdRelative rest else s.cdRelative (c :: rest)

end Path

/-- The path that a string names, after some calls of `cd`. -/
def after (pa : Text) (cds : List Text) : Path :=
  (pa :: cds).foldl (fun s p => (s.cd p).2) root

/-! ## What a path says -/

/-- A slash, and each element with a slash behind it. -/
def joined (es : List Text) : Text := '/' :: es.flatMap (· ++ ['/'])

/-- The elements in the array, and the full path, are these. -/
structure Represents (s : Path) (es : List Text) : Prop where
  depth : s.depth = es.length
  elements : ∀ i, s.elements i = if 0 ≤ i then es[i.toNat]? else none
  fullPath : s.fullPath = joined es
  /-- no element has a slash in it -/
  plain : ∀ e ∈ es, ∀ c ∈ e, isSep c = false

theorem joined_append (es : List Text) (e : Text) : joined (es ++ [e]) = joined es ++ e ++ ['/'] := by
  simp [joined]

/-- A full path ends with a slash. -/
theorem joined_ends (es : List Text) : ∃ pre, joined es = pre ++ ['/'] := by
  induction es using List.reverseRecOn with
  | nil => exact ⟨[], rfl⟩
  | append_singleton es e _ => exact ⟨joined es ++ e, joined_append es e⟩

theorem represents_root : Represents root [] :=
  ⟨rfl, fun i => by simp [root], rfl, nofun⟩

/-- What a path says is all there is to it. -/
theorem represents_unique {s s' : Path} {es : List Text} (h : Represents s es) (h' : Represents s' es) :
    s = s' := by
  obtain ⟨full, elements, depth⟩ := s
  obtain ⟨full', elements', depth'⟩ := s'
  have hf : full = full' := h.fullPath.trans h'.fullPath.symm
  have he : elements = elements' := funext fun i => (h.elements i).trans (h'.elements i).symm
  have hd : depth = depth' := h.depth.trans h'.depth.symm
  rw [hf, he, hd]

/-! ## One element up -/

/-- Looking back over an element finds the slash in front of it. -/
theorem upFrom_element {pre e tail : Text} (he : ∀ c ∈ e, isSep c = false) {k : Nat} (hk : k ≤ e.length) :
    Path.upFrom (pre ++ '/' :: (e ++ tail)) (pre.length + 1 + k) = some pre.length := by
  induction k with
  | zero =>
      rw [Nat.add_zero, Path.upFrom, List.getD_append_right _ _ _ _ (Nat.le_refl _), Nat.sub_self]
      exact if_pos (Or.inl rfl)
  | succ k ih =>
      have hchar : (pre ++ '/' :: (e ++ tail)).getD (pre.length + 1 + k) ' ' = e.getD k ' ' := by
        rw [List.getD_append_right _ _ _ _ (by omega),
          show pre.length + 1 + k - pre.length = k + 1 by omega, List.getD_cons_succ,
          List.getD_append _ _ _ _ hk]
      have hplain : isSep (e.getD k ' ') = false := by
        rw [List.getD_eq_getElem _ _ hk]
        exact he _ (List.getElem_mem hk)
      rw [← Nat.add_assoc, Path.upFrom, hchar, hplain, if_neg (by simp), ih (by omega)]

theorem up_root {s : Path} (h : Represents s []) : s.up = (false, s) := by
  rw [Path.up, h.fullPath]
  rfl

theorem up_element {s : Path} {es : List Text} {e : Text} (h : Represents s (es ++ [e])) :
    s.up.1 = true ∧ Represents s.up.2 es := by
  obtain ⟨pre, hpre⟩ := joined_ends es
  have hplain : ∀ c ∈ e, isSep c = false := h.plain e (by simp)
  have hfull : s.fullPath = pre ++ '/' :: (e ++ ['/']) := by
    rw [h.fullPath, joined_append, hpre]
    simp
  have hlen : s.fullPath.length - 1 = pre.length + 1 + e.length := by
    rw [hfull]
    simp
    omega
  have hfound : Path.upFrom s.fullPath (s.fullPath.length - 1) = some pre.length := by
    rw [hlen, hfull]
    exact upFrom_element hplain (Nat.le_refl _)
  have hdepth : s.depth - 1 = es.length := by
    rw [h.depth, List.length_append]
    simp
  rw [Path.up, hfound]
  refine ⟨rfl, hdepth, ?_, ?_, fun e' he' => h.plain e' (by simp [he'])⟩
  · intro i
    show (s.elements.set (s.depth - 1) none) i = _
    rw [hdepth, Elements.set, if_neg (by omega), Function.update_apply, h.elements i]
    by_cases hi : i = es.length
    · rw [if_pos hi, hi, if_pos (by omega), Int.toNat_natCast, List.getElem?_eq_none (Nat.le_refl _)]
    · rw [if_neg hi]
      by_cases h0 : 0 ≤ i
      · rw [if_pos h0, if_pos h0]
        by_cases hin : i.toNat < es.length
        · rw [List.getElem?_append_left hin]
        · rw [List.getElem?_eq_none (by simp; omega), List.getElem?_eq_none (by omega)]
      · rw [if_neg h0, if_neg h0]
  · show s.fullPath.take (pre.length + 1) = joined es
    rw [hfull, hpre, List.take_length_add_append]
    rfl

/-! ## One element down -/

theorem update_elements (s : Path) {i : Int} (hi : 0 ≤ i) (p : Text) :
    (s.update i p).elements = Function.update s.elements i (some p) ∧
      (s.update i p).fullPath = s.fullPath ∧ (s.update i p).depth = s.depth := by
  have hset : s.elements.set i (some p) = Function.update s.elements i (some p) := by
    rw [Elements.set, if_neg (by omega)]
  rw [Path.update]
  split
  next => exact ⟨hset, rfl, rfl⟩
  next old hold =>
    split
    next heq =>
      refine ⟨?_, rfl, rfl⟩
      rw [← heq, ← hold, Function.update_eq_self]
    next => exact ⟨hset, rfl, rfl⟩

/-- A part goes up, stays, or is a new element; it fails only at the root. -/
theorem cdSingle_represents {s : Path} {es : List Text} (h : Represents s es) {part : Text}
    (hpart : ∀ c ∈ part, isSep c = false) :
    ∃ es', Represents (s.cdSingle part).2 es' ∧ ((s.cdSingle part).1 = false → es' = []) := by
  rw [Path.cdSingle]
  split
  · cases es using List.reverseRecOn with
    | nil =>
        rw [up_root h]
        exact ⟨[], h, fun _ => rfl⟩
    | append_singleton es e =>
        obtain ⟨hok, hup⟩ := up_element h
        refine ⟨es, hup, fun hfail => ?_⟩
        rw [hok] at hfail
        exact nomatch hfail
  · split
    · exact ⟨es, h, nofun⟩
    · have h0 : 0 ≤ s.depth := by
        rw [h.depth]
        exact Int.natCast_nonneg _
      obtain ⟨helements, hfull, hdepth⟩ := update_elements s h0 part
      refine ⟨es ++ [part], ⟨?_, ?_, ?_, ?_⟩, nofun⟩
      · show (s.update s.depth part).depth + 1 = _
        rw [hdepth, h.depth, List.length_append]
        simp
      · intro i
        show (s.update s.depth part).elements i = _
        rw [helements, Function.update_apply, h.depth, h.elements i]
        by_cases hi : i = es.length
        · rw [if_pos hi, hi, if_pos (by omega), Int.toNat_natCast, List.getElem?_append_right (Nat.le_refl _),
            Nat.sub_self]
          rfl
        · rw [if_neg hi]
          by_cases hi0 : 0 ≤ i
          · rw [if_pos hi0, if_pos hi0]
            by_cases hin : i.toNat < es.length
            · rw [List.getElem?_append_left hin]
            · rw [List.getElem?_eq_none (by omega), List.getElem?_eq_none (by simp; omega)]
          · rw [if_neg hi0, if_neg hi0]
      · show (s.update s.depth part).fullPath ++ part ++ ['/'] = _
        rw [hfull, h.fullPath, joined_append]
      · intro e he
        rcases List.mem_append.mp he with he | he
        · exact h.plain e he
        · rw [List.mem_singleton.mp he]
          exact hpart

/-! ## A whole string -/

theorem cdParts_represents {s : Path} {es : List Text} (h : Represents s es) {part : Text}
    (hpart : ∀ c ∈ part, isSep c = false) (rest : Text) :
    ∃ es', Represents (s.cdParts part rest).2 es' ∧ ((s.cdParts part rest).1 = false → es' = []) := by
  induction rest generalizing s es part with
  | nil => exact cdSingle_represents h hpart
  | cons c rest ih =>
      rw [Path.cdParts]
      split
      · obtain ⟨es', hs, hfail⟩ := cdSingle_represents h hpart
        rcases hrun : s.cdSingle part with ⟨ok, s'⟩
        rw [hrun] at hs hfail
        cases ok with
        | false => exact ⟨es', hs, hfail⟩
        | true => exact ih hs (by simp)
      next hc =>
        refine ih h ?_
        intro d hd
        rcases List.mem_append.mp hd with hd | hd
        · exact hpart d hd
        · rw [List.mem_singleton.mp hd]
          exact Bool.eq_false_iff.mpr hc

theorem cdRelative_represents {s : Path} {es : List Text} (h : Represents s es) (pa : Text) :
    ∃ es', Represents (s.cdRelative pa).2 es' ∧ ((s.cdRelative pa).1 = false → es' = []) := by
  rw [Path.cdRelative]
  split
  · exact ⟨es, h, nofun⟩
  · split
    · exact ⟨es, h, nofun⟩
    · exact cdParts_represents h (by simp) _

theorem cleanupElements_represents {s : Path} {es : List Text} (h : Represents s es) :
    Represents s.cleanupElements [] := by
  refine ⟨rfl, ?_, rfl, nofun⟩
  intro i
  show (if 0 ≤ i ∧ i < s.depth then none else s.elements i) = _
  rw [h.elements i, h.depth]
  by_cases h0 : 0 ≤ i
  · rw [if_pos h0, if_pos h0]
    by_cases hin : i < es.length
    · rw [if_pos ⟨h0, hin⟩]
      rfl
    · rw [if_neg (fun hc => hin hc.2), List.getElem?_eq_none (by omega)]
      rfl
  · rw [if_neg (fun hc => h0 hc.1), if_neg h0, if_neg h0]

/-- A `cd` leaves a path that says something, and fails only at the root. -/
theorem cd_represents {s : Path} {es : List Text} (h : Represents s es) (pa : Text) :
    ∃ es', Represents (s.cd pa).2 es' ∧ ((s.cd pa).1 = false → es' = []) := by
  cases pa with
  | nil => exact ⟨es, h, nofun⟩
  | cons c rest =>
      rw [Path.cd]
      split
      · exact cdRelative_represents (cleanupElements_represents h) rest
      · exact cdRelative_represents h (c :: rest)

/-- Whatever the calls of `cd` were. -/
theorem after_represents (pa : Text) (cds : List Text) : ∃ es, Represents (after pa cds) es := by
  have hrun : ∀ (l : List Text) (s : Path) (es : List Text), Represents s es →
      ∃ es', Represents (l.foldl (fun s p => (s.cd p).2) s) es' := by
    intro l
    induction l with
    | nil => exact fun s es h => ⟨es, h⟩
    | cons p l ih =>
        intro s es h
        obtain ⟨es', hs, -⟩ := cd_represents h p
        exact ih _ es' hs
  exact hrun (pa :: cds) root [] represents_root

/-! ## One `cd` after another -/

/-- A slash between two strings ends the last part of the first one. -/
theorem cdParts_append (s : Path) (part a b : Text) :
    s.cdParts part (a ++ '/' :: b) =
      if (s.cdParts part a).1 then (s.cdParts part a).2.cdParts [] b else s.cdParts part a := by
  induction a generalizing s part with
  | nil =>
      show s.cdParts part ('/' :: b) =
        if (s.cdSingle part).1 then (s.cdSingle part).2.cdParts [] b else s.cdSingle part
      rw [Path.cdParts, if_pos (show isSep '/' = true from rfl)]
      rcases s.cdSingle part with ⟨ok, s'⟩
      cases ok with
      | false => rfl
      | true => rfl
  | cons c a ih =>
      rw [List.cons_append, Path.cdParts, Path.cdParts]
      split
      · rcases s.cdSingle part with ⟨ok, s'⟩
        cases ok with
        | false => rfl
        | true => exact ih s' []
      · exact ih s (part ++ [c])

/-- A string that goes on from where the path is. -/
def Relative (pa : Text) : Prop := ∀ c ∈ pa.head?, isSep c = false

theorem cd_relative {s : Path} {pa : Text} (h : Relative pa) : s.cd pa = s.cdRelative pa := by
  cases pa with
  | nil => rfl
  | cons c rest =>
      rw [Path.cd, if_neg]
      rw [h c rfl]
      decide

/-- A string that ends in a part. -/
def EndsInPart (pa : Text) : Prop := pa ≠ [] ∧ ∀ c ∈ pa.getLast?, isSep c = false

theorem cutLast_part {pa : Text} (h : EndsInPart pa) : Path.cutLast pa = pa := by
  rw [Path.cutLast]
  split
  next c hc => rw [if_neg (by rw [h.2 c hc]; decide)]
  next => rfl

theorem cdRelative_part {s : Path} {pa : Text} (h : EndsInPart pa) :
    s.cdRelative pa = s.cdParts [] pa := by
  rw [Path.cdRelative, cutLast_part h, if_neg h.1, if_neg h.1]

/-- `cd(a)` and then `cd(b)` is `cd(a/b)`, as far as `a` goes. -/
theorem cd_append {s : Path} {a b : Text} (ha : Relative a) (hpart : EndsInPart a) (hb : Relative b)
    (hok : (s.cd a).1 = true) : s.cd (a ++ '/' :: b) = (s.cd a).2.cd b := by
  have hrel : Relative (a ++ '/' :: b) := by
    intro c hc
    obtain ⟨d, a', rfl⟩ := List.exists_cons_of_ne_nil hpart.1
    exact ha c hc
  have hall : a ++ '/' :: b ≠ [] := by simp
  rw [cd_relative hrel, cd_relative ha, cd_relative hb, cdRelative_part hpart]
  rw [cd_relative ha, cdRelative_part hpart] at hok
  rw [Path.cdRelative, if_neg hall]
  rcases List.eq_nil_or_concat b with rfl | ⟨b', d, rfl⟩
  · -- the slash between them is the last one, and is cut off
    have hcut : Path.cutLast (a ++ ['/']) = a := by
      rw [Path.cutLast, List.getLast?_concat]
      dsimp only
      rw [if_pos (show isSep '/' = true from rfl), List.dropLast_concat]
    rw [hcut, if_neg hpart.1, Path.cdRelative, if_pos rfl, ← hok]
  · rw [List.concat_eq_append] at hb ⊢
    have hne : b' ++ [d] ≠ [] := List.append_ne_nil_of_right_ne_nil _ (List.cons_ne_nil _ _)
    rw [Path.cdRelative, if_neg hne]
    have hlast : a ++ '/' :: (b' ++ [d]) = (a ++ '/' :: b') ++ [d] := by simp
    by_cases hd : isSep d = true
    · have hb' : b' ≠ [] := by
        rintro rfl
        exact absurd (hb d rfl) (by rw [hd]; decide)
      have hcut : Path.cutLast (b' ++ [d]) = b' := by
        rw [Path.cutLast, List.getLast?_concat]
        dsimp only
        rw [if_pos hd, List.dropLast_concat]
      have hcut' : Path.cutLast (a ++ '/' :: (b' ++ [d])) = a ++ '/' :: b' := by
        rw [hlast, Path.cutLast, List.getLast?_concat]
        dsimp only
        rw [if_pos hd, List.dropLast_concat]
      rw [hcut, hcut', if_neg (by simp), if_neg hb', cdParts_append, if_pos hok]
    · have hend : ∀ pre : Text, EndsInPart (pre ++ [d]) := fun pre =>
        ⟨by simp, fun c hc => by
          rw [List.getLast?_concat] at hc
          cases hc
          exact Bool.eq_false_iff.mpr hd⟩
      rw [cutLast_part (hend b'), hlast, cutLast_part (hend _), ← hlast, if_neg (by simp), if_neg (by simp),
        cdParts_append, if_pos hok]

/-- The full path is that of the elements after every sequence of calls; `cd(a)` and `cd(b)`
    are `cd(a/b)` for a relative `a` that ends in a part, and a relative `b`; and a `cd` that
    fails leaves the path at the root. -/
theorem path_coherent :
    (∀ (pa : Text) (cds : List Text), ∃ es, Represents (after pa cds) es) ∧
    (∀ (s : Path) (a b : Text), Relative a → EndsInPart a → Relative b → (s.cd a).1 = true →
      ((s.cd a).2.cd b).1 = true → s.cd (a ++ '/' :: b) = (s.cd a).2.cd b) ∧
    ∀ (pa : Text) (cds : List Text) (c : Text), ((after pa cds).cd c).1 = false →
      ((after pa cds).cd c).2 = root := by
  refine ⟨after_represents, fun s a b ha hpart hb hok _ => cd_append ha hpart hb hok, ?_⟩
  intro pa cds c hfail
  obtain ⟨es, h⟩ := after_represents pa cds
  obtain ⟨es', h', hroot⟩ := cd_represents h c
  rw [hroot hfail] at h'
  exact represents_unique h' represents_root

/-- `cd("../..")` from `/q/` fails, at the root. -/
theorem cd_fails_at_root :
    ¬ ∀ (pa : Text) (cds : List Text) (c : Text), ((after pa cds).cd c).1 = false →
      ((after pa cds).cd c).2 = after pa cds := by
  intro h
  have hsame := h ['/', 'q'] [] ['.', '.', '/', '.', '.'] (by decide)
  exact absurd (congrArg Path.fullPath hsame) (by decide)

end FilePath
