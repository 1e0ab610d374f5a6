import Ultimate1541.CbmDirProofs
import Ultimate1541.CbmBamFootprintProofs

/-! # Giving a file's sectors back

    Up to three kinds of chains hang off a directory entry: the data, the side
    sectors or info block, and the records of a VLIR file.  Each is given back
    by `deallocate_chain`, which frees exactly the sectors of its chain
    (`deallocateChain_spec`).  `file_delete` goes through all of them, the
    clearing part of `file_open` only through the first two. -/

namespace CbmDir

open CbmLayout CbmBam CbmDisk CbmFile ByteBuffer Footprint Footprint.Prog

variable {g : Geometry}

/-! ## Chains -/

/-- The chain of sectors from a track and sector on, to its end at track 0. -/
inductive ChainFrom (g : Geometry) (content : Nat → Block) :
    UInt8 → UInt8 → List Nat → Prop where
  | nil {s : UInt8} : ChainFrom g content 0 s []
  | cons {t s : UInt8} {a : Nat} {as : List Nat} :
      absSector g t.toNat s.toNat = some a →
      ChainFrom g content ((content a).get 0) ((content a).get 1) as →
      ChainFrom g content t s (a :: as)

namespace ChainFrom

variable {content content' : Nat → Block} {t s : UInt8} {as : List Nat}

theorem congr (h : ChainFrom g content t s as) (hc : ∀ a ∈ as, content' a = content a) :
    ChainFrom g content' t s as := by
  induction h with
  | nil => exact ChainFrom.nil
  | cons ha _ ih =>
      refine ChainFrom.cons ha ?_
      rw [hc _ (List.mem_cons_self ..)]
      exact ih fun a h => hc a (List.mem_cons_of_mem _ h)

/-- A chain is over, or has a first sector. -/
theorem cases_eq (h : ChainFrom g content t s as) :
    (t = 0 ∧ as = []) ∨ ∃ a bs, as = a :: bs ∧ absSector g t.toNat s.toNat = some a ∧
      ChainFrom g content ((content a).get 0) ((content a).get 1) bs := by
  cases h with
  | nil => exact Or.inl ⟨rfl, rfl⟩
  | cons ha hrest => exact Or.inr ⟨_, _, rfl, ha, hrest⟩

theorem track_ne_zero {a : Nat} (h : ChainFrom g content t s (a :: as)) : t ≠ 0 := by
  cases h with
  | cons ha _ =>
      rintro rfl
      rw [UInt8.toNat_zero, absSector_zero] at ha
      exact nomatch ha

theorem ne_nil (h : ChainFrom g content t s as) (ht : t ≠ 0) : as ≠ [] := by
  cases h with
  | nil => exact absurd rfl ht
  | cons _ _ => exact List.cons_ne_nil _ _

theorem lt (h : ChainFrom g content t s as) : ∀ a ∈ as, a < g.numSectors := by
  induction h with
  | nil => exact fun a h => absurd h List.not_mem_nil
  | cons ha _ ih =>
      intro b hb
      rcases List.mem_cons.mp hb with rfl | hb
      · exact absSector_lt ha
      · exact ih b hb

end ChainFrom

theorem forall₂_congr {content content' : Nat → Block} {refs : List (UInt8 × UInt8)}
    {css : List (List Nat)}
    (h : List.Forall₂ (fun r as => ChainFrom g content r.1 r.2 as) refs css)
    (hc : ∀ a ∈ css.flatten, content' a = content a) :
    List.Forall₂ (fun r as => ChainFrom g content' r.1 r.2 as) refs css := by
  induction h with
  | nil => exact List.Forall₂.nil
  | cons hr _ ih =>
      rw [List.flatten_cons] at hc
      exact List.Forall₂.cons (hr.congr fun a ha => hc a (List.mem_append_left _ ha))
        (ih fun a ha => hc a (List.mem_append_right _ ha))

/-- Different sectors of an image are no more than it has. -/
theorem length_le_of_nodup {as : List Nat} {n : Nat} (hnodup : as.Nodup)
    (hlt : ∀ a ∈ as, a < n) : as.length ≤ n := by
  rw [← List.toFinset_card_of_nodup hnodup, ← Finset.card_range n]
  exact Finset.card_le_card fun a ha =>
    Finset.mem_range.mpr (hlt a (List.mem_toFinset.mp ha))

/-! ## Freeing one chain -/

/-- The map knows the sector, and says that it is allocated. -/
def Marked (g : Geometry) (cell : Addr → UInt8) (a : Nat) : Prop :=
  ∃ t s, absSector g t s = some a ∧ t ≤ lastTrack g.kind ∧ freeBit g.kind cell t s = false

/-- The sectors of a list were freed, and no others. -/
def FreesExactly (g : Geometry) (cell cell' : Addr → UInt8) (as : List Nat) : Prop :=
  ∀ t s, s < 8 * bitBytes g.kind → freeBit g.kind cell' t s
    = (freeBit g.kind cell t s || decide (∃ a ∈ as, absSector g t s = some a))

theorem FreesExactly.nil (cell : Addr → UInt8) : FreesExactly g cell cell [] := by
  intro t s _
  simp

theorem FreesExactly.append {cell₁ cell₂ cell₃ : Addr → UInt8} {as bs : List Nat}
    (h₁ : FreesExactly g cell₁ cell₂ as) (h₂ : FreesExactly g cell₂ cell₃ bs) :
    FreesExactly g cell₁ cell₃ (as ++ bs) := by
  intro t s hs
  rw [h₂ t s hs, h₁ t s hs, Bool.or_assoc, ← Bool.decide_or]
  congr 1
  refine decide_eq_decide.mpr ?_
  simp only [List.mem_append]
  constructor
  · rintro (⟨a, ha, h⟩ | ⟨a, ha, h⟩)
    · exact ⟨a, Or.inl ha, h⟩
    · exact ⟨a, Or.inr ha, h⟩
  · rintro ⟨a, ha | ha, h⟩
    · exact Or.inl ⟨a, ha, h⟩
    · exact Or.inr ⟨a, ha, h⟩

/-- A sector that is not in the list stays as it was. -/
theorem FreesExactly.marked {cell cell' : Addr → UInt8} {as : List Nat} {a : Nat}
    (h : FreesExactly g cell cell' as) (ha : a ∉ as) (hm : Marked g cell a) :
    Marked g cell' a := by
  obtain ⟨t, s, habs, hle, hbit⟩ := hm
  have hs : s < 8 * bitBytes g.kind :=
    Nat.lt_of_lt_of_le (absSector_eq_some.mp habs).2.1 (sectors_le_bits _ t)
  refine ⟨t, s, habs, hle, ?_⟩
  rw [h t s hs, hbit, Bool.false_or]
  refine decide_eq_false ?_
  rintro ⟨b, hb, hb'⟩
  rw [habs] at hb'
  cases hb'
  exact ha hb

/-- Freeing sectors of one list leaves the image as it was. -/
structure Freed (g : Geometry) (as : List Nat) (fs fs' : Fs) : Prop where
  exact : fs'.Exact g
  view : fs'.view = fs.view
  frees : FreesExactly g fs.bam.cell fs'.bam.cell as
  rootValid : fs'.rootValid = fs.rootValid
  writable : fs'.writable = fs.writable

theorem Freed.append {as bs : List Nat} {fs₁ fs₂ fs₃ : Fs} (h₁ : Freed g as fs₁ fs₂)
    (h₂ : Freed g bs fs₂ fs₃) : Freed g (as ++ bs) fs₁ fs₃ :=
  ⟨h₂.exact, h₂.view.trans h₁.view, h₁.frees.append h₂.frees,
    h₂.rootValid.trans h₁.rootValid, h₂.writable.trans h₁.writable⟩

/-- A visited map with more sectors in it. -/
def visitedWith (visited : Nat → Bool) (as : List Nat) (a : Nat) : Bool :=
  visited a || decide (a ∈ as)

theorem visitedWith_nil (visited : Nat → Bool) : visitedWith visited [] = visited := by
  funext a
  simp [visitedWith]

theorem visitedWith_cons (visited : Nat → Bool) (a : Nat) (as : List Nat) :
    visitedWith (Function.update visited a true) as = visitedWith visited (a :: as) := by
  funext b
  rw [visitedWith, visitedWith]
  by_cases hb : b = a
  · subst hb
    rw [Function.update_self]
    simp
  · rw [Function.update_of_ne hb]
    simp [hb]

theorem visitedWith_append (visited : Nat → Bool) (as bs : List Nat) :
    visitedWith (visitedWith visited as) bs = visitedWith visited (as ++ bs) := by
  funext b
  simp [visitedWith, Bool.or_assoc]

theorem visitedWith_eq_false {visited : Nat → Bool} {as : List Nat} {a : Nat}
    (h : visited a = false) (ha : a ∉ as) : visitedWith visited as a = false := by
  rw [visitedWith, h, Bool.false_or]
  exact decide_eq_false ha

/-- Freeing the allocated sector in view. -/
theorem setSectorAllocation_frees {fs : Fs} (hex : fs.Exact g) {t s a : Nat}
    (habs : absSector g t s = some a) (hm : Marked g fs.bam.cell a) :
    ∃ fs', fs.setSectorAllocation g t s false = some (true, fs') ∧ Freed g [a] fs fs' ∧
      fs'.sectBuffer = fs.sectBuffer := by
  obtain ⟨t', s', habs', hle, hbit⟩ := hm
  obtain ⟨rfl, rfl⟩ := absSector_inj habs habs'
  have hs : s < 8 * bitBytes g.kind :=
    Nat.lt_of_lt_of_le (absSector_eq_some.mp habs).2.1 (sectors_le_bits _ t)
  rcases setSectorAllocation_free (addressable_of_le hle) hs fs.bam with
    ⟨hf, -⟩ | ⟨m', hx, hr, -⟩
  · rw [hbit] at hf
    exact nomatch hf
  · refine ⟨{ fs with bam := m' }, ?_, ⟨hex.withBam m', rfl, ?_, rfl, rfl⟩, rfl⟩
    · rw [Fs.setSectorAllocation, hx]
      rfl
    · intro t' s' hs'
      rw [hr.bit t' s' hs']
      congr 1
      refine decide_eq_decide.mpr ?_
      constructor
      · rintro ⟨rfl, rfl⟩
        exact ⟨a, List.mem_singleton.mpr rfl, habs⟩
      · rintro ⟨b, hb, hb'⟩
        cases List.mem_singleton.mp hb
        exact absSector_inj hb' habs

/-- `deallocate_chain` frees the sectors of its chain. -/
theorem deallocateLoop_spec :
    ∀ (as : List Nat) (rounds : Nat) (t s : UInt8) (visited : Nat → Bool) (fs : Fs),
      ChainFrom g fs.view t s as → as.length < rounds → as.Nodup →
      (∀ a ∈ as, visited a = false) → (∀ a ∈ as, Marked g fs.bam.cell a) → fs.Exact g →
      ∃ fs', deallocateLoop g rounds t s visited fs
          = some ⟨.ok, visitedWith visited as, fs'⟩ ∧ Freed g as fs fs' := by
  intro as
  induction as with
  | nil =>
      rintro (_ | rounds) t s visited fs hchain hlt - - - hex
      · exact absurd hlt (Nat.lt_irrefl 0)
      · cases hchain
        refine ⟨fs, ?_, hex, rfl, FreesExactly.nil _, rfl, rfl⟩
        rw [deallocateLoop, if_pos rfl, visitedWith_nil]
  | cons a as ih =>
      rintro (_ | rounds) t s visited fs hchain hlt hnodup hvis hmark hex
      · exact absurd hlt (Nat.not_lt_zero _)
      · have ht := hchain.track_ne_zero
        obtain ⟨hna, hnodup⟩ := List.nodup_cons.mp hnodup
        cases hchain with
        | cons habs hrest =>
            obtain ⟨fs₁, hx, hex₁, -, hbuf, hview, hbam, hrv, hwr⟩ :=
              hex.moveWindow (absSector_lt habs)
            obtain ⟨fs₂, hy, hfreed, hbuf₂⟩ := setSectorAllocation_frees hex₁ habs
              (by rw [hbam]; exact hmark a (List.mem_cons_self ..))
            rw [← hview] at hrest
            have hvis' : ∀ b ∈ as, Function.update visited a true b = false := by
              intro b hb
              rw [Function.update_of_ne (by rintro rfl; exact hna hb)]
              exact hvis b (List.mem_cons_of_mem _ hb)
            have hmark' : ∀ b ∈ as, Marked g fs₂.bam.cell b := by
              intro b hb
              refine hfreed.frees.marked ?_ ?_
              · rw [List.mem_singleton]
                rintro rfl
                exact hna hb
              · rw [hbam]
                exact hmark b (List.mem_cons_of_mem _ hb)
            obtain ⟨fs', hz, hfreed'⟩ := ih rounds ((fs₁.view a).get 0) ((fs₁.view a).get 1)
              (Function.update visited a true) fs₂ (by rwa [hfreed.view])
              (by rw [List.length_cons] at hlt; omega) hnodup hvis' hmark' hfreed.exact
            have h := hfreed.append hfreed'
            refine ⟨fs', ?_, h.exact, h.view.trans hview, by rw [← hbam]; exact h.frees,
              h.rootValid.trans hrv, h.writable.trans hwr⟩
            rw [deallocateLoop, if_neg ht, habs]
            dsimp only
            rw [if_neg (by rw [hvis a (List.mem_cons_self ..)]; decide), hx]
            dsimp only
            rw [hy]
            dsimp only
            rw [hbuf₂, hbuf, ← hview, hz, visitedWith_cons]

theorem deallocateChain_spec {as : List Nat} {t s : UInt8} {visited : Nat → Bool} {fs : Fs}
    (hchain : ChainFrom g fs.view t s as) (hnodup : as.Nodup)
    (hvis : ∀ a ∈ as, visited a = false) (hmark : ∀ a ∈ as, Marked g fs.bam.cell a)
    (hex : fs.Exact g) :
    ∃ fs', deallocateChain g t s visited fs = some ⟨.ok, visitedWith visited as, fs'⟩ ∧
      Freed g as fs fs' := by
  have := length_le_of_nodup hnodup hchain.lt
  exact deallocateLoop_spec as _ t s visited fs hchain (by omega) hnodup hvis hmark hex

/-! ## Freeing several chains -/

/-- Give several chains back, up to the first one that fails. -/
def deallocateAll (g : Geometry) :
    List (UInt8 × UInt8) → (Nat → Bool) → Fs → Option Dealloc
  | [], visited, fs => some ⟨.ok, visited, fs⟩
  | (t, s) :: refs, visited, fs =>
      match deallocateChain g t s visited fs with
      | none => none
      | some r => if r.res ≠ .ok then some r else deallocateAll g refs r.visited r.fs

theorem deallocateAll_spec :
    ∀ (refs : List (UInt8 × UInt8)) (css : List (List Nat)) (visited : Nat → Bool) (fs : Fs),
      List.Forall₂ (fun r as => ChainFrom g fs.view r.1 r.2 as) refs css →
      css.flatten.Nodup → (∀ a ∈ css.flatten, visited a = false) →
      (∀ a ∈ css.flatten, Marked g fs.bam.cell a) → fs.Exact g →
      ∃ fs', deallocateAll g refs visited fs
          = some ⟨.ok, visitedWith visited css.flatten, fs'⟩ ∧ Freed g css.flatten fs fs' := by
  intro refs
  induction refs with
  | nil =>
      intro css visited fs hchains _ _ _ hex
      cases hchains
      refine ⟨fs, ?_, hex, rfl, FreesExactly.nil _, rfl, rfl⟩
      rw [deallocateAll, List.flatten_nil, visitedWith_nil]
  | cons r refs ih =>
      intro css visited fs hchains hnodup hvis hmark hex
      cases hchains with
      | @cons _ as _ css hchain hrest =>
          rw [List.flatten_cons] at hnodup hvis hmark
          obtain ⟨hn₁, hn₂, hdisj⟩ := List.nodup_append.mp hnodup
          obtain ⟨fs₁, hx, hfreed⟩ := deallocateChain_spec hchain hn₁
            (fun a ha => hvis a (List.mem_append_left _ ha))
            (fun a ha => hmark a (List.mem_append_left _ ha)) hex
          have hout : ∀ a ∈ css.flatten, a ∉ as := fun a ha has => hdisj a has a ha rfl
          obtain ⟨fs', hy, hfreed'⟩ := ih css (visitedWith visited as) fs₁
            (by rwa [hfreed.view]) hn₂
            (fun a ha => visitedWith_eq_false (hvis a (List.mem_append_right _ ha)) (hout a ha))
            (fun a ha => hfreed.frees.marked (hout a ha) (hmark a (List.mem_append_right _ ha)))
            hfreed.exact
          refine ⟨fs', ?_, hfreed.append hfreed'⟩
          obtain ⟨t, s⟩ := r
          rw [deallocateAll, hx]
          dsimp only
          rw [if_neg (by decide), hy, List.flatten_cons, visitedWith_append]

/-- The records a record block refers to, from entry `i` on. -/
def recordRefs (rblk : Block) : Nat → Nat → List (UInt8 × UInt8)
  | _, 0 => []
  | i, left + 1 =>
      let t := rblk.get (2 + 2 * i)
      let s := rblk.get (3 + 2 * i)
      if t ≠ 0 then (t, s) :: recordRefs rblk (i + 1) left
      else if s = 0 then []
      else recordRefs rblk (i + 1) left

theorem recordRefs_ne_zero (rblk : Block) : ∀ left i, ∀ r ∈ recordRefs rblk i left, r.1 ≠ 0 := by
  intro left
  induction left with
  | zero => exact fun i r h => absurd h List.not_mem_nil
  | succ left ih =>
      intro i r h
      rw [recordRefs] at h
      by_cases ht : rblk.get (2 + 2 * i) ≠ 0
      · rw [if_pos ht] at h
        rcases List.mem_cons.mp h with rfl | h
        · exact ht
        · exact ih (i + 1) r h
      · rw [if_neg ht] at h
        split at h
        · exact absurd h List.not_mem_nil
        · exact ih (i + 1) r h

/-- The loop over the record block gives its records back one by one. -/
theorem deallocateRecords_eq (rblk : Block) :
    ∀ (left i : Nat) (visited : Nat → Bool) (fs : Fs),
      deallocateRecords g rblk i left visited fs
        = deallocateAll g (recordRefs rblk i left) visited fs := by
  intro left
  induction left with
  | zero => exact fun i visited fs => rfl
  | succ left ih =>
      intro i visited fs
      rw [deallocateRecords, recordRefs]
      by_cases ht : rblk.get (2 + 2 * i) ≠ 0
      · rw [if_pos ht, if_pos ht, deallocateAll]
        cases deallocateChain g (rblk.get (2 + 2 * i)) (rblk.get (3 + 2 * i)) visited fs with
        | none => rfl
        | some r =>
            dsimp only
            rw [ih (i + 1) r.visited r.fs]
      · rw [if_neg ht, if_neg ht]
        split
        · rfl
        · exact ih (i + 1) visited fs

/-! ## The chains of a file -/

/-- The records of an entry: those of its record block, if it is a VLIR entry
    and its first block is one. -/
def recordsOf (g : Geometry) (content : Nat → Block) (de : DirEntryCBM) :
    List (UInt8 × UInt8) :=
  if isVlirEntry de = true then
    match absSector g (de.at .dataTrack).toNat (de.at .dataSector).toNat with
    | none => []
    | some a => if isRecordBlock (content a) = true then recordRefs (content a) 0 127 else []
  else []

theorem recordsOf_ne_zero {content : Nat → Block} {de : DirEntryCBM} :
    ∀ r ∈ recordsOf g content de, r.1 ≠ 0 := by
  intro r hr
  rw [recordsOf] at hr
  split at hr
  · split at hr
    · exact absurd hr List.not_mem_nil
    · split at hr
      · exact recordRefs_ne_zero _ 127 0 r hr
      · exact absurd hr List.not_mem_nil
  · exact absurd hr List.not_mem_nil

/-- All chains that hang off a directory entry, with their sectors different. -/
structure FileChains (g : Geometry) (content : Nat → Block) (de : DirEntryCBM) where
  records : List (List Nat)
  data : List Nat
  side : List Nat
  records_chain :
    List.Forall₂ (fun r as => ChainFrom g content r.1 r.2 as) (recordsOf g content de) records
  data_chain : ChainFrom g content (de.at .dataTrack) (de.at .dataSector) data
  side_chain : ChainFrom g content (de.at .auxTrack) (de.at .auxSector) side
  nodup : (records.flatten ++ (data ++ side)).Nodup

/-- The sectors of a file. -/
def FileChains.sectors {content : Nat → Block} {de : DirEntryCBM}
    (c : FileChains g content de) : List Nat :=
  c.records.flatten ++ (c.data ++ c.side)

/-- The directory is positioned on an entry, with its sector in view. -/
structure OnEntry (g : Geometry) (d : DirInCBM) (a : Nat) : Prop where
  exact : d.fs.Exact g
  inView : d.fs.currentSector = some a
  current : absSector g d.currTrack d.currSector = some a
  visited : d.visited a = true

/-- An edit of the entry is not seen in the sectors of its file. -/
theorem OnEntry.view_edit {d : DirInCBM} {a b : Nat} (h : OnEntry g d a) (f : Block → Block)
    (hb : d.visited b = false) : (d.fs.edit f).view b = d.fs.view b := by
  refine Fs.view_edit_other ?_
  rw [h.inView]
  rintro hab
  cases hab
  rw [h.visited] at hb
  exact nomatch hb

theorem OnEntry.exact_edit {d : DirInCBM} {a : Nat} (h : OnEntry g d a) (f : Block → Block) :
    (d.fs.edit f).Exact g := h.exact.edit h.inView f

/-- The data and side chains, given back one after the other. -/
theorem deallocateTwo_spec {fs : Fs} {t₁ s₁ t₂ s₂ : UInt8} {as bs : List Nat}
    {visited : Nat → Bool} (has : ChainFrom g fs.view t₁ s₁ as)
    (hbs : ChainFrom g fs.view t₂ s₂ bs) (hnodup : (as ++ bs).Nodup)
    (hvis : ∀ a ∈ as ++ bs, visited a = false)
    (hmark : ∀ a ∈ as ++ bs, Marked g fs.bam.cell a) (hex : fs.Exact g) :
    ∃ fs₁ fs₂, deallocateChain g t₁ s₁ visited fs = some ⟨.ok, visitedWith visited as, fs₁⟩ ∧
      deallocateChain g t₂ s₂ (visitedWith visited as) fs₁
        = some ⟨.ok, visitedWith visited (as ++ bs), fs₂⟩ ∧ Freed g (as ++ bs) fs fs₂ := by
  obtain ⟨hn₁, hn₂, hdisj⟩ := List.nodup_append.mp hnodup
  obtain ⟨fs₁, hx, hfreed⟩ := deallocateChain_spec has hn₁
    (fun a ha => hvis a (List.mem_append_left _ ha))
    (fun a ha => hmark a (List.mem_append_left _ ha)) hex
  have hout : ∀ a ∈ bs, a ∉ as := fun a hb ha => hdisj a ha a hb rfl
  obtain ⟨fs₂, hy, hfreed'⟩ := deallocateChain_spec (by rwa [hfreed.view]) hn₂
    (fun a ha => visitedWith_eq_false (hvis a (List.mem_append_right _ ha)) (hout a ha))
    (fun a ha => hfreed.frees.marked (hout a ha) (hmark a (List.mem_append_right _ ha)))
    hfreed.exact
  refine ⟨fs₁, fs₂, hx, ?_, hfreed.append hfreed'⟩
  rw [hy, visitedWith_append]

/-- The records of a VLIR entry, given back before its other chains. -/
theorem deallocateVlir_spec {d : DirInCBM} {a : Nat} (hon : OnEntry g d a)
    (f : Block → Block) {css : List (List Nat)} {dcs : List Nat}
    (hchains : List.Forall₂ (fun r as => ChainFrom g d.fs.view r.1 r.2 as)
      (recordsOf g d.fs.view d.pointer) css)
    (hdata : ChainFrom g d.fs.view (d.pointer.at .dataTrack) (d.pointer.at .dataSector) dcs)
    (hnodup : css.flatten.Nodup) (hvis : ∀ a ∈ css.flatten ++ dcs, d.visited a = false)
    (hmark : ∀ a ∈ css.flatten, Marked g d.fs.bam.cell a) :
    ∃ res fs', (if isVlirEntry d.pointer then
        deallocateVlirRecords g (d.pointer.at .dataTrack) (d.pointer.at .dataSector) d.visited
          (d.fs.edit f)
      else some ⟨.ok, d.visited, d.fs.edit f⟩)
        = some ⟨res, visitedWith d.visited css.flatten, fs'⟩ ∧
      Freed g css.flatten (d.fs.edit f) fs' := by
  have hnothing : css = [] → ∀ res : FResult, ∃ res' fs', (some
        (⟨res, d.visited, d.fs.edit f⟩ : Dealloc))
        = some ⟨res', visitedWith d.visited css.flatten, fs'⟩ ∧
      Freed g css.flatten (d.fs.edit f) fs' := by
    rintro rfl res
    refine ⟨res, d.fs.edit f, ?_, hon.exact_edit f, rfl, FreesExactly.nil _, rfl, rfl⟩
    rw [List.flatten_nil, visitedWith_nil]
  by_cases hv : isVlirEntry d.pointer = true
  · rw [if_pos hv, deallocateVlirRecords, Fs.readSector]
    rw [recordsOf, if_pos hv] at hchains
    rcases hdata.cases_eq with ⟨ht, -⟩ | ⟨b, bs, rfl, habs, -⟩
    · have hnone : absSector g (d.pointer.at .dataTrack).toNat
          (d.pointer.at .dataSector).toNat = none := by
        rw [ht]
        exact absSector_zero g _
      rw [hnone] at hchains ⊢
      exact hnothing (List.forall₂_nil_left_iff.mp hchains) .invalidParameter
    · have hb := hvis b (List.mem_append_right _ (List.mem_cons_self ..))
      have hne : d.fs.currentSector ≠ some b := by
        rw [hon.inView]
        rintro hab
        cases hab
        rw [hon.visited] at hb
        exact nomatch hb
      have hdisk : (d.fs.edit f).disk b = d.fs.view b := (Fs.view_other hne).symm
      rw [habs] at hchains ⊢
      dsimp only at hchains ⊢
      rw [Fs.prtRead, if_pos (absSector_lt habs), hdisk]
      dsimp only
      by_cases hrb : isRecordBlock (d.fs.view b) = true
      · rw [if_pos hrb] at hchains ⊢
        have hsame : ∀ c ∈ css.flatten, (d.fs.edit f).view c = d.fs.view c :=
          fun c hc => hon.view_edit f (hvis c (List.mem_append_left _ hc))
        obtain ⟨fs', hx, hfreed⟩ := deallocateAll_spec (recordRefs (d.fs.view b) 0 127) css
          d.visited (d.fs.edit f) (forall₂_congr hchains hsame) hnodup
          (fun c hc => hvis c (List.mem_append_left _ hc)) hmark (hon.exact_edit f)
        exact ⟨.ok, fs', by rw [deallocateRecords_eq, hx], hfreed⟩
      · rw [if_neg hrb] at hchains ⊢
        exact hnothing (List.forall₂_nil_left_iff.mp hchains) .ok
  · rw [if_neg hv]
    rw [recordsOf, if_neg hv] at hchains
    exact hnothing (List.forall₂_nil_left_iff.mp hchains) .ok

/-- One byte of an entry that was copied out of its sector. -/
theorem entryOf_at (b : Block) (offset : Nat) (f : Field) :
    (entryOf b offset).at f = b.get (offset + f.offset) := by
  rw [DirEntryCBM.at, Buffer.get_eq _ (by cases f <;> decide)]
  rfl

theorem DirInCBM.slot_lt (d : DirInCBM) : d.slot < 8 := by
  rw [DirInCBM.slot]
  omega

/-- A cleared entry has no references. -/
theorem entryOf_clearFields {slot : Nat} (h : slot < 8) (b : Block) :
    (entryOf (clearFields slot b) (DirInCBM.slotOffset slot)).at .dataTrack = 0 ∧
      (entryOf (clearFields slot b) (DirInCBM.slotOffset slot)).at .auxTrack = 0 ∧
      (entryOf (clearFields slot b) (DirInCBM.slotOffset slot)).at .recordSize = 0 := by
  have hp : DirInCBM.slotOffset slot + 32 ≤ 256 := by
    rw [DirInCBM.slotOffset]
    omega
  refine ⟨?_, ?_, ?_⟩ <;> rw [entryOf_at, clearFields] <;>
    simp only [Field.offset] <;>
    repeat rw [Buffer.get_set _ (by omega)]
  all_goals split_ifs <;> first | rfl | omega

/-- What the calls that give sectors back leave of a file system: exactly these
    sectors were freed, and the sectors away from the entry hold what they
    held. -/
structure GivesBack (g : Geometry) (entry : Nat) (as : List Nat) (fs fs' : Fs) : Prop where
  frees : FreesExactly g fs.bam.cell fs'.bam.cell as
  view : ∀ b, Fs.IsDataSector g b → b ≠ entry → fs'.view b = fs.view b

/-- An edit of the entry, chains given back, and a `sync`. -/
theorem OnEntry.givesBack {d : DirInCBM} {a : Nat} (hon : OnEntry g d a) {f : Block → Block}
    {as : List Nat} {fs : Fs} (h : Freed g as (d.fs.edit f) fs) :
    GivesBack g a as d.fs (fs.sync g).2 where
  frees := by
    rw [(Fs.sync_spec h.exact.coherent).sameBam.cell]
    exact h.frees
  view := by
    intro b hb hne
    rw [(Fs.sync_spec h.exact.coherent).sameView b hb, h.view]
    refine Fs.view_edit_other ?_
    rw [hon.inView]
    exact fun hab => hne (Option.some.inj hab).symm

/-- **DELETING AN ENTRY** frees the records, the data and the side chain of its
    file. -/
theorem deleteEntry_spec {d : DirInCBM} {a : Nat} (hon : OnEntry g d a)
    (c : FileChains g d.fs.view d.pointer) (hvis : ∀ b ∈ c.sectors, d.visited b = false)
    (hmark : ∀ b ∈ c.sectors, Marked g d.fs.bam.cell b) :
    ∃ res d', deleteEntry g d = some (res, d') ∧ GivesBack g a c.sectors d.fs d'.fs := by
  obtain ⟨hn₁, hn₂, hdisj⟩ := List.nodup_append.mp c.nodup
  have hrec : ∀ b ∈ c.records.flatten, b ∈ c.sectors :=
    fun b hb => List.mem_append_left _ hb
  have htwo : ∀ b ∈ c.data ++ c.side, b ∈ c.sectors := fun b hb => List.mem_append_right _ hb
  obtain ⟨res, fs₁, hx, hfreed₁⟩ := deallocateVlir_spec hon
    (fun b => b.set (DirInCBM.slotOffset d.slot + Field.stdFileType.offset) 0)
    c.records_chain c.data_chain hn₁
    (fun b hb => by
      rcases List.mem_append.mp hb with hb | hb
      · exact hvis b (hrec b hb)
      · exact hvis b (htwo b (List.mem_append_left _ hb)))
    (fun b hb => hmark b (hrec b hb))
  have hout : ∀ b ∈ c.data ++ c.side, b ∉ c.records.flatten :=
    fun b hb hb' => hdisj b hb' b hb rfl
  have hsame : ∀ b ∈ c.data ++ c.side, fs₁.view b = d.fs.view b := by
    intro b hb
    rw [hfreed₁.view]
    exact hon.view_edit _ (hvis b (htwo b hb))
  obtain ⟨fs₂, fs₃, hy, hz, hfreed₂⟩ := deallocateTwo_spec
    (c.data_chain.congr fun b hb => hsame b (List.mem_append_left _ hb))
    (c.side_chain.congr fun b hb => hsame b (List.mem_append_right _ hb)) hn₂
    (fun b hb => visitedWith_eq_false (hvis b (htwo b hb)) (hout b hb))
    (fun b hb => hfreed₁.frees.marked (hout b hb) (hmark b (htwo b hb))) hfreed₁.exact
  have hrun : ∃ r v, deleteEntry g d
      = some (r, { d with visited := v, fs := (fs₃.sync g).2 }) := by
    rw [deleteEntry, hx]
    dsimp only
    rw [hy]
    dsimp only
    rw [hz]
    exact ⟨_, _, rfl⟩
  obtain ⟨r, v, hrun⟩ := hrun
  exact ⟨r, _, hrun, hon.givesBack (hfreed₁.append hfreed₂)⟩

/-- **CLEARING AN ENTRY** frees the data and the side chain of its file only. -/
theorem clearEntry_spec {d : DirInCBM} {a : Nat} (hon : OnEntry g d a)
    (c : FileChains g d.fs.view d.pointer) (hvis : ∀ b ∈ c.sectors, d.visited b = false)
    (hmark : ∀ b ∈ c.sectors, Marked g d.fs.bam.cell b) :
    ∃ d', clearEntry g d = some d' ∧ GivesBack g a (c.data ++ c.side) d.fs d'.fs ∧
      (Fs.IsDataSector g a → d'.pointer.at .dataTrack = 0 ∧ d'.pointer.at .auxTrack = 0 ∧
        d'.pointer.at .recordSize = 0) := by
  have htwo : ∀ b ∈ c.data ++ c.side, b ∈ c.sectors := fun b hb => List.mem_append_right _ hb
  have hsame : ∀ b ∈ c.data ++ c.side, (d.fs.edit (clearFields d.slot)).view b = d.fs.view b :=
    fun b hb => hon.view_edit _ (hvis b (htwo b hb))
  obtain ⟨fs₁, fs₂, hx, hy, hfreed⟩ := deallocateTwo_spec
    (c.data_chain.congr fun b hb => hsame b (List.mem_append_left _ hb))
    (c.side_chain.congr fun b hb => hsame b (List.mem_append_right _ hb))
    (List.nodup_append.mp c.nodup).2.1 (fun b hb => hvis b (htwo b hb))
    (fun b hb => hmark b (htwo b hb)) (hon.exact_edit _)
  have hsync := Fs.sync_spec hfreed.exact.coherent
  have hback := hon.givesBack hfreed
  obtain ⟨fs₃, hz, hcur, -, hview, hbam, hbuf⟩ := Fs.moveWindow_spec
    (hsync.coherent hfreed.exact.coherent) (absSector_lt hon.current)
  refine ⟨{ d with visited := visitedWith d.visited (c.data ++ c.side), fs := fs₃ }, ?_,
    ⟨?_, ?_⟩, ?_⟩
  · rw [clearEntry, hx]
    dsimp only
    rw [hy]
    dsimp only
    rw [hon.current, hz]
  · rw [hbam.cell]
    exact hback.frees
  · intro b hb hne
    rw [hview b hb, hback.view b hb hne]
  · intro ha
    have hedit : fs₃.sectBuffer = clearFields d.slot d.fs.sectBuffer := by
      rw [hbuf ha, hsync.sameView a ha, hfreed.view]
      exact Fs.view_edit hon.inView
    have hcleared := entryOf_clearFields d.slot_lt d.fs.sectBuffer
    rw [← hedit] at hcleared
    exact hcleared

end CbmDir
