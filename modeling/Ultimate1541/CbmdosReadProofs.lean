import Ultimate1541.CbmdosCommandProofs

/-! # Where commands and names are read

    A command stands in its buffer with a zero behind it, and so does a name that is
    opened.  Every command is read within that zero; of the names, one is not. -/

namespace Cbmdos

open BoundedRead BoundedRead.Read

section Buffer

variable {cmd : List UInt8} {i len first : Nat} {c : UInt8}

/-- The buffer of a command or a name: what was sent, and the zero behind it. -/
def buffered (cmd : List UInt8) : List UInt8 := cmd ++ [0]

theorem reads_byte (hi : i ≤ cmd.length) : Succeeds (buffered cmd) (byte i) :=
  succeeds_byte (by simp [buffered]; omega)

theorem reads_firstBytes (hn : len ≤ cmd.length) : Succeeds (buffered cmd) (firstBytes len) :=
  succeeds_firstBytes (by simp [buffered]; omega)

theorem reads_cString (hi : i ≤ cmd.length) : Succeeds (buffered cmd) (cString i) :=
  succeeds_string hi

theorem reads_mstring (hfirst : first ≤ len) (hlen : len ≤ cmd.length) :
    Succeeds (buffered cmd) (mstring first len) := by
  rw [mstring, if_neg (by omega)]
  exact succeeds_stringUpTo (by omega)

/-- What was sent is what `firstBytes` finds. -/
theorem getD_of_firstBytes {bs : List UInt8} (h : (firstBytes len).run (buffered cmd) = some bs)
    (hi : i < len) (hbyte : (byte i).run (buffered cmd) = some c) : bs.getD i 0 = c := by
  have hi' : (buffered cmd)[i]? = some c := hbyte
  rw [firstBytes_eq h, List.getD_eq_getElem?_getD, List.getElem?_take_of_lt hi, hi']
  rfl

/-- Stripping keeps every byte that is no terminator. -/
theorem lt_stripped {stripped : Nat}
    (h : (stripTerminator cmd.length).run (buffered cmd) = some stripped)
    (hbyte : (byte i).run (buffered cmd) = some c) (hzero : c ≠ 0) (hcr : c ≠ 0x0D)
    (hlf : c ≠ 0x0A) : i < stripped := by
  have hi : i < cmd.length := byte_lt hbyte hzero
  obtain ⟨buffer, hbuffer, hstripped⟩ := Option.bind_eq_some_iff.mp h
  have hat : ∀ j, j < cmd.length → buffer.getD j 0 = 0x0D ∨ buffer.getD j 0 = 0x0A → i ≠ j := by
    intro j hj hterm heq
    subst heq
    rw [getD_of_firstBytes hbuffer hi hbyte] at hterm
    exact hterm.elim hcr hlf
  have heq := (Option.some.inj hstripped).symm
  split at heq
  · omega
  · split at heq
    · omega
    · split at heq
      · next hend =>
          have hne := hat (cmd.length - 1) (by omega) (.inl hend.2)
          omega
      · split at heq
        · next hend =>
            have hne := hat (cmd.length - 1) (by omega) (.inr hend.2.2)
            have hne' := hat (cmd.length - 2) (by omega) (.inl hend.2.1)
            omega
        · omega

theorem stripped_le {stripped : Nat}
    (h : (stripTerminator cmd.length).run (buffered cmd) = some stripped) :
    stripped ≤ cmd.length := by
  obtain ⟨buffer, -, hstripped⟩ := Option.bind_eq_some_iff.mp h
  have heq := (Option.some.inj hstripped).symm
  split at heq
  · omega
  · split at heq
    · omega
    · split at heq
      · omega
      · split at heq <;> omega

theorem reads_stripTerminator : Succeeds (buffered cmd) (stripTerminator cmd.length) :=
  succeeds_bind (reads_firstBytes (Nat.le_refl _)) fun _ _ => succeeds_pure _

end Buffer

/-! ## The handlers -/

section Handlers

variable {cmd : List UInt8} {len : Nat}

/-- What a handler knows of the command it is given: the length it works with is not
    that of an empty command, and ends behind every byte that is no terminator. -/
structure Stripped (cmd : List UInt8) (len : Nat) : Prop where
  pos : 0 < len
  le : len ≤ cmd.length
  lt : ∀ i c, (byte i).run (buffered cmd) = some c → c ≠ 0 → c ≠ 0x0D → c ≠ 0x0A → i < len

theorem reads_blockCommand (h : Stripped cmd len) : Succeeds (buffered cmd) (blockCommand len) :=
  succeeds_bind (reads_firstBytes h.le) fun _ _ => succeeds_pure _

theorem reads_cpCommand (h : Stripped cmd len) : Succeeds (buffered cmd) (cpCommand len) := by
  have hpos := h.pos
  have hle := h.le
  refine succeeds_bind (reads_byte (by omega)) fun c1 _ => ?_
  split
  · split
    · exact succeeds_pure _
    · exact succeeds_bind (reads_byte (by omega)) fun _ _ => succeeds_pure _
  · exact succeeds_bind (reads_firstBytes hle) fun _ _ => succeeds_pure _

theorem reads_dirCommand (h : Stripped cmd len) : Succeeds (buffered cmd) (dirCommand len) := by
  have hpos := h.pos
  have hle := h.le
  refine succeeds_bind (reads_byte (by omega)) fun c1 hc1 => ?_
  by_cases hd : c1 = ch 'D'
  · rw [if_neg (by simp [hd])]
    have hlong : 1 < len := h.lt 1 c1 hc1 (by rw [hd]; decide) (by rw [hd]; decide) (by rw [hd]; decide)
    refine succeeds_bind (reads_mstring (by omega) hle) fun name _ => ?_
    refine succeeds_bind (reads_byte (by omega)) fun c0 _ => ?_
    split
    · exact succeeds_pure _
    · exact succeeds_pure _
  · rw [if_pos hd]
    exact succeeds_pure _

/-- The letters of a command word end before its end. -/
theorem reads_behindWord (h : Stripped cmd len) : Succeeds (buffered cmd) (behindWord len) := by
  have hle := h.le
  refine succeeds_bind (reads_cString (by omega)) fun s hs => reads_mstring ?_ hle
  obtain ⟨rest, hrest⟩ := untilStop_spec (m := buffered cmd) (by simpa [cString, Read.string] using hs)
  -- The last letter is no terminator.
  by_contra hlong
  have hletter : len < (s.takeWhile isAlpha).length := by omega
  have halpha : isAlpha (s.takeWhile isAlpha)[len] = true :=
    List.all_eq_true.mp List.all_takeWhile _ (List.getElem_mem hletter)
  have hbyte : (byte len).run (buffered cmd) = some (s.takeWhile isAlpha)[len] := by
    show (buffered cmd)[len]? = _
    have hmemory : buffered cmd = s.takeWhile isAlpha ++ (s.dropWhile isAlpha ++ 0 :: rest) := by
      rw [← List.append_assoc, List.takeWhile_append_dropWhile]
      exact hrest
    rw [hmemory, List.getElem?_append_left hletter, List.getElem?_eq_getElem hletter]
  refine Nat.lt_irrefl len (h.lt len _ hbyte ?_ ?_ ?_)
  · intro heq
    rw [heq] at halpha
    exact absurd halpha (by decide)
  · intro heq
    rw [heq] at halpha
    exact absurd halpha (by decide)
  · intro heq
    rw [heq] at halpha
    exact absurd halpha (by decide)

theorem reads_copyCommand (h : Stripped cmd len) : Succeeds (buffered cmd) (copyCommand len) :=
  succeeds_bind (reads_behindWord h) fun _ _ => succeeds_pure _

theorem reads_scratchCommand (h : Stripped cmd len) : Succeeds (buffered cmd) (scratchCommand len) :=
  succeeds_bind (reads_behindWord h) fun _ _ => succeeds_pure _

theorem reads_renameCommand (h : Stripped cmd len) : Succeeds (buffered cmd) (renameCommand len) :=
  succeeds_bind (reads_behindWord h) fun _ _ => succeeds_pure _

theorem reads_formatCommand (h : Stripped cmd len) : Succeeds (buffered cmd) (formatCommand len) :=
  succeeds_bind (reads_mstring h.pos h.le) fun _ _ => succeeds_pure _

theorem reads_lockCommand (h : Stripped cmd len) : Succeeds (buffered cmd) (lockCommand len) :=
  succeeds_bind (reads_mstring h.pos h.le) fun _ _ => succeeds_pure _

theorem reads_renameDashedCommand (h : Stripped cmd len) (hlong : 2 < len) :
    Succeeds (buffered cmd) (renameDashedCommand len) := by
  have hle := h.le
  refine succeeds_bind (reads_mstring (by omega) hle) fun _ _ => ?_
  exact succeeds_bind (reads_byte (by omega)) fun _ _ => succeeds_pure _

/-- A command word of two characters leaves at least these two in the copy. -/
theorem two_le_copied (h : Stripped cmd len) {copied : List UInt8} {c0 c1 : UInt8}
    (hcopied : (mstring 0 len).run (buffered cmd) = some copied)
    (hc0 : (byte 0).run (buffered cmd) = some c0) (hne0 : c0 ≠ 0)
    (hc1 : (byte 1).run (buffered cmd) = some c1) (hne : c1 ≠ 0) (hcr : c1 ≠ 0x0D)
    (hlf : c1 ≠ 0x0A) : 2 ≤ copied.length := by
  have hlong : 1 < len := h.lt 1 c1 hc1 hne hcr hlf
  have hle := h.le
  rw [mstring, if_neg (by omega)] at hcopied
  refine length_takeUntil len hcopied hlong ?_ fun j hj => ?_
  · simp [buffered]
    omega
  · have h0 : (buffered cmd)[0]? = some c0 := hc0
    have h1 : (buffered cmd)[1]? = some c1 := hc1
    match j, hj with
    | 0, _ => simpa [h0] using hne0
    | 1, _ => simpa [h1] using hne

theorem reads_behind {m s : List UInt8} {n : Nat} (hn : n ≤ s.length) : Succeeds m (behind s n) := by
  rw [behind, if_pos hn]
  exact succeeds_pure _

theorem reads_attributeCommand (h : Stripped cmd len) :
    Succeeds (buffered cmd) (attributeCommand len) := by
  have hpos := h.pos
  have hle := h.le
  refine succeeds_bind (reads_mstring (by omega) hle) fun copied hcopied => ?_
  refine succeeds_bind (reads_byte (by omega)) fun c0 hc0 => ?_
  refine succeeds_bind (reads_byte (by omega)) fun c1 hc1 => ?_
  -- Where a second character was asked for, both are in the copy.
  have htwo : ∀ {c0' c1' : Char}, c0 = ch c0' → c1 = ch c1' → ch c0' ≠ 0 → ch c1' ≠ 0 →
      ch c1' ≠ 0x0D → ch c1' ≠ 0x0A → 2 ≤ copied.length := by
    intro c0' c1' h0 h1 hne0 hne1 hcr hlf
    subst h0
    subst h1
    exact two_le_copied h hcopied hc0 hne0 hc1 hne1 hcr hlf
  by_cases ha : c0 = ch 'A'
  · rw [if_pos ha]
    by_cases hcolon : c1 = ch ':'
    · rw [if_neg (by simp [hcolon])]
      have hlong := htwo ha hcolon (by decide) (by decide) (by decide) (by decide)
      exact succeeds_bind (reads_behind hlong) fun _ _ => succeeds_pure _
    · rw [if_pos hcolon]
      exact succeeds_pure _
  · rw [if_neg ha]
    by_cases hd : c0 = ch 'D'
    · rw [if_pos hd]
      by_cases hcolon : c1 = ch ':'
      · rw [if_neg (by simp [hcolon])]
        have hlong := htwo hd hcolon (by decide) (by decide) (by decide) (by decide)
        exact succeeds_bind (reads_behind (by omega)) fun _ _ => succeeds_pure _
      · rw [if_pos hcolon]
        exact succeeds_pure _
    · rw [if_neg hd]
      by_cases hex : c0 = ch 'E' ∨ c0 = ch 'X'
      · rw [if_pos hex]
        have hlong : ∀ {c : Char}, c1 = ch c → ch c ≠ 0 → ch c ≠ 0x0D → ch c ≠ 0x0A →
            2 ≤ copied.length := by
          intro c hc hne hcr hlf
          rcases hex with he | hx
          · exact htwo he hc (by decide) hne hcr hlf
          · exact htwo hx hc (by decide) hne hcr hlf
        by_cases hlu : c1 = ch 'L' ∨ c1 = ch 'U'
        · rw [if_pos hlu]
          have htwo' : 2 ≤ copied.length := hlu.elim
            (fun hl => hlong hl (by decide) (by decide) (by decide))
            (fun hu => hlong hu (by decide) (by decide) (by decide))
          split
          · exact succeeds_pure _
          · exact succeeds_bind (reads_behind htwo') fun _ _ => succeeds_pure _
        · rw [if_neg hlu]
          by_cases hh : c1 = ch 'H'
          · rw [if_pos hh]
            have htwo' := hlong hh (by decide) (by decide) (by decide)
            split
            · split
              · exact succeeds_pure _
              · exact succeeds_bind (reads_behind htwo') fun _ _ => succeeds_pure _
            · exact succeeds_bind (reads_behind htwo') fun _ _ => succeeds_pure _
          · rw [if_neg hh]
            split
            · exact succeeds_pure _
            · exact succeeds_pure _
      · rw [if_neg hex]
        exact succeeds_pure _

/-- A second character that is a dash has a third one behind it, if only the zero. -/
theorem two_le_of_dash {c1 : UInt8} (hc1 : (byte 1).run (buffered cmd) = some c1)
    (hdash : c1 = ch '-') : 2 ≤ cmd.length := by
  have hlt : 1 < cmd.length := byte_lt hc1 (by rw [hdash]; decide)
  omega

theorem reads_getCommand (h : Stripped cmd len) : Succeeds (buffered cmd) (getCommand len) := by
  have hpos := h.pos
  have hle := h.le
  refine succeeds_bind (reads_byte (by omega)) fun c1 hc1 => ?_
  by_cases hdash : c1 = ch '-'
  · rw [if_neg (by simp [hdash])]
    refine succeeds_bind (reads_byte (two_le_of_dash hc1 hdash)) fun c2 _ => ?_
    split
    · exact succeeds_pure _
    · split
      · exact succeeds_bind (reads_byte (by omega)) fun _ _ => succeeds_pure _
      · split <;> exact succeeds_pure _
  · rw [if_pos hdash]
    exact succeeds_pure _

theorem reads_positionCommand (h : Stripped cmd len) :
    Succeeds (buffered cmd) (positionCommand cmd.length len) := by
  have hpos := h.pos
  have hle := h.le
  refine succeeds_bind (reads_byte (by omega)) fun chan _ => ?_
  split
  · exact succeeds_pure _
  · exact succeeds_bind (reads_firstBytes (Nat.le_refl _)) fun _ _ => succeeds_pure _

theorem reads_memoryRead (h : Stripped cmd len) : Succeeds (buffered cmd) (memoryRead len) := by
  have hle := h.le
  rw [memoryRead]
  split
  · exact succeeds_pure _
  · refine succeeds_bind (reads_byte (by omega)) fun low _ => ?_
    split
    · exact succeeds_bind (reads_byte (by omega)) fun _ _ => succeeds_pure _
    · exact succeeds_pure _

theorem reads_memoryWrite (h : Stripped cmd len) : Succeeds (buffered cmd) (memoryWrite len) := by
  have hle := h.le
  rw [memoryWrite]
  split
  · exact succeeds_pure _
  · exact succeeds_bind (reads_firstBytes (by omega)) fun _ _ => succeeds_pure _

theorem reads_memoryCommand (h : Stripped cmd len) (htwo : 2 ≤ cmd.length) :
    Succeeds (buffered cmd) (memoryCommand len) := by
  refine succeeds_bind (reads_byte htwo) fun c2 _ => ?_
  split
  · exact reads_memoryRead h
  · split
    · exact succeeds_pure _
    · split
      · exact reads_memoryWrite h
      · exact succeeds_pure _

theorem reads_userCommand (h : Stripped cmd len) : Succeeds (buffered cmd) (userCommand len) := by
  have hpos := h.pos
  have hle := h.le
  refine succeeds_bind (reads_byte (by omega)) fun _ _ => ?_
  exact succeeds_bind (reads_firstBytes hle) fun _ _ => succeeds_pure _

/-! ## The clock -/

theorem reads_clockField (digits : Nat) : ∀ (off : Nat) (value : Int), off + digits ≤ cmd.length →
    Succeeds (buffered cmd) (clockField off digits value) := by
  induction digits with
  | zero => exact fun _ _ _ => succeeds_pure _
  | succ digits ih =>
      intro off value hoff
      rw [clockField]
      refine succeeds_bind (reads_byte (by omega)) fun c _ => ?_
      split
      · exact ih (off + 1) _ (by omega)
      · exact succeeds_pure _

theorem reads_parseClockA (h : Stripped cmd len) : Succeeds (buffered cmd) (parseClockA len) := by
  have hle := h.le
  rw [parseClockA]
  split
  · exact succeeds_pure _
  · next hlen =>
      have hlong : 26 ≤ cmd.length := by omega
      have hfields : Succeeds (buffered cmd) clockFieldsA :=
        succeeds_bind (reads_clockField 2 9 0 (by omega)) fun _ _ =>
          succeeds_bind (reads_clockField 2 12 0 (by omega)) fun _ _ =>
            succeeds_bind (reads_clockField 2 15 0 (by omega)) fun _ _ =>
              succeeds_bind (reads_clockField 2 18 0 (by omega)) fun _ _ =>
                succeeds_bind (reads_clockField 2 21 0 (by omega)) fun _ _ =>
                  succeeds_bind (reads_clockField 2 24 0 (by omega)) fun _ _ => succeeds_pure _
      refine succeeds_bind (reads_firstBytes hle) fun buffer _ => ?_
      dsimp only
      split
      · exact succeeds_pure _
      · split
        · exact succeeds_pure _
        · exact succeeds_bind hfields fun _ _ => succeeds_pure _

theorem reads_parseClockBytes (h : Stripped cmd len) (field : UInt8 → Option Int) :
    Succeeds (buffered cmd) (parseClockBytes len field) := by
  have hle := h.le
  rw [parseClockBytes]
  split
  · exact succeeds_pure _
  · exact succeeds_bind (reads_firstBytes (by omega)) fun _ _ => succeeds_pure _

theorem reads_parseClockI (h : Stripped cmd len) : Succeeds (buffered cmd) (parseClockI len) := by
  have hle := h.le
  rw [parseClockI]
  split
  · exact succeeds_pure _
  · next hlen =>
      have hlong : 23 ≤ cmd.length := by omega
      have hfields : Succeeds (buffered cmd) clockFieldsI :=
        succeeds_bind (reads_clockField 4 4 0 (by omega)) fun _ _ =>
          succeeds_bind (reads_clockField 2 9 0 (by omega)) fun _ _ =>
            succeeds_bind (reads_clockField 2 12 0 (by omega)) fun _ _ =>
              succeeds_bind (reads_clockField 2 15 0 (by omega)) fun _ _ =>
                succeeds_bind (reads_clockField 2 18 0 (by omega)) fun _ _ =>
                  succeeds_bind (reads_clockField 2 21 0 (by omega)) fun _ _ => succeeds_pure _
      refine succeeds_bind (reads_firstBytes hle) fun buffer _ => ?_
      dsimp only
      split
      · exact succeeds_pure _
      · split
        · exact succeeds_pure _
        · exact hfields

theorem reads_parseClockWrite (h : Stripped cmd len) (hlong : 4 ≤ len) :
    Succeeds (buffered cmd) (parseClockWrite len) := by
  have hle := h.le
  refine succeeds_bind (reads_byte (by omega)) fun c3 _ => ?_
  have hform : Succeeds (buffered cmd) (if c3 = ch 'A' then parseClockA len
      else if c3 = ch 'B' then parseClockBytes len clockBcd
      else if c3 = ch 'D' then parseClockBytes len fun b => some b.toNat
      else if c3 = ch 'I' then parseClockI len
      else pure none) := by
    split
    · exact reads_parseClockA h
    · split
      · exact reads_parseClockBytes h _
      · split
        · exact reads_parseClockBytes h _
        · split
          · exact reads_parseClockI h
          · exact succeeds_pure _
  exact succeeds_bind hform fun _ _ => succeeds_pure _

theorem reads_timeCommand (h : Stripped cmd len) (now : ClockTime) (offset : Int) :
    Succeeds (buffered cmd) (timeCommand now offset len) := by
  have hpos := h.pos
  have hle := h.le
  refine succeeds_bind (reads_byte (by omega)) fun c1 hc1 => ?_
  by_cases hdash : c1 = ch '-'
  · rw [if_neg (by simp [hdash])]
    refine succeeds_bind (reads_byte (two_le_of_dash hc1 hdash)) fun c2 _ => ?_
    split
    · split
      · exact succeeds_pure _
      · exact succeeds_bind (reads_byte (by omega)) fun _ _ => succeeds_pure _
    · split
      · split
        · exact succeeds_pure _
        · exact succeeds_bind (reads_parseClockWrite h (by omega)) fun _ _ => succeeds_pure _
      · exact succeeds_pure _
  · rw [if_pos hdash]
    exact succeeds_pure _

/-! ## `execute_command` -/

theorem reads_cCommand (h : Stripped cmd len) : Succeeds (buffered cmd) (cCommand len) := by
  have hpos := h.pos
  have hle := h.le
  refine succeeds_bind (reads_byte (by omega)) fun c1 _ => ?_
  split
  · exact reads_dirCommand h
  · split
    · exact reads_cpCommand h
    · exact reads_copyCommand h

theorem reads_mCommand (h : Stripped cmd len) : Succeeds (buffered cmd) (mCommand len) := by
  have hpos := h.pos
  have hle := h.le
  refine succeeds_bind (reads_byte (by omega)) fun c1 hc1 => ?_
  by_cases hdash : c1 = ch '-'
  · rw [if_pos hdash]
    exact reads_memoryCommand h (two_le_of_dash hc1 hdash)
  · rw [if_neg hdash]
    exact reads_dirCommand h

theorem reads_rCommand (h : Stripped cmd len) : Succeeds (buffered cmd) (rCommand len) := by
  have hpos := h.pos
  have hle := h.le
  refine succeeds_bind (reads_byte (by omega)) fun c1 _ => ?_
  split
  · exact reads_dirCommand h
  · split
    · next hlong => exact reads_renameDashedCommand h hlong.1
    · exact reads_renameCommand h

theorem reads_sCommand (h : Stripped cmd len) : Succeeds (buffered cmd) (sCommand len) := by
  have hle := h.le
  rw [sCommand]
  split
  · refine succeeds_bind (reads_byte (by omega)) fun c1 _ => ?_
    split
    · exact succeeds_bind (reads_byte (by omega)) fun _ _ => succeeds_pure _
    · exact reads_scratchCommand h
  · exact reads_scratchCommand h

theorem reads_wCommand (h : Stripped cmd len) : Succeeds (buffered cmd) (wCommand len) := by
  have hle := h.le
  rw [wCommand]
  split
  · refine succeeds_bind (reads_byte (by omega)) fun c1 _ => ?_
    split
    · exact succeeds_bind (reads_byte (by omega)) fun _ _ => succeeds_pure _
    · exact succeeds_pure _
  · exact succeeds_pure _

theorem reads_commandOf (h : Stripped cmd len) (now : ClockTime) (offset : Int) (c0 : UInt8) :
    Succeeds (buffered cmd) (commandOf now offset c0 cmd.length len) := by
  rw [commandOf]
  refine succeeds_ite (reads_blockCommand h) ?_
  refine succeeds_ite (reads_cCommand h) ?_
  refine succeeds_ite (reads_getCommand h) ?_
  refine succeeds_ite (succeeds_pure _) ?_
  refine succeeds_ite (reads_mCommand h) ?_
  refine succeeds_ite (reads_formatCommand h) ?_
  refine succeeds_ite (reads_positionCommand h) ?_
  refine succeeds_ite (reads_rCommand h) ?_
  refine succeeds_ite (reads_sCommand h) ?_
  refine succeeds_ite (reads_timeCommand h now offset) ?_
  refine succeeds_ite (reads_wCommand h) ?_
  refine succeeds_ite (reads_userCommand h) ?_
  refine succeeds_ite (reads_attributeCommand h) ?_
  exact succeeds_ite (reads_lockCommand h) (succeeds_pure _)

/-- Every command is read within its zero. -/
theorem reads_executeCommand (now : ClockTime) (offset : Int) (cmd : List UInt8) :
    Succeeds (buffered cmd) (executeCommand now offset cmd.length) := by
  rw [executeCommand]
  split
  · exact succeeds_pure _
  · refine succeeds_bind reads_stripTerminator fun stripped hstripped => ?_
    have hle := stripped_le hstripped
    by_cases hzero : stripped = 0
    · rw [if_pos hzero]
      exact succeeds_pure _
    · rw [if_neg hzero]
      have h : Stripped cmd stripped :=
        ⟨by omega, hle, fun i c hc => lt_stripped hstripped hc⟩
      exact succeeds_bind (reads_byte (by omega)) fun c0 _ => reads_commandOf h now offset c0

end Handlers

/-! ## `parse_open` -/

section Names

variable {name : List UInt8}

theorem reads_chainedBuffers (hzero : 1 ≤ name.length) :
    Succeeds (buffered name) chainedBuffers := by
  refine succeeds_bind (reads_byte hzero) fun c1 hc1 => ?_
  by_cases hhash : c1 = ch '#'
  · rw [if_pos hhash]
    have hone : 1 < name.length := byte_lt hc1 (by rw [hhash]; decide)
    refine succeeds_bind (reads_byte hone) fun c2 hc2 => ?_
    by_cases hdigit : isDigit c2 = true
    · rw [if_pos hdigit]
      -- A digit is not the zero, so there is a byte behind it.
      have hne : c2 ≠ 0 := by
        intro heq
        rw [heq] at hdigit
        exact absurd hdigit (by decide)
      have htwo : 2 < name.length := byte_lt hc2 hne
      exact succeeds_bind (reads_byte htwo) fun _ _ => succeeds_pure _
    · rw [if_neg hdigit]
      exact succeeds_pure _
  · rw [if_neg hhash]
    exact succeeds_pure _

/-- The name behind a `$` and the kind of directory begins three bytes on, also where
    there is no kind. -/
theorem reads_parseOpen : Succeeds (buffered name) parseOpen ↔ name ≠ str "$=" := by
  constructor
  · rintro h rfl
    exact absurd h (by decide)
  · intro hne
    refine succeeds_bind (reads_byte (Nat.zero_le _)) fun c0 hc0 => ?_
    by_cases hhash : c0 = ch '#'
    · rw [if_pos hhash]
      have hlong : 0 < name.length := byte_lt hc0 (by rw [hhash]; decide)
      exact succeeds_bind (reads_chainedBuffers hlong) fun _ _ =>
        succeeds_bind (reads_cString hlong) fun _ _ => succeeds_pure _
    rw [if_neg hhash]
    by_cases hdollar : c0 = ch '$'
    · rw [if_pos hdollar]
      have hlong : 0 < name.length := byte_lt hc0 (by rw [hdollar]; decide)
      refine succeeds_bind (reads_byte hlong) fun c1 hc1 => ?_
      by_cases hequal : c1 = ch '='
      · rw [if_pos hequal]
        have htwo : 1 < name.length := byte_lt hc1 (by rw [hequal]; decide)
        have hthree : 3 ≤ name.length := by
          by_contra hshort
          obtain ⟨b0, b1, rfl⟩ := List.length_eq_two.mp (show name.length = 2 by omega)
          cases hc0
          cases hc1
          exact hne (by rw [hdollar, hequal]; rfl)
        exact succeeds_bind (reads_byte htwo) fun _ _ =>
          succeeds_bind (reads_cString hthree) fun _ _ => succeeds_pure _
      · rw [if_neg hequal]
        exact succeeds_bind (reads_cString hlong) fun _ _ => succeeds_pure _
    · rw [if_neg hdollar]
      exact succeeds_bind (reads_cString (Nat.zero_le _)) fun _ _ => succeeds_pure _

end Names

/-! ## What the parser is given -/

/-- A command, or a name to open. -/
inductive Input where
  | command (bytes : List UInt8) (fits : bytes.length ≤ commandBufferSize)
  | name (bytes : List UInt8) (noZero : 0 ∉ bytes)

namespace Input

/-- What stands before the zero. -/
def bytes : Input → List UInt8
  | command bytes _ => bytes
  | name bytes _ => bytes

/-- What becomes of it: the executor's calls and the answer to a command, and what a
    name asks for. -/
def parse (now : ClockTime) (offset : Int) : Input → Reads (Outcome ⊕ Except Nat Open)
  | command bytes _ => do
      let outcome ← executeCommand now offset bytes.length
      pure (.inl outcome)
  | name _ _ => do
      let asked ← parseOpen
      pure (.inr asked)

/-- No byte is read beyond the zero, and buffers that agree up to it lead to the same. -/
structure ReadsWithin (now : ClockTime) (offset : Int) (input : Input) : Prop where
  inside : Succeeds (buffered input.bytes) (input.parse now offset)
  same : ∀ x y, (input.parse now offset).run (buffered input.bytes ++ x) =
    (input.parse now offset).run (buffered input.bytes ++ y)

/-- The one name that is not read within its zero. -/
def BareKind : Input → Prop
  | command _ _ => False
  | name bytes _ => bytes = str "$="

/-- Every input but the name `$=` is read within its zero. -/
theorem readsWithin_iff (now : ClockTime) (offset : Int) (input : Input) :
    input.ReadsWithin now offset ↔ ¬ input.BareKind := by
  constructor
  · rintro ⟨hinside, -⟩ hbare
    cases input with
    | command bytes fits => exact hbare
    | name bytes noZero =>
        -- What follows `parse_open` reads nothing.
        have hread : Succeeds (buffered bytes) parseOpen := by
          obtain ⟨result, hresult⟩ := Option.isSome_iff_exists.mp hinside
          obtain ⟨opened, hopened, -⟩ := Option.bind_eq_some_iff.mp hresult
          exact Option.isSome_iff_exists.mpr ⟨opened, hopened⟩
        exact reads_parseOpen.mp hread hbare
  · intro hbare
    have hinside : Succeeds (buffered input.bytes) (input.parse now offset) := by
      cases input with
      | command bytes fits =>
          exact succeeds_bind (reads_executeCommand now offset bytes) fun _ _ => succeeds_pure _
      | name bytes noZero =>
          exact succeeds_bind (reads_parseOpen.mpr hbare) fun _ _ => succeeds_pure _
    exact ⟨hinside, hinside.same⟩

/-- Behind the zero of the name `$=` stands what an earlier name left, and it is taken
    for the directory that is asked for. -/
theorem bareKind_reads_on :
    let now : ClockTime := ⟨4, 2024, 2, 29, 12, 0, 0⟩
    let input : Input := .name (str "$=") (by decide)
    ¬ input.ReadsWithin now 0 ∧
      ((input.parse now 0).run (buffered input.bytes ++ str "1/GAMES" ++ [0])).isSome = true ∧
      (input.parse now 0).run (buffered input.bytes ++ str "1/GAMES" ++ [0]) ≠
        (input.parse now 0).run (buffered input.bytes ++ str "2/DEMOS" ++ [0]) := by
  refine ⟨fun h => absurd h.inside (by decide), by decide, fun h => ?_⟩
  have hpath := congrArg (Option.map (Sum.elim (fun _ => none) fun asked =>
    asked.toOption.map fun o => o.file.path)) h
  exact absurd hpath (by decide)

end Input

end Cbmdos
