import Mathlib

/-! # The monitor's transfer command

    `T` copies a range of the 64K to another place.  The copy goes in chunks through a
    buffer, or byte by byte when there is no memory for it, and from the end when the
    destination begins inside the range.

    Addresses wrap at `$FFFF`.  A range that begins above the source and is long enough comes
    back to it from below, and then neither direction is right: going down, the bytes at the
    end are stored over bytes at the begin that are still to be read. -/

namespace MonitorTransfer

abbrev Memory := UInt16 → UInt8

/-! ## The source -/

/-- `write`. -/
def write (m : Memory) (address : UInt16) (value : UInt8) : Memory :=
  fun x => if x = address then value else m x

/-- `read_block`. -/
def readBlock (m : Memory) : (address : UInt16) → (len : Nat) → List UInt8
  | _, 0 => []
  | address, len + 1 => m address :: readBlock m (address + 1) len

/-- `write_block`. -/
def writeBlock : (m : Memory) → (address : UInt16) → List UInt8 → Memory
  | m, _, [] => m
  | m, address, b :: src => writeBlock (write m address b) (address + 1) src

/-- `TRANSFER_BLOCK`. -/
def transferBlock : Nat := 4096

/-- `(left > TRANSFER_BLOCK) ? TRANSFER_BLOCK : left`. -/
def chunkOf (left : Nat) : Nat := if transferBlock < left then transferBlock else left

section Loops

variable (start dest : UInt16)

/-- A chunk is read, and then written. -/
def copyChunk (i n : Nat) (m : Memory) : Memory :=
  writeBlock m (dest + UInt16.ofNat i) (readBlock m (start + UInt16.ofNat i) n)

/-- The loop over the chunks from the end, in at most `fuel` rounds. -/
def chunksDown : (fuel remaining : Nat) → Memory → Memory
  | 0, _, m => m
  | fuel + 1, remaining, m =>
      if remaining = 0 then m
      else
        let chunk := chunkOf remaining
        chunksDown fuel (remaining - chunk) (copyChunk start dest (remaining - chunk) chunk m)

/-- The loop over the chunks from the begin. -/
def chunksUp (length : Nat) : (fuel done : Nat) → Memory → Memory
  | 0, _, m => m
  | fuel + 1, done, m =>
      if done < length then
        let chunk := chunkOf (length - done)
        chunksUp length fuel (done + chunk) (copyChunk start dest done chunk m)
      else m

/-- A byte is read and written. -/
def copyByte (i : Nat) (m : Memory) : Memory :=
  write m (dest + UInt16.ofNat i) (m (start + UInt16.ofNat i))

/-- `while (length)`, a byte at a time. -/
def bytesDown : (length : Nat) → Memory → Memory
  | 0, m => m
  | length + 1, m => bytesDown length (copyByte start dest length m)

/-- `for (index = 0; index < length; index++)`, with so many to go. -/
def bytesUp : (left index : Nat) → Memory → Memory
  | 0, _, m => m
  | left + 1, index, m => bytesUp left (index + 1) (copyByte start dest index m)

end Loops

/-- `monitor_transfer_memory`, with a buffer or without. -/
def monitorTransferMemory (buffer : Bool) (start «end» dest : UInt16) (m : Memory) : Memory :=
  let length := («end» - start).toNat + 1
  if buffer = true then
    if start < dest ∧ dest ≤ «end» then chunksDown start dest length length m
    else chunksUp start dest length length 0 m
  else
    if start < dest ∧ dest ≤ «end» then bytesDown start dest length m
    else bytesUp start dest length 0 m

/-! ## What a copy is -/

/-- The memory with the range moved: at `dest + i` is what was at `start + i`. -/
def moved (start «end» dest : UInt16) (m : Memory) : Memory :=
  fun x => if (x - dest).toNat ≤ («end» - start).toNat then m (start + (x - dest)) else m x

/-- The same with the bytes from `lo` up to `hi` only. -/
def copied (start dest : UInt16) (m : Memory) (lo hi : Nat) : Memory :=
  fun x => if lo ≤ (x - dest).toNat ∧ (x - dest).toNat < hi then m (start + (x - dest)) else m x

/-- How far the destination is below the source, around the wrap. -/
def below (start dest : UInt16) : Nat := (start - dest).toNat

/-! ## Blocks -/

theorem sub_succ_toNat {x a : UInt16} (h : x ≠ a) : (x - (a + 1)).toNat + 1 = (x - a).toNat := by
  have hne : x.toNat ≠ a.toNat := fun he => h (UInt16.toNat_inj.1 he)
  have hx := x.toNat_lt
  have ha := a.toNat_lt
  rw [UInt16.toNat_sub, UInt16.toNat_sub, UInt16.toNat_add]
  simp only [UInt16.toNat_one]
  omega

theorem length_readBlock (m : Memory) (a : UInt16) (n : Nat) : (readBlock m a n).length = n := by
  induction n generalizing a with
  | zero => rfl
  | succ n ih => rw [readBlock, List.length_cons, ih]

theorem readBlock_getD (m : Memory) {n i : Nat} (a : UInt16) (h : i < n) :
    (readBlock m a n).getD i 0 = m (a + UInt16.ofNat i) := by
  induction n generalizing a i with
  | zero => omega
  | succ n ih =>
      cases i with
      | zero => simp [readBlock]
      | succ i =>
          rw [readBlock, List.getD_cons_succ, ih (a + 1) (by omega)]
          congr 1
          rw [UInt16.ofNat_add, UInt16.add_assoc, UInt16.add_comm 1]
          rfl

theorem writeBlock_apply (m : Memory) (a : UInt16) (bs : List UInt8) (h : bs.length ≤ 65536)
    (x : UInt16) :
    writeBlock m a bs x = if (x - a).toNat < bs.length then bs.getD (x - a).toNat 0 else m x := by
  induction bs generalizing m a with
  | nil => rfl
  | cons b bs ih =>
      rw [List.length_cons] at h
      rw [writeBlock, ih _ _ (by omega)]
      by_cases hx : x = a
      · subst hx
        have hback : (x - (x + 1)).toNat = 65535 := by
          rw [UInt16.toNat_sub, UInt16.toNat_add]
          have := x.toNat_lt
          simp only [UInt16.toNat_one]
          omega
        rw [hback, if_neg (by omega), if_pos (by simp)]
        simp [write]
      · have hs := sub_succ_toNat hx
        rw [← hs, List.length_cons, List.getD_cons_succ]
        simp only [Nat.add_lt_add_iff_right, write, if_neg hx]

/-! ## A chunk -/

/-- The index of an address above another one. -/
theorem toNat_sub_add_ofNat (x dest : UInt16) {i : Nat} (h : i < 65536) :
    (x - (dest + UInt16.ofNat i)).toNat = ((x - dest).toNat + 65536 - i) % 65536 := by
  have hd := dest.toNat_lt
  have hx := x.toNat_lt
  rw [UInt16.toNat_sub, UInt16.toNat_sub, UInt16.toNat_add, UInt16.toNat_ofNat_of_lt' h]
  omega

theorem toNat_add_ofNat_sub (start dest : UInt16) (k : Nat) :
    (start + UInt16.ofNat k - dest).toNat = (below start dest + k) % 65536 := by
  have hd := dest.toNat_lt
  have hs := start.toNat_lt
  rw [below, UInt16.toNat_sub, UInt16.toNat_sub, UInt16.toNat_add, UInt16.toNat_ofNat']
  omega

theorem toNat_dest_add_ofNat_sub (dest : UInt16) {k : Nat} (h : k < 65536) :
    (dest + UInt16.ofNat k - dest).toNat = k := by
  rw [toNat_add_ofNat_sub, below, UInt16.sub_self]
  exact (congrArg (· % 65536) (Nat.zero_add k)).trans (Nat.mod_eq_of_lt h)

theorem add_ofNat_sub (start dest : UInt16) (i : Nat) (x : UInt16) :
    start + UInt16.ofNat i + (x - (dest + UInt16.ofNat i)) = start + (x - dest) := by
  grind

/-- A chunk stores what it reads, and nothing else. -/
theorem copyChunk_apply (start dest : UInt16) {i n : Nat} (h : i + n ≤ 65536) (m : Memory)
    (x : UInt16) :
    copyChunk start dest i n m x =
      if i ≤ (x - dest).toNat ∧ (x - dest).toNat < i + n then m (start + (x - dest))
      else m x := by
  rw [copyChunk, writeBlock_apply _ _ _ (by rw [length_readBlock]; omega), length_readBlock]
  have hlt := (x - dest).toNat_lt
  by_cases hn : n = 0
  · rw [hn, if_neg (Nat.not_lt_zero _), if_neg (by omega)]
  · have hi := toNat_sub_add_ofNat x dest (show i < 65536 by omega)
    by_cases hin : i ≤ (x - dest).toNat ∧ (x - dest).toNat < i + n
    · rw [if_pos (by omega), if_pos hin, readBlock_getD m _ (by omega), UInt16.ofNat_toNat,
        add_ofNat_sub]
    · rw [if_neg (by omega), if_neg hin]

/-- What a source address holds when a part of the copy is there: what it held, unless the copy
    has come there. -/
theorem copied_source (start dest : UInt16) (m : Memory) {lo hi k : Nat}
    (h : lo ≤ (below start dest + k) % 65536 → (below start dest + k) % 65536 < hi →
      m (start + (start + UInt16.ofNat k - dest)) = m (start + UInt16.ofNat k)) :
    copied start dest m lo hi (start + UInt16.ofNat k) = m (start + UInt16.ofNat k) := by
  rw [copied]
  by_cases hin : lo ≤ (start + UInt16.ofNat k - dest).toNat ∧
      (start + UInt16.ofNat k - dest).toNat < hi
  · rw [if_pos hin]
    rw [toNat_add_ofNat_sub] at hin
    exact h hin.1 hin.2
  · rw [if_neg hin]

/-- A chunk below the part that has been copied. -/
theorem copyChunk_copied_below (start dest : UInt16) (m : Memory) {i n hi : Nat}
    (hlen : i + n ≤ 65536) (hhi : i + n ≤ hi)
    (hread : ∀ k, i ≤ k → k < i + n →
      copied start dest m (i + n) hi (start + UInt16.ofNat k) = m (start + UInt16.ofNat k)) :
    copyChunk start dest i n (copied start dest m (i + n) hi) = copied start dest m i hi := by
  funext x
  rw [copyChunk_apply start dest hlen]
  by_cases hin : i ≤ (x - dest).toNat ∧ (x - dest).toNat < i + n
  · have h := hread (x - dest).toNat hin.1 hin.2
    rw [UInt16.ofNat_toNat] at h
    rw [if_pos hin, h, copied, if_pos ⟨hin.1, by omega⟩]
  · rw [if_neg hin]
    simp only [copied]
    exact if_congr ⟨fun h => ⟨by omega, h.2⟩, fun h => ⟨by omega, h.2⟩⟩ rfl rfl

/-- A chunk above the part that has been copied. -/
theorem copyChunk_copied_above (start dest : UInt16) (m : Memory) {i n : Nat}
    (hlen : i + n ≤ 65536)
    (hread : ∀ k, i ≤ k → k < i + n →
      copied start dest m 0 i (start + UInt16.ofNat k) = m (start + UInt16.ofNat k)) :
    copyChunk start dest i n (copied start dest m 0 i) = copied start dest m 0 (i + n) := by
  funext x
  rw [copyChunk_apply start dest hlen]
  by_cases hin : i ≤ (x - dest).toNat ∧ (x - dest).toNat < i + n
  · have h := hread (x - dest).toNat hin.1 hin.2
    rw [UInt16.ofNat_toNat] at h
    rw [if_pos hin, h, copied, if_pos ⟨Nat.zero_le _, hin.2⟩]
  · rw [if_neg hin]
    simp only [copied]
    exact if_congr ⟨fun h => ⟨h.1, by omega⟩, fun h => ⟨h.1, by omega⟩⟩ rfl rfl

theorem copied_empty (start dest : UInt16) (m : Memory) (i : Nat) :
    copied start dest m i i = m := by
  funext x
  rw [copied, if_neg (by omega)]

/-- The whole range. -/
theorem copied_all (start «end» dest : UInt16) (m : Memory) :
    copied start dest m 0 ((«end» - start).toNat + 1) = moved start «end» dest m := by
  funext x
  simp only [copied, moved, Nat.zero_le, true_and, Nat.lt_succ_iff]

theorem copyByte_eq_copyChunk (start dest : UInt16) (i : Nat) :
    copyByte start dest i = copyChunk start dest i 1 := rfl

theorem chunkOf_le (left : Nat) : chunkOf left ≤ left := by
  rw [chunkOf]
  split <;> omega

theorem chunkOf_pos {left : Nat} (h : 0 < left) : 0 < chunkOf left := by
  rw [chunkOf, transferBlock]
  split <;> omega

/-! ## Whole copies

    A copy keeps its direction as long as what it reads next has not been stored over, or has
    been stored over with the same byte. -/

section Runs

variable {start dest : UInt16} {m : Memory} {length : Nat}

/-- Going down, each source byte is as it was when it is read. -/
def ReadsDown (start dest : UInt16) (m : Memory) (length : Nat) : Prop :=
  ∀ lo k, k < lo → lo ≤ length →
    copied start dest m lo length (start + UInt16.ofNat k) = m (start + UInt16.ofNat k)

/-- Going up. -/
def ReadsUp (start dest : UInt16) (m : Memory) (length : Nat) : Prop :=
  ∀ hi k, hi ≤ k → k < length →
    copied start dest m 0 hi (start + UInt16.ofNat k) = m (start + UInt16.ofNat k)

theorem chunksDown_copied (hlen : length ≤ 65536) (hread : ReadsDown start dest m length) :
    ∀ {fuel remaining : Nat}, remaining ≤ fuel → remaining ≤ length →
      chunksDown start dest fuel remaining (copied start dest m remaining length) =
        copied start dest m 0 length := by
  intro fuel
  induction fuel with
  | zero =>
      intro remaining hfuel _
      obtain rfl : remaining = 0 := by omega
      rfl
  | succ fuel ih =>
      intro remaining hfuel hrem
      rw [chunksDown]
      by_cases hz : remaining = 0
      · rw [if_pos hz, hz]
      · have hle := chunkOf_le remaining
        have hpos := chunkOf_pos (Nat.pos_of_ne_zero hz)
        have hsplit : remaining - chunkOf remaining + chunkOf remaining = remaining :=
          Nat.sub_add_cancel hle
        have hstep : copyChunk start dest (remaining - chunkOf remaining) (chunkOf remaining)
            (copied start dest m (remaining - chunkOf remaining + chunkOf remaining) length) =
            copied start dest m (remaining - chunkOf remaining) length := by
          refine copyChunk_copied_below start dest m (by omega) (by omega) ?_
          intro k _ hk
          rw [hsplit] at hk ⊢
          exact hread remaining k hk hrem
        rw [hsplit] at hstep
        rw [if_neg hz]
        dsimp only
        rw [hstep]
        exact ih (by omega) (by omega)

theorem chunksUp_copied (hlen : length ≤ 65536) (hread : ReadsUp start dest m length) :
    ∀ {fuel done : Nat}, length ≤ done + fuel → done ≤ length →
      chunksUp start dest length fuel done (copied start dest m 0 done) =
        copied start dest m 0 length := by
  intro fuel
  induction fuel with
  | zero =>
      intro done hfuel hdone
      obtain rfl : done = length := by omega
      rfl
  | succ fuel ih =>
      intro done hfuel hdone
      rw [chunksUp]
      by_cases hlt : done < length
      · have hle := chunkOf_le (length - done)
        have hpos := chunkOf_pos (show 0 < length - done by omega)
        rw [if_pos hlt]
        dsimp only
        rw [copyChunk_copied_above start dest m (by omega)
          (fun k hk _ => hread done k hk (by omega))]
        exact ih (by omega) (by omega)
      · obtain rfl : done = length := by omega
        rw [if_neg hlt]

theorem bytesDown_copied (hlen : length ≤ 65536) (hread : ReadsDown start dest m length) :
    ∀ {left : Nat}, left ≤ length →
      bytesDown start dest left (copied start dest m left length) =
        copied start dest m 0 length := by
  intro left
  induction left with
  | zero =>
      intro _
      rfl
  | succ left ih =>
      intro hleft
      rw [bytesDown, copyByte_eq_copyChunk, copyChunk_copied_below start dest m (by omega) hleft
        (fun k _ hk => hread (left + 1) k hk hleft)]
      exact ih (by omega)

theorem bytesUp_copied (hlen : length ≤ 65536) (hread : ReadsUp start dest m length) :
    ∀ {left index : Nat}, index + left = length →
      bytesUp start dest left index (copied start dest m 0 index) =
        copied start dest m 0 length := by
  intro left
  induction left with
  | zero =>
      intro index hindex
      obtain rfl : index = length := hindex
      rfl
  | succ left ih =>
      intro index hindex
      rw [bytesUp, copyByte_eq_copyChunk, copyChunk_copied_above start dest m (by omega)
        (fun k hk _ => hread index k hk (by omega))]
      exact ih (by omega)

/-! ## When a direction is right -/

/-- Going up is right when the destination does not begin behind the begin of the range. -/
theorem readsUp (hlen : length ≤ 65536)
    (hfar : below start dest = 0 ∨ length + below start dest ≤ 65536) :
    ReadsUp start dest m length := by
  intro hi k hk hlt
  apply copied_source
  intro _ hin
  have hb : below start dest < 65536 := UInt16.toNat_lt _
  omega

/-- Going down is right when the bytes that come around are the same ones. -/
theorem readsDown (hlen : length ≤ 65536)
    (hsame : ∀ k, k + below start dest < length →
      m (start + UInt16.ofNat k) = m (start + UInt16.ofNat (k + below start dest))) :
    ReadsDown start dest m length := by
  intro lo k hk hlo
  apply copied_source
  intro hge hlt
  have hb : below start dest < 65536 := UInt16.toNat_lt _
  have hmod : (below start dest + k) % 65536 = below start dest + k := by omega
  rw [hmod] at hlt
  rw [hsame k (by omega)]
  congr 2
  apply UInt16.toNat_inj.1
  rw [toNat_add_ofNat_sub, hmod, UInt16.toNat_ofNat']
  omega

/-! ## When going down is wrong -/

/-- Going down, what is above is not touched any more. -/
theorem bytesDown_above (k : Nat) (hk : k < 65536) :
    ∀ {left : Nat} (m : Memory), left ≤ k →
      bytesDown start dest left m (dest + UInt16.ofNat k) = m (dest + UInt16.ofNat k) := by
  intro left
  induction left with
  | zero =>
      intro m _
      rfl
  | succ left ih =>
      intro m hleft
      rw [bytesDown, ih _ (by omega), copyByte_eq_copyChunk,
        copyChunk_apply start dest (by omega), toNat_dest_add_ofNat_sub dest hk,
        if_neg (by omega)]

/-- Every byte has its turn. -/
theorem bytesDown_turn {k : Nat} :
    ∀ {left : Nat} (m : Memory), k ≤ left →
      ∃ m', bytesDown start dest left m = bytesDown start dest k m' := by
  intro left
  induction left with
  | zero =>
      intro m hk
      exact ⟨m, by rw [Nat.le_zero.1 hk]⟩
  | succ left ih =>
      intro m hk
      by_cases heq : k = left + 1
      · exact ⟨m, by rw [heq]⟩
      · exact ih (copyByte start dest left m) (by omega)

theorem dest_add_below (start dest : UInt16) (k : Nat) :
    dest + UInt16.ofNat (k + below start dest) = start + UInt16.ofNat k := by
  rw [UInt16.ofNat_add, below, UInt16.ofNat_toNat]
  grind

/-- Going down, two destination bytes end up the same when one of them is the source of the
    other. -/
theorem bytesDown_repeats (hlen : length ≤ 65536) (hpos : 0 < below start dest) {k : Nat}
    (hk : k + below start dest < length) (m : Memory) :
    bytesDown start dest length m (dest + UInt16.ofNat k) =
      bytesDown start dest length m (dest + UInt16.ofNat (k + below start dest)) := by
  obtain ⟨m', hm⟩ : ∃ m', bytesDown start dest length m = bytesDown start dest (k + 1) m' :=
    bytesDown_turn m (by omega)
  have hstore : copyByte start dest k m' (dest + UInt16.ofNat k) = m' (start + UInt16.ofNat k) :=
    if_pos rfl
  rw [hm, bytesDown_above (k + below start dest) (by omega) m' (by omega), bytesDown,
    bytesDown_above k (by omega) _ (Nat.le_refl k), hstore, dest_add_below]

end Runs

/-! ## The command -/

/-- The destination begins inside the range, behind its begin. -/
abbrev Inside (start «end» dest : UInt16) : Prop := start < dest ∧ dest ≤ «end»

/-- The bytes at the end of the range that land on its begin are the same as there. -/
def SameAround (start «end» dest : UInt16) (m : Memory) : Prop :=
  ∀ k, k + below start dest < («end» - start).toNat + 1 →
    m (start + UInt16.ofNat k) = m (start + UInt16.ofNat (k + below start dest))

theorem length_le (start «end» : UInt16) : («end» - start).toNat + 1 ≤ 65536 :=
  («end» - start).toNat_lt

theorem below_outside {start «end» dest : UInt16} (h : start ≤ «end»)
    (hout : ¬ Inside start «end» dest) :
    below start dest = 0 ∨ («end» - start).toNat + 1 + below start dest ≤ 65536 := by
  rw [Inside, UInt16.lt_iff_toNat_lt, UInt16.le_iff_toNat_le] at hout
  rw [UInt16.le_iff_toNat_le] at h
  have hs := start.toNat_lt
  have he := «end».toNat_lt
  have hd := dest.toNat_lt
  rw [below, UInt16.toNat_sub, UInt16.toNat_sub]
  omega

theorem below_pos {start «end» dest : UInt16} (h : Inside start «end» dest) :
    0 < below start dest := by
  have hlt := h.1
  rw [UInt16.lt_iff_toNat_lt] at hlt
  have hs := start.toNat_lt
  have hd := dest.toNat_lt
  rw [below, UInt16.toNat_sub]
  omega

/-- Outside the range, and at its begin, the copy goes up and is right. -/
theorem transfer_outside {start «end» dest : UInt16} (h : start ≤ «end»)
    (hout : ¬ Inside start «end» dest) (buffer : Bool) (m : Memory) :
    monitorTransferMemory buffer start «end» dest m = moved start «end» dest m := by
  have hread : ReadsUp start dest m ((«end» - start).toNat + 1) := 
    readsUp (length_le start «end») (below_outside h hout)
  have hlen := length_le start «end»
  rw [← copied_all]
  cases buffer with
  | true =>
      have hrun := chunksUp_copied hlen hread (Nat.le_add_left _ _) (Nat.zero_le _)
      rw [copied_empty] at hrun
      rw [monitorTransferMemory, if_pos rfl, if_neg hout]
      exact hrun
  | false =>
      have hrun := bytesUp_copied hlen hread (Nat.zero_add _)
      rw [copied_empty] at hrun
      rw [monitorTransferMemory, if_neg Bool.false_ne_true, if_neg hout]
      exact hrun

/-- Inside it goes down, which is right when nothing else comes around. -/
theorem transfer_inside {start «end» dest : UInt16} (hin : Inside start «end» dest)
    {m : Memory} (hsame : SameAround start «end» dest m) (buffer : Bool) :
    monitorTransferMemory buffer start «end» dest m = moved start «end» dest m := by
  have hlen := length_le start «end»
  have hread : ReadsDown start dest m ((«end» - start).toNat + 1) := readsDown hlen hsame
  rw [← copied_all]
  cases buffer with
  | true =>
      have hrun := chunksDown_copied hlen hread (Nat.le_refl _) (Nat.le_refl _)
      rw [copied_empty] at hrun
      rw [monitorTransferMemory, if_pos rfl, if_pos hin]
      exact hrun
  | false =>
      have hrun := bytesDown_copied hlen hread (Nat.le_refl _)
      rw [copied_empty] at hrun
      rw [monitorTransferMemory, if_neg Bool.false_ne_true, if_pos hin]
      exact hrun

theorem moved_dest (start «end» dest : UInt16) (m : Memory) {k : Nat}
    (hk : k < («end» - start).toNat + 1) :
    moved start «end» dest m (dest + UInt16.ofNat k) = m (start + UInt16.ofNat k) := by
  have hlen := length_le start «end»
  have hsub : dest + UInt16.ofNat k - dest = UInt16.ofNat k := by grind
  rw [moved, toNat_dest_add_ofNat_sub dest (by omega), if_pos (by omega), hsub]

/-- The copy without a buffer is wrong when something else comes around. -/
theorem sameAround_of_moved {start «end» dest : UInt16} (hin : Inside start «end» dest)
    {m : Memory}
    (h : monitorTransferMemory false start «end» dest m = moved start «end» dest m) :
    SameAround start «end» dest m := by
  intro k hk
  rw [monitorTransferMemory, if_neg Bool.false_ne_true, if_pos hin] at h
  have hrep := bytesDown_repeats (length_le start «end») (below_pos hin) hk m
  rw [h, moved_dest start «end» dest m (by omega), moved_dest start «end» dest m hk] at hrep
  exact hrep

/-- **What a transfer leaves.**  The range is at its destination and nothing else has changed,
    with the buffer and without it, if and only if the destination begins outside the range or
    the bytes that come around to its begin are the ones that are there. -/
theorem transfer_moved_iff (start «end» dest : UInt16) (m : Memory) (h : start ≤ «end») :
    (∀ buffer, monitorTransferMemory buffer start «end» dest m = moved start «end» dest m) ↔
      (start < dest → dest ≤ «end» → SameAround start «end» dest m) := by
  constructor
  · intro hmoved hlt hle
    exact sameAround_of_moved ⟨hlt, hle⟩ (hmoved false)
  · intro hsame buffer
    by_cases hin : Inside start «end» dest
    · exact transfer_inside hin (hsame hin.1 hin.2) buffer
    · exact transfer_outside h hin buffer m

/-- Four bytes to the third of them. -/
theorem transfer_moved_four :
    (0x1000 : UInt16) ≤ 0x1003 ∧
      ∀ buffer, monitorTransferMemory buffer 0x1000 0x1003 0x1002 (fun x => x.toUInt8) =
        moved 0x1000 0x1003 0x1002 (fun x => x.toUInt8) :=
  ⟨by decide, (transfer_moved_iff 0x1000 0x1003 0x1002 _ (by decide)).2
    (fun _ _ k hk => absurd hk (Nat.not_lt_of_le
      (Nat.le_trans (show (0x1003 - 0x1000 : UInt16).toNat + 1 ≤ below 0x1000 0x1002 by decide)
        (Nat.le_add_left _ k))))⟩

/-- The whole memory, moved up by one: the byte at the end goes to the begin first, and from
    there to the next place. -/
theorem transfer_not_moved :
    ¬ ∀ (start «end» dest : UInt16) (m : Memory), start ≤ «end» → ∀ buffer,
      monitorTransferMemory buffer start «end» dest m = moved start «end» dest m := by
  intro hall
  have hmoved := hall 0 0xFFFF 1 (fun x => if x = 0 then 1 else 0) (by decide) false
  have hsame := sameAround_of_moved ⟨by decide, by decide⟩ hmoved 0 (by decide)
  exact absurd hsame (by decide)

end MonitorTransfer
