import Mathlib

/-! # Lists of blocks

    A list that is a sequence of blocks, all of one length: where a block starts, what is
    read and what is changed there, and how it grows. -/

namespace BlockList

variable {α : Type} {n k : Nat} {bs : List (List α)} {b : List α}

/-- All blocks have one length. -/
def Even (n : Nat) (bs : List (List α)) : Prop := ∀ b ∈ bs, b.length = n

theorem Even.tail (h : Even n (b :: bs)) : Even n bs := fun c hc => h c (List.mem_cons_of_mem _ hc)

theorem length_flatten (h : Even n bs) : bs.flatten.length = bs.length * n := by
  induction bs with
  | nil => rw [List.flatten_nil, List.length_nil, List.length_nil, Nat.zero_mul]
  | cons b bs ih =>
      rw [List.flatten_cons, List.length_append, ih h.tail, h b (List.mem_cons_self ..),
        List.length_cons, Nat.succ_mul, Nat.add_comm]

/-- The `k`-th block and what follows start after `k` blocks. -/
theorem drop_flatten (h : Even n bs) (k : Nat) : bs.flatten.drop (k * n) = (bs.drop k).flatten := by
  induction k generalizing bs with
  | zero => rw [Nat.zero_mul, List.drop_zero, List.drop_zero]
  | succ k ih =>
      cases bs with
      | nil => rw [List.flatten_nil, List.drop_nil, List.drop_nil, List.flatten_nil]
      | cons b bs =>
          have hb : b.length = n := h b (List.mem_cons_self ..)
          rw [List.flatten_cons, Nat.succ_mul, Nat.add_comm, ← List.drop_drop, ← hb,
            List.drop_left, hb, ih h.tail, List.drop_succ_cons]

theorem take_flatten (h : Even n bs) (k : Nat) : bs.flatten.take (k * n) = (bs.take k).flatten := by
  induction k generalizing bs with
  | zero => rw [Nat.zero_mul, List.take_zero, List.take_zero, List.flatten_nil]
  | succ k ih =>
      cases bs with
      | nil => rw [List.flatten_nil, List.take_nil, List.take_nil, List.flatten_nil]
      | cons b bs =>
          have hb : b.length = n := h b (List.mem_cons_self ..)
          rw [List.flatten_cons, Nat.succ_mul, Nat.add_comm, List.take_add, ← hb, List.take_left,
            List.drop_left, hb, ih h.tail, List.take_succ_cons, List.flatten_cons]

/-- A block is read where it starts. -/
theorem read_block (h : Even n bs) (hb : bs[k]? = some b) :
    (bs.flatten.drop (k * n)).take n = b := by
  have hk : k < bs.length := (List.getElem?_eq_some_iff.mp hb).1
  have hget : bs[k] = b := (List.getElem?_eq_some_iff.mp hb).2
  have hlen : b.length = n := h b (List.mem_of_getElem? hb)
  rw [drop_flatten h, List.drop_eq_getElem_cons hk, List.flatten_cons, hget, ← hlen, List.take_left]

/-- A block is written where it starts. -/
theorem write_block (h : Even n bs) (hk : k < bs.length) (b : List α) :
    bs.flatten.take (k * n) ++ b ++ bs.flatten.drop (k * n + n) = (bs.set k b).flatten := by
  have hnext : k * n + n = (k + 1) * n := (Nat.succ_mul k n).symm
  rw [hnext, take_flatten h, drop_flatten h, List.set_eq_take_append_cons_drop, if_pos hk,
    List.flatten_append, List.flatten_cons, List.append_assoc]

theorem Even.set (h : Even n bs) (hb : b.length = n) (k : Nat) : Even n (bs.set k b) := by
  intro c hc
  rcases List.mem_or_eq_of_mem_set hc with hc | rfl
  · exact h c hc
  · exact hb

theorem Even.append {cs : List (List α)} (h : Even n bs) (h' : Even n cs) : Even n (bs ++ cs) := by
  intro c hc
  rcases List.mem_append.mp hc with hc | hc
  · exact h c hc
  · exact h' c hc

theorem even_replicate (hb : b.length = n) (m : Nat) : Even n (List.replicate m b) := by
  intro c hc
  rw [List.eq_of_mem_replicate hc]
  exact hb

end BlockList
