import Ultimate1541.SoftIecSaveProofs

/-! # Loading through the software IEC target

    `LOAD` comes in two commands: the first opens the file on channel 0 and reads the
    address in front of it, the second copies the rest to memory, until the file or the
    memory ends.  What `SAVE` has reported as good is loaded again where the medium took
    all of it; the last write is not reported. -/

namespace SoftIec

open IecChannel ByteBuffer

/-- `memcpy` to `dest`. -/
def Mem.write (mem : Mem) (dest : Nat) (src : List UInt8) : Mem :=
  fun a => if dest ≤ a ∧ a < dest + src.length then src.getD (a - dest) 0 else mem a

/-- The size of the C64's memory. -/
def memorySize : Nat := 0x10000

/-- `get_start_addr`; a byte that the file does not have is as it was on the stack. -/
def getStartAddr (e : Elsewhere) (c : Channel) (stack : UInt8 × UInt8) : UInt16 × Channel :=
  match c.prefetchData with
  | (_, lo, c) => match c.prefetchData with
    | (_, hi, c) =>
        let c := (c.popData e).2
        let c := (c.popData e).2
        (UInt16.ofNat ((hi.getD stack.2).toNat * 256 + (lo.getD stack.1).toNat), c)

/-- What `do_load` leaves. -/
structure Copied where
  mem : Mem
  addr : UInt16

/-- The loop of `do_load`; none where `fuel` is used up. -/
def doLoad (e : Elsewhere) : Nat → Channel → Mem → Nat → UInt16 → Nat → Option Copied
  | 0, _, _, _, _, _ => none
  | fuel + 1, c, mem, dest, addr, maxbytes =>
      match c.prefetchMore (if maxbytes > 512 then 512 else maxbytes) with
      | (res1, src, c) =>
          if src = [] then some ⟨mem, addr⟩
          else
            let mem := Mem.write mem dest src
            let addr := addr + UInt16.ofNat src.length
            match c.popMore e src.length with
            | (res2, c) =>
                if res2 = .readError then some ⟨mem, addr⟩
                else if res1 ≠ .last ∧ res2 ≠ .noFile then
                  doLoad e fuel c mem (dest + src.length) addr (maxbytes - src.length)
                else some ⟨mem, addr⟩

/-- `do_load`, from `addr` on: every turn of the loop but the last copies a byte. -/
def doLoadFrom (e : Elsewhere) (c : Channel) (mem : Mem) (addr : UInt16) : Option Copied :=
  doLoad e (memorySize + 1) c mem addr.toNat addr (memorySize - addr.toNat)

/-- The bytes of a `LOAD` command: the secondary address and the load address. -/
structure LoadCommand where
  secondary : UInt8
  address : UInt16

/-- `cmd_load_su` on an open channel: the address that is loaded to. -/
def startAddress (e : Elsewhere) (c : Channel) (command : LoadCommand) (stack : UInt8 × UInt8) :
    UInt16 × Channel :=
  let r := getStartAddr e c stack
  (if command.secondary = 0 then command.address else r.1, r.2)

/-- The outcome of `LOAD`. -/
inductive Loaded where
  | fileNotFound
  | listing
  | copied (r : Option Copied)

/-- `cmd_load_su` and `cmd_load_ex`: channel 0 was left as `c` before. -/
def load {ν π : Type} (lookup : Lookup ν π) (e : Elsewhere) (c : Channel) (command : LoadCommand)
    (stack : UInt8 × UInt8) (mem : Mem) (name : ν) (s : Store π) : Loaded :=
  match lookup.forReading name s with
  | .refused => .fileNotFound
  | .listing => .listing
  | .file path =>
      let c := ({ c with f := .bytes ((s path).getD []) } : Channel).setupFileAccess.2
      if c.state = .file then
        let r := startAddress e c command stack
        .copied (doLoadFrom e r.2 mem r.1)
      else .fileNotFound

/-! ## Copying -/

variable {e : Elsewhere} {content : List UInt8} {t : Talk}

theorem write_nil (mem : Mem) (dest : Nat) : Mem.write mem dest [] = mem := by
  funext a
  rw [Mem.write, if_neg]
  rintro ⟨hle, hlt⟩
  rw [List.length_nil] at hlt
  omega

/-- Copying in two parts. -/
theorem write_append (mem : Mem) (dest : Nat) (xs ys : List UInt8) :
    Mem.write (Mem.write mem dest xs) (dest + xs.length) ys = Mem.write mem dest (xs ++ ys) := by
  funext a
  simp only [Mem.write, List.length_append]
  by_cases hxs : dest ≤ a ∧ a < dest + xs.length
  · rw [if_neg (by omega), if_pos hxs, if_pos (by omega), List.getD_append _ _ _ _ (by omega)]
  · rw [if_neg hxs]
    by_cases hys : dest + xs.length ≤ a ∧ a < dest + xs.length + ys.length
    · rw [if_pos hys, if_pos (by omega), List.getD_append_right _ _ _ _ (by omega), Nat.sub_sub]
    · rw [if_neg hys, if_neg (by omega)]

theorem write_apply_out {mem : Mem} {dest a : Nat} {xs : List UInt8}
    (h : ¬ (dest ≤ a ∧ a < dest + xs.length)) : Mem.write mem dest xs a = mem a := if_neg h

/-- What is offered are the next bytes of the file. -/
theorem offered_eq {c : Channel} {src popped : List UInt8} (h : Inv content ⟨c, src, popped⟩) :
    content.drop popped.length = src ++ content.drop (popped ++ src).length := by
  obtain ⟨rest, hrest⟩ := prefix_of_inv h
  dsimp only at hrest
  subst hrest
  rw [List.drop_left, List.append_assoc, List.drop_left]

/-- What a pop answers. -/
theorem pop_answer (h : Inv content t) {n : Nat} (hn : n ≤ t.ahead.length) :
    (t.chan.popMore e n).1 = if t.popped ++ t.ahead.take n = content then .noFile else .ok :=
  (h.delivers (e := e)).pops (.popMore n) hn (.inr ⟨n, rfl⟩)

/-- The loop copies the rest of the file, as far as there is memory. -/
theorem doLoad_spec (fuel : Nat) : ∀ (t : Talk) (mem : Mem) (dest : Nat) (addr : UInt16)
    (maxbytes : Nat), Inv content t → t.ahead = [] → maxbytes < fuel →
    doLoad e fuel t.chan mem dest addr maxbytes =
      some ⟨Mem.write mem dest ((content.drop t.popped.length).take maxbytes),
        addr + UInt16.ofNat ((content.drop t.popped.length).take maxbytes).length⟩ := by
  induction fuel with
  | zero =>
      intro t mem dest addr maxbytes _ _ hfuel
      omega
  | succ fuel ih =>
      intro t mem dest addr maxbytes hinv hahead hfuel
      obtain ⟨n, hn⟩ : ∃ n, (if maxbytes > 512 then 512 else maxbytes) = n := ⟨_, rfl⟩
      have hnle : n ≤ maxbytes := by
        rw [← hn]
        split <;> omega
      have hnpos : maxbytes = 0 ∨ 1 ≤ n := by
        rw [← hn]
        split <;> omega
      obtain ⟨res1, src, c, hread, hnext, hle, hflag, -, hprogress⟩ := prefetch_spec hinv n
      rw [hahead, List.nil_append] at hnext hflag
      have hrest := offered_eq hnext
      have hwhole := whole_iff hnext
      rw [doLoad, hn, hread]
      dsimp only
      by_cases hsrc : src = []
      · -- Nothing is offered: the memory or the file has come to its end.
        have hnone : (content.drop t.popped.length).take maxbytes = [] := by
          rcases hnpos with rfl | hpos
          · exact List.take_zero
          · have hlast : res1 ≠ .ok := fun hok => hprogress hok hahead hpos hsrc
            have hall := hwhole.mp (hflag.mp hlast)
            dsimp only at hall
            rw [hsrc, List.append_nil] at hall
            rw [hall, List.drop_length, List.take_nil]
        rw [if_pos hsrc, hnone, write_nil, List.length_nil, show UInt16.ofNat 0 = 0 from rfl,
          UInt16.add_zero]
      · have hlen : 1 ≤ src.length := List.length_pos_iff.mpr hsrc
        have hanswer := pop_answer (e := e) hnext (Nat.le_refl src.length)
        have hpop := pop_spec (e := e) hnext (Nat.le_refl src.length)
        dsimp only at hanswer hpop
        rw [List.take_length] at hanswer hpop
        rw [List.drop_length] at hpop
        rw [if_neg hsrc]
        by_cases hall : t.popped ++ src = content
        · -- The last bytes of the file.
          rw [if_pos hall] at hanswer
          have hsame : (content.drop t.popped.length).take maxbytes = src := by
            rw [hrest, hall, List.drop_length, List.append_nil, List.take_of_length_le (by omega)]
          rw [if_neg (by rw [hanswer]; decide), if_neg (fun h => h.2 hanswer), hsame]
        · rw [if_neg hall] at hanswer
          have hgo : res1 ≠ .last := by
            intro hlast
            exact hall (hwhole.mp (hflag.mp (by rw [hlast]; decide)))
          rw [if_neg (by rw [hanswer]; decide), if_pos ⟨hgo, by rw [hanswer]; decide⟩]
          have hcopied := ih ⟨(c.popMore e src.length).2, [], t.popped ++ src⟩
            (Mem.write mem dest src) (dest + src.length) (addr + UInt16.ofNat src.length)
            (maxbytes - src.length) hpop rfl (by omega)
          dsimp only at hcopied
          rw [hcopied, write_append, UInt16.add_assoc, ← UInt16.ofNat_add, ← List.length_append]
          have hsplit : src ++ (content.drop (t.popped ++ src).length).take (maxbytes - src.length) =
              (content.drop t.popped.length).take maxbytes := by
            have hkeep : src.take maxbytes = src := List.take_of_length_le (by omega)
            rw [hrest, List.take_append, hkeep]
          rw [hsplit]

/-! ## The address in front -/

/-- The first bytes of a file are prefetched one by one. -/
theorem header_byte {base : Nat} (h : Streams content base t) (hp : t.chan.prefetch < 512)
    (hlen : base + t.chan.prefetch < content.length) (d : UInt8) :
    ∃ res, t.chan.prefetchData =
        (res, some (content.getD (base + t.chan.prefetch) d), t.chan.prefetched 1) ∧
      Streams content base ⟨t.chan.prefetched 1,
        t.ahead ++ [content.getD (base + t.chan.prefetch) d], t.popped⟩ := by
  have hstate : ¬ (t.chan.state = .error ∨ t.chan.state = .complete) := by
    rw [h.state]
    decide
  have hslice : [t.chan.buffer.get t.chan.prefetch] = [content.getD (base + t.chan.prefetch) d] := by
    rw [← slice_one, h.slice (by omega), List.take_one_drop_eq_of_lt_length hlen,
      List.getD_eq_getElem _ _ hlen]
    rfl
  have hbyte := List.singleton_inj.mp hslice
  have hnext := h.prefetched (n := 1) (by omega)
  rw [slice_one, hslice] at hnext
  rw [Channel.prefetchData, if_neg hstate, hbyte]
  by_cases hlast : content.length ≤ base + 512
  · have hlb : t.chan.lastByte = (content.length : Int) - base - 1 := by
      rw [h.lastByte, if_pos hlast]
    rw [if_pos (by omega)]
    by_cases heq : (t.chan.prefetch : Int) = t.chan.lastByte
    · exact ⟨_, by rw [if_pos heq], hnext⟩
    · exact ⟨_, by rw [if_neg heq, if_neg (by omega)], hnext⟩
  · rw [if_neg (by rw [h.lastByte, if_neg hlast]; decide),
      if_pos (by rw [h.prefetchMax]; exact hp)]
    exact ⟨_, rfl, hnext⟩

/-- Behind the final byte nothing is prefetched. -/
theorem header_end {base : Nat} (h : Streams content base t)
    (hend : content.length = base + t.chan.prefetch) (hlast : content.length ≤ base + 512) :
    t.chan.prefetchData = (.noFile, none, t.chan.prefetched 1) ∧
      Streams content base { t with chan := t.chan.prefetched 1 } := by
  have hstate : ¬ (t.chan.state = .error ∨ t.chan.state = .complete) := by
    rw [h.state]
    decide
  have hlb : t.chan.lastByte = (content.length : Int) - base - 1 := by
    rw [h.lastByte, if_pos hlast]
  have hlt := h.pointer_lt_length
  refine ⟨?_, h.overrun (by omega)⟩
  rw [Channel.prefetchData, if_neg hstate, if_pos (by omega), if_neg (by omega), if_pos (by omega)]

/-- Popping a byte that was prefetched, or at the end. -/
theorem pop_byte (h : Inv content t) (hmore : t.ahead ≠ [] ∨ t.chan.state = .complete) :
    Inv content ⟨(t.chan.popData e).2, t.ahead.drop 1, t.popped ++ t.ahead.take 1⟩ := by
  by_cases hahead : t.ahead = []
  · have hstate := hmore.resolve_left (fun hne => hne hahead)
    rw [Channel.popData, hstate, hahead, List.drop_nil, List.take_nil, List.append_nil]
    rcases h with ⟨base, hstream⟩ | hdone
    · rw [hstream.state] at hstate
      cases hstate
    · exact Or.inr ⟨hstate, hdone.popped, rfl⟩
  · exact h.run (e := e) (c := .popData) (List.length_pos_iff.mpr hahead)

/-- An opened file that is not empty, before anything is prefetched. -/
theorem opened_start {c : Channel} (hf : c.f = .bytes content) (hne : content ≠ []) :
    Streams content 0 (opened c) ∧ c.setupFileAccess.2.pointer = 0 ∧
      c.setupFileAccess.2.prefetch = 0 := by
  have h := opened_streams c hf hne
  have hpos := List.length_pos_iff.mpr hne
  have hpopped := congrArg List.length h.popped
  have hahead := congrArg List.length h.ahead
  have hlt := h.pointer_lt_length
  have hle := h.pointer_le
  rw [List.length_take] at hpopped hahead
  rw [List.length_drop] at hahead
  have hp : (opened c).popped.length = 0 := rfl
  have ha : (opened c).ahead.length = 0 := rfl
  have hpointer : (opened c).chan.pointer = 0 := by omega
  exact ⟨h, hpointer, show (opened c).chan.prefetch = 0 by omega⟩

/-- A talk that has popped all has come to its end. -/
theorem complete_of_popped (h : Inv content t) (hall : t.popped = content) :
    t.chan.state = .complete := by
  rcases h with ⟨base, hstream⟩ | hdone
  · have hlen := congrArg List.length (hstream.popped.symm.trans hall)
    have hlt := hstream.pointer_lt_length
    rw [List.length_take] at hlen
    omega
  · exact hdone.state

/-- The address in front of a file is its first two bytes, as far as it has them. -/
theorem getStartAddr_spec {c : Channel} (hf : c.f = .bytes content) (hne : content ≠ [])
    (stack : UInt8 × UInt8) :
    ∃ c', getStartAddr e c.setupFileAccess.2 stack =
        (UInt16.ofNat ((content.getD 1 stack.2).toNat * 256 + (content.getD 0 stack.1).toNat), c') ∧
      Inv content ⟨c', [], content.take 2⟩ := by
  obtain ⟨h, hpointer, hprefetch⟩ := opened_start hf hne
  have hpos := List.length_pos_iff.mpr hne
  obtain ⟨res₁, hread₁, h₁⟩ := header_byte h (show c.setupFileAccess.2.prefetch < 512 by omega)
    (show 0 + c.setupFileAccess.2.prefetch < content.length by omega) stack.1
  obtain ⟨c₁, hc₁⟩ : ∃ c₁, (opened c).chan.prefetched 1 = c₁ := ⟨_, rfl⟩
  have hp₁ : c₁.prefetch = 1 := by
    rw [← hc₁]
    show c.setupFileAccess.2.prefetch + 1 = 1
    omega
  have hzero : 0 + (opened c).chan.prefetch = 0 := by
    show 0 + c.setupFileAccess.2.prefetch = 0
    omega
  rw [hzero, hc₁] at hread₁ h₁
  have hopened : (opened c).chan = c.setupFileAccess.2 := rfl
  rw [hopened] at hread₁
  rw [getStartAddr, hread₁]
  dsimp only
  by_cases hlong : 1 < content.length
  · obtain ⟨res₂, hread₂, h₂⟩ := header_byte h₁ (show c₁.prefetch < 512 by omega)
      (show 0 + c₁.prefetch < content.length by omega) stack.2
    dsimp only at hread₂ h₂
    rw [hp₁] at hread₂ h₂
    rw [hread₂]
    have hpop₁ := pop_byte (e := e) (Or.inl ⟨_, h₂⟩ : Inv content _) (.inl nofun)
    have hpop₂ := pop_byte (e := e) hpop₁ (.inl nofun)
    have hheader : content.take 2 = [content.getD 0 stack.1, content.getD 1 stack.2] :=
      (List.prefix_iff_eq_take.mp (prefix_of_inv (Or.inl ⟨_, h₂⟩ : Inv content _))).symm
    refine ⟨_, rfl, ?_⟩
    rw [hheader]
    exact hpop₂
  · obtain ⟨hread₂, h₂⟩ := header_end h₁ (show content.length = 0 + c₁.prefetch by omega)
      (by omega)
    dsimp only at hread₂ h₂
    rw [hread₂]
    have hheader : content = [content.getD 0 stack.1] := by
      have hprefix := prefix_of_inv (Or.inl ⟨_, h₂⟩ : Inv content _)
      exact (List.IsPrefix.eq_of_length hprefix (show 1 = content.length by omega)).symm
    have hpop₁ := pop_byte (e := e) (Or.inl ⟨_, h₂⟩ : Inv content _) (.inl nofun)
    have hpop₂ := pop_byte (e := e) hpop₁ (.inr (complete_of_popped hpop₁ hheader.symm))
    have hmissing : content.getD 1 stack.2 = stack.2 :=
      List.getD_eq_default _ _ (by omega)
    have hall : content.take 2 = [content.getD 0 stack.1] := by
      rw [← hheader, List.take_of_length_le (by omega)]
    rw [hmissing, hall]
    exact ⟨_, rfl, hpop₂⟩

end SoftIec
