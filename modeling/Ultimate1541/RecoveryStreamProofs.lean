import Mathlib

/-! # Files that are streamed, and the bitstream

    `stream_file` of `recovery.c` reads a file from a server in pieces, hands each of them
    to a sink, and says in the end whether it was the file of the manifest: as many bytes,
    with that hash.  `load_bitstream` shifts the pieces into the FPGA as they come, but for
    the last ones, which are held back until the file is known to be right.

    What a run meets is given from outside: what each read gives, and whether the load has
    been cancelled at each look at the flag.  So is the hash function. -/

namespace Recovery

/-- What `esp_http_client_read` gives: an error, or some bytes; none are the end. -/
inductive Read
  | failed
  | bytes (data : List UInt8)
  deriving DecidableEq

/-- What a run meets: the file is there or not, what the `i`-th read gives, whether the
    load has been cancelled before it, and whether it has been in the end. -/
structure Run where
  opened : Bool
  read : Nat → Read
  cancelled : Nat → Bool
  cancelledAfter : Bool

/-- `recovery_file_t`. -/
structure File where
  size : UInt32
  sha256 : List UInt8

/-- What `n` reads have given. -/
def received (run : Run) : Nat → List UInt8
  | 0 => []
  | n + 1 => received run n ++ match run.read n with
      | .failed => []
      | .bytes data => data

/-- The variables of the loop of `stream_file`, with what has gone into the hash. -/
structure Stream (σ : Type) where
  total : Nat
  hashed : List UInt8
  ok : Bool
  sink : σ

variable {σ : Type}

/-- The loop of `stream_file` from the `i`-th read on, `n` reads at most; `none` when there
    are more. -/
def streamLoop (file : File) (sink : σ → Nat → List UInt8 → Bool × σ) (run : Run) :
    Nat → Nat → Stream σ → Option (Stream σ)
  | 0, _, _ => none
  | n + 1, i, s =>
      if s.ok = false ∨ run.cancelled i = true then some s
      else
        match run.read i with
        | .failed => some { s with ok := false }
        | .bytes [] => some s
        | .bytes (b :: bs) =>
            if file.size.toNat - s.total < (b :: bs).length then some { s with ok := false }
            else
              let r := sink s.sink s.total (b :: bs)
              streamLoop file sink run n (i + 1)
                ⟨s.total + (b :: bs).length, s.hashed ++ b :: bs, r.1, r.2⟩

/-- `stream_file`: a read gives one byte at least, and more than the file has are refused. -/
def streamFile (sha256 : List UInt8 → List UInt8) (file : File)
    (sink : σ → Nat → List UInt8 → Bool × σ) (run : Run) (s : σ) : Option (Bool × σ) :=
  if run.opened = false then some (false, s)
  else
    match streamLoop file sink run (file.size.toNat + 1) 0 ⟨0, [], true, s⟩ with
    | none => none
    | some s =>
        some (!run.cancelledAfter && s.ok && decide (s.total = file.size.toNat) &&
          decide (sha256 s.hashed = file.sha256), s.sink)

/-- The loop ends, and what every piece keeps is so in the end, for what has been read. -/
theorem streamLoop_spec (file : File) (sink : σ → Nat → List UInt8 → Bool × σ) (run : Run)
    (P : List UInt8 → σ → Prop)
    (hpiece : ∀ got s data, P got s → data ≠ [] → got.length + data.length ≤ file.size.toNat →
      P (got ++ data) (sink s got.length data).2) (n : Nat) :
    ∀ {i : Nat} {s : Stream σ}, P s.hashed s.sink → s.total = s.hashed.length →
      s.total ≤ file.size.toNat → s.hashed = received run i →
      file.size.toNat < s.total + n →
      ∃ s', streamLoop file sink run n i s = some s' ∧ P s'.hashed s'.sink ∧
        s'.total = s'.hashed.length ∧ s'.total ≤ file.size.toNat ∧
        ∃ k, s'.hashed = received run k := by
  induction n with
  | zero =>
      intro i s _ _ hle _ hfuel
      omega
  | succ n ih =>
      intro i s hP htotal hle hgot hfuel
      rw [streamLoop]
      split
      · exact ⟨s, rfl, hP, htotal, hle, i, hgot⟩
      · cases hread : run.read i with
        | failed => exact ⟨_, rfl, hP, htotal, hle, i, hgot⟩
        | bytes data =>
            cases data with
            | nil => exact ⟨s, rfl, hP, htotal, hle, i, hgot⟩
            | cons b bs =>
                dsimp only
                split
                · exact ⟨_, rfl, hP, htotal, hle, i, hgot⟩
                next hfits =>
                  have hpos : 0 < (b :: bs).length := Nat.succ_pos _
                  have hroom : s.total + (b :: bs).length ≤ file.size.toNat := by omega
                  refine ih ?_ ?_ hroom ?_ (by dsimp only; omega)
                  · rw [htotal]
                    exact hpiece _ _ _ hP (List.cons_ne_nil b bs) (htotal ▸ hroom)
                  · dsimp only
                    rw [List.length_append, htotal]
                  · dsimp only
                    rw [received, hread, hgot]

/-- A file that is accepted has been received: its size and its hash are the ones of the
    manifest. -/
theorem streamFile_spec (sha256 : List UInt8 → List UInt8) (file : File)
    (sink : σ → Nat → List UInt8 → Bool × σ) (run : Run) (P : List UInt8 → σ → Prop)
    (hpiece : ∀ got s data, P got s → data ≠ [] → got.length + data.length ≤ file.size.toNat →
      P (got ++ data) (sink s got.length data).2) {s : σ} (hP : P [] s) :
    ∃ ok s' k, streamFile sha256 file sink run s = some (ok, s') ∧ P (received run k) s' ∧
      (received run k).length ≤ file.size.toNat ∧
      (ok = true → (received run k).length = file.size.toNat ∧
        sha256 (received run k) = file.sha256) := by
  rw [streamFile]
  split
  · exact ⟨false, s, 0, rfl, hP, Nat.zero_le _, nofun⟩
  · obtain ⟨s', hloop, hP', htotal, hle, k, hgot⟩ := streamLoop_spec file sink run P hpiece
      (file.size.toNat + 1) (i := 0) (s := ⟨0, [], true, s⟩) hP rfl (Nat.zero_le _) rfl
      (by dsimp only; omega)
    rw [hloop]
    refine ⟨_, s'.sink, k, rfl, hgot ▸ hP', by rw [← hgot, ← htotal]; exact hle, fun hok => ?_⟩
    rw [Bool.and_eq_true, Bool.and_eq_true, decide_eq_true_iff, decide_eq_true_iff] at hok
    exact ⟨by rw [← hgot, ← htotal]; exact hok.1.2, by rw [← hgot]; exact hok.2⟩

/-! ## The bitstream -/

/-- What goes to the FPGA: the start of the configuration, bytes that are shifted, the
    command that starts it, and the one that clears it. -/
inductive Jtag
  | start
  | shift (data : List UInt8)
  | run
  | clear
  deriving DecidableEq

/-- The bytes that are held back (`FPGA_HOLDBACK`). -/
def holdback : Nat := 4096

/-- `fpga_tail`, where it has been written (how far from its start, and how many bytes), and
    what has gone to the FPGA. -/
structure Fpga where
  tail : List UInt8
  stores : List (Nat × Nat)
  log : List Jtag

namespace Fpga

def emit (f : Fpga) (e : Jtag) : Fpga := { f with log := f.log ++ [e] }

/-- `memcpy` to `fpga_tail`. -/
def store (f : Fpga) (pos : Nat) (data : List UInt8) : Fpga :=
  { f with
    tail := f.tail.take pos ++ data ++ f.tail.drop (pos + data.length)
    stores := f.stores ++ [(pos, data.length)] }

end Fpga

/-- `fpga_sink`, of a load that shifts the bytes before `shiftLimit`. -/
def fpgaSink (shiftLimit : Nat) (f : Fpga) (offset : Nat) (data : List UInt8) : Bool × Fpga :=
  if offset < shiftLimit then
    let now := min (shiftLimit - offset) data.length
    let f := f.emit (.shift (data.take now))
    let rest := data.drop now
    (true, if rest.length ≠ 0 then f.store (offset + now - shiftLimit) rest else f)
  else (true, if data.length ≠ 0 then f.store (offset - shiftLimit) data else f)

inductive Outcome
  | done | failBitstream | failFpgaStart | failImage | cancelled
  deriving DecidableEq

/-- `load_bitstream`, when the file has a URL or not, with what answers on the user chain. -/
def loadBitstream (sha256 : List UInt8 → List UInt8) (hasUrl : Bool) (file : File) (run : Run)
    (user : UInt32) (f : Fpga) : Option (Outcome × Fpga) :=
  if hasUrl = false then some (.failBitstream, f)
  else
    let size := file.size.toNat
    let shiftLimit := if holdback < size then size - holdback else 0
    match streamFile sha256 file (fpgaSink shiftLimit) run (f.emit .start) with
    | none => none
    | some (false, f) =>
        some (if run.cancelledAfter then .cancelled else .failBitstream, f.emit .clear)
    | some (true, f) =>
        let f := (f.emit (.shift (f.tail.take (size - shiftLimit)))).emit .run
        if user = 0 ∨ user = 0xFFFFFFFF then some (.failFpgaStart, f.emit .clear)
        else some (.done, f)

/-- What is so while the bitstream comes in: the bytes before the limit have been shifted,
    the others are held back. -/
structure Held (size : Nat) (log : List Jtag) (stores : List (Nat × Nat)) (got : List UInt8)
    (f : Fpga) : Prop where
  length_tail : f.tail.length = holdback
  shifted : ∃ early : List (List UInt8), f.log = log ++ early.map .shift ∧
    early.flatten = got.take (size - holdback)
  held : f.tail.take (got.length - (size - holdback)) = got.drop (size - holdback)
  inside : ∃ added, f.stores = stores ++ added ∧ ∀ s ∈ added, s.1 + s.2 ≤ holdback

@[simp] theorem Fpga.emit_log (f : Fpga) (e : Jtag) : (f.emit e).log = f.log ++ [e] := rfl

theorem Held.store {size : Nat} {log : List Jtag} {stores : List (Nat × Nat)} {got data : List UInt8}
    {f : Fpga} {pos : Nat} (hlen : f.tail.length = holdback)
    (hlog : ∃ early : List (List UInt8), f.log = log ++ early.map .shift ∧
      early.flatten = (got ++ data).take (size - holdback))
    (hinside : ∃ added, f.stores = stores ++ added ∧ ∀ s ∈ added, s.1 + s.2 ≤ holdback)
    {front rest : List UInt8} (hpos : front.length = pos) (hfront : f.tail.take pos = front)
    (hall : front ++ rest = (got ++ data).drop (size - holdback))
    (hroom : pos + rest.length ≤ holdback) :
    Held size log stores (got ++ data) (f.store pos rest) := by
  obtain ⟨added, hadded, hsmall⟩ := hinside
  have hcount : (got ++ data).length - (size - holdback) = pos + rest.length := by
    rw [← List.length_drop, ← hall, List.length_append, hpos]
  refine ⟨?_, hlog, ?_, added ++ [(pos, rest.length)], ?_, fun s hs => ?_⟩
  · show (f.tail.take pos ++ rest ++ f.tail.drop (pos + rest.length)).length = holdback
    rw [List.length_append, List.length_append, List.length_take, List.length_drop, hlen]
    omega
  · show (f.tail.take pos ++ rest ++ f.tail.drop (pos + rest.length)).take _ = _
    rw [hcount, hfront, ← hall, ← hpos, ← List.length_append, List.take_left]
  · show f.stores ++ [(pos, rest.length)] = stores ++ (added ++ [(pos, rest.length)])
    rw [hadded, List.append_assoc]
  · rcases List.mem_append.mp hs with hs | hs
    · exact hsmall s hs
    · rw [List.mem_singleton.mp hs]
      exact hroom

/-- A piece is shifted up to the limit, and held back from there on. -/
theorem Held.sink {size : Nat} {log : List Jtag} {stores : List (Nat × Nat)} {got data : List UInt8}
    {f : Fpga} (h : Held size log stores got f) (hne : data ≠ [])
    (hfits : got.length + data.length ≤ size) :
    Held size log stores (got ++ data) (fpgaSink (size - holdback) f got.length data).2 := by
  obtain ⟨hlen, ⟨early, hlog, hearly⟩, hheld, hinside⟩ := h
  have hsmall : size - (size - holdback) ≤ holdback := by omega
  rw [fpgaSink]
  by_cases hlt : got.length < size - holdback
  · rw [if_pos hlt]
    dsimp only
    generalize hn : min (size - holdback - got.length) data.length = now
    have hbefore : got.take (size - holdback) = got := List.take_of_length_le (Nat.le_of_lt hlt)
    have hshifted : ∃ early : List (List UInt8),
        (f.emit (.shift (data.take now))).log = log ++ early.map .shift ∧
        early.flatten = (got ++ data).take (size - holdback) := by
      refine ⟨early ++ [data.take now], ?_, ?_⟩
      · rw [Fpga.emit, hlog, List.map_append, List.append_assoc]
        rfl
      · rw [List.flatten_append, List.flatten_singleton, hearly, hbefore, List.take_append,
          List.take_of_length_le (Nat.le_of_lt hlt)]
        refine congrArg (got ++ ·) ?_
        rw [← hn, List.take_eq_take_iff]
        omega
    by_cases hrest : (data.drop now).length ≠ 0
    · -- The limit is inside the piece.
      rw [if_pos hrest]
      have hnow : now = size - holdback - got.length := by
        rw [List.length_drop] at hrest
        omega
      have hzero : got.length + now - (size - holdback) = 0 := by omega
      rw [hzero]
      have hdrop : [] ++ data.drop now = (got ++ data).drop (size - holdback) := by
        rw [List.drop_append, List.drop_of_length_le (Nat.le_of_lt hlt), hnow]
      refine @Held.store _ _ _ _ _ (f.emit (.shift (data.take now))) _ hlen hshifted hinside [] _
        rfl rfl hdrop ?_
      rw [List.length_drop]
      omega
    · rw [if_neg hrest]
      have hshort : (got ++ data).length ≤ size - holdback := by
        rw [List.length_drop] at hrest
        rw [List.length_append]
        omega
      refine ⟨hlen, hshifted, ?_, hinside⟩
      rw [Nat.sub_eq_zero_of_le hshort, List.drop_of_length_le hshort]
      rfl
  · have hge : size - holdback ≤ got.length := Nat.le_of_not_lt hlt
    have hpos : data.length ≠ 0 := fun hz => hne (List.eq_nil_of_length_eq_zero hz)
    rw [if_neg hlt, if_pos hpos]
    refine Held.store hlen ⟨early, hlog, ?_⟩ hinside List.length_drop hheld ?_ (by omega)
    · rw [hearly, List.take_append_of_le_length hge]
    · rw [List.drop_append_of_le_length hge]

/-- What may have happened when a bitstream was loaded, with what was received: no more is
    shifted before the bitstream is known to be right than the bytes that are not held back,
    in their order, and the FPGA is started only with the file of the manifest. -/
structure Loads (sha256 : List UInt8 → List UInt8) (file : File) (got : List UInt8)
    (f f' : Fpga) : Prop where
  inside : ∃ added, f'.stores = f.stores ++ added ∧ ∀ s ∈ added, s.1 + s.2 ≤ holdback
  log : ∃ early : List (List UInt8), early.flatten = got.take (file.size.toNat - holdback) ∧
    (f'.log = f.log ++ .start :: early.map .shift ++ [.clear] ∨
      ∃ late, (f'.log = f.log ++ .start :: early.map .shift ++ [.shift late, .run] ∨
          f'.log = f.log ++ .start :: early.map .shift ++ [.shift late, .run, .clear]) ∧
        early.flatten ++ late = got ∧ got.length = file.size.toNat ∧ sha256 got = file.sha256)

theorem loadBitstream_loads (sha256 : List UInt8 → List UInt8) (file : File) (run : Run)
    (user : UInt32) {f : Fpga} (htail : f.tail.length = holdback) :
    ∃ outcome f' k, loadBitstream sha256 true file run user f = some (outcome, f') ∧
      Loads sha256 file (received run k) f f' := by
  have hlimit : (if holdback < file.size.toNat then file.size.toNat - holdback else 0)
      = file.size.toNat - holdback := by
    split <;> omega
  have hstart : Held file.size.toNat (f.log ++ [.start]) f.stores [] (f.emit .start) := by
    refine ⟨htail, ⟨[], (List.append_nil _).symm, ?_⟩, ?_, [], (List.append_nil _).symm, nofun⟩
    · rw [List.take_nil, List.flatten_nil]
    · rw [List.length_nil, Nat.zero_sub, List.take_zero, List.drop_nil]
  obtain ⟨ok, f₁, k, hstream, hheld, hle, hok⟩ := streamFile_spec sha256 file
    (fpgaSink (file.size.toNat - holdback)) run
    (Held file.size.toNat (f.log ++ [.start]) f.stores)
    (fun got s data hP hne hfits => hP.sink hne hfits) hstart
  obtain ⟨hlen, ⟨early, hlog, hearly⟩, htaken, hinside⟩ := hheld
  have hbegin : f.log ++ [Jtag.start] ++ early.map .shift = f.log ++ .start :: early.map .shift := by
    rw [List.append_assoc]
    rfl
  rw [hbegin] at hlog
  rw [loadBitstream, if_neg (by decide)]
  dsimp only
  rw [hlimit, hstream]
  cases ok with
  | false =>
      refine ⟨_, _, k, rfl, hinside, early, hearly, Or.inl ?_⟩
      rw [Fpga.emit_log, hlog]
  | true =>
      obtain ⟨hsize, hhash⟩ := hok rfl
      -- All of the file has been received, so what is held back is the rest of it.
      have hlate : f₁.tail.take (file.size.toNat - (file.size.toNat - holdback))
          = (received run k).drop (file.size.toNat - holdback) := by
        rw [← htaken, hsize]
      have hwhole : early.flatten ++ (received run k).drop (file.size.toNat - holdback)
          = received run k := by
        rw [hearly, List.take_append_drop]
      dsimp only
      rw [hlate]
      split
      · refine ⟨_, _, k, rfl, hinside, early, hearly, Or.inr ⟨_, Or.inr ?_, hwhole, hsize, hhash⟩⟩
        simp only [Fpga.emit_log, hlog, List.append_assoc, List.cons_append, List.nil_append]
      · refine ⟨_, _, k, rfl, hinside, early, hearly, Or.inr ⟨_, Or.inl ?_, hwhole, hsize, hhash⟩⟩
        simp only [Fpga.emit_log, hlog, List.append_assoc, List.cons_append, List.nil_append]

/-- Three bytes that come in one piece. -/
def threeBytes : Run where
  opened := true
  read := fun i => if i = 0 then .bytes [1, 2, 3] else .bytes []
  cancelled := fun _ => false
  cancelledAfter := false

end Recovery
