import Ultimate1541.TapeRecorderProofs

/-! # The tape recorder when the file cannot be written

    The calls of the recorder one at a time, with a result for each `file->write`.  The loops over
    the waiting blocks do not stop at an error: they try the same block again, and what they report
    is the result of the last attempt.  So nothing of a failed write is left when they end, and
    they do not end when there is no file, or when all writes fail. -/

namespace TapeRecorder

/-- A recorder in a call.  The last two fields are read by no step: whether `file` was a file at
    each `fclose`, and whether there was a block that could not be written. -/
structure Call where
  recorder : Recorder
  /-- How many calls of `file->write` there have been. -/
  writes : Nat
  closes : List Bool
  failed : Bool

/-- A call begins. -/
def enter (r : Recorder) : Call := ⟨r, 0, [], false⟩

/-- `file->write` for each number. -/
abbrev Results := Nat → Outcome

/-! ## The source -/

/-- `error_code = write_block()`. -/
def writeNext (results : Results) (c : Call) : Call :=
  if c.recorder.file = true then
    { c with
      recorder := writeBlock (results c.writes) (slotBytes c.recorder c.recorder.blockOut 512) c.recorder
      writes := c.writes + 1
      failed := c.failed || !(results c.writes).ok }
  else { c with recorder := { c.recorder with errorCode := .noFile }, failed := true }

/-- `while (blocks_cached > blocks_written)`, when it ends within `fuel` rounds. -/
def writeBlocks (results : Results) : (fuel : Nat) → Call → Option Call
  | 0, _ => none
  | fuel + 1, c =>
      if c.recorder.blocksCached > c.recorder.blocksWritten then
        writeBlocks results fuel (writeNext results c)
      else some c

/-- A round of `while (RECORD_STATUS & REC_STAT_BYTE_AV)`. -/
def writeRemaining (results : Results) (c : Call) : Call :=
  let o := results c.writes
  let bytes := c.recorder.fifo.take 512
  { c with
    recorder := { c.recorder with
      fifo := c.recorder.fifo.drop 512
      rest := c.recorder.rest ++ bytes
      data := c.recorder.data ++ bytes.take o.written
      totalLength := c.recorder.totalLength + (bytes.take o.written).length }
    writes := c.writes + 1
    failed := c.failed || !o.ok }

/-- The loop: a round takes something from the FIFO. -/
def writeRest (results : Results) : (fuel : Nat) → Call → Call
  | 0, c => c
  | fuel + 1, c =>
      if c.recorder.fifo = [] then c else writeRest results fuel (writeRemaining results c)

/-- The end of `flush`: the length, and `fclose`. -/
def finish (results : Results) (c : Call) : Call :=
  { c with
    recorder := { c.recorder with
      lengthField :=
        if (results c.writes).ok then c.recorder.totalLength % 2 ^ 32 else c.recorder.lengthField
      file := false
      recording := false
      enabled := false
      fifo := []
      finished := true }
    writes := c.writes + 1
    closes := c.closes ++ [c.recorder.file] }

/-- `flush`. -/
def flushCall (results : Results) (fuel : Nat) (c : Call) : Option Call :=
  if c.recorder.file = true then
    (writeBlocks results fuel c).map fun c =>
      finish results (writeRest results c.recorder.fifo.length c)
  else
    some { c with recorder := { c.recorder with
      errorCode := .noFile, recording := false, enabled := false, fifo := [] } }

/-- `fm->fclose((File *)file)` in `stop`. -/
def closeAgain (c : Call) : Call := { c with closes := c.closes ++ [c.recorder.file] }

/-- `stop`. -/
def stopCall (results : Results) (fuel : Nat) (error : RecErr) (c : Call) : Option Call :=
  let c := { c with recorder := { c.recorder with
    errorCode := error, enabled := false, recording := false } }
  let after : Option Call :=
    if c.recorder.file = true then (flushCall results fuel c).map closeAgain else some c
  after.map fun c => { c with recorder := { c.recorder with fifo := [], file := false } }

/-- The part of `poll` that tells about an error. -/
def showError (available : Bool) (c : Call) : Call :=
  { c with recorder := { c.recorder with
    errorCode := if available then .ok else c.recorder.errorCode } }

/-- The part that looks whether the file is still there. -/
def checkFile (results : Results) (fuel : Nat) (valid : Bool) (c : Call) : Option Call :=
  if c.recorder.file = true ∧ valid = false then
    stopCall results fuel .noFile { c with recorder := { c.recorder with file := false } }
  else some c

/-- The part that writes the blocks. -/
def pollBlocks (results : Results) (fuel : Nat) (c : Call) : Option Call :=
  if c.recorder.recording = true then
    let checked : Option Call :=
      if c.recorder.blocksCached ≥ c.recorder.blocksWritten + numCacheBlocks then
        stopCall results fuel .overflow c
      else some c
    checked.bind (writeBlocks results fuel)
  else some c

/-- A round of `poll`. -/
def pollCall (results : Results) (fuel : Nat) (valid available : Bool) (c : Call) : Option Call :=
  (checkFile results fuel valid (showError available c)).bind (pollBlocks results fuel)

/-- What is called. -/
inductive Entry
  | poll (valid available : Bool)
  | stop (error : RecErr)
  | flush

def Entry.call (results : Results) (fuel : Nat) : Entry → Call → Option Call
  | .poll valid available, c => pollCall results fuel valid available c
  | .stop error, c => stopCall results fuel error c
  | .flush, c => flushCall results fuel c

/-! ## What is asked -/

/-- A call ends; when there was a block that could not be written, the recording is off and there
    is an error; and the file is closed once, when it is given up. -/
def Handled (results : Results) (e : Entry) (r : Recorder) : Prop :=
  ∃ fuel c, e.call results fuel (enter r) = some c ∧
    (c.failed = true → c.recorder.recording = false ∧ c.recorder.errorCode ≠ .ok) ∧
    c.closes = if r.file = true ∧ c.recorder.file = false then [true] else []

/-- The blocks that wait. -/
def waiting (r : Recorder) : Nat := r.blocksCached - r.blocksWritten

/-- `n` writes from the `k`th one on succeed. -/
def Succeed (results : Results) (k n : Nat) : Prop := ∀ i < n, (results (k + i)).ok = true

/-- How many writes the rest of the FIFO takes. -/
def restWrites (length : Nat) : Nat := (length + 511) / 512

/-- When a call does what is asked: no file is given up but by `flush`, with no file no block is
    waited for, and all blocks are written at the first attempt. -/
def Spared (results : Results) (r : Recorder) : Entry → Prop
  | .flush => r.file = true → Succeed results 0 (waiting r) ∧
      (Succeed results (waiting r) (restWrites r.fifo.length) ∨
        waiting r = 0 ∧ r.errorCode ≠ .ok)
  | .stop _ => r.file = false
  | .poll valid _ => (r.file = true → valid = true) ∧
      (r.recording = true → waiting r < numCacheBlocks ∧
        (0 < waiting r → r.file = true ∧ Succeed results 0 (waiting r)))

/-! ## The loop over the blocks -/

theorem writeNext_file (results : Results) (c : Call) :
    (writeNext results c).recorder.file = c.recorder.file := by
  rw [writeNext]
  by_cases h : c.recorder.file = true
  · rw [if_pos h, writeBlock]
    by_cases hok : (results c.writes).ok = true
    · rw [if_pos hok]
    · rw [if_neg hok]
  · rw [if_neg h]

/-- What a round leaves alone. -/
theorem writeNext_frame (results : Results) (c : Call) :
    (writeNext results c).recorder.recording = c.recorder.recording ∧
    (writeNext results c).recorder.fifo = c.recorder.fifo ∧
    (writeNext results c).recorder.blocksCached = c.recorder.blocksCached ∧
    (writeNext results c).closes = c.closes := by
  rw [writeNext]
  by_cases h : c.recorder.file = true
  · rw [if_pos h, writeBlock]
    by_cases hok : (results c.writes).ok = true
    · rw [if_pos hok]
      exact ⟨rfl, rfl, rfl, rfl⟩
    · rw [if_neg hok]
      exact ⟨rfl, rfl, rfl, rfl⟩
  · rw [if_neg h]
    exact ⟨rfl, rfl, rfl, rfl⟩

/-- A write that succeeds. -/
theorem writeNext_ok {results : Results} {c : Call} (hfile : c.recorder.file = true)
    (hok : (results c.writes).ok = true) :
    (writeNext results c).recorder.blocksWritten = c.recorder.blocksWritten + 1 ∧
    (writeNext results c).recorder.errorCode = .ok ∧
    (writeNext results c).failed = c.failed ∧ (writeNext results c).writes = c.writes + 1 := by
  rw [writeNext, if_pos hfile, writeBlock, if_pos hok]
  refine ⟨rfl, rfl, ?_, rfl⟩
  simp [hok]

/-- A write that fails. -/
theorem writeNext_failed {results : Results} {c : Call} (hfile : c.recorder.file = true)
    (hok : (results c.writes).ok = false) :
    (writeNext results c).recorder.blocksWritten = c.recorder.blocksWritten ∧
    (writeNext results c).failed = true := by
  rw [writeNext, if_pos hfile, writeBlock, if_neg (by simp [hok])]
  refine ⟨rfl, ?_⟩
  simp [hok]

/-- Without a file there is no end. -/
theorem writeBlocks_without_file {results : Results} {fuel : Nat} {c c' : Call}
    (hfile : c.recorder.file = false) (h : writeBlocks results fuel c = some c') :
    c.recorder.blocksCached ≤ c.recorder.blocksWritten := by
  induction fuel generalizing c with
  | zero => exact nomatch h
  | succ fuel ih =>
      rw [writeBlocks] at h
      by_cases hmore : c.recorder.blocksCached > c.recorder.blocksWritten
      · rw [if_pos hmore] at h
        have hend := ih ((writeNext_file results c).trans hfile) h
        rw [(writeNext_frame results c).2.2.1, writeNext, if_neg (by simp [hfile])] at hend
        exact hend
      · exact Nat.le_of_not_lt hmore

/-- What the loop leaves alone. -/
theorem writeBlocks_frame {results : Results} {fuel : Nat} {c c' : Call}
    (h : writeBlocks results fuel c = some c') :
    c'.recorder.file = c.recorder.file ∧ c'.recorder.recording = c.recorder.recording ∧
    c'.recorder.fifo = c.recorder.fifo ∧ c'.closes = c.closes := by
  induction fuel generalizing c with
  | zero => exact nomatch h
  | succ fuel ih =>
      rw [writeBlocks] at h
      by_cases hmore : c.recorder.blocksCached > c.recorder.blocksWritten
      · rw [if_pos hmore] at h
        obtain ⟨hfile, hrec, hfifo, hcloses⟩ := ih h
        obtain ⟨hrec', hfifo', -, hcloses'⟩ := writeNext_frame results c
        exact ⟨hfile.trans (writeNext_file results c), hrec.trans hrec', hfifo.trans hfifo',
          hcloses.trans hcloses'⟩
      · rw [if_neg hmore] at h
        cases h
        exact ⟨rfl, rfl, rfl, rfl⟩

/-- When the loop comes to its end after a failure, the failure is forgotten: the last write has
    succeeded. -/
theorem writeBlocks_error {results : Results} {fuel : Nat} {c c' : Call}
    (hfile : c.recorder.file = true) (h : writeBlocks results fuel c = some c')
    (hmore : c.recorder.blocksCached > c.recorder.blocksWritten) : c'.recorder.errorCode = .ok := by
  induction fuel generalizing c with
  | zero => exact nomatch h
  | succ fuel ih =>
      rw [writeBlocks, if_pos hmore] at h
      have hcached := (writeNext_frame results c).2.2.1
      cases hok : (results c.writes).ok with
      | true =>
          obtain ⟨hwritten, herror, -⟩ := writeNext_ok hfile hok
          by_cases hnext : (writeNext results c).recorder.blocksCached >
              (writeNext results c).recorder.blocksWritten
          · exact ih ((writeNext_file results c).trans hfile) h hnext
          · cases fuel with
            | zero => exact nomatch h
            | succ fuel =>
                rw [writeBlocks, if_neg hnext] at h
                cases h
                exact herror
      | false =>
          refine ih ((writeNext_file results c).trans hfile) h ?_
          rw [hcached, (writeNext_failed hfile hok).1]
          exact hmore

/-- With a file the loop ends without a failure exactly when its first writes succeed. -/
theorem writeBlocks_failed {results : Results} {fuel : Nat} {c c' : Call}
    (hfile : c.recorder.file = true) (h : writeBlocks results fuel c = some c') :
    (c'.failed = false ↔ c.failed = false ∧ Succeed results c.writes (waiting c.recorder)) ∧
    (c'.failed = false → c'.writes = c.writes + waiting c.recorder) := by
  induction fuel generalizing c with
  | zero => exact nomatch h
  | succ fuel ih =>
      rw [writeBlocks] at h
      by_cases hmore : c.recorder.blocksCached > c.recorder.blocksWritten
      · rw [if_pos hmore] at h
        obtain ⟨hiff, hwrites⟩ := ih ((writeNext_file results c).trans hfile) h
        have hcached := (writeNext_frame results c).2.2.1
        cases hok : (results c.writes).ok with
        | true =>
            obtain ⟨hwritten, -, hfailed, hnumber⟩ := writeNext_ok hfile hok
            have hwait : waiting (writeNext results c).recorder + 1 = waiting c.recorder := by
              rw [waiting, waiting, hcached, hwritten]
              omega
            rw [hfailed, hnumber] at hiff
            rw [hnumber] at hwrites
            constructor
            · rw [hiff]
              constructor
              · rintro ⟨hno, hall⟩
                refine ⟨hno, fun i hi => ?_⟩
                cases i with
                | zero => exact hok
                | succ i =>
                    have hnext := hall i (by omega)
                    rwa [Nat.add_assoc, Nat.add_comm 1 i] at hnext
              · rintro ⟨hno, hall⟩
                refine ⟨hno, fun i hi => ?_⟩
                have hnext := hall (i + 1) (by omega)
                rwa [Nat.add_assoc, Nat.add_comm 1 i]
            · intro hno
              rw [hwrites hno]
              omega
        | false =>
            have hfailed := (writeNext_failed hfile hok).2
            constructor
            · constructor
              · intro hno
                have hbad := (hiff.1 hno).1
                rw [hfailed] at hbad
                exact nomatch hbad
              · rintro ⟨-, hall⟩
                have hfirst := hall 0 (by rw [waiting]; omega)
                rw [Nat.add_zero, hok] at hfirst
                exact nomatch hfirst
            · intro hno
              have hbad := (hiff.1 hno).1
              rw [hfailed] at hbad
              exact nomatch hbad
      · have hnone : waiting c.recorder = 0 := by
          rw [waiting]
          omega
        rw [if_neg hmore] at h
        obtain rfl := Option.some.inj h
        rw [hnone]
        exact ⟨⟨fun hno => ⟨hno, fun i hi => absurd hi (Nat.not_lt_zero i)⟩, And.left⟩,
          fun _ => rfl⟩

/-- With a file, and first writes that succeed, the loop ends. -/
theorem writeBlocks_ends {results : Results} {c : Call} (hfile : c.recorder.file = true) {n : Nat}
    (hn : waiting c.recorder = n) (h : Succeed results c.writes n) :
    ∃ c', writeBlocks results (n + 1) c = some c' := by
  induction n generalizing c with
  | zero =>
      rw [waiting] at hn
      exact ⟨c, by rw [writeBlocks, if_neg (by omega)]⟩
  | succ n ih =>
      have hok : (results c.writes).ok = true := h 0 (Nat.succ_pos n)
      obtain ⟨hwritten, -, -, hnumber⟩ := writeNext_ok hfile hok
      have hcached := (writeNext_frame results c).2.2.1
      rw [waiting] at hn
      rw [writeBlocks, if_pos (by omega)]
      refine ih ((writeNext_file results c).trans hfile) ?_ ?_
      · rw [waiting, hcached, hwritten]
        omega
      · intro i hi
        rw [hnumber, Nat.add_assoc, Nat.add_comm 1 i]
        exact h (i + 1) (by omega)

/-- A file that is kept is not closed. -/
theorem closes_of_kept {r : Recorder} {c : Call} (hfile : c.recorder.file = r.file)
    (hnone : c.closes = []) :
    c.closes = if r.file = true ∧ c.recorder.file = false then [true] else [] := by
  rw [hnone, if_neg]
  rintro ⟨hold, hnew⟩
  rw [hfile, hold] at hnew
  exact nomatch hnew

/-! ## The rest of the FIFO -/

theorem restWrites_zero : restWrites 0 = 0 := rfl

theorem restWrites_pos {n : Nat} (h : 0 < n) : restWrites n = restWrites (n - 512) + 1 := by
  rw [restWrites, restWrites]
  omega

theorem writeRest_frame (results : Results) (fuel : Nat) (c : Call) :
    (writeRest results fuel c).recorder.file = c.recorder.file ∧
    (writeRest results fuel c).recorder.errorCode = c.recorder.errorCode ∧
    (writeRest results fuel c).closes = c.closes := by
  induction fuel generalizing c with
  | zero => exact ⟨rfl, rfl, rfl⟩
  | succ fuel ih =>
      rw [writeRest]
      by_cases hnone : c.recorder.fifo = []
      · rw [if_pos hnone]
        exact ⟨rfl, rfl, rfl⟩
      · rw [if_neg hnone]
        exact ih (writeRemaining results c)

theorem writeRest_failed {results : Results} {fuel : Nat} {c : Call}
    (hfuel : c.recorder.fifo.length ≤ fuel) :
    (writeRest results fuel c).failed = false ↔
      c.failed = false ∧ Succeed results c.writes (restWrites c.recorder.fifo.length) := by
  induction fuel generalizing c with
  | zero =>
      rw [Nat.le_zero.1 hfuel, restWrites_zero]
      exact ⟨fun h => ⟨h, fun i hi => absurd hi (Nat.not_lt_zero i)⟩, And.left⟩
  | succ fuel ih =>
      rw [writeRest]
      by_cases hnone : c.recorder.fifo = []
      · rw [if_pos hnone, hnone, List.length_nil, restWrites_zero]
        exact ⟨fun h => ⟨h, fun i hi => absurd hi (Nat.not_lt_zero i)⟩, And.left⟩
      · have hpos : 0 < c.recorder.fifo.length := List.length_pos_iff.2 hnone
        have hlen : (writeRemaining results c).recorder.fifo.length = c.recorder.fifo.length - 512 :=
          List.length_drop
        have hfailed : (writeRemaining results c).failed = false ↔
            c.failed = false ∧ (results c.writes).ok = true := by
          rw [writeRemaining]
          simp
        rw [if_neg hnone, ih (by omega), hlen, hfailed, restWrites_pos hpos]
        constructor
        · rintro ⟨⟨hno, hok⟩, hall⟩
          refine ⟨hno, fun i hi => ?_⟩
          cases i with
          | zero => exact hok
          | succ i =>
              have hnext := hall i (by omega)
              rwa [writeRemaining, Nat.add_assoc, Nat.add_comm 1 i] at hnext
        · rintro ⟨hno, hall⟩
          refine ⟨⟨hno, hall 0 (Nat.succ_pos _)⟩, fun i hi => ?_⟩
          have hnext := hall (i + 1) (by omega)
          rwa [writeRemaining, Nat.add_assoc, Nat.add_comm 1 i]

/-! ## `flush` -/

/-- A `flush` that ends, with a file: the file has been closed, and the error is that of the last
    block, or an old one. -/
theorem flushCall_file {results : Results} {fuel : Nat} {c c' : Call}
    (hfile : c.recorder.file = true) (h : flushCall results fuel c = some c') :
    ∃ c₁, writeBlocks results fuel c = some c₁ ∧
      c'.failed = (writeRest results c₁.recorder.fifo.length c₁).failed ∧
      c'.recorder.errorCode = c₁.recorder.errorCode ∧ c'.recorder.recording = false ∧
      c'.recorder.file = false ∧ c'.closes = c.closes ++ [true] := by
  rw [flushCall, if_pos hfile, Option.map_eq_some_iff] at h
  obtain ⟨c₁, hblocks, rfl⟩ := h
  obtain ⟨hf, -, -, hcloses⟩ := writeBlocks_frame hblocks
  obtain ⟨hf', herror, hcloses'⟩ := writeRest_frame results c₁.recorder.fifo.length c₁
  refine ⟨c₁, hblocks, rfl, herror, rfl, rfl, ?_⟩
  rw [finish, hcloses', hcloses, hf', hf, hfile]

theorem handled_flush_iff (results : Results) (r : Recorder) :
    Handled results .flush r ↔ Spared results r .flush := by
  constructor
  · rintro ⟨fuel, c, hcall, hfailed, -⟩ hfile
    obtain ⟨c₁, hblocks, hc, herror, -⟩ := flushCall_file hfile hcall
    obtain ⟨hiff, hwrites⟩ := writeBlocks_failed hfile hblocks
    have hrest := @writeRest_failed results _ c₁ (Nat.le_refl c₁.recorder.fifo.length)
    have hfifo : c₁.recorder.fifo = r.fifo := (writeBlocks_frame hblocks).2.2.1
    rw [← hc, hfifo] at hrest
    -- Either no attempt has failed, or what is left of the failure is an old error.
    have hspared : c.failed = false → Succeed results 0 (waiting r) ∧
        Succeed results (waiting r) (restWrites r.fifo.length) := by
      intro hno
      obtain ⟨hno', hall⟩ := hrest.1 hno
      have hw := hwrites hno'
      rw [show (enter r).writes + waiting (enter r).recorder = waiting r from Nat.zero_add _] at hw
      rw [hw] at hall
      exact ⟨(hiff.1 hno').2, hall⟩
    by_cases hwait : waiting r = 0
    · rw [hwait] at hspared ⊢
      refine ⟨fun i hi => absurd hi (Nat.not_lt_zero i), ?_⟩
      cases hbad : c.failed with
      | false => exact Or.inl (hspared hbad).2
      | true =>
          refine Or.inr ⟨rfl, ?_⟩
          have hold := (hfailed hbad).2
          rw [herror] at hold
          cases fuel with
          | zero => exact nomatch hblocks
          | succ fuel =>
              have hend : ¬ (enter r).recorder.blocksCached > (enter r).recorder.blocksWritten := by
                rw [waiting] at hwait
                exact Nat.not_lt.2 (Nat.sub_eq_zero_iff_le.1 hwait)
              rw [writeBlocks, if_neg hend] at hblocks
              cases hblocks
              exact hold
    · have hok := writeBlocks_error hfile hblocks (by
        rw [waiting] at hwait
        exact Nat.lt_of_sub_ne_zero hwait)
      cases hbad : c.failed with
      | false => exact ⟨(hspared hbad).1, Or.inl (hspared hbad).2⟩
      | true => exact absurd (herror.trans hok) (hfailed hbad).2
  · intro hspared
    cases hfile : r.file with
    | false =>
        have hnone : ¬ (enter r).recorder.file = true := by simp [enter, hfile]
        refine ⟨0, _, by rw [Entry.call, flushCall, if_neg hnone], ?_, ?_⟩
        · exact fun h => nomatch h
        · exact closes_of_kept rfl rfl
    | true =>
        obtain ⟨hblocks, hrest⟩ := hspared hfile
        obtain ⟨c₁, hc₁⟩ := writeBlocks_ends (c := enter r) hfile rfl hblocks
        obtain ⟨hiff, hwrites⟩ := writeBlocks_failed hfile hc₁
        have hno := hiff.2 ⟨rfl, hblocks⟩
        have hw := hwrites hno
        rw [show (enter r).writes + waiting (enter r).recorder = waiting r from Nat.zero_add _] at hw
        have hcall : Entry.call results (waiting r + 1) .flush (enter r) =
            some (finish results (writeRest results c₁.recorder.fifo.length c₁)) := by
          have hsome : (enter r).recorder.file = true := hfile
          rw [Entry.call, flushCall, if_pos hsome]
          exact congrArg (Option.map _) hc₁
        obtain ⟨c₁', hc₁', hfailed, herror, hrec, hoff, hcloses⟩ := flushCall_file hfile hcall
        obtain rfl : c₁' = c₁ := Option.some.inj (hc₁'.symm.trans hc₁)
        refine ⟨_, _, hcall, ?_, ?_⟩
        · intro hbad
          refine ⟨hrec, ?_⟩
          rw [herror]
          have hfifo : c₁'.recorder.fifo = r.fifo := (writeBlocks_frame hc₁).2.2.1
          rcases hrest with hrest | ⟨hwait, hold⟩
          · have hfine := (writeRest_failed (Nat.le_refl c₁'.recorder.fifo.length)).2
              ⟨hno, by rw [hfifo, hw]; exact hrest⟩
            rw [hfailed, hfine] at hbad
            exact nomatch hbad
          · have hend : ¬ (enter r).recorder.blocksCached > (enter r).recorder.blocksWritten := by
              rw [waiting] at hwait
              exact Nat.not_lt.2 (Nat.sub_eq_zero_iff_le.1 hwait)
            rw [writeBlocks, if_neg hend] at hc₁
            cases hc₁
            exact hold
        · rw [hcloses, hoff, if_pos ⟨hfile, rfl⟩]
          rfl

/-! ## `stop` -/

/-- Without a file there is nothing to do. -/
theorem stopCall_without_file (results : Results) (fuel : Nat) (error : RecErr) {c : Call}
    (hfile : c.recorder.file = false) :
    stopCall results fuel error c = some { c with recorder := { c.recorder with
      errorCode := error, enabled := false, recording := false, fifo := [], file := false } } := by
  rw [stopCall]
  dsimp only
  rw [if_neg (by simp [hfile])]
  rfl

/-- With one, `fclose` is called a second time, when there is none any more. -/
theorem stopCall_file {results : Results} {fuel : Nat} {error : RecErr} {c c' : Call}
    (hfile : c.recorder.file = true) (h : stopCall results fuel error c = some c') :
    c'.closes = c.closes ++ [true, false] := by
  rw [stopCall] at h
  dsimp only at h
  rw [if_pos hfile, Option.map_map, Option.map_eq_some_iff] at h
  obtain ⟨c₁, hflush, rfl⟩ := h
  obtain ⟨-, -, -, -, -, hoff, hcloses⟩ := flushCall_file (by exact hfile) hflush
  simp [closeAgain, hoff, hcloses]

theorem handled_stop_iff (results : Results) (r : Recorder) (error : RecErr) :
    Handled results (.stop error) r ↔ Spared results r (.stop error) := by
  constructor
  · rintro ⟨fuel, c, hcall, -, hcloses⟩
    cases hfile : r.file with
    | false => exact hfile
    | true =>
        have htwo := stopCall_file hfile hcall
        rw [htwo] at hcloses
        split at hcloses
        · exact nomatch hcloses
        · exact nomatch hcloses
  · intro hfile
    refine ⟨0, _, stopCall_without_file results 0 error hfile, ?_, ?_⟩
    · exact fun h => nomatch h
    · exact closes_of_kept (show false = r.file from Eq.symm hfile) rfl

/-! ## `poll` -/

/-- A round of `poll` whose file is valid, or that has none. -/
theorem pollCall_valid (results : Results) (fuel : Nat) {valid available : Bool} {r : Recorder}
    (h : r.file = true → valid = true) :
    pollCall results fuel valid available (enter r) =
      pollBlocks results fuel (showError available (enter r)) := by
  have hkeep : ¬ ((showError available (enter r)).recorder.file = true ∧ valid = false) := by
    rintro ⟨hfile, hbad⟩
    rw [h hfile] at hbad
    exact nomatch hbad
  rw [pollCall, checkFile, if_neg hkeep]
  rfl

/-- A round of `poll` whose file has been removed: it is not closed. -/
theorem pollCall_invalid (results : Results) (fuel : Nat) (available : Bool) {r : Recorder}
    {c : Call} (hfile : r.file = true)
    (h : pollCall results fuel false available (enter r) = some c) :
    c.recorder.file = false ∧ c.closes = [] := by
  rw [pollCall, checkFile, if_pos ⟨hfile, rfl⟩, stopCall_without_file _ _ _ rfl] at h
  rw [Option.bind_some, pollBlocks, if_neg Bool.false_ne_true] at h
  cases h
  exact ⟨rfl, rfl⟩

/-- While there is room, the blocks are written. -/
theorem pollBlocks_room (results : Results) (fuel : Nat) {c : Call}
    (hrec : c.recorder.recording = true) (hroom : waiting c.recorder < numCacheBlocks) :
    pollBlocks results fuel c = writeBlocks results fuel c := by
  rw [waiting] at hroom
  rw [pollBlocks, if_pos hrec]
  dsimp only
  rw [if_neg (by omega), Option.bind_some]

/-- After an overflow the loop over the blocks goes on, without a file. -/
theorem pollBlocks_overflow {results : Results} {fuel : Nat} {c c' : Call}
    (hrec : c.recorder.recording = true) (hover : numCacheBlocks ≤ waiting c.recorder)
    (h : pollBlocks results fuel c = some c') :
    c.recorder.file = true ∧ c'.closes = c.closes ++ [true, false] := by
  have hpos : 0 < numCacheBlocks := by decide
  rw [waiting] at hover
  rw [pollBlocks, if_pos hrec] at h
  dsimp only at h
  rw [if_pos (by omega)] at h
  obtain ⟨c₁, hstop, hblocks⟩ := Option.bind_eq_some_iff.1 h
  cases hfile : c.recorder.file with
  | false =>
      rw [stopCall_without_file _ _ _ hfile] at hstop
      obtain rfl := Option.some.inj hstop
      have hend := writeBlocks_without_file (by rfl) hblocks
      exact absurd hend (show ¬ c.recorder.blocksCached ≤ c.recorder.blocksWritten by omega)
  | true =>
      exact ⟨rfl, (writeBlocks_frame hblocks).2.2.2.trans (stopCall_file hfile hstop)⟩

theorem handled_poll_iff (results : Results) (r : Recorder) (valid available : Bool) :
    Handled results (.poll valid available) r ↔ Spared results r (.poll valid available) := by
  have hrun : ∀ fuel, (r.file = true → valid = true) →
      Entry.call results fuel (.poll valid available) (enter r) =
        pollBlocks results fuel (showError available (enter r)) :=
    fun fuel hvalid => pollCall_valid results fuel hvalid
  constructor
  · rintro ⟨fuel, c, hcall, hfailed, hcloses⟩
    have hvalid : r.file = true → valid = true := by
      intro hfile
      cases valid with
      | true => rfl
      | false =>
          obtain ⟨hoff, hnone⟩ := pollCall_invalid results fuel available hfile hcall
          rw [hoff, hnone, if_pos ⟨hfile, rfl⟩] at hcloses
          exact nomatch hcloses
    refine ⟨hvalid, fun hrec => ?_⟩
    rw [hrun fuel hvalid] at hcall
    by_cases hroom : waiting r < numCacheBlocks
    · refine ⟨hroom, fun hwait => ?_⟩
      rw [pollBlocks_room results fuel hrec hroom] at hcall
      have hmore : r.blocksCached > r.blocksWritten := by
        rw [waiting] at hwait
        omega
      cases hfile : r.file with
      | false =>
          have hend : r.blocksCached ≤ r.blocksWritten := writeBlocks_without_file hfile hcall
          omega
      | true =>
          have hok := writeBlocks_error hfile hcall hmore
          have hno : c.failed = false := by
            cases hbad : c.failed with
            | false => rfl
            | true => exact absurd hok (hfailed hbad).2
          exact ⟨rfl, ((writeBlocks_failed hfile hcall).1.1 hno).2⟩
    · obtain ⟨hfile, htwo⟩ := pollBlocks_overflow hrec (Nat.le_of_not_lt hroom) hcall
      rw [htwo] at hcloses
      split at hcloses
      · exact nomatch hcloses
      · exact nomatch hcloses
  · rintro ⟨hvalid, hblocks⟩
    cases hrec : r.recording with
    | false =>
        have hoff : ¬ (showError available (enter r)).recorder.recording = true := by
          simp [showError, enter, hrec]
        refine ⟨0, showError available (enter r), ?_, ?_, ?_⟩
        · rw [hrun 0 hvalid, pollBlocks, if_neg hoff]
        · exact fun h => nomatch h
        · exact closes_of_kept rfl rfl
    | true =>
        obtain ⟨hroom, hwrites⟩ := hblocks hrec
        by_cases hwait : 0 < waiting r
        · obtain ⟨hfile, hall⟩ := hwrites hwait
          obtain ⟨c, hc⟩ := writeBlocks_ends (c := showError available (enter r)) hfile rfl hall
          obtain ⟨hf, -, -, hcloses⟩ := writeBlocks_frame hc
          have hno := (writeBlocks_failed hfile hc).1.2 ⟨rfl, hall⟩
          refine ⟨waiting r + 1, c, ?_, fun hbad => ?_, closes_of_kept hf hcloses⟩
          · rw [hrun _ hvalid, pollBlocks_room results _ hrec hroom]
            exact hc
          · rw [hno] at hbad
            exact nomatch hbad
        · have hend : ¬ r.blocksCached > r.blocksWritten := by
            rw [waiting] at hwait
            omega
          refine ⟨1, showError available (enter r), ?_, ?_, ?_⟩
          · rw [hrun 1 hvalid, pollBlocks_room results 1 hrec hroom, writeBlocks]
            exact if_neg hend
          · exact fun h => nomatch h
          · exact closes_of_kept rfl rfl

/-! ## All calls -/

/-- **What is left of a failed write.**  A round of `poll`, `stop` and `flush` come to an end,
    report a block that could not be written and close the file once, if and only if they are
    spared the failure. -/
theorem call_handled_iff (results : Results) (e : Entry) (r : Recorder) :
    Handled results e r ↔ Spared results r e := by
  cases e with
  | poll valid available => exact handled_poll_iff results r valid available
  | stop error => exact handled_stop_iff results r error
  | flush => exact handled_flush_iff results r

/-- With one block waiting and a medium that takes nothing, `flush` does not end. -/
theorem call_not_handled :
    ¬ ∀ (results : Results) (e : Entry) (r : Recorder), Handled results e r := by
  intro hall
  have h := (handled_flush_iff (fun _ => ⟨true, true, 0, false, 0⟩)
    { (started (fun _ _ => 0) .ok).recorder with blocksCached := 1 }).1 (hall _ _ _) rfl
  exact nomatch h.1 0 (by decide)

end TapeRecorder
