import Ultimate1541.TapeRecorderProofs

/-! # What the tape file has

    The ring is right as long as no interrupt finds it full, and no block is captured when a
    `flush` is past the blocks. The recorder checks neither: it looks at the ring once in each
    `poll`, before it writes the blocks that wait. -/

namespace TapeRecorder

/-! ## What is to hold -/

/-- Unless an overflow was reported: the file has captured bytes in their order, each once, and
    when it is finished it has all of them, and their number as its length. -/
def Right (r : Recorder) : Prop :=
  r.overflow = false →
    r.data <+: r.captured.flatten ++ r.rest ∧
      (r.finished = true → r.data = r.captured.flatten ++ r.rest ∧ r.lengthField = r.data.length)

/-- A `flush` is past the blocks of the ring. -/
def Pc.tail : Pc → Bool
  | .rest _ | .fill .. | .remaining .. | .length _ | .off _ => true
  | _ => false

/-- A write that ends with this step writes everything, and the length can be written. -/
def Pc.Succeeds (o : Outcome) (r : Recorder) : Pc → Prop
  | .block _ copied => copied.length < 512 ∨ o.ok = true ∧ 512 ≤ o.written
  | .remaining _ _ i copied => copied.length < i ∨ i ≤ o.written
  | .length _ => o.ok = true ∧ r.totalLength < 2 ^ 32
  | _ => True

/-- What an event needs of the state that it finds. -/
def Meets (s : System) : Event → Prop
  | .bytes _ => True
  | .irq =>
      Fires s.recorder → s.recorder.recording = true →
        s.recorder.blocksCached < s.recorder.blocksWritten + numCacheBlocks ∧
          s.poll.tail = false ∧ s.command.tail = false
  | .poll o => s.command = .wait ∧ s.poll.Succeeds o s.recorder
  | .finish => s.poll = .wait
  | .command o => s.command.Succeeds o s.recorder

/-- Every event of a run finds what it needs. -/
def AllMeet : System → List Event → Prop
  | _, [] => True
  | s, e :: events => Meets s e ∧ AllMeet (step s e) events

instance (o : Outcome) (r : Recorder) : (pc : Pc) → Decidable (pc.Succeeds o r)
  | .block .. => inferInstanceAs (Decidable (_ ∨ _ ∧ _))
  | .remaining .. => inferInstanceAs (Decidable (_ ∨ _))
  | .length _ => inferInstanceAs (Decidable (_ ∧ _))
  | .wait | .check | .blocks _ | .rest _ | .fill .. | .off _ => .isTrue trivial

instance (s : System) : (e : Event) → Decidable (Meets s e)
  | .bytes _ => .isTrue trivial
  | .irq => inferInstanceAs (Decidable (_ → _ → _ ∧ _))
  | .poll _ => inferInstanceAs (Decidable (_ ∧ _))
  | .finish => inferInstanceAs (Decidable (_ = _))
  | .command _ => inferInstanceAs (Decidable (Pc.Succeeds _ _ _))

instance decidableAllMeet : (s : System) → (events : List Event) → Decidable (AllMeet s events)
  | _, [] => .isTrue trivial
  | s, e :: events =>
      have := decidableAllMeet (step s e) events
      inferInstanceAs (Decidable (_ ∧ _))

/-! ## The ring -/

/-- A captured block. -/
def capturedBlock (r : Recorder) (j : Nat) : List UInt8 := r.captured.getD j []

/-- The ring has the blocks that wait, each at its place. -/
structure Ring (r : Recorder) : Prop where
  cached : r.blocksCached = r.captured.length
  inPlace : r.blockIn = r.captured.length % numCacheBlocks
  outPlace : r.blockOut = r.blocksWritten % numCacheBlocks
  sizes : ∀ b ∈ r.captured, b.length = 512
  behind : r.blocksWritten ≤ r.captured.length
  room : r.captured.length ≤ r.blocksWritten + numCacheBlocks
  slots : ∀ j, r.blocksWritten ≤ j → j < r.captured.length →
    ∀ i < 512, r.cacheBlocks (j % numCacheBlocks) i = (capturedBlock r j).getD i 0

/-- No `flush` is past the blocks: the file has those that were written. -/
structure Writing (r : Recorder) : Prop where
  unfinished : r.finished = false
  data : r.data = (r.captured.take r.blocksWritten).flatten
  rest : r.rest = []
  total : r.totalLength = r.data.length

/-- All blocks are in the file. -/
structure Emptied (r : Recorder) : Prop where
  unfinished : r.finished = false
  all : r.blocksWritten = r.captured.length
  total : r.totalLength = r.data.length

/-- The file is finished. -/
structure Finished (r : Recorder) : Prop where
  finished : r.finished = true
  stopped : r.recording = false
  closed : r.file = false
  data : r.data = r.captured.flatten ++ r.rest
  length : r.lengthField = r.data.length

/-- What holds where a task is. -/
def At (r : Recorder) : Pc → Prop
  | .wait => Writing r ∨ Finished r
  | .check => Writing r
  | .blocks c => Writing r ∧ c ≠ .stop
  | .block c copied =>
      Writing r ∧ c ≠ .stop ∧ r.blocksWritten < r.captured.length ∧ copied <+: capturedBlock r r.blocksWritten
  | .rest c => Emptied r ∧ c = .finish ∧ r.data = r.captured.flatten ++ r.rest
  | .fill c slot i =>
      Emptied r ∧ c = .finish ∧ slot = r.blockIn ∧ r.captured.flatten ++ r.rest = r.data ++ slotBytes r slot i
  | .remaining c slot i copied =>
      Emptied r ∧ c = .finish ∧ r.captured.flatten ++ r.rest = r.data ++ slotBytes r slot i ∧ copied <+: slotBytes r slot i
  | .length c => Emptied r ∧ c = .finish ∧ r.data = r.captured.flatten ++ r.rest
  | .off c =>
      Emptied r ∧ c = .finish ∧ r.file = false ∧ r.data = r.captured.flatten ++ r.rest ∧ r.lengthField = r.data.length

theorem Writing.ordered {r : Recorder} (h : Writing r) : r.data <+: r.captured.flatten ++ r.rest := by
  obtain ⟨-, hdata, -, -⟩ := h
  have hsplit : (r.captured.take r.blocksWritten).flatten ++ (r.captured.drop r.blocksWritten).flatten =
      r.captured.flatten := by
    rw [← List.flatten_append, List.take_append_drop]
  rw [hdata, ← hsplit, List.append_assoc]
  exact List.prefix_append _ _

/-- Wherever a task is, the file is right. -/
theorem right_of_at {r : Recorder} {pc : Pc} (h : At r pc) : Right r := by
  intro _
  have hunfinished : ∀ {p : Prop}, r.finished = false → r.finished = true → p :=
    fun hf ht => absurd (hf.symm.trans ht) (by decide)
  cases pc with
  | wait =>
      rcases h with h | h
      · exact ⟨h.ordered, hunfinished h.unfinished⟩
      · exact ⟨h.data ▸ List.prefix_rfl, fun _ => ⟨h.data, h.length⟩⟩
  | check => exact ⟨Writing.ordered h, hunfinished (Writing.unfinished h)⟩
  | blocks c => exact ⟨h.1.ordered, hunfinished h.1.unfinished⟩
  | block c copied => exact ⟨h.1.ordered, hunfinished h.1.unfinished⟩
  | rest c => exact ⟨h.2.2 ▸ List.prefix_rfl, hunfinished h.1.unfinished⟩
  | fill c slot i => exact ⟨h.2.2.2 ▸ List.prefix_append _ _, hunfinished h.1.unfinished⟩
  | remaining c slot i copied => exact ⟨h.2.2.1 ▸ List.prefix_append _ _, hunfinished h.1.unfinished⟩
  | length c => exact ⟨h.2.2 ▸ List.prefix_rfl, hunfinished h.1.unfinished⟩
  | off c => exact ⟨h.2.2.2.1 ▸ List.prefix_rfl, hunfinished h.1.unfinished⟩

/-! ## The interrupt -/

theorem wrap_mod (n : Nat) : wrap (n % numCacheBlocks) = (n + 1) % numCacheBlocks := by
  by_cases h : n % numCacheBlocks + 1 = numCacheBlocks
  · rw [wrap, if_pos h]
    simp only [numCacheBlocks] at h ⊢
    omega
  · rw [wrap, if_neg h]
    simp only [numCacheBlocks] at h ⊢
    omega

theorem capturedBlock_append {r : Recorder} {b : List UInt8} {j : Nat} (hj : j < r.captured.length) :
    (r.captured ++ [b]).getD j [] = capturedBlock r j := by
  rw [capturedBlock, List.getD_eq_getElem?_getD, List.getD_eq_getElem?_getD, List.getElem?_append_left hj]

theorem capturedBlock_last (r : Recorder) (b : List UInt8) : (r.captured ++ [b]).getD r.captured.length [] = b := by
  rw [List.getD_eq_getElem?_getD, List.getElem?_concat_length]
  rfl

/-- A block that is captured into a ring with room leaves the blocks that wait. -/
theorem ring_cacheBlock {r : Recorder} (h : Ring r) (hfires : Fires r)
    (hroom : r.blocksCached < r.blocksWritten + numCacheBlocks) : Ring (cacheBlock r) := by
  have hfifo := hfires.2
  have hcached := h.cached
  have hbehind := h.behind
  refine ⟨?_, ?_, h.outPlace, ?_, ?_, ?_, ?_⟩
  · simp only [cacheBlock, List.length_append, List.length_singleton, hcached]
  · simp only [cacheBlock, List.length_append, List.length_singleton, h.inPlace, wrap_mod]
  · intro b hb
    rcases List.mem_append.mp hb with hb | hb
    · exact h.sizes b hb
    · rw [List.mem_singleton.mp hb, List.length_take]
      omega
  · simp only [cacheBlock, List.length_append, List.length_singleton]
    omega
  · simp only [cacheBlock, List.length_append, List.length_singleton]
    omega
  · intro j hj hlt i hi
    simp only [cacheBlock, List.length_append, List.length_singleton] at hj hlt
    simp only [cacheBlock, capturedBlock, h.inPlace]
    rcases Nat.lt_succ_iff_lt_or_eq.mp hlt with hlt | rfl
    · -- a block that waits is at another place
      have hother : j % numCacheBlocks ≠ r.captured.length % numCacheBlocks := by
        simp only [numCacheBlocks] at hroom ⊢
        omega
      rw [if_neg hother, capturedBlock_append hlt]
      exact h.slots j hj hlt i hi
    · rw [if_pos rfl, capturedBlock_last]

/-- Where no task is past the blocks, a captured block changes nothing for them. -/
theorem at_cacheBlock {r : Recorder} {pc : Pc} (hring : Ring r) (hrecording : r.recording = true) (h : At r pc)
    (htail : pc.tail = false) : At (cacheBlock r) pc := by
  have hwriting : Writing r → Writing (cacheBlock r) := by
    rintro ⟨hfinished, hdata, hrest, htotal⟩
    refine ⟨hfinished, hdata.trans ?_, hrest, htotal⟩
    simp only [cacheBlock]
    rw [List.take_append_of_le_length hring.behind]
  cases pc with
  | wait =>
      rcases h with h | h
      · exact .inl (hwriting h)
      · exact absurd (hrecording.symm.trans h.stopped) (by decide)
  | check => exact hwriting h
  | blocks c => exact ⟨hwriting h.1, h.2⟩
  | block c copied =>
      obtain ⟨hw, hc, hlt, hcopied⟩ := h
      refine ⟨hwriting hw, hc, ?_, ?_⟩
      · simp only [cacheBlock, List.length_append, List.length_singleton]
        omega
      · rw [capturedBlock]
        simp only [cacheBlock]
        rw [capturedBlock_append hlt]
        exact hcopied
  | rest c => exact absurd htail Bool.noConfusion
  | fill c slot i => exact absurd htail Bool.noConfusion
  | remaining c slot i copied => exact absurd htail Bool.noConfusion
  | length c => exact absurd htail Bool.noConfusion
  | off c => exact absurd htail Bool.noConfusion

/-! ## A step of a task -/

/-- What a file reads of a part, with more of it. -/
theorem prefix_chunk {part whole : List UInt8} (h : part <+: whole) (n : Nat) :
    part ++ (whole.drop part.length).take n <+: whole := by
  obtain ⟨more, rfl⟩ := h
  rw [List.drop_left]
  exact (List.prefix_append_right_inj part).mpr (List.take_prefix n more)

theorem prefix_whole {part whole : List UInt8} (h : part <+: whole) (hlength : whole.length ≤ part.length) {n : Nat}
    (hn : whole.length ≤ n) : part.take n = whole := by
  rw [h.eq_of_length (Nat.le_antisymm h.length_le hlength), List.take_of_length_le hn]

theorem length_slotBytes (r : Recorder) (slot n : Nat) : (slotBytes r slot n).length = n := by
  rw [slotBytes, List.length_map, List.length_range]

theorem capturedBlock_mem {r : Recorder} {j : Nat} (hj : j < r.captured.length) : capturedBlock r j ∈ r.captured := by
  rw [capturedBlock, List.getD_eq_getElem?_getD, List.getElem?_eq_getElem hj]
  exact List.getElem_mem hj

/-- The next block of the ring that waits is the one that was captured. -/
theorem slotBytes_next {r : Recorder} (h : Ring r) (hlt : r.blocksWritten < r.captured.length) :
    slotBytes r r.blockOut 512 = capturedBlock r r.blocksWritten := by
  have hsize := h.sizes _ (capturedBlock_mem hlt)
  refine List.ext_getElem (by rw [length_slotBytes, hsize]) fun i h1 h2 => ?_
  have hi : i < 512 := by omega
  have hslot := h.slots r.blocksWritten (Nat.le_refl _) hlt i hi
  rw [List.getD_eq_getElem?_getD, List.getElem?_eq_getElem h2] at hslot
  simp only [slotBytes, List.getElem_map, List.getElem_range, h.outPlace]
  exact hslot

theorem flush_overflow («by» : Caller) (after : Pc) (r : Recorder) : (flush «by» after r).2.overflow = r.overflow := by
  rw [flush]
  split <;> rfl

theorem stop_overflow (error : RecErr) (after : Pc) (r : Recorder) : (stop error after r).2.overflow = r.overflow := by
  rw [stop]
  split
  · exact flush_overflow _ _ _
  · rfl

variable {o : Outcome} {r : Recorder}

theorem wait_keeps (hring : Ring r) (h : At r .wait) :
    Ring (taskStep o .wait r).2 ∧ At (taskStep o .wait r).2 (taskStep o .wait r).1 := by
  by_cases hkilled : r.file ∧ ¬o.valid
  · rw [taskStep, if_pos hkilled, stop, if_neg Bool.false_ne_true]
    refine ⟨⟨hring.1, hring.2, hring.3, hring.4, hring.5, hring.6, hring.7⟩, ?_⟩
    rcases h with h | h
    · exact .inl ⟨h.unfinished, h.data, h.rest, h.total⟩
    · exact .inr ⟨h.finished, rfl, rfl, h.data, h.length⟩
  · rw [taskStep, if_neg hkilled]
    refine ⟨⟨hring.1, hring.2, hring.3, hring.4, hring.5, hring.6, hring.7⟩, ?_⟩
    rcases h with h | h
    · have hwriting : Writing { r with errorCode := if o.available then .ok else r.errorCode } :=
        ⟨h.unfinished, h.data, h.rest, h.total⟩
      by_cases hrecording : r.recording = true
      · rw [if_pos hrecording]
        exact hwriting
      · rw [if_neg hrecording]
        exact .inl hwriting
    · rw [if_neg (by rw [h.stopped]; exact Bool.false_ne_true)]
      exact .inr ⟨h.finished, h.stopped, h.closed, h.data, h.length⟩

theorem check_keeps (hring : Ring r) (h : At r .check) (hno : (taskStep o .check r).2.overflow = false) :
    Ring (taskStep o .check r).2 ∧ At (taskStep o .check r).2 (taskStep o .check r).1 := by
  by_cases hover : r.blocksCached ≥ r.blocksWritten + numCacheBlocks
  · rw [taskStep, if_pos hover, stop_overflow] at hno
    exact absurd hno.symm Bool.false_ne_true
  · rw [taskStep, if_neg hover]
    exact ⟨hring, h, by decide⟩

theorem blocks_keeps {c : Caller} (hring : Ring r) (h : At r (.blocks c)) :
    Ring (taskStep o (.blocks c) r).2 ∧ At (taskStep o (.blocks c) r).2 (taskStep o (.blocks c) r).1 := by
  obtain ⟨hw, hc⟩ := h
  have hcached := hring.cached
  have hbehind := hring.behind
  by_cases hmore : r.blocksCached > r.blocksWritten
  · cases hfile : r.file with
    | true =>
        simp only [taskStep, hmore, hfile, if_true]
        exact ⟨hring, hw, hc, by omega, List.nil_prefix⟩
    | false =>
        simp only [taskStep, hmore, hfile, if_true, Bool.false_eq_true, if_false]
        exact ⟨⟨hring.1, hring.2, hring.3, hring.4, hring.5, hring.6, hring.7⟩,
          ⟨hw.unfinished, hw.data, hw.rest, hw.total⟩, hc⟩
  · simp only [taskStep, hmore, if_false]
    refine ⟨hring, ?_⟩
    have hall : r.blocksWritten = r.captured.length := by omega
    cases c with
    | poll => exact .inl hw
    | stop => exact absurd rfl hc
    | finish =>
        refine ⟨⟨hw.unfinished, hall, hw.total⟩, rfl, ?_⟩
        rw [hw.data, hw.rest, hall, List.take_length, List.append_nil]

theorem block_keeps {c : Caller} {copied : List UInt8} (hring : Ring r) (h : At r (.block c copied))
    (hok : (Pc.block c copied).Succeeds o r) :
    Ring (taskStep o (.block c copied) r).2 ∧
      At (taskStep o (.block c copied) r).2 (taskStep o (.block c copied) r).1 := by
  obtain ⟨hw, hc, hlt, hcopied⟩ := h
  have hsize := hring.sizes _ (capturedBlock_mem hlt)
  by_cases hshort : copied.length < 512
  · rw [taskStep, if_pos hshort, slotBytes_next hring hlt]
    exact ⟨hring, hw, hc, hlt, prefix_chunk hcopied o.chunk⟩
  · obtain ⟨hok, hwritten⟩ := hok.resolve_left hshort
    have hwhole : copied.take o.written = capturedBlock r r.blocksWritten :=
      prefix_whole hcopied (by omega) (by omega)
    have hget : r.captured[r.blocksWritten]? = some (capturedBlock r r.blocksWritten) := by
      rw [capturedBlock, List.getD_eq_getElem?_getD, List.getElem?_eq_getElem hlt]
      rfl
    rw [taskStep, if_neg hshort, writeBlock, if_pos hok, hwhole]
    refine ⟨⟨hring.cached, hring.inPlace, ?_, hring.sizes, hlt, ?_, ?_⟩, ⟨hw.unfinished, ?_, hw.rest, ?_⟩, hc⟩
    · simp only [hring.outPlace, wrap_mod]
    · have hroom := hring.room
      simp only
      omega
    · intro j hj hlt i hi
      exact hring.slots j (Nat.le_of_succ_le hj) hlt i hi
    · simp only [hw.data, List.take_add_one, hget, Option.toList_some, List.flatten_append, List.flatten_singleton]
    · simp only [List.length_append, hsize, hw.total]

theorem fill_keeps {c : Caller} {slot i : Nat} (hring : Ring r) (h : At r (.fill c slot i)) :
    Ring (taskStep o (.fill c slot i) r).2 ∧ At (taskStep o (.fill c slot i) r).2 (taskStep o (.fill c slot i) r).1 := by
  obtain ⟨he, hc, rfl, hbytes⟩ := h
  cases hfifo : r.fifo with
  | nil =>
      simp only [taskStep, hfifo]
      exact ⟨hring, he, hc, hbytes, List.nil_prefix⟩
  | cons b fifo =>
      by_cases hi : i < 512
      · simp only [taskStep, hfifo, hi, if_true]
        refine ⟨⟨hring.cached, hring.inPlace, hring.outPlace, hring.sizes, hring.behind, hring.room, ?_⟩,
          ⟨he.unfinished, he.all, he.total⟩, hc, rfl, ?_⟩
        · -- no block waits
          intro j hj hlt
          have hall := he.all
          simp only at hj hlt
          omega
        · have hsame : (List.range i).map (fun j => if j = i then b else r.cacheBlocks r.blockIn j) =
              slotBytes r r.blockIn i := by
            refine List.map_congr_left fun j hj => ?_
            rw [if_neg (Nat.ne_of_lt (List.mem_range.mp hj))]
          simp only [slotBytes, true_and, List.range_succ, List.map_append, List.map_cons, List.map_nil, hsame, if_true]
          rw [← List.append_assoc, hbytes, List.append_assoc]
          rfl
      · simp only [taskStep, hfifo, hi, if_false]
        exact ⟨hring, he, hc, hbytes, List.nil_prefix⟩

theorem remaining_keeps {c : Caller} {slot i : Nat} {copied : List UInt8} (hring : Ring r)
    (h : At r (.remaining c slot i copied)) (hok : (Pc.remaining c slot i copied).Succeeds o r) :
    Ring (taskStep o (.remaining c slot i copied) r).2 ∧
      At (taskStep o (.remaining c slot i copied) r).2 (taskStep o (.remaining c slot i copied) r).1 := by
  obtain ⟨he, hc, hbytes, hcopied⟩ := h
  have hlength := length_slotBytes r slot i
  by_cases hshort : copied.length < i
  · rw [taskStep, if_pos hshort]
    exact ⟨hring, he, hc, hbytes, prefix_chunk hcopied o.chunk⟩
  · have hwritten := hok.resolve_left hshort
    have hwhole : copied.take o.written = slotBytes r slot i := prefix_whole hcopied (by omega) (by omega)
    rw [taskStep, if_neg hshort, hwhole]
    refine ⟨⟨hring.1, hring.2, hring.3, hring.4, hring.5, hring.6, hring.7⟩, ⟨he.unfinished, he.all, ?_⟩, hc, hbytes.symm⟩
    simp only [List.length_append, he.total]

/-- A step of a task leads from where something holds to where something holds, unless an
    overflow is reported. -/
theorem taskStep_keeps {pc : Pc} (hring : Ring r) (h : At r pc) (hok : pc.Succeeds o r)
    (hno : (taskStep o pc r).2.overflow = false) :
    Ring (taskStep o pc r).2 ∧ At (taskStep o pc r).2 (taskStep o pc r).1 := by
  cases pc with
  | wait => exact wait_keeps hring h
  | check => exact check_keeps hring h hno
  | blocks c => exact blocks_keeps hring h
  | block c copied => exact block_keeps hring h hok
  | rest c =>
      obtain ⟨he, hc, hdata⟩ := h
      rw [taskStep]
      by_cases hempty : r.fifo = []
      · rw [if_pos hempty]
        exact ⟨hring, he, hc, hdata⟩
      · rw [if_neg hempty]
        exact ⟨hring, he, hc, rfl, by rw [hdata]; exact (List.append_nil _).symm⟩
  | fill c slot i => exact fill_keeps hring h
  | remaining c slot i copied => exact remaining_keeps hring h hok
  | length c =>
      obtain ⟨he, hc, hdata⟩ := h
      obtain ⟨hok, hsmall⟩ := hok
      refine ⟨⟨hring.1, hring.2, hring.3, hring.4, hring.5, hring.6, hring.7⟩, ⟨he.unfinished, he.all, he.total⟩, hc, rfl, hdata, ?_⟩
      simp only [taskStep, hok, if_true]
      rw [Nat.mod_eq_of_lt hsmall, he.total]
  | off c =>
      obtain ⟨-, rfl, hclosed, hdata, hlength⟩ := h
      exact ⟨⟨hring.1, hring.2, hring.3, hring.4, hring.5, hring.6, hring.7⟩, .inr ⟨rfl, rfl, hclosed, hdata, hlength⟩⟩

/-! ## Runs -/

/-- One of the two tasks is at work at most, and what is to hold there holds. -/
structure Sound (s : System) : Prop where
  ring : Ring s.recorder
  tasks : (At s.recorder s.poll ∧ s.command = .wait) ∨ (s.poll = .wait ∧ s.command ≠ .wait ∧ At s.recorder s.command)

theorem right_of_sound {s : System} (h : Sound s) : Right s.recorder := by
  rcases h.tasks with ⟨hpoll, _⟩ | ⟨_, _, hcommand⟩
  · exact right_of_at hpoll
  · exact right_of_at hcommand

theorem sound_started (cacheBlocks : Nat → Nat → UInt8) (errorCode : RecErr) : Sound (started cacheBlocks errorCode) where
  ring := ⟨rfl, rfl, rfl, nofun, Nat.le_refl _, Nat.zero_le _, fun _ _ hj => absurd hj (Nat.not_lt_zero _)⟩
  tasks := .inl ⟨.inl ⟨rfl, rfl, rfl, rfl⟩, rfl⟩

/-- No task goes by the FIFO or the capture. -/
theorem at_hardware {pc : Pc} {fifo : List UInt8} {enabled : Bool} (h : At r pc) : At { r with fifo, enabled } pc := by
  have hwriting : Writing r → Writing { r with fifo, enabled } := fun h => ⟨h.1, h.2, h.3, h.4⟩
  have hemptied : Emptied r → Emptied { r with fifo, enabled } := fun h => ⟨h.1, h.2, h.3⟩
  cases pc with
  | wait => exact h.imp hwriting fun h => ⟨h.1, h.2, h.3, h.4, h.5⟩
  | check => exact hwriting h
  | blocks c => exact h.imp_left hwriting
  | block c copied => exact h.imp_left hwriting
  | rest c => exact h.imp_left hemptied
  | fill c slot i => exact h.imp_left hemptied
  | remaining c slot i copied => exact h.imp_left hemptied
  | length c => exact h.imp_left hemptied
  | off c => exact h.imp_left hemptied

theorem ring_hardware {fifo : List UInt8} {enabled : Bool} (h : Ring r) : Ring { r with fifo, enabled } :=
  ⟨h.1, h.2, h.3, h.4, h.5, h.6, h.7⟩

/-- What a step of a task does to whether an overflow was reported. -/
theorem taskStep_overflow (o : Outcome) (pc : Pc) (r : Recorder) (h : (taskStep o pc r).2.overflow = false) :
    r.overflow = false := by
  cases pc with
  | wait =>
      rw [taskStep] at h
      split at h
      · rwa [stop_overflow] at h
      · exact h
  | check =>
      rw [taskStep] at h
      split at h
      · rw [stop_overflow] at h
        exact absurd h.symm Bool.false_ne_true
      · exact h
  | blocks c =>
      rw [taskStep] at h
      split at h
      · split at h <;> exact h
      · exact h
  | block c copied =>
      rw [taskStep] at h
      split at h
      · exact h
      · rw [writeBlock] at h
        split at h <;> exact h
  | rest c =>
      rw [taskStep] at h
      split at h <;> exact h
  | fill c slot i =>
      cases hfifo : r.fifo with
      | nil =>
          simp only [taskStep, hfifo] at h
          exact h
      | cons b fifo =>
          simp only [taskStep, hfifo] at h
          split at h <;> exact h
  | remaining c slot i copied =>
      rw [taskStep] at h
      split at h <;> exact h
  | length c => exact h
  | off c => exact h

theorem flush_finish {s : System} (hring : Ring s.recorder) (hpoll : s.poll = .wait) (h : At s.recorder .wait) :
    Sound
      { s with
        command := (flush .finish .wait s.recorder).1
        recorder := (flush .finish .wait s.recorder).2 } := by
  by_cases hfile : s.recorder.file = true
  · rw [flush, if_pos hfile]
    have hwriting : Writing s.recorder := by
      rcases h with h | h
      · exact h
      · exact absurd (hfile.symm.trans h.closed) (by decide)
    exact ⟨hring, .inr ⟨hpoll, by simp only [ne_eq, reduceCtorEq, not_false_eq_true], hwriting, by decide⟩⟩
  · rw [flush, if_neg hfile]
    refine ⟨⟨hring.1, hring.2, hring.3, hring.4, hring.5, hring.6, hring.7⟩, .inl ⟨?_, rfl⟩⟩
    simp only [hpoll]
    rcases h with h | h
    · exact .inl ⟨h.unfinished, h.data, h.rest, h.total⟩
    · exact .inr ⟨h.finished, rfl, h.closed, h.data, h.length⟩

theorem irq_sound {s : System} (h : Sound s) (hm : Meets s .irq) : Sound { s with recorder := irq s.recorder } := by
  obtain ⟨hring, htasks⟩ := h
  by_cases hfires : Fires s.recorder
  · rw [irq, if_pos hfires]
    by_cases hrecording : s.recorder.recording = true
    · obtain ⟨hroom, hpoll, hcommand⟩ := hm hfires hrecording
      rw [if_pos hrecording]
      refine ⟨ring_cacheBlock hring hfires hroom, ?_⟩
      rcases htasks with ⟨hat, hwait⟩ | ⟨hwait, hbusy, hat⟩
      · exact .inl ⟨at_cacheBlock hring hrecording hat hpoll, hwait⟩
      · exact .inr ⟨hwait, hbusy, at_cacheBlock hring hrecording hat hcommand⟩
    · rw [if_neg hrecording]
      exact ⟨ring_hardware hring, htasks.imp (And.imp_left at_hardware) (And.imp_right (And.imp_right at_hardware))⟩
  · rw [irq, if_neg hfires]
    exact ⟨hring, htasks⟩

/-- An event that finds what it needs keeps everything, unless an overflow is reported. -/
theorem step_sound {s : System} {e : Event} (h : Sound s) (hm : Meets s e)
    (hno : (step s e).recorder.overflow = false) : Sound (step s e) := by
  obtain ⟨hring, htasks⟩ := h
  cases e with
  | bytes bs =>
      rw [step]
      split
      · exact ⟨ring_hardware hring, htasks.imp (And.imp_left at_hardware) (And.imp_right (And.imp_right at_hardware))⟩
      · exact ⟨hring, htasks⟩
  | irq => exact irq_sound ⟨hring, htasks⟩ hm
  | poll o =>
      obtain ⟨hcommand, hok⟩ := hm
      have hpoll : At s.recorder s.poll := by
        rcases htasks with h | h
        · exact h.1
        · exact absurd hcommand h.2.1
      obtain ⟨hring, hat⟩ := taskStep_keeps hring hpoll hok hno
      exact ⟨hring, .inl ⟨hat, hcommand⟩⟩
  | finish =>
      have hpoll : s.poll = .wait := hm
      by_cases hcommand : s.command = .wait
      · have hwait : At s.recorder .wait := by
          rcases htasks with h | h
          · exact hpoll ▸ h.1
          · exact absurd hcommand h.2.1
        rw [step, if_pos hcommand]
        exact flush_finish hring hpoll hwait
      · rw [step, if_neg hcommand]
        exact ⟨hring, htasks⟩
  | command o =>
      by_cases hcommand : s.command = .wait
      · rw [step, if_pos hcommand]
        exact ⟨hring, htasks⟩
      · rw [step, if_neg hcommand] at hno ⊢
        obtain ⟨hpoll, hat⟩ : s.poll = .wait ∧ At s.recorder s.command := by
          rcases htasks with h | h
          · exact absurd h.2 hcommand
          · exact ⟨h.1, h.2.2⟩
        obtain ⟨hring, hat⟩ := taskStep_keeps hring hat hm hno
        refine ⟨hring, ?_⟩
        by_cases hdone : (taskStep o s.command s.recorder).1 = .wait
        · rw [hdone] at hat
          exact .inl ⟨hpoll ▸ hat, hdone⟩
        · exact .inr ⟨hpoll, hdone, hat⟩

theorem step_overflow {s : System} {e : Event} (h : (step s e).recorder.overflow = false) :
    s.recorder.overflow = false := by
  cases e with
  | bytes bs =>
      rw [step] at h
      split at h <;> exact h
  | irq =>
      simp only [step, irq] at h
      split at h
      · split at h <;> exact h
      · exact h
  | poll o => exact taskStep_overflow o s.poll s.recorder h
  | finish =>
      rw [step] at h
      split at h
      · rwa [flush_overflow] at h
      · exact h
  | command o =>
      rw [step] at h
      split at h
      · exact h
      · exact taskStep_overflow o s.command s.recorder h

theorem run_sound {s : System} (h : s.recorder.overflow = false → Sound s) {events : List Event}
    (hm : AllMeet s events) (hno : (run s events).recorder.overflow = false) : Sound (run s events) := by
  induction events generalizing s with
  | nil => exact h hno
  | cons e events ih =>
      obtain ⟨he, hevents⟩ := hm
      exact ih (fun hstep => step_sound (h (step_overflow hstep)) he hstep) hevents hno

/-- In every run whose events find what they need the tape file is right. -/
theorem run_right (cacheBlocks : Nat → Nat → UInt8) (errorCode : RecErr) (events : List Event)
    (h : AllMeet (started cacheBlocks errorCode) events) : Right (run (started cacheBlocks errorCode) events).recorder :=
  fun hno => right_of_sound (run_sound (fun _ => sound_started cacheBlocks errorCode) h hno) hno

/-- A write that goes well. -/
def good : Outcome := ⟨true, false, 512, true, 512⟩

/-- A block and three bytes more, written by a `poll` and the end of the recording. -/
def shortTape : List Event :=
  [.bytes (List.replicate 512 1), .irq] ++ List.replicate 6 (.poll good) ++ [.bytes [7, 8, 9], .finish] ++
    List.replicate 11 (.command good)

theorem run_right_shortTape :
    Right (run (started (fun _ _ => 0) .ok) shortTape).recorder ∧
      (run (started (fun _ _ => 0) .ok) shortTape).recorder.finished = true :=
  ⟨run_right (fun _ _ => 0) .ok shortTape (by decide +kernel), by decide +kernel⟩

/-- While the first block is about to be written, the ring is filled behind it. -/
def overrun : List Event :=
  [.bytes (List.replicate 512 0), .irq, .poll good, .poll good, .poll good] ++
    (List.replicate 128 [.bytes (List.replicate 512 1), .irq]).flatten ++ [.poll good, .poll good]

/-- No overflow is reported, and the file begins with the last block that was captured. -/
theorem overrun_unreported :
    ¬Right (run (started (fun _ _ => 0) .ok) overrun).recorder := by
  intro h
  have hdata := (h (by decide +kernel)).1
  revert hdata
  decide +kernel

end TapeRecorder
