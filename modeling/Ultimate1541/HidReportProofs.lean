import Ultimate1541.HidDecoderProofs

/-! # What a report descriptor must not do to its parser

    Most of the parser does not depend on the usages: how many collections are open, the global
    items, and what each main item declares can be followed over the items alone (`Walk`).  The
    parser finds its way to the end (`Safe`) if no FIFO is used behind a collection that is
    closed more often than it is found open, of which no more than eight are counted, and if no
    array runs up to the largest value of an `int`.  It then has the fields that were declared,
    and what is in front of a field adds up to its offset. -/

namespace HidDecoder

/-! ## What depends on the items alone -/

/-- The number of open collections with a FIFO, and what is in force; `none` when there is no
    FIFO left. -/
structure Walk where
  depth : Option Nat
  globals : Globals
  globalsStack : List Globals
  usageMin : UInt32

/-- The report that the global items name. -/
def Globals.reportIndex (g : Globals) : Nat := if g.reportId.toNat > 255 then 255 else g.reportId.toNat

namespace Walk

def start (globalsStack : List Globals) : Walk := ⟨some 0, ⟨0, 0, 0, 0, 0, 0⟩, globalsStack, 0⟩

def next (w : Walk) (t : Token) : Walk :=
  match t.item with
  | .push => if w.globalsStack.length = stackSize then w else { w with globalsStack := w.globals :: w.globalsStack }
  | .pop =>
      match w.globalsStack with
      | [] => w
      | globals :: stack => { w with globals := globals, globalsStack := stack }
  | .reportID => { w with globals := { w.globals with reportId := t.value } }
  | .usagePage => { w with globals := { w.globals with usagePage := t.value } }
  | .logicalMin => { w with globals := { w.globals with logicalMinimum := t.signedValue } }
  | .logicalMax => { w with globals := { w.globals with logicalMaximum := t.signedValue } }
  | .reportSize => { w with globals := { w.globals with reportSize := t.value } }
  | .reportCount => { w with globals := { w.globals with reportCount := t.value } }
  | .usageMin => { w with usageMin := t.value }
  | .collection =>
      { w with depth := w.depth.map (fun d => if d = stackSize then d else d + 1), usageMin := 0 }
  | .endColl =>
      { w with
        depth :=
          match w.depth with
          | some (d + 1) => some d
          | _ => none
        usageMin := 0 }
  | .main _ => { w with usageMin := 0 }
  | .stored | .usage | .usageMax => w

/-- The items that use the FIFO. -/
def uses (w : Walk) (t : Token) : Bool :=
  match t.item with
  | .collection | .usage => true
  | .usageMax => (w.usageMin &&& 0xFFFF).toNat ≤ (t.value &&& 0xFFFF).toNat
  | .main _ =>
      t.value &&& Parser.flagsConstant = 0 ∧ (t.value &&& Parser.flagsVariable = 0 ∨ w.globals.reportCount ≠ 0)
  | _ => false

/-- An array up to the largest value. -/
def endless (w : Walk) (t : Token) : Bool :=
  match t.item with
  | .main _ =>
      t.value &&& Parser.flagsConstant = 0 ∧ t.value &&& Parser.flagsVariable = 0 ∧
        w.globals.logicalMaximum = Int32.maxValue
  | _ => false

/-- The bits of the fields that an item declares for a report. -/
def declares (w : Walk) (t : Token) (type : ReportType) (i : Nat) : List Nat :=
  match t.item with
  | .main declared =>
      if type = declared ∧ i = w.globals.reportIndex then
        if t.value &&& Parser.flagsConstant ≠ 0 then [w.globals.reportCount.toNat * w.globals.reportSize.toNat]
        else if t.value &&& Parser.flagsVariable ≠ 0 then
          List.replicate w.globals.reportCount.toNat w.globals.reportSize.toNat
        else [w.globals.reportSize.toNat * w.globals.reportCount.toNat]
      else []
  | _ => []

/-- The fields of a report, in the order of the items. -/
def declared (w : Walk) : List Token → ReportType → Nat → List Nat
  | [], _, _ => []
  | t :: ts, type, i => w.declares t type i ++ (w.next t).declared ts type i

/-- How many fields the main items declare: at least one, and as many as the report count. -/
def declaredCount (w : Walk) : List Token → Nat
  | [] => 0
  | t :: ts =>
      (match t.item with
        | .main _ => max 1 w.globals.reportCount.toNat
        | _ => 0) + (w.next t).declaredCount ts

/-- No FIFO is used that is not there, and no array is endless. -/
def Safe (w : Walk) : List Token → Prop
  | [] => True
  | t :: ts => ¬ (w.depth = none ∧ w.uses t = true) ∧ w.endless t = false ∧ (w.next t).Safe ts

end Walk

namespace Parser

/-- The part of the parser that depends on the items alone. -/
def walk (p : Parser) : Walk :=
  ⟨p.usageFifo.map fun _ => p.usageFifoStack.length, p.globals, p.globalsStack, p.usageMin⟩

/-- Without a FIFO there is none on the stack. -/
structure Good (p : Parser) : Prop where
  lost : p.usageFifo = none → p.usageFifoStack = []
  room : p.usageFifoStack.length ≤ stackSize

end Parser

/-- The bits of the fields of a report. -/
def HidItemList.sizes (list : HidItemList) (type : ReportType) (i : Nat) : List Nat :=
  match list.reportList type i with
  | none => []
  | some r => r.items.map fun item => (item.length * item.count).toNat

/-! ## The loops -/

namespace Parser

theorem arrayLoop_endless (fuel : Nat) (i : Int32) (f : UsageFifo) :
    arrayLoop fuel i Int32.maxValue f = .error .running := by
  induction fuel generalizing i f with
  | zero => rfl
  | succ fuel ih =>
      have hle : i ≤ Int32.maxValue := Int32.le_iff_toInt_le.mpr i.toInt_le
      rw [arrayLoop, if_pos hle]
      exact ih (i + 1) f.pop.2

/-- Below the largest value, as many turns as there are values are enough. -/
theorem arrayLoop_ends {fuel : Nat} {i logicalMaximum : Int32} (f : UsageFifo)
    (hmax : logicalMaximum ≠ Int32.maxValue) (hpos : 0 < fuel)
    (hfuel : logicalMaximum.toInt - i.toInt + 1 < fuel) :
    ∃ f', arrayLoop fuel i logicalMaximum f = .ok f' := by
  have hlimit : logicalMaximum.toInt < 2 ^ 31 - 1 := by
    have hle := logicalMaximum.toInt_lt
    have hne : logicalMaximum.toInt ≠ 2 ^ 31 - 1 :=
      fun heq => hmax (Int32.toInt_inj.mp (heq.trans Int32.toInt_maxValue.symm))
    omega
  induction fuel generalizing i f with
  | zero => exact absurd hpos (Nat.lt_irrefl 0)
  | succ fuel ih =>
      have hlow := i.le_toInt
      rw [arrayLoop]
      by_cases hle : i ≤ logicalMaximum
      · rw [if_pos hle]
        rw [Int32.le_iff_toInt_le] at hle
        have hnext : (i + 1).toInt = i.toInt + 1 := by
          have hone : (1 : Int32).toInt = 1 := rfl
          rw [Int32.toInt_add, hone, Int.bmod_eq_of_le] <;> omega
        exact ih f.pop.2 (by omega) (by omega)
      · rw [if_neg hle]
        exact ⟨f, rfl⟩

theorem sizes_addItem (p : Parser) (type : ReportType) (item : ReportItem) (t : ReportType) (i : Nat) :
    (p.addItem type item).result.sizes t i =
      p.result.sizes t i ++
        if t = type ∧ i = p.globals.reportIndex then [(item.length * item.count).toNat] else [] := by
  by_cases hkey : t = type ∧ i = p.globals.reportIndex
  · obtain ⟨rfl, rfl⟩ := hkey
    rw [if_pos ⟨rfl, rfl⟩]
    simp only [HidItemList.sizes, addItem, Globals.reportIndex, and_self, if_pos]
    cases p.result.reportList t (if p.globals.reportId.toNat > 255 then 255 else p.globals.reportId.toNat) with
    | none => rfl
    | some r => exact List.map_append
  · rw [if_neg hkey, List.append_nil]
    rw [Globals.reportIndex] at hkey
    simp only [HidItemList.sizes, addItem, if_neg hkey]

theorem size_mod (n m : UInt32) : (n * m).toNat = n.toNat * m.toNat % 2 ^ 32 := UInt32.toNat_mul n m

/-- The fields of a variable item: the rest of the parser stays as it is. -/
theorem variableLoop_ends (type : ReportType) (flags : UInt32) (n : Nat) {p : Parser}
    (hfifo : p.usageFifo.isSome = true ∨ n = 0) :
    ∃ p', variableLoop type flags n p = .ok p' ∧ p'.walk = p.walk ∧
      p'.usageFifoStack = p.usageFifoStack ∧ p'.result.hasReportID = p.result.hasReportID ∧
      ∀ t i, p'.result.sizes t i = p.result.sizes t i ++
        if t = type ∧ i = p.globals.reportIndex then List.replicate n p.globals.reportSize.toNat else [] := by
  induction n generalizing p with
  | zero =>
      refine ⟨p, rfl, rfl, rfl, rfl, fun t i => ?_⟩
      rw [List.replicate_zero, ite_self, List.append_nil]
  | succ n ih =>
      obtain ⟨f, hf⟩ := Option.isSome_iff_exists.mp (hfifo.resolve_right (Nat.succ_ne_zero n))
      rw [variableLoop, hf]
      dsimp only
      generalize hitem : (⟨f.pop.1, flags, p.globals.reportSize, 1, p.globals.logicalMinimum.toUInt32,
        p.globals.logicalMaximum.toUInt32⟩ : ReportItem) = item
      have hsize : (item.length * item.count).toNat = p.globals.reportSize.toNat := by
        rw [← hitem]
        exact congrArg UInt32.toNat (UInt32.mul_one _)
      obtain ⟨p', hloop, hwalk, hstack, hids, hsizes⟩ :=
        ih (p := { p with usageFifo := some f.pop.2 }.addItem type item) (Or.inl rfl)
      refine ⟨p', hloop, hwalk.trans ?_, hstack, hids, fun t i => ?_⟩
      · simp only [walk, hf, addItem, Option.map_some]
      · rw [hsizes, sizes_addItem, hsize, List.append_assoc]
        refine congrArg (p.result.sizes t i ++ ·) ?_
        by_cases hkey : t = type ∧ i = p.globals.reportIndex
        · rw [if_pos hkey]
          exact (congrArg ([p.globals.reportSize.toNat] ++ ·) (if_pos hkey)).trans (if_pos hkey).symm
        · rw [if_neg hkey]
          exact (congrArg ([] ++ ·) (if_neg hkey)).trans (if_neg hkey).symm

/-- What a step leaves behind an item of the walk. -/
structure Stepped (p : Parser) (t : Token) (p' : Parser) : Prop where
  walk : p'.walk = p.walk.next t
  good : p'.Good
  reportID : p'.result.hasReportID = (p.result.hasReportID || decide (t.item = .reportID))
  sizes : ∀ type i, p'.result.sizes type i =
    p.result.sizes type i ++ (p.walk.declares t type i).map (· % 2 ^ 32)

theorem replicate_mod (n : Nat) (size : UInt32) :
    (List.replicate n size.toNat).map (· % 2 ^ 32) = List.replicate n size.toNat := by
  rw [List.map_replicate, Nat.mod_eq_of_lt size.toNat_lt]

theorem iterate_ends {fuel : Nat} (hfuel : 2 ^ 32 < fuel) {p : Parser} {t : Token} {type : ReportType}
    (ht : t.item = .main type) (huses : p.walk.uses t = true → p.usageFifo.isSome = true)
    (hendless : p.walk.endless t = false) :
    ∃ p', p.iterate fuel type t.value = .ok p' ∧ p'.walk = p.walk ∧
      p'.usageFifoStack = p.usageFifoStack ∧ p'.result.hasReportID = p.result.hasReportID ∧
      ∀ ty i, p'.result.sizes ty i = p.result.sizes ty i ++ (p.walk.declares t ty i).map (· % 2 ^ 32) := by
  have hdeclares (fields : List Nat) (ty : ReportType) (i : Nat) :
      (if ty = type ∧ i = p.globals.reportIndex then fields.map (· % 2 ^ 32) else []) =
        (if ty = type ∧ i = p.globals.reportIndex then fields else []).map (· % 2 ^ 32) := by
    split <;> rfl
  simp only [Walk.uses, ht, decide_eq_true_eq] at huses
  simp only [Walk.endless, ht, decide_eq_false_iff_not] at hendless
  simp only [iterate, Walk.declares, ht]
  by_cases hconstant : t.value &&& flagsConstant = 0
  · have hconstant' : ¬ t.value &&& flagsConstant ≠ 0 := fun hne => hne hconstant
    rw [if_neg hconstant']
    by_cases hvariable : t.value &&& flagsVariable = 0
    · have hvariable' : ¬ t.value &&& flagsVariable ≠ 0 := fun hne => hne hvariable
      rw [if_neg hvariable']
      obtain ⟨f, hf⟩ := Option.isSome_iff_exists.mp (huses ⟨hconstant, Or.inl hvariable⟩)
      have hmax : p.globals.logicalMaximum ≠ Int32.maxValue := fun heq => hendless ⟨hconstant, hvariable, heq⟩
      have hturns : p.globals.logicalMaximum.toInt - p.globals.logicalMinimum.toInt + 1 < fuel := by
        have hhigh := p.globals.logicalMaximum.toInt_lt
        have hlow := p.globals.logicalMinimum.le_toInt
        omega
      obtain ⟨f', hloop⟩ := arrayLoop_ends f hmax (by omega) hturns
      rw [hf]
      dsimp only
      rw [hloop]
      refine ⟨_, rfl, ?_, rfl, rfl, fun ty i => ?_⟩
      · simp only [walk, hf, addItem, Option.map_some]
      · refine (sizes_addItem p type _ ty i).trans (congrArg (p.result.sizes ty i ++ ·) ?_)
        rw [if_neg hconstant', if_neg hvariable', size_mod]
        exact hdeclares [_] ty i
    · rw [if_pos hvariable]
      have hfifo : p.usageFifo.isSome = true ∨ p.globals.reportCount.toNat = 0 := by
        by_cases hcount : p.globals.reportCount = 0
        · exact Or.inr (congrArg UInt32.toNat hcount)
        · exact Or.inl (huses ⟨hconstant, Or.inr hcount⟩)
      obtain ⟨p', hloop, hwalk, hstack, hids, hsizes⟩ :=
        variableLoop_ends type t.value p.globals.reportCount.toNat hfifo
      refine ⟨p', hloop, hwalk, hstack, hids, fun ty i => ?_⟩
      rw [hsizes, if_neg hconstant', if_pos hvariable]
      refine congrArg (p.result.sizes ty i ++ ·) ?_
      rw [← replicate_mod]
      exact hdeclares _ ty i
  · rw [if_pos hconstant]
    refine ⟨_, rfl, rfl, rfl, rfl, fun ty i => ?_⟩
    refine (sizes_addItem p type _ ty i).trans (congrArg (p.result.sizes ty i ++ ·) ?_)
    rw [if_pos hconstant]
    refine Eq.trans ?_ (hdeclares [_] ty i)
    have hone : (p.globals.reportCount * p.globals.reportSize * 1).toNat =
        p.globals.reportCount.toNat * p.globals.reportSize.toNat % 2 ^ 32 := by
      rw [UInt32.mul_one, size_mod]
    rw [hone]
    rfl

theorem usageRange_eq_nil (p : Parser) (value : UInt32) :
    p.usageRange value = [] ↔ ¬ (p.usageMin &&& 0xFFFF).toNat ≤ (value &&& 0xFFFF).toNat := by
  rw [usageRange, List.map_eq_nil_iff, List.range'_eq_nil_iff]
  omega

theorem isSome_of_uses {p : Parser} {t : Token} (h : ¬ (p.walk.depth = none ∧ p.walk.uses t = true))
    (huses : p.walk.uses t = true) : p.usageFifo.isSome = true := by
  cases hf : p.usageFifo with
  | some f => rfl
  | none => exact absurd ⟨by simp only [walk, hf, Option.map_none], huses⟩ h

/-- The items that are no main items declare nothing. -/
theorem declares_other {w : Walk} {t : Token} (h : ∀ type, t.item ≠ .main type) (type : ReportType) (i : Nat) :
    w.declares t type i = [] := by
  rw [Walk.declares]
  split
  next declared heq => exact absurd heq (h declared)
  · rfl

/-- A step that neither declares a field nor touches the FIFOs. -/
theorem Stepped.of_globals {p p' : Parser} {t : Token} (hgood : p.Good) (hwalk : p'.walk = p.walk.next t)
    (hfifo : p'.usageFifo = p.usageFifo) (hstack : p'.usageFifoStack = p.usageFifoStack)
    (hlist : p'.result.reportList = p.result.reportList)
    (hids : p'.result.hasReportID = (p.result.hasReportID || decide (t.item = .reportID)))
    (hitem : ∀ type, t.item ≠ .main type) : Stepped p t p' where
  walk := hwalk
  good := ⟨fun hnone => hstack.trans (hgood.lost (hfifo.symm.trans hnone)), hstack.symm ▸ hgood.room⟩
  reportID := hids
  sizes type i := by
    rw [declares_other hitem, List.map_nil, List.append_nil, HidItemList.sizes, HidItemList.sizes, hlist]

/-- A step of the parser, unless it uses a FIFO that is not there or does not end. -/
theorem step_ends {fuel : Nat} (hfuel : 2 ^ 32 < fuel) {p : Parser} (hgood : p.Good) {t : Token}
    (huse : ¬ (p.walk.depth = none ∧ p.walk.uses t = true)) (hendless : p.walk.endless t = false) :
    ∃ p', p.step fuel t = .ok p' ∧ Stepped p t p' := by
  have hids : p.result.hasReportID = (p.result.hasReportID || false) := (Bool.or_false _).symm
  have hsame (type : ReportType) (i : Nat) :
      p.result.sizes type i = p.result.sizes type i ++ ([] : List Nat).map (· % 2 ^ 32) :=
    (List.append_nil _).symm
  obtain ⟨item, value, signedValue⟩ := t
  cases item with
  | push =>
      refine ⟨_, rfl, ?_⟩
      by_cases hfull : p.globalsStack.length = stackSize
      · rw [if_pos hfull]
        exact .of_globals hgood (if_pos hfull).symm rfl rfl rfl hids (fun _ => nofun)
      · rw [if_neg hfull]
        exact .of_globals hgood (if_neg hfull).symm rfl rfl rfl hids (fun _ => nofun)
  | pop =>
      cases hstack : p.globalsStack with
      | nil =>
          refine ⟨p, ?_, .of_globals hgood ?_ rfl rfl rfl hids (fun _ => nofun)⟩
          · simp only [step, hstack]
          · simp only [Walk.next, walk, hstack]
      | cons globals stack =>
          refine ⟨{ p with globals := globals, globalsStack := stack }, ?_,
            .of_globals hgood ?_ rfl rfl rfl hids (fun _ => nofun)⟩
          · simp only [step, hstack]
          · simp only [Walk.next, walk, hstack]
  | reportID => exact ⟨_, rfl, .of_globals hgood rfl rfl rfl rfl (Bool.or_true _).symm (fun _ => nofun)⟩
  | usagePage => exact ⟨_, rfl, .of_globals hgood rfl rfl rfl rfl hids (fun _ => nofun)⟩
  | logicalMin => exact ⟨_, rfl, .of_globals hgood rfl rfl rfl rfl hids (fun _ => nofun)⟩
  | logicalMax => exact ⟨_, rfl, .of_globals hgood rfl rfl rfl rfl hids (fun _ => nofun)⟩
  | reportSize => exact ⟨_, rfl, .of_globals hgood rfl rfl rfl rfl hids (fun _ => nofun)⟩
  | reportCount => exact ⟨_, rfl, .of_globals hgood rfl rfl rfl rfl hids (fun _ => nofun)⟩
  | usageMin => exact ⟨_, rfl, .of_globals hgood rfl rfl rfl rfl hids (fun _ => nofun)⟩
  | stored => exact ⟨_, rfl, .of_globals hgood rfl rfl rfl rfl hids (fun _ => nofun)⟩
  | collection =>
      obtain ⟨f, hf⟩ := Option.isSome_iff_exists.mp (isSome_of_uses huse rfl)
      have hroom := hgood.room
      by_cases hfull : p.usageFifoStack.length = stackSize
      · refine ⟨{ p with
            usageFifo := some .empty
            applicationUsage := if value = 1 then f.pop.1 else p.applicationUsage
            usageMin := 0 }, by simp only [step, hf, if_pos hfull], ?_, ⟨nofun, hroom⟩, hids, hsame⟩
        simp only [Walk.next, walk, hf, Option.map_some, if_pos hfull]
      · refine ⟨{ p with
            usageFifoStack := f.pop.2 :: p.usageFifoStack
            usageFifo := some .empty
            applicationUsage := if value = 1 then f.pop.1 else p.applicationUsage
            usageMin := 0 }, by simp only [step, hf, if_neg hfull], ?_, ⟨nofun, ?_⟩, hids, hsame⟩
        · simp only [Walk.next, walk, hf, Option.map_some, if_neg hfull, List.length_cons]
        · change (f.pop.2 :: p.usageFifoStack).length ≤ stackSize
          rw [List.length_cons]
          omega
  | endColl =>
      refine ⟨_, rfl, ?_, ⟨fun hnone => ?_, ?_⟩, hids, hsame⟩
      · simp only [Walk.next, walk]
        cases hf : p.usageFifo with
        | none =>
            rw [hgood.lost hf]
            rfl
        | some f => cases p.usageFifoStack <;> rfl
      · have hempty : p.usageFifoStack = [] := List.head?_eq_none_iff.mp hnone
        exact congrArg List.tail hempty
      · have hroom := hgood.room
        change p.usageFifoStack.tail.length ≤ stackSize
        rw [List.length_tail]
        omega
  | main type =>
      obtain ⟨p', hiterate, hwalk, hstack, hreport, hsizes⟩ :=
        iterate_ends hfuel rfl (fun huses => isSome_of_uses huse huses) hendless
      refine ⟨{ p' with usageMin := 0 }, by simp only [step, hiterate], ?_, ⟨fun hnone => ?_, ?_⟩,
        hreport.trans hids, hsizes⟩
      · have hparts := Walk.mk.inj hwalk
        simp only [Walk.next, walk, hparts.1, hparts.2.1, hparts.2.2.1]
      · refine hstack.trans (hgood.lost ?_)
        have hdepth := (Walk.mk.inj hwalk).1
        have hlost : p'.usageFifo = none := hnone
        rw [hlost, Option.map_none] at hdepth
        exact Option.map_eq_none_iff.mp hdepth.symm
      · exact hstack.symm ▸ hgood.room
  | usage =>
      obtain ⟨f, hf⟩ := Option.isSome_iff_exists.mp (isSome_of_uses huse rfl)
      refine ⟨{ p with usageFifo := some (f.push ((p.globals.usagePage <<< 16) ||| value)) },
        by simp only [step, hf], ?_, ⟨nofun, hgood.room⟩, hids, hsame⟩
      simp only [Walk.next, walk, hf, Option.map_some]
  | usageMax =>
      by_cases hrange : p.usageRange value = []
      · exact ⟨p, by simp only [step, if_pos hrange], .of_globals hgood rfl rfl rfl rfl hids (fun _ => nofun)⟩
      · have hle : (p.usageMin &&& 0xFFFF).toNat ≤ (value &&& 0xFFFF).toNat :=
          Classical.not_not.mp fun hgt => hrange ((usageRange_eq_nil p value).mpr hgt)
        obtain ⟨f, hf⟩ := Option.isSome_iff_exists.mp (isSome_of_uses huse (decide_eq_true hle))
        refine ⟨{ p with usageFifo := some ((p.usageRange value).foldl UsageFifo.push f) },
          by simp only [step, if_neg hrange, hf], ?_, ⟨nofun, hgood.room⟩, hids, hsame⟩
        simp only [Walk.next, walk, hf, Option.map_some]

/-- The steps that do not come to an end. -/
theorem step_stops (fuel : Nat) {p : Parser} {t : Token}
    (h : p.walk.depth = none ∧ p.walk.uses t = true ∨ p.walk.endless t = true) :
    ∃ stop, p.step fuel t = .error stop := by
  obtain ⟨item, value, signedValue⟩ := t
  rcases h with ⟨hlost, huses⟩ | hendless
  · have hf : p.usageFifo = none := Option.map_eq_none_iff.mp hlost
    cases item with
    | collection => exact ⟨_, by simp only [step, hf]; rfl⟩
    | usage => exact ⟨_, by simp only [step, hf]; rfl⟩
    | usageMax =>
        have hrange : p.usageRange value ≠ [] :=
          fun hnil => (usageRange_eq_nil p value).mp hnil (of_decide_eq_true huses)
        exact ⟨_, by simp only [step, if_neg hrange, hf]; rfl⟩
    | main type =>
        obtain ⟨hconstant, hfields⟩ : value &&& flagsConstant = 0 ∧
            (value &&& flagsVariable = 0 ∨ p.globals.reportCount ≠ 0) := of_decide_eq_true huses
        have hiterate : p.iterate fuel type value = .error .missingFifo := by
          rw [iterate, if_neg (fun hne => hne hconstant)]
          by_cases hvariable : value &&& flagsVariable = 0
          · rw [if_neg (fun hne => hne hvariable), hf]
          · rw [if_pos hvariable]
            have hcount : p.globals.reportCount.toNat ≠ 0 := fun hzero =>
              (hfields.resolve_left hvariable) (UInt32.toNat_inj.mp hzero)
            obtain ⟨n, hn⟩ := Nat.exists_eq_succ_of_ne_zero hcount
            rw [hn, variableLoop, hf]
        exact ⟨_, by simp only [step, hiterate]; rfl⟩
    | _ => exact nomatch huses
  · cases item with
    | main type =>
        obtain ⟨hconstant, hvariable, hmax⟩ : value &&& flagsConstant = 0 ∧ value &&& flagsVariable = 0 ∧
            p.globals.logicalMaximum = Int32.maxValue := of_decide_eq_true hendless
        have hiterate : ∃ stop, p.iterate fuel type value = .error stop := by
          rw [iterate, if_neg (fun hne => hne hconstant), if_neg (fun hne => hne hvariable), hmax]
          cases p.usageFifo with
          | none => exact ⟨_, rfl⟩
          | some f =>
              dsimp only
              rw [arrayLoop_endless]
              exact ⟨_, rfl⟩
        obtain ⟨stop, hstop⟩ := hiterate
        exact ⟨stop, by simp only [step, hstop]⟩
    | _ => exact nomatch hendless

end Parser

/-! ## A whole descriptor -/

/-- The items of a descriptor, up to one that is cut off or not known. -/
def tokens : Nat → List UInt8 → List Token
  | 0, _ => []
  | _ + 1, [] => []
  | n + 1, cmd :: rest =>
      if sizeBytes cmd > rest.length then []
      else
        match itemOf cmd with
        | none => []
        | some item =>
            let bytes := rest.take (sizeBytes cmd)
            ⟨item, UInt32.ofNat (getValue bytes), getSigned bytes⟩ :: tokens n (rest.drop (sizeBytes cmd))

namespace Parser

/-- What the parser has when it comes to the end. -/
structure Ended (p : Parser) (ts : List Token) (p' : Parser) : Prop where
  reportID : p'.result.hasReportID = (p.result.hasReportID || ts.any fun t => t.item = .reportID)
  sizes : ∀ type i, p'.result.sizes type i =
    p.result.sizes type i ++ (p.walk.declared ts type i).map (· % 2 ^ 32)

theorem Ended.nil (p : Parser) : Ended p [] p where
  reportID := (Bool.or_false _).symm
  sizes _ _ := (List.append_nil _).symm

theorem Ended.cons {p p' p'' : Parser} {t : Token} {ts : List Token} (h : Stepped p t p') (h' : Ended p' ts p'') :
    Ended p (t :: ts) p'' where
  reportID := by
    rw [h'.reportID, h.reportID, Bool.or_assoc]
    rfl
  sizes type i := by
    rw [h'.sizes, h.sizes, h.walk, List.append_assoc, ← List.map_append]
    rfl

theorem loop_ends {fuel : Nat} (hfuel : 2 ^ 32 < fuel) (n : Nat) {p : Parser} {bytes : List UInt8}
    (hgood : p.Good) (hsafe : p.walk.Safe (tokens n bytes)) :
    ∃ code p', p.decodeLoop fuel n bytes = .ok (code, p') ∧ Ended p (tokens n bytes) p' := by
  induction n generalizing p bytes with
  | zero => exact ⟨0, p, rfl, .nil p⟩
  | succ n ih =>
      cases bytes with
      | nil => exact ⟨0, p, rfl, .nil p⟩
      | cons cmd rest =>
          rw [decodeLoop, tokens]
          rw [tokens] at hsafe
          by_cases hcut : sizeBytes cmd > rest.length
          · rw [if_pos hcut, if_pos hcut]
            exact ⟨-1, p, rfl, .nil p⟩
          · rw [if_neg hcut] at hsafe ⊢
            rw [if_neg hcut]
            cases hitem : itemOf cmd with
            | none => exact ⟨-1, p, rfl, .nil p⟩
            | some item =>
                rw [hitem] at hsafe
                obtain ⟨huse, hendless, hrest⟩ := hsafe
                obtain ⟨p₁, hstep, hstepped⟩ := step_ends hfuel hgood huse hendless
                rw [← hstepped.walk] at hrest
                obtain ⟨code, p', hloop, hended⟩ := ih hstepped.good hrest
                refine ⟨code, p', ?_, .cons hstepped hended⟩
                dsimp only
                rw [hstep]
                exact hloop

/-- More turns change nothing. -/
theorem arrayLoop_mono {fuel fuel' : Nat} (hle : fuel ≤ fuel') {i logicalMaximum : Int32} {f f' : UsageFifo}
    (h : arrayLoop fuel i logicalMaximum f = .ok f') : arrayLoop fuel' i logicalMaximum f = .ok f' := by
  induction fuel generalizing fuel' i f with
  | zero => exact nomatch h
  | succ fuel ih =>
      obtain ⟨more, rfl⟩ := Nat.exists_eq_add_of_le hle
      rw [Nat.add_right_comm]
      rw [arrayLoop] at h ⊢
      by_cases hi : i ≤ logicalMaximum
      · rw [if_pos hi] at h ⊢
        exact ih (Nat.le_add_right fuel more) h
      · rw [if_neg hi] at h ⊢
        exact h

theorem step_mono {fuel fuel' : Nat} (hle : fuel ≤ fuel') {t : Token} {p p' : Parser}
    (h : p.step fuel t = .ok p') : p.step fuel' t = .ok p' := by
  obtain ⟨item, value, signedValue⟩ := t
  cases item with
  | main type =>
      have hiterate : ∀ q, p.iterate fuel type value = .ok q → p.iterate fuel' type value = .ok q := by
        intro q hq
        rw [iterate] at hq ⊢
        by_cases hconstant : value &&& flagsConstant ≠ 0
        · rw [if_pos hconstant] at hq ⊢
          exact hq
        by_cases hvariable : value &&& flagsVariable ≠ 0
        · rw [if_neg hconstant, if_pos hvariable] at hq ⊢
          exact hq
        rw [if_neg hconstant, if_neg hvariable] at hq ⊢
        cases hf : p.usageFifo with
        | none =>
            rw [hf] at hq
            exact nomatch hq
        | some f =>
            rw [hf] at hq
            dsimp only at hq ⊢
            cases hloop : arrayLoop fuel p.globals.logicalMinimum p.globals.logicalMaximum f with
            | error stop =>
                rw [hloop] at hq
                exact nomatch hq
            | ok f' =>
                rw [hloop] at hq
                rw [arrayLoop_mono hle hloop]
                exact hq
      simp only [step] at h ⊢
      cases hq : p.iterate fuel type value with
      | error stop =>
          rw [hq] at h
          exact nomatch h
      | ok q =>
          rw [hq] at h
          rw [hiterate q hq]
          exact h
  | _ => exact h

theorem loop_mono {fuel fuel' : Nat} (hle : fuel ≤ fuel') (n : Nat) {p : Parser} {bytes : List UInt8}
    {r : Int × Parser} (h : p.decodeLoop fuel n bytes = .ok r) : p.decodeLoop fuel' n bytes = .ok r := by
  induction n generalizing p bytes with
  | zero => exact h
  | succ n ih =>
      cases bytes with
      | nil => exact h
      | cons cmd rest =>
          rw [decodeLoop] at h ⊢
          by_cases hcut : sizeBytes cmd > rest.length
          · rw [if_pos hcut] at h ⊢
            exact h
          · rw [if_neg hcut] at h ⊢
            cases hitem : itemOf cmd with
            | none =>
                rw [hitem] at h
                exact h
            | some item =>
                rw [hitem] at h
                dsimp only at h ⊢
                generalize (⟨item, UInt32.ofNat (getValue (rest.take (sizeBytes cmd))),
                  getSigned (rest.take (sizeBytes cmd))⟩ : Token) = t at h ⊢
                cases hstep : p.step fuel t with
                | error stop =>
                    rw [hstep] at h
                    exact nomatch h
                | ok q =>
                    rw [hstep] at h
                    rw [step_mono hle hstep]
                    exact ih h

/-- Where the items are not safe, there is no result, however many turns there are. -/
theorem loop_stops {fuel : Nat} (hfuel : 2 ^ 32 < fuel) (n : Nat) {p : Parser} {bytes : List UInt8}
    (hgood : p.Good) (hbad : ¬ p.walk.Safe (tokens n bytes)) :
    ∃ stop, p.decodeLoop fuel n bytes = .error stop := by
  induction n generalizing p bytes with
  | zero => exact absurd trivial hbad
  | succ n ih =>
      cases bytes with
      | nil => exact absurd trivial hbad
      | cons cmd rest =>
          rw [decodeLoop]
          rw [tokens] at hbad
          by_cases hcut : sizeBytes cmd > rest.length
          · rw [if_pos hcut] at hbad
            exact absurd trivial hbad
          · rw [if_neg hcut] at hbad ⊢
            cases hitem : itemOf cmd with
            | none =>
                rw [hitem] at hbad
                exact absurd trivial hbad
            | some item =>
                rw [hitem] at hbad
                dsimp only at hbad ⊢
                generalize (⟨item, UInt32.ofNat (getValue (rest.take (sizeBytes cmd))),
                  getSigned (rest.take (sizeBytes cmd))⟩ : Token) = t at hbad ⊢
                by_cases hstops : p.walk.depth = none ∧ p.walk.uses t = true ∨ p.walk.endless t = true
                · obtain ⟨stop, hstop⟩ := step_stops fuel hstops
                  rw [hstop]
                  exact ⟨stop, rfl⟩
                · rw [not_or, Bool.not_eq_true] at hstops
                  obtain ⟨p₁, hstep, hstepped⟩ := step_ends hfuel hgood hstops.1 hstops.2
                  rw [hstep]
                  refine ih hstepped.good fun hrest => hbad ⟨hstops.1, hstops.2, ?_⟩
                  exact hstepped.walk ▸ hrest

end Parser

/-! ## The offsets -/

/-- What is found: an item, with the bits in front of it. -/
theorem itemLoop_some {report id : UInt32} {items : List ReportItem} {offset : Int} {loc : ItemLocation}
    (hoffset : 0 ≤ offset) (h : itemLoop report id items offset = some loc)
    (hsmall : offset + (items.map fun item => (item.length * item.count).toNat).sum < 2 ^ 31) :
    ∃ (t : Nat) (item : ReportItem), items[t]? = some item ∧ item.usage = id ∧
      loc = item.location report
        (offset + ((items.map fun item => (item.length * item.count).toNat).take t).sum) := by
  induction items generalizing offset with
  | nil => exact nomatch h
  | cons item items ih =>
      rw [itemLoop] at h
      by_cases husage : item.usage = id
      · rw [if_pos husage] at h
        refine ⟨0, item, rfl, husage, ?_⟩
        rw [List.take_zero, List.sum_nil]
        exact (Option.some.inj h).symm.trans (congrArg (item.location report) (Int.add_zero offset).symm)
      · rw [if_neg husage] at h
        rw [List.map_cons, List.sum_cons] at hsmall
        have hnext : toInt32 (offset + (item.length * item.count).toNat) =
            offset + (item.length * item.count).toNat := by
          rw [toInt32, Int.bmod_eq_of_le] <;> omega
        rw [hnext] at h
        obtain ⟨t, found, hfound, hid, hloc⟩ := ih (by omega) h (by omega)
        refine ⟨t + 1, found, hfound, hid, hloc.trans (congrArg (found.location report) ?_)⟩
        rw [List.map_cons, List.take_succ_cons, List.sum_cons]
        omega

theorem reportLoop_some {list : HidItemList} {appl id : UInt32} {places : List Nat} {loc : ItemLocation}
    (h : reportLoop list appl id places = some loc) :
    ∃ i ∈ places, ∃ r, list.reportList .input i = some r ∧ r.applicationUsage = appl ∧
      itemLoop r.reportId id r.items (if list.hasReportID then 8 else 0) = some loc := by
  induction places with
  | nil => exact nomatch h
  | cons i places ih =>
      have hrest : reportLoop list appl id places = some loc →
          ∃ i' ∈ i :: places, ∃ r, list.reportList .input i' = some r ∧ r.applicationUsage = appl ∧
            itemLoop r.reportId id r.items (if list.hasReportID then 8 else 0) = some loc := by
        intro hloop
        obtain ⟨i', hi', hfound⟩ := ih hloop
        exact ⟨i', List.mem_cons_of_mem i hi', hfound⟩
      rw [reportLoop] at h
      cases hr : list.reportList .input i with
      | none =>
          rw [hr] at h
          exact hrest h
      | some r =>
          rw [hr] at h
          dsimp only at h
          by_cases happl : r.applicationUsage = appl
          · rw [if_neg (fun hne => hne happl)] at h
            cases hitems : itemLoop r.reportId id r.items (if list.hasReportID then 8 else 0) with
            | none =>
                rw [hitems] at h
                exact hrest h
            | some found =>
                rw [hitems] at h
                obtain rfl := Option.some.inj h
                exact ⟨i, List.mem_cons_self, r, hr, happl, hitems⟩
          · rw [if_pos happl] at h
            exact hrest h

/-! ## The number of the items -/

/-- The items of all reports. -/
def HidItemList.itemCount (list : HidItemList) : Nat :=
  (Finset.range 256).sum fun i =>
    (list.sizes .input i).length + (list.sizes .output i).length + (list.sizes .feature i).length

theorem reportIndex_lt (g : Globals) : g.reportIndex < 256 := by
  rw [Globals.reportIndex]
  split <;> omega

namespace Walk

/-- The fields that an item declares, over all reports. -/
theorem declares_sum (w : Walk) (t : Token) :
    ((Finset.range 256).sum fun i => (w.declares t .input i).length + (w.declares t .output i).length +
      (w.declares t .feature i).length) ≤
      match t.item with
        | .main _ => max 1 w.globals.reportCount.toNat
        | _ => 0 := by
  obtain ⟨item, value, signedValue⟩ := t
  cases item with
  | main type =>
      generalize hfields : (if value &&& Parser.flagsConstant ≠ 0 then
          [w.globals.reportCount.toNat * w.globals.reportSize.toNat]
        else if value &&& Parser.flagsVariable ≠ 0 then
          List.replicate w.globals.reportCount.toNat w.globals.reportSize.toNat
        else [w.globals.reportSize.toNat * w.globals.reportCount.toNat]) = fields
      have hlength : fields.length ≤ max 1 w.globals.reportCount.toNat := by
        rw [← hfields]
        split
        · exact Nat.le_max_left _ _
        · split
          · rw [List.length_replicate]
            exact Nat.le_max_right _ _
          · exact Nat.le_max_left _ _
      have hdeclares (ty : ReportType) (i : Nat) :
          (w.declares ⟨.main type, value, signedValue⟩ ty i).length =
            if ty = type ∧ i = w.globals.reportIndex then fields.length else 0 := by
        simp only [Walk.declares, hfields]
        split <;> rfl
      have hone (i : Nat) :
          (w.declares ⟨.main type, value, signedValue⟩ .input i).length +
            (w.declares ⟨.main type, value, signedValue⟩ .output i).length +
            (w.declares ⟨.main type, value, signedValue⟩ .feature i).length =
            if i = w.globals.reportIndex then fields.length else 0 := by
        rw [hdeclares, hdeclares, hdeclares]
        cases type <;> simp
      rw [Finset.sum_congr rfl fun i _ => hone i, Finset.sum_ite_eq', if_pos
        (Finset.mem_range.mpr (reportIndex_lt w.globals))]
      exact hlength
  | _ => exact Nat.le_of_eq (Finset.sum_const_zero)

theorem declared_sum (w : Walk) (ts : List Token) :
    ((Finset.range 256).sum fun i => (w.declared ts .input i).length + (w.declared ts .output i).length +
      (w.declared ts .feature i).length) ≤ w.declaredCount ts := by
  induction ts generalizing w with
  | nil => exact Nat.le_of_eq (Finset.sum_const_zero)
  | cons t ts ih =>
      have hsplit (i : Nat) :
          (w.declared (t :: ts) .input i).length + (w.declared (t :: ts) .output i).length +
            (w.declared (t :: ts) .feature i).length =
          ((w.declares t .input i).length + (w.declares t .output i).length + (w.declares t .feature i).length) +
            (((w.next t).declared ts .input i).length + ((w.next t).declared ts .output i).length +
              ((w.next t).declared ts .feature i).length) := by
        simp only [declared, List.length_append]
        omega
      rw [Finset.sum_congr rfl fun i _ => hsplit i, Finset.sum_add_distrib]
      exact Nat.add_le_add (w.declares_sum t) (ih (w.next t))

/-- Each input report has less than 2^31 bits, an `int`'s worth. -/
def Small (w : Walk) (ts : List Token) : Prop := ∀ i, 8 + (w.declared ts .input i).sum < 2 ^ 31

end Walk

/-! ## What the parser promises -/

/-- The items of a descriptor. -/
def itemsOf (descriptor : List UInt8) : List Token := tokens descriptor.length descriptor

/-- The parser comes to the end; it has no more items than were declared, and the offset of an
    item that is found is the sum of the bits in front of it in its report, and eight more when
    report ids are used. -/
def Decodes (globalsStack : List Globals) (descriptor : List UInt8) : Prop :=
  ∃ fuel code p, decode fuel globalsStack descriptor = .ok (code, p) ∧
    p.result.itemCount ≤ (Walk.start globalsStack).declaredCount (itemsOf descriptor) ∧
    ∀ appl id loc, p.result.getInputItem appl id = some loc →
      ∃ (i t : Nat) (r : HidReport) (item : ReportItem), p.result.reportList .input i = some r ∧
        r.applicationUsage = appl ∧ r.items[t]? = some item ∧ item.usage = id ∧
        loc = item.location r.reportId
          ((if (itemsOf descriptor).any fun t => t.item = .reportID then 8 else 0) +
            (((Walk.start globalsStack).declared (itemsOf descriptor) .input i).take t).sum)

theorem init_good (globalsStack : List Globals) : (Parser.init globalsStack).Good :=
  ⟨nofun, Nat.zero_le _⟩

theorem map_mod_of_small {fields : List Nat} (h : fields.sum < 2 ^ 32) : fields.map (· % 2 ^ 32) = fields := by
  induction fields with
  | nil => rfl
  | cons n fields ih =>
      rw [List.sum_cons] at h
      rw [List.map_cons, ih (by omega), Nat.mod_eq_of_lt (by omega)]

end HidDecoder
