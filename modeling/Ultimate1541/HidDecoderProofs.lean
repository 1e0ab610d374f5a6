import Mathlib

/-! # The parser of HID report descriptors

    A USB device describes its reports as a list of short items.  `hid_decoder.h` keeps the
    global items, the usages of the open collection in a FIFO, and on two stacks of eight
    places what is pushed and the FIFOs of the collections around it; each main item appends
    fields to one of its reports, and `getInputItem` adds up their bits.

    Two things can stop the parser for good, and both are kept apart from its result (`Stop`):
    a pointer to a FIFO that is not there, and the loop over the values of an array, of which
    the model counts the turns. -/

namespace HidDecoder

/-- `t_globals`, with what the parser reads again. -/
structure Globals where
  usagePage : UInt32
  logicalMinimum : Int32
  logicalMaximum : Int32
  reportSize : UInt32
  reportId : UInt32
  reportCount : UInt32
deriving DecidableEq

/-- `t_reportItem`. -/
structure ReportItem where
  usage : UInt32
  flags : UInt32
  length : UInt32
  count : UInt32
  min : UInt32
  max : UInt32

/-- `HidReport`. -/
structure HidReport where
  applicationUsage : UInt32
  reportId : UInt32
  items : List ReportItem

inductive ReportType where
  | input
  | output
  | feature
deriving DecidableEq

/-- `HidItemList`, with its three lists of 256 reports. -/
structure HidItemList where
  hasReportID : Bool
  reportList : ReportType → Nat → Option HidReport

/-- `reset`. -/
def HidItemList.reset : HidItemList := ⟨false, fun _ _ => none⟩

/-- `t_item_location`. -/
structure ItemLocation where
  report : UInt8
  offset : Int
  length : Int
  count : Int
  min : Int
  max : Int
  flags : UInt8
deriving DecidableEq

/-- `(int)n`. -/
def toInt32 (n : Int) : Int := n.bmod (2 ^ 32)

/-- What is told of an item of a report. -/
def ReportItem.location (item : ReportItem) (report : UInt32) (offset : Int) : ItemLocation :=
  { report := report.toUInt8
    offset := offset
    length := toInt32 item.length.toNat
    count := toInt32 item.count.toNat
    min := toInt32 item.min.toNat
    max := toInt32 item.max.toNat
    flags := item.flags.toUInt8 }

/-- The loop over the items of a report. -/
def itemLoop (report : UInt32) (id : UInt32) : List ReportItem → Int → Option ItemLocation
  | [], _ => none
  | item :: items, offset =>
      if item.usage = id then some (item.location report offset)
      else itemLoop report id items (toInt32 (offset + (item.length * item.count).toNat))

/-- The loop over the reports, from a place on. -/
def reportLoop (list : HidItemList) (appl id : UInt32) : List Nat → Option ItemLocation
  | [] => none
  | i :: places =>
      match list.reportList .input i with
      | none => reportLoop list appl id places
      | some r =>
          if r.applicationUsage ≠ appl then reportLoop list appl id places
          else
            match itemLoop r.reportId id r.items (if list.hasReportID then 8 else 0) with
            | some loc => some loc
            | none => reportLoop list appl id places

def HidItemList.getInputItem (list : HidItemList) (appl id : UInt32) : Option ItemLocation :=
  reportLoop list appl id (List.range 256)

/-! ## Usages -/

/-- `UsageFifo`. -/
structure UsageFifo where
  fifo : List UInt32
  lastUsage : UInt32

namespace UsageFifo

def empty : UsageFifo := ⟨[], 0⟩

def pop (f : UsageFifo) : UInt32 × UsageFifo :=
  match f.fifo with
  | [] => (f.lastUsage, f)
  | usage :: usages => (usage, ⟨usages, usage⟩)

def push (f : UsageFifo) (value : UInt32) : UsageFifo :=
  if f.fifo.length = 256 then f else { f with fifo := f.fifo ++ [value] }

def head (f : UsageFifo) : UInt32 := f.fifo.headD f.lastUsage

end UsageFifo

/-! ## Items -/

/-- What `cmd & ITEM_MASK` names; `stored` is for the items whose values nothing reads. -/
inductive Item where
  | push
  | pop
  | reportID
  | usagePage
  | logicalMin
  | logicalMax
  | reportSize
  | reportCount
  | usageMin
  | stored
  | collection
  | endColl
  | main (type : ReportType)
  | usage
  | usageMax
deriving DecidableEq

/-- The cases of the switch. -/
def itemOf (cmd : UInt8) : Option Item :=
  match (cmd &&& 0xFC).toNat with
  | 0x80 => some (.main .input)
  | 0x90 => some (.main .output)
  | 0xB0 => some (.main .feature)
  | 0xA0 => some .collection
  | 0xC0 => some .endColl
  | 0x04 => some .usagePage
  | 0x14 => some .logicalMin
  | 0x24 => some .logicalMax
  | 0x34 | 0x44 | 0x54 | 0x64 => some .stored
  | 0x74 => some .reportSize
  | 0x84 => some .reportID
  | 0x94 => some .reportCount
  | 0xA4 => some .push
  | 0xB4 => some .pop
  | 0x08 => some .usage
  | 0x18 => some .usageMin
  | 0x28 => some .usageMax
  | 0x38 | 0x48 | 0x58 | 0x78 | 0x88 | 0x98 | 0xA8 => some .stored
  | _ => none

/-- `size_bytes[cmd & SIZE_MASK]`. -/
def sizeBytes (cmd : UInt8) : Nat :=
  match (cmd &&& 0x03).toNat with
  | 0 => 0
  | 1 => 1
  | 2 => 2
  | _ => 4

/-- `*value` of `getValue`: the bytes, the lowest first. -/
def getValue : List UInt8 → Nat
  | [] => 0
  | b :: bs => b.toNat + 2 ^ 8 * getValue bs

/-- `*signed_value`. -/
def getSigned (bytes : List UInt8) : Int32 := Int32.ofInt (Int.bmod (getValue bytes) (2 ^ (8 * bytes.length)))

/-- An item of a descriptor, with its value. -/
structure Token where
  item : Item
  value : UInt32
  signedValue : Int32

/-! ## The parser -/

/-- `HidReportParser`, with the list that it fills. -/
structure Parser where
  globalsStack : List Globals
  usageFifoStack : List UsageFifo
  usageFifo : Option UsageFifo
  globals : Globals
  usageMin : UInt32
  applicationUsage : UInt32
  result : HidItemList

/-- Why there is no result: a FIFO is used that is not there, or the turns are used up. -/
inductive Stop where
  | missingFifo
  | running
deriving DecidableEq

def stackSize : Nat := 8

namespace Parser

/-- `getReport(..)->addItem(..)`. -/
def addItem (p : Parser) (type : ReportType) (item : ReportItem) : Parser :=
  let idx := if p.globals.reportId.toNat > 255 then 255 else p.globals.reportId.toNat
  let report := (p.result.reportList type idx).getD ⟨p.applicationUsage, UInt32.ofNat idx, []⟩
  let report := { report with items := report.items ++ [item] }
  { p with
    result :=
      { p.result with
        reportList := fun t i => if t = type ∧ i = idx then some report else p.result.reportList t i } }

/-- The loop over the fields of a variable item. -/
def variableLoop (type : ReportType) (flags : UInt32) : Nat → Parser → Except Stop Parser
  | 0, p => .ok p
  | n + 1, p =>
      match p.usageFifo with
      | none => .error .missingFifo
      | some f =>
          variableLoop type flags n
            ({ p with usageFifo := some f.pop.2 }.addItem type
              { usage := f.pop.1
                flags := flags
                length := p.globals.reportSize
                count := 1
                min := p.globals.logicalMinimum.toUInt32
                max := p.globals.logicalMaximum.toUInt32 })

/-- `for (int i = logical_minimum; i <= logical_maximum; i++) usageFifo->pop()`, for so many
    turns; behind the largest value `i` starts again. -/
def arrayLoop : Nat → Int32 → Int32 → UsageFifo → Except Stop UsageFifo
  | 0, _, _, _ => .error .running
  | fuel + 1, i, logicalMaximum, f =>
      if i ≤ logicalMaximum then arrayLoop fuel (i + 1) logicalMaximum f.pop.2 else .ok f

def flagsConstant : UInt32 := 0x01

def flagsVariable : UInt32 := 0x02

def iterate (fuel : Nat) (type : ReportType) (flags : UInt32) (p : Parser) : Except Stop Parser :=
  if flags &&& flagsConstant ≠ 0 then
    .ok (p.addItem type
      { usage := 0
        flags := flags
        length := p.globals.reportCount * p.globals.reportSize
        count := 1
        min := 0
        max := 0 })
  else if flags &&& flagsVariable ≠ 0 then variableLoop type flags p.globals.reportCount.toNat p
  else
    match p.usageFifo with
    | none => .error .missingFifo
    | some f =>
        match arrayLoop fuel p.globals.logicalMinimum p.globals.logicalMaximum f with
        | .error stop => .error stop
        | .ok f' =>
            .ok
              { p.addItem type
                  { usage := f.head
                    flags := flags
                    length := p.globals.reportSize
                    count := p.globals.reportCount
                    min := p.globals.logicalMinimum.toUInt32
                    max := p.globals.logicalMaximum.toUInt32 } with
                usageFifo := some f' }

/-- The usages from the minimum to the maximum. -/
def usageRange (p : Parser) (value : UInt32) : List UInt32 :=
  let low := (p.usageMin &&& 0xFFFF).toNat
  let high := (value &&& 0xFFFF).toNat
  (List.range' low (high + 1 - low)).map fun n => (p.globals.usagePage <<< 16) ||| UInt32.ofNat n

/-- What an item does; `clearLocal` behind the main items. -/
def step (fuel : Nat) (t : Token) (p : Parser) : Except Stop Parser :=
  match t.item with
  | .push =>
      .ok (if p.globalsStack.length = stackSize then p else { p with globalsStack := p.globals :: p.globalsStack })
  | .pop =>
      match p.globalsStack with
      | [] => .ok p
      | globals :: stack => .ok { p with globals := globals, globalsStack := stack }
  | .reportID =>
      .ok
        { p with
          result := { p.result with hasReportID := true }
          globals := { p.globals with reportId := t.value } }
  | .usagePage => .ok { p with globals := { p.globals with usagePage := t.value } }
  | .logicalMin => .ok { p with globals := { p.globals with logicalMinimum := t.signedValue } }
  | .logicalMax => .ok { p with globals := { p.globals with logicalMaximum := t.signedValue } }
  | .reportSize => .ok { p with globals := { p.globals with reportSize := t.value } }
  | .reportCount => .ok { p with globals := { p.globals with reportCount := t.value } }
  | .usageMin => .ok { p with usageMin := t.value }
  | .stored => .ok p
  | .collection =>
      match p.usageFifo with
      | none => .error .missingFifo
      | some f =>
          .ok
            { p with
              usageFifoStack :=
                if p.usageFifoStack.length = stackSize then p.usageFifoStack else f.pop.2 :: p.usageFifoStack
              usageFifo := some .empty
              applicationUsage := if t.value = 1 then f.pop.1 else p.applicationUsage
              usageMin := 0 }
  | .endColl =>
      .ok
        { p with
          usageFifo := p.usageFifoStack.head?
          usageFifoStack := p.usageFifoStack.tail
          usageMin := 0 }
  | .main type =>
      match p.iterate fuel type t.value with
      | .error stop => .error stop
      | .ok p => .ok { p with usageMin := 0 }
  | .usage =>
      match p.usageFifo with
      | none => .error .missingFifo
      | some f => .ok { p with usageFifo := some (f.push ((p.globals.usagePage <<< 16) ||| t.value)) }
  | .usageMax =>
      if p.usageRange t.value = [] then .ok p
      else
        match p.usageFifo with
        | none => .error .missingFifo
        | some f => .ok { p with usageFifo := some ((p.usageRange t.value).foldl UsageFifo.push f) }

/-- The loop of `decode`, which takes a byte in each turn at least; what is left of the
    descriptor, what `decode` answers and what it leaves. -/
def decodeLoop (fuel : Nat) : Nat → List UInt8 → Parser → Except Stop (Int × Parser)
  | 0, _, p => .ok (0, p)
  | _ + 1, [], p => .ok (0, p)
  | n + 1, cmd :: rest, p =>
      if sizeBytes cmd > rest.length then .ok (-1, p)
      else
        match itemOf cmd with
        | none => .ok (-1, p)
        | some item =>
            let bytes := rest.take (sizeBytes cmd)
            match p.step fuel ⟨item, UInt32.ofNat (getValue bytes), getSigned bytes⟩ with
            | .error stop => .error stop
            | .ok p => decodeLoop fuel n (rest.drop (sizeBytes cmd)) p

/-- The parser behind `cleanup`, `init` and `reset`; what an earlier descriptor has pushed stays
    on the stack. -/
def init (globalsStack : List Globals) : Parser :=
  { globalsStack := globalsStack
    usageFifoStack := []
    usageFifo := some .empty
    globals := ⟨0, 0, 0, 0, 0, 0⟩
    usageMin := 0
    applicationUsage := 0
    result := .reset }

end Parser

def decode (fuel : Nat) (globalsStack : List Globals) (descriptor : List UInt8) : Except Stop (Int × Parser) :=
  (Parser.init globalsStack).decodeLoop fuel descriptor.length descriptor

end HidDecoder
