import Chipscopy.Lib.Python

/-! Back-end data of the trigger state machine

    An action of the state machine sets bits of a 24 bit word: the state to go to, reset and
    increment of four counters, the counter selected for the next state, set and clear of four
    flags, and the trigger. A condition is a flat list of compares with an operator between any two
    neighbours; `from_item_list` splits it into the compares of probes, joined by one operator, and
    at most one compare of a counter. -/

namespace Chipscopy.Tsm

abbrev counterCount : ℕ := 4

instance : NeZero counterCount := ⟨by decide⟩

def tableRowsPerState : ℕ := 8

def maxStateCount : ℕ := 16

/-! ### Actions -/

inductive ActionName
  | goto | resetCounter | incrementCounter | decrementCounter | setFlag | clearFlag | trigger
  deriving DecidableEq, Repr

/-- An action and the state, counter or flag it is about; the index of a trigger is -1. -/
structure ILATsmActionPair where
  name : ActionName
  index : ℤ
  deriving DecidableEq, Repr

/-- Value of the flags of an action word. -/
abbrev ILATsmAction := ℕ

namespace ILATsmAction

def default : ILATsmAction := 0x000000

def resetCounter0 : ILATsmAction := 0x000010

def incrementCounter0 : ILATsmAction := 0x000020

def selectCounter1Or3 : ILATsmAction := 0x001000

def selectCounter2Or3 : ILATsmAction := 0x002000

def setFlag0 : ILATsmAction := 0x004000

def trigger : ILATsmAction := 0x080000

def clearFlag0 : ILATsmAction := 0x100000

def create (action : ILATsmActionPair) : ILATsmAction :=
  match action.name with
  | .goto => action.index.toNat
  | .resetCounter => resetCounter0 <<< (action.index.toNat * 2)
  | .incrementCounter => incrementCounter0 <<< (action.index.toNat * 2)
  | .setFlag => setFlag0 <<< action.index.toNat
  | .clearFlag => clearFlag0 <<< action.index.toNat
  | .trigger => trigger
  | .decrementCounter => 0

/-- The bitwise or of the words of a non-empty list of actions. -/
def fromActionPairList (action : ILATsmActionPair) (actions : List ILATsmActionPair) :
    ILATsmAction :=
  (actions.map create).foldl (· ||| ·) (create action)

/-- Add the selection of the counter that the next state compares. -/
def addSelectCounterAction (action : ILATsmAction) (counterIndex : Fin counterCount) :
    ILATsmAction :=
  let val := if counterIndex = 1 ∨ counterIndex = 3 then action ||| selectCounter1Or3 else action
  if counterIndex = 2 ∨ counterIndex = 3 then val ||| selectCounter2Or3 else val

end ILATsmAction

/-! ### Conditions -/

inductive LogicOp
  | and | or
  deriving DecidableEq, Repr

def LogicOp.eval : LogicOp → Bool → Bool → Bool
  | .and => (· && ·)
  | .or => (· || ·)

inductive CompareOp
  | eq | neq | gt | lt | ge | le
  deriving DecidableEq, Repr

/-- Operator used for a compare that is written with the number first. -/
def reverseCompareOperator : CompareOp → CompareOp
  | .gt => .le
  | .lt => .ge
  | .ge => .lt
  | .le => .gt
  | op => op

structure ILATsmCounterCompare where
  counterIndex : Fin counterCount
  compareOp : CompareOp
  compareValue : List Char
  deriving DecidableEq

/-- A range of bits of a port; the parser of port maps refuses an empty one. -/
structure MapPortSeq where
  portIdx : ℕ
  highIdx : ℕ
  lowIdx : ℕ
  le : lowIdx ≤ highIdx := by decide
  deriving DecidableEq

/-- A probe, with its port map parsed. -/
structure ILAProbe where
  name : String
  map : List MapPortSeq
  deriving DecidableEq

structure ILATsmMatchUnit where
  probe : ILAProbe
  compareOp : CompareOp
  compareValue : List Char
  reverseOrder : Bool := false
  deriving DecidableEq

def ILATsmMatchUnit.getCompareOperator (mu : ILATsmMatchUnit) : CompareOp :=
  if mu.reverseOrder then reverseCompareOperator mu.compareOp else mu.compareOp

/-- A compare in a condition. -/
inductive Operand
  | probe (mu : ILATsmMatchUnit)
  | counter (cmp : ILATsmCounterCompare)
  deriving DecidableEq

namespace Operand

def isProbe : Operand → Bool
  | probe _ => true
  | counter _ => false

def isCounter : Operand → Bool
  | probe _ => false
  | counter _ => true

def matchUnit? : Operand → Option ILATsmMatchUnit
  | probe mu => some mu
  | counter _ => none

section simpLemmas

variable (mu : ILATsmMatchUnit) (cmp : ILATsmCounterCompare)

@[simp] theorem isProbe_probe : (probe mu).isProbe = true := rfl

@[simp] theorem isProbe_counter : (counter cmp).isProbe = false := rfl

@[simp] theorem isCounter_probe : (probe mu).isCounter = false := rfl

@[simp] theorem isCounter_counter : (counter cmp).isCounter = true := rfl

@[simp] theorem matchUnit?_probe : (probe mu).matchUnit? = some mu := rfl

@[simp] theorem matchUnit?_counter : (counter cmp).matchUnit? = none := rfl

end simpLemmas

end Operand

/-- A flat condition: a list of compares in which every second item is an operator. -/
structure ConditionList where
  head : Operand
  tail : List (LogicOp × Operand) := []
  deriving DecidableEq

namespace ConditionList

/-- `a op b` on flat lists. -/
def append (a : ConditionList) (op : LogicOp) (b : ConditionList) : ConditionList where
  head := a.head
  tail := a.tail ++ (op, b.head) :: b.tail

def operands (l : ConditionList) : List Operand := l.head :: l.tail.map (·.2)

/-- Every operator with the compares before and after it. -/
def triples : Operand → List (LogicOp × Operand) → List (Operand × LogicOp × Operand)
  | _, [] => []
  | pre, (op, post) :: rest => (pre, op, post) :: triples post rest

end ConditionList

structure ILATsmCondition where
  probeOperator : Option LogicOp := none
  counterOperator : Option LogicOp := none
  counterCompare : Option ILATsmCounterCompare := none
  matchUnits : List ILATsmMatchUnit := []
  deriving DecidableEq

namespace ILATsmCondition

def isInvertCounterMux (cond : ILATsmCondition) : Bool :=
  match cond.counterCompare with
  | some cmp => cmp.compareOp = .neq
  | none => false

/-- "and" is default value. -/
def getMapperProbeOperator (cond : ILATsmCondition) : LogicOp :=
  if cond.probeOperator = some .or then .or else .and

/-- What one operator of the list tells about the condition. -/
def scan (cond : ILATsmCondition) : Operand × LogicOp × Operand → ILATsmCondition
  | (.counter cmp, op, _) => { cond with counterOperator := some op, counterCompare := some cmp }
  | (.probe _, op, .counter cmp) =>
    { cond with counterOperator := some op, counterCompare := some cmp }
  | (.probe _, op, .probe _) => { cond with probeOperator := some op }

def fromItemList (l : ConditionList) : ILATsmCondition :=
  let cond : ILATsmCondition :=
    match l with
    -- A single probe compare is handled by collecting the match units below.
    | ⟨.counter cmp, []⟩ => { counterCompare := some cmp }
    | _ => (ConditionList.triples l.head l.tail).foldl scan {}
  { cond with matchUnits := l.operands.filterMap Operand.matchUnit? }

/-- Evaluate a condition on the value of its probe compares and of the counter comparator. -/
def evalCondition (cond : ILATsmCondition) (probeMux inCounterMux : Bool) : Bool :=
  let counterMux := if cond.isInvertCounterMux then !inCounterMux else inCounterMux
  if cond.matchUnits.isEmpty then counterMux
  else
    match cond.counterOperator with
    | none => probeMux
    | some .or => probeMux || counterMux
    | some .and => probeMux && counterMux

end ILATsmCondition

/-! ### States -/

structure ILATsmBranch where
  index : ℕ
  actions : ILATsmAction
  condition : Option ILATsmCondition
  nextState : ℕ
  deriving DecidableEq

structure ILATsmState where
  name : String
  index : ℕ
  counterIndex : Fin counterCount := 0
  branches : List ILATsmBranch
  deriving DecidableEq

end Chipscopy.Tsm
