import Chipscopy.Tsm.Flatten

/-! Semantic checks and the back-end data of a program

    The visitor turns every state block into branches: the word of the actions, the state to go to
    and the condition. It reports action blocks without exactly one final `goto` or one `trigger`,
    flags and counters with two actions in a block, conditions of one state that compare different
    counters, and a missing `else`. -/

namespace Chipscopy.Tsm

/-! ### Syntax -/

inductive Action
  | clearFlag (i : Fin 4)
  | setFlag (i : Fin 4)
  | incCounter (i : Fin counterCount)
  | resetCounter (i : Fin counterCount)
  | goto (stateName : String)
  | trigger
  deriving DecidableEq

/-- The grammar asks for at least one action. -/
structure Actions where
  first : Action
  rest : List Action := []

def Actions.toList (a : Actions) : List Action := a.first :: a.rest

/-- `if (ifCond) then ifActions [elseif (..) then ..] [else ..] endif`. -/
structure IfCondition where
  ifCond : Condition
  ifActions : Actions
  elseIf : Option (Condition × Actions) := none
  elseActions : Option Actions := none

namespace IfCondition

def fullConditions (c : IfCondition) : List Condition := c.ifCond :: (c.elseIf.map (·.1)).toList

def actions (c : IfCondition) : List Actions :=
  c.ifActions :: ((c.elseIf.map (·.2)).toList ++ c.elseActions.toList)

end IfCondition

inductive StateBlock
  | stateIf (name : String) (cond : IfCondition)
  | stateNoIf (name : String) (actions : Actions)

def StateBlock.name : StateBlock → String
  | .stateIf name _ | .stateNoIf name _ => name

/-- The grammar asks for at least one state. -/
structure IlaTsm where
  first : StateBlock
  rest : List StateBlock := []

def IlaTsm.blocks (p : IlaTsm) : List StateBlock := p.first :: p.rest

/-! ### State names -/

/-- `ILATsmStateVisitor._add_state`. -/
def addState (found : List String × List String) (block : StateBlock) :
    List String × List String :=
  if block.name ∈ found.1 then
    (found.1, found.2 ++ ["Two states have the same name: \"" ++ block.name ++
      "\". State names must be unique."])
  else (found.1 ++ [block.name], found.2)

/-- State names in order, with the errors of the scan for them. -/
def scanStates (p : IlaTsm) : List String × List String :=
  let (names, errors) := p.blocks.foldl addState ([], [])
  if names.length > maxStateCount then
    (names, errors ++ ["Maximum " ++ toString maxStateCount ++ " states are allowed. " ++
      "The Trigger State Machine has " ++ toString names.length ++ " states."])
  else (names, errors)

/-! ### Checks -/

/-- Errors for the indices that have more than one action. -/
def verifyOneAction (label : String) (indices : List ℤ) : List String :=
  (indices.eraseDups.filter fun i => indices.count i > 1).map fun i =>
    "$" ++ label ++ toString i ++ " may only have one action in each action block."

def verifyActionBlock (actions : List ILATsmActionPair) : List String :=
  let flags := actions.filter fun a => a.name = .setFlag ∨ a.name = .clearFlag
  let counters := actions.filter fun a =>
    a.name = .decrementCounter ∨ a.name = .incrementCounter ∨ a.name = .resetCounter
  let gotos := actions.filter fun a => a.name = .goto
  let triggerCount := actions.countP fun a => a.name = .trigger
  (if gotos.length > 1 then
    ["Multiple GOTO statements are not allowed, in same the action block."]
  else if gotos.length = 1 ∧ (actions.getLast?.map (·.name)) ≠ some .goto then
    ["The GOTO action must be the last action, in the action block."]
  else if gotos.length + triggerCount ≠ 1 then
    ["An action block must have one GOTO action or one TRIGGER action."]
  else []) ++
  (if triggerCount > 1 then
    ["Only one TRIGGER action is allowed in each action block."]
  else []) ++
  verifyOneAction "FLAG" (flags.map (·.index)) ++
  verifyOneAction "COUNTER" (counters.map (·.index))

/-- Indices of the counters that the conditions compare. -/
def findCounters (conditions : List ConditionList) : List (Fin counterCount) :=
  conditions.flatMap fun l => l.operands.filterMap fun x =>
    match x with
    | .counter cmp => some cmp.counterIndex
    | .probe _ => none

/-- Only one counter is used in all conditions of one state. -/
def verifyAllIfConditionCounters (conditions : List ConditionList) : List String :=
  let countersFound := (List.finRange counterCount).filter (· ∈ findCounters conditions)
  if countersFound.length > 1 then
    ["These counters \"" ++
      ", ".intercalate (countersFound.map fun i => "$COUNTER" ++ toString i.val) ++
      "\" are used in match expressions, in the same state. " ++
      "Only one counter may be used in the same state."]
  else []

/-! ### Visitor -/

structure ILATsmCheckAndBuild where
  stateNames : List String
  counterWidths : Fin counterCount → ℕ

namespace ILATsmCheckAndBuild

variable (ck : ILATsmCheckAndBuild)

def verifyCounterInfo (i : Fin counterCount) : List String :=
  if ck.counterWidths i = 0 then
    ["$COUNTER" ++ toString i.val ++ " is not supported by the ILA core."]
  else []

def visitAction : Action → ILATsmActionPair × List String
  | .clearFlag i => (⟨.clearFlag, i⟩, [])
  | .setFlag i => (⟨.setFlag, i⟩, [])
  | .incCounter i => (⟨.incrementCounter, i⟩, ck.verifyCounterInfo i)
  | .resetCounter i => (⟨.resetCounter, i⟩, ck.verifyCounterInfo i)
  | .goto stateName =>
    match ck.stateNames.idxOf? stateName with
    | some i => (⟨.goto, i⟩, [])
    | none => (⟨.goto, 0⟩, ["Unknown state \"" ++ stateName ++ "\"."])
  | .trigger => (⟨.trigger, -1⟩, [])

/-- Word and next state of an action block. -/
def visitActions (actions : Actions) : (ILATsmAction × ℕ) × List String :=
  let visited := actions.toList.map ck.visitAction
  let pairs := visited.map (·.1)
  let nextState :=
    match pairs.find? fun a => a.name = .goto with
    | some a => a.index.toNat
    | none => 0
  ((ILATsmAction.fromActionPairList (ck.visitAction actions.first).1
      (actions.rest.map fun a => (ck.visitAction a).1), nextState),
    visited.flatMap (·.2) ++ verifyActionBlock pairs)

def visitIfCondition (c : IfCondition) : List ILATsmBranch × List String :=
  let fullConditions := c.fullConditions.map visitFullCondition
  let actionBlocks := c.actions.map ck.visitActions
  let conditionLists := fullConditions.map (·.1)
  let tsmConditions := conditionLists.map fun l => some (ILATsmCondition.fromItemList l)
  let (tsmConditions, elseErrors) :=
    if tsmConditions.length = actionBlocks.length then (tsmConditions, ["Missing ELSE branch."])
    -- Make all lists the same length.
    else (tsmConditions ++ [none], [])
  let branches := (actionBlocks.zip tsmConditions).zipIdx.map fun ((block, cond), index) =>
    { index := index, actions := block.1.1, condition := cond, nextState := block.1.2 }
  (branches, fullConditions.flatMap (·.2) ++ actionBlocks.flatMap (·.2) ++
    verifyAllIfConditionCounters conditionLists ++ elseErrors)

def visitStateBlock (block : StateBlock) : ILATsmState × List String :=
  match block with
  | .stateIf name cond =>
    let (branches, errors) := ck.visitIfCondition cond
    ({ name := name, index := ck.stateNames.idxOf name, branches := branches }, errors)
  | .stateNoIf name actions =>
    let ((word, nextState), errors) := ck.visitActions actions
    ({ name := name, index := ck.stateNames.idxOf name,
       branches := [{ index := 0, actions := word, condition := none, nextState := nextState }] },
      errors)

end ILATsmCheckAndBuild

/-- States of a program and the errors found; the blocks are visited when the names are fine. -/
def buildStates (counterWidths : Fin counterCount → ℕ) (p : IlaTsm) :
    List ILATsmState × List String :=
  let (names, scanErrors) := scanStates p
  if scanErrors ≠ [] then ([], scanErrors)
  else
    let visited := p.blocks.map (ILATsmCheckAndBuild.visitStateBlock ⟨names, counterWidths⟩)
    (visited.map (·.1), visited.flatMap (·.2))

end Chipscopy.Tsm
