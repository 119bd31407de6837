import Chipscopy.Lib.Machine
import Chipscopy.Tsm.Checker

/-! The trigger state machine table

    The table has eight words for each of sixteen states, addressed by the state and the inputs
    "if mux", "else-if mux" and "counter mux". A word holds the actions of the branch that the
    inputs select and, added by `select_counter_actions`, the counter that the next state compares.
    A run of the table performs the actions of the program, state by state. -/

namespace Chipscopy.Tsm

/-- Values of the three condition inputs of the table. -/
structure ILATsmInput where
  ifMux : Bool
  elseIfMux : Bool
  counterMux : Bool
  deriving DecidableEq

/-- "if mux" is the most significant of the three address bits. -/
def ILATsmInput.row (inp : ILATsmInput) : ℕ :=
  4 * inp.ifMux.toNat + 2 * inp.elseIfMux.toNat + inp.counterMux.toNat

/-- The inputs of the eight rows of a state. -/
def inputRows : List ILATsmInput :=
  [false, true].flatMap fun ifMux => [false, true].flatMap fun elseIfMux =>
    [false, true].map fun counterMux => ⟨ifMux, elseIfMux, counterMux⟩

/-! ### Building the table -/

/-- Counter of the first condition that compares one. -/
def setCounterIndex (state : ILATsmState) : ILATsmState :=
  { state with
    counterIndex :=
      match state.branches.findSome? fun b => b.condition.bind (·.counterCompare) with
      | some cmp => cmp.counterIndex
      | none => 0 }

def selectCounterAction (states : List ILATsmState) (branch : ILATsmBranch) :
    Except Py.Error ILATsmBranch :=
  match states[branch.nextState]? with
  | none => .error .indexError
  | some next => .ok { branch with
      actions := ILATsmAction.addSelectCounterAction branch.actions next.counterIndex }

/-- Update branch actions with the counter to use in the next state. -/
def selectCounterActions (states : List ILATsmState) : Except Py.Error (List ILATsmState) :=
  let states := states.map setCounterIndex
  Py.mapExcept (fun (state : ILATsmState) =>
    (Py.mapExcept (selectCounterAction states) state.branches).map fun branches =>
      { state with branches := branches }) states

def evalBranch (branch : ILATsmBranch) (probeMux counterMux : Bool) : Except Py.Error Bool :=
  match branch.condition with
  | none => .error (.attributeError "'NoneType' object has no attribute 'is_invert_counter_mux'")
  | some cond => .ok (cond.evalCondition probeMux counterMux)

/-- Actions of the first branch whose condition holds, otherwise of the last branch. -/
def getActionsTsmForInputs (state : ILATsmState) (inp : ILATsmInput) :
    Except Py.Error ILATsmAction :=
  match state.branches with
  | [] => .error .indexError
  | [last] => .ok last.actions
  | [first, last] =>
    match evalBranch first inp.ifMux inp.counterMux with
    | .error e => .error e
    | .ok holds => .ok (if holds then first.actions else last.actions)
  | first :: second :: third :: rest =>
    match evalBranch first inp.ifMux inp.counterMux with
    | .error e => .error e
    | .ok true => .ok first.actions
    | .ok false =>
      match evalBranch second inp.elseIfMux inp.counterMux with
      | .error e => .error e
      | .ok holds =>
        .ok (if holds then second.actions else ((third :: rest).getLast (by simp)).actions)

def createTsmTableActions (states : List ILATsmState) : Except Py.Error (List ILATsmAction) :=
  match Py.mapExcept (fun (row : ILATsmState × ILATsmInput) => getActionsTsmForInputs row.1 row.2)
      (states.flatMap fun state => inputRows.map fun inp => (state, inp)) with
  | .error e => .error e
  | .ok tsmActions =>
    let unusedTableRows := (maxStateCount - states.length) * tableRowsPerState
    .ok (tsmActions ++ List.replicate unusedTableRows ILATsmAction.default)

/-- The table of a program. -/
def compileTable (counterWidths : Fin counterCount → ℕ) (p : IlaTsm) :
    Except Py.Error (List ILATsmAction) :=
  match selectCounterActions (buildStates counterWidths p).1 with
  | .error e => .error e
  | .ok states => createTsmTableActions states

/-! ### What a word does -/

/-- What the state machine does in one step. -/
structure Effect where
  goto : ℕ
  reset : Fin 4 → Bool
  increment : Fin 4 → Bool
  selectCounter : ℕ
  setFlag : Fin 4 → Bool
  capture : Bool
  trigger : Bool
  clearFlag : Fin 4 → Bool
  deriving DecidableEq

/-- Read the bit fields of a word. -/
def decode (word : ℕ) : Effect where
  goto := word % 2 ^ 4
  reset i := word.testBit (4 + 2 * i)
  increment i := word.testBit (5 + 2 * i)
  selectCounter := (word.testBit 12).toNat + 2 * (word.testBit 13).toNat
  setFlag i := word.testBit (14 + i)
  capture := word.testBit 18
  trigger := word.testBit 19
  clearFlag i := word.testBit (20 + i)

/-! ### What the program does -/

/-- The counter comparator tests for equality. -/
def ILATsmCounterCompare.holdsOn (cmp : ILATsmCounterCompare) (counterMux : Bool) : Bool :=
  if cmp.compareOp = .neq then !counterMux else counterMux

/-- Value of a flat condition whose probe compares together have the value `probeMux`. -/
def ConditionList.holdsOn (l : ConditionList) (probeMux counterMux : Bool) : Bool :=
  match l.head, l.tail with
  | .counter cmp, [] => cmp.holdsOn counterMux
  | .counter cmp, (op, _) :: _ => op.eval (cmp.holdsOn counterMux) probeMux
  | .probe _, tail =>
    match tail.getLast? with
    | some (op, .counter cmp) => op.eval probeMux (cmp.holdsOn counterMux)
    | _ => probeMux

def Condition.holdsOn (c : Condition) (probeMux counterMux : Bool) : Bool :=
  (visitFullCondition c).1.holdsOn probeMux counterMux

namespace StateBlock

/-- First action block whose condition holds, otherwise the last one. -/
def select (inp : ILATsmInput) : StateBlock → Actions
  | .stateNoIf _ actions => actions
  | .stateIf _ c =>
    if c.ifCond.holdsOn inp.ifMux inp.counterMux then c.ifActions
    else
      match c.elseIf, c.elseActions with
      | none, none => c.ifActions
      | none, some last => last
      | some (_, last), none => last
      | some (cond, actions), some last =>
        if cond.holdsOn inp.elseIfMux inp.counterMux then actions else last

/-- Counters that the conditions of a state compare. -/
def comparedCounters : StateBlock → List (Fin counterCount)
  | .stateNoIf _ _ => []
  | .stateIf _ c => findCounters (c.fullConditions.map fun cond => (visitFullCondition cond).1)

end StateBlock

def Action.isGoto : Action → Bool
  | .goto _ => true
  | _ => false

/-- The state that an action block goes to; state 0 after a trigger. -/
def Actions.target (names : List String) (a : Actions) : ℕ :=
  match a.toList.find? Action.isGoto with
  | some (.goto stateName) => names.idxOf stateName
  | _ => 0

/-- What the actions of a block do. -/
def Actions.effect (a : Actions) (target selectCounter : ℕ) : Effect where
  goto := target
  reset i := .resetCounter i ∈ a.toList
  increment i := .incCounter i ∈ a.toList
  selectCounter := selectCounter
  setFlag i := .setFlag i ∈ a.toList
  capture := false
  trigger := .trigger ∈ a.toList
  clearFlag i := .clearFlag i ∈ a.toList

/-- The counter that a state compares, 0 if it compares none. -/
def comparedCounter (blocks : List StateBlock) (s : ℕ) : Fin counterCount :=
  (blocks[s]?.bind (·.comparedCounters.head?)).getD 0

/-- One step of the program from a state block. -/
def StateBlock.effect (blocks : List StateBlock) (inp : ILATsmInput) (block : StateBlock) :
    Effect :=
  let target := (block.select inp).target (blocks.map StateBlock.name)
  (block.select inp).effect target (comparedCounter blocks target)

/-- One step of the table. -/
def tableStep (table : List ILATsmAction) (s : ℕ) (inp : ILATsmInput) : ℕ × Effect :=
  let effect := decode (table.getD (s * tableRowsPerState + inp.row) ILATsmAction.default)
  (effect.goto, effect)

/-- One step of the program. -/
def sourceStep (blocks : List StateBlock) (s : ℕ) (inp : ILATsmInput) : ℕ × Effect :=
  match blocks[s]? with
  | none => (0, decode ILATsmAction.default)
  | some block => ((block.effect blocks inp).goto, block.effect blocks inp)

end Chipscopy.Tsm
