import Chipscopy.Lib.Python

/-! Manager of the nodes of a server

    A manager keeps its nodes in a dictionary by context. A node names its parent by the context
    and keeps its children in a list of contexts. Nodes and lists are objects: replacing a node
    keeps its list, and `set_children` stores the list of the caller. -/

namespace Chipscopy.Dm

abbrev Ctx := String
abbrev NodeRef := ℕ
abbrev ListRef := ℕ

structure Node (V : Type) where
  cls : String
  ctx : Ctx
  parentCtx : Ctx
  children : ListRef
  props : Py.Dict String V
  invalid : Bool

/-- Calls that `protocol.invokeLater` was given. -/
inductive Deferred
  | nodeAdded
  | nodeRemoved
  deriving DecidableEq, Repr

/-- A manager with the node objects and list objects of its program. The two logs are for
    statements only: what was announced while there was a listener, and not yet called back. -/
structure CsManager (V : Type) where
  node : NodeRef → Node V
  nextNode : NodeRef
  list : ListRef → List Ctx
  nextList : ListRef
  self : NodeRef
  nodes : Py.Dict Ctx NodeRef
  nodeListeners : List ℕ
  addedNodes : List Ctx
  removedNodes : List NodeRef
  posted : List Deferred
  addedLog : List Ctx
  removedLog : List NodeRef
  defaultNodeCls : String

namespace CsManager

variable {V : Type}

/-- A manager is its own first node. -/
def init (V : Type) : CsManager V where
  node _ :=
    { cls := "CsManager", ctx := "", parentCtx := "", children := 0, props := .empty, invalid := false }
  nextNode := 1
  list _ := []
  nextList := 1
  self := 0
  nodes := Py.Dict.empty.set "" 0
  nodeListeners := []
  addedNodes := []
  removedNodes := []
  posted := []
  addedLog := []
  removedLog := []
  defaultNodeCls := "Node"

def setNode (m : CsManager V) (r : NodeRef) (n : Node V) : CsManager V :=
  { m with node := Function.update m.node r n }

def setList (m : CsManager V) (l : ListRef) (cs : List Ctx) : CsManager V :=
  { m with list := Function.update m.list l cs }

def setInvalid (m : CsManager V) (r : NodeRef) (invalid : Bool) : CsManager V :=
  m.setNode r { m.node r with invalid := invalid }

/-- A list object of the caller. -/
def newList (m : CsManager V) (cs : List Ctx) : CsManager V :=
  { m.setList m.nextList cs with nextList := m.nextList + 1 }

def childList (m : CsManager V) (r : NodeRef) : List Ctx := m.list (m.node r).children

def notifyNodeAdded (m : CsManager V) (r : NodeRef) : CsManager V :=
  let ctx := (m.node r).ctx
  if m.nodeListeners = [] then m
  else if ctx ∈ m.addedNodes then { m with addedLog := m.addedLog ++ [ctx] }
  else
    { m with
      addedNodes := m.addedNodes ++ [ctx]
      posted := if m.addedNodes = [] then m.posted ++ [.nodeAdded] else m.posted
      addedLog := m.addedLog ++ [ctx] }

def notifyNodeRemoved (m : CsManager V) (r : NodeRef) : CsManager V :=
  if m.nodeListeners = [] then m
  else if r ∈ m.removedNodes then { m with removedLog := m.removedLog ++ [r] }
  else
    { m with
      removedNodes := m.removedNodes ++ [r]
      posted := if m.removedNodes = [] then m.posted ++ [.nodeRemoved] else m.posted
      removedLog := m.removedLog ++ [r] }

/-- Nodes that `get_children` yields. -/
def getChildren (m : CsManager V) (r : NodeRef) : List (Option NodeRef) :=
  (m.childList r).map m.nodes.get?

/-- A call on a node that `get_children` yields. -/
def onChild (call : CsManager V → NodeRef → Except Py.Error (CsManager V)) (m : CsManager V)
    (child : Ctx) : Except Py.Error (CsManager V) :=
  match m.nodes.get? child with
  | some r => call m r
  | none => .error (.attributeError "'NoneType' object has no attribute 'invalidate'")

/-- `invalidate` of a node and of its children, at most so deep. A manager has its own. -/
def invalidateTo : ℕ → CsManager V → NodeRef → Except Py.Error (CsManager V)
  | 0, m, _ => .ok m
  | depth + 1, m, r =>
    if r = m.self then
      match m.nodes.get? "" with
      | some root => (m.childList root).foldlM (onChild (invalidateTo depth)) (m.setInvalid r true)
      | none => .error (.keyError "")
    else if (m.node r).invalid then .ok m
    else do
      let m' ← (m.childList r).foldlM (onChild (invalidateTo depth)) (m.setInvalid r true)
      .ok (m'.notifyNodeRemoved r)

/-- `invalidate`. Every call goes on only from a node that was valid. -/
def invalidate (m : CsManager V) (r : NodeRef) : Except Py.Error (CsManager V) :=
  invalidateTo m.nextNode m r

/-- A context is listed once. -/
def appendChild (m : CsManager V) (parent : NodeRef) (ctx : Ctx) : CsManager V :=
  if ctx ∈ m.childList parent then m
  else m.setList (m.node parent).children (m.childList parent ++ [ctx])

/-- The second half of `add_node`. -/
def createNode (m : CsManager V) (ctx parentCtx : Ctx) (props : Py.Dict String V) :
    NodeRef × CsManager V :=
  let r := m.nextNode
  let node : Node V :=
    { cls := m.defaultNodeCls, ctx := ctx, parentCtx := parentCtx, children := m.nextList,
      props := props, invalid := false }
  let m := { (m.newList []).setNode r node with nextNode := r + 1, nodes := m.nodes.set ctx r }
  let m := match m.nodes.get? parentCtx with
    | some parent => m.appendChild parent ctx
    | none => m
  (r, m.notifyNodeAdded r)

def addNode (m : CsManager V) (ctx parentCtx : Ctx) : Except Py.Error (NodeRef × CsManager V) :=
  match m.nodes.get? ctx with
  | some r =>
    if (m.node r).parentCtx ≠ parentCtx then do
      let m' ← m.invalidate r
      .ok (m'.createNode ctx parentCtx (m.node r).props)
    else if (m.node r).invalid then .ok (r, (m.setInvalid r false).notifyNodeAdded r)
    else .ok (r, m)
  | none => .ok (m.createNode ctx parentCtx .empty)

/-- `for child in l`, where the list may shrink while the loop runs. -/
def forEach (step : CsManager V → Ctx → CsManager V) (l : ListRef) :
    ℕ → ℕ → CsManager V → CsManager V
  | 0, _, m => m
  | count + 1, i, m =>
    match (m.list l)[i]? with
    | some child => forEach step l count (i + 1) (step m child)
    | none => m

/-- `remove_node` up to its loop. -/
def popNode (m : CsManager V) (ctx : Ctx) (r : NodeRef) : CsManager V :=
  let m := { m with nodes := m.nodes.erase ctx }.setInvalid r true
  let m := match m.nodes.get? (m.node r).parentCtx with
    | some parent => m.setList (m.node parent).children ((m.childList parent).erase ctx)
    | none => m
  m.notifyNodeRemoved r

/-- `remove_node` of a subtree, at most so deep. -/
def removeNodeTo : ℕ → CsManager V → Ctx → CsManager V
  | 0, m, _ => m
  | depth + 1, m, ctx =>
    match m.nodes.get? ctx with
    | some r =>
      let m := m.popNode ctx r
      m.forEach (removeNodeTo depth) (m.node r).children (m.childList r).length 0
    | none => m

/-- `remove_node`. Every call goes on only from a node that it took from the dictionary. -/
def removeNode (m : CsManager V) (ctx : Ctx) : CsManager V := removeNodeTo m.nodes.size m ctx

/-- `remove_all`, if its loop ends within so many rounds. -/
def removeAll : ℕ → CsManager V → Option (CsManager V)
  | 0, _ => none
  | rounds + 1, m =>
    match m.childList m.self with
    | [] => some m
    | child :: _ => removeAll rounds (m.removeNode child)

/-- What `upgrade_node` and `degrade_node` share: a new object with the attributes of the old. -/
def replaceNode (m : CsManager V) (r : NodeRef) (cls : String) : NodeRef × CsManager V :=
  let new := m.nextNode
  let m := { m.setNode new { m.node r with cls := cls } with
    nextNode := new + 1
    nodes := m.nodes.set (m.node r).ctx new }
  (new, m.setInvalid r true)

def upgradeNode (m : CsManager V) (r : NodeRef) (upgradeCls : String) : NodeRef × CsManager V :=
  m.replaceNode r upgradeCls

def degradeNode (m : CsManager V) (r : NodeRef) : NodeRef × CsManager V := m.replaceNode r "Node"

/-- `set_children` for a node object and a list object. -/
def setChildren (m : CsManager V) (r : NodeRef) (l : ListRef) : CsManager V :=
  let removeChildren := (m.childList r).filter fun child => child ∉ m.list l
  let m := removeChildren.foldl removeNode m
  m.setNode r { m.node r with children := l }

end CsManager

end Chipscopy.Dm
