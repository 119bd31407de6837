import Chipscopy.Dm.Tree
import Chipscopy.Lib.Machine

/-! Discovery of the nodes of a server

    A debug core manager asks for the children of a context and, for each child that is named, for
    its properties and for its own children. Every command adds a token to the pending ones of the
    manager, and the handler of its reply takes it away at its end. Replies come in any order. -/

namespace Chipscopy.Dm.Discovery

/-- A command of the debug core service, or of the poll scheduler. -/
inductive Command
  | getChildren (parentCtx : Ctx)
  | getContext (ctx parentCtx : Ctx)
  | updatePolls
  deriving DecidableEq, Repr

/-- Results of `get_children`; a single child may come as a string. -/
inductive ChildrenResult
  | none
  | single (ctx : Ctx)
  | list (ctxs : List Ctx)
  deriving DecidableEq, Repr

/-- The children of a result that counts as true. -/
def ChildrenResult.ctxs : ChildrenResult → List Ctx
  | none => []
  | single ctx => if ctx = "" then [] else [ctx]
  | list ctxs => ctxs

/-- What the server answers: a finite tree of contexts below the root, and which replies fail. -/
structure Server (V : Type) where
  contexts : List Ctx
  results : Ctx → ChildrenResult
  props : Ctx → Py.Dict String V
  fails : Command → Bool
  child_mem : ∀ p ∈ "" :: contexts, ∀ c ∈ (results p).ctxs, c ∈ contexts
  root_notMem : "" ∉ contexts
  once : (("" :: contexts).flatMap fun p => (results p).ctxs).Nodup

/-- A manager with its pending tokens and the commands that have not been answered. The two logs,
    of the commands that were answered and of what handlers raised, are for statements only. -/
structure State (V : Type) where
  manager : CsManager V
  pending : List ℕ
  inFlight : List (ℕ × Command)
  nextToken : ℕ
  answered : List Command
  raised : List Py.Error

section Model

variable {V : Type} (asDict : V → Option (Py.Dict String V))

/-- `add_pending` of a command that is sent. -/
def State.send (st : State V) (command : Command) : State V :=
  { st with
    pending := st.pending ++ [st.nextToken]
    inFlight := st.inFlight ++ [(st.nextToken, command)]
    nextToken := st.nextToken + 1 }

def State.removePending (st : State V) (token : ℕ) : State V :=
  { st with pending := st.pending.erase token }

def State.isReady (st : State V) : Prop := st.pending = []

def State.updateChildren (st : State V) (parentCtx : Ctx) : State V :=
  st.send (.getChildren parentCtx)

def State.updateStaticInfo (st : State V) (ctx parentCtx : Ctx) : State V :=
  st.send (.getContext ctx parentCtx)

/-- `update_nodes` of a new manager. -/
def start (V : Type) : State V :=
  let st : State V := ⟨CsManager.init V, [], [], 0, [], []⟩
  (st.updateChildren "").send .updatePolls

/-- `node.update(props)`, and again with the additional properties if they are a dictionary. -/
def updateProps (m : CsManager V) (r : NodeRef) (props : Py.Dict String V) : CsManager V :=
  let m := m.setNode r { m.node r with props := (m.node r).props.update props.entries }
  match (props.get? "additional_props").bind asDict with
  | some additional =>
    m.setNode r { m.node r with props := (m.node r).props.update additional.entries }
  | none => m

/-- `done_get_children` before the token is removed. -/
def State.childrenReply (server : Server V) (st : State V) (parentCtx : Ctx) :
    Except Py.Error (State V) :=
  let children := (server.results parentCtx).ctxs
  if server.fails (.getChildren parentCtx) ∨ children = [] then .ok st
  else match st.manager.nodes.get? parentCtx with
    | none => .error (.keyError parentCtx)
    | some r =>
      let m := (st.manager.newList children).setChildren r st.manager.nextList
      .ok (children.foldl (fun st ctx => (st.updateStaticInfo ctx parentCtx).updateChildren ctx)
        { st with manager := m })

/-- `done_get_context` before the token is removed; no promoter takes the node over. -/
def State.contextReply (server : Server V) (st : State V) (ctx parentCtx : Ctx) :
    Except Py.Error (State V) :=
  if server.fails (.getContext ctx parentCtx) then .ok st
  else match st.manager.addNode ctx parentCtx with
    | .error e => .error e
    | .ok (r, m) => .ok { st with manager := updateProps asDict m r (server.props ctx) }

def State.reply (server : Server V) (st : State V) : Command → Except Py.Error (State V)
  | .getChildren parentCtx => st.childrenReply server parentCtx
  | .getContext ctx parentCtx => st.contextReply asDict server ctx parentCtx
  | .updatePolls => .ok st

/-- The reply of one command in flight: an exception of its handler leaves the token pending. The
    update of the polls is taken to succeed. -/
def step (server : Server V) (st : State V) (token : ℕ) : Option (State V) :=
  match Py.lookup token st.inFlight with
  | none => none
  | some command =>
    let st := { st with
      inFlight := st.inFlight.erase (token, command)
      answered := st.answered ++ [command] }
    match st.reply asDict server command with
    | .error e => some { st with raised := st.raised ++ [e] }
    | .ok st => some (st.removePending token)

end Model

/-! ### What discovery is for -/

section Spec

variable {V : Type} (server : Server V)

/-- The children a context is known to have. -/
def Server.known (p : Ctx) : List Ctx :=
  if server.fails (.getChildren p) then [] else (server.results p).ctxs

/-- The commands that discovery sends. -/
inductive Sent : Command → Prop
  | root : Sent (.getChildren "")
  | polls : Sent .updatePolls
  | context {p c : Ctx} (hp : Sent (.getChildren p)) (hc : c ∈ server.known p) :
    Sent (.getContext c p)
  | children {p c : Ctx} (hp : Sent (.getChildren p)) (hc : c ∈ server.known p) :
    Sent (.getChildren c)

/-- What is registered: the root and the contexts whose properties came, each under its parent and
    with the children that are known. -/
structure Discovers (m : CsManager V) : Prop where
  registered : ∀ c, m.forest.Mem c ↔
    c = "" ∨ ∃ p, Sent server (.getContext c p) ∧ server.fails (.getContext c p) = false
  parent : ∀ c p, c ≠ "" → m.forest.parent c = some p → Sent server (.getContext c p)
  children : ∀ c, m.forest.Mem c → m.forest.children c = server.known c

/-- What is registered does not depend on the order of the replies. -/
theorem Discovers.unique {server : Server V} {m m' : CsManager V} (h : Discovers server m)
    (h' : Discovers server m') : (∀ c, m.forest.Mem c ↔ m'.forest.Mem c) ∧
      ∀ c, m.forest.Mem c → m.forest.children c = m'.forest.children c := by
  have hmem : ∀ c, m.forest.Mem c ↔ m'.forest.Mem c := by
    intro c
    rw [h.registered, h'.registered]
  refine ⟨hmem, fun c hc => ?_⟩
  rw [h.children c hc, h'.children c ((hmem c).mp hc)]

/-- No handler has raised, and so many commands are sent at most. Once all are answered the manager
    is ready and holds what the replies named. -/
structure Completes (st : State V) : Prop where
  raised : st.raised = []
  bounded : st.answered.length + st.inFlight.length ≤ 2 * server.contexts.length + 2
  ready : st.inFlight = [] → st.isReady
  discovers : st.inFlight = [] → Discovers server st.manager

/-- The children of a context come after its properties. -/
def AfterContext (st : State V) (token : ℕ) : Prop :=
  ∀ c ∈ server.contexts, (token, Command.getChildren c) ∈ st.inFlight → server.known c ≠ [] →
    ∃ p ∈ "" :: server.contexts, Command.getContext c p ∈ st.answered ∧
      server.fails (.getContext c p) = false

instance (st : State V) : DecidablePred (AfterContext server st) :=
  fun _ => inferInstanceAs (Decidable (∀ c ∈ server.contexts, _ → _))

end Spec

end Chipscopy.Dm.Discovery
