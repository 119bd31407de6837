import Chipscopy.Dm.Manager
import Chipscopy.Lib.Machine

/-! Requests on nodes

    Calls on the nodes of a queue group wait in one queue. The first of them runs as soon as its
    node is ready; it is completed by what the method of the node returns or raises, by the reply
    that the method waits for, or by whoever cancels it. -/

namespace Chipscopy.Dm

abbrev ReqId := ℕ

inductive Failure (E : Type)
  | exception (message : String)
  | cancelError (message : String)
  | other (e : E)
  deriving DecidableEq, Repr

/-- What a node waits for. -/
inductive Token
  | command (id : ℕ)
  | request (r : ReqId)
  deriving DecidableEq, Repr

/-- The attributes of a node that requests use. -/
structure NodeState where
  request : Option ReqId
  pending : List Token
  deriving DecidableEq, Repr

def NodeState.isReady (n : NodeState) : Bool := n.pending.isEmpty

/-- A call of a `CsFutureRequestSync`. The last two fields are for statements only: how often its
    callback ran, how often it was taken out of the queue. -/
structure CsFutureRequest (R E : Type) where
  nodeId : Ctx
  nodeCls : String
  node : Option NodeRef
  requestQueue : Bool
  doneCallback : Bool
  done : Bool
  isDone : Bool
  result : Option R
  error : Option (Failure E)
  called : Bool
  cond : Bool
  callbacks : ℕ
  removals : ℕ

/-- `_invoke_done` of the base class: the callback of the user runs, and it returns. -/
def CsFutureRequest.invokeDone {R E : Type} (q : CsFutureRequest R E) : CsFutureRequest R E :=
  { q with
    isDone := true
    callbacks := if q.doneCallback then q.callbacks + 1 else q.callbacks }

/-- The requests of a queue group, and the `_invoke` calls that the event queue still owes them.
    The last three fields are for statements only. -/
structure RequestGroup (R E : Type) where
  request : ReqId → CsFutureRequest R E
  deq : List ReqId
  node : NodeRef → NodeState
  isReady : Bool
  scheduled : List ReqId
  submitted : List ReqId
  started : List ReqId
  raised : List Py.Error

/-- What the method of a node does before it returns. -/
inductive Outcome (R E : Type)
  | unbound (e : E)
  | raises (pending : List Token) (e : E)
  | returns (pending : List Token) (value : Option R)

/-- What `_invoke` finds: the node, the node in the class of the request, the method. -/
structure Seen (R E : Type) where
  node : Option NodeRef
  converted : Except E (Option NodeRef)
  outcome : Outcome R E

/-- The node is of the class of the request, or was made so. -/
def Seen.isConverted {R E : Type} (seen : Seen R E) : Bool :=
  match seen.converted with
  | .ok (some _) => true
  | _ => false

theorem Seen.exists_converted {R E : Type} {seen : Seen R E} (h : seen.isConverted = true) :
    ∃ n, seen.converted = .ok (some n) := by
  rw [isConverted] at h
  split at h
  · next n hn => exact ⟨n, hn⟩
  · exact nomatch h

namespace RequestGroup

variable {R E : Type}

/-- A request as `__init__` and `__call__` leave it. -/
def newRequest (R E : Type) (nodeId : Ctx) (nodeCls : String) (doneCallback done : Bool) :
    CsFutureRequest R E where
  nodeId := nodeId
  nodeCls := nodeCls
  node := none
  requestQueue := false
  doneCallback := doneCallback
  done := done
  isDone := false
  result := none
  error := none
  called := true
  cond := false
  callbacks := 0
  removals := 0

def init (R E : Type) : RequestGroup R E where
  request _ := newRequest R E "" "Node" false false
  deq := []
  node _ := { request := none, pending := [] }
  isReady := true
  scheduled := []
  submitted := []
  started := []
  raised := []

def setRequest (s : RequestGroup R E) (r : ReqId) (q : CsFutureRequest R E) : RequestGroup R E :=
  { s with request := Function.update s.request r q }

def setNode (s : RequestGroup R E) (n : NodeRef) (state : NodeState) : RequestGroup R E :=
  { s with node := Function.update s.node n state }

/-- `protocol.invokeLater(req._invoke)`, with or without a delay. -/
def schedule (s : RequestGroup R E) (r : ReqId) : RequestGroup R E :=
  { s with scheduled := s.scheduled ++ [r] }

/-- An exception that nobody catches: the event queue logs it, a waiting thread gets it. -/
def uncaught (s : RequestGroup R E) (e : Py.Error) : RequestGroup R E :=
  { s with raised := s.raised ++ [e] }

/-- `get_request_queue`: the request is queued once. -/
def getRequestQueue (s : RequestGroup R E) (r : ReqId) : RequestGroup R E :=
  if (s.request r).requestQueue then s
  else { s.setRequest r { s.request r with requestQueue := true } with deq := s.deq ++ [r] }

/-- The next request gets its turn. -/
def scheduleNext (s : RequestGroup R E) : RequestGroup R E :=
  match s.deq with
  | [] => s
  | next :: _ => s.schedule next

/-- `done_request` of the queue. -/
def doneRequest (s : RequestGroup R E) (r : ReqId) : Option (RequestGroup R E) :=
  if r ∈ s.deq then
    let q := { s.request r with removals := (s.request r).removals + 1 }
    some { s.setRequest r q with deq := s.deq.erase r }.scheduleNext
  else none

/-- The end of `_invoke_done`. -/
def finish (s : RequestGroup R E) (r : ReqId) : RequestGroup R E :=
  s.setRequest r { s.request r with called := false, cond := true }

/-- `_invoke_done` once the callback has run. -/
def leaveNode (s : RequestGroup R E) (r : ReqId) (n : NodeRef) : RequestGroup R E :=
  let s := s.setNode n
    { request := none, pending := (s.node n).pending.filter (· ≠ .request r) }
  if (s.request r).requestQueue then
    match s.doneRequest r with
    | some s => s.finish r
    | none => s.uncaught (.valueError "deque.remove(x): x not in deque")
  else s.finish r

/-- `_invoke_done`. -/
def invokeDone (s : RequestGroup R E) (r : ReqId) : RequestGroup R E :=
  match (s.request r).node with
  | none => (s.setRequest r (s.request r).invokeDone).uncaught
      (.attributeError "'NoneType' object has no attribute 'request'")
  | some n => (s.setRequest r (s.request r).invokeDone).leaveNode r n

def setException (s : RequestGroup R E) (r : ReqId) (error : Failure E) : RequestGroup R E :=
  (s.setRequest r { s.request r with error := some error }).invokeDone r

/-- `done_run`, the callback that the method of the node gets. -/
def doneRun (s : RequestGroup R E) (r : ReqId) (error : Option (Failure E)) (result : Option R) :
    RequestGroup R E :=
  (s.setRequest r { s.request r with error := error, result := result }).invokeDone r

/-- `cancel`, also by a thread that has waited long enough. -/
def cancel (s : RequestGroup R E) (r : ReqId) : RequestGroup R E :=
  match (s.request r).error with
  | some _ => s
  | none => s.setException r (.cancelError "Request Cancelled")

/-- `run`, and what `_invoke` keeps of its value or exception. -/
def run (s : RequestGroup R E) (r : ReqId) (n : NodeRef) : Outcome R E → RequestGroup R E
  | .unbound e => s.setRequest r { s.request r with error := some (.other e) }
  | .raises pending e =>
    let q := s.request r
    (s.setNode n { s.node n with pending := pending }).setRequest r
      { q with doneCallback := q.doneCallback || q.done, error := some (.other e) }
  | .returns pending value =>
    let q := s.request r
    (s.setNode n { s.node n with pending := pending }).setRequest r
      { q with
        doneCallback := q.doneCallback || q.done
        result := if pending = [] then value <|> q.result else q.result }

/-- `_invoke` up to the call of `run`. -/
def begin (s : RequestGroup R E) (r : ReqId) (n : NodeRef) : RequestGroup R E :=
  { (s.setRequest r { s.request r with node := some n }).setNode n
      { s.node n with request := some r } with
    started := s.started ++ [r] }

/-- The end of `_invoke`. -/
def completeAtOnce (s : RequestGroup R E) (r : ReqId) : RequestGroup R E :=
  let q := s.request r
  if q.called && q.result.isSome || q.error.isSome then s.doneRun r q.error q.result else s

/-- A node that is upgraded is a new object with the attributes of the old one. -/
def upgrade (s : RequestGroup R E) (n n' : NodeRef) : RequestGroup R E := s.setNode n' (s.node n)

/-- `_invoke` of the first request of the queue, on a node that is ready. -/
def invokeOn (s : RequestGroup R E) (r : ReqId) (n : NodeRef) (seen : Seen R E) :
    RequestGroup R E :=
  let q := s.request r
  match seen.converted with
  | .error e => s.setException r (.other e)
  | .ok none =>
    s.setException r (.exception s!"Could not find context for {q.nodeId} of type {q.nodeCls}")
  | .ok (some n') =>
    let s := s.upgrade n n'
    if (s.node n').isReady then ((s.begin r n').run r n' seen.outcome).completeAtOnce r
    else s.schedule r

/-- `_invoke` of a request that is queued. -/
def invokeQueued (s : RequestGroup R E) (r : ReqId) (n : NodeRef) (seen : Seen R E) :
    RequestGroup R E :=
  match s.deq with
  | [] => s.uncaught .indexError
  | first :: _ =>
    if r ≠ first then s
    else if (s.node n).isReady then s.invokeOn r n seen
    else s.schedule r

/-- `_invoke`. -/
def invoke (s : RequestGroup R E) (r : ReqId) (seen : Seen R E) : RequestGroup R E :=
  if s.isReady then
    match seen.node with
    | none =>
      s.setException r (.exception s!"Could not find context for {(s.request r).nodeId}")
    | some n => (s.getRequestQueue r).invokeQueued r n seen
  else s.schedule r

/-! ### Runs -/

/-- What happens to a queue group. A call on the dispatch thread invokes its request at once, one
    on another thread posts it; `pending` is what else happens to the node. -/
inductive Event (R E : Type)
  | submit (r : ReqId) (nodeId : Ctx) (nodeCls : String) (doneCallback done : Bool)
  | call (r : ReqId) (nodeId : Ctx) (nodeCls : String) (doneCallback done : Bool) (seen : Seen R E)
  | invoke (r : ReqId) (seen : Seen R E)
  | reply (r : ReqId) (error : Option (Failure E)) (result : Option R)
  | cancel (r : ReqId)
  | pending (n : NodeRef) (pending : List Token)
  | ready (isReady : Bool)

/-- A call that posts its request. -/
def submit (s : RequestGroup R E) (r : ReqId) (nodeId : Ctx) (nodeCls : String)
    (doneCallback done : Bool) : RequestGroup R E :=
  { s.setRequest r (newRequest R E nodeId nodeCls doneCallback done) with
    submitted := s.submitted ++ [r] }.schedule r

/-- The event queue calls `_invoke`. -/
def takeTurn (s : RequestGroup R E) (r : ReqId) (seen : Seen R E) : RequestGroup R E :=
  { s with scheduled := s.scheduled.erase r }.invoke r seen

/-- One event, if it can happen: a call has a request of its own, the event queue calls what it was
    given, and a method replies only when it was called. -/
def step (s : RequestGroup R E) : Event R E → Option (RequestGroup R E)
  | .submit r nodeId nodeCls doneCallback done =>
    if r ∈ s.submitted then none else some (s.submit r nodeId nodeCls doneCallback done)
  | .call r nodeId nodeCls doneCallback done seen =>
    if r ∈ s.submitted then none
    else some ((s.submit r nodeId nodeCls doneCallback done).takeTurn r seen)
  | .invoke r seen => if r ∈ s.scheduled then some (s.takeTurn r seen) else none
  | .reply r error result => if r ∈ s.started then some (s.doneRun r error result) else none
  | .cancel r => if r ∈ s.submitted then some (s.cancel r) else none
  | .pending n pending => some (s.setNode n { s.node n with pending := pending })
  | .ready isReady => some { s with isReady := isReady }

end RequestGroup

end Chipscopy.Dm
