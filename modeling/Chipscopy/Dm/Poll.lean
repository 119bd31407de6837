import Chipscopy.Lib.Method
import Chipscopy.Lib.Machine

/-! The poll scheduler

    Polls run in the server. The scheduler keeps a description of each under its ID and the IDs of
    the polls of each parent node. The number of retains and the event listeners stand inside the
    description, which notifications and replies replace. -/

namespace Chipscopy.Dm.Polling

abbrev Handler := ℕ
abbrev Token := ℕ

/-- What the server says of a poll. -/
structure DebugCorePoll where
  id : Option String
  parentId : Option String
  deriving DecidableEq, Repr

/-- A non-empty string. -/
def truthy (text : Option String) : Option String := text.filter (· ≠ "")

/-- A poll of the scheduler. -/
structure Poll where
  props : DebugCorePoll
  refCount : Option ℤ
  eventListeners : Option (Finset Handler)
  deriving DecidableEq

namespace Poll

def count (poll : Poll) : ℤ := poll.refCount.getD 0

def listeners (poll : Poll) : Finset Handler := poll.eventListeners.getD ∅

def parent (poll : Poll) : Option String := truthy poll.props.parentId

/-- With one more in `ref_count`, which may be missing. -/
def retained (poll : Poll) : Poll :=
  { poll with refCount := match poll.refCount with
    | none => some 1
    | some n => some (n + 1) }

/-- With one less. -/
def released (poll : Poll) : Poll := { poll with refCount := some (poll.count - 1) }

def listening (poll : Poll) (eventHandler : Handler) : Poll :=
  { poll with eventListeners := some (insert eventHandler poll.listeners) }

end Poll

/-- Commands of the polling service. -/
inductive Message
  | getPolls (node : String)
  | getContext (poll : String)
  | addPoll (node name : String) (period : ℤ)
  | removePoll (poll : String)
  | retainPoll (poll : String)
  deriving DecidableEq, Repr

/-- What waits for a reply, or for the dispatch thread. `done` says whether the caller gave a
    callback. -/
inductive Request
  | getPolls (node : String) (done : Bool)
  | getContext (update : Token) (node : String) (done : Bool)
  | addPoll (eventHandler : Option Handler) (done : Bool)
  | removePoll (done : Bool)
  | retainPoll (poll : String) (eventHandler : Option Handler) (done : Bool)
  | laterRetain (poll : String) (eventHandler : Option Handler)
  | laterDone
  deriving DecidableEq, Repr

/-- Results that callbacks get. -/
inductive Result
  | none
  | poll (id : String)
  | polls (ids : Finset String)
  deriving DecidableEq

/-- The scheduler, its requests, and what it has sent and notified. -/
structure State where
  polls : Py.Dict String Poll
  nodes : Py.Dict String (Finset String)
  pending : Token → Finset Token
  requests : Py.Dict Token Request
  tokens : ℕ
  sent : List Message
  notified : List (Token × Option Py.Error × Result)

def State.initial : State where
  polls := Py.Dict.empty
  nodes := Py.Dict.empty
  pending _ := ∅
  requests := Py.Dict.empty
  tokens := 0
  sent := []
  notified := []

namespace State

/-! ### Requests -/

/-- A new token, for nothing. -/
def token (s : State) : State := { s with tokens := s.tokens + 1 }

/-- A token for the dispatch thread or for a command. -/
def later (r : Request) (s : State) : State :=
  { s.token with requests := s.requests.set s.tokens r }

def send (m : Message) (r : Request) (s : State) : State :=
  { s.later r with sent := s.sent ++ [m] }

def finish (t : Token) (s : State) : State := { s with requests := s.requests.erase t }

/-- `if done: done(token, error, result)`. -/
def notify (done : Bool) (t : Token) (error : Option Py.Error) (result : Result) (s : State) :
    State :=
  if done then { s with notified := s.notified ++ [(t, error, result)] } else s

/-! ### Descriptions of polls -/

/-- `_add_poll`. -/
def addPoll (poll : DebugCorePoll) (s : State) : State :=
  match truthy poll.id with
  | none => s
  | some pollId =>
    let s := { s with polls := s.polls.set pollId ⟨poll, none, none⟩ }
    match truthy poll.parentId with
    | none => s
    | some parentId =>
      { s with nodes := s.nodes.set parentId (insert pollId ((s.nodes.get? parentId).getD ∅)) }

/-- `_remove_poll`. -/
def removePoll (pollCtx : String) (s : State) : Py.Outcome State :=
  match s.polls.get? pollCtx with
  | none => (s, none)
  | some poll =>
    let o : Py.Outcome State := match poll.parent with
      | none => (s, none)
      | some parentId =>
        match s.nodes.get? parentId with
        | none => (s, some (.keyError parentId))
        | some ids =>
          if pollCtx ∈ ids then
            ({ s with nodes := s.nodes.set parentId (ids.erase pollCtx) }, none)
          else (s, some (.keyError pollCtx))
    o.andThen fun s => ({ s with polls := s.polls.erase pollCtx }, none)

def storePoll (pollId : String) (poll : Poll) (s : State) : State :=
  { s with polls := s.polls.set pollId poll }

/-- A change of `self.polls[poll_id]`. -/
def modifyPoll (pollId : String) (f : Poll → Poll) (s : State) : Py.Outcome State :=
  match s.polls.get? pollId with
  | none => (s, some (.keyError pollId))
  | some poll => (s.storePoll pollId (f poll), none)

/-- `_add_event_listener`. -/
def addEventListener (pollId : String) (eventHandler : Handler) (s : State) : Py.Outcome State :=
  s.modifyPoll pollId fun poll => poll.listening eventHandler

/-- `_remove_event_listener`. The key that it looks up is `even_listeners`, which no poll has, and
    the error of the lookup is dropped. -/
def removeEventListener (pollId : String) (_eventHandler : Handler) (s : State) : Py.Outcome State :=
  match s.polls.get? pollId with
  | none => (s, some (.keyError pollId))
  | some _ => (s, none)

/-- `_retain_poll`. -/
def retain (pollId : String) (s : State) : Py.Outcome State :=
  s.modifyPoll pollId Poll.retained

/-- `_get_ref_count`, if there is a poll. -/
def refCount (pollId : String) (s : State) : Option ℤ := (s.polls.get? pollId).map Poll.count

/-- `_release_poll`. -/
def release (pollId : String) (s : State) : Py.Outcome State :=
  match s.polls.get? pollId with
  | none => (s, some (.keyError pollId))
  | some poll =>
    if 0 < poll.count then s.modifyPoll pollId Poll.released
    else (s, some (.assertionError ""))

/-- What is done when a poll is scheduled or retained. -/
def subscribe (pollId : String) (eventHandler : Option Handler) (s : State) : Py.Outcome State :=
  let o : Py.Outcome State := match eventHandler with
    | some h => s.addEventListener pollId h
    | none => (s, none)
  o.andThen fun s => s.retain pollId

/-! ### Calls -/

/-- `update_polls`. -/
def updatePolls (nodeId : String) (done : Bool) (s : State) : State :=
  { s.send (.getPolls nodeId) (.getPolls nodeId done) with
    pending := Function.update s.pending s.tokens {s.tokens} }

/-- `schedule_poll`. -/
def schedulePoll (nodeCtx name : String) (period : ℤ) (eventHandler : Option Handler) (done : Bool)
    (s : State) : State :=
  s.send (.addPoll nodeCtx name period) (.addPoll eventHandler done)

/-- `release_poll`. -/
def releasePoll (pollCtx : String) (eventHandler : Option Handler) (done : Bool) (s : State) :
    Py.Outcome State :=
  let o : Py.Outcome State := match eventHandler with
    | some h => s.removeEventListener pollCtx h
    | none => (s, none)
  o.andThen fun s => (s.release pollCtx).andThen fun s =>
    if s.refCount pollCtx = some 0 then (s.send (.removePoll pollCtx) (.removePoll done), none)
    else (if done then s.later .laterDone else s.token, none)

/-- `retain_poll`. -/
def retainPoll (pollCtx : String) (eventHandler : Option Handler) (done : Bool) (s : State) :
    Py.Outcome State :=
  match s.polls.get? pollCtx with
  | none => (s, some (.assertionError ""))
  | some poll =>
    if poll.count ≠ 0 then
      (if done then s.later (.laterRetain pollCtx eventHandler) else s.token, none)
    else (s.send (.retainPoll pollCtx) (.retainPoll pollCtx eventHandler done), none)

/-! ### Replies and events -/

/-- The handlers that `poll_event` calls. -/
def pollEvent (pollCtx : String) (s : State) : Finset Handler :=
  match s.polls.get? pollCtx with
  | none => ∅
  | some poll => poll.listeners

/-- `getContext` for one of the polls of an update. -/
def getContext (update : Token) (node : String) (done : Bool) (s : State) (pollId : String) :
    State :=
  { s.send (.getContext pollId) (.getContext update node done) with
    pending := Function.update s.pending update (insert s.tokens (s.pending update)) }

/-- `pending.remove(token)`. -/
def settle (update t : Token) (s : State) : State :=
  { s with pending := Function.update s.pending update ((s.pending update).erase t) }

/-- `done_get_polls`. -/
def doneGetPolls (t : Token) (node : String) (done : Bool) (reply : Except Py.Error (List String))
    (s : State) : State :=
  let s := s.settle t t
  let s := match reply with
    | .error _ => s
    | .ok pollIds => pollIds.foldl (getContext t node done) s
  if s.pending t = ∅ then s.notify done t none (.polls ∅) else s

/-- `done_poll_update`. -/
def donePollUpdate (t update : Token) (node : String) (done : Bool)
    (reply : Except Py.Error DebugCorePoll) (s : State) : Py.Outcome State :=
  let s := s.settle update t
  match reply with
  | .error _ => (s, some (.attributeError "'NoneType' object has no attribute 'get'"))
  | .ok poll =>
    let s := s.addPoll poll
    if s.pending update = ∅ ∧ done then
      if node = "" then (s.notify done update none (.polls s.polls.keys.toFinset), none)
      else match s.nodes.get? node with
        | none => (s, some (.keyError node))
        | some ids => (s.notify done update none (.polls ids), none)
    else (s, none)

/-- `done_add_poll`. -/
def doneAddPoll (t : Token) (eventHandler : Option Handler) (done : Bool)
    (reply : Except Py.Error String) (s : State) : Py.Outcome State :=
  match reply with
  | .error e => (s.notify done t (some e) .none, none)
  | .ok pollId =>
    (s.subscribe pollId eventHandler).andThen fun s => (s.notify done t none (.poll pollId), none)

/-- `done_retain`. -/
def doneRetain (t : Token) (pollCtx : String) (eventHandler : Option Handler) (done : Bool)
    (error : Option Py.Error) (s : State) : Py.Outcome State :=
  match error with
  | some e => (s.notify done t (some e) .none, none)
  | none =>
    (s.subscribe pollCtx eventHandler).andThen fun s => (s.notify done t none .none, none)

end State

/-- What can happen: notifications of the server, calls, replies, and the dispatch thread. -/
inductive Action
  | pollAdded (poll : DebugCorePoll)
  | pollRemoved (pollCtx : String)
  | pollEvent (pollCtx : String)
  | updatePolls (nodeId : String) (done : Bool)
  | schedulePoll (nodeCtx name : String) (period : ℤ) (eventHandler : Option Handler) (done : Bool)
  | releasePoll (pollCtx : String) (eventHandler : Option Handler) (done : Bool)
  | retainPoll (pollCtx : String) (eventHandler : Option Handler) (done : Bool)
  | getPollsReply (t : Token) (reply : Except Py.Error (List String))
  | getContextReply (t : Token) (reply : Except Py.Error DebugCorePoll)
  | addPollReply (t : Token) (reply : Except Py.Error String)
  | removePollReply (t : Token) (error : Option Py.Error)
  | retainPollReply (t : Token) (error : Option Py.Error)
  | dispatch (t : Token)

/-- The state after an action and what it raised. There is no reply without a request. -/
def Action.perform (s : State) : Action → Option (Py.Outcome State)
  | .pollAdded poll => some (s.addPoll poll, none)
  | .pollRemoved pollCtx => some (s.removePoll pollCtx)
  | .pollEvent _ => some (s, none)
  | .updatePolls nodeId done => some (s.updatePolls nodeId done, none)
  | .schedulePoll nodeCtx name period eventHandler done =>
    some (s.schedulePoll nodeCtx name period eventHandler done, none)
  | .releasePoll pollCtx eventHandler done => some (s.releasePoll pollCtx eventHandler done)
  | .retainPoll pollCtx eventHandler done => some (s.retainPoll pollCtx eventHandler done)
  | .getPollsReply t reply =>
    match s.requests.get? t with
    | some (.getPolls node done) => some ((s.finish t).doneGetPolls t node done reply, none)
    | _ => none
  | .getContextReply t reply =>
    match s.requests.get? t with
    | some (.getContext update node done) =>
      some ((s.finish t).donePollUpdate t update node done reply)
    | _ => none
  | .addPollReply t reply =>
    match s.requests.get? t with
    | some (.addPoll eventHandler done) => some ((s.finish t).doneAddPoll t eventHandler done reply)
    | _ => none
  | .removePollReply t error =>
    match s.requests.get? t with
    | some (.removePoll done) => some ((s.finish t).notify done t error .none, none)
    | _ => none
  | .retainPollReply t error =>
    match s.requests.get? t with
    | some (.retainPoll pollCtx eventHandler done) =>
      some ((s.finish t).doneRetain t pollCtx eventHandler done error)
    | _ => none
  | .dispatch t =>
    match s.requests.get? t with
    | some (.laterRetain pollCtx eventHandler) =>
      some ((s.finish t).doneRetain t pollCtx eventHandler true none)
    | some .laterDone => some ((s.finish t).notify true t none .none, none)
    | _ => none

/-! ### What callers have done -/

/-- For each poll ID, successful schedules and retains less releases, and the handlers that were
    named by a release after they were last given to one of the former. -/
structure Ledger where
  balance : String → ℤ
  released : String → Finset Handler

namespace Ledger

def withSubscription (ledger : Ledger) (poll : String) (eventHandler : Option Handler) : Ledger where
  balance := Function.update ledger.balance poll (ledger.balance poll + 1)
  released := Function.update ledger.released poll
    (ledger.released poll \ eventHandler.toFinset)

def withRelease (ledger : Ledger) (poll : String) (eventHandler : Option Handler) : Ledger where
  balance := Function.update ledger.balance poll (ledger.balance poll - 1)
  released := Function.update ledger.released poll
    (ledger.released poll ∪ eventHandler.toFinset)

/-- A retain that needs no command is successful at once, or when its callback is due. -/
def record (ledger : Ledger) (s : State) (raised : Option Py.Error) : Action → Ledger
  | .addPollReply t (.ok pollId) =>
    match s.requests.get? t with
    | some (.addPoll eventHandler _) => ledger.withSubscription pollId eventHandler
    | _ => ledger
  | .retainPollReply t none =>
    match s.requests.get? t with
    | some (.retainPoll pollCtx eventHandler _) => ledger.withSubscription pollCtx eventHandler
    | _ => ledger
  | .dispatch t =>
    match s.requests.get? t with
    | some (.laterRetain pollCtx eventHandler) => ledger.withSubscription pollCtx eventHandler
    | _ => ledger
  | .retainPoll pollCtx eventHandler false =>
    if s.refCount pollCtx = none ∨ s.refCount pollCtx = some 0 then ledger
    else ledger.withSubscription pollCtx eventHandler
  | .releasePoll pollCtx eventHandler _ =>
    if raised = none then ledger.withRelease pollCtx eventHandler else ledger
  | _ => ledger

end Ledger

/-- The scheduler with the record of its use. -/
structure World where
  state : State
  ledger : Ledger

def World.initial : World := ⟨State.initial, ⟨fun _ => 0, fun _ => ∅⟩⟩

def step (w : World) (a : Action) : Option World :=
  (a.perform w.state).map fun o => ⟨o.1, w.ledger.record w.state o.2 a⟩

end Chipscopy.Dm.Polling
