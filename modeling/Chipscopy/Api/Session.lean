import Chipscopy.Lib.Python
import Chipscopy.Lib.Machine

/-! Sessions and their shared server connections

    Sessions to the same cs_server may share one connection. The class keeps, for an address, the
    connection and how many sessions use it; the last one that leaves closes it. -/

namespace Chipscopy.Api.Session

abbrev SessionId := ℕ

/-- A connection to a cs_server, numbered as they are opened. -/
abbrev Connection := ℕ

/-- IP and port. -/
abbrev Address := String × ℤ

/-- How a session was created. `listens` is `_register_node_listeners`. -/
structure Options where
  csServerSharing : Bool
  csServer : Option Address
  listens : Bool
  deriving DecidableEq

/-- `listening` once the node listener is registered. -/
structure SessionState where
  hwServer : Bool := false
  csServer : Option Connection := none
  listening : Bool := false
  deriving DecidableEq

/-- The state of the class and its sessions. The last two fields are a record: the connections
    that `client_disconnect` was called on, and the connected sessions whose `disconnect` raised. -/
structure State where
  session : SessionId → SessionState
  connected : List SessionId
  refCount : Py.Dict Address (ℤ × Connection)
  nextConnection : Connection
  disconnected : List Connection
  failedDisconnects : List SessionId

inductive SessionError
  | runtimeError
  | keyError
  | valueError
  | attributeError
  | external
  deriving DecidableEq

/-- Where an exception leaves `connect`: in `connect_hw_server`, when the address is looked up or
    the connection opened, in `connect_remote` or `connect_xvc`, before all listeners are
    registered, and after that. -/
inductive Failure
  | hwServer
  | opening
  | remote
  | checking (runtime : Bool)
  | scanning (runtime : Bool)
  deriving DecidableEq

/-- No session is connected. -/
def State.initial : State where
  session _ := {}
  connected := []
  refCount := Py.Dict.empty
  nextConnection := 0
  disconnected := []
  failedDisconnects := []

def State.setSession (st : State) (s : SessionId) (x : SessionState) : State :=
  { st with session := Function.update st.session s x }

def State.addConnection (st : State) (s : SessionId) : State :=
  { st with connected := if s ∈ st.connected then st.connected else st.connected ++ [s] }

variable (options : SessionId → Options)

def connectCsServer (s : SessionId) (failure : Option Failure) (st : State) :
    State × Option SessionError :=
  match (options s).csServer with
  | none => (st, none)
  | some address =>
    if (st.session s).csServer ≠ none then (st, some .runtimeError)
    else if failure = some .opening then (st, some .external)
    else
      let shared := if (options s).csServerSharing then st.refCount.get? address else none
      let (entry, next) := match shared with
        | some entry => (entry, st.nextConnection)
        | none => ((0, st.nextConnection), st.nextConnection + 1)
      let server := entry.2
      let st := { st with
        refCount := st.refCount.set address (entry.1 + 1, server)
        nextConnection := next }
      if failure = some .remote then (st, some .external)
      else (st.setSession s { st.session s with csServer := some server }, none)

/-- Disconnecting the remote server, its views and the look-up of its name are taken to succeed. -/
def disconnectCsServer (s : SessionId) (st : State) : State × Option SessionError :=
  match (st.session s).csServer, (options s).csServer with
  | none, _ => (st, none)
  | some _, none => (st, some .attributeError)
  | some _, some address =>
    match st.refCount.get? address with
    | none => (st, some .runtimeError)
    | some (refCnt, server) =>
      let refCnt := refCnt - 1
      if (st.session s).hwServer = false then (st, some .attributeError)
      else
        let st := st.setSession s { st.session s with csServer := none }
        if refCnt = 0 ∨ (options s).csServerSharing = false then
          ({ st with
            refCount := st.refCount.erase address
            disconnected := st.disconnected ++ [server] }, none)
        else ({ st with refCount := st.refCount.set address (refCnt, server) }, none)

/-- `disconnect`. A listener that is not registered cannot be removed. -/
def disconnectSession (s : SessionId) (st : State) : State × Option SessionError :=
  let x := st.session s
  if (options s).listens ∧ x.hwServer ∧ ¬ x.listening then (st, some .valueError)
  else
    let st := st.setSession s { x with listening := x.listening && !(options s).listens }
    match disconnectCsServer options s st with
    | (st, some e) => (st, some e)
    | (st, none) =>
      let st := st.setSession s { st.session s with hwServer := false }
      if s ∈ st.connected then ({ st with connected := st.connected.erase s }, none)
      else (st, some .keyError)

/-- With the record of connected sessions for which it raised. -/
def disconnect (s : SessionId) (st : State) : State × Option SessionError :=
  match disconnectSession options s st with
  | (st', some e) => ({ st' with
      failedDisconnects := st'.failedDisconnects ++ if s ∈ st.connected then [s] else [] }, some e)
  | out => out

/-- A `RuntimeError` disconnects before it is raised again. -/
def handleException (s : SessionId) (runtime : Bool) (st : State) : State × Option SessionError :=
  if runtime then
    match disconnect options s st with
    | (st, some e) => (st, some e)
    | (st, none) => (st, some .runtimeError)
  else (st, some .external)

def connect (s : SessionId) (failure : Option Failure) (st : State) :
    State × Option SessionError :=
  if (st.session s).hwServer then (st, some .runtimeError)
  else if failure = some .hwServer then (st, some .external)
  else
    let st := st.setSession s { st.session s with hwServer := true }
    match connectCsServer options s failure st with
    | (st, some e) => (st, some e)
    | (st, none) =>
      let st := st.addConnection s
      let listening := st.setSession s { st.session s with listening := (options s).listens }
      match failure with
      | some (.checking runtime) => handleException options s runtime st
      | some (.scanning runtime) => handleException options s runtime listening
      | _ => (listening, none)

/-- Exceptions are passed over, and both dictionaries are emptied. -/
def disconnectAllSessions (st : State) : State :=
  let st := st.connected.foldl (fun st s => (disconnect options s st).1) st
  { st with connected := [], refCount := Py.Dict.empty }

inductive Call
  | connect (s : SessionId) (failure : Option Failure)
  | disconnect (s : SessionId)
  | disconnectAllSessions

def step (st : State) : Call → Option State
  | .connect s failure => some (connect options s failure st).1
  | .disconnect s => some (disconnect options s st).1
  | .disconnectAllSessions => some (disconnectAllSessions options st)

/-! ### What is promised -/

/-- Connected sessions that use a connection. -/
def State.users (st : State) (c : Connection) : ℕ :=
  st.connected.countP fun s => (st.session s).csServer = some c

/-- Counts are the numbers of users, a connection is closed once, when it has no user, and no
    `disconnect` of a connected session raised. -/
structure Sound (st : State) : Prop where
  nodup : st.connected.Nodup
  registered : ∀ s c, (st.session s).csServer = some c → s ∈ st.connected
  counted : ∀ address n c, st.refCount.get? address = some (n, c) → n = st.users c
  closedOnce : ∀ c < st.nextConnection,
    st.disconnected.count c = if st.users c = 0 then 1 else 0
  usable : ∀ s c, (st.session s).csServer = some c → c ∉ st.disconnected
  quiet : st.failedDisconnects = []

/-- The connection of a session is still the one that is stored, and no other uses it if this one
    does not share. -/
def Releasable (st : State) (s : SessionId) (others : List SessionId) : Prop :=
  ∀ c ∈ (st.session s).csServer,
    (∃ address ∈ (options s).csServer, ∃ entry ∈ st.refCount.get? address, entry.2 = c) ∧
    ((options s).csServerSharing ∨ ∀ r ∈ others, (st.session r).csServer ≠ some c)

/-- A connected session that can leave while the others are there. -/
def Ready (st : State) (s : SessionId) (others : List SessionId) : Prop :=
  ((options s).listens → (st.session s).listening) ∧ Releasable options st s others

/-- Each one while those after it are there. -/
def EachReady (st : State) : List SessionId → Prop
  | [] => True
  | s :: others => Ready options st s others ∧ EachReady st others

/-- A connect does not fail between the count and the end of `connect_cs_server`, nor with a
    `RuntimeError` before the listeners it removes are there. Who disconnects is ready. -/
def Allowed (st : State) : Call → Prop
  | .connect s failure => (st.session s).hwServer ∨
    ((failure = some .remote → (options s).csServer = none) ∧
      (failure = some (.checking true) → (options s).listens = false))
  | .disconnect s => s ∈ st.connected → Ready options st s (st.connected.erase s)
  | .disconnectAllSessions => EachReady options st st.connected

/-- `disconnect` of a connected session does not raise. -/
def Quiet (st : State) : Call → State → Prop
  | .disconnect s, _ => s ∈ st.connected → (disconnect options s st).2 = none
  | _, _ => True

instance (st : State) (s : SessionId) (others : List SessionId) :
    Decidable (Releasable options st s others) :=
  inferInstanceAs (Decidable (∀ c ∈ (st.session s).csServer,
    (∃ address ∈ (options s).csServer, ∃ entry ∈ st.refCount.get? address, entry.2 = c) ∧
    ((options s).csServerSharing ∨ ∀ r ∈ others, (st.session r).csServer ≠ some c)))

instance (st : State) (s : SessionId) (others : List SessionId) :
    Decidable (Ready options st s others) :=
  inferInstanceAs (Decidable (((options s).listens → (st.session s).listening) ∧
    Releasable options st s others))

instance decidableEachReady (st : State) : ∀ l, Decidable (EachReady options st l)
  | [] => inferInstanceAs (Decidable True)
  | s :: others =>
    have := decidableEachReady st others
    inferInstanceAs (Decidable (Ready options st s others ∧ EachReady options st others))

instance (st : State) : ∀ call, Decidable (Allowed options st call)
  | .connect s failure => inferInstanceAs (Decidable ((st.session s).hwServer ∨
      ((failure = some .remote → (options s).csServer = none) ∧
        (failure = some (.checking true) → (options s).listens = false))))
  | .disconnect s => inferInstanceAs (Decidable (s ∈ st.connected →
      Ready options st s (st.connected.erase s)))
  | .disconnectAllSessions => inferInstanceAs (Decidable (EachReady options st st.connected))

end Chipscopy.Api.Session
