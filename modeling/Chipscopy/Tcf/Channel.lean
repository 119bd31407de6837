import Chipscopy.Lib.IntLiteral
import Chipscopy.Lib.Machine
import Chipscopy.Tcf.Messages

/-! The TCF channel

    Commands wait in a queue for the transmitter, and in a table for their replies. The dispatch
    thread runs what was left to it, one job after the other, while the transmitter and the reader
    go on at any time. The remote peer may send anything. -/

namespace Chipscopy.Tcf

/-! ### Commands -/

inductive CommandError
  | refused
  | rejected
  | aborted
  deriving DecidableEq, Repr

/-- What happens to a command. Its listener is told, except when it is cancelled. -/
inductive Happening
  | progress (data : List UInt8)
  | result (data : List UInt8)
  | terminated (error : CommandError)
  | canceled
  deriving DecidableEq, Repr

def Happening.isFinal : Happening → Bool
  | .progress _ => false
  | _ => true

/-- A `Command` with its message. `isAccepted` says that `sendCommand` has not raised. The log is
    for statements only. -/
structure Command where
  message : Message
  isAccepted : Bool
  isCanceled : Bool := false
  isSent : Bool := false
  isDone : Bool := false
  log : List Happening := []
  deriving DecidableEq, Repr

/-- A call of the listener, unless an assertion fails. -/
def Command.call (cmd : Command) (h : Happening) : Option Command :=
  if cmd.isDone then none else some { cmd with isDone := h.isFinal, log := cmd.log ++ [h] }

/-! ### The channel -/

/-- `STATE_OPENING`, `STATE_OPEN` and `STATE_CLOSED`. -/
inductive ChannelState
  | opening
  | opened
  | closed
  deriving DecidableEq, Repr

/-- An entry of `out_queue`. -/
inductive Entry
  | command (id : ℕ)
  | message (msg : Message)
  | stop
  deriving DecidableEq, Repr

def Entry.command? : Entry → Option ℕ
  | .command id => some id
  | _ => none

/-- What is left to the dispatch thread. -/
inductive Job
  | error (id : ℕ)
  | handleInput (msg : Message)
  | handleEOS (report : Bool)
  | terminate
  | closed (error : Bool)
  deriving DecidableEq, Repr

/-- `written` is what the transmitter has taken. `refused`, `closings` and `received` are for
    statements only. Redirection, `setProxy` and trace listeners are left out, and the arguments
    of a command on an open channel can be encoded. -/
structure Channel where
  state : ChannelState
  tokenCnt : ℕ
  commands : ℕ → Option Command
  outTokens : List ℕ
  outQueue : List Entry
  written : List Entry
  isWriting : Bool
  isReading : Bool
  zeroCopy : Bool
  remoteCongestionLevel : ℤ
  localCongestionLevel : ℤ
  localCongestionCnt : ℕ
  localCongestionTime : ℤ
  jobs : List Job
  refused : List ℕ
  closings : List Bool
  received : List Message

def Channel.initial (tokenCnt : ℕ) : Channel where
  state := .opening
  tokenCnt := tokenCnt
  commands _ := none
  outTokens := []
  outQueue := []
  written := []
  isWriting := true
  isReading := true
  zeroCopy := false
  remoteCongestionLevel := -100
  localCongestionLevel := -100
  localCongestionCnt := 0
  localCongestionTime := 0
  jobs := []
  refused := []
  closings := []
  received := []

/-- What users do on the dispatch thread. A reply has one of the types `P`, `R` and `N`. -/
inductive Act
  | command (service name : String) (args : Option (List UInt8))
  | cancel (id : ℕ)
  | close
  | terminate
  | reply (type : Char) (token : String) (data : Option (List UInt8))
  | event (service name : String) (args : Option (List UInt8))
  | token

namespace Channel

def setCommand (c : Channel) (id : ℕ) (cmd : Command) : Channel :=
  { c with commands := Function.update c.commands id (some cmd) }

def addToOutQueue (c : Channel) (e : Entry) : Channel := { c with outQueue := c.outQueue ++ [e] }

def invokeLater (c : Channel) (job : Job) : Channel := { c with jobs := c.jobs ++ [job] }

/-- `Command.__init__` with `sendCommand`. -/
def sendCommand (c : Channel) (service name : String) (args : Option (List UInt8)) : Channel :=
  let id := c.tokenCnt
  let message : Message := { type := 'C', token := toString id, service, name, data := args }
  let c := { c with tokenCnt := id + 1 }
  if c.state = .opened then
    ({ c with outTokens := c.outTokens ++ [id] }.setCommand id
      { message, isAccepted := true }).addToOutQueue (.command id)
  else (c.setCommand id { message, isAccepted := false }).invokeLater (.error id)

/-- `cancel` of a token. Without an entry in the table it raises a `KeyError` in the end. -/
def cancel (c : Channel) (id : ℕ) : Channel :=
  match c.commands id with
  | none => c
  | some cmd =>
    if c.state ≠ .opened ∨ cmd.isAccepted = false ∨ cmd.isSent = true then c
    else if id ∈ c.outTokens then
      { c with outTokens := c.outTokens.erase id }.setCommand id
        { cmd with isCanceled := true, log := cmd.log ++ [Happening.canceled] }
    else c.setCommand id { cmd with isCanceled := true }

/-- `close` and `terminate`, which drop what is not sent yet. -/
def shut (c : Channel) (error : Bool) : Channel :=
  if c.state = .closed then c
  else { c with state := .closed, outQueue := [.stop] }.invokeLater (.closed error)

def close (c : Channel) : Channel := c.shut false

def terminate (c : Channel) : Channel := c.shut true

def sendReply (c : Channel) (type : Char) (token : String) (data : Option (List UInt8)) : Channel :=
  if c.state = .opened then c.addToOutQueue (.message { type, token, data }) else c

/-- `LocatorService.NAME` -/
def locatorName : String := "Locator"

def sendEvent (c : Channel) (service name : String) (args : Option (List UInt8)) : Channel :=
  if c.state = .opened ∨ c.state = .opening ∧ service = locatorName then
    c.addToOutQueue (.message { type := 'E', service, name, data := args })
  else c

def perform (c : Channel) : Act → Channel
  | .command service name args => c.sendCommand service name args
  | .cancel id => c.cancel id
  | .close => c.close
  | .terminate => c.terminate
  | .reply type token data => c.sendReply type token data
  | .event service name args => c.sendEvent service name args
  | .token => { c with tokenCnt := c.tokenCnt + 1 }

def performAll (c : Channel) (acts : List Act) : Channel := acts.foldl perform c

/-! ### Input -/

/-- What listeners do when they are called, and what the clock and the event queue say. -/
structure Reaction where
  command : ℕ → List Act
  others : List Act
  time : ℤ
  level : ℤ

/-- A message of type `F` is the first of the queue. -/
def putLevel (data : Option (List UInt8)) : List Entry → List Entry
  | .message first :: rest =>
    if first.type = 'F' then .message { first with data } :: rest
    else .message { type := 'F', data } :: .message first :: rest
  | queue => .message { type := 'F', data } :: queue

/-- `__sendCongestionLevel` -/
def sendCongestionLevel (c : Channel) (r : Reaction) : Channel :=
  let cnt := c.localCongestionCnt + 1
  if cnt < 8 then { c with localCongestionCnt := cnt }
  else
    let c := { c with localCongestionCnt := 0 }
    if c.state ≠ .opened then c
    else if r.time - c.localCongestionTime < 500 then c
    else if r.level = c.localCongestionLevel then c
    else
      let i := (r.level - c.localCongestionLevel).tdiv 8
      let level := if i ≠ 0 then c.localCongestionLevel + i else r.level
      let data := some (utf8 (toString c.localCongestionLevel) ++ [0])
      { c with
        outQueue := putLevel data c.outQueue
        localCongestionTime := r.time
        localCongestionLevel := level }

/-- A call of a listener. True means that its assertion has failed. -/
def listen (c : Channel) (id : ℕ) (h : Happening) : Channel × Bool :=
  match (c.commands id).bind (·.call h) with
  | none => ({ c with refused := c.refused ++ [id] }, true)
  | some cmd => (c.setCommand id cmd, false)

/-- What a reply tells a listener. -/
def happening (msg : Message) : Happening :=
  if msg.type = 'P' then .progress (msg.data.getD [])
  else if msg.type = 'R' then .result (msg.data.getD [])
  else .terminated .rejected

/-- A message of type `P`, `R` or `N`. -/
def handleReply (c : Channel) (r : Reaction) (msg : Message) : Channel :=
  match c.outTokens.find? fun id => msg.token = some (toString id) with
  | none => c.terminate
  | some id =>
    let outTokens := if msg.type ≠ 'P' then c.outTokens.erase id else c.outTokens
    let c := { c with outTokens }
    match c.listen id (happening msg) with
    | (c, true) => c.terminate
    | (c, false) =>
      let c := c.performAll (r.command id)
      if msg.type = 'N' then c else c.sendCongestionLevel r

/-- `int(data)` for bytes. -/
def readLevel (data : List UInt8) : Option ℤ :=
  if data.any (128 ≤ ·) then none
  else (IntLiteral.int 10 (data.map fun b => Char.ofNat b.toNat)).toOption

/-- What the code outside says: the services with a command server, and the names in the `Hello`
    message of a peer, if it can be read. -/
structure Environment where
  isServed : String → Bool
  helloServices : List UInt8 → Option (List String)

variable (env : Environment)

/-- The `Hello` message, which opens the channel. -/
def handleHello (c : Channel) (r : Reaction) (data : List UInt8) : Channel :=
  match env.helloServices data with
  | none => c.terminate
  | some names =>
    let c := { c with zeroCopy := names.contains "ZeroCopy" }
    if c.state ≠ .opening then c.terminate
    else { c with state := .opened }.performAll r.others

def handleInput (c : Channel) (r : Reaction) (msg : Message) : Channel :=
  if c.state = .closed then c
  else if msg.type = 'P' ∨ msg.type = 'R' ∨ msg.type = 'N' then c.handleReply r msg
  else if msg.type = 'C' then
    if c.state = .opening then c.terminate
    else if env.isServed (msg.service.getD "") then c.performAll r.others
    else c.sendReply 'N' (msg.token.getD "") none
  else if msg.type = 'E' then
    if msg.service = locatorName ∧ msg.name = "Hello" then
      c.handleHello env r (msg.data.getD [])
    else (c.performAll r.others).sendCongestionLevel r
  else
    let data := msg.data.getD []
    match readLevel (if data.getLast? = some 0 then data.dropLast else data) with
    | none => c.terminate
    | some level => { c with remoteCongestionLevel := level }

/-- The listeners of commands are told that these are aborted. -/
def abort (c : Channel) (r : Reaction) (ids : List ℕ) : Channel :=
  ids.foldl (fun c id =>
    ((c.listen id (.terminated .aborted)).1).performAll (r.command id)) c

/-- The job that `_close` leaves. -/
def windUp (c : Channel) (r : Reaction) (error : Bool) : Channel :=
  let c := c.abort r c.outTokens
  { c with outTokens := [], closings := c.closings ++ [error] }.performAll r.others

def runJob (c : Channel) (r : Reaction) : Job → Channel
  | .error id => ((c.listen id (.terminated .refused)).1).performAll (r.command id)
  | .handleInput msg => c.handleInput env r msg
  | .handleEOS report => if c.outTokens = [] ∧ report = false then c.close else c.terminate
  | .terminate => c.terminate
  | .closed error => c.windUp r error

/-! ### Steps -/

/-- One round of the transmitter. It marks a command under the lock. -/
def transmit (c : Channel) : Option Channel :=
  if c.isWriting = false then none
  else
    match c.outQueue with
    | [] => none
    | .stop :: outQueue => some { c with outQueue, isWriting := false }
    | .message msg :: outQueue =>
      some { c with outQueue, written := c.written ++ [Entry.message msg] }
    | .command id :: outQueue =>
      let c := { c with outQueue }
      match c.commands id with
      | none => some c
      | some cmd =>
        if cmd.isCanceled then some c
        else some ({ c with written := c.written ++ [Entry.command id] }.setCommand id
          { cmd with isSent := true })

end Channel

inductive Event
  | act (act : Act)
  | dispatch (r : Channel.Reaction)
  | transmit
  | transmitFails
  | receive (msg : Message)
  | endOfStream (report : Bool)
  | readFails

/-- One event, unless it cannot happen. -/
def Channel.step (env : Environment) (c : Channel) : Event → Option Channel
  | .act act => some (c.perform act)
  | .dispatch r =>
    match c.jobs with
    | [] => none
    | job :: jobs => some ({ c with jobs }.runJob env r job)
  | .transmit => c.transmit
  | .transmitFails =>
    c.transmit.map fun c => { c with isWriting := false }.invokeLater .terminate
  | .receive msg =>
    if c.isReading then
      some ({ c with received := c.received ++ [msg] }.invokeLater (.handleInput msg))
    else none
  | .endOfStream report =>
    if c.isReading then some ({ c with isReading := false }.invokeLater (.handleEOS report))
    else none
  | .readFails =>
    if c.isReading then some ({ c with isReading := false }.invokeLater .terminate) else none

end Chipscopy.Tcf
