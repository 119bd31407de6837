import Chipscopy.Client.IlaStatus
import Chipscopy.Dm.Request
import Chipscopy.Lib.Float

/-! Operations that outlive their calls

    The monitor of an ILA and the eye scan of a memory controller go on when the call that started
    them has returned. Their callbacks reach the request through the node, which forgets a request
    when it is complete and takes the next one, so a reply that comes late is given to whatever
    request has the node by then. The monitor also misses the state IDLE, since the status that
    users see has replaced the state by a member of another enumeration. -/

namespace Chipscopy.LongOperations

open Dm (ReqId Failure)
open Client (ILAStatus StatusProps Props tcfPropsToStatus)

section Node

variable (E R : Type)

/-- What a request is given. -/
inductive Payload
  | noValue
  | bool (b : Bool)
  | status (status : ILAStatus)
  | fraction (x : ℚ)
  | scan (result : R)

inductive Gift
  | progress (value : Payload R)
  | result (value : Payload R)
  | error (error : Failure E)

structure Given where
  operation : ReqId
  request : ReqId
  gift : Gift E R

/-- A request on the node; `begun` once it has had its turn. How often it was completed is for
    statements only. -/
structure Request where
  begun : Bool
  progress : Option (Payload R)
  result : Option (Payload R)
  error : Option (Failure E)
  completions : ℕ

/-- The variables that the callbacks of `monitor_status` share. -/
structure Monitor where
  stateNames : Py.Dict ℤ String
  timeout : Option ℚ
  prevStatus : Option ILAStatus
  polling : Bool

inductive Operation
  | monitor (m : Monitor)
  | eyeScan (scanning : Bool)

/-- A node, its requests, and the operations that they have started. `running` is the request that
    the next ones wait for; what the operations gave is for statements only. -/
structure Node where
  request : Option ReqId
  running : Option ReqId
  requests : ReqId → Request E R
  operations : ReqId → Option Operation
  given : List (Given E R)

/-- A node without requests. -/
def Node.new : Node E R where
  request := none
  running := none
  requests _ :=
    { begun := false, progress := none, result := none, error := none, completions := 0 }
  operations _ := none
  given := []

end Node

variable {E R : Type}

/-- Its turn has come. -/
def Request.begin (q : Request E R) : Request E R where
  begun := true
  progress := q.progress
  result := q.result
  error := q.error
  completions := q.completions

namespace Node

def setRequest (s : Node E R) (r : ReqId) (q : Request E R) : Node E R where
  request := s.request
  running := s.running
  requests := Function.update s.requests r q
  operations := s.operations
  given := s.given

def setOperation (s : Node E R) (o : ReqId) (operation : Operation) : Node E R where
  request := s.request
  running := s.running
  requests := s.requests
  operations := Function.update s.operations o (some operation)
  given := s.given

def log (s : Node E R) (g : Given E R) : Node E R where
  request := s.request
  running := s.running
  requests := s.requests
  operations := s.operations
  given := s.given ++ [g]

/-- `_invoke_done`. A request that waits for its turn has no node: what comes after the callback
    raises. -/
def invokeDone (s : Node E R) (r : ReqId) : Node E R where
  request := if (s.requests r).begun then none else s.request
  running := if s.running = some r then none else s.running
  requests := Function.update s.requests r
    { s.requests r with completions := (s.requests r).completions + 1 }
  operations := s.operations
  given := s.given

def setProgress (s : Node E R) (r : ReqId) (value : Payload R) : Node E R :=
  s.setRequest r { s.requests r with progress := some value }

def setResult (s : Node E R) (r : ReqId) (value : Payload R) : Node E R :=
  (s.setRequest r { s.requests r with result := some value }).invokeDone r

def setException (s : Node E R) (r : ReqId) (error : Failure E) : Node E R :=
  (s.setRequest r { s.requests r with error := some error }).invokeDone r

def doneRun (s : Node E R) (r : ReqId) (error : Option (Failure E)) (result : Option (Payload R)) :
    Node E R :=
  (s.setRequest r { s.requests r with error := error, result := result }).invokeDone r

def cancel (s : Node E R) (r : ReqId) : Node E R :=
  match (s.requests r).error with
  | some _ => s
  | none => s.setException r (.cancelError "Request Cancelled")

/-- A callback of an operation gives something to a request. -/
def give (s : Node E R) (o r : ReqId) (gift : Gift E R) : Node E R :=
  (match gift with
    | .progress value => s.setProgress r value
    | .result value => s.setResult r value
    | .error error => s.setException r error).log ⟨o, r, gift⟩

end Node

/-! ### The monitor -/

/-- Replies to the refresh of the status. -/
inductive StatusReply (E : Type)
  | error (e : E)
  | status (props : StatusProps)

/-- The test of `check_status`, with the `ILAState.IDLE` of its own module. -/
def seesEnd (props : Props) : Bool :=
  props.size ≠ 0 && (((props.get? "is_full").getD (.int 0)).truthy ||
    (props.get? "capture_state").getD (.state .client .idle) = .state .client .idle)

namespace Monitor

/-- `time.time() - start_time > timeout`. -/
def Late (m : Monitor) (elapsed : ℚ) : Prop := ∃ t ∈ m.timeout, t < elapsed

instance (m : Monitor) (elapsed : ℚ) : Decidable (m.Late elapsed) :=
  match h : m.timeout with
  | none => .isFalse fun hlate => by
      obtain ⟨t, ht, -⟩ := hlate
      rw [h] at ht
      cases ht
  | some t => decidable_of_iff (t < elapsed) (by simp [Late, h])

def stop (m : Monitor) : Monitor where
  stateNames := m.stateNames
  timeout := m.timeout
  prevStatus := m.prevStatus
  polling := false

def poll (m : Monitor) (status : ILAStatus) : Monitor where
  stateNames := m.stateNames
  timeout := m.timeout
  prevStatus := some status
  polling := true

end Monitor

namespace Node

/-- A status that differs from the one before is progress. -/
def showStatus (s : Node E R) (o r : ReqId) (m : Monitor) (status : ILAStatus) : Node E R :=
  if m.prevStatus = some status then s else s.give o r (.progress (.status status))

/-- `check_status`, with the request that the node has. -/
def checkStatusOf (s : Node E R) (o r : ReqId) (m : Monitor) (elapsed : ℚ) :
    StatusReply E → Node E R
  | .error e => (s.setOperation o (.monitor m.stop)).give o r (.error (.other e))
  | .status p =>
    match tcfPropsToStatus m.stateNames p.props with
    | .error _ => s.setOperation o (.monitor m.stop)
    | .ok (status, result) =>
      let s := s.showStatus o r m status
      if seesEnd result then
        (s.setOperation o (.monitor m.stop)).give o r (.result (.status status))
      else if m.Late elapsed then
        let s := s.setOperation o (.monitor m.stop)
        if (s.requests r).error.isSome then s else s.give o r (.result .noValue)
      else s.setOperation o (.monitor (m.poll status))

/-- `check_status`. A node without a request stops the monitor. -/
def checkStatus (s : Node E R) (o : ReqId) (m : Monitor) (reply : StatusReply E) (elapsed : ℚ) :
    Node E R :=
  match s.request with
  | none => s.setOperation o (.monitor m.stop)
  | some r => s.checkStatusOf o r m elapsed reply

end Node

/-! ### The eye scan -/

structure ScanSettings where
  rwMode : ℤ
  vrefMin : ℤ
  vrefMax : ℤ

def checkScanSettings (settings : ScanSettings) : Bool :=
  if settings.rwMode ≠ 0 ∧ (settings.vrefMin > 50 ∨ settings.vrefMax > 50) then false
  else decide (settings.vrefMin ≤ settings.vrefMax)

namespace Node

/-- `run_eye_scan_async`. The scan also starts when the check has failed. -/
def runEyeScan (s : Node E R) (r : ReqId) (dataChecked : Bool) (settings : ScanSettings) :
    Node E R :=
  (if dataChecked || checkScanSettings settings then s
    else s.give r r (.result (.bool false))).setOperation r (.eyeScan true)

/-- `update_progress`. Without a request on the node it raises. -/
def updateProgress (s : Node E R) (o : ReqId) (error : Option E) (complete total : ℤ) : Node E R :=
  match error, s.request, Py.trueDiv complete total with
  | none, some r, .ok x => s.give o r (.progress (.fraction x))
  | _, _, _ => s

/-- What `check_result` makes of the end of the scan. -/
def scanGift : Option E → Option R → Gift E R
  | some e, _ => .error (.other e)
  | none, some result => .result (.scan result)
  | none, none => .error (.exception "Internal error occurred while performing 2D eye scan.")

/-- `check_result`. -/
def checkResult (s : Node E R) (o : ReqId) (error : Option E) (result : Option R) : Node E R :=
  let s := s.setOperation o (.eyeScan false)
  match s.request with
  | none => s
  | some r => s.give o r (scanGift error result)

end Node

/-! ### Runs -/

/-- What a request calls: another method of the node, or an operation. -/
inductive Method
  | call
  | monitorStatus (stateNames : Py.Dict ℤ String) (timeout : Option ℚ)
  | runEyeScanAsync (dataChecked : Bool) (settings : ScanSettings)

/-- The method starts an operation. -/
def Method.Starts : Method → Prop
  | .call => False
  | .monitorStatus _ _ | .runEyeScanAsync _ _ => True

/-- What happens to a node. Replies go to the operation that waits for them. -/
inductive Input (E R : Type)
  | begin (r : ReqId) (method : Method)
  | finish (r : ReqId) (error : Option (Failure E)) (result : Option (Payload R))
  | cancel (r : ReqId)
  | status (o : ReqId) (reply : StatusReply E) (elapsed : ℚ)
  | progress (o : ReqId) (error : Option E) (complete total : ℤ)
  | result (o : ReqId) (error : Option E) (result : Option R)

namespace Node

/-- `_invoke` up to the call of the method. -/
def take (s : Node E R) (r : ReqId) : Node E R where
  request := some r
  running := some r
  requests := Function.update s.requests r (s.requests r).begin
  operations := s.operations
  given := s.given

def start (s : Node E R) (r : ReqId) : Method → Node E R
  | .call => s
  | .monitorStatus stateNames timeout => s.setOperation r (.monitor
      { stateNames := stateNames, timeout := timeout, prevStatus := none, polling := true })
  | .runEyeScanAsync dataChecked settings => s.runEyeScan r dataChecked settings

/-- The end of `_invoke`: a request that was cancelled while it waited is completed again. -/
def completeAtOnce (s : Node E R) (r : ReqId) : Node E R :=
  let q := s.requests r
  if q.error.isSome then s.doneRun r q.error q.result else s

/-- A request may begin: its turn has come. -/
def MayBegin (s : Node E R) (r : ReqId) : Prop := (s.requests r).begun = false ∧ s.running = none

instance (s : Node E R) (r : ReqId) : Decidable (s.MayBegin r) :=
  inferInstanceAs (Decidable (_ ∧ _))

/-- A method other than the operations may reply. -/
def MayFinish (s : Node E R) (r : ReqId) : Prop :=
  (s.requests r).begun = true ∧ s.operations r = none

instance (s : Node E R) (r : ReqId) : Decidable (s.MayFinish r) :=
  inferInstanceAs (Decidable (_ ∧ (_ = _)))

/-- One thing that happens, if it can. -/
def step (s : Node E R) : Input E R → Option (Node E R)
  | .begin r method =>
    if s.MayBegin r then some (((s.take r).start r method).completeAtOnce r) else none
  | .finish r error result => if s.MayFinish r then some (s.doneRun r error result) else none
  | .cancel r => some (s.cancel r)
  | .status o reply elapsed => match s.operations o with
    | some (.monitor m) => if m.polling then some (s.checkStatus o m reply elapsed) else none
    | _ => none
  | .progress o error complete total => match s.operations o with
    | some (.eyeScan true) => some (s.updateProgress o error complete total)
    | _ => none
  | .result o error result => match s.operations o with
    | some (.eyeScan true) => some (s.checkResult o error result)
    | _ => none

end Node

end Chipscopy.LongOperations
