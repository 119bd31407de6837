import Chipscopy.Waveform.GetData

/-! Transactions on the signals of a bus

    A transaction opens at a sample where the open rule of its kind applies, and closes at a later
    one where the close rule does. Pending transactions are kept twice, in a queue for each ID and
    under the ticket numbers of the ID; a close whose counter tells how many transactions are
    outstanding takes its transaction by the ticket, any other close takes the head of the queue. -/

namespace Chipscopy.Waveform

/-- Tables of letters: `str.upper`, and the letters `re.IGNORECASE` does not tell apart. -/
structure Letters where
  upper : String → String
  sameLetter : Char → Char → Bool

/-- What a rule can ask about the samples. -/
structure RuleContext where
  risingEdge : String → ℤ → Except Py.Error Bool
  bothAsserted : String → String → ℤ → Except Py.Error Bool
  signal : Option String → ℤ → Option ℕ

structure Rule where
  name : String
  predicate : RuleContext → ℕ → Except Py.Error Bool
  signals : List String

def Rule.applies (rule : Rule) (ctx : RuleContext) (idx : ℕ) : Except Py.Error Bool :=
  rule.predicate ctx idx

/-- `Rule.all_asserted`. -/
def Rule.allAsserted (name : String) (signals : List String) : Rule where
  name := name
  predicate := fun ctx idx => .ok (signals.all fun sig => ctx.signal (some sig) idx == some 1)
  signals := signals

structure TransactionSpec where
  name : String
  txnType : String
  openRule : Rule
  closeRule : Rule
  openIdField : Option String
  closeIdField : Option String
  openAddrField : Option String := none
  closeRespField : Option String := none
  openFields : List String := []
  closeFields : List String := []

/-- Names of bound signals with the columns that have their values. -/
abbrev SignalMap := Py.Dict String String

structure Transaction where
  kind : String
  id : ℕ
  addr : Option ℕ
  startIdx : ℕ
  probes : SignalMap := Py.Dict.empty
  slot : ℕ := 0
  endIdx : Option ℕ := none
  resp : Option Bool := none
  deriving DecidableEq

/-! ### Binding signals to columns -/

def startsLike (sameLetter : Char → Char → Bool) : List Char → List Char → Bool
  | [], _ => true
  | _ :: _, [] => false
  | c :: cs, d :: ds => sameLetter c d && startsLike sameLetter cs ds

/-- The search for `(?<=/|_)name`. -/
def matchesBehindMark (sameLetter : Char → Char → Bool) (name : List Char) : List Char → Bool
  | [] => false
  | c :: cs =>
    (c = '/' || c = '_') && startsLike sameLetter name cs || matchesBehindMark sameLetter name cs

def columnMatches (letters : Letters) (numSlots : ℕ) (name column : String) : Bool :=
  if numSlots > 1 then matchesBehindMark letters.sameLetter name.toList column.toList
  else letters.upper column = letters.upper name

/-- What `None` for a name raises: `re.escape` at once, `upper` for the first column. -/
def noName (numSlots : ℕ) (data : Columns) : Except Py.Error Unit :=
  if numSlots > 1 then
    .error (.typeError "decoding to str: need a bytes-like object, NoneType found")
  else if data.keys = [] then .ok ()
  else .error (.attributeError "'NoneType' object has no attribute 'upper'")

/-- `bind`: the signals that have a column. -/
def bind (letters : Letters) (numSlots : ℕ) (data : Columns) (names : List (Option String)) :
    Except Py.Error (Option SignalMap) := do
  let m ← names.foldlM (fun (m : SignalMap) n =>
    match n with
    | none => (noName numSlots data).map fun _ => m
    | some n =>
      match data.keys.find? (columnMatches letters numSlots n) with
      | none => .ok m
      | some column => .ok (m.set n column)) Py.Dict.empty
  return if m.keys = [] then none else some m

def makeCtx (data : Columns) (sigmap : SignalMap) : RuleContext where
  risingEdge s i :=
    if i = 0 then .ok false
    else
      match sigmap.get? s with
      | none => .ok false
      | some key => do
        let d := data.column key
        if (← Py.index d (i - 1)) = 0 then return (← Py.index d i) = 1 else return false
  bothAsserted a b i :=
    match sigmap.get? a, sigmap.get? b with
    | some keyA, some keyB => do
      if (← Py.index (data.column keyA) i) = 1 then return (← Py.index (data.column keyB) i) = 1
      else return false
    | _, _ => .ok false
  signal s i := do
    let key ← sigmap.get? (← s)
    let values ← data.get? key
    if i < 0 then none else values[i.toNat]?

/-! ### Pairing opens and closes -/

structure OpenEvent where
  id : ℕ
  addr : Option ℕ
  deriving DecidableEq, Repr

/-- A close; its reading is the number of outstanding transactions, where a counter tells. -/
structure CloseEvent where
  id : ℕ
  resp : Option Bool
  reading : Option ℕ
  deriving DecidableEq, Repr

def TransactionSpec.openCntName (spec : TransactionSpec) : String :=
  if spec.txnType = "read" then "AR_CNT" else "AW_CNT"

def TransactionSpec.closeCntName (spec : TransactionSpec) : String :=
  if spec.txnType = "read" then "R_CNT" else "B_CNT"

/-- A field with a name. -/
def isNamed (field : Option String) : Bool := field.getD "" ≠ ""

def openNeed (spec : TransactionSpec) : List (Option String) :=
  spec.openRule.signals.map some ++ [spec.openAddrField] ++ spec.openFields.map some ++
    [some spec.openCntName] ++ if isNamed spec.openIdField then [spec.openIdField] else []

def closeNeed (spec : TransactionSpec) : List (Option String) :=
  spec.closeRule.signals.map some ++ [spec.closeRespField] ++ spec.closeFields.map some ++
    [some spec.closeCntName] ++ if isNamed spec.closeIdField then [spec.closeIdField] else []

def openEvent (spec : TransactionSpec) (openCtx : RuleContext) (i : ℕ) :
    Except Py.Error (Option OpenEvent) := do
  if ← spec.openRule.applies openCtx i then
    return some
      { id := (openCtx.signal spec.openIdField i).getD 0
        addr := openCtx.signal spec.openAddrField i }
  else return none

def closeEvent (spec : TransactionSpec) (closeCtx : RuleContext) (hasCloseCnt : Bool) (i : ℕ) :
    Except Py.Error (Option CloseEvent) := do
  if ← spec.closeRule.applies closeCtx i then
    return some
      { id := (closeCtx.signal spec.closeIdField i).getD 0
        resp :=
          if isNamed spec.closeRespField then some (closeCtx.signal spec.closeRespField i == some 0)
          else none
        reading := if hasCloseCnt then closeCtx.signal (some spec.closeCntName) i else none }
  else return none

/-- Variables of the loop over the samples. -/
structure Pairing where
  nextTicket : ℕ → ℕ := fun _ => 0
  pendingByIdTicket : ℕ → ℤ → Option Transaction := fun _ _ => none
  pending : ℕ → List Transaction := fun _ => []
  completed : List Transaction := []

/-- The transaction of an open. -/
def OpenEvent.transaction (e : OpenEvent) (kind : String) (i : ℕ) : Transaction where
  kind := kind
  id := e.id
  addr := e.addr
  startIdx := i

namespace Pairing

/-- An open goes into both stores. -/
def openAt (s : Pairing) (kind : String) (i : ℕ) (e : OpenEvent) : Pairing :=
  let t := e.transaction kind i
  let ticket := s.nextTicket e.id
  { s with
    pendingByIdTicket := Function.update s.pendingByIdTicket e.id
      (Function.update (s.pendingByIdTicket e.id) ticket (some t))
    nextTicket := Function.update s.nextTicket e.id (ticket + 1)
    pending := Function.update s.pending e.id (s.pending e.id ++ [t]) }

/-- `pending_by_id_ticket[tid].pop(ticket, None)`. -/
def popTicket (s : Pairing) (id : ℕ) (ticket : ℤ) : Option Transaction × Pairing :=
  (s.pendingByIdTicket id ticket,
    { s with
      pendingByIdTicket := Function.update s.pendingByIdTicket id
        (Function.update (s.pendingByIdTicket id) ticket none) })

/-- `dq.popleft()`, where there is something to pop. -/
def popPending (s : Pairing) (id : ℕ) : Option Transaction × Pairing :=
  ((s.pending id).head?,
    { s with pending := Function.update s.pending id (s.pending id).tail })

/-- The transaction a close ends. -/
def take (s : Pairing) (e : CloseEvent) : Option Transaction × Pairing :=
  match e.reading with
  | none => s.popPending e.id
  | some cc =>
    let (t, s) := s.popTicket e.id (s.nextTicket e.id - cc)
    match t with
    | some t => (some t, s)
    | none => s.popPending e.id

/-- A transaction that has been taken is completed; a close without one is ignored. -/
def complete (slot : ℕ) (probes : SignalMap) (i : ℕ) (e : CloseEvent) :
    Option Transaction × Pairing → Pairing
  | (some t, s) =>
    { s with
      completed := s.completed ++
        [{ t with endIdx := some i, resp := e.resp, slot := slot, probes := probes }] }
  | (none, s) => s

def closeAt (s : Pairing) (slot : ℕ) (probes : SignalMap) (i : ℕ) (e : CloseEvent) : Pairing :=
  complete slot probes i e (s.take e)

/-- `if spec.open_rule.applies(..)`. -/
def openIf (s : Pairing) (kind : String) (i : ℕ) : Option OpenEvent → Pairing
  | some e => s.openAt kind i e
  | none => s

/-- `if spec.close_rule.applies(..)`. -/
def closeIf (s : Pairing) (slot : ℕ) (probes : SignalMap) (i : ℕ) : Option CloseEvent → Pairing
  | some e => s.closeAt slot probes i e
  | none => s

end Pairing

/-- The loop over the samples for one spec whose signals are bound. -/
def pairSamples (data : Columns) (slot n : ℕ) (spec : TransactionSpec)
    (openMap closeMap : SignalMap) : Except Py.Error (List Transaction) := do
  let openCtx := makeCtx data openMap
  let closeCtx := makeCtx data closeMap
  let hasCloseCnt := (closeMap.get? spec.closeCntName).isSome
  let s ← (List.range n).foldlM (fun (s : Pairing) i => do
    let opened ← openEvent spec openCtx i
    let closed ← closeEvent spec closeCtx hasCloseCnt i
    return (s.openIf spec.txnType i opened).closeIf slot (openMap.update closeMap.entries) i
      closed) {}
  return s.completed

/-- The completed transactions of one spec; none where no signal is bound. -/
def specTransactions (letters : Letters) (numSlots : ℕ) (data : Columns) (slot n : ℕ)
    (spec : TransactionSpec) : Except Py.Error (List Transaction) := do
  let openMap ← bind letters numSlots data (openNeed spec)
  let closeMap ← bind letters numSlots data (closeNeed spec)
  match openMap, closeMap with
  | some openMap, some closeMap => pairSamples data slot n spec openMap closeMap
  | _, _ => return []

/-- `calculate_values`; a probe group is given by the names of its probes. -/
def calculateValues (letters : Letters) (wf : ILAWaveform) (numSlots : ℕ)
    (probeGroups : List (List (List String))) (slot : ℕ) (specs : List TransactionSpec) :
    Except Py.Error (List Transaction) := do
  let pgs ← Py.index probeGroups (if numSlots > 1 then slot else 0 : ℕ)
  let data ← getWaveformDataValues wf pgs.flatten 0 none 0 none ⟨false, false, false⟩
  let parts ← Py.mapExcept (specTransactions letters numSlots data slot wf.sampleCount) specs
  return parts.flatten

end Chipscopy.Waveform
