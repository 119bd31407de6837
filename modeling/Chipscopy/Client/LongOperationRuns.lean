import Chipscopy.Client.LongOperations

/-! Whose request an operation finishes

    The request on a node is the one that has begun and is not complete. An operation therefore
    gives to its own request as long as that one is open, and from then on to whatever request it
    finds, if it is still answered. -/

namespace Chipscopy.LongOperations

open Dm (ReqId Failure)
open Client (ILAStatus StatusProps Props tcfPropsToStatus tcfPropsToStatus_ok)

variable {E R : Type}

namespace Node

/-! ### Statements -/

/-- The monitor waits for a reply. -/
def Polls (s : Node E R) (o : ReqId) : Prop :=
  ∃ m, s.operations o = some (.monitor m) ∧ m.polling = true

/-- Operations give to their own requests, and complete them once. -/
structure Own (s : Node E R) : Prop where
  given : ∀ g ∈ s.given, g.request = g.operation
  once : ∀ r, s.operations r ≠ none → (s.requests r).completions ≤ 1

end Node

namespace Monitor

/-- The reply that the monitor has to end with. -/
def Ends (m : Monitor) (elapsed : ℚ) : StatusReply E → Prop
  | .error _ => True
  | .status p => p.isFull = true ∨ p.state = .idle ∨ m.Late elapsed

/-- The reply that it does end with. -/
def Sees (m : Monitor) (elapsed : ℚ) : StatusReply E → Prop
  | .error _ => True
  | .status p => p.isFull = true ∨ m.Late elapsed

/-- The status is the one that was shown last. -/
def Repeats (m : Monitor) (p : StatusProps) : Prop :=
  ∃ status props, tcfPropsToStatus m.stateNames p.props = .ok (status, props) ∧
    m.prevStatus = some status

/-- A reply with nothing to give. -/
def Silent (m : Monitor) (elapsed : ℚ) : StatusReply E → Prop
  | .error _ => False
  | .status p => m.Repeats p ∧ ¬ (p.isFull = true ∨ m.Late elapsed)

end Monitor

namespace Node

/-- A monitor whose request is not complete ends with the first reply that it has to end with, and
    goes on until then. -/
def Watches (s : Node E R) (input : Input E R) (s' : Node E R) : Prop :=
  ∀ o reply elapsed m, input = .status o reply elapsed → s.operations o = some (.monitor m) →
    (s.requests o).completions = 0 →
    (m.Ends elapsed reply → (s'.requests o).completions = 1) ∧
    (¬ m.Ends elapsed reply → (s'.requests o).completions = 0 ∧ s'.Polls o)

/-- Operations finish their own requests, once, in a run. -/
def FinishOwn (s : Node E R) (inputs : List (Input E R)) : Prop :=
  Machine.Throughout step Own Watches s inputs

/-- What may happen: no request is cancelled before its operation starts or after its operation has
    completed it; replies find on the node their own request, or none if that one is complete, or
    they have nothing to give; and a capture that is IDLE is full as well. -/
def Undisturbed (s : Node E R) : Input E R → Prop
  | .begin r method => s.MayBegin r → method.Starts → (s.requests r).error = none
  | .finish _ _ _ => True
  | .cancel r => s.operations r ≠ none → (s.requests r).completions ≠ 0 →
      (s.requests r).error ≠ none
  | .status o reply elapsed => ∀ m, s.operations o = some (.monitor m) → m.polling = true →
      ((s.requests o).completions = 0 →
        s.request = some o ∧ (m.Ends elapsed reply → m.Sees elapsed reply)) ∧
      ((s.requests o).completions ≠ 0 → s.request ≠ none → m.Silent elapsed reply)
  | .progress o error complete total => s.operations o = some (.eyeScan true) → ∀ r x,
      s.request = some r → error = none → Py.trueDiv complete total = .ok x → r = o
  | .result o _ _ => s.operations o = some (.eyeScan true) → ∀ r, s.request = some r → r = o

/-! ### What a step leaves -/

section Effects

variable {s s' : Node E R} {r o x : ReqId}

/-- Progress completes nothing. -/
structure Kept (s s' : Node E R) : Prop where
  request : s'.request = s.request
  running : s'.running = s.running
  begun : ∀ x, (s'.requests x).begun = (s.requests x).begun
  error : ∀ x, (s'.requests x).error = (s.requests x).error
  completions : ∀ x, (s'.requests x).completions = (s.requests x).completions

theorem Kept.refl (s : Node E R) : Kept s s := ⟨rfl, rfl, fun _ => rfl, fun _ => rfl, fun _ => rfl⟩

/-- A request that has begun is completed once more. -/
structure Completes (r : ReqId) (s s' : Node E R) : Prop where
  request : s'.request = none
  running : s'.running = if s.running = some r then none else s.running
  begun : ∀ x, (s'.requests x).begun = (s.requests x).begun
  error : ∀ x, x ≠ r → (s'.requests x).error = (s.requests x).error
  completions : (s'.requests r).completions = (s.requests r).completions + 1
  others : ∀ x, x ≠ r → (s'.requests x).completions = (s.requests x).completions

theorem requests_setRequest (s : Node E R) (r x : ReqId) (q : Request E R) :
    (s.setRequest r q).requests x = if x = r then q else s.requests x :=
  Function.update_apply _ _ _ _

theorem operations_setOperation (s : Node E R) (o x : ReqId) (operation : Operation) :
    (s.setOperation o operation).operations x =
      if x = o then some operation else s.operations x :=
  Function.update_apply _ _ _ _

/-- A request gets a value or an error, and is completed. -/
theorem completes_of_set (hbegun : (s.requests r).begun = true) {q : Request E R}
    (hq : q.begun = (s.requests r).begun) (hcount : q.completions = (s.requests r).completions) :
    Completes r s ((s.setRequest r q).invokeDone r) := by
  have hsame : (s.setRequest r q).requests r = q := Function.update_self _ _ _
  have hother : ∀ x, x ≠ r → ((s.setRequest r q).invokeDone r).requests x = s.requests x := by
    intro x hx
    exact (Function.update_of_ne hx _ _).trans (Function.update_of_ne hx _ _)
  have hself : ((s.setRequest r q).invokeDone r).requests r =
      { q with completions := q.completions + 1 } := by
    refine (Function.update_self _ _ _).trans ?_
    rw [hsame]
  refine ⟨?_, rfl, fun x => ?_, fun x hx => ?_, ?_, fun x hx => ?_⟩
  · exact if_pos (by rw [hsame, hq, hbegun])
  · by_cases hx : x = r
    · rw [hx, hself]
      exact hq
    · rw [hother x hx]
  · rw [hother x hx]
  · rw [hself]
    exact congrArg (· + 1) hcount
  · rw [hother x hx]

theorem completes_doneRun (hbegun : (s.requests r).begun = true) (error : Option (Failure E))
    (result : Option (Payload R)) : Completes r s (s.doneRun r error result) :=
  completes_of_set hbegun rfl rfl

theorem completes_setException (hbegun : (s.requests r).begun = true) (error : Failure E) :
    Completes r s (s.setException r error) :=
  completes_of_set hbegun rfl rfl

theorem given_give (s : Node E R) (o r : ReqId) (gift : Gift E R) :
    (s.give o r gift).given = s.given ++ [⟨o, r, gift⟩] := by
  cases gift <;> rfl

theorem operations_give (s : Node E R) (o r : ReqId) (gift : Gift E R) :
    (s.give o r gift).operations = s.operations := by
  cases gift <;> rfl

theorem kept_give (s : Node E R) (o r : ReqId) (value : Payload R) :
    Kept s (s.give o r (.progress value)) := by
  have hrequest : ∀ x, (s.give o r (.progress value)).requests x =
      if x = r then { s.requests r with progress := some value } else s.requests x :=
    fun x => requests_setRequest s r x _
  refine ⟨rfl, rfl, fun x => ?_, fun x => ?_, fun x => ?_⟩
  all_goals
    rw [hrequest]
    split_ifs with hx
    · rw [hx]
    · rfl

/-- A gift that is not progress completes the request. -/
theorem completes_give (hbegun : (s.requests r).begun = true) (o : ReqId) {gift : Gift E R}
    (hgift : ∀ value, gift ≠ .progress value) : Completes r s (s.give o r gift) := by
  cases gift with
  | progress value => exact absurd rfl (hgift value)
  | result value =>
    have h := completes_of_set hbegun (q := { s.requests r with result := some value }) rfl rfl
    exact ⟨h.request, h.running, h.begun, h.error, h.completions, h.others⟩
  | error error =>
    have h := completes_setException hbegun error
    exact ⟨h.request, h.running, h.begun, h.error, h.completions, h.others⟩

/-! ### The invariant -/

/-- The node has the request that the others wait for, and that one is not complete. -/
structure Inv (s : Node E R) : Prop where
  request : ∀ r, s.request = some r → s.running = some r
  running : ∀ r, s.running = some r → (s.requests r).begun = true ∧
    (s.requests r).completions = 0 ∧ (s.requests r).error = none
  begun : ∀ r, (s.requests r).begun = true → (s.requests r).completions = 0 → s.running = some r
  waiting : ∀ r, (s.requests r).begun = false → s.operations r = none ∧
    ((s.requests r).error = none ↔ (s.requests r).completions = 0)
  own : s.Own

theorem inv_new (E R : Type) : Inv (new E R) where
  request := by simp [new]
  running := by simp [new]
  begun := by simp [new]
  waiting := by simp [new]
  own := ⟨by simp [new], by simp [new]⟩

/-- The request of an operation has begun. -/
theorem Inv.begun_of_operation (hs : Inv s) (ho : s.operations o ≠ none) :
    (s.requests o).begun = true := by
  by_contra hnot
  exact ho (hs.waiting o (by simpa using hnot)).1

theorem Inv.kept (hs : Inv s) (h : Kept s s')
    (hoperations : ∀ x, s'.operations x = none ↔ s.operations x = none)
    (hgiven : ∀ g ∈ s'.given, g.request = g.operation) : Inv s' where
  request x hx := by
    rw [h.request] at hx
    rw [h.running]
    exact hs.request x hx
  running x hx := by
    rw [h.running] at hx
    rw [h.begun, h.completions, h.error]
    exact hs.running x hx
  begun x hbegun hcount := by
    rw [h.begun] at hbegun
    rw [h.completions] at hcount
    rw [h.running]
    exact hs.begun x hbegun hcount
  waiting x hbegun := by
    rw [h.begun] at hbegun
    rw [h.error, h.completions, hoperations]
    exact hs.waiting x hbegun
  own := ⟨hgiven, fun x hx => by
    rw [h.completions]
    exact hs.own.once x fun hnone => hx ((hoperations x).mpr hnone)⟩

theorem Inv.setOperation (hs : Inv s) (hbegun : (s.requests o).begun = true)
    (hcount : (s.requests o).completions ≤ 1) (operation : Operation) :
    Inv (s.setOperation o operation) where
  request := hs.request
  running := hs.running
  begun := hs.begun
  waiting x hx := by
    have hne : x ≠ o := by
      rintro rfl
      exact absurd (hbegun.symm.trans hx) (by decide)
    rw [operations_setOperation, if_neg hne]
    exact hs.waiting x hx
  own := by
    refine ⟨hs.own.given, fun x hx => ?_⟩
    by_cases hxo : x = o
    · rw [hxo]
      exact hcount
    · rw [operations_setOperation, if_neg hxo] at hx
      exact hs.own.once x hx

theorem Inv.completes (hs : Inv s) (h : Completes r s s') (hbegun : (s.requests r).begun = true)
    (hoperations : s'.operations = s.operations)
    (hgiven : ∀ g ∈ s'.given, g.request = g.operation)
    (hopen : s.operations r ≠ none → (s.requests r).completions = 0) : Inv s' where
  request x hx := by
    rw [h.request] at hx
    cases hx
  running x hx := by
    rw [h.running] at hx
    split_ifs at hx with hrunning
    have hne : x ≠ r := by
      rintro rfl
      exact hrunning hx
    rw [h.begun, h.error x hne, h.others x hne]
    exact hs.running x hx
  begun x hxbegun hcount := by
    have hne : x ≠ r := by
      rintro rfl
      rw [h.completions] at hcount
      omega
    rw [h.begun] at hxbegun
    rw [h.others x hne] at hcount
    have hrunning := hs.begun x hxbegun hcount
    rw [h.running, hrunning, if_neg fun heq => hne (Option.some.inj heq)]
  waiting x hxbegun := by
    rw [h.begun] at hxbegun
    have hne : x ≠ r := by
      rintro rfl
      exact absurd (hbegun.symm.trans hxbegun) (by decide)
    rw [hoperations, h.error x hne, h.others x hne]
    exact hs.waiting x hxbegun
  own := by
    refine ⟨hgiven, fun x hx => ?_⟩
    rw [hoperations] at hx
    by_cases hne : x = r
    · rw [hne] at hx ⊢
      rw [h.completions, hopen hx]
    · rw [h.others x hne]
      exact hs.own.once x hx

/-- A gift to the own request. -/
theorem Inv.give (hs : Inv s) (hrunning : s.running = some o) (gift : Gift E R) :
    Inv (s.give o o gift) := by
  obtain ⟨hbegun, hcount, -⟩ := hs.running o hrunning
  have hgiven : ∀ g ∈ (s.give o o gift).given, g.request = g.operation := by
    intro g hg
    rw [given_give] at hg
    rcases List.mem_append.mp hg with hold | hnew
    · exact hs.own.given g hold
    · rw [List.mem_singleton.mp hnew]
  by_cases hprogress : ∃ value, gift = .progress value
  · obtain ⟨value, rfl⟩ := hprogress
    refine hs.kept (kept_give s o o value) (fun x => ?_) hgiven
    rw [operations_give]
  · refine hs.completes (completes_give hbegun o fun value h => hprogress ⟨value, h⟩) hbegun
      (operations_give s o o gift) hgiven fun _ => hcount

/-! ### The monitor -/

/-- The test of the monitor does not see the state IDLE: the state is a member of another class. -/
theorem seesEnd_eq {stateNames : Py.Dict ℤ String} {p : StatusProps} {status : ILAStatus}
    {props : Props} (h : tcfPropsToStatus stateNames p.props = .ok (status, props)) :
    seesEnd props = p.isFull := by
  obtain ⟨status', props', hok, hstate, hfull⟩ := tcfPropsToStatus_ok stateNames p
  obtain ⟨-, rfl⟩ := Prod.mk.inj (Except.ok.inj (h.symm.trans hok))
  have hsize : props.size ≠ 0 := by
    intro hzero
    have hnil : props.entries = [] := List.length_eq_zero_iff.mp hzero
    rw [Py.Dict.get?, hnil] at hstate
    cases hstate
  rw [seesEnd, hstate, hfull, StatusProps.isFull]
  simp [hsize]

/-- What the monitor makes of a status. -/
theorem checkStatusOf_status (s : Node E R) (o r : ReqId) (m : Monitor) (elapsed : ℚ)
    (p : StatusProps) :
    ∃ status props, tcfPropsToStatus m.stateNames p.props = .ok (status, props) ∧
      s.checkStatusOf o r m elapsed (.status p) =
        if p.isFull = true then ((s.showStatus o r m status).setOperation o (.monitor m.stop)).give
          o r (.result (.status status))
        else if m.Late elapsed then
          if (((s.showStatus o r m status).setOperation o (.monitor m.stop)).requests
            r).error.isSome
          then (s.showStatus o r m status).setOperation o (.monitor m.stop)
          else ((s.showStatus o r m status).setOperation o (.monitor m.stop)).give o r
            (.result .noValue)
        else (s.showStatus o r m status).setOperation o (.monitor (m.poll status)) := by
  obtain ⟨status, props, hok, -, -⟩ := tcfPropsToStatus_ok m.stateNames p
  refine ⟨status, props, hok, ?_⟩
  rw [checkStatusOf, hok]
  dsimp only
  rw [seesEnd_eq hok]

theorem kept_showStatus (s : Node E R) (o r : ReqId) (m : Monitor) (status : ILAStatus) :
    Kept s (s.showStatus o r m status) := by
  rw [showStatus]
  split_ifs
  · exact Kept.refl s
  · exact kept_give s o r _

theorem Inv.showStatus (hs : Inv s) (hrunning : s.running = some o) (m : Monitor)
    (status : ILAStatus) : Inv (s.showStatus o o m status) := by
  rw [Node.showStatus]
  split_ifs
  · exact hs
  · exact hs.give hrunning _

/-- The own request is completed. -/
theorem completions_give (hs : Inv s) (hrunning : s.running = some o) {gift : Gift E R}
    (hgift : ∀ value, gift ≠ .progress value) :
    ((s.give o o gift).requests o).completions = 1 := by
  obtain ⟨hbegun, hcount, -⟩ := hs.running o hrunning
  rw [(completes_give hbegun o hgift).completions, hcount]

/-- A reply to the monitor whose request is on the node. -/
theorem Inv.checkStatus_own {m : Monitor} {reply : StatusReply E} {elapsed : ℚ} (hs : Inv s)
    (hrequest : s.request = some o) (hsees : m.Ends elapsed reply → m.Sees elapsed reply) :
    Inv (s.checkStatus o m reply elapsed) ∧
      (m.Ends elapsed reply → ((s.checkStatus o m reply elapsed).requests o).completions = 1) ∧
      (¬ m.Ends elapsed reply → ((s.checkStatus o m reply elapsed).requests o).completions = 0 ∧
        (s.checkStatus o m reply elapsed).Polls o) := by
  have hrunning := hs.request o hrequest
  obtain ⟨hbegun, hcount, herror⟩ := hs.running o hrunning
  -- the operation is set while its request is still open
  have hset : ∀ {s₁ : Node E R} (operation : Operation), Inv s₁ → s₁.running = some o →
      Inv (s₁.setOperation o operation) := by
    intro s₁ operation h₁ hrunning₁
    obtain ⟨hbegun₁, hcount₁, -⟩ := h₁.running o hrunning₁
    exact h₁.setOperation hbegun₁ (by omega) operation
  rw [checkStatus, hrequest]
  dsimp only
  cases reply with
  | error e =>
    have hstopped := hset (.monitor m.stop) hs hrunning
    rw [checkStatusOf]
    refine ⟨hstopped.give hrunning _, fun _ => ?_, fun hnot => absurd trivial hnot⟩
    exact completions_give hstopped hrunning (by rintro value ⟨⟩)
  | status p =>
    obtain ⟨status, props, hok, heq⟩ := checkStatusOf_status s o o m elapsed p
    have hshown := hs.showStatus hrunning m status
    have hkept := kept_showStatus s o o m status
    have hrunning₁ : (s.showStatus o o m status).running = some o := hkept.running.trans hrunning
    have hstopped := hset (.monitor m.stop) hshown hrunning₁
    rw [heq]
    by_cases hfull : p.isFull = true
    · rw [if_pos hfull]
      refine ⟨hstopped.give hrunning₁ _, fun _ => ?_, fun hnot => absurd (.inl hfull) hnot⟩
      exact completions_give hstopped hrunning₁ (by rintro value ⟨⟩)
    · rw [if_neg hfull]
      by_cases hlate : m.Late elapsed
      · have hnone : ((s.showStatus o o m status).requests o).error.isSome = false := by
          rw [hkept.error, herror]
          rfl
        rw [if_pos hlate, if_neg (by simpa [Node.setOperation] using hnone)]
        refine ⟨hstopped.give hrunning₁ _, fun _ => ?_,
          fun hnot => absurd (.inr (.inr hlate)) hnot⟩
        exact completions_give hstopped hrunning₁ (by rintro value ⟨⟩)
      · rw [if_neg hlate]
        refine ⟨hset _ hshown hrunning₁, fun hends => ?_, fun _ => ⟨?_, m.poll status, ?_, rfl⟩⟩
        · rcases hsees hends with h | h
          · exact absurd h hfull
          · exact absurd h hlate
        · exact (hkept.completions o).trans hcount
        · rw [operations_setOperation, if_pos rfl]

/-- A reply to the monitor whose request is complete. -/
theorem Inv.checkStatus_other {m : Monitor} {reply : StatusReply E} {elapsed : ℚ} (hs : Inv s)
    (ho : s.operations o = some (.monitor m))
    (hsilent : s.request ≠ none → m.Silent elapsed reply) :
    Inv (s.checkStatus o m reply elapsed) := by
  have hne : s.operations o ≠ none := by
    rw [ho]
    simp
  have hset : ∀ operation : Operation, Inv (s.setOperation o operation) :=
    hs.setOperation (hs.begun_of_operation hne) (hs.own.once o hne)
  rw [checkStatus]
  cases hrequest : s.request with
  | none => exact hset _
  | some r =>
    have hquiet := hsilent (by rw [hrequest]; simp)
    dsimp only
    cases reply with
    | error e => exact absurd hquiet id
    | status p =>
      obtain ⟨⟨status', props', hok', hprev⟩, hnot⟩ := hquiet
      obtain ⟨hfull, hlate⟩ := not_or.mp hnot
      obtain ⟨status, props, hok, heq⟩ := checkStatusOf_status s o r m elapsed p
      obtain ⟨rfl, -⟩ := Prod.mk.inj (Except.ok.inj (hok.symm.trans hok'))
      rw [heq, if_neg hfull, if_neg hlate, Node.showStatus, if_pos hprev]
      exact hset _

/-! ### Requests that begin -/

theorem requests_take (s : Node E R) (r x : ReqId) :
    (s.take r).requests x = if x = r then (s.requests r).begin else s.requests x :=
  Function.update_apply _ _ _ _

theorem Inv.take (hs : Inv s) (hmay : s.MayBegin r) (herror : (s.requests r).error = none) :
    Inv (s.take r) := by
  obtain ⟨hbegun, hrunning⟩ := hmay
  obtain ⟨hnone, hcount⟩ := hs.waiting r hbegun
  refine ⟨fun x hx => hx, fun x hx => ?_, fun x hxbegun hxcount => ?_, fun x hxbegun => ?_,
    hs.own.given, fun x hx => ?_⟩
  · obtain rfl := Option.some.inj hx
    rw [requests_take, if_pos rfl]
    exact ⟨rfl, hcount.mp herror, herror⟩
  · by_cases hxr : x = r
    · rw [hxr]
      rfl
    · rw [requests_take, if_neg hxr] at hxbegun hxcount
      have hx := hs.begun x hxbegun hxcount
      rw [hrunning] at hx
      cases hx
  · have hxr : x ≠ r := by
      rintro rfl
      rw [requests_take, if_pos rfl] at hxbegun
      cases hxbegun
    rw [requests_take, if_neg hxr] at hxbegun ⊢
    exact hs.waiting x hxbegun
  · have hxr : x ≠ r := by
      rintro rfl
      exact hx hnone
    rw [requests_take, if_neg hxr]
    exact hs.own.once x hx

theorem error_setResult (s : Node E R) (r x : ReqId) (value : Payload R) :
    ((s.setResult r value).requests x).error = (s.requests x).error := by
  by_cases hx : x = r
  · subst hx
    simp [setResult, invokeDone, setRequest]
  · simp [setResult, invokeDone, setRequest, Function.update_of_ne hx]

/-- The own result of the check of the settings. -/
theorem Inv.runEyeScan (hs : Inv s) (hrunning : s.running = some r) (dataChecked : Bool)
    (settings : ScanSettings) : Inv (s.runEyeScan r dataChecked settings) ∧
      ((s.runEyeScan r dataChecked settings).requests r).error = none := by
  obtain ⟨hbegun, hcount, herror⟩ := hs.running r hrunning
  rw [Node.runEyeScan]
  split_ifs with hpass
  · exact ⟨hs.setOperation hbegun (by omega) _, herror⟩
  · have hcompletes : Completes r s (s.give r r (.result (.bool false))) :=
      completes_give hbegun r (by rintro value ⟨⟩)
    refine ⟨(hs.give hrunning _).setOperation ?_ ?_ _, ?_⟩
    · rw [hcompletes.begun, hbegun]
    · rw [hcompletes.completions, hcount]
    · exact (error_setResult s r r _).trans herror

theorem Inv.start (hs : Inv s) (hrunning : s.running = some r) (method : Method) :
    Inv (s.start r method) ∧ ((s.start r method).requests r).error = none := by
  obtain ⟨hbegun, hcount, herror⟩ := hs.running r hrunning
  cases method with
  | call => exact ⟨hs, herror⟩
  | monitorStatus stateNames timeout =>
    exact ⟨hs.setOperation hbegun (by omega) _, herror⟩
  | runEyeScanAsync dataChecked settings => exact hs.runEyeScan hrunning dataChecked settings

/-- Another request that was cancelled while it waited is completed when it begins. -/
theorem Inv.doneRun_take (hs : Inv s) (hmay : s.MayBegin r) (error : Option (Failure E))
    (result : Option (Payload R)) : Inv ((s.take r).doneRun r error result) := by
  obtain ⟨hbegun, hrunning⟩ := hmay
  obtain ⟨hnone, -⟩ := hs.waiting r hbegun
  have htaken : ((s.take r).requests r).begun = true := by
    rw [requests_take, if_pos rfl, Request.begin]
  have h := completes_doneRun htaken error result
  have hidle : ((s.take r).doneRun r error result).running = none := h.running.trans (if_pos rfl)
  have hother : ∀ x, x ≠ r → (s.take r).requests x = s.requests x := by
    intro x hx
    rw [requests_take, if_neg hx]
  refine ⟨fun x hx => ?_, fun x hx => ?_, fun x hxbegun hxcount => ?_, fun x hxbegun => ?_,
    hs.own.given, fun x hx => ?_⟩
  · rw [h.request] at hx
    cases hx
  · rw [hidle] at hx
    cases hx
  · by_cases hxr : x = r
    · rw [hxr, h.completions] at hxcount
      omega
    · rw [h.begun, hother x hxr] at hxbegun
      rw [h.others x hxr, hother x hxr] at hxcount
      have hx := hs.begun x hxbegun hxcount
      rw [hrunning] at hx
      cases hx
  · rw [h.begun] at hxbegun
    have hxr : x ≠ r := by
      rintro rfl
      exact absurd (htaken.symm.trans hxbegun) (by decide)
    rw [hother x hxr] at hxbegun
    rw [h.error x hxr, h.others x hxr, hother x hxr]
    exact hs.waiting x hxbegun
  · have hxr : x ≠ r := by
      rintro rfl
      exact hx hnone
    rw [h.others x hxr, hother x hxr]
    exact hs.own.once x hx

theorem Inv.begin {method : Method} (hs : Inv s) (hmay : s.MayBegin r)
    (hquiet : method.Starts → (s.requests r).error = none) :
    Inv (((s.take r).start r method).completeAtOnce r) := by
  by_cases herror : (s.requests r).error = none
  · obtain ⟨hinv, hnone⟩ := (hs.take hmay herror).start rfl method
    rw [completeAtOnce, hnone]
    exact hinv
  · cases method with
    | monitorStatus stateNames timeout => exact absurd (hquiet trivial) herror
    | runEyeScanAsync dataChecked settings => exact absurd (hquiet trivial) herror
    | call =>
      have hsome : ((s.take r).requests r).error.isSome = true := by
        rw [requests_take, if_pos rfl]
        exact Option.isSome_iff_ne_none.mpr herror
      rw [Node.start, completeAtOnce, if_pos hsome]
      exact hs.doneRun_take hmay _ _

/-! ### Requests that are cancelled -/

/-- A request that waits stays in the queue. -/
theorem Inv.cancelWaiting (hs : Inv s) (hbegun : (s.requests r).begun = false) (error : Failure E) :
    Inv (s.setException r error) := by
  obtain ⟨hnone, -⟩ := hs.waiting r hbegun
  have hnot : s.running ≠ some r := by
    intro hrunning
    exact absurd ((hs.running r hrunning).1.symm.trans hbegun) (by decide)
  have hrequest : (s.setException r error).request = s.request := by
    simp [setException, invokeDone, setRequest, hbegun]
  have hrunning : (s.setException r error).running = s.running := by
    simp [setException, invokeDone, setRequest, hnot]
  have hother : ∀ x, x ≠ r → (s.setException r error).requests x = s.requests x := by
    intro x hx
    simp [setException, invokeDone, setRequest, Function.update_of_ne hx]
  have hself : ((s.setException r error).requests r).begun = false ∧
      ((s.setException r error).requests r).error = some error ∧
      ((s.setException r error).requests r).completions ≠ 0 := by
    simp [setException, invokeDone, setRequest, hbegun]
  have hne : ∀ x, s.running = some x → x ≠ r := by
    rintro x hx rfl
    exact hnot hx
  refine ⟨fun x hx => ?_, fun x hx => ?_, fun x hxbegun hxcount => ?_, fun x hxbegun => ?_,
    hs.own.given, fun x hx => ?_⟩
  · rw [hrequest] at hx
    rw [hrunning]
    exact hs.request x hx
  · rw [hrunning] at hx
    rw [hother x (hne x hx)]
    exact hs.running x hx
  · have hxr : x ≠ r := by
      rintro rfl
      exact absurd (hself.1.symm.trans hxbegun) (by decide)
    rw [hother x hxr] at hxbegun hxcount
    rw [hrunning]
    exact hs.begun x hxbegun hxcount
  · by_cases hxr : x = r
    · rw [hxr]
      refine ⟨hnone, iff_of_false ?_ hself.2.2⟩
      rw [hself.2.1]
      simp
    · rw [hother x hxr] at hxbegun ⊢
      exact hs.waiting x hxbegun
  · have hxr : x ≠ r := by
      rintro rfl
      exact hx hnone
    rw [hother x hxr]
    exact hs.own.once x hx

theorem Inv.cancel (hs : Inv s) (hquiet : s.operations r ≠ none → (s.requests r).completions ≠ 0 →
    (s.requests r).error ≠ none) : Inv (s.cancel r) := by
  rw [Node.cancel]
  cases herror : (s.requests r).error with
  | some e => exact hs
  | none =>
    dsimp only
    cases hbegun : (s.requests r).begun with
    | false => exact hs.cancelWaiting hbegun _
    | true =>
      refine hs.completes (completes_setException hbegun _) hbegun rfl hs.own.given fun ho => ?_
      by_contra hcount
      exact hquiet ho hcount herror

/-! ### Replies to the eye scan -/

theorem updateProgress_cases (s : Node E R) (o : ReqId) (error : Option E) (complete total : ℤ) :
    s.updateProgress o error complete total = s ∨
      ∃ r x, error = none ∧ s.request = some r ∧ Py.trueDiv complete total = .ok x ∧
        s.updateProgress o error complete total = s.give o r (.progress (.fraction x)) := by
  unfold updateProgress
  split
  · next r x hrequest hx => exact .inr ⟨r, x, rfl, hrequest, hx, rfl⟩
  · exact .inl rfl

theorem Inv.checkResult (hs : Inv s) (ho : s.operations o ≠ none)
    (hquiet : ∀ r, s.request = some r → r = o) (error : Option E) (result : Option R) :
    Inv (s.checkResult o error result) := by
  have hset := hs.setOperation (hs.begun_of_operation ho) (hs.own.once o ho) (.eyeScan false)
  unfold Node.checkResult
  dsimp only
  cases hrequest : (s.setOperation o (.eyeScan false)).request with
  | none => exact hset
  | some r =>
    obtain rfl := hquiet r hrequest
    exact hset.give (hset.request _ hrequest) _

/-! ### Steps -/

/-- Only a reply to a monitor is watched. -/
theorem watches_of_not_status {input : Input E R}
    (h : ∀ o reply elapsed, input ≠ .status o reply elapsed) : s.Watches input s' :=
  fun o reply elapsed _ heq _ _ => absurd heq (h o reply elapsed)

theorem inv_step {input : Input E R} (hs : Inv s) (hquiet : s.Undisturbed input)
    (h : s.step input = some s') : Inv s' ∧ s.Watches input s' := by
  cases input with
  | begin r method =>
    rw [step] at h
    split_ifs at h with hmay
    obtain rfl := Option.some.inj h
    exact ⟨hs.begin hmay (hquiet hmay), watches_of_not_status (by rintro o reply elapsed ⟨⟩)⟩
  | finish r error result =>
    rw [step] at h
    split_ifs at h with hmay
    obtain rfl := Option.some.inj h
    obtain ⟨hbegun, hnone⟩ := hmay
    refine ⟨hs.completes (completes_doneRun hbegun error result) hbegun rfl hs.own.given
      fun ho => absurd hnone ho, watches_of_not_status (by rintro o reply elapsed ⟨⟩)⟩
  | cancel r =>
    obtain rfl := Option.some.inj h
    exact ⟨hs.cancel hquiet, watches_of_not_status (by rintro o reply elapsed ⟨⟩)⟩
  | status o reply elapsed =>
    rw [step] at h
    split at h
    · next m ho =>
      split_ifs at h with hpolling
      obtain rfl := Option.some.inj h
      obtain ⟨hopen, hclosed⟩ := hquiet m ho hpolling
      by_cases hcount : (s.requests o).completions = 0
      · obtain ⟨hrequest, hsees⟩ := hopen hcount
        obtain ⟨hinv, hends, hgoes⟩ := hs.checkStatus_own hrequest hsees
        refine ⟨hinv, ?_⟩
        rintro o' reply' elapsed' m' ⟨⟩ ho' -
        obtain ⟨⟩ := Option.some.inj (ho.symm.trans ho')
        exact ⟨hends, hgoes⟩
      · refine ⟨hs.checkStatus_other ho (hclosed hcount), ?_⟩
        rintro o' reply' elapsed' m' ⟨⟩ - hcount'
        exact absurd hcount' hcount
    · cases h
  | progress o error complete total =>
    rw [step] at h
    split at h
    · next ho =>
      obtain rfl := Option.some.inj h
      refine ⟨?_, watches_of_not_status (by rintro o reply elapsed ⟨⟩)⟩
      rcases s.updateProgress_cases o error complete total with
        heq | ⟨r, x, herror, hrequest, hx, heq⟩
      · rw [heq]
        exact hs
      · obtain rfl := hquiet ho r x hrequest herror hx
        rw [heq]
        exact hs.give (hs.request _ hrequest) _
    · cases h
  | result o error result =>
    rw [step] at h
    split at h
    · next ho =>
      obtain rfl := Option.some.inj h
      refine ⟨hs.checkResult ?_ (hquiet ho) error result,
        watches_of_not_status (by rintro o reply elapsed ⟨⟩)⟩
      rw [ho]
      simp
    · cases h

/-! ### Disturbed steps -/

/-- A request is given something by another one's operation. -/
theorem not_own_of_given {g : Given E R} (hg : g ∈ s.given) (hne : g.request ≠ g.operation) :
    ¬ s.Own := fun h => hne (h.given g hg)

theorem mem_given_give (s : Node E R) (o r : ReqId) (gift : Gift E R) :
    (⟨o, r, gift⟩ : Given E R) ∈ (s.give o r gift).given := by
  rw [given_give]
  exact List.mem_append_right _ List.mem_cons_self

theorem not_own_give (s : Node E R) (gift : Gift E R) (hne : r ≠ o) : ¬ (s.give o r gift).Own :=
  not_own_of_given (mem_given_give s o r gift) hne

/-- The reply of a monitor is given to a request that is not its own. -/
theorem not_own_checkStatusOf {m : Monitor} {reply : StatusReply E} {elapsed : ℚ} (hne : r ≠ o)
    (herror : (s.requests r).error = none) (hloud : ¬ m.Silent elapsed reply) :
    ¬ (s.checkStatusOf o r m elapsed reply).Own := by
  cases reply with
  | error e =>
    rw [checkStatusOf]
    exact not_own_give _ _ hne
  | status p =>
    obtain ⟨status, props, hok, heq⟩ := checkStatusOf_status s o r m elapsed p
    have hkept := kept_showStatus s o r m status
    rw [heq]
    by_cases hfull : p.isFull = true
    · rw [if_pos hfull]
      exact not_own_give _ _ hne
    · rw [if_neg hfull]
      by_cases hlate : m.Late elapsed
      · have hnone : ((s.showStatus o r m status).requests r).error.isSome = false := by
          rw [hkept.error, herror]
          rfl
        rw [if_pos hlate, if_neg (by simpa [Node.setOperation] using hnone)]
        exact not_own_give _ _ hne
      · rw [if_neg hlate]
        have hprev : m.prevStatus ≠ some status := by
          intro hprev
          exact hloud ⟨⟨status, props, hok, hprev⟩, not_or.mpr ⟨hfull, hlate⟩⟩
        rw [showStatus, if_neg hprev]
        exact not_own_of_given (mem_given_give s o r (.progress (.status status))) hne

/-- A reply finds the wrong request, or the monitor stops, or misses the end. -/
theorem checkStatus_disturbed {m : Monitor} {reply : StatusReply E} {elapsed : ℚ} (hs : Inv s)
    (ho : s.operations o = some (.monitor m)) (hbad : ¬
      (((s.requests o).completions = 0 →
        s.request = some o ∧ (m.Ends elapsed reply → m.Sees elapsed reply)) ∧
      ((s.requests o).completions ≠ 0 → s.request ≠ none → m.Silent elapsed reply)))
    (hwatches : s.Watches (.status o reply elapsed) (s.checkStatus o m reply elapsed)) :
    ¬ (s.checkStatus o m reply elapsed).Own := by
  have hbegun : (s.requests o).begun = true := hs.begun_of_operation (by rw [ho]; simp)
  by_cases hcount : (s.requests o).completions = 0
  · have hrunning := hs.begun o hbegun hcount
    obtain ⟨hends, hgoes⟩ := hwatches o reply elapsed m rfl ho hcount
    exfalso
    cases hrequest : s.request with
    | none =>
      -- the monitor has stopped
      rw [checkStatus, hrequest] at hends hgoes
      dsimp only at hends hgoes
      by_cases hend : m.Ends elapsed reply
      · exact absurd (hcount.symm.trans (hends hend)) (by decide)
      · obtain ⟨m', hm', hpolling⟩ := (hgoes hend).2
        rw [operations_setOperation, if_pos rfl] at hm'
        obtain ⟨⟩ := Option.some.inj hm'
        cases hpolling
    | some r =>
      obtain rfl := Option.some.inj ((hs.request r hrequest).symm.trans hrunning)
      have hmissed : ¬ (m.Ends elapsed reply → m.Sees elapsed reply) := fun hsees =>
        hbad ⟨fun _ => ⟨hrequest, hsees⟩, fun hne => absurd hcount hne⟩
      obtain ⟨hend, hnot⟩ := Classical.not_imp.mp hmissed
      have hcompleted := hends hend
      rw [checkStatus, hrequest] at hcompleted
      dsimp only at hcompleted
      cases reply with
      | error e => exact hnot trivial
      | status p =>
        obtain ⟨hfull, hlate⟩ := not_or.mp hnot
        obtain ⟨status, props, hok, heq⟩ := checkStatusOf_status s r r m elapsed p
        rw [heq, if_neg hfull, if_neg hlate] at hcompleted
        have hsame := (kept_showStatus s r r m status).completions r
        exact absurd (hcount.symm.trans (hsame.symm.trans hcompleted)) (by decide)
  · have hloud : s.request ≠ none ∧ ¬ m.Silent elapsed reply := by
      refine Classical.not_imp.mp fun hquiet => hbad ⟨fun hzero => absurd hzero hcount, fun _ => ?_⟩
      exact hquiet
    obtain ⟨r, hrequest⟩ := Option.ne_none_iff_exists'.mp hloud.1
    obtain ⟨-, hzero, herror⟩ := hs.running r (hs.request r hrequest)
    have hne : r ≠ o := by
      rintro rfl
      exact hcount hzero
    rw [checkStatus, hrequest]
    exact not_own_checkStatusOf hne herror hloud.2

/-- The request of an operation that has started. -/
theorem start_spec {method : Method} (hbegun : (s.requests r).begun = true)
    (hstarts : method.Starts) :
    ((s.start r method).requests r).begun = true ∧
      ((s.start r method).requests r).error = (s.requests r).error ∧
      (s.requests r).completions ≤ ((s.start r method).requests r).completions ∧
      (s.start r method).operations r ≠ none := by
  have hset : ∀ (s₁ : Node E R) operation, (s₁.setOperation r operation).operations r ≠ none := by
    intro s₁ operation
    rw [operations_setOperation, if_pos rfl]
    simp
  cases method with
  | call => exact absurd hstarts id
  | monitorStatus stateNames timeout => exact ⟨hbegun, rfl, le_rfl, hset _ _⟩
  | runEyeScanAsync dataChecked settings =>
    rw [Node.start, Node.runEyeScan]
    split_ifs with hpass
    · exact ⟨hbegun, rfl, le_rfl, hset _ _⟩
    · have hcompletes : Completes r s (s.give r r (.result (.bool false))) :=
        completes_give hbegun r (by rintro value ⟨⟩)
      exact ⟨(hcompletes.begun r).trans hbegun, error_setResult s r r _,
        (Nat.le_succ _).trans hcompletes.completions.ge, hset _ _⟩

/-- A request that was cancelled while it waited is completed again when its operation starts. -/
theorem not_own_begin {method : Method} (hs : Inv s) (hmay : s.MayBegin r)
    (hstarts : method.Starts) (herror : (s.requests r).error ≠ none) :
    ¬ (((s.take r).start r method).completeAtOnce r).Own := by
  have hwaited := (hs.waiting r hmay.1).2.not.mp herror
  have htaken : (s.take r).requests r = (s.requests r).begin := by
    rw [requests_take, if_pos rfl]
  obtain ⟨hbegun, hsame, hle, hoperation⟩ :=
    start_spec (s := s.take r) (by rw [htaken, Request.begin]) hstarts
  rw [htaken] at hsame hle
  rw [completeAtOnce, if_pos (by rw [hsame]; exact Option.isSome_iff_ne_none.mpr herror)]
  intro hown
  have honce := hown.once r hoperation
  rw [(completes_doneRun hbegun _ _).completions] at honce
  have hmany : (s.requests r).completions ≤ 0 := by
    refine hle.trans ?_
    omega
  exact hwaited (Nat.le_zero.mp hmany)

/-- A step that is disturbed lacks one of the properties. -/
theorem exists_step_of_disturbed {input : Input E R} (hs : Inv s) (hbad : ¬ s.Undisturbed input) :
    ∃ s', s.step input = some s' ∧ (s.Watches input s' → ¬ s'.Own) := by
  cases input with
  | begin r method =>
    obtain ⟨hmay, hrest⟩ := Classical.not_imp.mp hbad
    obtain ⟨hstarts, herror⟩ := Classical.not_imp.mp hrest
    exact ⟨_, if_pos hmay, fun _ => not_own_begin hs hmay hstarts herror⟩
  | finish r error result => exact absurd trivial hbad
  | cancel r =>
    obtain ⟨ho, hrest⟩ := Classical.not_imp.mp hbad
    obtain ⟨hcount, herror⟩ := Classical.not_imp.mp hrest
    have hnone := not_not.mp herror
    refine ⟨_, rfl, fun _ hown => ?_⟩
    rw [cancel, hnone] at hown
    dsimp only at hown
    have honce := hown.once r ho
    rw [(completes_setException (hs.begun_of_operation ho) _).completions] at honce
    omega
  | status o reply elapsed =>
    have hwaits : ∃ m, s.operations o = some (.monitor m) ∧ m.polling = true ∧ ¬
        (((s.requests o).completions = 0 →
          s.request = some o ∧ (m.Ends elapsed reply → m.Sees elapsed reply)) ∧
        ((s.requests o).completions ≠ 0 → s.request ≠ none → m.Silent elapsed reply)) := by
      by_contra hnone
      refine hbad fun m ho hpolling => ?_
      by_contra hnot
      exact hnone ⟨m, ho, hpolling, hnot⟩
    obtain ⟨m, ho, hpolling, hnot⟩ := hwaits
    refine ⟨s.checkStatus o m reply elapsed, ?_, checkStatus_disturbed hs ho hnot⟩
    rw [step, ho]
    exact if_pos hpolling
  | progress o error complete total =>
    obtain ⟨ho, hrest⟩ := Classical.not_imp.mp hbad
    have hgiven : ∃ r x, s.request = some r ∧ error = none ∧ Py.trueDiv complete total = .ok x ∧
        r ≠ o := by
      by_contra hnone
      refine hrest fun r x hrequest herror hx => ?_
      by_contra hne
      exact hnone ⟨r, x, hrequest, herror, hx, hne⟩
    obtain ⟨r, x, hrequest, rfl, hx, hne⟩ := hgiven
    refine ⟨s.updateProgress o none complete total, ?_, fun _ => ?_⟩
    · rw [step, ho]
    · have heq : s.updateProgress o none complete total = s.give o r (.progress (.fraction x)) := by
        simp only [updateProgress, hrequest, hx]
      rw [heq]
      exact not_own_give s _ hne
  | result o error result =>
    obtain ⟨ho, hrest⟩ := Classical.not_imp.mp hbad
    have hgiven : ∃ r, s.request = some r ∧ r ≠ o := by
      by_contra hnone
      refine hrest fun r hrequest => ?_
      by_contra hne
      exact hnone ⟨r, hrequest, hne⟩
    obtain ⟨r, hrequest, hne⟩ := hgiven
    refine ⟨s.checkResult o error result, ?_, fun _ => ?_⟩
    · rw [step, ho]
    · have hsame : (s.setOperation o (.eyeScan false)).request = some r := hrequest
      unfold checkResult
      dsimp only
      rw [hsame]
      exact not_own_give _ _ hne

end Effects

/-- Operations finish their own requests, once, exactly in the runs that are not disturbed. -/
theorem finishOwn_iff (inputs : List (Input E R)) :
    FinishOwn (new E R) inputs ↔ Machine.EachStep step Undisturbed (new E R) inputs := by
  have hstep : ∀ {s : Node E R} {input s'}, Inv s → s.Undisturbed input → s.step input = some s' →
      Inv s' ∧ s.Watches input s' := fun hs hquiet h => inv_step hs hquiet h
  have hbad : ∀ {s : Node E R} {input}, Inv s → ¬ s.Undisturbed input →
      ∃ s', s.step input = some s' ∧ (s.Watches input s' → ¬ s'.Own) :=
    fun hs hnot => exists_step_of_disturbed hs hnot
  exact Machine.Throughout.iff_eachStep Inv (fun hs => hs.own) hstep hbad inputs (inv_new E R)

/-- The status of an ILA that is armed and waits. -/
def armedStatus : StatusProps where
  props := Py.Dict.empty.update [("capture_state", .str "TRIGGER"), ("is_armed", .int 1),
    ("is_full", .int 0), ("samples_captured", .int 0), ("windows_captured", .int 0),
    ("tsm_flags", .nil), ("tsm_state", .int 0)]
  state := .trigger
  captureState := rfl
  tsmState := ⟨0, rfl⟩
  complete := by decide

/-- A monitor is cancelled, the next request begins, and the reply that was under way comes. -/
def cancelledMonitor : List (Input ℕ ℕ) :=
  [.begin 0 (.monitorStatus .empty none), .cancel 0, .begin 1 .call,
    .status 0 (.status armedStatus) 0]

/-- The next request is given the progress. -/
theorem not_finishOwn_cancelled : ¬ FinishOwn (new ℕ ℕ) cancelledMonitor := by
  intro h
  have hgiven : (Machine.runTo step (new ℕ ℕ) cancelledMonitor).map
      (fun s => s.given.map fun g => (g.operation, g.request)) = some [(0, 1)] := by decide
  obtain ⟨s, hs, heq⟩ := Option.map_eq_some_iff.mp hgiven
  have hown := (h.runTo hs).given
  obtain ⟨g, hg, hpair⟩ := List.mem_map.mp (heq ▸ List.mem_cons_self : (0, 1) ∈ s.given.map _)
  obtain ⟨hoperation, hrequest⟩ := Prod.mk.inj hpair
  have hsame := hown g hg
  rw [hoperation, hrequest] at hsame
  exact absurd hsame (by decide)

end Node

end Chipscopy.LongOperations
