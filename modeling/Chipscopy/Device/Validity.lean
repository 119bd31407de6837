import Chipscopy.Lib.Machine

/-! Devices that are gone

    The state of a device is written by the events of its nodes and by the calls of its user. A call
    tests the state when it begins and writes it when it ends, and events come in between, so the
    removal of the device is forgotten by a call that began before it, and by any later change of a
    node that is watched. -/

namespace Chipscopy.Validity

inductive DeviceState
  | valid
  | needsRefresh
  | invalid
  deriving DecidableEq, Repr

inductive DeviceFamily
  | generic
  | uplus
  | versal
  | xvc
  deriving DecidableEq, Repr

inductive NodeAction
  | nodeAdded
  | nodeChanged
  | nodeRemoved
  deriving DecidableEq, Repr

/-- What of a device stays as it is. -/
structure Device where
  deviceCtx : Option String
  jtagDeviceCtx : Option String
  debugcoreDapCtx : Option String
  debugcoreDpcCtx : Option String
  memoryDapCtx : Option String
  memoryDpcCtx : Option String
  chipscopeDapCtx : Option String
  chipscopeDpcCtx : Option String
  deviceFamily : DeviceFamily
  disableCache : Bool

namespace Device

def rootDeviceContexts (d : Device) : List (Option String) := [d.deviceCtx, d.jtagDeviceCtx]

def allDeviceContexts (d : Device) : List (Option String) :=
  [d.deviceCtx, d.jtagDeviceCtx, d.debugcoreDapCtx, d.debugcoreDpcCtx, d.memoryDapCtx,
    d.memoryDpcCtx, d.chipscopeDapCtx, d.chipscopeDpcCtx]

/-- Devices that can be programmed. -/
def Programmable (d : Device) : Prop := d.deviceFamily ≠ .generic

instance (d : Device) : Decidable d.Programmable := inferInstanceAs (Decidable (_ ≠ _))

end Device

/-! ### Calls -/

inductive Call
  | refresh
  | scanProps
  | toDict
  | reset
  | program (done skipReset : Bool)
  deriving DecidableEq, Repr

/-- Steps of the calls. Between two of them events may be delivered. -/
inductive Instr
  | raiseIfFamilyNot
  | raiseIfStateInvalid
  | scanJtag
  | scanRest
  | storeProps
  | setValid
  | refreshIfNeeded
  | returnCached
  | setNeedsRefresh
  | assertJtagNode
  | resetNode
  | findFile
  | startConfig (done : Bool)
  | configured
  | awaitFuture
  deriving DecidableEq, Repr

/-- `scan_props`, which tests the state once more in `scan_is_programmed`. -/
def scanPropsCode : List Instr := [.raiseIfStateInvalid, .scanJtag, .raiseIfStateInvalid, .scanRest]

def refreshCode : List Instr := .raiseIfStateInvalid :: (scanPropsCode ++ [.storeProps, .setValid])

def Call.code : Call → List Instr
  | .refresh => refreshCode
  | .scanProps => scanPropsCode
  | .toDict => [.raiseIfStateInvalid, .refreshIfNeeded, .returnCached]
  | .reset => [.raiseIfFamilyNot, .raiseIfStateInvalid, .assertJtagNode, .setNeedsRefresh,
      .resetNode] ++ refreshCode
  | .program done skipReset =>
    [.raiseIfFamilyNot, .raiseIfStateInvalid, .setNeedsRefresh, .findFile, .assertJtagNode] ++
      (if skipReset then [] else [.resetNode]) ++ [.startConfig done]

/-- The call tests the family of the device first. -/
def Call.NeedsFamily (c : Call) : Prop := .raiseIfFamilyNot ∈ c.code

instance (c : Call) : Decidable c.NeedsFamily := inferInstanceAs (Decidable (_ ∈ _))

inductive Outcome (P E : Type)
  | returned (value : Option P)
  | deviceException
  | featureNotAvailable
  | other (e : E)
  deriving DecidableEq, Repr

/-- A call that has begun, or the callbacks of a program that is loaded. -/
structure Task (P : Type) where
  late : Bool
  value : Option P
  code : List Instr
  deriving DecidableEq, Repr

/-- A device, the calls that have begun, and what became of those that have ended. That the device
    was removed, and which calls began afterwards, is for statements only. -/
structure System (P E : Type) where
  state : DeviceState
  cachedProps : P
  removed : Bool
  tasks : List (Task P)
  ended : List (Bool × Outcome P E)

/-- How a call goes on. -/
inductive Progress (P E : Type)
  | next (value : Option P) (code : List Instr)
  | stop (outcome : Outcome P E)

section Run

variable {P E : Type}

namespace System

def setState (s : System P E) (state : DeviceState) : System P E where
  state := state
  cachedProps := s.cachedProps
  removed := s.removed
  tasks := s.tasks
  ended := s.ended

def setProps (s : System P E) (props : P) : System P E where
  state := s.state
  cachedProps := props
  removed := s.removed
  tasks := s.tasks
  ended := s.ended

def setTasks (s : System P E) (tasks : List (Task P)) : System P E where
  state := s.state
  cachedProps := s.cachedProps
  removed := s.removed
  tasks := tasks
  ended := s.ended

def finish (s : System P E) (late : Bool) (outcome : Outcome P E) : System P E where
  state := s.state
  cachedProps := s.cachedProps
  removed := s.removed
  tasks := s.tasks
  ended := s.ended ++ [(late, outcome)]

/-- A call has begun and has not taken a step. -/
def begin (s : System P E) (code : List Instr) : System P E :=
  s.setTasks (s.tasks ++ [{ late := s.removed, value := none, code := code }])

/-- A node of the device itself is gone. -/
def invalidate (s : System P E) : System P E where
  state := .invalid
  cachedProps := s.cachedProps
  removed := true
  tasks := s.tasks
  ended := s.ended

end System

/-- The callbacks of `program`: the configuration is done, and the properties are read again. -/
def callbackCode : List Instr := .configured :: refreshCode

variable (d : Device)

/-- What the hardware, the file system or a future gives: a value or an error. -/
abbrev Given (P E : Type) := Except E P

/-- One step of a call. -/
def execute (given : Given P E) (value : Option P) (rest : List Instr) (s : System P E) :
    Instr → System P E × Progress P E
  | .raiseIfFamilyNot =>
    (s, if d.Programmable then .next value rest else .stop .featureNotAvailable)
  | .raiseIfStateInvalid =>
    (s, if s.state = .invalid then .stop .deviceException else .next value rest)
  | .scanRest => match given with
    | .ok props => (s, .next (some props) rest)
    | .error e => (s, .stop (.other e))
  | .storeProps => (s.setProps (value.getD s.cachedProps), .next none rest)
  | .setValid => (if d.disableCache then s else s.setState .valid, .next value rest)
  | .refreshIfNeeded =>
    (s, .next value (if s.state = .needsRefresh then refreshCode ++ rest else rest))
  | .returnCached => (s, .next (some s.cachedProps) rest)
  | .setNeedsRefresh => (s.setState .needsRefresh, .next value rest)
  | .startConfig done => match given with
    | .ok _ => (s.setTasks (s.tasks ++ [{ late := false, value := none, code := callbackCode }]),
        .next value (if done then rest else .awaitFuture :: rest))
    | .error e => (s, .stop (.other e))
  | .scanJtag | .assertJtagNode | .resetNode | .findFile | .configured | .awaitFuture =>
    match given with
    | .ok _ => (s, .next value rest)
    | .error e => (s, .stop (.other e))

/-- A task takes its next step and is taken out when it has ended. -/
def advance (s : System P E) (i : ℕ) (given : Given P E) : Option (System P E) :=
  match s.tasks[i]? with
  | none => none
  | some task =>
    match task.code with
    | [] => none
    | instr :: rest =>
      let (s, progress) := execute d given task.value rest s instr
      match progress with
      | .stop outcome => some ((s.setTasks (s.tasks.eraseIdx i)).finish task.late outcome)
      | .next value [] =>
        some ((s.setTasks (s.tasks.eraseIdx i)).finish task.late (.returned value))
      | .next value (instr :: rest) => some (s.setTasks
          (s.tasks.set i { late := task.late, value := value, code := instr :: rest }))

/-- `node_callback`. -/
def nodeCallback (s : System P E) (action : NodeAction) (node : Option String) : System P E :=
  match node with
  | none => s
  | some ctx =>
    if action = .nodeAdded then s
    else if action = .nodeRemoved ∧ some ctx ∈ d.rootDeviceContexts then s.invalidate
    else if action = .nodeChanged ∧ some ctx ∈ d.allDeviceContexts then s.setState .needsRefresh
    else s

/-- Events, calls with their first step, and further steps of calls. -/
inductive Input (P E : Type)
  | event (action : NodeAction) (node : Option String)
  | call (c : Call) (given : Given P E)
  | step (i : ℕ) (given : Given P E)

def step (s : System P E) : Input P E → Option (System P E)
  | .event action node => some (nodeCallback d s action node)
  | .call c given => advance d (s.begin c.code) s.tasks.length given
  | .step i given => advance d s i given

/-- A device as the constructor leaves it. -/
def new (cachedProps : P) : System P E where
  state := if d.disableCache then .needsRefresh else .valid
  cachedProps := cachedProps
  removed := false
  tasks := []
  ended := []

/-! ### Absorption -/

/-- The device stays invalid, and the calls that begin afterwards raise: each stands before its test
    of the state, or has ended with the exception. -/
structure Absorbed (s : System P E) : Prop where
  state : s.state = .invalid
  begun : ∀ task ∈ s.tasks, task.late = true → task.code.head? = some .raiseIfStateInvalid
  ended : ∀ e ∈ s.ended, e.1 = true → e.2 = .deviceException

/-- INVALID is absorbing in a run. -/
def Absorbing (s : System P E) (inputs : List (Input P E)) : Prop :=
  Machine.Throughout (step d) (fun s => s.removed = true → Absorbed s) (fun _ _ _ => True) s inputs

/-- After the removal no watched node changes, no call that is past its tests writes the state, and
    a device that cannot be programmed is neither reset nor programmed. -/
def Quiet (s : System P E) (input : Input P E) : Prop :=
  s.removed = true → match input with
    | .event action node =>
      ¬ (action = .nodeChanged ∧ ∃ ctx, node = some ctx ∧ some ctx ∈ d.allDeviceContexts)
    | .call c _ => c.NeedsFamily → d.Programmable
    | .step i _ => ∀ task ∈ s.tasks[i]?, task.code.head? ≠ some .setNeedsRefresh ∧
        (task.code.head? = some .setValid → d.disableCache = true)

/-! ### Steps of calls -/

variable {d} {s s' : System P E} {given : Given P E}

/-- Only two steps write the state, and no step forgets a call or a removal. -/
structure Steps (s s₁ : System P E) : Prop where
  removed : s₁.removed = s.removed
  ended : s₁.ended = s.ended
  tasks : ∀ task ∈ s₁.tasks, task ∈ s.tasks ∨ task.late = false

theorem Steps.refl (s : System P E) : Steps s s := ⟨rfl, rfl, fun _ h => .inl h⟩

theorem execute_steps (value : Option P) (rest : List Instr) (instr : Instr) :
    Steps s (execute d given value rest s instr).1 := by
  cases instr with
  | startConfig done =>
    cases given with
    | error e => exact Steps.refl s
    | ok props =>
      refine ⟨rfl, rfl, fun task htask => ?_⟩
      rcases List.mem_append.mp htask with hold | hnew
      · exact .inl hold
      · obtain rfl := List.mem_singleton.mp hnew
        exact .inr rfl
  | setValid =>
    rw [execute]
    split_ifs
    · exact Steps.refl s
    · exact ⟨rfl, rfl, fun _ h => .inl h⟩
  | storeProps => exact ⟨rfl, rfl, fun _ h => .inl h⟩
  | setNeedsRefresh => exact ⟨rfl, rfl, fun _ h => .inl h⟩
  | raiseIfFamilyNot => exact Steps.refl s
  | raiseIfStateInvalid => exact Steps.refl s
  | refreshIfNeeded => exact Steps.refl s
  | returnCached => exact Steps.refl s
  | scanJtag | scanRest | assertJtagNode | resetNode | findFile | configured | awaitFuture =>
    cases given with
    | ok props => exact Steps.refl s
    | error e => exact Steps.refl s

theorem execute_state (value : Option P) (rest : List Instr) {instr : Instr}
    (hneeds : instr ≠ .setNeedsRefresh) (hvalid : instr = .setValid → d.disableCache = true) :
    (execute d given value rest s instr).1.state = s.state := by
  cases instr with
  | setNeedsRefresh => exact absurd rfl hneeds
  | setValid => rw [execute, if_pos (hvalid rfl)]
  | storeProps | raiseIfFamilyNot | raiseIfStateInvalid | refreshIfNeeded | returnCached => rfl
  | scanJtag | scanRest | assertJtagNode | resetNode | findFile | startConfig | configured
  | awaitFuture =>
    cases given with
    | ok props => rfl
    | error e => rfl

/-- What is left when a task has taken its step. -/
theorem advance_spec {i : ℕ} (h : advance d s i given = some s') :
    ∃ task instr rest, s.tasks[i]? = some task ∧ task.code = instr :: rest ∧
      ∃ s₁ progress, execute d given task.value rest s instr = (s₁, progress) ∧
        s'.state = s₁.state ∧ s'.removed = s₁.removed ∧
        ((∃ outcome, s'.ended = s₁.ended ++ [(task.late, outcome)] ∧
            (∀ o, progress = .stop o → outcome = o) ∧ ∀ t ∈ s'.tasks, t ∈ s₁.tasks) ∨
          (s'.ended = s₁.ended ∧ (∀ o, progress ≠ .stop o) ∧
            ∀ t ∈ s'.tasks, t ∈ s₁.tasks ∨ t.late = task.late)) := by
  rw [advance] at h
  cases htask : s.tasks[i]? with
  | none =>
    rw [htask] at h
    cases h
  | some task =>
    rw [htask] at h
    dsimp only at h
    cases hcode : task.code with
    | nil =>
      rw [hcode] at h
      cases h
    | cons instr rest =>
      rw [hcode] at h
      dsimp only at h
      rcases hexec : execute d given task.value rest s instr with ⟨s₁, progress⟩
      rw [hexec] at h
      refine ⟨task, instr, rest, rfl, hcode, s₁, progress, hexec, ?_⟩
      cases progress with
      | stop outcome =>
        obtain rfl := Option.some.inj h
        refine ⟨rfl, rfl, .inl ⟨outcome, rfl, ?_, fun t ht => List.mem_of_mem_eraseIdx ht⟩⟩
        rintro o ⟨⟩
        rfl
      | next value code =>
        cases code with
        | nil =>
          obtain rfl := Option.some.inj h
          refine ⟨rfl, rfl, .inl ⟨_, rfl, ?_, fun t ht => List.mem_of_mem_eraseIdx ht⟩⟩
          rintro o ⟨⟩
        | cons instr' code =>
          obtain rfl := Option.some.inj h
          refine ⟨rfl, rfl, .inr ⟨rfl, ?_, fun t ht => ?_⟩⟩
          · rintro o ⟨⟩
          · rcases List.mem_or_eq_of_mem_set ht with hold | rfl
            · exact .inl hold
            · exact .inr rfl

/-! ### The invariant -/

/-- Calls are late only after the removal, and then the device stays absorbed. -/
structure Inv (s : System P E) : Prop where
  begun : ∀ task ∈ s.tasks, task.late = true → s.removed = true
  ended : ∀ e ∈ s.ended, e.1 = true → s.removed = true
  absorbed : s.removed = true → Absorbed s

theorem inv_new (cachedProps : P) : Inv (new d cachedProps : System P E) where
  begun := by simp [new]
  ended := by simp [new]
  absorbed := by simp [new]

/-- A late call stands before its test, and the test ends it. -/
theorem Inv.stopped (hs : Inv s) (d : Device) (given : Given P E) {task : Task P} {instr : Instr}
    {rest : List Instr} (hmem : task ∈ s.tasks) (hlate : task.late = true)
    (hcode : task.code = instr :: rest) :
    (execute d given task.value rest s instr).2 = .stop .deviceException := by
  have habsorbed := hs.absorbed (hs.begun task hmem hlate)
  have hhead := habsorbed.begun task hmem hlate
  rw [hcode] at hhead
  obtain rfl := Option.some.inj hhead
  rw [execute, if_pos habsorbed.state]

/-- A step forgets no removal, and what is new in it is not late or ends with the exception. -/
structure Progresses (s s' : System P E) : Prop where
  removed : s'.removed = s.removed
  tasks : ∀ task ∈ s'.tasks, task ∈ s.tasks ∨ task.late = false
  ended : ∀ e ∈ s'.ended, e ∈ s.ended ∨ e.1 = false ∨ e.2 = .deviceException ∧ s.removed = true

theorem Inv.progresses (hs : Inv s) {i : ℕ} (h : advance d s i given = some s') :
    Progresses s s' := by
  obtain ⟨task, instr, rest, htask, hcode, s₁, progress, hexec, -, hremoved, hcases⟩ :=
    advance_spec h
  have hmem : task ∈ s.tasks := List.mem_of_getElem? htask
  have hsteps : Steps s s₁ := by
    have hfirst := @execute_steps P E d s given task.value rest instr
    rwa [hexec] at hfirst
  have hstopped : task.late = true → progress = .stop .deviceException := by
    intro htrue
    have hstop := hs.stopped d given hmem htrue hcode
    rw [hexec] at hstop
    exact hstop
  refine ⟨hremoved.trans hsteps.removed, fun t ht => ?_, fun e he => ?_⟩
  · rcases hcases with ⟨outcome, -, -, hkept⟩ | ⟨-, hgoes, hkept⟩
    · exact hsteps.tasks t (hkept t ht)
    · rcases hkept t ht with hold | hnew
      · exact hsteps.tasks t hold
      · refine .inr ?_
        rw [hnew]
        by_contra hnot
        exact hgoes _ (hstopped (by simpa using hnot))
  · rcases hcases with ⟨outcome, hadded, hstop, -⟩ | ⟨hkept, -, -⟩
    · rw [hadded, hsteps.ended] at he
      rcases List.mem_append.mp he with hold | hnew
      · exact .inl hold
      · obtain rfl := List.mem_singleton.mp hnew
        cases hl : task.late with
        | false => exact .inr (.inl rfl)
        | true => exact .inr (.inr ⟨hstop _ (hstopped hl), hs.begun task hmem hl⟩)
    · rw [hkept, hsteps.ended] at he
      exact .inl he

/-- The state stays where the step does not write it. -/
theorem advance_state {i : ℕ} (h : advance d s i given = some s')
    (hquiet : ∀ task ∈ s.tasks[i]?, task.code.head? ≠ some .setNeedsRefresh ∧
      (task.code.head? = some .setValid → d.disableCache = true)) : s'.state = s.state := by
  obtain ⟨task, instr, rest, htask, hcode, s₁, progress, hexec, hstate, -, -⟩ := advance_spec h
  obtain ⟨hneeds, hvalid⟩ := hquiet task htask
  rw [hcode] at hneeds hvalid
  have hkeeps := @execute_state P E d s given task.value rest instr
    (fun heq => hneeds (congrArg some heq)) fun heq => hvalid (congrArg some heq)
  rw [hexec] at hkeeps
  exact hstate.trans hkeeps

/-- Further steps of a call keep the device absorbed, where they do not write the state. -/
theorem inv_advance (hs : Inv s) {i : ℕ}
    (hquiet : s.removed = true → ∀ task ∈ s.tasks[i]?, task.code.head? ≠ some .setNeedsRefresh ∧
      (task.code.head? = some .setValid → d.disableCache = true))
    (h : advance d s i given = some s') : Inv s' := by
  have hp := hs.progresses h
  refine ⟨fun t ht htrue => ?_, fun e he htrue => ?_, fun hgone => ?_⟩
  · rw [hp.removed]
    rcases hp.tasks t ht with hold | hfalse
    · exact hs.begun t hold htrue
    · exact absurd (hfalse.symm.trans htrue) (by decide)
  · rw [hp.removed]
    rcases hp.ended e he with hold | hfalse | hraised
    · exact hs.ended e hold htrue
    · exact absurd (hfalse.symm.trans htrue) (by decide)
    · exact hraised.2
  · rw [hp.removed] at hgone
    have habsorbed := hs.absorbed hgone
    refine ⟨(advance_state h (hquiet hgone)).trans habsorbed.state, fun t ht htrue => ?_,
      fun e he htrue => ?_⟩
    · rcases hp.tasks t ht with hold | hfalse
      · exact habsorbed.begun t hold htrue
      · exact absurd (hfalse.symm.trans htrue) (by decide)
    · rcases hp.ended e he with hold | hfalse | hraised
      · exact habsorbed.ended e hold htrue
      · exact absurd (hfalse.symm.trans htrue) (by decide)
      · exact hraised.1

/-! ### Calls that begin -/

theorem Call.code_of_needsFamily {c : Call} (hc : c.NeedsFamily) :
    ∃ rest, c.code = .raiseIfFamilyNot :: .raiseIfStateInvalid :: rest := by
  cases c with
  | reset => exact ⟨_, rfl⟩
  | program done skipReset => exact ⟨_, rfl⟩
  | refresh => exact absurd hc (by decide)
  | scanProps => exact absurd hc (by decide)
  | toDict => exact absurd hc (by decide)

theorem Call.code_of_not_needsFamily {c : Call} (hc : ¬ c.NeedsFamily) :
    ∃ rest, c.code = .raiseIfStateInvalid :: rest := by
  cases c with
  | refresh => exact ⟨_, rfl⟩
  | scanProps => exact ⟨_, rfl⟩
  | toDict => exact ⟨_, rfl⟩
  | reset => exact absurd (by decide) hc
  | program done skipReset =>
    refine absurd ?_ hc
    rw [NeedsFamily]
    exact List.mem_cons_self

theorem getElem?_begin (code : List Instr) : (s.begin code).tasks[s.tasks.length]? =
    some { late := s.removed, value := none, code := code } :=
  List.getElem?_concat_length

/-- A call may begin if it stands before its test, or if the device is still there. -/
theorem inv_begin (hs : Inv s) {code : List Instr}
    (hcode : s.removed = true → code.head? = some .raiseIfStateInvalid) : Inv (s.begin code) := by
  refine ⟨fun task htask hlate => ?_, hs.ended, fun hgone => ?_⟩
  · rcases List.mem_append.mp htask with hold | hnew
    · exact hs.begun task hold hlate
    · obtain rfl := List.mem_singleton.mp hnew
      exact hlate
  · have habsorbed := hs.absorbed hgone
    refine ⟨habsorbed.state, fun task htask hlate => ?_, habsorbed.ended⟩
    rcases List.mem_append.mp htask with hold | hnew
    · exact habsorbed.begun task hold hlate
    · obtain rfl := List.mem_singleton.mp hnew
      exact hcode hgone

/-- The test of the family is passed. -/
theorem advance_family (hp : d.Programmable) (instr : Instr) (rest : List Instr) :
    advance d (s.begin (.raiseIfFamilyNot :: instr :: rest)) s.tasks.length given =
      some (s.begin (instr :: rest)) := by
  have hset : ∀ task task' : Task P,
      (s.tasks ++ [task]).set s.tasks.length task' = s.tasks ++ [task'] := by
    intro task task'
    rw [List.set_append_right _ _ le_rfl, Nat.sub_self]
    rfl
  rw [advance, getElem?_begin]
  dsimp only [execute]
  rw [if_pos hp]
  exact congrArg (fun tasks => some (s.setTasks tasks)) (hset _ _)

theorem inv_call (hs : Inv s) {c : Call}
    (hquiet : s.removed = true → c.NeedsFamily → d.Programmable)
    (h : advance d (s.begin c.code) s.tasks.length given = some s') : Inv s' := by
  by_cases hgone : s.removed = true
  · by_cases hc : c.NeedsFamily
    · obtain ⟨rest, hcode⟩ := Call.code_of_needsFamily hc
      rw [hcode, advance_family (hquiet hgone hc)] at h
      obtain rfl := Option.some.inj h
      exact inv_begin hs fun _ => rfl
    · obtain ⟨rest, hcode⟩ := Call.code_of_not_needsFamily hc
      rw [hcode] at h
      refine inv_advance (inv_begin hs fun _ => rfl) (fun _ task htask => ?_) h
      rw [getElem?_begin] at htask
      obtain rfl := Option.some.inj htask
      simp
  · exact inv_advance (inv_begin hs fun h => absurd h hgone) (fun h => absurd h hgone) h

/-! ### Events -/

theorem inv_event (hs : Inv s) {action : NodeAction} {node : Option String}
    (hquiet : s.removed = true →
      ¬ (action = .nodeChanged ∧ ∃ ctx, node = some ctx ∧ some ctx ∈ d.allDeviceContexts)) :
    Inv (nodeCallback d s action node) := by
  cases node with
  | none => exact hs
  | some ctx =>
    rw [nodeCallback]
    split_ifs with hadded hremoved hchanged
    · exact hs
    · refine ⟨fun _ _ _ => rfl, fun _ _ _ => rfl, fun _ => ⟨rfl, fun task htask hlate => ?_,
        fun e he hlate => ?_⟩⟩
      · exact (hs.absorbed (hs.begun task htask hlate)).begun task htask hlate
      · exact (hs.absorbed (hs.ended e he hlate)).ended e he hlate
    · refine ⟨hs.begun, hs.ended, fun hgone => ?_⟩
      exact absurd ⟨hchanged.1, ctx, rfl, hchanged.2⟩ (hquiet hgone)
    · exact hs

theorem nodeCallback_changed {ctx : String} (hctx : some ctx ∈ d.allDeviceContexts) :
    nodeCallback d s .nodeChanged (some ctx) = s.setState .needsRefresh := by
  simp [nodeCallback, hctx]

/-! ### Runs -/

theorem inv_step {input : Input P E} (hs : Inv s) (hquiet : Quiet d s input)
    (h : step d s input = some s') : Inv s' := by
  cases input with
  | event action node =>
    obtain rfl := Option.some.inj h
    exact inv_event hs hquiet
  | call c given => exact inv_call hs hquiet h
  | step i given => exact inv_advance hs hquiet h

/-- A task with a step left takes it. -/
theorem advance_of_code (d : Device) (given : Given P E) {i : ℕ} {task : Task P} {instr : Instr}
    {rest : List Instr} (htask : s.tasks[i]? = some task) (hcode : task.code = instr :: rest) :
    ∃ s', advance d s i given = some s' ∧
      s'.state = (execute d given task.value rest s instr).1.state ∧
      s'.removed = (execute d given task.value rest s instr).1.removed := by
  rw [advance, htask]
  dsimp only
  rw [hcode]
  dsimp only
  rcases execute d given task.value rest s instr with ⟨s₁, progress⟩
  cases progress with
  | stop outcome => exact ⟨_, rfl, rfl, rfl⟩
  | next value code =>
    cases code with
    | nil => exact ⟨_, rfl, rfl, rfl⟩
    | cons instr' code => exact ⟨_, rfl, rfl, rfl⟩

/-- A step that writes the state after the removal. -/
theorem not_absorbed_write (given : Given P E) {i : ℕ} {task : Task P} (hgone : s.removed = true)
    (htask : s.tasks[i]? = some task)
    (hwrite : task.code.head? = some .setNeedsRefresh ∨
      task.code.head? = some .setValid ∧ d.disableCache = false) :
    ∃ s', advance d s i given = some s' ∧ s'.removed = true ∧ s'.state ≠ .invalid := by
  rcases hwrite with hneeds | ⟨hvalid, hcache⟩
  · obtain ⟨rest, hcode⟩ := List.head?_eq_some_iff.mp hneeds
    obtain ⟨s', hs', hstate, hremoved⟩ := advance_of_code d given htask hcode
    refine ⟨s', hs', hremoved.trans hgone, ?_⟩
    rw [hstate]
    rintro ⟨⟩
  · obtain ⟨rest, hcode⟩ := List.head?_eq_some_iff.mp hvalid
    obtain ⟨s', hs', hstate, hremoved⟩ := advance_of_code d given htask hcode
    rw [execute, if_neg (by simp [hcache])] at hstate hremoved
    refine ⟨s', hs', hremoved.trans hgone, ?_⟩
    rw [hstate]
    rintro ⟨⟩

/-- A device of another family raises another error. -/
theorem advance_not_programmable (s : System P E) (given : Given P E) {c : Call} (hc : c.NeedsFamily) (hp : ¬ d.Programmable) :
    ∃ s', advance d (s.begin c.code) s.tasks.length given = some s' ∧ s'.removed = s.removed ∧
      (s.removed, .featureNotAvailable) ∈ s'.ended := by
  obtain ⟨rest, hcode⟩ := Call.code_of_needsFamily hc
  rw [hcode, advance, getElem?_begin]
  dsimp only [execute]
  rw [if_neg hp]
  exact ⟨_, rfl, rfl, List.mem_append_right _ List.mem_cons_self⟩

theorem not_absorbed_of_not_quiet {input : Input P E} (hquiet : ¬ Quiet d s input) :
    ∃ s', step d s input = some s' ∧ ¬ (s'.removed = true → Absorbed s') := by
  unfold Quiet at hquiet
  obtain ⟨hgone, hbad⟩ := Classical.not_imp.mp hquiet
  cases input with
  | event action node =>
    obtain ⟨rfl, ctx, rfl, hctx⟩ := not_not.mp hbad
    refine ⟨_, rfl, fun habsorbed => ?_⟩
    rw [nodeCallback_changed hctx] at habsorbed
    have hstate := (habsorbed hgone).state
    rw [System.setState] at hstate
    cases hstate
  | call c given =>
    obtain ⟨hc, hp⟩ := Classical.not_imp.mp hbad
    obtain ⟨s', hs', hremoved, hended⟩ := advance_not_programmable s given hc hp
    refine ⟨s', hs', fun habsorbed => ?_⟩
    have hraised := (habsorbed (hremoved.trans hgone)).ended _ hended hgone
    cases hraised
  | step i given =>
    have hwrite : ∃ task, s.tasks[i]? = some task ∧ (task.code.head? = some .setNeedsRefresh ∨
        task.code.head? = some .setValid ∧ d.disableCache = false) := by
      by_contra hnone
      refine hbad fun task htask =>
        ⟨fun hneeds => hnone ⟨task, htask, .inl hneeds⟩, fun hvalid => ?_⟩
      by_contra hcache
      exact hnone ⟨task, htask, .inr ⟨hvalid, by simpa using hcache⟩⟩
    obtain ⟨task, htask, hwrite⟩ := hwrite
    obtain ⟨s', hs', hremoved, hstate⟩ := not_absorbed_write given hgone htask hwrite
    exact ⟨s', hs', fun habsorbed => hstate (habsorbed hremoved).state⟩

/-- INVALID is absorbing exactly in the runs without a late change, a late write of the state, and
    a late reset of a device that cannot be programmed. -/
theorem absorbing_iff (d : Device) (cachedProps : P) (inputs : List (Input P E)) :
    Absorbing d (new d cachedProps) inputs ↔
      Machine.EachStep (step d) (Quiet d) (new d cachedProps) inputs := by
  have hbad : ∀ {s : System P E} {input : Input P E}, Inv s → ¬ Quiet d s input →
      ∃ s', step d s input = some s' ∧ (True → ¬ (s'.removed = true → Absorbed s')) := by
    intro s input _ hquiet
    obtain ⟨s', hs', hnot⟩ := not_absorbed_of_not_quiet hquiet
    exact ⟨s', hs', fun _ => hnot⟩
  exact Machine.Throughout.iff_eachStep Inv Inv.absorbed
    (fun hs hquiet h => ⟨inv_step hs hquiet h, trivial⟩) hbad inputs (inv_new cachedProps)

end Run

/-- A device on a Jtag chain. -/
def versalDevice : Device where
  deviceCtx := some "JTAG-1"
  jtagDeviceCtx := some "JTAG-1"
  debugcoreDapCtx := none
  debugcoreDpcCtx := none
  memoryDapCtx := none
  memoryDpcCtx := none
  chipscopeDapCtx := none
  chipscopeDpcCtx := none
  deviceFamily := .versal
  disableCache := false

/-- The device is removed when `refresh` has made its last test. -/
def removedDuringRefresh : List (Input ℕ Empty) :=
  [.call .refresh (.ok 1), .step 0 (.ok 1), .step 0 (.ok 1), .step 0 (.ok 1),
    .event .nodeRemoved (some "JTAG-1"), .step 0 (.ok 1), .step 0 (.ok 1), .step 0 (.ok 1)]

/-- It ends VALID. -/
theorem not_absorbing_refresh :
    ¬ Absorbing versalDevice (new versalDevice 0) removedDuringRefresh := by
  intro h
  have hrun : Machine.runTo (step versalDevice) (new versalDevice 0) removedDuringRefresh =
      some ⟨.valid, 1, true, [], [(false, .returned none)]⟩ := rfl
  have hstate := (h.runTo hrun rfl).state
  cases hstate

end Chipscopy.Validity
