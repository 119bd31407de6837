import Chipscopy.Dm.Consistency

/-! Notifications of a manager

    What is added or removed is queued, and a deferred callback hands the queue to the listeners
    and clears it. The callback is posted when the queue was empty. A listener that adds a node
    while it is told of added nodes therefore adds it to a queue that nobody posts again, and that
    is cleared as soon as the listener returns. A listener that raises leaves the queue as it is,
    and the event queue goes on, so that nobody posts what is queued from then on. -/

namespace Chipscopy.Dm

/-- The queues of a manager, and what they depend on. -/
structure Queues where
  nodeListeners : List ℕ
  addedNodes : List Ctx
  removedNodes : List NodeRef
  posted : List Deferred
  addedLog : List Ctx
  removedLog : List NodeRef

namespace Queues

/-- Announce an added node. -/
def announceAdded (q : Queues) (ctx : Ctx) : Queues :=
  if q.nodeListeners = [] then q
  else if ctx ∈ q.addedNodes then { q with addedLog := q.addedLog ++ [ctx] }
  else
    { q with
      addedNodes := q.addedNodes ++ [ctx]
      posted := if q.addedNodes = [] then q.posted ++ [.nodeAdded] else q.posted
      addedLog := q.addedLog ++ [ctx] }

/-- Announce a removed node. -/
def announceRemoved (q : Queues) (r : NodeRef) : Queues :=
  if q.nodeListeners = [] then q
  else if r ∈ q.removedNodes then { q with removedLog := q.removedLog ++ [r] }
  else
    { q with
      removedNodes := q.removedNodes ++ [r]
      posted := if q.removedNodes = [] then q.posted ++ [.nodeRemoved] else q.posted
      removedLog := q.removedLog ++ [r] }

end Queues

/-- Announcements lead from the first queues to the second: of added nodes, of removed nodes. -/
inductive Announced (adds removes : Prop) (q : Queues) : Queues → Prop
  | refl : Announced adds removes q q
  | added {q'} (h : Announced adds removes q q') (hadds : adds) (ctx : Ctx) :
    Announced adds removes q (q'.announceAdded ctx)
  | removed {q'} (h : Announced adds removes q q') (hremoves : removes) (r : NodeRef) :
    Announced adds removes q (q'.announceRemoved r)

theorem Announced.trans {adds removes : Prop} {q q' q'' : Queues}
    (h : Announced adds removes q q') (h' : Announced adds removes q' q'') :
    Announced adds removes q q'' := by
  induction h' with
  | refl => exact h
  | added _ hadds ctx ih => exact .added ih hadds ctx
  | removed _ hremoves r ih => exact .removed ih hremoves r

theorem Announced.mono {adds removes adds' removes' : Prop} {q q' : Queues}
    (h : Announced adds removes q q') (hadds : adds → adds') (hremoves : removes → removes') :
    Announced adds' removes' q q' := by
  induction h with
  | refl => exact .refl
  | added _ h ctx ih => exact .added ih (hadds h) ctx
  | removed _ h r ih => exact .removed ih (hremoves h) r

/-- What was announced is queued, and the callback for the queue is posted. -/
structure Awaits {α : Type} (log queue : List α) (callback : Deferred) (posted : List Deferred) :
    Prop where
  queued : ∀ a ∈ log, a ∈ queue
  posted : queue ≠ [] → callback ∈ posted

section Awaits

variable {α : Type} {log queue : List α} {callback : Deferred} {posted : List Deferred}

theorem Awaits.again (h : Awaits log queue callback posted) {a : α} (ha : a ∈ queue) :
    Awaits (log ++ [a]) queue callback posted := by
  refine ⟨fun b hb => ?_, h.posted⟩
  rcases List.mem_append.mp hb with hb | hb
  · exact h.queued b hb
  · rw [List.mem_singleton.mp hb]
    exact ha

theorem Awaits.announce (h : Awaits log queue callback posted) (a : α) [Decidable (queue = [])] :
    Awaits (log ++ [a]) (queue ++ [a]) callback
      (if queue = [] then posted ++ [callback] else posted) := by
  constructor
  · intro b hb
    rcases List.mem_append.mp hb with hb | hb
    · exact List.mem_append_left _ (h.queued b hb)
    · exact List.mem_append_right _ hb
  · intro _
    split_ifs with hempty
    · exact List.mem_append_right _ List.mem_cons_self
    · exact h.posted hempty

/-- More callbacks may be posted. -/
theorem Awaits.post (h : Awaits log queue callback posted) {other : Deferred} {p : Prop}
    [Decidable p] : Awaits log queue callback (if p then posted ++ [other] else posted) := by
  refine ⟨h.queued, fun hne => ?_⟩
  split_ifs
  · exact List.mem_append_left _ (h.posted hne)
  · exact h.posted hne

/-- The callback for another queue has run. -/
theorem Awaits.next {other : Deferred} (h : Awaits log queue callback (other :: posted))
    (hne : callback ≠ other) : Awaits log queue callback posted :=
  ⟨h.queued, fun hq => (List.mem_cons.mp (h.posted hq)).resolve_left hne⟩

/-- When no callback is posted nothing is owed. -/
theorem Awaits.log_eq_nil (h : Awaits log queue callback []) : log = [] := by
  refine List.eq_nil_iff_forall_not_mem.mpr fun a ha => ?_
  exact nomatch h.posted (List.ne_nil_of_mem (h.queued a ha))

end Awaits

def Queues.KeptAdded (q : Queues) : Prop := Awaits q.addedLog q.addedNodes .nodeAdded q.posted

def Queues.KeptRemoved (q : Queues) : Prop :=
  Awaits q.removedLog q.removedNodes .nodeRemoved q.posted

/-- Both queues. -/
def Queues.Kept (q : Queues) : Prop := q.KeptAdded ∧ q.KeptRemoved

section Announced

variable {adds removes : Prop} {q q' : Queues}

/-- Either queue keeps its promise when an added node is announced. -/
theorem Queues.kept_announceAdded (q : Queues) (ctx : Ctx) :
    (q.KeptAdded → (q.announceAdded ctx).KeptAdded) ∧
      (q.KeptRemoved → (q.announceAdded ctx).KeptRemoved) := by
  rw [Queues.announceAdded]
  by_cases hnone : q.nodeListeners = []
  · rw [if_pos hnone]
    exact ⟨id, id⟩
  · rw [if_neg hnone]
    by_cases hctx : ctx ∈ q.addedNodes
    · rw [if_pos hctx]
      exact ⟨fun h => h.again hctx, id⟩
    · rw [if_neg hctx]
      exact ⟨fun h => h.announce ctx, fun h => h.post⟩

/-- Either queue keeps its promise when a removed node is announced. -/
theorem Queues.kept_announceRemoved (q : Queues) (r : NodeRef) :
    (q.KeptAdded → (q.announceRemoved r).KeptAdded) ∧
      (q.KeptRemoved → (q.announceRemoved r).KeptRemoved) := by
  rw [Queues.announceRemoved]
  by_cases hnone : q.nodeListeners = []
  · rw [if_pos hnone]
    exact ⟨id, id⟩
  · rw [if_neg hnone]
    by_cases hr : r ∈ q.removedNodes
    · rw [if_pos hr]
      exact ⟨id, fun h => h.again hr⟩
    · rw [if_neg hr]
      exact ⟨fun h => h.post, fun h => h.announce r⟩

theorem Announced.kept_added (h : Announced adds removes q q') (hq : q.KeptAdded) :
    q'.KeptAdded := by
  induction h with
  | refl => exact hq
  | added _ _ ctx ih => exact (Queues.kept_announceAdded _ ctx).1 ih
  | removed _ _ r ih => exact (Queues.kept_announceRemoved _ r).1 ih

theorem Announced.kept_removed (h : Announced adds removes q q') (hq : q.KeptRemoved) :
    q'.KeptRemoved := by
  induction h with
  | refl => exact hq
  | added _ _ ctx ih => exact (Queues.kept_announceAdded _ ctx).2 ih
  | removed _ _ r ih => exact (Queues.kept_announceRemoved _ r).2 ih

theorem Announced.kept (h : Announced adds removes q q') (hq : q.Kept) : q'.Kept :=
  ⟨h.kept_added hq.1, h.kept_removed hq.2⟩

/-- Without added nodes their queue stands still. -/
theorem Announced.added_eq (h : Announced False removes q q') :
    q'.addedNodes = q.addedNodes ∧ q'.addedLog = q.addedLog := by
  induction h with
  | refl => exact ⟨rfl, rfl⟩
  | added _ hadds => exact hadds.elim
  | removed _ _ r ih =>
    rw [Queues.announceRemoved]
    split_ifs <;> exact ih

/-- Without removed nodes their queue stands still. -/
theorem Announced.removed_eq (h : Announced adds False q q') :
    q'.removedNodes = q.removedNodes ∧ q'.removedLog = q.removedLog := by
  induction h with
  | refl => exact ⟨rfl, rfl⟩
  | removed _ hremoves => exact hremoves.elim
  | added _ _ ctx ih =>
    rw [Queues.announceAdded]
    split_ifs <;> exact ih

end Announced

/-- What a listener does when it is called. It may catch what its calls raise, and it may raise. -/
structure Reaction where
  ops : List Op := []
  raises : Bool := false
  deriving DecidableEq, Repr

abbrev Handler := ℕ → Reaction

/-- Events of a program with a manager. -/
inductive Event
  | call (op : Op)
  | addNodeListener (listener : ℕ)
  | removeNodeListener (listener : ℕ)
  | deferred (handle : Handler)

namespace CsManager

variable {V : Type} {m m' : CsManager V} {c p : Ctx} {r : NodeRef} {op : Op} {ops : List Op}
  {adds removes : Prop}

def queues (m : CsManager V) : Queues where
  nodeListeners := m.nodeListeners
  addedNodes := m.addedNodes
  removedNodes := m.removedNodes
  posted := m.posted
  addedLog := m.addedLog
  removedLog := m.removedLog

def addNodeListener (m : CsManager V) (listener : ℕ) : CsManager V :=
  if listener ∈ m.nodeListeners then m
  else { m with nodeListeners := m.nodeListeners ++ [listener] }

/-- A listener that is not there is a `ValueError`, which changes nothing. -/
def removeNodeListener (m : CsManager V) (listener : ℕ) : CsManager V :=
  { m with nodeListeners := m.nodeListeners.erase listener }

/-! ### Calls that raise -/

/-- Calls on children, up to the first that raises. -/
def eachChild (call : CsManager V → NodeRef → CsManager V × Option Py.Error) :
    List Ctx → CsManager V → CsManager V × Option Py.Error
  | [], m => (m, none)
  | child :: rest, m =>
    match m.nodes.get? child with
    | none => (m, some (.attributeError "'NoneType' object has no attribute 'invalidate'"))
    | some r =>
      match call m r with
      | (m', none) => eachChild call rest m'
      | raised => raised

/-- `invalidateTo` with the state in which it ends. -/
def invalidateUpTo : ℕ → CsManager V → NodeRef → CsManager V × Option Py.Error
  | 0, m, _ => (m, none)
  | depth + 1, m, r =>
    if r = m.self then
      match m.nodes.get? "" with
      | some root => eachChild (invalidateUpTo depth) (m.childList root) (m.setInvalid r true)
      | none => (m.setInvalid r true, some (.keyError ""))
    else if (m.node r).invalid then (m, none)
    else
      match eachChild (invalidateUpTo depth) (m.childList r) (m.setInvalid r true) with
      | (m', none) => (m'.notifyNodeRemoved r, none)
      | raised => raised

/-- The state that a call leaves when it raises. Only `invalidate` has done something by then. -/
def afterRaise (m : CsManager V) : Op → CsManager V
  | .addNode ctx _ =>
    match m.nodes.get? ctx with
    | some r => (invalidateUpTo m.nextNode m r).1
    | none => m
  | .invalidate r => (invalidateUpTo m.nextNode m r).1
  | _ => m

/-- The state after a call, whether it returns or raises. -/
def after (m : CsManager V) (op : Op) : CsManager V :=
  match m.apply op with
  | .ok m' => m'
  | .error _ => m.afterRaise op

/-! ### Callbacks -/

/-- Calls of the listeners, one after the other, up to the first that raises: who was called and
    with which nodes, and whether one has raised. -/
def callListeners (batch : CsManager V → List NodeRef) (handle : Handler) :
    List ℕ → CsManager V → CsManager V × List (ℕ × List NodeRef) × Bool
  | [], m => (m, [], false)
  | listener :: rest, m =>
    let m' := (handle listener).ops.foldl after m
    if (handle listener).raises then (m', [(listener, batch m)], true)
    else
      let (m'', calls, raised) := callListeners batch handle rest m'
      (m'', (listener, batch m) :: calls, raised)

/-- The nodes that are still there. -/
def addedBatch (m : CsManager V) : List NodeRef := m.addedNodes.filterMap m.nodes.get?

/-- `_node_added`. -/
def nodeAdded (m : CsManager V) (handle : Handler) : CsManager V × List (ℕ × List NodeRef) :=
  let nodes := m.addedBatch
  let (m', calls, raised) := callListeners (fun _ => nodes) handle
    (if nodes = [] then [] else m.nodeListeners) { m with addedLog := [] }
  (if raised then m' else { m' with addedNodes := [] }, calls)

/-- `_node_removed`. The listeners are given the queue itself. -/
def nodeRemoved (m : CsManager V) (handle : Handler) : CsManager V × List (ℕ × List NodeRef) :=
  let (m', calls, raised) := callListeners (·.removedNodes) handle
    (if m.removedNodes = [] then [] else m.nodeListeners) { m with removedLog := [] }
  (if raised then m' else { m' with removedNodes := [] }, calls)

/-- The next state, and the calls of listeners. The event queue logs an exception and goes on. -/
def step (m : CsManager V) : Event → CsManager V × List (ℕ × List NodeRef)
  | .call op => (m.after op, [])
  | .addNodeListener listener => (m.addNodeListener listener, [])
  | .removeNodeListener listener => (m.removeNodeListener listener, [])
  | .deferred handle =>
    match m.posted with
    | .nodeAdded :: rest => { m with posted := rest }.nodeAdded handle
    | .nodeRemoved :: rest => { m with posted := rest }.nodeRemoved handle
    | [] => (m, [])

/-! ### What is expected -/

/-- A callback tells every listener of what it owes: nodes that are still there, nodes removed. -/
def Delivers (m : CsManager V) (event : Event) (calls : List (ℕ × List NodeRef)) : Prop :=
  ∀ handle, event = .deferred handle → ∀ rest, ∀ listener ∈ m.nodeListeners,
    (m.posted = .nodeAdded :: rest → ∀ ctx ∈ m.addedLog, ∀ r, m.nodes.get? ctx = some r →
      ∃ nodes, (listener, nodes) ∈ calls ∧ r ∈ nodes) ∧
    (m.posted = .nodeRemoved :: rest → ∀ r ∈ m.removedLog,
      ∃ nodes, (listener, nodes) ∈ calls ∧ r ∈ nodes)

/-- When all callbacks have run, none of them owes anything. -/
def NothingLost (m : CsManager V) : Prop := m.posted = [] → m.addedLog = [] ∧ m.removedLog = []

/-- No notification is lost in a run. -/
def RunsWithoutLoss (m : CsManager V) : List Event → Prop
  | [] => m.NothingLost
  | event :: events => m.NothingLost ∧ m.Delivers event (m.step event).2 ∧
      (m.step event).1.RunsWithoutLoss events

/-! ### Listeners that do not interfere -/

/-- `invalidate` of the node goes on. -/
def Invalidates (m : CsManager V) (r : NodeRef) : Prop := r = m.self ∨ (m.node r).invalid = false

/-- The call announces an added node. -/
def Adds (m : CsManager V) : Op → Prop
  | .addNode ctx parentCtx =>
    ¬ ∃ r ∈ m.nodes.get? ctx, (m.node r).parentCtx = parentCtx ∧ (m.node r).invalid = false
  | _ => False

/-- The call announces a removed node. -/
def RemovesSome (m : CsManager V) : Op → Prop
  | .addNode ctx parentCtx =>
    ∃ r ∈ m.nodes.get? ctx, (m.node r).parentCtx ≠ parentCtx ∧ m.Invalidates r
  | .removeNode ctx => ctx ∈ m.nodes.keys
  | .setChildren parent l => ∃ r ∈ m.parentArg parent, ∃ c ∈ m.childList r, c ∉ m.list l
  | .invalidate r => m.Invalidates r
  | _ => False

instance (m : CsManager V) : DecidablePred m.Invalidates :=
  fun _ => inferInstanceAs (Decidable (_ ∨ _))

instance (m : CsManager V) : DecidablePred m.Adds
  | .addNode _ _ => inferInstanceAs (Decidable (¬ _))
  | .newList _ | .removeNode _ | .setChildren _ _ | .upgradeNode _ _ | .degradeNode _
  | .invalidate _ => inferInstanceAs (Decidable False)

instance (m : CsManager V) : DecidablePred m.RemovesSome
  | .addNode _ _ => inferInstanceAs (Decidable (∃ r ∈ _, _))
  | .removeNode _ => inferInstanceAs (Decidable (_ ∈ _))
  | .setChildren _ _ => inferInstanceAs (Decidable (∃ r ∈ _, _))
  | .invalidate _ => inferInstanceAs (Decidable (_ ∨ _))
  | .newList _ | .upgradeNode _ _ | .degradeNode _ => inferInstanceAs (Decidable False)

/-- Calls one after the other that all meet a condition. -/
def EachAfter (P : CsManager V → Op → Prop) (m : CsManager V) : List Op → Prop
  | [] => True
  | op :: ops => P m op ∧ (m.after op).EachAfter P ops

/-- No listener raises, and every call that one makes while it is called meets a condition. -/
def EachCall (P : CsManager V → Op → Prop) (handle : Handler) : List ℕ → CsManager V → Prop
  | [], _ => True
  | listener :: rest, m => (handle listener).raises = false ∧
      m.EachAfter P (handle listener).ops ∧
        EachCall P handle rest ((handle listener).ops.foldl after m)

/-- Listeners do not raise, add no node while they are told of added nodes, and remove none while
    they are told of removed ones. -/
def QuietCallback (m : CsManager V) (handle : Handler) : List Deferred → Prop
  | .nodeAdded :: rest => EachCall (fun m op => ¬ m.Adds op) handle
      (if m.addedBatch = [] then [] else m.nodeListeners) { m with posted := rest, addedLog := [] }
  | .nodeRemoved :: rest => EachCall (fun m op => ¬ m.RemovesSome op) handle
      (if m.removedNodes = [] then [] else m.nodeListeners) { m with posted := rest, removedLog := [] }
  | [] => True

/-- A condition on an event and the state before it. -/
def Quiet (m : CsManager V) : Event → Prop
  | .deferred handle => m.QuietCallback handle m.posted
  | _ => True

/-- Every event of a run meets the condition. -/
def QuietRun (m : CsManager V) : List Event → Prop
  | [] => True
  | event :: events => m.Quiet event ∧ (m.step event).1.QuietRun events

/-! ### What calls do to the queues -/

theorem queues_notifyNodeAdded (m : CsManager V) (r : NodeRef) :
    (m.notifyNodeAdded r).queues = m.queues.announceAdded (m.node r).ctx := by
  by_cases hnone : m.nodeListeners = []
  · simp [notifyNodeAdded, Queues.announceAdded, queues, hnone]
  · by_cases hctx : (m.node r).ctx ∈ m.addedNodes
    · simp [notifyNodeAdded, Queues.announceAdded, queues, hnone, hctx]
    · simp [notifyNodeAdded, Queues.announceAdded, queues, hnone, hctx]
      congr

theorem queues_notifyNodeRemoved (m : CsManager V) (r : NodeRef) :
    (m.notifyNodeRemoved r).queues = m.queues.announceRemoved r := by
  by_cases hnone : m.nodeListeners = []
  · simp [notifyNodeRemoved, Queues.announceRemoved, queues, hnone]
  · by_cases hr : r ∈ m.removedNodes
    · simp [notifyNodeRemoved, Queues.announceRemoved, queues, hnone, hr]
    · simp [notifyNodeRemoved, Queues.announceRemoved, queues, hnone, hr]
      congr

theorem queues_popNode (m : CsManager V) (ctx : Ctx) (r : NodeRef) :
    (m.popNode ctx r).queues = m.queues.announceRemoved r := by
  unfold popNode
  dsimp only
  rw [queues_notifyNodeRemoved]
  split <;> rfl

theorem announced_removeNodeTo (hremoves : removes) (depth : ℕ) (m : CsManager V) (ctx : Ctx) :
    Announced adds removes m.queues (removeNodeTo depth m ctx).queues := by
  refine removeNodeTo_rel (R := fun m m' : CsManager V => Announced adds removes m.queues m'.queues)
    (fun _ => .refl) Announced.trans (fun m ctx r _ => ?_) depth m ctx
  rw [queues_popNode]
  exact .removed .refl hremoves r

theorem announced_removeNode (hremoves : removes) (m : CsManager V) (ctx : Ctx) :
    Announced adds removes m.queues (m.removeNode ctx).queues :=
  announced_removeNodeTo hremoves _ m ctx

theorem announced_foldl_removeNode (hremoves : removes) : ∀ (cs : List Ctx) (m : CsManager V),
    Announced adds removes m.queues (cs.foldl removeNode m).queues
  | [], _ => .refl
  | c :: cs, m => (announced_removeNode hremoves m c).trans (announced_foldl_removeNode hremoves cs _)

/-- What a call gives to its caller. -/
def result : CsManager V × Option Py.Error → Except Py.Error (CsManager V)
  | (m, none) => .ok m
  | (_, some e) => .error e

theorem foldlM_onChild {call : CsManager V → NodeRef → Except Py.Error (CsManager V)}
    {call' : CsManager V → NodeRef → CsManager V × Option Py.Error}
    (hcall : ∀ m r, call m r = result (call' m r)) :
    ∀ (cs : List Ctx) (m : CsManager V),
      cs.foldlM (onChild call) m = result (eachChild call' cs m)
  | [], _ => rfl
  | c :: cs, m => by
    rw [List.foldlM_cons, onChild, eachChild]
    cases m.nodes.get? c with
    | none => rfl
    | some r =>
      dsimp only
      rw [hcall]
      rcases call' m r with ⟨m', _ | e⟩
      · exact foldlM_onChild hcall cs m'
      · rfl

/-- Both forms of `invalidate` agree. -/
theorem invalidateTo_eq : ∀ (depth : ℕ) (m : CsManager V) (r : NodeRef),
    invalidateTo depth m r = result (invalidateUpTo depth m r)
  | 0, _, _ => rfl
  | depth + 1, m, r => by
    rw [invalidateTo, invalidateUpTo]
    split_ifs
    · cases m.nodes.get? "" with
      | none => rfl
      | some root => exact foldlM_onChild (invalidateTo_eq depth) _ _
    · rfl
    · rw [foldlM_onChild (invalidateTo_eq depth)]
      rcases eachChild (invalidateUpTo depth) (m.childList r) (m.setInvalid r true) with ⟨m', _ | e⟩
      · rfl
      · rfl

theorem announced_eachChild {call : CsManager V → NodeRef → CsManager V × Option Py.Error}
    (hcall : ∀ m r, Announced adds removes m.queues (call m r).1.queues) :
    ∀ (cs : List Ctx) (m : CsManager V),
      Announced adds removes m.queues (eachChild call cs m).1.queues
  | [], _ => .refl
  | c :: cs, m => by
    rw [eachChild]
    cases m.nodes.get? c with
    | none => exact .refl
    | some r =>
      have hfirst := hcall m r
      dsimp only
      rcases hout : call m r with ⟨m', _ | e⟩
      · rw [hout] at hfirst
        exact hfirst.trans (announced_eachChild hcall cs m')
      · rw [hout] at hfirst
        exact hfirst

theorem announced_invalidateUpTo (hremoves : removes) : ∀ (depth : ℕ) (m : CsManager V)
    (r : NodeRef), Announced adds removes m.queues (invalidateUpTo depth m r).1.queues
  | 0, _, _ => .refl
  | depth + 1, m, r => by
    have hloop := fun cs =>
      announced_eachChild (announced_invalidateUpTo hremoves depth) cs (m.setInvalid r true)
    rw [invalidateUpTo]
    split_ifs
    · cases m.nodes.get? "" with
      | none => exact .refl
      | some root => exact hloop _
    · exact .refl
    · have hall := hloop (m.childList r)
      rcases hout : eachChild (invalidateUpTo depth) (m.childList r) (m.setInvalid r true) with
        ⟨m', _ | e⟩
      · rw [hout] at hall
        dsimp only
        rw [queues_notifyNodeRemoved]
        exact .removed hall hremoves r
      · rw [hout] at hall
        exact hall

theorem announced_invalidate (hremoves : removes) (h : m.invalidate r = .ok m') :
    Announced adds removes m.queues m'.queues := by
  have hannounced : Announced adds removes m.queues _ :=
    announced_invalidateUpTo hremoves m.nextNode m r
  rw [invalidate, invalidateTo_eq] at h
  rcases hout : invalidateUpTo m.nextNode m r with ⟨m₁, _ | e⟩
  · rw [hout] at h hannounced
    obtain rfl := Except.ok.inj h
    exact hannounced
  · rw [hout] at h
    cases h

/-- A node that is invalid already stays as it is. -/
theorem invalidate_of_not_invalidates (hr : ¬ m.Invalidates r) : m.invalidate r = .ok m := by
  rw [Invalidates, not_or, Bool.not_eq_false] at hr
  rw [invalidate]
  cases m.nextNode with
  | zero => rfl
  | succ depth => rw [invalidateTo, if_neg hr.1, if_pos hr.2]

theorem announced_createNode (hadds : adds) (m : CsManager V) (ctx parentCtx : Ctx)
    (props : Py.Dict String V) :
    Announced adds removes m.queues (m.createNode ctx parentCtx props).2.queues := by
  have happend : ∀ (m : CsManager V) (parent : NodeRef), (m.appendChild parent ctx).queues = m.queues := by
    intro m parent
    rw [appendChild]
    split_ifs <;> rfl
  simp only [createNode]
  rw [queues_notifyNodeAdded]
  refine .added ?_ hadds _
  split
  · rw [happend]
    exact .refl
  · exact .refl

/-- A call announces only what its conditions tell. -/
theorem announced_apply (h : m.apply op = .ok m') :
    Announced (m.Adds op) (m.RemovesSome op) m.queues m'.queues := by
  cases op with
  | newList cs =>
    obtain rfl := Except.ok.inj h
    exact .refl
  | addNode ctx parentCtx =>
    rw [apply, addNode] at h
    cases hr : m.nodes.get? ctx with
    | none =>
      rw [hr] at h
      obtain rfl := Except.ok.inj h
      refine announced_createNode ?_ m ctx parentCtx _
      simp [Adds, hr]
    | some r =>
      rw [hr] at h
      dsimp only at h
      split_ifs at h with hparent hinvalid
      · have hadds : m.Adds (.addNode ctx parentCtx) := by
          rintro ⟨q, hq, hq', -⟩
          obtain rfl := Option.some.inj (hr.symm.trans hq)
          exact hparent hq'
        cases hm₁ : m.invalidate r with
        | error e =>
          rw [hm₁] at h
          cases h
        | ok m₁ =>
          rw [hm₁] at h
          obtain rfl := Except.ok.inj h
          refine Announced.trans ?_ (announced_createNode hadds m₁ ctx parentCtx _)
          by_cases hgoes : m.Invalidates r
          · exact announced_invalidate ⟨r, hr, hparent, hgoes⟩ hm₁
          · obtain rfl := Except.ok.inj ((invalidate_of_not_invalidates hgoes).symm.trans hm₁)
            exact .refl
      · obtain rfl := Except.ok.inj h
        have hadds : m.Adds (.addNode ctx parentCtx) := by
          rintro ⟨q, hq, -, hvalid⟩
          obtain rfl := Option.some.inj (hr.symm.trans hq)
          rw [hinvalid] at hvalid
          cases hvalid
        dsimp only
        rw [queues_notifyNodeAdded]
        exact .added .refl hadds _
      · obtain rfl := Except.ok.inj h
        exact .refl
  | removeNode ctx =>
    obtain rfl := Except.ok.inj h
    by_cases hctx : ctx ∈ m.nodes.keys
    · exact announced_removeNode hctx m ctx
    · rw [removeNode_of_none ((Py.Dict.get?_eq_none_iff _).mpr hctx)]
      exact .refl
  | setChildren parent l =>
    cases hr : m.parentArg parent with
    | none =>
      cases parent with
      | node r => cases hr
      | ctx c =>
        have hc : m.nodes.get? c = none := hr
        rw [apply, hc] at h
        cases h
    | some r =>
      rw [apply_setChildren hr] at h
      obtain rfl := Except.ok.inj h
      by_cases hgone : ∃ c ∈ m.childList r, c ∉ m.list l
      · exact announced_foldl_removeNode ⟨r, hr, hgone⟩ _ m
      · have hnil : ((m.childList r).filter fun child => child ∉ m.list l) = [] := by
          rw [List.filter_eq_nil_iff]
          intro c hc hnot
          exact hgone ⟨c, hc, by simpa using hnot⟩
        rw [setChildren, hnil]
        exact .refl
  | upgradeNode r cls =>
    obtain rfl := Except.ok.inj h
    exact .refl
  | degradeNode r =>
    obtain rfl := Except.ok.inj h
    exact .refl
  | invalidate r =>
    by_cases hgoes : m.Invalidates r
    · exact announced_invalidate hgoes h
    · obtain rfl := Except.ok.inj ((invalidate_of_not_invalidates hgoes).symm.trans h)
      exact .refl

/-- So does a call that raises. -/
theorem announced_afterRaise {e : Py.Error} (h : m.apply op = .error e) :
    Announced (m.Adds op) (m.RemovesSome op) m.queues (m.afterRaise op).queues := by
  cases op with
  | addNode ctx parentCtx =>
    rw [apply, addNode] at h
    rw [afterRaise]
    cases hr : m.nodes.get? ctx with
    | none => exact .refl
    | some r =>
      rw [hr] at h
      dsimp only at h ⊢
      split_ifs at h with hparent hinvalid
      · refine announced_invalidateUpTo ⟨r, hr, hparent, ?_⟩ _ m r
        by_contra hgoes
        rw [invalidate_of_not_invalidates hgoes] at h
        cases h
      · cases h
      · cases h
  | invalidate r =>
    refine announced_invalidateUpTo ?_ _ m r
    by_contra hgoes
    have hok : m.apply (.invalidate r) = .ok m := invalidate_of_not_invalidates hgoes
    rw [hok] at h
    cases h
  | newList cs => exact .refl
  | removeNode ctx => exact .refl
  | setChildren parent l => exact .refl
  | upgradeNode r cls => exact .refl
  | degradeNode r => exact .refl

theorem announced_after (m : CsManager V) (op : Op) :
    Announced (m.Adds op) (m.RemovesSome op) m.queues (m.after op).queues := by
  rw [after]
  cases h : m.apply op with
  | ok m' => exact announced_apply h
  | error e => exact announced_afterRaise h

theorem announced_foldl_after {P : CsManager V → Op → Prop}
    (hP : ∀ m op, P m op → (m.Adds op → adds) ∧ (m.RemovesSome op → removes)) :
    ∀ {ops : List Op} {m : CsManager V}, m.EachAfter P ops →
      Announced adds removes m.queues (ops.foldl after m).queues
  | [], _, _ => .refl
  | op :: ops, m, ⟨hop, hops⟩ => by
    obtain ⟨hadds, hremoves⟩ := hP m op hop
    exact ((announced_after m op).mono hadds hremoves).trans (announced_foldl_after hP hops)

/-- Every listener is called, and announcements lead from each call to the next. -/
theorem announced_callListeners (batch : CsManager V → List NodeRef)
    {P : CsManager V → Op → Prop} {handle : Handler}
    (hP : ∀ m op, P m op → (m.Adds op → adds) ∧ (m.RemovesSome op → removes)) :
    ∀ {listeners : List ℕ} {m : CsManager V}, EachCall P handle listeners m →
      ∃ m' calls, callListeners batch handle listeners m = (m', calls, false) ∧
        Announced adds removes m.queues m'.queues ∧ ∀ listener ∈ listeners, ∃ m₁,
          Announced adds removes m.queues m₁.queues ∧ (listener, batch m₁) ∈ calls
  | [], m, _ => ⟨m, [], rfl, .refl, by simp⟩
  | listener :: rest, m, ⟨hraises, heach, hrest⟩ => by
    have hfirst := announced_foldl_after hP heach
    obtain ⟨m', calls, hcall, hannounced, hcalls⟩ :=
      announced_callListeners batch hP hrest
    refine ⟨m', (listener, batch m) :: calls, ?_, hfirst.trans hannounced, fun i hi => ?_⟩
    · rw [callListeners, hraises, hcall]
      rfl
    · rcases List.mem_cons.mp hi with rfl | hi
      · exact ⟨m, .refl, List.mem_cons_self⟩
      · obtain ⟨m₃, hm₃, hmem⟩ := hcalls i hi
        exact ⟨m₃, hfirst.trans hm₃, List.mem_cons_of_mem _ hmem⟩

/-! ### Runs -/

/-- Everything that was announced is queued for a callback. -/
def Kept (m : CsManager V) : Prop := m.queues.Kept

theorem Kept.nothingLost (h : m.Kept) : m.NothingLost := by
  intro hposted
  have hadded : Awaits m.addedLog m.addedNodes .nodeAdded m.posted := h.1
  have hremoved : Awaits m.removedLog m.removedNodes .nodeRemoved m.posted := h.2
  rw [hposted] at hadded hremoved
  exact ⟨hadded.log_eq_nil, hremoved.log_eq_nil⟩

/-- The callback for added nodes. -/
theorem Kept.nodeAdded (h : m.Kept) {rest : List Deferred} (hposted : m.posted = .nodeAdded :: rest)
    {handle : Handler} (hquiet : m.Quiet (.deferred handle)) :
    ({ m with posted := rest }.nodeAdded handle).1.Kept ∧
      ∀ listener ∈ m.nodeListeners, ∀ ctx ∈ m.addedLog, ∀ r, m.nodes.get? ctx = some r →
        ∃ nodes, (listener, nodes) ∈ ({ m with posted := rest }.nodeAdded handle).2 ∧
          r ∈ nodes := by
  have hadded : Awaits m.addedLog m.addedNodes .nodeAdded m.posted := h.1
  have hremoved : Awaits m.removedLog m.removedNodes .nodeRemoved m.posted := h.2
  rw [hposted] at hremoved
  rw [Quiet, hposted, QuietCallback] at hquiet
  have hcall : ∀ (m : CsManager V) (op : Op), ¬ m.Adds op →
      (m.Adds op → False) ∧ (m.RemovesSome op → True) := fun m op hop => ⟨hop, fun _ => trivial⟩
  obtain ⟨m₁, calls, hm₁, hannounced, hcalls⟩ :=
    announced_callListeners (fun _ => m.addedBatch) hcall hquiet
  have hresult : { m with posted := rest }.nodeAdded handle =
      ({ m₁ with addedNodes := [] }, calls) := by
    rw [CsManager.nodeAdded]
    exact congrArg (fun out : CsManager V × List (ℕ × List NodeRef) × Bool =>
      (if out.2.2 then out.1 else { out.1 with addedNodes := [] }, out.2.1)) hm₁
  rw [hresult]
  -- while the listeners run the queue of added nodes owes nothing, and nothing is added to it
  have hend := hannounced.kept_removed (hremoved.next (by decide))
  refine ⟨⟨⟨fun c hc => ?_, fun hne => absurd rfl hne⟩, hend⟩, ?_⟩
  · have hlog : m₁.addedLog = [] := hannounced.added_eq.2
    have hc' : c ∈ m₁.addedLog := hc
    rw [hlog] at hc'
    exact nomatch hc'
  · intro listener hlistener ctx hctx r hr
    have hbatch : r ∈ m.addedBatch := List.mem_filterMap.mpr ⟨ctx, hadded.queued ctx hctx, hr⟩
    obtain ⟨m₂, -, hmem⟩ := hcalls listener (by
      have hne : m.addedBatch ≠ [] := List.ne_nil_of_mem hbatch
      rw [if_neg hne]
      exact hlistener)
    exact ⟨_, hmem, hbatch⟩

/-- The callback for removed nodes. -/
theorem Kept.nodeRemoved (h : m.Kept) {rest : List Deferred}
    (hposted : m.posted = .nodeRemoved :: rest) {handle : Handler}
    (hquiet : m.Quiet (.deferred handle)) :
    ({ m with posted := rest }.nodeRemoved handle).1.Kept ∧
      ∀ listener ∈ m.nodeListeners, ∀ r ∈ m.removedLog,
        ∃ nodes, (listener, nodes) ∈ ({ m with posted := rest }.nodeRemoved handle).2 ∧
          r ∈ nodes := by
  have hadded : Awaits m.addedLog m.addedNodes .nodeAdded m.posted := h.1
  have hremoved : Awaits m.removedLog m.removedNodes .nodeRemoved m.posted := h.2
  rw [hposted] at hadded
  rw [Quiet, hposted, QuietCallback] at hquiet
  have hcall : ∀ (m : CsManager V) (op : Op), ¬ m.RemovesSome op →
      (m.Adds op → True) ∧ (m.RemovesSome op → False) := fun m op hop => ⟨fun _ => trivial, hop⟩
  obtain ⟨m₁, calls, hm₁, hannounced, hcalls⟩ :=
    announced_callListeners (·.removedNodes) hcall hquiet
  have hresult : { m with posted := rest }.nodeRemoved handle =
      ({ m₁ with removedNodes := [] }, calls) := by
    rw [CsManager.nodeRemoved]
    exact congrArg (fun out : CsManager V × List (ℕ × List NodeRef) × Bool =>
      (if out.2.2 then out.1 else { out.1 with removedNodes := [] }, out.2.1)) hm₁
  rw [hresult]
  have hend := hannounced.kept_added (hadded.next (by decide))
  refine ⟨⟨hend, ⟨fun r hr => ?_, fun hne => absurd rfl hne⟩⟩, ?_⟩
  · have hlog : m₁.removedLog = [] := hannounced.removed_eq.2
    have hr' : r ∈ m₁.removedLog := hr
    rw [hlog] at hr'
    exact nomatch hr'
  · intro listener hlistener r hr
    have hbatch : r ∈ m.removedNodes := hremoved.queued r hr
    obtain ⟨m₂, hm₂, hmem⟩ := hcalls listener (by
      have hne : m.removedNodes ≠ [] := List.ne_nil_of_mem hbatch
      rw [if_neg hne]
      exact hlistener)
    have hsame : m₂.removedNodes = m.removedNodes := hm₂.removed_eq.1
    exact ⟨_, hmem, by rw [hsame]; exact hbatch⟩

theorem Kept.step (h : m.Kept) {event : Event} (hquiet : m.Quiet event) :
    (m.step event).1.Kept ∧ m.Delivers event (m.step event).2 := by
  cases event with
  | call op => exact ⟨(announced_after m op).kept h, fun _ hne => nomatch hne⟩
  | addNodeListener listener =>
    refine ⟨?_, fun _ hne => nomatch hne⟩
    rw [CsManager.step, addNodeListener]
    split_ifs
    · exact h
    · exact h
  | removeNodeListener listener => exact ⟨h, fun _ hne => nomatch hne⟩
  | deferred handle =>
    cases hposted : m.posted with
    | nil =>
      rw [CsManager.step, hposted]
      refine ⟨h, fun _ _ rest listener _ => ⟨fun hne => ?_, fun hne => ?_⟩⟩
      · exact nomatch hposted.symm.trans hne
      · exact nomatch hposted.symm.trans hne
    | cons callback rest =>
      rw [CsManager.step, hposted]
      cases callback with
      | nodeAdded =>
        obtain ⟨hkept, hcalls⟩ := h.nodeAdded hposted hquiet
        refine ⟨hkept, fun _ _ _ listener hlistener => ⟨fun _ => hcalls listener hlistener,
          fun hne => ?_⟩⟩
        exact nomatch hposted.symm.trans hne
      | nodeRemoved =>
        obtain ⟨hkept, hcalls⟩ := h.nodeRemoved hposted hquiet
        refine ⟨hkept, fun _ _ _ listener hlistener => ⟨fun hne => ?_,
          fun _ => hcalls listener hlistener⟩⟩
        exact nomatch hposted.symm.trans hne

theorem Kept.runsWithoutLoss : ∀ {events : List Event} {m : CsManager V}, m.Kept →
    m.QuietRun events → m.RunsWithoutLoss events
  | [], _, h, _ => h.nothingLost
  | _ :: _, _, h, ⟨hquiet, hrest⟩ =>
    ⟨h.nothingLost, (h.step hquiet).2, (h.step hquiet).1.runsWithoutLoss hrest⟩

/-- No notification is lost while listeners neither raise nor interfere with their own callback. -/
theorem runsWithoutLoss_of_quiet (V : Type) (events : List Event) (h : (init V).QuietRun events) :
    (init V).RunsWithoutLoss events := by
  have hkept : (init V).Kept :=
    ⟨⟨fun _ hc => (nomatch hc), fun hne => absurd rfl hne⟩,
      ⟨fun _ hr => (nomatch hr), fun hne => absurd rfl hne⟩⟩
  exact hkept.runsWithoutLoss h

instance decidableEachAfter (P : CsManager V → Op → Prop) [∀ m, DecidablePred (P m)] :
    ∀ (m : CsManager V) (ops : List Op), Decidable (m.EachAfter P ops)
  | _, [] => inferInstanceAs (Decidable True)
  | m, op :: ops =>
    have := decidableEachAfter P (m.after op) ops
    inferInstanceAs (Decidable (_ ∧ _))

instance decidableEachCall (P : CsManager V → Op → Prop) [∀ m, DecidablePred (P m)]
    (handle : Handler) : ∀ (listeners : List ℕ) (m : CsManager V),
      Decidable (EachCall P handle listeners m)
  | [], _ => inferInstanceAs (Decidable True)
  | listener :: rest, m =>
    have := decidableEachCall P handle rest ((handle listener).ops.foldl after m)
    inferInstanceAs (Decidable (_ ∧ _ ∧ _))

instance (m : CsManager V) (handle : Handler) : DecidablePred (m.QuietCallback handle)
  | .nodeAdded :: _ => decidableEachCall _ handle _ _
  | .nodeRemoved :: _ => decidableEachCall _ handle _ _
  | [] => inferInstanceAs (Decidable True)

instance (m : CsManager V) : DecidablePred m.Quiet
  | .deferred handle => inferInstanceAs (Decidable (m.QuietCallback handle m.posted))
  | .call _ | .addNodeListener _ | .removeNodeListener _ => inferInstanceAs (Decidable True)

instance decidableQuietRun : ∀ (m : CsManager V) (events : List Event), Decidable (m.QuietRun events)
  | _, [] => inferInstanceAs (Decidable True)
  | m, event :: events =>
    have := decidableQuietRun (m.step event).1 events
    inferInstanceAs (Decidable (_ ∧ _))

/-- Two listeners, one of which removes a node that it is told was added, and a call that raises. -/
theorem runsWithoutLoss_twoListeners :
    (init Unit).QuietRun [.addNodeListener 0, .addNodeListener 1, .call (.addNode "a" ""),
        .call (.addNode "b" "a"),
        .deferred fun i => if i = 0 then ⟨[.removeNode "b"], false⟩ else {},
        .call (.setChildren (.ctx "b") 0), .call (.addNode "c" ""),
        .deferred fun i => if i = 1 then ⟨[.addNode "d" "c"], false⟩ else {},
        .deferred fun _ => {}] ∧
      (init Unit).RunsWithoutLoss [.addNodeListener 0, .addNodeListener 1, .call (.addNode "a" ""),
        .call (.addNode "b" "a"),
        .deferred fun i => if i = 0 then ⟨[.removeNode "b"], false⟩ else {},
        .call (.setChildren (.ctx "b") 0), .call (.addNode "c" ""),
        .deferred fun i => if i = 1 then ⟨[.addNode "d" "c"], false⟩ else {},
        .deferred fun _ => {}] :=
  ⟨by decide +kernel, runsWithoutLoss_of_quiet Unit _ (by decide +kernel)⟩

/-- The state after some events. -/
def runEvents (m : CsManager V) (events : List Event) : CsManager V :=
  events.foldl (fun m event => (m.step event).1) m

theorem RunsWithoutLoss.nothingLost : ∀ {events : List Event} {m : CsManager V},
    m.RunsWithoutLoss events → (m.runEvents events).NothingLost
  | [], _, h => h
  | _ :: _, _, ⟨_, _, h⟩ => h.nothingLost

/-- A node that a listener adds while it is told of another one is never announced. -/
theorem not_runsWithoutLoss_reentrant :
    ¬ (init Unit).RunsWithoutLoss [.addNodeListener 0, .call (.addNode "a" ""),
      .deferred fun _ => ⟨[.addNode "b" "a"], false⟩] := by
  intro h
  have hposted : ((init Unit).runEvents [.addNodeListener 0, .call (.addNode "a" ""),
      .deferred fun _ => ⟨[.addNode "b" "a"], false⟩]).posted = [] := by
    decide +kernel
  have hlog : ((init Unit).runEvents [.addNodeListener 0, .call (.addNode "a" ""),
      .deferred fun _ => ⟨[.addNode "b" "a"], false⟩]).addedLog = ["b"] := by
    decide +kernel
  have hlost := (h.nothingLost hposted).1
  rw [hlog] at hlost
  cases hlost

end CsManager

end Chipscopy.Dm
