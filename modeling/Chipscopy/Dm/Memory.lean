import Chipscopy.Dm.Tree

/-! Discovery of memory nodes

    A memory manager asks two services for the children of a node and handles both replies alike:
    the children of the node are set to the contexts of the reply, and contexts that are not known
    yet are added. The second reply therefore removes what only the first one named. -/

namespace Chipscopy.Dm

open Forest

inductive Service
  | memory
  | runControl
  deriving DecidableEq, Repr

/-- A request to a service about a node. -/
structure Request where
  service : Service
  node : NodeRef
  deriving DecidableEq, Repr

/-- A manager with the services of its channel and the requests that are not answered yet: for the
    children of nodes, for the properties of nodes. -/
structure MemoryManager (V : Type) extends CsManager V where
  services : List Service
  pending : List Request
  contextRequests : List Request

namespace MemoryManager

variable {V : Type}

/-- Requests for the children of a node. -/
def updateChildren (m : MemoryManager V) (parent : NodeRef) : MemoryManager V :=
  { m with
    pending := m.pending ++
      ([Service.memory, Service.runControl].filter (· ∈ m.services)).map (⟨·, parent⟩) }

/-- Requests for the properties of a node. -/
def updateStaticInfo (m : MemoryManager V) (node : NodeRef) : MemoryManager V :=
  { m with
    contextRequests := m.contextRequests ++
      ([Service.runControl, Service.memory].filter (· ∈ m.services)).map (⟨·, node⟩) }

/-- A context of a reply: one that is not known is added, and asked for in turn. -/
def discover (parent : NodeRef) (m : MemoryManager V) (context : Ctx) :
    Except Py.Error (MemoryManager V) :=
  if context ∈ m.nodes.keys then .ok m
  else do
    let (node, manager) ← m.addNode context (m.node parent).ctx
    .ok (({ m with toCsManager := manager }.updateStaticInfo node).updateChildren node)

/-- `done_get_children` for a reply without an error. -/
def receiveChildren (m : MemoryManager V) (parent : NodeRef) (contextIds : List Ctx) :
    Except Py.Error (MemoryManager V) :=
  let manager := (m.newList contextIds).setChildren parent m.nextList
  contextIds.foldlM (discover parent) { m with toCsManager := manager }

/-- `done_get_children`. -/
def doneGetChildren (m : MemoryManager V) (request : Request) (reply : Option (List Ctx)) :
    Except Py.Error (MemoryManager V) := do
  let m' ← match reply with
    | some contextIds => m.receiveChildren request.node contextIds
    | none => .ok m
  .ok { m' with pending := m'.pending.erase request }

end MemoryManager

namespace CsManager

variable {V : Type} {m m' : CsManager V} {ctx c p : Ctx} {r parent : NodeRef} {l : ListRef}

/-- Every node and every list that is named exists. -/
structure Allocated (m : CsManager V) : Prop where
  node_lt : ∀ {c r}, m.nodes.get? c = some r → r < m.nextNode
  list_lt : ∀ {r}, r < m.nextNode → (m.node r).children < m.nextList

theorem Shrinks.allocated (h : m.Shrinks m') (hm : m.Allocated) : m'.Allocated := by
  constructor
  · intro c r hr
    rw [h.nextNode]
    exact hm.node_lt (h.nodes hr)
  · intro r hr
    rw [h.nextNode] at hr
    rw [h.children, h.nextList]
    exact hm.list_lt hr

/-! ### A list that no node has -/

theorem notifyNodeRemoved_setList (m : CsManager V) (r : NodeRef) (l : ListRef) (cs : List Ctx) :
    (m.setList l cs).notifyNodeRemoved r = (m.notifyNodeRemoved r).setList l cs := by
  by_cases hnone : m.nodeListeners = []
  · simp [notifyNodeRemoved, setList, hnone]
  · by_cases hr : r ∈ m.removedNodes
    · simp [notifyNodeRemoved, setList, hnone, hr]
    · simp [notifyNodeRemoved, setList, hnone, hr]
      congr

theorem popNode_setList (hl : m.Unowned l) (ctx : Ctx) (r : NodeRef) (cs : List Ctx) :
    (m.setList l cs).popNode ctx r = (m.popNode ctx r).setList l cs := by
  have hparent : (m.setList l cs).nodes = m.nodes ∧ (m.setList l cs).node = m.node := ⟨rfl, rfl⟩
  have hunfile : (m.setList l cs).unfile ctx r = (m.unfile ctx r).setList l cs := rfl
  cases hp : (m.nodes.erase ctx).get? (m.node r).parentCtx with
  | none =>
    rw [popNode_of_none (m := m.setList l cs) hp, popNode_of_none hp, hunfile,
      notifyNodeRemoved_setList]
  | some q =>
    have hne : (m.node q).children ≠ l := hl _ q (get?_of_erase hp).1
    have hlist : (m.setList l cs).childList q = m.childList q := Function.update_of_ne hne _ _
    have hcomm : ∀ (m' : CsManager V) (ds : List Ctx),
        (m'.setList l cs).setList (m.node q).children ds =
          (m'.setList (m.node q).children ds).setList l cs := by
      intro m' ds
      exact congrArg (fun list => { m' with list := list }) (Function.update_comm hne ds cs m'.list).symm
    rw [popNode_of_some (m := m.setList l cs) hp, popNode_of_some hp, hunfile, hlist,
      hparent.2, hcomm, notifyNodeRemoved_setList]

/-- Removing does not look at a list that no node has. -/
theorem removeNodeTo_setList : ∀ (depth : ℕ) {m : CsManager V} {ctx : Ctx}, m.Unowned l →
    ∀ cs : List Ctx, removeNodeTo depth (m.setList l cs) ctx = (removeNodeTo depth m ctx).setList l cs
  | 0, _, _, _, _ => rfl
  | depth + 1, m, ctx, hl, cs => by
    have hloop : ∀ {k : ListRef}, k ≠ l → ∀ (count i : ℕ) {m : CsManager V}, m.Unowned l →
        (m.setList l cs).forEach (removeNodeTo depth) k count i =
          (m.forEach (removeNodeTo depth) k count i).setList l cs := by
      intro k hk count
      induction count with
      | zero => exact fun _ _ _ => rfl
      | succ count ih =>
        intro i m hm
        have hsame : (m.setList l cs).list k = m.list k := Function.update_of_ne hk _ _
        rw [forEach, forEach, hsame]
        cases (m.list k)[i]? with
        | none => rfl
        | some c =>
          dsimp only
          rw [removeNodeTo_setList depth hm cs]
          exact ih (i + 1) ((shrinks_removeNodeTo depth m c).unowned hm)
    have hnodes : (m.setList l cs).nodes = m.nodes := rfl
    rw [removeNodeTo, removeNodeTo, hnodes]
    cases hr : m.nodes.get? ctx with
    | none => rfl
    | some r =>
      have hne : ((m.popNode ctx r).node r).children ≠ l := by
        rw [(shrinks_popNode m ctx r).children]
        exact hl _ r hr
      have hsame : ((m.popNode ctx r).setList l cs).childList r = (m.popNode ctx r).childList r :=
        Function.update_of_ne hne _ _
      dsimp only
      rw [popNode_setList hl, hsame]
      exact hloop hne _ _ ((shrinks_popNode m ctx r).unowned hl)

theorem foldl_removeNode_setList : ∀ (ds : List Ctx) {m : CsManager V}, m.Unowned l →
    ∀ cs : List Ctx, ds.foldl removeNode (m.setList l cs) = (ds.foldl removeNode m).setList l cs
  | [], _, _, _ => rfl
  | d :: ds, m, hl, cs => by
    rw [List.foldl_cons, List.foldl_cons]
    have hfirst : (m.setList l cs).removeNode d = (m.removeNode d).setList l cs :=
      removeNodeTo_setList _ hl cs
    rw [hfirst]
    exact foldl_removeNode_setList ds ((shrinks_removeNodeTo _ m d).unowned hl) cs

theorem foldl_removeNode_nodes (h : m.Allocated) (ds ids : List Ctx) :
    (ds.foldl removeNode (m.newList ids)).nodes = (ds.foldl removeNode (m.newList [])).nodes := by
  have hidem : Function.update (Function.update m.list m.nextList []) m.nextList ids =
      Function.update m.list m.nextList ids := Function.update_idem _ _ _
  have hsplit : m.newList ids = (m.newList []).setList m.nextList ids :=
    congrArg (fun list => { m with list := list, nextList := m.nextList + 1 }) hidem.symm
  have hunowned : (m.newList []).Unowned m.nextList :=
    fun c r hr => Nat.ne_of_lt (h.list_lt (h.node_lt hr))
  rw [hsplit, foldl_removeNode_setList ds hunowned ids]
  rfl

/-! ### A context that is new -/

/-- A new node: a list that has the context already stays as it is. -/
structure Grows (m : CsManager V) (ctx : Ctx) (m' : CsManager V) : Prop where
  nextNode : m'.nextNode = m.nextNode + 1
  nextList : m'.nextList = m.nextList + 1
  nodes : m'.nodes = m.nodes.set ctx m.nextNode
  node : ∀ {r}, r < m.nextNode → m'.node r = m.node r
  children : (m'.node m.nextNode).children = m.nextList
  list : ∀ {l}, l < m.nextList → ctx ∈ m.list l → m'.list l = m.list l

theorem appendChild_eq (m : CsManager V) (r : NodeRef) (ctx : Ctx) : ∃ list,
    m.appendChild r ctx = { m with list := list } ∧ ∀ l, ctx ∈ m.list l → list l = m.list l := by
  rw [appendChild]
  split_ifs with hmem
  · exact ⟨m.list, rfl, fun _ _ => rfl⟩
  · refine ⟨_, rfl, fun l hl => Function.update_of_ne ?_ _ _⟩
    rintro rfl
    exact hmem hl

theorem createNode_grows (m : CsManager V) (ctx parentCtx : Ctx) (props : Py.Dict String V) :
    m.Grows ctx (m.createNode ctx parentCtx props).2 := by
  let node : Node V :=
    { cls := m.defaultNodeCls, ctx := ctx, parentCtx := parentCtx, children := m.nextList,
      props := props, invalid := false }
  let m₁ : CsManager V :=
    { (m.newList []).setNode m.nextNode node with
      nextNode := m.nextNode + 1
      nodes := m.nodes.set ctx m.nextNode }
  have hgrows : ∀ list, (∀ l, ctx ∈ m₁.list l → list l = m₁.list l) →
      m.Grows ctx ({ m₁ with list := list }.notifyNodeAdded m.nextNode) := by
    intro list hlist
    obtain ⟨added, posted, log, heq⟩ := notifyNodeAdded_eq { m₁ with list := list } m.nextNode
    rw [heq]
    refine ⟨rfl, rfl, rfl, fun hr => Function.update_of_ne (Nat.ne_of_lt hr) _ _, ?_,
      fun hl hmem => ?_⟩
    · have hnew : m₁.node m.nextNode = node := Function.update_self _ _ _
      exact congrArg Node.children hnew
    have hsame : m₁.list _ = m.list _ := Function.update_of_ne (Nat.ne_of_lt hl) _ _
    exact (hlist _ (hsame ▸ hmem)).trans hsame
  rw [createNode]
  dsimp only
  cases (m.nodes.set ctx m.nextNode).get? parentCtx with
  | none => exact hgrows m₁.list fun _ _ => rfl
  | some q =>
    obtain ⟨list, heq, hlist⟩ := appendChild_eq m₁ q ctx
    change m.Grows ctx ((m₁.appendChild q ctx).notifyNodeAdded m.nextNode)
    rw [heq]
    exact hgrows list hlist

theorem Grows.allocated (h : m.Grows ctx m') (hm : m.Allocated) : m'.Allocated := by
  constructor
  · intro c r hr
    rw [h.nodes] at hr
    rw [h.nextNode]
    by_cases hc : c = ctx
    · rw [hc, Py.Dict.get?_set_self] at hr
      obtain rfl := Option.some.inj hr
      exact Nat.lt_succ_self _
    · rw [Py.Dict.get?_set_ne _ hc] at hr
      exact Nat.lt_succ_of_lt (hm.node_lt hr)
  · intro r hr
    rw [h.nextNode] at hr
    rw [h.nextList]
    rcases Nat.lt_succ_iff_lt_or_eq.mp hr with hlt | rfl
    · rw [h.node hlt]
      exact Nat.lt_succ_of_lt (hm.list_lt hlt)
    · rw [h.children]
      exact Nat.lt_succ_self _

end CsManager

namespace MemoryManager

open CsManager

variable {V : Type} {m m' : MemoryManager V} {parent : NodeRef} {l : ListRef} {ids cs : List Ctx}
  {c : Ctx}

/-! ### One reply -/

/-- While the contexts of a reply are gone through: they are the children of the parent. -/
structure Discovering (m : MemoryManager V) (parent : NodeRef) (l : ListRef) (ids : List Ctx) :
    Prop where
  allocated : m.Allocated
  parent_lt : parent < m.nextNode
  list_lt : l < m.nextList
  children : (m.node parent).children = l
  list : m.list l = ids

theorem Discovering.childList (h : m.Discovering parent l ids) : m.childList parent = ids := by
  rw [CsManager.childList, h.children, h.list]

theorem discover_spec (h : m.Discovering parent l ids) (hc : c ∈ ids) :
    ∃ m', discover parent m c = .ok m' ∧ m'.Discovering parent l ids ∧
      ∀ x, x ∈ m'.nodes.keys ↔ x ∈ m.nodes.keys ∨ x = c := by
  by_cases hmem : c ∈ m.nodes.keys
  · refine ⟨m, if_pos hmem, h, fun x => ⟨.inl, ?_⟩⟩
    rintro (hx | rfl)
    · exact hx
    · exact hmem
  · have hnone : m.nodes.get? c = none := (Py.Dict.get?_eq_none_iff _).mpr hmem
    have hadd : m.addNode c (m.node parent).ctx =
        .ok (m.createNode c (m.node parent).ctx .empty) := by
      rw [addNode, hnone]
    have hgrows := createNode_grows m.toCsManager c (m.node parent).ctx .empty
    let node := (m.createNode c (m.node parent).ctx .empty).1
    let m₁ : MemoryManager V :=
      { m with toCsManager := (m.createNode c (m.node parent).ctx .empty).2 }
    refine ⟨(m₁.updateStaticInfo node).updateChildren node, ?_, ⟨?_, ?_, ?_, ?_, ?_⟩,
      fun x => ?_⟩
    · rw [discover, if_neg hmem, hadd]
      rfl
    · exact hgrows.allocated h.allocated
    · exact hgrows.nextNode ▸ Nat.lt_succ_of_lt h.parent_lt
    · exact hgrows.nextList ▸ Nat.lt_succ_of_lt h.list_lt
    · exact (congrArg Node.children (hgrows.node h.parent_lt)).trans h.children
    · exact (hgrows.list h.list_lt (h.list.symm ▸ hc)).trans h.list
    · have hkeys : (m.createNode c (m.node parent).ctx .empty).2.nodes.keys =
          m.nodes.keys ++ [c] := by
        rw [hgrows.nodes, Py.Dict.keys_set, if_neg hmem]
      change x ∈ (m.createNode c (m.node parent).ctx .empty).2.nodes.keys ↔ _
      rw [hkeys, List.mem_append, List.mem_singleton]

theorem foldlM_discover_spec : ∀ {cs : List Ctx} {m : MemoryManager V},
    m.Discovering parent l ids → cs ⊆ ids →
    ∃ m', cs.foldlM (discover parent) m = .ok m' ∧ m'.Discovering parent l ids ∧
      ∀ x, x ∈ m'.nodes.keys ↔ x ∈ m.nodes.keys ∨ x ∈ cs
  | [], m, h, _ => ⟨m, rfl, h, fun x => by simp⟩
  | c :: cs, m, h, hsub => by
    obtain ⟨hc, hcs⟩ := List.cons_subset.mp hsub
    obtain ⟨m₁, hstep, h₁, hkeys₁⟩ := discover_spec h hc
    obtain ⟨m₂, hrun, h₂, hkeys₂⟩ := foldlM_discover_spec h₁ hcs
    refine ⟨m₂, ?_, h₂, fun x => ?_⟩
    · rw [List.foldlM_cons, hstep]
      exact hrun
    · rw [hkeys₂, hkeys₁, List.mem_cons, or_assoc]

/-- Contexts that a reply leaves out go with their subtrees, those that are new come in. -/
theorem receiveChildren_spec (h : m.Allocated) (hparent : parent < m.nextNode) (ids : List Ctx) :
    ∃ m', m.receiveChildren parent ids = .ok m' ∧ m'.Discovering parent m.nextList ids ∧
      ∀ x, x ∈ m'.nodes.keys ↔ x ∈ (((m.childList parent).filter (· ∉ ids)).foldl removeNode
        (m.newList [])).nodes.keys ∨ x ∈ ids := by
  have hunowned : (m.newList ids).Unowned m.nextList :=
    fun c r hr => Nat.ne_of_lt (h.list_lt (h.node_lt hr))
  have hnew : (m.newList ids).list m.nextList = ids := Function.update_self _ _ _
  have hold : (m.newList ids).childList parent = m.childList parent :=
    Function.update_of_ne (Nat.ne_of_lt (h.list_lt hparent)) _ _
  have hshrinks := shrinks_foldl_removeNode ((m.childList parent).filter (· ∉ ids)) (m.newList ids)
  generalize hremoved : ((m.childList parent).filter (· ∉ ids)).foldl removeNode (m.newList ids) =
    removed at hshrinks
  have hset : (m.newList ids).setChildren parent m.nextList =
      removed.setNode parent { removed.node parent with children := m.nextList } := by
    rw [CsManager.setChildren, hnew, hold, hremoved]
  have hallocated : removed.Allocated := hshrinks.allocated
    ⟨h.node_lt, fun hr => Nat.lt_succ_of_lt (h.list_lt hr)⟩
  have hstart : ({ m with toCsManager := (m.newList ids).setChildren parent m.nextList } :
      MemoryManager V).Discovering parent m.nextList ids := by
    rw [hset]
    refine ⟨⟨hallocated.node_lt, ?_⟩, ?_, ?_, ?_, ?_⟩
    · intro r hr
      change (Function.update removed.node parent _ r).children < removed.nextList
      rw [Function.update_apply]
      split_ifs
      · exact hshrinks.nextList ▸ Nat.lt_succ_self _
      · exact hallocated.list_lt hr
    · exact hshrinks.nextNode ▸ hparent
    · exact hshrinks.nextList ▸ Nat.lt_succ_self _
    · exact congrArg Node.children (Function.update_self parent _ removed.node)
    · exact (hshrinks.list hunowned).trans hnew
  obtain ⟨m', hrun, hend, hkeys⟩ := foldlM_discover_spec hstart (List.Subset.refl ids)
  refine ⟨m', hrun, hend, fun x => ?_⟩
  rw [hkeys, ← foldl_removeNode_nodes h _ ids, hremoved, hset]
  rfl

/-! ### Two replies -/

/-- Replies one after the other. -/
def doneInTurn (m : MemoryManager V) (replies : List (Request × List Ctx)) :
    Except Py.Error (MemoryManager V) :=
  replies.foldlM (fun m reply => m.doneGetChildren reply.1 (some reply.2)) m

/-- The nodes and the children of a parent have what the replies name. -/
def Discovered (m : MemoryManager V) (parent : NodeRef) (named : List Ctx) : Prop :=
  ∀ c ∈ named, c ∈ m.nodes.keys ∧ c ∈ m.childList parent

/-- Two ends of a discovery agree, up to the order of the children. -/
structure SameView (m m' : MemoryManager V) (parent : NodeRef) : Prop where
  nodes : ∀ c, c ∈ m.nodes.keys ↔ c ∈ m'.nodes.keys
  children : (m.childList parent).Perm (m'.childList parent)

/-- Either service may answer first. -/
def OrderIndependent (m : MemoryManager V) (parent : NodeRef) (memory runControl : List Ctx) :
    Prop :=
  ∃ m₁ m₂,
    m.doneInTurn [(⟨.memory, parent⟩, memory), (⟨.runControl, parent⟩, runControl)] = .ok m₁ ∧
    m.doneInTurn [(⟨.runControl, parent⟩, runControl), (⟨.memory, parent⟩, memory)] = .ok m₂ ∧
    m₁.SameView m₂ parent ∧
    m₁.Discovered parent (memory ++ runControl) ∧ m₂.Discovered parent (memory ++ runControl)

theorem doneGetChildren_spec (h : m.Allocated) (hparent : parent < m.nextNode) (service : Service)
    (ids : List Ctx) :
    ∃ m', m.doneGetChildren ⟨service, parent⟩ (some ids) = .ok m' ∧
      m'.Discovering parent m.nextList ids ∧
      ∀ x, x ∈ m'.nodes.keys ↔ x ∈ (((m.childList parent).filter (· ∉ ids)).foldl removeNode
        (m.newList [])).nodes.keys ∨ x ∈ ids := by
  obtain ⟨m', hrun, hend, hkeys⟩ := receiveChildren_spec h hparent ids
  refine ⟨{ m' with pending := m'.pending.erase ⟨service, parent⟩ }, ?_,
    ⟨hend.allocated, hend.parent_lt, hend.list_lt, hend.children, hend.list⟩, hkeys⟩
  simp only [doneGetChildren, hrun]
  rfl

/-- After the second reply its contexts are the children; what it leaves out is gone. -/
theorem doneInTurn_spec (h : m.Allocated) (hparent : parent < m.nextNode)
    (service service' : Service) (first second : List Ctx) :
    ∃ m', m.doneInTurn [(⟨service, parent⟩, first), (⟨service', parent⟩, second)] = .ok m' ∧
      m'.childList parent = second ∧
      (first ⊆ second → ∀ x, x ∈ m'.nodes.keys ↔
        x ∈ (((m.childList parent).filter (· ∉ first)).foldl removeNode
          (m.newList [])).nodes.keys ∨ x ∈ second) := by
  obtain ⟨m₁, hfirst, h₁, hkeys₁⟩ := doneGetChildren_spec h hparent service first
  obtain ⟨m₂, hsecond, h₂, hkeys₂⟩ :=
    doneGetChildren_spec h₁.allocated h₁.parent_lt service' second
  refine ⟨m₂, ?_, h₂.childList, fun hsub x => ?_⟩
  · simp only [doneInTurn, List.foldlM_cons, List.foldlM_nil, hfirst]
    change (m₁.doneGetChildren ⟨service', parent⟩ (some second)) >>= pure = _
    rw [hsecond]
    rfl
  · -- the second reply names all children, so that it removes none
    have hnothing : (m₁.childList parent).filter (· ∉ second) = [] := by
      rw [h₁.childList, List.filter_eq_nil_iff]
      intro c hc
      simpa using hsub hc
    rw [hkeys₂, hnothing, List.foldl_nil]
    change x ∈ m₁.nodes.keys ∨ x ∈ second ↔ _
    rw [hkeys₁, or_assoc]
    constructor
    · rintro (hx | hx | hx)
      · exact .inl hx
      · exact .inr (hsub hx)
      · exact .inr hx
    · rintro (hx | hx)
      · exact .inl hx
      · exact .inr (.inr hx)

/-- Discovery is independent of the order exactly if both services name the same contexts. -/
theorem orderIndependent_iff (h : m.Allocated) (hparent : parent < m.nextNode)
    (memory runControl : List Ctx) :
    m.OrderIndependent parent memory runControl ↔ memory.Perm runControl := by
  obtain ⟨m₁, hrun₁, hchildren₁, hkeys₁⟩ :=
    doneInTurn_spec h hparent .memory .runControl memory runControl
  obtain ⟨m₂, hrun₂, hchildren₂, hkeys₂⟩ :=
    doneInTurn_spec h hparent .runControl .memory runControl memory
  constructor
  · rintro ⟨m₁', m₂', hrun₁', hrun₂', hview, -, -⟩
    obtain rfl := Except.ok.inj (hrun₁.symm.trans hrun₁')
    obtain rfl := Except.ok.inj (hrun₂.symm.trans hrun₂')
    have hperm := hview.children
    rw [hchildren₁, hchildren₂] at hperm
    exact hperm.symm
  · intro hperm
    have hkeys₁ := hkeys₁ hperm.subset
    have hkeys₂ := hkeys₂ hperm.symm.subset
    have hkeep : (m.childList parent).filter (· ∉ memory) =
        (m.childList parent).filter (· ∉ runControl) :=
      List.filter_congr fun c _ => by simp only [hperm.mem_iff]
    have hboth : ∀ c ∈ memory ++ runControl, c ∈ memory ∧ c ∈ runControl := by
      intro c hc
      rcases List.mem_append.mp hc with hc | hc
      · exact ⟨hc, hperm.mem_iff.mp hc⟩
      · exact ⟨hperm.mem_iff.mpr hc, hc⟩
    refine ⟨m₁, m₂, hrun₁, hrun₂, ⟨fun c => ?_, ?_⟩, fun c hc => ⟨?_, ?_⟩, fun c hc => ⟨?_, ?_⟩⟩
    · rw [hkeys₁, hkeys₂, hkeep, hperm.mem_iff]
    · rw [hchildren₁, hchildren₂]
      exact hperm.symm
    · exact (hkeys₁ c).mpr (.inr (hboth c hc).2)
    · exact hchildren₁ ▸ (hboth c hc).2
    · exact (hkeys₂ c).mpr (.inr (hboth c hc).1)
    · exact hchildren₂ ▸ (hboth c hc).1

/-- A manager with both services that knows no node yet. -/
def start : MemoryManager ℕ :=
  { CsManager.init ℕ with services := [.memory, .runControl], pending := [], contextRequests := [] }

theorem allocated_start : start.Allocated := by
  constructor
  · intro c r hr
    by_cases hc : c = ""
    · subst hc
      obtain rfl := Option.some.inj ((Py.Dict.get?_set_self _ _ _).symm.trans hr)
      exact Nat.one_pos
    · have hnone : (Py.Dict.empty.set "" 0 : Py.Dict Ctx NodeRef).get? c = none :=
        (Py.Dict.get?_set_ne _ hc _).trans (Py.Dict.get?_empty c)
      exact nomatch hnone.symm.trans hr
  · exact fun _ => Nat.one_pos

/-- Both services name two contexts, in different orders. -/
theorem orderIndependent_swapped : start.OrderIndependent 0 ["ddr", "cpu"] ["cpu", "ddr"] :=
  (orderIndependent_iff allocated_start Nat.one_pos _ _).mpr (List.Perm.swap "cpu" "ddr" [])

/-- The run-control service does not know the memory: the node is lost if it answers last. -/
theorem not_orderIndependent_memoryOnly : ¬ start.OrderIndependent 0 ["ddr"] ["cpu"] := by
  rintro ⟨m₁, m₂, hrun₁, -, -, hdiscovered, -⟩
  have hlost : (start.doneInTurn [(⟨.memory, 0⟩, ["ddr"]), (⟨.runControl, 0⟩, ["cpu"])]).toOption.map
      (·.nodes.keys) = some ["", "cpu"] := by decide +kernel
  rw [hrun₁] at hlost
  have hkeys : m₁.nodes.keys = ["", "cpu"] := Option.some.inj hlost
  have hmem := (hdiscovered "ddr" (by decide)).1
  rw [hkeys] at hmem
  exact absurd hmem (by decide)

end MemoryManager

end Chipscopy.Dm
