import Chipscopy.Dm.Discovery

/-! Completeness of discovery

    Every command that is answered sends the commands of the children it names, and none of them was
    sent before, because a context has one parent. A list of children is stored in a node that is
    registered and has none so far, so that nothing is removed, and a node is created under a parent
    that lists it. A list that comes before the properties of its context finds no node: the handler
    raises, its token stays pending, and the contexts below are not asked for. -/

namespace Chipscopy.Dm

open Forest Function

/-! ### Steps that keep the links of all nodes -/

namespace CsManager

variable {V : Type} {m m' : CsManager V} {c p : Ctx} {r : NodeRef}

/-- Only properties, new lists and queues may differ. -/
structure SameLinks (m m' : CsManager V) : Prop where
  nextNode : m'.nextNode = m.nextNode
  nextList : m.nextList ≤ m'.nextList
  self : m'.self = m.self
  nodes : m'.nodes = m.nodes
  node : ∀ r, ∃ props, m'.node r = { m.node r with props := props }
  list : ∀ l, l < m.nextList → m'.list l = m.list l

theorem SameLinks.refl (m : CsManager V) : m.SameLinks m :=
  ⟨rfl, le_rfl, rfl, rfl, fun r => ⟨(m.node r).props, rfl⟩, fun _ _ => rfl⟩

theorem SameLinks.trans {m'' : CsManager V} (h : m.SameLinks m') (h' : m'.SameLinks m'') :
    m.SameLinks m'' := by
  refine ⟨h'.nextNode.trans h.nextNode, h.nextList.trans h'.nextList, h'.self.trans h.self,
    h'.nodes.trans h.nodes, fun r => ?_, fun l hl => ?_⟩
  · obtain ⟨props, hprops⟩ := h.node r
    obtain ⟨props', hprops'⟩ := h'.node r
    exact ⟨props', by rw [hprops', hprops]⟩
  · rw [h'.list l (hl.trans_le h.nextList), h.list l hl]

theorem SameLinks.fields (h : m.SameLinks m') (r : NodeRef) : (m'.node r).ctx = (m.node r).ctx ∧
    (m'.node r).parentCtx = (m.node r).parentCtx ∧ (m'.node r).children = (m.node r).children ∧
    (m'.node r).invalid = (m.node r).invalid := by
  obtain ⟨props, hprops⟩ := h.node r
  rw [hprops]
  exact ⟨rfl, rfl, rfl, rfl⟩

theorem SameLinks.wellFormed (h : m.SameLinks m') (hm : m.WellFormed) : m'.WellFormed := by
  refine ⟨fun {c r} hr => ?_, fun {c r} hr => ?_, fun {c r} hr => ?_,
    fun {c c' r r'} hr hr' hchildren => ?_, ?_, fun r hr hnot => ?_⟩
  · rw [h.nodes] at hr
    rw [(h.fields r).1, hm.ctx_eq hr]
  · rw [h.nodes] at hr
    rw [h.nextNode]
    exact hm.node_lt hr
  · rw [h.nodes] at hr
    rw [(h.fields r).2.2.1]
    exact (hm.list_lt hr).trans_le h.nextList
  · rw [h.nodes] at hr hr'
    rw [(h.fields r).2.2.1, (h.fields r').2.2.1] at hchildren
    exact hm.list_inj hr hr' hchildren
  · rw [h.nodes, h.self, hm.root]
  · rw [h.nextNode] at hr
    rw [h.nodes] at hnot
    rw [(h.fields r).2.2.2]
    exact hm.stale r hr hnot

theorem SameLinks.forest (h : m.SameLinks m') (hm : m.WellFormed) : m'.forest = m.forest := by
  refine Forest.ext (funext fun c => ?_) (funext fun c => ?_)
  · cases hr : m.nodes.get? c with
    | none => rw [parent_forest_of_none hr, parent_forest_of_none (by rw [h.nodes, hr])]
    | some r => rw [parent_forest hr, parent_forest (by rw [h.nodes, hr]), (h.fields r).2.1]
  · cases hr : m.nodes.get? c with
    | none => rw [children_forest_of_none hr, children_forest_of_none (by rw [h.nodes, hr])]
    | some r =>
      rw [children_forest hr, children_forest (by rw [h.nodes, hr]), childList, childList,
        (h.fields r).2.2.1]
      exact h.list _ (hm.list_lt hr)

theorem sameLinks_notifyNodeAdded (m : CsManager V) (r : NodeRef) :
    m.SameLinks (m.notifyNodeAdded r) := by
  obtain ⟨added, posted, log, heq⟩ := notifyNodeAdded_eq m r
  rw [heq]
  exact ⟨rfl, le_rfl, rfl, rfl, fun r => ⟨(m.node r).props, rfl⟩, fun _ _ => rfl⟩

theorem sameLinks_newList (m : CsManager V) (cs : List Ctx) : m.SameLinks (m.newList cs) :=
  ⟨rfl, Nat.le_succ _, rfl, rfl, fun r => ⟨(m.node r).props, rfl⟩,
    fun _ hl => Function.update_of_ne (Nat.ne_of_lt hl) _ _⟩

theorem sameLinks_setProps (m : CsManager V) (r : NodeRef) (props : Py.Dict String V) :
    m.SameLinks (m.setNode r { m.node r with props := props }) := by
  refine ⟨rfl, le_rfl, rfl, rfl, fun s => ?_, fun _ _ => rfl⟩
  by_cases hs : s = r
  · subst hs
    exact ⟨props, Function.update_self _ _ _⟩
  · exact ⟨(m.node s).props, Function.update_of_ne hs _ _⟩

/-! ### Steps of discovery on the tree -/

/-- A new list is stored in a node that has no children: nothing is removed. -/
theorem setChildren_newList (h : m.WellFormed) (hr : m.nodes.get? p = some r)
    (hempty : m.forest.children p = []) (cs : List Ctx) :
    ((m.newList cs).setChildren r m.nextList).WellFormed ∧
      ((m.newList cs).setChildren r m.nextList).forest = m.forest.setChildren p cs := by
  have hsame := sameLinks_newList m cs
  have hlist : (m.newList cs).childList r = [] := by
    rw [← children_forest (m := m.newList cs) hr, hsame.forest h, hempty]
  obtain ⟨m₁, hm₁⟩ : ∃ m₁, m₁ = m.newList cs := ⟨_, rfl⟩
  obtain ⟨m₂, hm₂⟩ : ∃ m₂, m₂ = (m.newList cs).setChildren r m.nextList := ⟨_, rfl⟩
  have heq : m₂ = m₁.setNode r { m₁.node r with children := m.nextList } := by
    rw [hm₂, hm₁, setChildren, hlist]
    rfl
  have hwf : m₁.WellFormed := hm₁ ▸ hsame.wellFormed h
  have hr₁ : m₁.nodes.get? p = some r := hm₁ ▸ hr
  have hnode : m₂.node r = { m₁.node r with children := m.nextList } := by
    rw [heq]
    exact Function.update_self _ _ _
  have hother : ∀ s, s ≠ r → m₂.node s = m₁.node s := by
    intro s hs
    rw [heq]
    exact Function.update_of_ne hs _ _
  have hrest : ∀ s, (m₂.node s).ctx = (m₁.node s).ctx ∧
      (m₂.node s).parentCtx = (m₁.node s).parentCtx ∧
      (m₂.node s).invalid = (m₁.node s).invalid := by
    intro s
    by_cases hs : s = r
    · rw [hs, hnode]
      exact ⟨rfl, rfl, rfl⟩
    · rw [hother s hs]
      exact ⟨rfl, rfl, rfl⟩
  have hnodes : m₂.nodes = m₁.nodes := by rw [heq]; rfl
  have hold : ∀ {c s}, m₁.nodes.get? c = some s → (m₁.node s).children < m.nextList := by
    intro c s hs
    rw [hm₁] at hs ⊢
    exact h.list_lt hs
  rw [← hm₂]
  refine ⟨⟨fun {c s} hs => ?_, fun {c s} hs => ?_, fun {c s} hs => ?_,
    fun {c c' s s'} hs hs' hchildren => ?_, ?_, fun s hs hnot => ?_⟩,
    Forest.ext (funext fun c => ?_) (funext fun c => ?_)⟩
  · rw [hnodes] at hs
    rw [(hrest s).1, hwf.ctx_eq hs]
  · rw [hnodes] at hs
    rw [heq]
    exact hwf.node_lt hs
  · rw [hnodes] at hs
    have hnext : m₂.nextList = m.nextList + 1 := by
      rw [heq, hm₁]
      rfl
    rw [hnext]
    by_cases hsr : s = r
    · rw [hsr, hnode]
      exact Nat.lt_succ_self _
    · rw [hother s hsr]
      exact (hold hs).trans (Nat.lt_succ_self _)
  · rw [hnodes] at hs hs'
    by_cases hsr : s = r <;> by_cases hsr' : s' = r
    · rw [hsr] at hs
      rw [hsr'] at hs'
      exact hwf.ref_inj hs hs'
    · rw [hsr, hnode, hother s' hsr'] at hchildren
      exact absurd hchildren.symm (Nat.ne_of_lt (hold hs'))
    · rw [hsr', hnode, hother s hsr] at hchildren
      exact absurd hchildren (Nat.ne_of_lt (hold hs))
    · rw [hother s hsr, hother s' hsr'] at hchildren
      exact hwf.list_inj hs hs' hchildren
  · rw [hnodes, hwf.root, heq]
    rfl
  · rw [hnodes] at hnot
    rw [(hrest s).2.2]
    refine hwf.stale s ?_ hnot
    rw [heq] at hs
    exact hs
  · have hparent : m₁.forest.parent c = m.forest.parent c := by rw [hm₁, hsame.forest h]
    rw [parent_setChildren, ← hparent]
    cases hs : m₁.nodes.get? c with
    | none => rw [parent_forest_of_none hs, parent_forest_of_none (by rw [hnodes, hs])]
    | some s => rw [parent_forest hs, parent_forest (by rw [hnodes, hs]), (hrest s).2.1]
  · by_cases hc : c = p
    · rw [hc, children_setChildren_self, children_forest (by rw [hnodes, hr₁]), childList, hnode,
        heq, hm₁]
      exact Function.update_self _ _ _
    · have hchildren : m₁.forest.children c = m.forest.children c := by rw [hm₁, hsame.forest h]
      rw [children_setChildren_ne hc, ← hchildren]
      cases hs : m₁.nodes.get? c with
      | none => rw [children_forest_of_none hs, children_forest_of_none (by rw [hnodes, hs])]
      | some s =>
        have hsr : s ≠ r := by
          rintro rfl
          exact hc (hwf.ref_inj hs hr₁)
        rw [children_forest hs, children_forest (by rw [hnodes, hs]), childList, childList,
          hother s hsr, heq]
        rfl

/-- A new node, if its parent lists it already or is not there. -/
theorem createNode_listed (h : m.WellFormed) (hc : m.nodes.get? c = none) (hpc : p ≠ c)
    (hlisted : m.forest.Mem p → c ∈ m.forest.children p) (props : Py.Dict String V) :
    (m.createNode c p props).2.WellFormed ∧
      (m.createNode c p props).2.forest.parent = Function.update m.forest.parent c (some p) ∧
      (m.createNode c p props).2.forest.children = m.forest.children := by
  let node : Node V :=
    { cls := m.defaultNodeCls, ctx := c, parentCtx := p, children := m.nextList,
      props := props, invalid := false }
  let m₁ : CsManager V :=
    { (m.newList []).setNode m.nextNode node with
      nextNode := m.nextNode + 1
      nodes := m.nodes.set c m.nextNode }
  have hnode : ∀ s, s ≠ m.nextNode → m₁.node s = m.node s :=
    fun s hs => Function.update_of_ne hs _ _
  have hnode' : m₁.node m.nextNode = node := Function.update_self _ _ _
  have hlist : ∀ l, l ≠ m.nextList → m₁.list l = m.list l :=
    fun l hl => Function.update_of_ne hl _ _
  have heq : (m.createNode c p props).2 = m₁.notifyNodeAdded m.nextNode := by
    have hget : (m.nodes.set c m.nextNode).get? p = m.nodes.get? p := Py.Dict.get?_set_ne _ hpc _
    dsimp only [createNode]
    rw [hget]
    cases hp : m.nodes.get? p with
    | none => rfl
    | some q =>
      have hq : q ≠ m.nextNode := Nat.ne_of_lt (h.node_lt hp)
      have hmem : c ∈ m₁.childList q := by
        rw [childList, hnode q hq, hlist _ (Nat.ne_of_lt (h.list_lt hp))]
        have hlisted := hlisted (mem_forest.mpr ⟨q, hp⟩)
        rwa [children_forest hp] at hlisted
      dsimp only
      rw [appendChild, if_pos hmem]
  have hget : ∀ {d s}, m₁.nodes.get? d = some s →
      (d = c ∧ s = m.nextNode) ∨ (d ≠ c ∧ s ≠ m.nextNode ∧ m.nodes.get? d = some s) := by
    intro d s hs
    by_cases hd : d = c
    · left
      rw [hd] at hs
      exact ⟨hd, (Option.some.inj ((Py.Dict.get?_set_self _ _ _).symm.trans hs)).symm⟩
    · right
      have hs' : m.nodes.get? d = some s := (Py.Dict.get?_set_ne _ hd _).symm.trans hs
      exact ⟨hd, Nat.ne_of_lt (h.node_lt hs'), hs'⟩
  have hwf : m₁.WellFormed := by
    refine ⟨fun {d s} hs => ?_, fun {d s} hs => ?_, fun {d s} hs => ?_, ?_, ?_, ?_⟩
    · rcases hget hs with ⟨rfl, rfl⟩ | ⟨-, hne, hs⟩
      · rw [hnode']
      · rw [hnode s hne, h.ctx_eq hs]
    · rcases hget hs with ⟨-, rfl⟩ | ⟨-, -, hs⟩
      · exact Nat.lt_succ_self _
      · exact (h.node_lt hs).trans (Nat.lt_succ_self _)
    · rcases hget hs with ⟨-, rfl⟩ | ⟨-, hne, hs⟩
      · rw [hnode']
        exact Nat.lt_succ_self _
      · rw [hnode s hne]
        exact (h.list_lt hs).trans (Nat.lt_succ_self _)
    · intro d d' s s' hs hs' hchildren
      rcases hget hs with ⟨hd, hsr⟩ | ⟨-, hne, hold⟩ <;>
        rcases hget hs' with ⟨hd', hsr'⟩ | ⟨-, hne', hold'⟩
      · rw [hd, hd']
      · rw [hsr, hnode', hnode s' hne'] at hchildren
        exact absurd hchildren.symm (Nat.ne_of_lt (h.list_lt hold'))
      · rw [hsr', hnode', hnode s hne] at hchildren
        exact absurd hchildren (Nat.ne_of_lt (h.list_lt hold))
      · rw [hnode s hne, hnode s' hne'] at hchildren
        exact h.list_inj hold hold' hchildren
    · have hroot : "" ≠ c := by
        rintro rfl
        rw [h.root] at hc
        cases hc
      exact (Py.Dict.get?_set_ne _ hroot _).trans h.root
    · intro s hs hnot
      have hne : s ≠ m.nextNode := by
        rintro rfl
        exact hnot c (Py.Dict.get?_set_self _ _ _)
      rw [hnode s hne]
      refine h.stale s (Nat.lt_of_le_of_ne (Nat.le_of_lt_succ hs) hne) fun d hd => ?_
      have hdc : d ≠ c := by
        rintro rfl
        rw [hc] at hd
        cases hd
      exact hnot d ((Py.Dict.get?_set_ne _ hdc _).trans hd)
  have hnotify := sameLinks_notifyNodeAdded m₁ m.nextNode
  rw [heq, hnotify.forest hwf]
  refine ⟨hnotify.wellFormed hwf, funext fun d => ?_, funext fun d => ?_⟩
  · by_cases hd : d = c
    · subst hd
      rw [parent_forest (m := m₁) (Py.Dict.get?_set_self _ _ _), hnode', Function.update_self]
    · rw [Function.update_of_ne hd]
      cases hs : m.nodes.get? d with
      | none =>
        rw [parent_forest_of_none hs]
        exact parent_forest_of_none ((Py.Dict.get?_set_ne _ hd _).trans hs)
      | some s =>
        rw [parent_forest hs, parent_forest (m := m₁) ((Py.Dict.get?_set_ne _ hd _).trans hs),
          hnode s (Nat.ne_of_lt (h.node_lt hs))]
  · by_cases hd : d = c
    · subst hd
      rw [children_forest (m := m₁) (Py.Dict.get?_set_self _ _ _), childList, hnode',
        children_forest_of_none hc]
      exact Function.update_self _ _ _
    · cases hs : m.nodes.get? d with
      | none =>
        rw [children_forest_of_none hs]
        exact children_forest_of_none ((Py.Dict.get?_set_ne _ hd _).trans hs)
      | some s =>
        rw [children_forest hs, children_forest (m := m₁) ((Py.Dict.get?_set_ne _ hd _).trans hs),
          childList, hnode s (Nat.ne_of_lt (h.node_lt hs)), hlist _ (Nat.ne_of_lt (h.list_lt hs))]
        rfl

end CsManager

namespace Discovery

variable {V : Type} {asDict : V → Option (Py.Dict String V)} {server : Server V}

/-! ### Contexts of the server -/

theorem Server.mem_ctxs_of_known {p c : Ctx} (h : c ∈ server.known p) :
    c ∈ (server.results p).ctxs := by
  rw [Server.known] at h
  split_ifs at h
  · exact nomatch h
  · exact h

theorem Server.known_of_not_fails {p : Ctx} (h : server.fails (.getChildren p) = false) :
    server.known p = (server.results p).ctxs := by
  rw [Server.known, h]
  rfl

theorem Server.known_eq_nil {p : Ctx} :
    server.known p = [] ↔ server.fails (.getChildren p) ∨ (server.results p).ctxs = [] := by
  rw [Server.known]
  split_ifs with h
  · exact iff_of_true rfl (.inl h)
  · exact ⟨.inr, fun hnil => hnil.resolve_left h⟩

theorem Sent.mem {p : Ctx} (h : Sent server (.getChildren p)) : p ∈ "" :: server.contexts := by
  generalize hcommand : Command.getChildren p = command at h
  induction h generalizing p with
  | root =>
    obtain rfl := Command.getChildren.inj hcommand
    exact List.mem_cons_self
  | polls => cases hcommand
  | context => cases hcommand
  | children _ hc ih =>
    obtain rfl := Command.getChildren.inj hcommand
    exact List.mem_cons_of_mem _ (server.child_mem _ (ih rfl) _ (Server.mem_ctxs_of_known hc))

theorem Sent.of_context {p c : Ctx} (h : Sent server (.getContext c p)) :
    Sent server (.getChildren p) ∧ c ∈ server.known p := by
  cases h with
  | context hp hc => exact ⟨hp, hc⟩

theorem Sent.known_mem {p c : Ctx} (hp : Sent server (.getChildren p)) (hc : c ∈ server.known p) :
    c ∈ server.contexts :=
  server.child_mem p hp.mem c (Server.mem_ctxs_of_known hc)

theorem Sent.known_ne_root {p c : Ctx} (hp : Sent server (.getChildren p))
    (hc : c ∈ server.known p) : c ≠ "" := by
  rintro rfl
  exact server.root_notMem (hp.known_mem hc)

theorem Server.nodup_known {p : Ctx} (hp : p ∈ "" :: server.contexts) : (server.known p).Nodup := by
  have hctxs := (List.nodup_flatMap.mp server.once).1 p hp
  rw [Server.known]
  split_ifs
  · exact List.nodup_nil
  · exact hctxs

/-- A context has one parent. -/
theorem Sent.parent_unique {p p' c : Ctx} (hp : Sent server (.getChildren p))
    (hp' : Sent server (.getChildren p')) (hc : c ∈ server.known p) (hc' : c ∈ server.known p') :
    p = p' := by
  by_contra hne
  have hpair := (List.nodup_flatMap.mp server.once).2
  have hsymm : Std.Symm (List.Disjoint on fun p => (server.results p).ctxs) :=
    ⟨fun _ _ h => h.symm⟩
  exact hpair.forall hp.mem hp'.mem hne (Server.mem_ctxs_of_known hc) (Server.mem_ctxs_of_known hc')

/-! ### Commands -/

/-- Commands that the handler of a reply sends. -/
def Server.follow (server : Server V) : Command → List Command
  | .getChildren p => (server.known p).flatMap fun c => [.getContext c p, .getChildren c]
  | _ => []

theorem mem_follow {command next : Command} : next ∈ server.follow command ↔
    ∃ p, command = .getChildren p ∧ ∃ c ∈ server.known p, next = .getContext c p ∨ next = .getChildren c := by
  cases command with
  | getChildren p => simp [Server.follow]
  | getContext c p => simp [Server.follow]
  | updatePolls => simp [Server.follow]

/-- What holds of the commands that were answered and of those that were not. -/
structure Progress (server : Server V) (answered outstanding : List Command) : Prop where
  nodup : (answered ++ outstanding).Nodup
  sent : ∀ command ∈ answered ++ outstanding, Sent server command
  opened : ∀ command ∈ answered ++ outstanding, command = .getChildren "" ∨ command = .updatePolls ∨
    ∃ before ∈ answered, command ∈ server.follow before
  closed : ∀ command ∈ answered, ∀ next ∈ server.follow command, next ∈ answered ++ outstanding
  root : .getChildren "" ∈ answered ++ outstanding
  polls : .updatePolls ∈ answered ++ outstanding

theorem progress_start : Progress server [] [.getChildren "", .updatePolls] where
  nodup := by simp
  sent := by
    rintro command hcommand
    rcases List.mem_cons.mp hcommand with rfl | hcommand
    · exact .root
    · rw [List.mem_singleton.mp hcommand]
      exact .polls
  opened := by simp
  closed := by simp
  root := by simp
  polls := by simp

theorem Sent.follow {command next : Command} (h : Sent server command)
    (hnext : next ∈ server.follow command) : Sent server next := by
  obtain ⟨p, rfl, c, hc, rfl | rfl⟩ := mem_follow.mp hnext
  · exact .context h hc
  · exact .children h hc

theorem Sent.nodup_follow {command : Command} (h : Sent server command) :
    (server.follow command).Nodup := by
  cases command with
  | getChildren p =>
    refine List.nodup_flatMap.mpr ⟨fun c _ => by simp, ?_⟩
    refine (Server.nodup_known h.mem).imp fun {c d} hcd => ?_
    simp [List.Disjoint, hcd, hcd.symm]
  | getContext c p => exact List.nodup_nil
  | updatePolls => exact List.nodup_nil

/-- A command other than the first two follows one command only. -/
theorem Sent.follow_unique {command command' next : Command} (h : Sent server command)
    (h' : Sent server command') (hnext : next ∈ server.follow command)
    (hnext' : next ∈ server.follow command') : command = command' := by
  obtain ⟨p, rfl, c, hc, hcase⟩ := mem_follow.mp hnext
  obtain ⟨p', rfl, c', hc', hcase'⟩ := mem_follow.mp hnext'
  obtain rfl : c = c' := by
    rcases hcase with rfl | rfl <;> rcases hcase' with heq | heq <;> simp_all
  rw [h.parent_unique h' hc hc']

/-- The reply of a command that was not answered. -/
theorem Progress.answer {answered outstanding rest : List Command} {command : Command}
    (h : Progress server answered outstanding) (hperm : outstanding.Perm (command :: rest)) :
    Progress server (answered ++ [command]) (rest ++ server.follow command) := by
  have hall : ∀ {next}, next ∈ answered ++ [command] ++ (rest ++ server.follow command) ↔
      next ∈ answered ++ outstanding ∨ next ∈ server.follow command := by
    intro next
    simp only [List.mem_append, hperm.mem_iff, List.mem_cons, List.not_mem_nil, or_false]
    tauto
  have hcommand : command ∈ answered ++ outstanding :=
    List.mem_append_right _ (hperm.mem_iff.mpr List.mem_cons_self)
  have hsent := h.sent command hcommand
  have hnodup : (answered ++ [command] ++ rest).Nodup := by
    have hperm' : (answered ++ outstanding).Perm (answered ++ [command] ++ rest) := by
      rw [List.append_assoc]
      exact hperm.append_left answered
    exact hperm'.nodup_iff.mp h.nodup
  have hnot : command ∉ answered := by
    intro hmem
    have hdisjoint := (List.nodup_append.mp h.nodup).2.2
    exact hdisjoint command hmem command (hperm.mem_iff.mpr List.mem_cons_self) rfl
  refine ⟨?_, fun next hnext => ?_, fun next hnext => ?_, fun before hbefore next hnext => ?_,
    hall.mpr (.inl h.root), hall.mpr (.inl h.polls)⟩
  · -- what follows was not sent before: it would have followed a command that was answered
    rw [← List.append_assoc, List.nodup_append]
    refine ⟨hnodup, hsent.nodup_follow, fun next hnext next' hnext' heq => ?_⟩
    subst heq
    have hmem : next ∈ answered ++ outstanding := by
      rw [List.append_assoc, List.mem_append, List.singleton_append, ← hperm.mem_iff] at hnext
      exact List.mem_append.mpr hnext
    obtain ⟨p, hp, c, hc, hcase⟩ := mem_follow.mp hnext'
    subst hp
    rcases h.opened next hmem with rfl | rfl | ⟨before, hbefore, hfollow⟩
    · rcases hcase with hcase | hcase
      · cases hcase
      · exact hsent.known_ne_root hc (Command.getChildren.inj hcase).symm
    · rcases hcase with hcase | hcase <;> cases hcase
    · have heq := (h.sent before (List.mem_append_left _ hbefore)).follow_unique hsent hfollow hnext'
      exact hnot (heq ▸ hbefore)
  · rcases hall.mp hnext with hnext | hnext
    · exact h.sent next hnext
    · exact hsent.follow hnext
  · rcases hall.mp hnext with hnext | hnext
    · rcases h.opened next hnext with hroot | hpolls | ⟨before, hbefore, hfollow⟩
      · exact .inl hroot
      · exact .inr (.inl hpolls)
      · exact .inr (.inr ⟨before, List.mem_append_left _ hbefore, hfollow⟩)
    · exact .inr (.inr ⟨command, List.mem_append_right _ List.mem_cons_self, hnext⟩)
  · rw [hall]
    rcases List.mem_append.mp hbefore with hbefore | hbefore
    · exact .inl (h.closed before hbefore next hnext)
    · rw [List.mem_singleton.mp hbefore] at hnext
      exact .inr hnext

/-- All commands that can be sent. -/
def Server.commands (server : Server V) : List Command :=
  .updatePolls :: (("" :: server.contexts).map Command.getChildren ++
    ("" :: server.contexts).flatMap fun p => (server.results p).ctxs.map (Command.getContext · p))

theorem Sent.mem_commands {command : Command} (h : Sent server command) :
    command ∈ server.commands := by
  rw [Server.commands, List.mem_cons, List.mem_append]
  cases command with
  | getChildren p => exact .inr (.inl (List.mem_map_of_mem h.mem))
  | getContext c p =>
    obtain ⟨hp, hc⟩ := h.of_context
    exact .inr (.inr (List.mem_flatMap.mpr ⟨p, hp.mem,
      List.mem_map.mpr ⟨c, Server.mem_ctxs_of_known hc, rfl⟩⟩))
  | updatePolls => exact .inl rfl

theorem Server.length_commands (server : Server V) :
    server.commands.length ≤ 2 * server.contexts.length + 2 := by
  have hctxs : (("" :: server.contexts).flatMap fun p => (server.results p).ctxs).length ≤
      server.contexts.length := by
    refine (List.subperm_of_subset server.once fun c hc => ?_).length_le
    obtain ⟨p, hp, hc⟩ := List.mem_flatMap.mp hc
    exact server.child_mem p hp c hc
  have hcontexts : (("" :: server.contexts).flatMap fun p =>
      (server.results p).ctxs.map (Command.getContext · p)).length =
      (("" :: server.contexts).flatMap fun p => (server.results p).ctxs).length := by
    simp only [List.length_flatMap, List.length_map]
  rw [Server.commands, List.length_cons, List.length_append, List.length_map, hcontexts,
    List.length_cons]
  omega

/-- Finitely many commands are sent. -/
theorem Progress.length_le {answered outstanding : List Command}
    (h : Progress server answered outstanding) :
    answered.length + outstanding.length ≤ 2 * server.contexts.length + 2 := by
  rw [← List.length_append]
  exact (List.subperm_of_subset h.nodup fun command hcommand =>
    (h.sent command hcommand).mem_commands).length_le.trans server.length_commands

/-- Once nothing is outstanding all commands were answered. -/
theorem Progress.answered_iff {answered : List Command} (h : Progress server answered [])
    {command : Command} : command ∈ answered ↔ Sent server command := by
  have hclosed := h.closed
  have hsent := h.sent
  have hroot := h.root
  have hpolls := h.polls
  rw [List.append_nil] at hclosed hsent hroot hpolls
  refine ⟨hsent command, fun hcommand => ?_⟩
  induction hcommand with
  | root => exact hroot
  | polls => exact hpolls
  | context _ hc ih => exact hclosed _ ih _ (mem_follow.mpr ⟨_, rfl, _, hc, .inl rfl⟩)
  | children _ hc ih => exact hclosed _ ih _ (mem_follow.mpr ⟨_, rfl, _, hc, .inr rfl⟩)

theorem Progress.notMem {answered outstanding : List Command} {command : Command}
    (h : Progress server answered outstanding) (hmem : command ∈ outstanding) :
    command ∉ answered :=
  fun hanswered => (List.nodup_append.mp h.nodup).2.2 command hanswered command hmem rfl

/-- The child list of the parent came before a context is asked for. -/
theorem Progress.of_context {answered outstanding : List Command} {c p : Ctx}
    (h : Progress server answered outstanding)
    (hmem : .getContext c p ∈ answered ++ outstanding) :
    .getChildren p ∈ answered ∧ c ∈ server.known p := by
  rcases h.opened _ hmem with heq | heq | ⟨before, hbefore, hfollow⟩
  · cases heq
  · cases heq
  · obtain ⟨p', rfl, c', hc', heq | heq⟩ := mem_follow.mp hfollow
    · cases heq
      exact ⟨hbefore, hc'⟩
    · cases heq

/-! ### The manager -/

/-- What the manager holds after some replies. -/
structure Registry (server : Server V) (answered : List Command) (m : CsManager V) : Prop where
  wellFormed : m.WellFormed
  registered : ∀ c, m.forest.Mem c ↔ c = "" ∨
    ∃ p, .getContext c p ∈ answered ∧ server.fails (.getContext c p) = false
  parent : ∀ c p, c ≠ "" → m.forest.parent c = some p → .getContext c p ∈ answered
  children : ∀ c, m.forest.Mem c →
    m.forest.children c = if .getChildren c ∈ answered then server.known c else []
  early : ∀ c, .getChildren c ∈ answered → server.known c ≠ [] → m.forest.Mem c

theorem registry_start : Registry server [] (CsManager.init V) := by
  have hget : ∀ {c r}, (CsManager.init V).nodes.get? c = some r → c = "" ∧ r = 0 := by
    intro c r h
    have hset : ((Py.Dict.empty : Py.Dict Ctx NodeRef).set "" 0).get? c = some r := h
    by_cases hc : c = ""
    · subst hc
      rw [Py.Dict.get?_set_self] at hset
      exact ⟨rfl, (Option.some.inj hset).symm⟩
    · rw [Py.Dict.get?_set_ne _ hc] at hset
      exact nomatch hset
  have hmem : ∀ c, (CsManager.init V).forest.Mem c ↔ c = "" := by
    intro c
    rw [CsManager.mem_forest]
    constructor
    · rintro ⟨r, hr⟩
      exact (hget hr).1
    · rintro rfl
      exact ⟨0, Py.Dict.get?_set_self _ _ _⟩
  refine ⟨⟨fun hr => (hget hr).1.symm, fun hr => ?_, fun _ => Nat.zero_lt_one,
    fun hr hr' _ => (hget hr).1.trans (hget hr').1.symm, Py.Dict.get?_set_self _ _ _,
    fun r hr hnot => ?_⟩, fun c => ?_, fun c p hc hparent => ?_, fun c hc => ?_, by simp⟩
  · rw [(hget hr).2]
    exact Nat.zero_lt_one
  · obtain rfl : r = 0 := Nat.lt_one_iff.mp hr
    exact absurd (Py.Dict.get?_set_self _ _ _) (hnot "")
  · rw [hmem]
    simp
  · exact absurd ((hmem c).mp (mem_of_parent hparent)) hc
  · obtain ⟨r, hr⟩ := CsManager.mem_forest.mp hc
    rw [CsManager.children_forest hr]
    simp [CsManager.childList, CsManager.init]

/-- A reply that names no node leaves the manager alone. -/
theorem Registry.skip {answered : List Command} {m : CsManager V} {command : Command}
    (h : Registry server answered m)
    (hchildren : ∀ p, command = .getChildren p → server.known p = [])
    (hcontext : ∀ c p, command = .getContext c p → server.fails command = true) :
    Registry server (answered ++ [command]) m := by
  refine ⟨h.wellFormed, fun c => ?_, fun c p hc hparent => ?_, fun c hc => ?_,
    fun c hc hknown => ?_⟩
  · rw [h.registered]
    refine or_congr_right (exists_congr fun p => ?_)
    rw [List.mem_append, List.mem_singleton]
    constructor
    · exact fun hp => ⟨.inl hp.1, hp.2⟩
    · rintro ⟨hp | hp, hfails⟩
      · exact ⟨hp, hfails⟩
      · have htrue := hcontext c p hp.symm
        rw [← hp, hfails] at htrue
        cases htrue
  · exact List.mem_append_left _ (h.parent c p hc hparent)
  · rw [h.children c hc]
    by_cases hmem : Command.getChildren c ∈ answered
    · rw [if_pos hmem, if_pos (List.mem_append_left _ hmem)]
    · rw [if_neg hmem]
      split_ifs with happ
      · rw [List.mem_append, List.mem_singleton, or_iff_right hmem] at happ
        exact (hchildren c happ.symm).symm
      · rfl
  · rcases List.mem_append.mp hc with hc | hc
    · exact h.early c hc hknown
    · exact absurd (hchildren c (List.mem_singleton.mp hc).symm) hknown

/-- The children of a registered context come for the first time. -/
theorem Registry.setChildren {answered : List Command} {m : CsManager V} {p : Ctx} {r : NodeRef}
    (h : Registry server answered m) (hnot : .getChildren p ∉ answered)
    (hr : m.nodes.get? p = some r) :
    Registry server (answered ++ [.getChildren p])
      ((m.newList (server.known p)).setChildren r m.nextList) := by
  have hmem : m.forest.Mem p := CsManager.mem_forest.mpr ⟨r, hr⟩
  have hempty : m.forest.children p = [] := by rw [h.children p hmem, if_neg hnot]
  obtain ⟨hwf, hforest⟩ := CsManager.setChildren_newList h.wellFormed hr hempty (server.known p)
  have hmem' : ∀ c, ((m.newList (server.known p)).setChildren r m.nextList).forest.Mem c ↔
      m.forest.Mem c := by
    intro c
    rw [hforest]
    rfl
  refine ⟨hwf, fun c => ?_, fun c q hc hparent => ?_, fun c hc => ?_, fun c hc hknown => ?_⟩
  · rw [hmem', h.registered]
    simp
  · rw [hforest] at hparent
    exact List.mem_append_left _ (h.parent c q hc hparent)
  · rw [hforest]
    by_cases hcp : c = p
    · subst hcp
      rw [children_setChildren_self, if_pos (List.mem_append_right _ List.mem_cons_self)]
    · rw [children_setChildren_ne hcp, h.children c ((hmem' c).mp hc)]
      simp [hcp]
  · rw [hmem']
    rcases List.mem_append.mp hc with hc | hc
    · exact h.early c hc hknown
    · cases List.mem_singleton.mp hc
      exact hmem

theorem sameLinks_updateProps (asDict : V → Option (Py.Dict String V)) (m : CsManager V)
    (r : NodeRef) (props : Py.Dict String V) : m.SameLinks (updateProps asDict m r props) := by
  have hfirst := CsManager.sameLinks_setProps m r ((m.node r).props.update props.entries)
  rw [updateProps]
  split
  · exact hfirst.trans (CsManager.sameLinks_setProps _ _ _)
  · exact hfirst

/-- The properties of a context come, for the first time. -/
theorem Registry.addNode (asDict : V → Option (Py.Dict String V)) {answered outstanding : List Command} {m : CsManager V} {c p : Ctx}
    (h : Registry server answered m) (hprogress : Progress server answered outstanding)
    (hmem : .getContext c p ∈ outstanding) (hfails : server.fails (.getContext c p) = false)
    (props : Py.Dict String V) :
    ∃ r m', m.addNode c p = .ok (r, m') ∧
      Registry server (answered ++ [.getContext c p]) (updateProps asDict m' r props) := by
  obtain ⟨hp, hc⟩ := hprogress.of_context (List.mem_append_right _ hmem)
  have hsent : Sent server (.getChildren p) := hprogress.sent _ (List.mem_append_left _ hp)
  have hroot := hsent.known_ne_root hc
  -- nothing else registers the context, as it has one parent
  have hnone : ¬ m.forest.Mem c := by
    rw [h.registered, not_or]
    refine ⟨hroot, ?_⟩
    rintro ⟨p', hp', -⟩
    obtain ⟨hsent', hc'⟩ := (hprogress.sent _ (List.mem_append_left _ hp')).of_context
    obtain rfl := hsent.parent_unique hsent' hc hc'
    exact hprogress.notMem hmem hp'
  have hget : m.nodes.get? c = none :=
    Option.eq_none_iff_forall_ne_some.mpr fun r hr => hnone (CsManager.mem_forest.mpr ⟨r, hr⟩)
  have hknown : server.known p ≠ [] := List.ne_nil_of_mem hc
  have hpc : p ≠ c := by
    rintro rfl
    exact hnone (h.early p hp hknown)
  have hlisted : m.forest.Mem p → c ∈ m.forest.children p := by
    intro hmemp
    rw [h.children p hmemp, if_pos hp]
    exact hc
  obtain ⟨hwf, hparent, hchildren⟩ :=
    CsManager.createNode_listed h.wellFormed hget hpc hlisted Py.Dict.empty
  have hsame := sameLinks_updateProps asDict (m.createNode c p .empty).2 (m.createNode c p .empty).1
    props
  have hforest := hsame.forest hwf
  rw [← hforest] at hparent hchildren
  obtain ⟨m', hm'⟩ : ∃ m', m' = updateProps asDict (m.createNode c p .empty).2
    (m.createNode c p .empty).1 props := ⟨_, rfl⟩
  have hmem' : ∀ d, m'.forest.Mem d ↔ d = c ∨ m.forest.Mem d := by
    intro d
    rw [hm', Forest.Mem, hparent]
    by_cases hd : d = c
    · subst hd
      simp [Function.update_self]
    · rw [Function.update_of_ne hd, or_iff_right hd]
      rfl
  have hwf' := hsame.wellFormed hwf
  refine ⟨_, _, by rw [CsManager.addNode, hget], ?_⟩
  rw [← hm'] at hparent hchildren hwf' ⊢
  refine ⟨hwf', fun d => ?_, fun d q hd hdq => ?_, fun d hd => ?_, fun d hd hdknown => ?_⟩
  · rw [hmem', h.registered]
    constructor
    · rintro (rfl | hd | ⟨q, hq, hqfails⟩)
      · exact .inr ⟨p, List.mem_append_right _ List.mem_cons_self, hfails⟩
      · exact .inl hd
      · exact .inr ⟨q, List.mem_append_left _ hq, hqfails⟩
    · rintro (hd | ⟨q, hq, hqfails⟩)
      · exact .inr (.inl hd)
      · rcases List.mem_append.mp hq with hq | hq
        · exact .inr (.inr ⟨q, hq, hqfails⟩)
        · cases List.mem_singleton.mp hq
          exact .inl rfl
  · rw [hparent] at hdq
    by_cases hdc : d = c
    · subst hdc
      rw [Function.update_self] at hdq
      obtain rfl := Option.some.inj hdq
      exact List.mem_append_right _ List.mem_cons_self
    · rw [Function.update_of_ne hdc] at hdq
      exact List.mem_append_left _ (h.parent d q hd hdq)
  · rw [hchildren]
    have hsame : (Command.getChildren d ∈ answered ++ [.getContext c p]) ↔
        .getChildren d ∈ answered := by simp
    simp only [hsame]
    rcases (hmem' d).mp hd with rfl | hd
    · -- a context that is not registered has no children yet
      have hnil : m.forest.children d = [] := CsManager.children_forest_of_none hget
      rw [hnil]
      split_ifs with hmemd
      · by_contra hne
        exact hnone (h.early d hmemd (Ne.symm hne))
      · rfl
    · exact h.children d hd
  · rw [hmem']
    have hd' : .getChildren d ∈ answered := by simpa using hd
    exact .inr (h.early d hd' hdknown)

/-! ### Pending tokens -/

/-- Each command that is not answered has a token of its own, and these are pending. -/
structure Tokens (st : State V) : Prop where
  pending : st.pending = st.inFlight.map (·.1)
  nodup : st.pending.Nodup
  fresh : ∀ token ∈ st.pending, token < st.nextToken

theorem Tokens.send {st : State V} (h : Tokens st) (command : Command) :
    Tokens (st.send command) := by
  refine ⟨?_, ?_, fun token htoken => ?_⟩
  · simp [State.send, h.pending]
  · refine List.nodup_append.mpr ⟨h.nodup, List.nodup_singleton _, fun token htoken token' heq => ?_⟩
    rw [List.mem_singleton.mp heq]
    exact Nat.ne_of_lt (h.fresh token htoken)
  · rcases List.mem_append.mp htoken with htoken | htoken
    · exact (h.fresh token htoken).trans (Nat.lt_succ_self _)
    · rw [List.mem_singleton.mp htoken]
      exact Nat.lt_succ_self _

theorem sendAll_spec : ∀ (commands : List Command) (st : State V), Tokens st →
    Tokens (commands.foldl State.send st) ∧
      (commands.foldl State.send st).inFlight.map (·.2) = st.inFlight.map (·.2) ++ commands ∧
      (commands.foldl State.send st).manager = st.manager ∧
      (commands.foldl State.send st).answered = st.answered ∧
      (commands.foldl State.send st).raised = st.raised
  | [], st, h => ⟨h, by simp, rfl, rfl, rfl⟩
  | command :: commands, st, h => by
    obtain ⟨htokens, hinFlight, hrest⟩ := sendAll_spec commands (st.send command) (h.send command)
    refine ⟨htokens, ?_, hrest⟩
    rw [List.foldl_cons, hinFlight]
    simp [State.send]

/-- The loop over the children sends what follows the reply. -/
theorem foldl_children (p : Ctx) : ∀ (cs : List Ctx) (st : State V),
    cs.foldl (fun st ctx => (st.updateStaticInfo ctx p).updateChildren ctx) st =
      (cs.flatMap fun c => [Command.getContext c p, .getChildren c]).foldl State.send st
  | [], _ => rfl
  | c :: cs, st => by
    rw [List.foldl_cons, foldl_children p cs, List.flatMap_cons, List.foldl_append]
    rfl

theorem map_fst_erase {κ υ : Type} [DecidableEq κ] [DecidableEq υ] {k : κ} {v : υ} :
    ∀ {es : List (κ × υ)}, (es.map (·.1)).Nodup → (k, v) ∈ es →
      (es.erase (k, v)).map (·.1) = (es.map (·.1)).erase k
  | e :: es, hnodup, hmem => by
    rw [List.map_cons, List.nodup_cons] at hnodup
    by_cases he : e = (k, v)
    · rw [he, List.erase_cons_head, List.map_cons, List.erase_cons_head]
    · have hes : (k, v) ∈ es := (List.mem_cons.mp hmem).resolve_left (Ne.symm he)
      have hk : e.1 ≠ k := by
        rintro rfl
        exact hnodup.1 (List.mem_map.mpr ⟨(e.1, v), hes, rfl⟩)
      rw [List.erase_cons_tail (by simpa using he), List.map_cons, List.map_cons,
        List.erase_cons_tail (by simpa using hk), map_fst_erase hnodup.2 hes]

/-! ### Steps -/

structure Inv (server : Server V) (st : State V) : Prop where
  tokens : Tokens st
  progress : Progress server st.answered (st.inFlight.map (·.2))
  registry : Registry server st.answered st.manager
  raised : st.raised = []

theorem inv_start : Inv server (start V) := by
  have htokens : Tokens (⟨CsManager.init V, [], [], 0, [], []⟩ : State V) :=
    ⟨rfl, List.nodup_nil, by simp⟩
  exact ⟨(htokens.send _).send _, progress_start, registry_start, rfl⟩

theorem Inv.completes {st : State V} (h : Inv server st) : Completes server st := by
  refine ⟨h.raised, ?_, fun hnil => ?_, fun hnil => ?_⟩
  · have hle := h.progress.length_le
    rwa [List.length_map] at hle
  · rw [State.isReady, h.tokens.pending, hnil]
    rfl
  · have hprogress := h.progress
    rw [hnil] at hprogress
    refine ⟨fun c => ?_, fun c p hc hparent => ?_, fun c hc => ?_⟩
    · rw [h.registry.registered]
      simp only [hprogress.answered_iff]
    · exact hprogress.answered_iff.mp (h.registry.parent c p hc hparent)
    · rw [h.registry.children c hc, if_pos]
      rw [hprogress.answered_iff]
      rcases (h.registry.registered c).mp hc with rfl | ⟨p, hp, -⟩
      · exact .root
      · obtain ⟨hsent, hknown⟩ := (hprogress.answered_iff.mp hp).of_context
        exact .children hsent hknown

/-- The state in which a handler runs: its command is answered, and its token still pending. -/
def State.answer (st : State V) (token : ℕ) (command : Command) : State V :=
  { st with
    inFlight := st.inFlight.erase (token, command)
    answered := st.answered ++ [command] }

theorem step_of_mem {st : State V} (h : Tokens st) {token : ℕ} {command : Command}
    (hmem : (token, command) ∈ st.inFlight) : step asDict server st token =
      match (st.answer token command).reply asDict server command with
      | .error e => some { st.answer token command with
          raised := (st.answer token command).raised ++ [e] }
      | .ok st => some (st.removePending token) := by
  have hnodup := h.nodup
  rw [h.pending] at hnodup
  rw [step, (Py.lookup_eq_some_iff hnodup).mpr hmem]
  rfl

/-- Tokens of new commands do not get in the way of the one that is taken away. -/
theorem foldl_send_removePending {token : ℕ} : ∀ (commands : List Command) {st : State V},
    token ∈ st.pending → (commands.foldl State.send st).removePending token =
      commands.foldl State.send (st.removePending token)
  | [], _, _ => rfl
  | command :: commands, st, h => by
    have hsend : (st.send command).removePending token = (st.removePending token).send command := by
      simp only [State.removePending, State.send, List.erase_append_left _ h]
    rw [List.foldl_cons, List.foldl_cons, foldl_send_removePending commands
      (List.mem_append_left _ h), hsend]

/-- A handler that comes to its end: what it sends, and the manager it leaves. -/
theorem inv_step {st st' : State V} (h : Inv server st) {token : ℕ} {command : Command}
    (hmem : (token, command) ∈ st.inFlight)
    (hreply : (st.answer token command).reply asDict server command = .ok st')
    (hst : ∃ m, Registry server (st.answered ++ [command]) m ∧
      st' = (server.follow command).foldl State.send { st.answer token command with manager := m }) :
    step asDict server st token = some (st'.removePending token) ∧
      Inv server (st'.removePending token) := by
  refine ⟨by rw [step_of_mem h.tokens hmem, hreply], ?_⟩
  obtain ⟨m, hregistry, rfl⟩ := hst
  obtain ⟨st₂, hst₂⟩ : ∃ st₂, st₂ = ({ st.answer token command with manager := m } : State V) :=
    ⟨_, rfl⟩
  have hpending : token ∈ st₂.pending := by
    rw [hst₂]
    refine h.tokens.pending ▸ ?_
    exact List.mem_map_of_mem hmem
  have htokens : Tokens (st₂.removePending token) := by
    rw [hst₂]
    refine ⟨?_, h.tokens.nodup.erase token, fun t ht => h.tokens.fresh t (List.mem_of_mem_erase ht)⟩
    have hnodup := h.tokens.nodup
    have herase := map_fst_erase (h.tokens.pending ▸ hnodup) hmem
    rw [← h.tokens.pending] at herase
    exact herase.symm
  have hperm : (st.inFlight.map (·.2)).Perm (command :: st₂.inFlight.map (·.2)) := by
    rw [hst₂]
    exact (List.perm_cons_erase hmem).map (·.2)
  obtain ⟨hsent, hinFlight, hmanager, hanswered, hraised⟩ :=
    sendAll_spec (server.follow command) (st₂.removePending token) htokens
  rw [← hst₂, foldl_send_removePending _ hpending]
  refine ⟨hsent, ?_, ?_, ?_⟩
  · rw [hinFlight, hanswered]
    have hprogress := h.progress.answer hperm
    rw [hst₂] at hprogress ⊢
    exact hprogress
  · rw [hanswered, hmanager, hst₂]
    exact hregistry
  · rw [hraised, hst₂]
    exact h.raised

theorem childrenReply_ok {st : State V} (h : Inv server st) {token : ℕ} {p : Ctx}
    (hmem : (token, .getChildren p) ∈ st.inFlight)
    (hp : server.known p ≠ [] → st.manager.forest.Mem p) :
    ∃ st', step asDict server st token = some st' ∧ Inv server st' := by
  have hnot := h.progress.notMem (List.mem_map_of_mem hmem)
  by_cases hknown : server.known p = []
  · have hreply : (st.answer token (.getChildren p)).reply asDict server (.getChildren p) =
        .ok (st.answer token (.getChildren p)) := by
      rw [State.reply, State.childrenReply]
      exact if_pos (Server.known_eq_nil.mp hknown)
    refine ⟨_, inv_step h hmem hreply ⟨st.manager, h.registry.skip ?_ ?_, ?_⟩⟩
    · rintro q hq
      cases hq
      exact hknown
    · rintro c q hq
      cases hq
    · rw [Server.follow, hknown]
      rfl
  · have hfails : server.fails (.getChildren p) = false := by
      by_contra hfails
      rw [Bool.not_eq_false] at hfails
      exact hknown (Server.known_eq_nil.mpr (.inl hfails))
    have hctxs := Server.known_of_not_fails hfails
    obtain ⟨r, hr⟩ := CsManager.mem_forest.mp (hp hknown)
    have hreply : (st.answer token (.getChildren p)).reply asDict server (.getChildren p) =
        .ok ((server.follow (.getChildren p)).foldl State.send
          { st.answer token (.getChildren p) with
            manager := (st.manager.newList (server.known p)).setChildren r
              st.manager.nextList }) := by
      have hget : (st.answer token (.getChildren p)).manager.nodes.get? p = some r := hr
      rw [State.reply, State.childrenReply]
      dsimp only
      rw [if_neg (fun hor => hknown (Server.known_eq_nil.mpr hor)), hget, Server.follow,
        ← foldl_children, ← hctxs]
      rfl
    exact ⟨_, inv_step h hmem hreply ⟨_, h.registry.setChildren hnot hr, rfl⟩⟩

theorem contextReply_ok {st : State V} (h : Inv server st) {token : ℕ} {c p : Ctx}
    (hmem : (token, .getContext c p) ∈ st.inFlight) :
    ∃ st', step asDict server st token = some st' ∧ Inv server st' := by
  cases hfails : server.fails (.getContext c p) with
  | true =>
    have hreply : (st.answer token (.getContext c p)).reply asDict server (.getContext c p) =
        .ok (st.answer token (.getContext c p)) := by
      rw [State.reply, State.contextReply, if_pos hfails]
    refine ⟨_, inv_step h hmem hreply ⟨st.manager, h.registry.skip ?_ ?_, rfl⟩⟩
    · rintro q hq
      cases hq
    · rintro d q hq
      cases hq
      exact hfails
  | false =>
    obtain ⟨r, m', hadd, hregistry⟩ := h.registry.addNode asDict h.progress
      (List.mem_map_of_mem hmem) hfails (server.props c)
    have hreply : (st.answer token (.getContext c p)).reply asDict server (.getContext c p) =
        .ok { st.answer token (.getContext c p) with
          manager := updateProps asDict m' r (server.props c) } := by
      have hadd' : (st.answer token (.getContext c p)).manager.addNode c p = .ok (r, m') := hadd
      rw [State.reply, State.contextReply, if_neg (by simp [hfails]), hadd']
    exact ⟨_, inv_step h hmem hreply ⟨_, hregistry, rfl⟩⟩

theorem pollsReply_ok {st : State V} (h : Inv server st) {token : ℕ}
    (hmem : (token, .updatePolls) ∈ st.inFlight) :
    ∃ st', step asDict server st token = some st' ∧ Inv server st' := by
  refine ⟨_, inv_step h hmem rfl ⟨st.manager, h.registry.skip ?_ ?_, rfl⟩⟩
  · rintro q hq
    cases hq
  · rintro c q hq
    cases hq

theorem step_eq_none {st : State V} (h : Tokens st) {token : ℕ}
    (hnot : ∀ command, (token, command) ∉ st.inFlight) : step asDict server st token = none := by
  have hnodup := h.nodup
  rw [h.pending] at hnodup
  have hlookup : Py.lookup token st.inFlight = none :=
    Option.eq_none_iff_forall_ne_some.mpr fun command hcommand =>
      hnot command ((Py.lookup_eq_some_iff hnodup).mp hcommand)
  rw [step, hlookup]

/-- A context is registered exactly if its own properties came. -/
theorem Inv.mem_iff {st : State V} (h : Inv server st) {c : Ctx} (hc : c ∈ server.contexts) :
    st.manager.forest.Mem c ↔ ∃ p ∈ "" :: server.contexts,
      Command.getContext c p ∈ st.answered ∧ server.fails (.getContext c p) = false := by
  have hroot : c ≠ "" := by
    rintro rfl
    exact server.root_notMem hc
  rw [h.registry.registered, or_iff_right hroot]
  constructor
  · rintro ⟨p, hp, hfails⟩
    obtain ⟨hsent, -⟩ := (h.progress.sent _ (List.mem_append_left _ hp)).of_context
    exact ⟨p, hsent.mem, hp, hfails⟩
  · rintro ⟨p, -, hp, hfails⟩
    exact ⟨p, hp, hfails⟩

theorem inv_next {st st' : State V} {token : ℕ} (h : Inv server st)
    (hafter : AfterContext server st token) (hstep : step asDict server st token = some st') :
    Inv server st' := by
  have hnext : ∃ st', step asDict server st token = some st' ∧ Inv server st' := by
    by_cases hmem : ∃ command, (token, command) ∈ st.inFlight
    · obtain ⟨command, hmem⟩ := hmem
      cases command with
      | getChildren p =>
        refine childrenReply_ok h hmem fun hknown => ?_
        have hsent : Sent server (.getChildren p) :=
          h.progress.sent _ (List.mem_append_right _ (List.mem_map_of_mem hmem))
        rcases List.mem_cons.mp hsent.mem with rfl | hp
        · exact (h.registry.registered "").mpr (.inl rfl)
        · exact (h.mem_iff hp).mpr (hafter p hp hmem hknown)
      | getContext c p => exact contextReply_ok h hmem
      | updatePolls => exact pollsReply_ok h hmem
    · rw [step_eq_none h.tokens (not_exists.mp hmem)] at hstep
      cases hstep
  obtain ⟨st'', hst'', hinv⟩ := hnext
  rw [hst''] at hstep
  obtain rfl := Option.some.inj hstep
  exact hinv

/-- A list of children that comes first raises. -/
theorem raises_of_not_afterContext {st : State V} {token : ℕ} (h : Inv server st)
    (hafter : ¬ AfterContext server st token) :
    ∃ st', step asDict server st token = some st' ∧ ¬ Completes server st' := by
  rw [AfterContext] at hafter
  push Not at hafter
  obtain ⟨p, hp, hmem, hknown, hcontext⟩ := hafter
  have hnone : st.manager.nodes.get? p = none := by
    refine Option.eq_none_iff_forall_ne_some.mpr fun r hr => ?_
    obtain ⟨q, hq, hanswered, hfails⟩ := (h.mem_iff hp).mp (CsManager.mem_forest.mpr ⟨r, hr⟩)
    exact hcontext q hq hanswered hfails
  have hreply : (st.answer token (.getChildren p)).reply asDict server (.getChildren p) =
      .error (.keyError p) := by
    have hget : (st.answer token (.getChildren p)).manager.nodes.get? p = none := hnone
    rw [State.reply, State.childrenReply]
    dsimp only
    rw [if_neg (fun hor => hknown (Server.known_eq_nil.mpr hor)), hget]
  refine ⟨_, by rw [step_of_mem h.tokens hmem, hreply], fun hcompletes => ?_⟩
  exact List.append_ne_nil_of_right_ne_nil _ (List.cons_ne_nil _ _) hcompletes.raised

/-- Discovery completes exactly if no list of children comes before the properties of its context,
    or after they failed. -/
theorem discovery_completes_iff (asDict : V → Option (Py.Dict String V)) (server : Server V)
    (tokens : List ℕ) :
    Machine.Throughout (step asDict server) (Completes server) (fun _ _ _ => True) (start V) tokens ↔
      Machine.EachStep (step asDict server) (AfterContext server) (start V) tokens :=
  Machine.Throughout.iff_eachStep (Inv server) Inv.completes
    (fun h hafter hstep => ⟨inv_next h hafter hstep, trivial⟩)
    (fun h hafter => (raises_of_not_afterContext h hafter).imp fun _ h => ⟨h.1, fun _ => h.2⟩)
    tokens inv_start

/-- A context below another; the properties of the upper one fail. -/
def failing : Server Unit where
  contexts := ["a", "b"]
  results p := if p = "" then .single "a" else if p = "a" then .list ["b"] else .none
  props _ := .empty
  fails command := command = .getContext "a" ""
  child_mem := by decide
  root_notMem := by decide
  once := by decide

theorem not_completes_failing : ¬ ∀ tokens : List ℕ,
    Machine.Throughout (step (fun _ => none) failing) (Completes failing) (fun _ _ _ => True)
      (start Unit) tokens := by
  intro h
  have hraised : (Machine.runTo (step (fun _ => none) failing) (start Unit) [0, 2, 3]).map
      State.raised = some [.keyError "a"] := by decide
  obtain ⟨st, hrun, hst⟩ := Option.map_eq_some_iff.mp hraised
  have hcompletes := (h [0, 2, 3]).runTo hrun
  rw [hcompletes.raised] at hst
  cases hst

end Discovery

end Chipscopy.Dm
