import Chipscopy.Dm.Manager
import Chipscopy.Lib.Forest

/-! Tree of a manager

    The dictionary, the parent contexts and the lists of children are one tree as long as nodes do
    not share lists, a node comes under a parent that is there, and a list that is stored holds
    children of its node. Removing a node then removes its subtree and nothing else. -/

namespace Chipscopy.Dm

open Forest

namespace CsManager

variable {V : Type} {m m' : CsManager V} {ctx c p : Ctx} {r : NodeRef} {l : ListRef}

/-! ### What a manager says about its tree -/

/-- Parents by context, and the children of each context. -/
def forest (m : CsManager V) : Forest Ctx where
  parent c := (m.nodes.get? c).map fun r => (m.node r).parentCtx
  children c := match m.nodes.get? c with
    | some r => m.childList r
    | none => []

/-- Nodes are filed under their contexts and do not share lists; the others are invalid. -/
structure WellFormed (m : CsManager V) : Prop where
  ctx_eq : ∀ {c r}, m.nodes.get? c = some r → (m.node r).ctx = c
  node_lt : ∀ {c r}, m.nodes.get? c = some r → r < m.nextNode
  list_lt : ∀ {c r}, m.nodes.get? c = some r → (m.node r).children < m.nextList
  list_inj : ∀ {c c' r r'}, m.nodes.get? c = some r → m.nodes.get? c' = some r' →
    (m.node r).children = (m.node r').children → c = c'
  root : m.nodes.get? "" = some m.self
  stale : ∀ r, r < m.nextNode → (∀ c, m.nodes.get? c ≠ some r) → (m.node r).invalid = true

/-- No registered node keeps its children in the list. -/
def Unowned (m : CsManager V) (l : ListRef) : Prop :=
  ∀ c r, m.nodes.get? c = some r → (m.node r).children ≠ l

theorem parent_forest (h : m.nodes.get? c = some r) :
    m.forest.parent c = some (m.node r).parentCtx := by
  simp only [forest, h, Option.map_some]

theorem children_forest (h : m.nodes.get? c = some r) : m.forest.children c = m.childList r := by
  simp only [forest, h]

theorem parent_forest_of_none (h : m.nodes.get? c = none) : m.forest.parent c = none := by
  simp only [forest, h, Option.map_none]

theorem children_forest_of_none (h : m.nodes.get? c = none) : m.forest.children c = [] := by
  simp only [forest, h]

theorem mem_forest : m.forest.Mem c ↔ ∃ r, m.nodes.get? c = some r := by
  cases h : m.nodes.get? c with
  | none => simp [Forest.Mem, parent_forest_of_none h]
  | some r => simp [Forest.Mem, parent_forest h]

/-- Two nodes are one if they are filed under one context. -/
theorem WellFormed.ref_inj (h : m.WellFormed) {c' : Ctx} (hc : m.nodes.get? c = some r)
    (hc' : m.nodes.get? c' = some r) : c = c' :=
  (h.ctx_eq hc).symm.trans (h.ctx_eq hc')

/-! ### Notifications leave the tree alone -/

theorem notifyNodeAdded_eq (m : CsManager V) (r : NodeRef) : ∃ added posted log,
    m.notifyNodeAdded r = { m with addedNodes := added, posted := posted, addedLog := log } := by
  simp only [notifyNodeAdded]
  split_ifs
  · exact ⟨_, _, _, rfl⟩
  · exact ⟨_, _, _, rfl⟩
  · exact ⟨_, _, _, rfl⟩
  · exact ⟨_, _, _, rfl⟩

theorem notifyNodeRemoved_eq (m : CsManager V) (r : NodeRef) : ∃ removed posted log,
    m.notifyNodeRemoved r =
      { m with removedNodes := removed, posted := posted, removedLog := log } := by
  simp only [notifyNodeRemoved]
  split_ifs
  · exact ⟨_, _, _, rfl⟩
  · exact ⟨_, _, _, rfl⟩
  · exact ⟨_, _, _, rfl⟩
  · exact ⟨_, _, _, rfl⟩

/-! ### Removing a node -/

/-- What removing can change: validity, the dictionary, and the lists of registered nodes. -/
structure Shrinks (m m' : CsManager V) : Prop where
  nextNode : m'.nextNode = m.nextNode
  nextList : m'.nextList = m.nextList
  self : m'.self = m.self
  node : ∀ r, ∃ b, m'.node r = { m.node r with invalid := b }
  nodes : ∀ {c r}, m'.nodes.get? c = some r → m.nodes.get? c = some r
  list : ∀ {l}, m.Unowned l → m'.list l = m.list l

theorem Shrinks.refl (m : CsManager V) : m.Shrinks m :=
  ⟨rfl, rfl, rfl, fun r => ⟨(m.node r).invalid, rfl⟩, id, fun _ => rfl⟩

theorem Shrinks.children (h : m.Shrinks m') (r : NodeRef) :
    (m'.node r).children = (m.node r).children := by
  obtain ⟨b, hb⟩ := h.node r
  rw [hb]

theorem Shrinks.unowned (h : m.Shrinks m') (hl : m.Unowned l) : m'.Unowned l := by
  intro c r hr
  rw [h.children]
  exact hl c r (h.nodes hr)

theorem Shrinks.trans {m'' : CsManager V} (h : m.Shrinks m') (h' : m'.Shrinks m'') :
    m.Shrinks m'' := by
  refine ⟨h'.nextNode.trans h.nextNode, h'.nextList.trans h.nextList, h'.self.trans h.self,
    fun r => ?_, fun hr => h.nodes (h'.nodes hr), fun hl => ?_⟩
  · obtain ⟨b, hb⟩ := h.node r
    obtain ⟨b', hb'⟩ := h'.node r
    exact ⟨b', by rw [hb', hb]⟩
  · rw [h'.list (h.unowned hl), h.list hl]

theorem node_setInvalid (m : CsManager V) (r r' : NodeRef) (b : Bool) :
    (m.setInvalid r b).node r' = if r' = r then { m.node r with invalid := b } else m.node r' :=
  Function.update_apply m.node r _ r'

theorem children_setInvalid (m : CsManager V) (r r' : NodeRef) (b : Bool) :
    ((m.setInvalid r b).node r').children = (m.node r').children := by
  rw [node_setInvalid]
  split_ifs with h
  · rw [h]
  · rfl

/-- A node without its parent's list. -/
def unfile (m : CsManager V) (ctx : Ctx) (r : NodeRef) : CsManager V :=
  { m with nodes := m.nodes.erase ctx }.setInvalid r true

theorem parentCtx_unfile (m : CsManager V) (ctx : Ctx) (r : NodeRef) :
    ((m.unfile ctx r).node r).parentCtx = (m.node r).parentCtx := by
  have hnode : (m.unfile ctx r).node r = { m.node r with invalid := true } := by
    rw [unfile, node_setInvalid, if_pos rfl]
  rw [hnode]

theorem popNode_of_none (hp : (m.nodes.erase ctx).get? (m.node r).parentCtx = none) :
    m.popNode ctx r = (m.unfile ctx r).notifyNodeRemoved r := by
  have hparent := parentCtx_unfile m ctx r
  have hget : (m.unfile ctx r).nodes.get? ((m.unfile ctx r).node r).parentCtx = none := by
    rw [hparent]
    exact hp
  unfold popNode
  rw [← unfile]
  dsimp only
  rw [hget]

theorem popNode_of_some {q : NodeRef}
    (hp : (m.nodes.erase ctx).get? (m.node r).parentCtx = some q) :
    m.popNode ctx r = ((m.unfile ctx r).setList (m.node q).children
      ((m.childList q).erase ctx)).notifyNodeRemoved r := by
  have hparent := parentCtx_unfile m ctx r
  have hget : (m.unfile ctx r).nodes.get? ((m.unfile ctx r).node r).parentCtx = some q := by
    rw [hparent]
    exact hp
  have hchildren : ((m.unfile ctx r).node q).children = (m.node q).children :=
    children_setInvalid m r q true
  have hlist : (m.unfile ctx r).childList q = m.childList q := by
    rw [childList, hchildren]
    rfl
  unfold popNode
  rw [← unfile, ← hchildren, ← hlist]
  dsimp only
  rw [hget]

/-- The fields after `popNode`. -/
theorem popNode_fields (m : CsManager V) (ctx : Ctx) (r : NodeRef) :
    ∃ list removed posted log,
      m.popNode ctx r = { m with
        nodes := m.nodes.erase ctx
        node := (m.setInvalid r true).node
        list := list
        removedNodes := removed
        posted := posted
        removedLog := log } ∧
      (∀ p, (m.nodes.erase ctx).get? (m.node r).parentCtx = some p →
        list = Function.update m.list (m.node p).children ((m.childList p).erase ctx)) ∧
      ((m.nodes.erase ctx).get? (m.node r).parentCtx = none → list = m.list) := by
  cases hp : (m.nodes.erase ctx).get? (m.node r).parentCtx with
  | none =>
    obtain ⟨removed, posted, log, heq⟩ := notifyNodeRemoved_eq (m.unfile ctx r) r
    rw [popNode_of_none hp]
    exact ⟨m.list, removed, posted, log, heq, fun q hq => (nomatch hq), fun _ => rfl⟩
  | some q =>
    obtain ⟨removed, posted, log, heq⟩ := notifyNodeRemoved_eq
      ((m.unfile ctx r).setList (m.node q).children ((m.childList q).erase ctx)) r
    rw [popNode_of_some hp]
    refine ⟨_, removed, posted, log, heq, fun p hp => ?_, fun hnone => (nomatch hnone)⟩
    obtain rfl := Option.some.inj hp
    rfl

theorem get?_of_erase {r : NodeRef} (h : (m.nodes.erase ctx).get? c = some r) :
    m.nodes.get? c = some r ∧ c ≠ ctx := by
  by_cases hc : c = ctx
  · rw [hc, Py.Dict.get?_erase_self] at h
    exact nomatch h
  · rw [Py.Dict.get?_erase_ne _ hc] at h
    exact ⟨h, hc⟩

theorem shrinks_popNode (m : CsManager V) (ctx : Ctx) (r : NodeRef) :
    m.Shrinks (m.popNode ctx r) := by
  obtain ⟨list, removed, posted, log, heq, hsome, hnone⟩ := popNode_fields m ctx r
  rw [heq]
  refine ⟨rfl, rfl, rfl, fun q => ?_, fun hq => (get?_of_erase hq).1, fun {l} hl => ?_⟩
  · dsimp only
    rw [node_setInvalid]
    split_ifs with hqr
    · exact ⟨true, by rw [hqr]⟩
    · exact ⟨(m.node q).invalid, rfl⟩
  · dsimp only
    cases hp : (m.nodes.erase ctx).get? (m.node r).parentCtx with
    | none => rw [hnone hp]
    | some p =>
      rw [hsome p hp]
      exact Function.update_of_ne (hl _ p (get?_of_erase hp).1).symm _ _

/-- Rule for what removing nodes keeps: it is enough to keep it for one node. -/
theorem removeNodeTo_rel {R : CsManager V → CsManager V → Prop} (hrefl : ∀ m, R m m)
    (htrans : ∀ {m m' m''}, R m m' → R m' m'' → R m m'')
    (hpop : ∀ m ctx r, m.nodes.get? ctx = some r → R m (m.popNode ctx r)) :
    ∀ (depth : ℕ) (m : CsManager V) (ctx : Ctx), R m (removeNodeTo depth m ctx)
  | 0, m, _ => hrefl m
  | depth + 1, m, ctx => by
    have hloop : ∀ (l : ListRef) (count i : ℕ) (m : CsManager V),
        R m (m.forEach (removeNodeTo depth) l count i) := by
      intro l count
      induction count with
      | zero => exact fun _ m => hrefl m
      | succ count ih =>
        intro i m
        rw [forEach]
        split
        · exact htrans (removeNodeTo_rel hrefl htrans hpop depth m _) (ih (i + 1) _)
        · exact hrefl m
    rw [removeNodeTo]
    split
    · next r hr => exact htrans (hpop m ctx r hr) (hloop _ _ _ _)
    · exact hrefl m

theorem shrinks_removeNodeTo (depth : ℕ) (m : CsManager V) (ctx : Ctx) :
    m.Shrinks (removeNodeTo depth m ctx) :=
  removeNodeTo_rel Shrinks.refl Shrinks.trans (fun m ctx r _ => shrinks_popNode m ctx r) depth m ctx

theorem shrinks_foldl_removeNode : ∀ (cs : List Ctx) (m : CsManager V),
    m.Shrinks (cs.foldl removeNode m)
  | [], m => .refl m
  | c :: cs, m => (shrinks_removeNodeTo _ m c).trans (shrinks_foldl_removeNode cs _)

/-- The node is gone, and its parent no longer lists it. -/
theorem popNode_spec (h : m.WellFormed) (hlinked : m.forest.Linked "")
    (hr : m.nodes.get? ctx = some r) (hne : ctx ≠ "") :
    (m.popNode ctx r).WellFormed ∧ (m.popNode ctx r).forest = m.forest.detach ctx ∧
      m.Shrinks (m.popNode ctx r) ∧ (m.popNode ctx r).nodes = m.nodes.erase ctx ∧
      (m.popNode ctx r).Unowned (m.node r).children ∧
      (m.popNode ctx r).list (m.node r).children = m.childList r := by
  obtain ⟨list, removed, posted, log, heq, hsome, hnone⟩ := popNode_fields m ctx r
  have hshrinks := shrinks_popNode m ctx r
  have hget : ∀ {c q}, (m.nodes.erase ctx).get? c = some q → m.nodes.get? c = some q ∧ c ≠ ctx :=
    get?_of_erase
  have hunowned : ∀ c q, (m.nodes.erase ctx).get? c = some q →
      (m.node q).children ≠ (m.node r).children := by
    intro c q hq hchildren
    exact (hget hq).2 (h.list_inj (hget hq).1 hr hchildren)
  -- a list changes only where the parent keeps its children
  have hlist : ∀ l, (∀ p, (m.nodes.erase ctx).get? (m.node r).parentCtx = some p →
      l ≠ (m.node p).children) → list l = m.list l := by
    intro l hl
    cases hp : (m.nodes.erase ctx).get? (m.node r).parentCtx with
    | none => rw [hnone hp]
    | some p => rw [hsome p hp, Function.update_of_ne (hl p hp)]
  have hself : m.nodes.get? ctx ≠ some m.self := by
    intro hctx
    exact hne (h.ref_inj hctx h.root)
  rw [heq] at hshrinks ⊢
  refine ⟨⟨fun {c q} hq => ?_, fun hq => h.node_lt (hget hq).1, fun {c q} hq => ?_, ?_, ?_, ?_⟩,
    Forest.ext (funext fun c => ?_) (funext fun c => ?_), hshrinks, rfl, ?_, ?_⟩
  · obtain ⟨b, hb⟩ := hshrinks.node q
    rw [hb]
    exact h.ctx_eq (hget hq).1
  · rw [hshrinks.children]
    exact h.list_lt (hget hq).1
  · intro c c' q q' hq hq' hchildren
    rw [hshrinks.children, hshrinks.children] at hchildren
    exact h.list_inj (hget hq).1 (hget hq').1 hchildren
  · dsimp only
    rw [Py.Dict.get?_erase_ne _ hne.symm, h.root]
  · intro q hq hnot
    dsimp only at hnot ⊢
    rw [node_setInvalid]
    split_ifs with hqr
    · rfl
    · refine h.stale q hq fun c hc => ?_
      by_cases hcx : c = ctx
      · subst hcx
        exact hqr (Option.some.inj (hc.symm.trans hr))
      · exact hnot c (by rw [Py.Dict.get?_erase_ne _ hcx, hc])
  · by_cases hc : c = ctx
    · rw [hc, parent_detach_self]
      exact parent_forest_of_none (Py.Dict.get?_erase_self _ _)
    · rw [parent_detach_ne hc]
      have hsame := Py.Dict.get?_erase_ne m.nodes hc
      cases hq : m.nodes.get? c with
      | none =>
        rw [parent_forest_of_none hq]
        exact parent_forest_of_none (hsame.trans hq)
      | some q =>
        rw [parent_forest hq]
        refine (parent_forest (hsame.trans hq)).trans ?_
        obtain ⟨b, hb⟩ := hshrinks.node q
        rw [hb]
  · by_cases hc : c = ctx
    · rw [hc, children_detach_self]
      exact children_forest_of_none (Py.Dict.get?_erase_self _ _)
    · rw [children_detach_ne hc]
      have hsame := Py.Dict.get?_erase_ne m.nodes hc
      cases hq : m.nodes.get? c with
      | none =>
        rw [children_forest_of_none hq]
        exact children_forest_of_none (hsame.trans hq)
      | some q =>
        rw [children_forest hq]
        refine (children_forest (hsame.trans hq)).trans ?_
        have hchildren : _ = (m.node q).children := hshrinks.children q
        by_cases hpc : c = (m.node r).parentCtx
        · have hp : (m.nodes.erase ctx).get? (m.node r).parentCtx = some q := by
            rw [← hpc, hsame, hq]
          rw [childList, hchildren, hsome q hp]
          exact Function.update_self _ _ _
        · have hmem : ctx ∉ m.childList q := by
            intro hmem
            rw [← children_forest hq] at hmem
            have hparent := hlinked.parent hmem
            rw [parent_forest hr] at hparent
            exact hpc (Option.some.inj hparent).symm
          rw [List.erase_of_not_mem hmem, childList, hchildren]
          exact hlist _ fun p hp hqp => hpc (h.list_inj hq (hget hp).1 hqp)
  · intro c q hq
    rw [hshrinks.children]
    exact hunowned c q hq
  · exact hlist _ fun p hp hchildren => hunowned _ p hp hchildren.symm

/-- The subtrees of some nodes are gone, and nothing else. -/
structure Removes (m m' : CsManager V) (S : Set Ctx) : Prop where
  wellFormed : m'.WellFormed
  forest : m'.forest = m.forest.prune S
  shrinks : m.Shrinks m'
  size : m'.nodes.size ≤ m.nodes.size

theorem Removes.refl (h : m.WellFormed) : m.Removes m ∅ :=
  ⟨h, prune_empty.symm, .refl m, le_rfl⟩

theorem Removes.trans {m'' : CsManager V} {S T : Set Ctx} (h : m.Removes m' S)
    (h' : m'.Removes m'' T) : m.Removes m'' (S ∪ T) :=
  ⟨h'.wellFormed, by rw [h'.forest, h.forest, prune_prune], h.shrinks.trans h'.shrinks,
    h'.size.trans h.size⟩

/-- A loop over contexts, each of which is removed with its subtree. -/
theorem forEach_removes {step : CsManager V → Ctx → CsManager V} (h : m.WellFormed)
    (hl : m.Unowned l) (hstep : ∀ i c m', (m.list l)[i]? = some c →
      m.Removes m' {d | d ∈ (m.list l).take i} → m'.Removes (step m' c) {c}) :
    ∀ (count i : ℕ) (m' : CsManager V), i + count = (m.list l).length →
      m.Removes m' {d | d ∈ (m.list l).take i} →
      m.Removes (m'.forEach step l count i) {d | d ∈ m.list l}
  | 0, i, m', hcount, hm' => by
    rwa [List.take_of_length_le (by omega)] at hm'
  | count + 1, i, m', hcount, hm' => by
    have hi : i < (m.list l).length := by omega
    have hc : (m.list l)[i]? = some (m.list l)[i] := List.getElem?_eq_getElem hi
    have hset : {d | d ∈ (m.list l).take (i + 1)} =
        {d | d ∈ (m.list l).take i} ∪ {(m.list l)[i]} := by
      ext d
      rw [List.take_succ_eq_append_getElem hi, Set.mem_ofPred_eq, List.mem_append,
        List.mem_singleton]
      rfl
    have hnext := hm'.trans (hstep i _ m' hc hm')
    rw [← hset] at hnext
    rw [forEach, hm'.shrinks.list hl, hc]
    exact forEach_removes h hl hstep count (i + 1) _ (by omega) hnext

/-- Removing a node takes its subtree away. -/
theorem removeNodeTo_removes : ∀ (depth : ℕ) {m : CsManager V} {ctx : Ctx}, m.WellFormed →
    m.forest.Linked "" → ctx ≠ "" → m.forest.Mem ctx → m.nodes.size ≤ depth →
      m.Removes (removeNodeTo depth m ctx) {ctx}
  | 0, m, ctx, _, _, _, hmem, hsize => by
    obtain ⟨r, hr⟩ := mem_forest.mp hmem
    have hlt := Py.Dict.size_erase_lt m.nodes hr
    omega
  | depth + 1, m, ctx, h, hlinked, hne, hmem, hsize => by
    obtain ⟨r, hr⟩ := mem_forest.mp hmem
    obtain ⟨hpop, hforest, hshrinks, hnodes, hunowned, hlist⟩ := popNode_spec h hlinked hr hne
    have hlt := Py.Dict.size_erase_lt m.nodes hr
    rw [← hnodes] at hlt
    have hlinked' : (m.popNode ctx r).forest.Linked "" := by
      rw [hforest]
      exact hlinked.detach ctx
    have hchildren : (m.popNode ctx r).list (m.node r).children = m.forest.children ctx := by
      rw [hlist, children_forest hr]
    have hloop : (m.popNode ctx r).Removes (removeNodeTo (depth + 1) m ctx)
        {c | c ∈ m.forest.children ctx} := by
      rw [removeNodeTo, hr]
      dsimp only
      rw [childList, hshrinks.children, ← hchildren]
      refine forEach_removes hpop hunowned (fun i c m' hc hm' => ?_) _ 0 _ (Nat.zero_add _) ?_
      · -- earlier children are not above this one, so it is still there
        rw [hchildren] at hc hm'
        have hcmem : c ∈ m.forest.children ctx := List.mem_of_getElem? hc
        have hcctx : c ≠ ctx := by
          rintro rfl
          exact hne (hlinked.ne_parent (hlinked.parent hcmem))
        refine removeNodeTo_removes depth hm'.wellFormed ?_ (hlinked.ne_root hcmem) ?_ ?_
        · rw [hm'.forest]
          exact hlinked'.prune _
        · rw [hm'.forest, mem_prune, hforest]
          refine ⟨mem_detach.mpr ⟨mem_of_parent (hlinked.parent hcmem), hcctx⟩, ?_⟩
          refine hlinked.not_belowAny_detach hcmem (fun d hd => ⟨List.mem_of_mem_take hd, ?_⟩) hne
          rintro rfl
          obtain ⟨j, hj⟩ := List.mem_iff_getElem?.mp hd
          rw [List.getElem?_take] at hj
          split_ifs at hj with hji
          have hlen := (List.getElem?_eq_some_iff.mp hj).1
          have hji' := (List.getElem?_inj hlen (hlinked.nodup ctx)).mp (hj.trans hc.symm)
          omega
        · exact hm'.size.trans (by omega)
      · simpa using Removes.refl hpop
    refine ⟨hloop.wellFormed, ?_, hshrinks.trans hloop.shrinks, hloop.size.trans hlt.le⟩
    rw [hloop.forest, hforest, hlinked.prune_eq_detach hmem hne]

/-- One tree, and the manager is its root. -/
structure IsTree (m : CsManager V) : Prop extends WellFormed m where
  rooted : m.forest.Rooted ""

theorem Removes.isTree {S : Set Ctx} (h : m.Removes m' S) (hm : m.IsTree) (hS : "" ∉ S) :
    m'.IsTree :=
  { h.wellFormed with rooted := by rw [h.forest]; exact hm.rooted.prune hS }

theorem removeNode_of_none (h : m.nodes.get? ctx = none) : m.removeNode ctx = m := by
  rw [removeNode]
  cases m.nodes.size with
  | zero => rfl
  | succ n => rw [removeNodeTo, h]

theorem removeNode_removes (h : m.IsTree) (hne : ctx ≠ "") : m.Removes (m.removeNode ctx) {ctx} := by
  by_cases hmem : m.forest.Mem ctx
  · exact removeNodeTo_removes _ h.toWellFormed h.rooted.toLinked hne hmem le_rfl
  · have hnone : m.nodes.get? ctx = none :=
      Option.eq_none_iff_forall_ne_some.mpr fun r hr => hmem (mem_forest.mpr ⟨r, hr⟩)
    rw [removeNode_of_none hnone]
    exact ⟨h.toWellFormed, (h.rooted.prune_of_not_mem hmem).symm, .refl m, le_rfl⟩

theorem foldl_removeNode_removes : ∀ {cs : List Ctx} {m : CsManager V}, m.IsTree → "" ∉ cs →
    m.Removes (cs.foldl removeNode m) {c | c ∈ cs}
  | [], m, h, _ => by simpa using Removes.refl h.toWellFormed
  | c :: cs, m, h, hcs => by
    obtain ⟨hc, hcs⟩ : c ≠ "" ∧ "" ∉ cs := by
      rw [List.mem_cons, not_or] at hcs
      exact ⟨Ne.symm hcs.1, hcs.2⟩
    have hhead := removeNode_removes h hc
    have htail := foldl_removeNode_removes (hhead.isTree h (by simpa using hc.symm)) hcs
    have hset : {d | d ∈ c :: cs} = {c} ∪ {d | d ∈ cs} := by
      ext d
      simp
    rw [List.foldl_cons, hset]
    exact hhead.trans htail

/-! ### Steps that leave the tree as it is -/

/-- Only flags of registered nodes, new objects and queues may differ. -/
structure SameTree (m m' : CsManager V) : Prop where
  nextNode : m'.nextNode = m.nextNode
  nextList : m.nextList ≤ m'.nextList
  self : m'.self = m.self
  nodes : m'.nodes = m.nodes
  node : ∀ r, ∃ b, m'.node r = { m.node r with invalid := b }
  list : ∀ l, l < m.nextList → m'.list l = m.list l
  stale : ∀ r, (∀ c, m.nodes.get? c ≠ some r) → (m.node r).invalid = true →
    (m'.node r).invalid = true

theorem SameTree.refl (m : CsManager V) : m.SameTree m :=
  ⟨rfl, le_rfl, rfl, rfl, fun r => ⟨(m.node r).invalid, rfl⟩, fun _ _ => rfl, fun _ _ h => h⟩

theorem SameTree.trans {m'' : CsManager V} (h : m.SameTree m') (h' : m'.SameTree m'') :
    m.SameTree m'' := by
  refine ⟨h'.nextNode.trans h.nextNode, h.nextList.trans h'.nextList, h'.self.trans h.self,
    h'.nodes.trans h.nodes, fun r => ?_, fun l hl => ?_, fun r hr hinvalid => ?_⟩
  · obtain ⟨b, hb⟩ := h.node r
    obtain ⟨b', hb'⟩ := h'.node r
    exact ⟨b', by rw [hb', hb]⟩
  · rw [h'.list l (hl.trans_le h.nextList), h.list l hl]
  · exact h'.stale r (by rw [h.nodes]; exact hr) (h.stale r hr hinvalid)

theorem SameTree.forest (h : m.SameTree m') (hm : m.WellFormed) : m'.forest = m.forest := by
  refine Forest.ext (funext fun c => ?_) (funext fun c => ?_)
  · cases hr : m.nodes.get? c with
    | none => rw [parent_forest_of_none hr, parent_forest_of_none (by rw [h.nodes, hr])]
    | some r =>
      obtain ⟨b, hb⟩ := h.node r
      rw [parent_forest hr, parent_forest (by rw [h.nodes, hr]), hb]
  · cases hr : m.nodes.get? c with
    | none => rw [children_forest_of_none hr, children_forest_of_none (by rw [h.nodes, hr])]
    | some r =>
      obtain ⟨b, hb⟩ := h.node r
      rw [children_forest hr, children_forest (by rw [h.nodes, hr]), childList, childList, hb]
      exact h.list _ (hm.list_lt hr)

theorem SameTree.isTree (h : m.SameTree m') (hm : m.IsTree) : m'.IsTree := by
  have hchildren : ∀ r, (m'.node r).children = (m.node r).children := by
    intro r
    obtain ⟨b, hb⟩ := h.node r
    rw [hb]
  refine ⟨⟨fun {c r} hr => ?_, fun {c r} hr => ?_, fun {c r} hr => ?_, fun hr hr' hl => ?_, ?_, ?_⟩,
    ?_⟩
  · rw [h.nodes] at hr
    obtain ⟨b, hb⟩ := h.node r
    rw [hb]
    exact hm.ctx_eq hr
  · rw [h.nodes] at hr
    rw [h.nextNode]
    exact hm.node_lt hr
  · rw [h.nodes] at hr
    rw [hchildren]
    exact (hm.list_lt hr).trans_le h.nextList
  · rw [h.nodes] at hr hr'
    rw [hchildren, hchildren] at hl
    exact hm.list_inj hr hr' hl
  · rw [h.nodes, h.self, hm.root]
  · intro r hr hnot
    rw [h.nextNode] at hr
    rw [h.nodes] at hnot
    exact h.stale r hnot (hm.stale r hr hnot)
  · rw [h.forest hm.toWellFormed]
    exact hm.rooted

theorem sameTree_notifyNodeAdded (m : CsManager V) (r : NodeRef) :
    m.SameTree (m.notifyNodeAdded r) := by
  obtain ⟨added, posted, log, heq⟩ := notifyNodeAdded_eq m r
  rw [heq]
  exact ⟨rfl, le_rfl, rfl, rfl, fun r => ⟨(m.node r).invalid, rfl⟩, fun _ _ => rfl, fun _ _ h => h⟩

theorem sameTree_notifyNodeRemoved (m : CsManager V) (r : NodeRef) :
    m.SameTree (m.notifyNodeRemoved r) := by
  obtain ⟨removed, posted, log, heq⟩ := notifyNodeRemoved_eq m r
  rw [heq]
  exact ⟨rfl, le_rfl, rfl, rfl, fun r => ⟨(m.node r).invalid, rfl⟩, fun _ _ => rfl, fun _ _ h => h⟩

theorem sameTree_newList (m : CsManager V) (cs : List Ctx) : m.SameTree (m.newList cs) :=
  ⟨rfl, Nat.le_succ _, rfl, rfl, fun r => ⟨(m.node r).invalid, rfl⟩,
    fun _ hl => Function.update_of_ne (Nat.ne_of_lt hl) _ _, fun _ _ h => h⟩

/-- A flag may be set, and it may be taken back on a registered node. -/
theorem sameTree_setInvalid (m : CsManager V) (r : NodeRef) (b : Bool)
    (h : b = true ∨ ∃ c, m.nodes.get? c = some r) : m.SameTree (m.setInvalid r b) := by
  refine ⟨rfl, le_rfl, rfl, rfl, fun q => ?_, fun _ _ => rfl, fun q hq hinvalid => ?_⟩
  · rw [node_setInvalid]
    split_ifs with hqr
    · exact ⟨b, by rw [hqr]⟩
    · exact ⟨(m.node q).invalid, rfl⟩
  · rw [node_setInvalid]
    split_ifs with hqr
    · rcases h with h | ⟨c, hc⟩
      · exact h
      · exact absurd (hqr ▸ hc) (hq c)
    · exact hinvalid

/-- Invalidating a tree comes to its end without an error. -/
theorem invalidateTo_sameTree : ∀ (depth : ℕ) {m : CsManager V} {r : NodeRef}, m.IsTree →
    r < m.nextNode → ∃ m', invalidateTo depth m r = .ok m' ∧ m.SameTree m'
  | 0, m, r, _, _ => ⟨m, rfl, .refl m⟩
  | depth + 1, m, r, h, hr => by
    have hset := sameTree_setInvalid m r true (.inl rfl)
    have hloop : ∀ (c : Ctx) (cs : List Ctx) (m₁ : CsManager V), m.SameTree m₁ →
        (∀ d ∈ cs, d ∈ m.forest.children c) →
        ∃ m', cs.foldlM (onChild (invalidateTo depth)) m₁ = .ok m' ∧ m.SameTree m' := by
      intro c cs
      induction cs with
      | nil => exact fun m₁ hm₁ _ => ⟨m₁, rfl, hm₁⟩
      | cons d cs ih =>
        intro m₁ hm₁ hcs
        have htree := hm₁.isTree h
        have hd : m₁.forest.Mem d := by
          rw [hm₁.forest h.toWellFormed]
          exact mem_of_parent (h.rooted.parent (hcs d List.mem_cons_self))
        obtain ⟨q, hq⟩ := mem_forest.mp hd
        obtain ⟨m₂, hok, hm₂⟩ := invalidateTo_sameTree depth htree (htree.node_lt hq)
        obtain ⟨m₃, hrest, hm₃⟩ := ih m₂ (hm₁.trans hm₂) fun e he => hcs e (List.mem_cons_of_mem _ he)
        refine ⟨m₃, ?_, hm₃⟩
        rw [List.foldlM_cons, onChild, hq]
        dsimp only
        rw [hok]
        exact hrest
    rw [invalidateTo]
    split_ifs with hself hinvalid
    · rw [h.root]
      refine hloop "" (m.childList m.self) _ hset fun d hd => ?_
      rwa [children_forest h.root]
    · exact ⟨m, rfl, .refl m⟩
    · obtain ⟨c, hc⟩ : ∃ c, m.nodes.get? c = some r := by
        by_contra hnot
        exact hinvalid (h.stale r hr fun c hc => hnot ⟨c, hc⟩)
      obtain ⟨m', hok, hm'⟩ := hloop c (m.childList r) _ hset fun d hd => by
        rwa [children_forest hc]
      refine ⟨_, ?_, hm'.trans (sameTree_notifyNodeRemoved m' r)⟩
      rw [hok]
      rfl

/-! ### Steps that change the tree -/

/-- A new node comes under its parent, as the last child. -/
theorem createNode_spec (h : m.IsTree) (hctx : m.nodes.get? ctx = none) {q : NodeRef}
    (hp : m.nodes.get? p = some q) (props : Py.Dict String V) :
    (m.createNode ctx p props).2.IsTree ∧
      (m.createNode ctx p props).2.forest = m.forest.insertLeaf ctx p := by
  have hpc : p ≠ ctx := by
    rintro rfl
    rw [hctx] at hp
    exact nomatch hp
  have hq : q ≠ m.nextNode := Nat.ne_of_lt (h.node_lt hp)
  have hlist : (m.node q).children ≠ m.nextList := Nat.ne_of_lt (h.list_lt hp)
  have hnew : ctx ∉ m.childList q := by
    intro hmem
    rw [← children_forest hp] at hmem
    obtain ⟨s, hs⟩ := mem_forest.mp (mem_of_parent (h.rooted.parent hmem))
    rw [hctx] at hs
    exact nomatch hs
  let node : Node V :=
    { cls := m.defaultNodeCls, ctx := ctx, parentCtx := p, children := m.nextList,
      props := props, invalid := false }
  let m₂ : CsManager V :=
    { m with
      node := Function.update m.node m.nextNode node
      nextNode := m.nextNode + 1
      list := Function.update (Function.update m.list m.nextList []) (m.node q).children
        (m.childList q ++ [ctx])
      nextList := m.nextList + 1
      nodes := m.nodes.set ctx m.nextNode }
  have hnode : ∀ s, s ≠ m.nextNode → m₂.node s = m.node s :=
    fun s hs => Function.update_of_ne hs _ _
  have hnode' : m₂.node m.nextNode = node := Function.update_self _ _ _
  have heq : (m.createNode ctx p props).2 = m₂.notifyNodeAdded m.nextNode := by
    let m₁ : CsManager V :=
      { (m.newList []).setNode m.nextNode node with
        nextNode := m.nextNode + 1
        nodes := m.nodes.set ctx m.nextNode }
    have hget : m₁.nodes.get? p = some q := (Py.Dict.get?_set_ne _ hpc _).trans hp
    have hchildren : (m₁.node q).children = (m.node q).children :=
      congrArg Node.children (Function.update_of_ne hq _ _)
    have hsame : m₁.childList q = m.childList q := by
      rw [childList, hchildren]
      exact Function.update_of_ne hlist _ _
    have happend : m₁.appendChild q ctx = m₂ := by
      rw [appendChild, if_neg (by rw [hsame]; exact hnew), hchildren, hsame]
      rfl
    have hcreate : (m.createNode ctx p props).2 =
        (match m₁.nodes.get? p with
          | some parent => m₁.appendChild parent ctx
          | none => m₁).notifyNodeAdded m.nextNode := rfl
    rw [hcreate, hget]
    exact congrArg (notifyNodeAdded · m.nextNode) happend
  have hget : ∀ {c s}, m₂.nodes.get? c = some s →
      (c = ctx ∧ s = m.nextNode) ∨ (c ≠ ctx ∧ s ≠ m.nextNode ∧ m.nodes.get? c = some s) := by
    intro c s hs
    by_cases hc : c = ctx
    · left
      rw [hc] at hs
      exact ⟨hc, (Option.some.inj ((Py.Dict.get?_set_self _ _ _).symm.trans hs)).symm⟩
    · right
      have hs' : m.nodes.get? c = some s := (Py.Dict.get?_set_ne _ hc _).symm.trans hs
      exact ⟨hc, Nat.ne_of_lt (h.node_lt hs'), hs'⟩
  have hforest : m₂.forest = m.forest.insertLeaf ctx p := by
    refine Forest.ext (funext fun c => ?_) (funext fun c => ?_)
    · by_cases hc : c = ctx
      · subst hc
        rw [parent_forest (m := m₂) (Py.Dict.get?_set_self _ _ _), hnode', parent_insertLeaf_self]
      · rw [parent_insertLeaf_ne hc]
        cases hs : m.nodes.get? c with
        | none =>
          rw [parent_forest_of_none hs]
          exact parent_forest_of_none ((Py.Dict.get?_set_ne _ hc _).trans hs)
        | some s =>
          rw [parent_forest hs, parent_forest (m := m₂) ((Py.Dict.get?_set_ne _ hc _).trans hs),
            hnode s (Nat.ne_of_lt (h.node_lt hs))]
    · by_cases hc : c = ctx
      · subst hc
        rw [children_forest (m := m₂) (Py.Dict.get?_set_self _ _ _), childList, hnode',
          children_insertLeaf_ne hpc.symm, children_forest_of_none hctx]
        exact (Function.update_of_ne hlist.symm _ _).trans (Function.update_self _ _ _)
      · cases hs : m.nodes.get? c with
        | none =>
          have hcp : c ≠ p := by
            rintro rfl
            rw [hp] at hs
            exact nomatch hs
          rw [children_insertLeaf_ne hcp, children_forest_of_none hs]
          exact children_forest_of_none ((Py.Dict.get?_set_ne _ hc _).trans hs)
        | some s =>
          rw [children_forest (m := m₂) ((Py.Dict.get?_set_ne _ hc _).trans hs), childList,
            hnode s (Nat.ne_of_lt (h.node_lt hs))]
          by_cases hcp : c = p
          · subst hcp
            obtain rfl : q = s := Option.some.inj (hp.symm.trans hs)
            rw [children_insertLeaf_self, children_forest hp]
            exact Function.update_self _ _ _
          · rw [children_insertLeaf_ne hcp, children_forest hs]
            have hne : (m.node s).children ≠ (m.node q).children :=
              fun hsq => hcp (h.list_inj hs hp hsq)
            exact (Function.update_of_ne hne _ _).trans
              (Function.update_of_ne (Nat.ne_of_lt (h.list_lt hs)) _ _)
  have htree : m₂.IsTree := by
    refine ⟨⟨fun {c s} hs => ?_, fun {c s} hs => ?_, fun {c s} hs => ?_, ?_, ?_, ?_⟩, ?_⟩
    · rcases hget hs with ⟨rfl, rfl⟩ | ⟨-, hne, hs⟩
      · rw [hnode']
      · rw [hnode s hne, h.ctx_eq hs]
    · rcases hget hs with ⟨-, rfl⟩ | ⟨-, -, hs⟩
      · exact Nat.lt_succ_self _
      · exact (h.node_lt hs).trans (Nat.lt_succ_self _)
    · rcases hget hs with ⟨-, rfl⟩ | ⟨-, hne, hs⟩
      · rw [hnode']
        exact Nat.lt_succ_self _
      · rw [hnode s hne]
        exact (h.list_lt hs).trans (Nat.lt_succ_self _)
    · intro c c' s s' hs hs' hchildren
      rcases hget hs with ⟨hc, hsr⟩ | ⟨-, hne, hold⟩ <;>
        rcases hget hs' with ⟨hc', hsr'⟩ | ⟨-, hne', hold'⟩
      · rw [hc, hc']
      · rw [hsr, hnode', hnode s' hne'] at hchildren
        exact absurd hchildren.symm (Nat.ne_of_lt (h.list_lt hold'))
      · rw [hsr', hnode', hnode s hne] at hchildren
        exact absurd hchildren (Nat.ne_of_lt (h.list_lt hold))
      · rw [hnode s hne, hnode s' hne'] at hchildren
        exact h.list_inj hold hold' hchildren
    · have hroot : "" ≠ ctx := by
        rintro rfl
        rw [h.root] at hctx
        exact nomatch hctx
      exact (Py.Dict.get?_set_ne _ hroot _).trans h.root
    · intro s hs hnot
      have hne : s ≠ m.nextNode := by
        rintro rfl
        exact hnot ctx (Py.Dict.get?_set_self _ _ _)
      rw [hnode s hne]
      refine h.stale s (Nat.lt_of_le_of_ne (Nat.le_of_lt_succ hs) hne) fun c hc => ?_
      have hcctx : c ≠ ctx := by
        rintro rfl
        rw [hctx] at hc
        exact nomatch hc
      exact hnot c ((Py.Dict.get?_set_ne _ hcctx _).trans hc)
    · rw [hforest]
      exact h.rooted.insertLeaf (fun hmem => by simpa [hctx] using mem_forest.mp hmem)
        (mem_forest.mpr ⟨q, hp⟩)
  have hnotify := sameTree_notifyNodeAdded m₂ m.nextNode
  rw [heq]
  exact ⟨hnotify.isTree htree, (hnotify.forest htree.toWellFormed).trans hforest⟩

/-- A replaced node takes the place of the old object, with its list. -/
theorem replaceNode_spec (h : m.IsTree) (hr : m.nodes.get? c = some r) (hne : c ≠ "")
    (cls : String) :
    (m.replaceNode r cls).2.IsTree ∧ (m.replaceNode r cls).2.forest = m.forest := by
  have hctx := h.ctx_eq hr
  have hlt := h.node_lt hr
  obtain ⟨m', hm'⟩ : ∃ m', m' = (m.replaceNode r cls).2 := ⟨_, rfl⟩
  have hlist : m'.list = m.list := by rw [hm']; rfl
  have hnextNode : m'.nextNode = m.nextNode + 1 := by rw [hm']; rfl
  have hnextList : m'.nextList = m.nextList := by rw [hm']; rfl
  have hself : m'.self = m.self := by rw [hm']; rfl
  have hnodes : m'.nodes = m.nodes.set c m.nextNode := by
    rw [hm', ← hctx]
    rfl
  have hnode : m'.node = Function.update (Function.update m.node m.nextNode
      { m.node r with cls := cls }) r { m.node r with invalid := true } := by
    have hold : Function.update m.node m.nextNode { m.node r with cls := cls } r = m.node r :=
      Function.update_of_ne (Nat.ne_of_lt hlt) _ _
    rw [hm']
    exact congrArg (fun n => Function.update (Function.update m.node m.nextNode
      { m.node r with cls := cls }) r { n with invalid := true }) hold
  have hnew : m'.node m.nextNode = { m.node r with cls := cls } := by
    rw [hnode, Function.update_of_ne (Nat.ne_of_gt hlt), Function.update_self]
  have hother : ∀ s, s ≠ m.nextNode → s ≠ r → m'.node s = m.node s := by
    intro s hs hsr
    rw [hnode, Function.update_of_ne hsr, Function.update_of_ne hs]
  -- under each context stands an object with the attributes of the old one
  have hget : ∀ {d s}, m'.nodes.get? d = some s → ∃ q, m.nodes.get? d = some q ∧
      s < m'.nextNode ∧ ∃ k, m'.node s = { m.node q with cls := k } := by
    intro d s hs
    rw [hnodes] at hs
    rw [hnextNode]
    by_cases hd : d = c
    · rw [hd, Py.Dict.get?_set_self] at hs
      obtain rfl := Option.some.inj hs
      exact ⟨r, hd ▸ hr, Nat.lt_succ_self _, cls, hnew⟩
    · rw [Py.Dict.get?_set_ne _ hd] at hs
      have hsr : s ≠ r := by
        rintro rfl
        exact hd (h.ref_inj hs hr)
      have hlt' := h.node_lt hs
      exact ⟨s, hs, hlt'.trans (Nat.lt_succ_self _), (m.node s).cls,
        hother s (Nat.ne_of_lt hlt') hsr⟩
  have hnone : ∀ {d}, m'.nodes.get? d = none → m.nodes.get? d = none := by
    intro d hd
    rw [hnodes] at hd
    by_cases hdc : d = c
    · rw [hdc, Py.Dict.get?_set_self] at hd
      exact nomatch hd
    · rwa [Py.Dict.get?_set_ne _ hdc] at hd
  have hforest : m'.forest = m.forest := by
    refine Forest.ext (funext fun d => ?_) (funext fun d => ?_)
    · cases hd : m'.nodes.get? d with
      | none => rw [parent_forest_of_none hd, parent_forest_of_none (hnone hd)]
      | some s =>
        obtain ⟨q, hq, -, k, hk⟩ := hget hd
        rw [parent_forest hd, parent_forest hq, hk]
    · cases hd : m'.nodes.get? d with
      | none => rw [children_forest_of_none hd, children_forest_of_none (hnone hd)]
      | some s =>
        obtain ⟨q, hq, -, k, hk⟩ := hget hd
        rw [children_forest hd, children_forest hq, childList, childList, hk, hlist]
  rw [← hm']
  refine ⟨⟨⟨fun hs => ?_, fun hs => ?_, fun hs => ?_, fun hs hs' hchildren => ?_, ?_, ?_⟩, ?_⟩,
    hforest⟩
  · obtain ⟨q, hq, -, k, hk⟩ := hget hs
    rw [hk]
    exact h.ctx_eq hq
  · obtain ⟨q, -, hs, -⟩ := hget hs
    exact hs
  · obtain ⟨q, hq, -, k, hk⟩ := hget hs
    rw [hk, hnextList]
    exact h.list_lt hq
  · obtain ⟨q, hq, -, k, hk⟩ := hget hs
    obtain ⟨q', hq', -, k', hk'⟩ := hget hs'
    rw [hk, hk'] at hchildren
    exact h.list_inj hq hq' hchildren
  · rw [hnodes, hself, Py.Dict.get?_set_ne _ hne.symm, h.root]
  · intro s hs hnot
    rw [hnextNode] at hs
    rw [hnodes] at hnot
    have hsn : s ≠ m.nextNode := by
      rintro rfl
      exact hnot c (Py.Dict.get?_set_self _ _ _)
    by_cases hsr : s = r
    · rw [hsr, hnode, Function.update_self]
    · rw [hother s hsn hsr]
      refine h.stale s (Nat.lt_of_le_of_ne (Nat.le_of_lt_succ hs) hsn) fun d hd => ?_
      by_cases hdc : d = c
      · rw [hdc, hr] at hd
        exact hsr (Option.some.inj hd).symm
      · exact hnot d ((Py.Dict.get?_set_ne _ hdc _).trans hd)
  · rw [hforest]
    exact h.rooted

/-- The stored list names children of the node, each once: they stay, in its order. -/
theorem setChildren_spec (h : m.IsTree) (hr : m.nodes.get? p = some r) (hl : l < m.nextList)
    (hunowned : ∀ c q, m.nodes.get? c = some q → (m.node q).children = l → q = r)
    (hnodup : (m.list l).Nodup) (hsub : ∀ c ∈ m.list l, c ∈ m.childList r) :
    (m.setChildren r l).IsTree ∧ (m.setChildren r l).forest =
      (m.forest.prune {c | c ∈ m.childList r ∧ c ∉ m.list l}).setChildren p (m.list l) := by
  have hchild : m.forest.children p = m.childList r := children_forest hr
  obtain ⟨cs, hcs⟩ : ∃ cs, cs = (m.childList r).filter fun child => child ∉ m.list l := ⟨_, rfl⟩
  have hmem : ∀ c, c ∈ cs ↔ c ∈ m.childList r ∧ c ∉ m.list l := by
    intro c
    rw [hcs, List.mem_filter, decide_eq_true_eq]
  have hset : {c | c ∈ cs} = {c | c ∈ m.childList r ∧ c ∉ m.list l} := Set.ext hmem
  have hS : ∀ c ∈ {c | c ∈ cs}, c ∈ m.forest.children p := by
    intro c hc
    rw [hchild]
    exact ((hmem c).mp hc).1
  have hroot : "" ∉ cs := fun hc => h.rooted.ne_root (hS "" hc) rfl
  obtain ⟨m₁, hm₁⟩ : ∃ m₁, m₁ = cs.foldl removeNode m := ⟨_, rfl⟩
  have hremoves : m.Removes m₁ {c | c ∈ cs} := hm₁ ▸ foldl_removeNode_removes h hroot
  have htree : m₁.IsTree := hremoves.isTree h hroot
  have hr₁ : m₁.nodes.get? p = some r := by
    have hp : m₁.forest.Mem p := by
      rw [hremoves.forest, mem_prune]
      exact ⟨mem_forest.mpr ⟨r, hr⟩, h.rooted.not_belowAny hS⟩
    obtain ⟨q, hq⟩ := mem_forest.mp hp
    rw [hq, ← hr, hremoves.shrinks.nodes hq]
  have hlist : m₁.list l = m.list l := by
    by_cases howned : (m.node r).children = l
    · -- nothing is removed when a node is given its own list
      have hnil : cs = [] := by
        refine List.eq_nil_iff_forall_not_mem.mpr fun c hc => ?_
        rw [hmem, childList, howned] at hc
        exact hc.2 hc.1
      rw [hm₁, hnil]
      rfl
    · refine hremoves.shrinks.list fun c q hq hql => howned ?_
      rw [← hunowned c q hq hql]
      exact hql
  have hperm : (m.list l).Perm (m₁.forest.children p) := by
    refine (List.perm_ext_iff_of_nodup hnodup (htree.rooted.nodup p)).mpr fun c => ?_
    rw [hremoves.forest, h.rooted.mem_children_prune hS, hchild]
    constructor
    · exact fun hc => ⟨hsub c hc, fun hcs => ((hmem c).mp hcs).2 hc⟩
    · rintro ⟨hc, hnot⟩
      by_contra hcl
      exact hnot ((hmem c).mpr ⟨hc, hcl⟩)
  have hresult : m.setChildren r l = m₁.setNode r { m₁.node r with children := l } := by
    rw [setChildren, hm₁, hcs]
  obtain ⟨m₂, hm₂⟩ : ∃ m₂, m₂ = m₁.setNode r { m₁.node r with children := l } := ⟨_, rfl⟩
  have hnode : m₂.node r = { m₁.node r with children := l } := by
    rw [hm₂]
    exact Function.update_self _ _ _
  have hother : ∀ s, s ≠ r → m₂.node s = m₁.node s := by
    intro s hs
    rw [hm₂]
    exact Function.update_of_ne hs _ _
  have hsame : ∀ s, (m₂.node s).ctx = (m₁.node s).ctx ∧
      (m₂.node s).parentCtx = (m₁.node s).parentCtx ∧
      (m₂.node s).invalid = (m₁.node s).invalid := by
    intro s
    by_cases hs : s = r
    · rw [hs, hnode]
      exact ⟨rfl, rfl, rfl⟩
    · rw [hother s hs]
      exact ⟨rfl, rfl, rfl⟩
  have hnodes : m₂.nodes = m₁.nodes := by rw [hm₂]; rfl
  have hlists : m₂.list = m₁.list := by rw [hm₂]; rfl
  have hforest : m₂.forest = m₁.forest.setChildren p (m.list l) := by
    refine Forest.ext (funext fun c => ?_) (funext fun c => ?_)
    · rw [parent_setChildren]
      cases hs : m₁.nodes.get? c with
      | none => rw [parent_forest_of_none hs, parent_forest_of_none (by rw [hnodes, hs])]
      | some s => rw [parent_forest hs, parent_forest (by rw [hnodes, hs]), (hsame s).2.1]
    · by_cases hc : c = p
      · rw [hc, children_setChildren_self, children_forest (by rw [hnodes, hr₁]), childList, hnode,
          hlists, hlist]
      · rw [children_setChildren_ne hc]
        cases hs : m₁.nodes.get? c with
        | none => rw [children_forest_of_none hs, children_forest_of_none (by rw [hnodes, hs])]
        | some s =>
          have hsr : s ≠ r := by
            rintro rfl
            exact hc (htree.ref_inj hs hr₁)
          rw [children_forest hs, children_forest (by rw [hnodes, hs]), childList, childList,
            hother s hsr, hlists]
  have hfree : ∀ {c s}, m₁.nodes.get? c = some s → s ≠ r → (m₁.node s).children ≠ l := by
    intro c s hs hsr hsl
    rw [hremoves.shrinks.children] at hsl
    exact hsr (hunowned c s (hremoves.shrinks.nodes hs) hsl)
  rw [hresult, ← hm₂, ← hset, ← hremoves.forest]
  refine ⟨⟨⟨fun {c s} hs => ?_, fun {c s} hs => ?_, fun {c s} hs => ?_, ?_, ?_, ?_⟩, ?_⟩, hforest⟩
  · rw [hnodes] at hs
    rw [(hsame s).1, htree.ctx_eq hs]
  · rw [hnodes] at hs
    rw [hm₂]
    exact htree.node_lt hs
  · rw [hnodes] at hs
    have hnextList : m₂.nextList = m₁.nextList := by rw [hm₂]; rfl
    rw [hnextList]
    by_cases hsr : s = r
    · rw [hsr, hnode, hremoves.shrinks.nextList]
      exact hl
    · rw [hother s hsr]
      exact htree.list_lt hs
  · intro c c' s s' hs hs' hchildren
    rw [hnodes] at hs hs'
    by_cases hsr : s = r <;> by_cases hsr' : s' = r
    · rw [hsr] at hs
      rw [hsr'] at hs'
      exact htree.ref_inj hs hs'
    · rw [hsr, hnode, hother s' hsr'] at hchildren
      exact absurd hchildren.symm (hfree hs' hsr')
    · rw [hsr', hnode, hother s hsr] at hchildren
      exact absurd hchildren (hfree hs hsr)
    · rw [hother s hsr, hother s' hsr'] at hchildren
      exact htree.list_inj hs hs' hchildren
  · rw [hnodes, htree.root, hm₂]
    rfl
  · intro s hs hnot
    rw [hnodes] at hnot
    rw [(hsame s).2.2]
    refine htree.stale s ?_ hnot
    rw [hm₂] at hs
    exact hs
  · rw [hforest]
    exact htree.rooted.setChildren hperm

end CsManager

end Chipscopy.Dm
