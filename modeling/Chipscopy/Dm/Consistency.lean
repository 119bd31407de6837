import Chipscopy.Dm.Tree

/-! Consistency of a manager over its calls

    The tree stays consistent over any calls as long as a known context is added under the parent
    it has, a new one under a parent that is there, and `set_children` is given a list of its own
    that names children of its node. A context that is added under another parent comes back as a
    node without children, and its old parent goes on listing it. -/

namespace Chipscopy.Dm

open Forest

/-- `set_children` takes a node or its context. -/
inductive ParentArg
  | node (r : NodeRef)
  | ctx (c : Ctx)
  deriving DecidableEq, Repr

/-- Calls of a client. `newList` makes the list object that `set_children` is given. -/
inductive Op
  | newList (cs : List Ctx)
  | addNode (ctx parentCtx : Ctx)
  | removeNode (ctx : Ctx)
  | setChildren (parent : ParentArg) (children : ListRef)
  | upgradeNode (node : NodeRef) (upgradeCls : String)
  | degradeNode (node : NodeRef)
  | invalidate (node : NodeRef)
  deriving DecidableEq, Repr

namespace CsManager

variable {V : Type} {m m' : CsManager V} {ctx c p : Ctx} {r : NodeRef} {l : ListRef} {op : Op}
  {ops : List Op}

/-- The node that a parent argument stands for. -/
def parentArg (m : CsManager V) : ParentArg → Option NodeRef
  | .node r => some r
  | .ctx c => m.nodes.get? c

def apply (m : CsManager V) : Op → Except Py.Error (CsManager V)
  | .newList cs => .ok (m.newList cs)
  | .addNode ctx parentCtx => (m.addNode ctx parentCtx).map (·.2)
  | .removeNode ctx => .ok (m.removeNode ctx)
  | .setChildren (.node r) children => .ok (m.setChildren r children)
  | .setChildren (.ctx c) children =>
    match m.nodes.get? c with
    | some r => .ok (m.setChildren r children)
    | none => .error (.keyError c)
  | .upgradeNode r cls => .ok (m.upgradeNode r cls).2
  | .degradeNode r => .ok (m.degradeNode r).2
  | .invalidate r => m.invalidate r

def run (m : CsManager V) (ops : List Op) : Except Py.Error (CsManager V) := ops.foldlM apply m

/-! ### What is expected -/

/-- The copies of the tree agree, and `remove_all` takes it down to the root. -/
structure Consistent (m : CsManager V) : Prop where
  listed : ∀ c r, m.nodes.get? c = some r → (m.node r).invalid = false → c ≠ "" →
    ∃ p, m.nodes.get? (m.node r).parentCtx = some p ∧ (m.childList p).count c = 1 ∧
      ∀ d q, m.nodes.get? d = some q → d ≠ (m.node r).parentCtx → c ∉ m.childList q
  getChildren : ∀ p r, m.nodes.get? p = some r → ∀ child ∈ m.getChildren r,
    ∃ q ∈ m.nodes.values, child = some q ∧ (m.node q).parentCtx = p
  removeAll : ∃ rounds m', m.removeAll rounds = some m' ∧ m'.nodes.keys = [""]

/-- A known context that is added keeps what hangs below it. -/
def KeepsSubtree (m : CsManager V) (op : Op) (m' : CsManager V) : Prop :=
  ∀ c p, op = .addNode c p → m.forest.Mem c → ∀ d, m.forest.Mem d → m.forest.Below c d →
    m'.forest.Below c d ∧ m'.forest.children d = m.forest.children d

/-- No call of a run raises, and the tree is consistent before and after each. -/
def RunsConsistently (m : CsManager V) : List Op → Prop
  | [] => m.Consistent
  | op :: ops => m.Consistent ∧
      ∃ m', m.apply op = .ok m' ∧ m.KeepsSubtree op m' ∧ m'.RunsConsistently ops

/-! ### Calls that keep the tree consistent -/

/-- A condition on a call and the state before it. -/
def Orderly (m : CsManager V) : Op → Prop
  | .newList _ => True
  | .addNode ctx parentCtx => (∃ r ∈ m.nodes.get? ctx, (m.node r).parentCtx = parentCtx) ∨
      (ctx ∉ m.nodes.keys ∧ parentCtx ∈ m.nodes.keys)
  | .removeNode ctx => ctx ≠ ""
  | .setChildren parent l => l < m.nextList ∧ ∃ r ∈ m.nodes.values, m.parentArg parent = some r ∧
      (∀ q ∈ m.nodes.values, (m.node q).children = l → q = r) ∧
      (m.list l).Nodup ∧ ∀ c ∈ m.list l, c ∈ m.childList r
  | .upgradeNode r _ => r ∈ m.nodes.values ∧ r ≠ m.self
  | .degradeNode r => r ∈ m.nodes.values ∧ r ≠ m.self
  | .invalidate r => r < m.nextNode

instance (m : CsManager V) : DecidablePred m.Orderly
  | .newList _ => inferInstanceAs (Decidable True)
  | .addNode _ _ => inferInstanceAs (Decidable (_ ∨ _))
  | .removeNode ctx => inferInstanceAs (Decidable (ctx ≠ ""))
  | .setChildren _ _ => inferInstanceAs (Decidable (_ ∧ _))
  | .upgradeNode _ _ => inferInstanceAs (Decidable (_ ∧ _))
  | .degradeNode _ => inferInstanceAs (Decidable (_ ∧ _))
  | .invalidate _ => inferInstanceAs (Decidable (_ < _))

/-- Every call of a run meets a condition in the state in which it is made. -/
def EachOp (P : CsManager V → Op → Prop) (m : CsManager V) : List Op → Prop
  | [] => True
  | op :: ops => P m op ∧
    match m.apply op with
    | .ok m' => m'.EachOp P ops
    | .error _ => True

instance decidableEachOp (P : CsManager V → Op → Prop) [∀ m, DecidablePred (P m)] :
    ∀ (m : CsManager V) (ops : List Op), Decidable (m.EachOp P ops)
  | _, [] => inferInstanceAs (Decidable True)
  | m, op :: ops =>
    have : Decidable (match m.apply op with
        | .ok m' => m'.EachOp P ops
        | .error _ => True) :=
      match m.apply op with
      | .ok m' => decidableEachOp P m' ops
      | .error _ => inferInstanceAs (Decidable True)
    inferInstanceAs (Decidable (_ ∧ _))

theorem mem_keys_iff : c ∈ m.nodes.keys ↔ ∃ r, m.nodes.get? c = some r := by
  rw [← not_iff_not, ← Py.Dict.get?_eq_none_iff, Option.eq_none_iff_forall_ne_some, not_exists]

theorem mem_values_iff : r ∈ m.nodes.values ↔ ∃ c, m.nodes.get? c = some r := by
  rw [Py.Dict.values, List.mem_map]
  constructor
  · rintro ⟨e, he, rfl⟩
    exact ⟨e.1, (Py.Dict.get?_eq_some_iff _).mpr he⟩
  · rintro ⟨c, hc⟩
    exact ⟨(c, r), (Py.Dict.get?_eq_some_iff _).mp hc, rfl⟩

theorem apply_setChildren {parent : ParentArg} (h : m.parentArg parent = some r) (l : ListRef) :
    m.apply (.setChildren parent l) = .ok (m.setChildren r l) := by
  cases parent with
  | node q =>
    obtain rfl := Option.some.inj h
    rfl
  | ctx c =>
    have hc : m.nodes.get? c = some r := h
    rw [CsManager.apply, hc]

/-- Adding a context that is known under this parent leaves the tree as it is. -/
theorem addNode_known (hr : m.nodes.get? ctx = some r) :
    ∃ m', m.addNode ctx (m.node r).parentCtx = .ok (r, m') ∧ m.SameTree m' := by
  rw [addNode, hr]
  dsimp only
  rw [if_neg (not_not.mpr rfl)]
  split_ifs
  · exact ⟨_, rfl, (sameTree_setInvalid m r false (.inr ⟨ctx, hr⟩)).trans
      (sameTree_notifyNodeAdded _ r)⟩
  · exact ⟨m, rfl, .refl m⟩

/-- What a call that meets the condition does to the tree. -/
theorem IsTree.apply (h : m.IsTree) (hop : m.Orderly op) :
    ∃ m', m.apply op = .ok m' ∧ m'.IsTree ∧ m.KeepsSubtree op m' := by
  -- a call that is no `add_node` has nothing to keep
  have hother : ∀ m', (∀ c p, op ≠ .addNode c p) → m.KeepsSubtree op m' :=
    fun m' hne c p hop => absurd hop (hne c p)
  cases op with
  | newList cs => exact ⟨_, rfl, (sameTree_newList m cs).isTree h, hother _ (by simp)⟩
  | addNode ctx parentCtx =>
    rcases hop with ⟨r, hr, rfl⟩ | ⟨hctx, hparent⟩
    · obtain ⟨m', hok, hm'⟩ := addNode_known hr
      refine ⟨m', by rw [CsManager.apply, hok]; rfl, hm'.isTree h, fun c p _ _ d _ hbelow => ?_⟩
      rw [hm'.forest h.toWellFormed]
      exact ⟨hbelow, rfl⟩
    · obtain ⟨q, hq⟩ := mem_keys_iff.mp hparent
      have hnone : m.nodes.get? ctx = none := (Py.Dict.get?_eq_none_iff _).mpr hctx
      have hspec := createNode_spec h hnone hq .empty
      refine ⟨_, by rw [CsManager.apply, addNode, hnone]; rfl, hspec.1, fun c p hcp hmem => ?_⟩
      obtain ⟨rfl, rfl⟩ := Op.addNode.inj hcp
      obtain ⟨r, hr⟩ := mem_forest.mp hmem
      rw [hnone] at hr
      exact nomatch hr
  | removeNode ctx =>
    have hremoves := removeNode_removes h hop
    exact ⟨_, rfl, hremoves.isTree h (by simpa using Ne.symm hop), hother _ (by simp)⟩
  | setChildren parent l =>
    obtain ⟨hl, r, hr, hparent, hfree, hnodup, hsub⟩ := hop
    obtain ⟨p, hp⟩ := mem_values_iff.mp hr
    have hspec := setChildren_spec h hp hl (fun c q hq => hfree q (mem_values_iff.mpr ⟨c, hq⟩))
      hnodup hsub
    refine ⟨m.setChildren r l, apply_setChildren hparent l, hspec.1, hother _ (by simp)⟩
  | upgradeNode r cls =>
    obtain ⟨c, hc⟩ := mem_values_iff.mp hop.1
    have hne : c ≠ "" := by
      rintro rfl
      exact hop.2 (Option.some.inj (hc.symm.trans h.root))
    exact ⟨_, rfl, (replaceNode_spec h hc hne cls).1, hother _ (by simp)⟩
  | degradeNode r =>
    obtain ⟨c, hc⟩ := mem_values_iff.mp hop.1
    have hne : c ≠ "" := by
      rintro rfl
      exact hop.2 (Option.some.inj (hc.symm.trans h.root))
    exact ⟨_, rfl, (replaceNode_spec h hc hne "Node").1, hother _ (by simp)⟩
  | invalidate r =>
    obtain ⟨m', hok, hm'⟩ := invalidateTo_sameTree m.nextNode h hop
    exact ⟨m', hok, hm'.isTree h, hother _ (by simp)⟩

/-! ### A tree is consistent -/

/-- A tree whose root lists nothing has no other key. -/
theorem IsTree.keys_eq (h : m.IsTree) (hnil : m.childList m.self = []) : m.nodes.keys = [""] := by
  have hchildren : m.forest.children "" = [] := (children_forest h.root).trans hnil
  have honly : ∀ {c}, m.forest.Below "" c → c = "" := by
    intro c hbelow
    induction hbelow with
    | self => rfl
    | @child c p hp _ ih =>
      by_contra hne
      subst ih
      have hmem := h.rooted.listed hp hne (mem_of_parent h.rooted.parent_root)
      rw [hchildren] at hmem
      exact nomatch hmem
  have hkeys : ∀ c, c ∈ m.nodes.keys ↔ c ∈ [""] := by
    intro c
    rw [mem_keys_iff, List.mem_singleton]
    constructor
    · exact fun hc => honly (h.rooted.grounded (mem_forest.mpr hc))
    · rintro rfl
      exact ⟨m.self, h.root⟩
  exact List.perm_singleton.mp
    ((List.perm_ext_iff_of_nodup m.nodes.nodup (List.nodup_singleton _)).mpr hkeys)

/-- Each round takes the first child of the root away. -/
theorem IsTree.exists_removeAll : ∀ (n : ℕ) {m : CsManager V}, m.IsTree →
    (m.childList m.self).length ≤ n → ∃ rounds m', m.removeAll rounds = some m' ∧
      m'.nodes.keys = [""]
  | n, m, h, hn => by
    cases hcs : m.childList m.self with
    | nil => exact ⟨1, m, by rw [removeAll, hcs], h.keys_eq hcs⟩
    | cons c cs =>
      have hchild : m.forest.children "" = c :: cs := (children_forest h.root).trans hcs
      have hc : c ∈ m.forest.children "" := by simp [hchild]
      have hne := h.rooted.ne_root hc
      have hremoves := removeNode_removes h hne
      have htree := hremoves.isTree h (by simpa using hne.symm)
      have hchildren : (m.removeNode c).childList (m.removeNode c).self =
          (m.forest.prune {c}).children "" := by
        rw [← children_forest htree.root, hremoves.forest]
      have hlt : ((m.removeNode c).childList (m.removeNode c).self).length ≤ cs.length := by
        have hnot : ¬ m.forest.BelowAny {c} "" := h.rooted.not_belowAny (by simpa using hc)
        rw [hchildren, children_prune hnot, hchild, List.filter_cons_of_neg]
        · exact List.length_filter_le _ _
        · simpa using ⟨c, rfl, Below.self⟩
      rw [hcs, List.length_cons] at hn
      cases n with
      | zero => omega
      | succ n =>
        obtain ⟨rounds, m', hok, hkeys⟩ := IsTree.exists_removeAll n htree (hlt.trans (by omega))
        exact ⟨rounds + 1, m', by rw [removeAll, hcs]; exact hok, hkeys⟩

theorem IsTree.consistent (h : m.IsTree) : m.Consistent := by
  constructor
  · intro c r hr _ hne
    have hparent := parent_forest hr
    obtain ⟨p, hp⟩ := mem_forest.mp (h.rooted.mem_parent hparent)
    have hmem := h.rooted.listed hparent hne (mem_forest.mpr ⟨p, hp⟩)
    refine ⟨p, hp, ?_, fun d q hq hd hcq => ?_⟩
    · rw [← children_forest hp]
      exact List.count_eq_one_of_mem (h.rooted.nodup _) hmem
    · rw [← children_forest hq] at hcq
      have hcd := h.rooted.parent hcq
      rw [hparent] at hcd
      exact hd (Option.some.inj hcd).symm
  · intro p r hr child hchild
    obtain ⟨c, hc, rfl⟩ := List.mem_map.mp hchild
    rw [← children_forest hr] at hc
    have hparent := h.rooted.parent hc
    obtain ⟨q, hq⟩ := mem_forest.mp (mem_of_parent hparent)
    rw [parent_forest hq] at hparent
    exact ⟨q, mem_values_iff.mpr ⟨c, hq⟩, hq, Option.some.inj hparent⟩
  · exact h.exists_removeAll _ le_rfl

/-! ### Runs -/

theorem isTree_init (V : Type) : (init V).IsTree := by
  have hget : ∀ {c r}, (init V).nodes.get? c = some r → c = "" ∧ r = 0 := by
    intro c r hr
    by_cases hc : c = ""
    · rw [hc] at hr
      exact ⟨hc, (Option.some.inj ((Py.Dict.get?_set_self _ _ _).symm.trans hr)).symm⟩
    · have hr' := (Py.Dict.get?_set_ne _ hc _).symm.trans hr
      exact nomatch hr'
  have hroot : (init V).nodes.get? "" = some 0 := Py.Dict.get?_set_self _ _ _
  have hmem : ∀ {c}, (init V).forest.Mem c → c = "" := by
    intro c hc
    obtain ⟨r, hr⟩ := mem_forest.mp hc
    exact (hget hr).1
  have hnil : ∀ c, (init V).forest.children c = [] := by
    intro c
    cases hr : (init V).nodes.get? c with
    | none => exact children_forest_of_none hr
    | some r => exact children_forest hr
  refine ⟨⟨fun {c r} hr => (hget hr).1.symm, fun {c r} hr => ?_, fun _ => Nat.one_pos, ?_, hroot, ?_⟩,
    ⟨⟨?_, ?_, ?_, ?_, ?_, ?_, ?_⟩, ?_, ?_⟩⟩
  · rw [(hget hr).2]
    exact Nat.one_pos
  · intro c c' r r' hr hr' _
    rw [(hget hr).1, (hget hr').1]
  · intro r hr hnot
    have hr0 : r = 0 := Nat.lt_one_iff.mp hr
    exact absurd hroot (hr0 ▸ hnot "")
  · exact fun hcp hne _ => absurd (hmem (mem_of_parent hcp)) hne
  · exact fun hc => absurd hc (by simp [hnil])
  · exact fun hc => absurd hc (by simp [hnil])
  · exact fun hc => absurd hc (by simp [hnil])
  · exact fun p => by simp [hnil]
  · exact fun hc => hmem (mem_of_parent hc)
  · intro p hp
    rw [parent_forest hroot] at hp
    exact (Option.some.inj hp).symm
  · exact parent_forest hroot
  · intro c hc
    rw [hmem hc]
    exact .self

theorem IsTree.runsConsistently : ∀ {ops : List Op} {m : CsManager V}, m.IsTree →
    m.EachOp Orderly ops → m.RunsConsistently ops
  | [], _, h, _ => h.consistent
  | op :: ops, m, h, ⟨hop, hops⟩ => by
    obtain ⟨m', hok, hm', hkeeps⟩ := h.apply hop
    rw [hok] at hops
    exact ⟨h.consistent, m', hok, hkeeps, hm'.runsConsistently hops⟩

/-- Over any calls that meet the condition the tree stays consistent. -/
theorem runsConsistently_of_orderly (V : Type) (ops : List Op) (h : (init V).EachOp Orderly ops) :
    (init V).RunsConsistently ops := (isTree_init V).runsConsistently h

/-- A device with two children loses one that the server no longer reports, and is converted. -/
theorem runsConsistently_device :
    (init Unit).EachOp Orderly [.addNode "dev" "", .addNode "mem" "dev", .addNode "ila" "dev",
        .newList ["ila"], .setChildren (.ctx "dev") 4, .upgradeNode 1 "Device", .invalidate 4,
        .addNode "dev" "", .removeNode "dev"] ∧
      (init Unit).RunsConsistently [.addNode "dev" "", .addNode "mem" "dev", .addNode "ila" "dev",
        .newList ["ila"], .setChildren (.ctx "dev") 4, .upgradeNode 1 "Device", .invalidate 4,
        .addNode "dev" "", .removeNode "dev"] :=
  ⟨by decide +kernel, runsConsistently_of_orderly Unit _ (by decide +kernel)⟩

theorem RunsConsistently.run : ∀ {ops : List Op} {m : CsManager V}, m.RunsConsistently ops →
    ∃ m', m.run ops = .ok m' ∧ m'.Consistent
  | [], m, h => ⟨m, rfl, h⟩
  | op :: ops, m, h => by
    obtain ⟨-, m', hok, -, hrest⟩ := h
    obtain ⟨m'', hrun, hm''⟩ := hrest.run
    refine ⟨m'', ?_, hm''⟩
    rw [CsManager.run, List.foldlM_cons, hok]
    exact hrun

/-- A node that comes back under another parent is listed by both. -/
theorem not_runsConsistently_reAdd :
    ¬ (init Unit).RunsConsistently
      [.addNode "a" "", .addNode "b" "", .addNode "c" "a", .addNode "a" "b"] := by
  intro h
  obtain ⟨m, hrun, hm⟩ := h.run
  have hfacts : ((init Unit).run
      [.addNode "a" "", .addNode "b" "", .addNode "c" "a", .addNode "a" "b"]).toOption.map
        (fun m => (m.nodes.get? "a", m.nodes.get? "", (m.node 4).invalid, (m.node 4).parentCtx,
          m.childList 0)) = some (some 4, some 0, false, "b", ["a", "b"]) := by
    decide +kernel
  rw [hrun] at hfacts
  simp only [Except.toOption, Option.map_some, Option.some.injEq, Prod.mk.injEq] at hfacts
  obtain ⟨ha, hroot, hvalid, hparent, hlist⟩ := hfacts
  obtain ⟨p, -, -, hother⟩ := hm.listed "a" 4 ha hvalid (by decide)
  exact hother "" 0 hroot (by rw [hparent]; decide) (by rw [hlist]; decide)

end CsManager

end Chipscopy.Dm
