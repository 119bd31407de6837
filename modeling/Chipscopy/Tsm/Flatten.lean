import Chipscopy.Tsm.ConditionList

/-! Flattening of conditions

    A condition is parsed as a tree of compares, parentheses and a binary `&&` / `||` of one
    precedence that associates to the left. The visitor drops the parentheses and rejects the
    shapes that a flat condition cannot express. It misses one: a counter compare in front of two
    or more operands, joined to the first of them by another operator than the one between them.
    For every other accepted tree the flat condition has the meaning of the tree. -/

namespace Chipscopy.Tsm

/-- Syntax tree of a condition. -/
inductive Condition
  | probeMatch (mu : ILATsmMatchUnit)
  | counterMatch (cmp : ILATsmCounterCompare)
  | logicOp (left : Condition) (op : LogicOp) (right : Condition)
  | paren (inner : Condition)

/-- Flat list of a condition and the errors found in it; `hasParentOp` is true for an operand. -/
def visitCondition (hasParentOp : Bool) : Condition → ConditionList × List String
  | .probeMatch mu => (⟨.probe mu, []⟩, [])
  | .counterMatch cmp => (⟨.counter cmp, []⟩, [])
  | .logicOp left op right =>
    let (l, errors) := visitCondition true left
    let (l', errors') := visitCondition true right
    (l.append op l', errors ++ errors')
  | .paren inner =>
    let (l, errors) := visitCondition false inner
    let hasCounter := l.operands.any Operand.isCounter
    let hasProbe := l.operands.any Operand.isProbe
    if hasCounter && hasProbe && hasParentOp then
      (l, errors ++ ["Counter expression can not be together with a probe expression," ++
        " inside nested parentheses."])
    else (l, errors)

def visitFullCondition (c : Condition) : ConditionList × List String :=
  let (l, errors) := visitCondition false c
  (l, errors ++ verifyCondition l)

/-! ### Meaning -/

/-- Truth of every compare. -/
structure Assignment where
  probe : ILATsmMatchUnit → Bool
  counter : ILATsmCounterCompare → Bool

def Condition.holds (v : Assignment) : Condition → Bool
  | .probeMatch mu => v.probe mu
  | .counterMatch cmp => v.counter cmp
  | .logicOp left op right => op.eval (left.holds v) (right.holds v)
  | .paren inner => inner.holds v

/-- A list of compares joined by one operator. -/
def LogicOp.join {α : Type*} (o : LogicOp) (f : α → Bool) (mus : List α) : Bool :=
  match o with
  | .and => mus.all f
  | .or => mus.any f

/-- The match units combine the probe compares by the mapper operator; the counter comparator tests
    for equality, so its output is inverted for a `!=`. -/
def ILATsmCondition.holds (v : Assignment) (cond : ILATsmCondition) : Bool :=
  let inCounterMux :=
    match cond.counterCompare with
    | some cmp => if cmp.compareOp = .neq then !v.counter cmp else v.counter cmp
    | none => false
  cond.evalCondition (cond.getMapperProbeOperator.join v.probe cond.matchUnits) inCounterMux

def Condition.isLogicOp : Condition → Bool
  | .logicOp .. => true
  | _ => false

/-- The grammar makes no operator the right operand of another one without parentheses. -/
def Condition.LeftAssoc : Condition → Prop
  | .probeMatch _ | .counterMatch _ => True
  | .logicOp left _ right => left.LeftAssoc ∧ right.LeftAssoc ∧ right.isLogicOp = false
  | .paren inner => inner.LeftAssoc

/-- The operators on the left spine of a condition whose first compare is on a counter. -/
def Condition.counterSpine : Condition → Option (List LogicOp)
  | .probeMatch _ => none
  | .counterMatch _ => some []
  | .logicOp left op _ => left.counterSpine.map (· ++ [op])
  | .paren inner => inner.counterSpine

/-- A counter compare stands first, and of the operators that follow it in turn the first one
    differs from the second. -/
def Condition.CounterFirstMixed (c : Condition) : Prop :=
  ∃ op o ops, c.counterSpine = some (op :: o :: ops) ∧ op ≠ o

/-! ### Meaning of the accepted shapes -/

@[simp] theorem LogicOp.join_singleton (o : LogicOp) (f : ILATsmMatchUnit → Bool)
    (mu : ILATsmMatchUnit) : o.join f [mu] = f mu := by cases o <;> simp [LogicOp.join]

theorem LogicOp.join_append (o : LogicOp) (f : ILATsmMatchUnit → Bool)
    (mus mus' : List ILATsmMatchUnit) :
    o.join f (mus ++ mus') = o.eval (o.join f mus) (o.join f mus') := by
  cases o
  · exact List.all_append
  · exact List.any_append

theorem LogicOp.eval_assoc (o : LogicOp) (a b c : Bool) :
    o.eval (o.eval a b) c = o.eval a (o.eval b c) := by
  cases o
  · exact Bool.and_assoc a b c
  · exact Bool.or_assoc a b c

theorem LogicOp.join_const (o : LogicOp) (b : Bool) (mu : ILATsmMatchUnit) :
    ∀ mus : List ILATsmMatchUnit, o.join (fun _ => b) (mu :: mus) = b
  | [] => o.join_singleton _ mu
  | mu' :: mus => by
    rw [← List.singleton_append, o.join_append, o.join_singleton, o.join_const b mu' mus]
    cases o
    · exact Bool.and_self b
    · exact Bool.or_self b

/-- Meaning of a flat condition that passed the check. -/
def Checked.holds (v : Assignment) : Checked → Bool
  | .probes o mu mus => o.join v.probe (mu :: mus)
  | .counter cmp => v.counter cmp
  | .counterFirst cmp op o mu mus => op.eval (v.counter cmp) (o.join v.probe (mu :: mus))
  | .counterLast o mu mus op cmp => op.eval (o.join v.probe (mu :: mus)) (v.counter cmp)

theorem join_getMapperProbeOperator (f : ILATsmMatchUnit → Bool) (o : LogicOp)
    (mu : ILATsmMatchUnit) (mus : List ILATsmMatchUnit) (cond : ILATsmCondition)
    (h : cond.probeOperator = if mus = [] then none else some o) :
    cond.getMapperProbeOperator.join f (mu :: mus) = o.join f (mu :: mus) := by
  cases mus with
  | nil => rw [LogicOp.join_singleton, LogicOp.join_singleton]
  | cons mu' mus =>
    rw [if_neg (List.cons_ne_nil _ _)] at h
    cases o <;> simp [ILATsmCondition.getMapperProbeOperator, h]

theorem condition_holds (v : Assignment) (k : Checked) : k.condition.holds v = k.holds v := by
  cases k with
  | probes o mu mus =>
    exact join_getMapperProbeOperator v.probe o mu mus (Checked.probes o mu mus).condition rfl
  | counter cmp =>
    by_cases h : cmp.compareOp = .neq <;>
      simp [ILATsmCondition.holds, ILATsmCondition.evalCondition, Checked.condition, Checked.holds,
        ILATsmCondition.isInvertCounterMux, h]
  | counterFirst cmp op o mu mus =>
    have hjoin := join_getMapperProbeOperator v.probe o mu mus
      (Checked.counterFirst cmp op o mu mus).condition rfl
    by_cases h : cmp.compareOp = .neq <;> cases op <;>
      simp_all [ILATsmCondition.holds, ILATsmCondition.evalCondition, Checked.condition,
        Checked.holds, ILATsmCondition.isInvertCounterMux, LogicOp.eval, Bool.or_comm, Bool.and_comm]
  | counterLast o mu mus op cmp =>
    have hjoin := join_getMapperProbeOperator v.probe o mu mus
      (Checked.counterLast o mu mus op cmp).condition rfl
    by_cases h : cmp.compareOp = .neq <;> cases op <;>
      simp_all [ILATsmCondition.holds, ILATsmCondition.evalCondition, Checked.condition,
        Checked.holds, ILATsmCondition.isInvertCounterMux, LogicOp.eval]

/-! ### Where an accepted list was joined -/

theorem probeTail_append_cons {o op : LogicOp} {x : Operand} : ∀ {as bs : List (LogicOp × Operand)}
    {mus : List ILATsmMatchUnit}, as ++ (op, x) :: bs = probeTail o mus → op = o ∧
      ∃ mus₁ mu mus₂, as = probeTail o mus₁ ∧ x = .probe mu ∧ bs = probeTail o mus₂ ∧
        mus = mus₁ ++ mu :: mus₂
  | as, bs, mus, h => by
    obtain ⟨mus₁, rest, rfl, has, hrest⟩ := List.map_eq_append_iff.mp h.symm
    obtain ⟨mu, mus₂, rfl, hx, hbs⟩ := List.map_eq_cons_iff.mp hrest
    obtain ⟨rfl, rfl⟩ := Prod.mk.inj hx
    exact ⟨rfl, mus₁, mu, mus₂, has.symm, rfl, hbs.symm, rfl⟩

theorem append_eq_probes {a b : ConditionList} {op o : LogicOp} {mu : ILATsmMatchUnit}
    {mus : List ILATsmMatchUnit} (h : a.append op b = (Checked.probes o mu mus).toList) :
    op = o ∧ ∃ mus₁ mu₂ mus₂, a = (Checked.probes o mu mus₁).toList ∧
      b = (Checked.probes o mu₂ mus₂).toList ∧ mus = mus₁ ++ mu₂ :: mus₂ := by
  obtain ⟨ha, htail⟩ := ConditionList.mk.inj h
  obtain ⟨hop, mus₁, mu₂, mus₂, has, hb, hbs, hmus⟩ := probeTail_append_cons htail
  refine ⟨hop, mus₁, mu₂, mus₂, ?_, ?_, hmus⟩
  · rw [Checked.toList, ← ha, ← has]
  · rw [Checked.toList, ← hb, ← hbs]

theorem append_eq_counterFirst {a b : ConditionList} {op op₁ o : LogicOp} {mu : ILATsmMatchUnit}
    {mus : List ILATsmMatchUnit} {cmp : ILATsmCounterCompare}
    (h : a.append op b = (Checked.counterFirst cmp op₁ o mu mus).toList) :
    (a = (Checked.counter cmp).toList ∧ op = op₁ ∧ b = (Checked.probes o mu mus).toList) ∨
    (op = o ∧ ∃ mus₁ mu₂ mus₂, a = (Checked.counterFirst cmp op₁ o mu mus₁).toList ∧
      b = (Checked.probes o mu₂ mus₂).toList ∧ mus = mus₁ ++ mu₂ :: mus₂) := by
  obtain ⟨head, tail⟩ := a
  obtain ⟨rfl, htail⟩ := ConditionList.mk.inj h
  cases tail with
  | nil =>
    obtain ⟨hx, hbs⟩ := List.cons.inj htail
    obtain ⟨rfl, hb⟩ := Prod.mk.inj hx
    exact Or.inl ⟨rfl, rfl, by rw [Checked.toList, ← hb, ← hbs]⟩
  | cons e rest =>
    obtain ⟨rfl, hrest⟩ := List.cons.inj htail
    obtain ⟨hop, mus₁, mu₂, mus₂, has, hb, hbs, hmus⟩ := probeTail_append_cons hrest
    refine Or.inr ⟨hop, mus₁, mu₂, mus₂, ?_, ?_, hmus⟩
    · rw [Checked.toList, ← has]
    · rw [Checked.toList, ← hb, ← hbs]

theorem append_eq_counterLast {a b : ConditionList} {op op₁ o : LogicOp} {mu : ILATsmMatchUnit}
    {mus : List ILATsmMatchUnit} {cmp : ILATsmCounterCompare}
    (h : a.append op b = (Checked.counterLast o mu mus op₁ cmp).toList) :
    (a = (Checked.probes o mu mus).toList ∧ op = op₁ ∧ b = (Checked.counter cmp).toList) ∨
    ∃ mu₂ mus₂, b = (Checked.counterLast o mu₂ mus₂ op₁ cmp).toList := by
  obtain ⟨ha, htail⟩ := ConditionList.mk.inj h
  rcases List.eq_nil_or_concat b.tail with hb | ⟨init, e, hb⟩
  · rw [hb] at htail
    obtain ⟨has, hx⟩ := List.append_inj' htail rfl
    obtain ⟨rfl, hbhead⟩ := Prod.mk.inj (List.cons.inj hx).1
    refine Or.inl ⟨?_, rfl, ?_⟩
    · rw [Checked.toList, ← ha, ← has]
    · rw [Checked.toList, ← hbhead, ← hb]
  · rw [hb, List.concat_eq_append, ← List.cons_append, ← List.append_assoc] at htail
    obtain ⟨hinit, he⟩ := List.append_inj' htail rfl
    obtain ⟨-, -, mu₂, mus₂, -, hx, hbs, -⟩ := probeTail_append_cons hinit
    refine Or.inr ⟨mu₂, mus₂, ?_⟩
    rw [Checked.toList, ← hx, ← hbs, ← he, ← List.concat_eq_append, ← hb]

theorem append_ne_counter {a b : ConditionList} {op : LogicOp} {cmp : ILATsmCounterCompare} :
    a.append op b ≠ (Checked.counter cmp).toList := by
  intro h
  exact absurd (ConditionList.mk.inj h).2 (List.append_ne_nil_of_right_ne_nil _ (List.cons_ne_nil _ _))

/-! ### The visitor -/

theorem visitCondition_paren_list (b : Bool) (inner : Condition) :
    (visitCondition b (.paren inner)).1 = (visitCondition false inner).1 := by
  simp only [visitCondition]
  split <;> rfl

theorem visitCondition_paren_errors {b : Bool} {inner : Condition}
    (h : (visitCondition b (.paren inner)).2 = []) :
    (visitCondition false inner).2 = [] ∧ (b = true →
      (visitCondition false inner).1.operands.any Operand.isCounter = true →
      (visitCondition false inner).1.operands.any Operand.isProbe = false) := by
  simp only [visitCondition] at h
  split at h
  · simp at h
  · next hmixed =>
    refine ⟨h, fun hb hc => ?_⟩
    rw [hb, hc] at hmixed
    simpa using hmixed

/-! ### Trees of each shape -/

theorem holds_of_probes (v : Assignment) {o : LogicOp} : ∀ {c : Condition} {b : Bool}
    {mu : ILATsmMatchUnit} {mus : List ILATsmMatchUnit},
    (visitCondition b c).1 = (Checked.probes o mu mus).toList →
      c.holds v = o.join v.probe (mu :: mus)
  | .probeMatch mu', b, mu, mus, h => by
    obtain ⟨hmu, hmus⟩ := ConditionList.mk.inj h
    obtain rfl := List.map_eq_nil_iff.mp hmus.symm
    rw [LogicOp.join_singleton, Condition.holds, Operand.probe.inj hmu]
  | .counterMatch cmp, b, mu, mus, h => by cases (ConditionList.mk.inj h).1
  | .logicOp left op right, b, mu, mus, h => by
    obtain ⟨rfl, mus₁, mu₂, mus₂, hl, hr, rfl⟩ := append_eq_probes h
    rw [Condition.holds, holds_of_probes v hl, holds_of_probes v hr, ← LogicOp.join_append,
      List.cons_append]
  | .paren inner, b, mu, mus, h => by
    rw [visitCondition_paren_list] at h
    exact holds_of_probes (c := inner) v h

theorem holds_of_counter {cmp : ILATsmCounterCompare} : ∀ {c : Condition} {b : Bool},
    (visitCondition b c).1 = (Checked.counter cmp).toList →
      c.counterSpine = some [] ∧ ∀ v : Assignment, c.holds v = v.counter cmp
  | .probeMatch mu, b, h => by cases (ConditionList.mk.inj h).1
  | .counterMatch cmp', b, h => by
    obtain rfl := Operand.counter.inj (ConditionList.mk.inj h).1
    exact ⟨rfl, fun _ => rfl⟩
  | .logicOp left op right, b, h => absurd h append_ne_counter
  | .paren inner, b, h => by
    rw [visitCondition_paren_list] at h
    exact holds_of_counter (c := inner) h

theorem counterSpine_of_probe {mu : ILATsmMatchUnit} : ∀ {c : Condition} {b : Bool},
    (visitCondition b c).1.head = .probe mu → c.counterSpine = none
  | .probeMatch _, _, _ => rfl
  | .counterMatch cmp, b, h => by cases h
  | .logicOp left op right, b, h => by
    rw [Condition.counterSpine, counterSpine_of_probe (c := left) (b := true) h, Option.map_none]
  | .paren inner, b, h => by
    rw [visitCondition_paren_list] at h
    exact counterSpine_of_probe (c := inner) h

/-- An operand that is not an operator does not mix a counter and a probe. -/
theorem operand_not_mixed {c : Condition} (hop : c.isLogicOp = false)
    (herrors : (visitCondition true c).2 = [])
    (hc : (visitCondition true c).1.operands.any Operand.isCounter = true) :
    (visitCondition true c).1.operands.any Operand.isProbe = false := by
  cases c with
  | probeMatch mu => cases hc
  | counterMatch cmp => rfl
  | logicOp left op right => cases hop
  | paren inner =>
    rw [visitCondition_paren_list] at hc ⊢
    exact (visitCondition_paren_errors herrors).2 rfl hc

theorem holds_of_counterLast (v : Assignment) {o op₁ : LogicOp} {cmp : ILATsmCounterCompare} :
    ∀ {c : Condition} {b : Bool} {mu : ILATsmMatchUnit} {mus : List ILATsmMatchUnit}, c.LeftAssoc →
      (visitCondition b c).2 = [] →
      (visitCondition b c).1 = (Checked.counterLast o mu mus op₁ cmp).toList →
      c.holds v = op₁.eval (o.join v.probe (mu :: mus)) (v.counter cmp)
  | .probeMatch _, b, mu, mus, _, _, h => by
    exact absurd (ConditionList.mk.inj h).2.symm
      (List.append_ne_nil_of_right_ne_nil _ (List.cons_ne_nil _ _))
  | .counterMatch cmp, b, mu, mus, _, _, h => by cases (ConditionList.mk.inj h).1
  | .logicOp left op right, b, mu, mus, ⟨_, _, hright⟩, herrors, h => by
    rcases append_eq_counterLast h with ⟨hl, rfl, hr⟩ | ⟨mu₂, mus₂, hr⟩
    · rw [Condition.holds, holds_of_probes v hl, (holds_of_counter hr).2 v]
    · -- the right operand would hold a probe and the counter
      have hmixed := operand_not_mixed hright (List.append_eq_nil_iff.mp herrors).2 (by
        rw [hr]; simp [Checked.toList, ConditionList.operands])
      rw [hr] at hmixed
      simp [Checked.toList, ConditionList.operands] at hmixed
  | .paren inner, b, mu, mus, hgrammar, herrors, h => by
    rw [visitCondition_paren_list] at h
    exact holds_of_counterLast (c := inner) v hgrammar (visitCondition_paren_errors herrors).1 h

/-- A tree whose counter compare stands first: its spine, and when it means what its flat list
    means. -/
structure CounterFirst (c : Condition) (cmp : ILATsmCounterCompare) (op o : LogicOp)
    (mus : List ILATsmMatchUnit) (ops : List LogicOp) : Prop where
  spine : c.counterSpine = some (op :: ops)
  all_eq : ∀ op' ∈ ops, op' = o
  holds_eq : op = o ∨ ops = [] → ∀ v, c.holds v = op.eval (v.counter cmp) (o.join v.probe mus)
  holds_ne : op ≠ o → ops ≠ [] → ∃ v, c.holds v ≠ op.eval (v.counter cmp) (o.join v.probe mus)

theorem counterFirst_of_list {cmp : ILATsmCounterCompare} {op₁ o : LogicOp} : ∀ {c : Condition}
    {b : Bool} {mu : ILATsmMatchUnit} {mus : List ILATsmMatchUnit}, (visitCondition b c).2 = [] →
      (visitCondition b c).1 = (Checked.counterFirst cmp op₁ o mu mus).toList →
      ∃ ops, CounterFirst c cmp op₁ o (mu :: mus) ops
  | .probeMatch _, b, mu, mus, _, h => by cases (ConditionList.mk.inj h).1
  | .counterMatch cmp, b, mu, mus, _, h => by cases (ConditionList.mk.inj h).2
  | .logicOp left op right, b, mu, mus, herrors, h => by
    rcases append_eq_counterFirst h with ⟨hl, rfl, hr⟩ | ⟨rfl, mus₁, mu₂, mus₂, hl, hr, rfl⟩
    · obtain ⟨hspine, hleft⟩ := holds_of_counter hl
      refine ⟨[], by rw [Condition.counterSpine, hspine]; rfl, by simp, fun _ v => ?_,
        fun _ h => absurd rfl h⟩
      rw [Condition.holds, hleft, holds_of_probes v hr]
    · obtain ⟨ops, hspine, hall, heq, -⟩ :=
        counterFirst_of_list (List.append_eq_nil_iff.mp herrors).1 hl
      refine ⟨ops ++ [op], by rw [Condition.counterSpine, hspine]; rfl, ?_, ?_, fun hne _ => ?_⟩
      · intro op' hop'
        rcases List.mem_append.mp hop' with hop' | hop'
        · exact hall op' hop'
        · exact List.mem_singleton.mp hop'
      · rintro (rfl | h) v
        · rw [Condition.holds, heq (Or.inl rfl), holds_of_probes v hr, LogicOp.eval_assoc,
            ← LogicOp.join_append, List.cons_append]
        · simp at h
      · -- one group of probes decides the tree, the counter compare decides the flat list
        refine ⟨⟨fun _ => op == .or, fun _ => op₁ == .or⟩, ?_⟩
        rw [Condition.holds, holds_of_probes _ hr, LogicOp.join_const, LogicOp.join_const]
        cases op₁ <;> cases op <;> simp_all [LogicOp.eval]
  | .paren inner, b, mu, mus, herrors, h => by
    rw [visitCondition_paren_list] at h
    obtain ⟨ops, hspine, hall, heq, hne⟩ :=
      counterFirst_of_list (visitCondition_paren_errors herrors).1 h
    exact ⟨ops, hspine, hall, heq, hne⟩

theorem CounterFirst.mixed_iff {c : Condition} {cmp : ILATsmCounterCompare} {op o : LogicOp}
    {mus : List ILATsmMatchUnit} {ops : List LogicOp} (h : CounterFirst c cmp op o mus ops) :
    c.CounterFirstMixed ↔ op ≠ o ∧ ops ≠ [] := by
  constructor
  · rintro ⟨op', o', ops', hspine, hne⟩
    rw [h.spine] at hspine
    cases hspine
    obtain rfl := h.all_eq o' List.mem_cons_self
    exact ⟨hne, List.cons_ne_nil _ _⟩
  · rintro ⟨hne, hnil⟩
    obtain ⟨o', ops', rfl⟩ := List.exists_cons_of_ne_nil hnil
    obtain rfl := h.all_eq o' List.mem_cons_self
    exact ⟨op, o', ops', h.spine, hne⟩

/-- An accepted condition means the same as its flat list, whatever its compares evaluate to, unless
    its counter compare stands in front of operators that are mixed. -/
theorem fromItemList_holds_iff {c : Condition} (hgrammar : c.LeftAssoc)
    (haccepted : (visitFullCondition c).2 = []) :
    (∀ v, (ILATsmCondition.fromItemList (visitFullCondition c).1).holds v = c.holds v) ↔
      ¬ c.CounterFirstMixed := by
  obtain ⟨herrors, hverify⟩ := List.append_eq_nil_iff.mp haccepted
  obtain ⟨k, hk⟩ := verifyCondition_shape hverify
  have hlist : (visitFullCondition c).1 = k.toList := hk
  simp only [hlist, fromItemList_toList, condition_holds]
  cases k with
  | probes o mu mus =>
    have hspine := counterSpine_of_probe (congrArg ConditionList.head hk)
    refine iff_of_true (fun v => (holds_of_probes v hk).symm) ?_
    rintro ⟨op, o', ops, hmixed, -⟩
    rw [hspine] at hmixed
    cases hmixed
  | counter cmp =>
    obtain ⟨hspine, hholds⟩ := holds_of_counter hk
    refine iff_of_true (fun v => (hholds v).symm) ?_
    rintro ⟨op, o', ops, hmixed, -⟩
    rw [hspine] at hmixed
    cases hmixed
  | counterFirst cmp op o mu mus =>
    obtain ⟨ops, h⟩ := counterFirst_of_list herrors hk
    rw [h.mixed_iff]
    constructor
    · rintro hall ⟨hne, hnil⟩
      obtain ⟨v, hv⟩ := h.holds_ne hne hnil
      exact hv (hall v).symm
    · intro hnot v
      refine (h.holds_eq ?_ v).symm
      by_cases hop : op = o
      · exact Or.inl hop
      · exact Or.inr (by_contra fun hnil => hnot ⟨hop, hnil⟩)
  | counterLast o mu mus op cmp =>
    have hspine := counterSpine_of_probe (congrArg ConditionList.head hk)
    refine iff_of_true (fun v => (holds_of_counterLast v hgrammar herrors hk).symm) ?_
    rintro ⟨op, o', ops, hmixed, -⟩
    rw [hspine] at hmixed
    cases hmixed

/-- `p == 1` for a one bit probe `p`. -/
def probeCompare (name : String) : Condition :=
  .probeMatch { probe := ⟨name, [{ portIdx := 0, highIdx := 0, lowIdx := 0 }]⟩, compareOp := .eq, compareValue := ['1'] }

/-- `$counter0 == 5`. -/
def counterCompare : Condition := .counterMatch ⟨0, .eq, ['1', '0', '1']⟩

/-- `(a == 1 && b == 1) || $counter0 == 5`. -/
def andThenCounter : Condition :=
  .logicOp (.paren (.logicOp (probeCompare "a") .and (probeCompare "b"))) .or counterCompare

/-- Mixed operators are kept apart when the counter stands last. -/
theorem fromItemList_holds_andThenCounter : andThenCounter.LeftAssoc ∧
    (visitFullCondition andThenCounter).2 = [] ∧
    ∀ v, (ILATsmCondition.fromItemList (visitFullCondition andThenCounter).1).holds v =
      andThenCounter.holds v := by
  have hgrammar : andThenCounter.LeftAssoc := ⟨⟨trivial, trivial, rfl⟩, trivial, rfl⟩
  have haccepted : (visitFullCondition andThenCounter).2 = [] := by decide
  refine ⟨hgrammar, haccepted, (fromItemList_holds_iff hgrammar haccepted).mpr ?_⟩
  rintro ⟨op, o, ops, hspine, -⟩
  cases hspine

/-- `$counter0 == 5 || a == 1 && b == 1`. -/
def counterThenAnd : Condition :=
  .logicOp (.logicOp counterCompare .or (probeCompare "a")) .and (probeCompare "b")

/-- Read to the left the condition needs `b`; its flat list holds as soon as the counter does. -/
theorem fromItemList_holds_ne_of_counterThenAnd : ¬ ∀ c : Condition, c.LeftAssoc →
    (visitFullCondition c).2 = [] → ∀ v,
      (ILATsmCondition.fromItemList (visitFullCondition c).1).holds v = c.holds v := by
  intro h
  have hgrammar : counterThenAnd.LeftAssoc := ⟨⟨trivial, trivial, rfl⟩, trivial, rfl⟩
  have haccepted : (visitFullCondition counterThenAnd).2 = [] := by decide
  have hv := h counterThenAnd hgrammar haccepted ⟨fun _ => false, fun _ => true⟩
  exact absurd hv (by decide)

end Chipscopy.Tsm
