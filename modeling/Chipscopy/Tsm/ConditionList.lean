import Chipscopy.Tsm.Data

/-! Flat conditions

    `verify_condition` accepts a flat condition when it has at most one counter compare, which then
    is its first or its last item, and when the operators between probe compares are all the same.
    A condition that passes has one of four shapes, and `from_item_list` recovers from each shape
    the operators and compares it was made of. -/

namespace Chipscopy.Tsm

/-- Operators between two probe compares. -/
def probeOps (l : ConditionList) : List LogicOp :=
  (ConditionList.triples l.head l.tail).filterMap fun (pre, op, post) =>
    if pre.isProbe && post.isProbe then some op else none

def LogicOp.text : LogicOp → String
  | .and => "&&"
  | .or => "||"

/-- Only one counter, first or last in the list, and identical operators between probes. -/
def verifyCondition (l : ConditionList) : List String :=
  let counterCount := l.operands.countP Operand.isCounter
  let counterErrors :=
    if counterCount > 1 then
      ["Only one counter match comparison is allowed in a condition."]
    else if counterCount = 1 ∧ l.tail.length > 1 ∧ l.head.isCounter = false ∧
        l.operands.getLast?.map Operand.isCounter = some false then
      ["Counter match comparison must be either first or last in a condition."]
    else []
  let ops := [LogicOp.and, LogicOp.or].filter (· ∈ probeOps l)
  let probeErrors :=
    if ops.length > 1 then
      ["Different logic operator are not allowed between probe match comparisons," ++
        " within an if-condition branch. These operators are used: " ++
        ", ".intercalate (ops.map LogicOp.text) ++ "."]
    else []
  counterErrors ++ probeErrors

/-! ### The shapes that pass -/

/-- The rest of a list of probe compares joined by one operator. -/
def probeTail (o : LogicOp) (mus : List ILATsmMatchUnit) : List (LogicOp × Operand) :=
  mus.map fun mu => (o, .probe mu)

/-- A flat condition that passed the check: `o` joins the probe compares. -/
inductive Checked
  | probes (o : LogicOp) (mu : ILATsmMatchUnit) (mus : List ILATsmMatchUnit)
  | counter (cmp : ILATsmCounterCompare)
  | counterFirst (cmp : ILATsmCounterCompare) (op o : LogicOp) (mu : ILATsmMatchUnit)
      (mus : List ILATsmMatchUnit)
  | counterLast (o : LogicOp) (mu : ILATsmMatchUnit) (mus : List ILATsmMatchUnit) (op : LogicOp)
      (cmp : ILATsmCounterCompare)

namespace Checked

def toList : Checked → ConditionList
  | probes o mu mus => ⟨.probe mu, probeTail o mus⟩
  | counter cmp => ⟨.counter cmp, []⟩
  | counterFirst cmp op o mu mus => ⟨.counter cmp, (op, .probe mu) :: probeTail o mus⟩
  | counterLast o mu mus op cmp => ⟨.probe mu, probeTail o mus ++ [(op, .counter cmp)]⟩

/-- What `from_item_list` makes of each shape. -/
def condition : Checked → ILATsmCondition
  | probes o mu mus =>
    { probeOperator := if mus = [] then none else some o, matchUnits := mu :: mus }
  | counter cmp => { counterCompare := some cmp }
  | counterFirst cmp op o mu mus | counterLast o mu mus op cmp =>
    { probeOperator := if mus = [] then none else some o
      counterOperator := some op
      counterCompare := some cmp
      matchUnits := mu :: mus }

end Checked

@[simp] theorem probeTail_nil (o : LogicOp) : probeTail o [] = [] := rfl

@[simp] theorem probeTail_cons (o : LogicOp) (mu : ILATsmMatchUnit) (mus : List ILATsmMatchUnit) :
    probeTail o (mu :: mus) = (o, .probe mu) :: probeTail o mus := rfl

/-! ### Lists that pass have one of the shapes -/

theorem isCounter_eq_false {x : Operand} (h : x.isCounter = false) : ∃ mu, x = .probe mu := by
  cases x with
  | probe mu => exact ⟨mu, rfl⟩
  | counter cmp => cases h

/-- Without counters and with one operator only, a tail is a tail of probe compares. -/
theorem exists_probeTail : ∀ {mu : ILATsmMatchUnit} {tail : List (LogicOp × Operand)},
    (∀ e ∈ tail, e.2.isCounter = false) →
    (∀ a ∈ probeOps ⟨.probe mu, tail⟩, ∀ b ∈ probeOps ⟨.probe mu, tail⟩, a = b) →
    ∃ o mus, tail = probeTail o mus
  | _, [], _, _ => ⟨.and, [], rfl⟩
  | mu, (op, x) :: rest, hprobe, hops => by
    obtain ⟨hx, hrest⟩ := List.forall_mem_cons.mp hprobe
    obtain ⟨mu₁, rfl⟩ := isCounter_eq_false hx
    have hsub : ∀ a ∈ probeOps ⟨.probe mu₁, rest⟩,
        a ∈ probeOps ⟨.probe mu, (op, .probe mu₁) :: rest⟩ := fun a ha => by
      simpa [probeOps, ConditionList.triples] using Or.inr ha
    obtain ⟨o, mus, rfl⟩ := exists_probeTail hrest fun a ha b hb => hops a (hsub a ha) b (hsub b hb)
    cases mus with
    | nil => exact ⟨op, [mu₁], rfl⟩
    | cons mu₂ mus =>
      have hop : op = o := hops op (by simp [probeOps, ConditionList.triples])
        o (by simp [probeOps, ConditionList.triples])
      exact ⟨o, mu₁ :: mu₂ :: mus, by rw [hop]; rfl⟩

theorem probeOps_subset_append (extra : List (LogicOp × Operand)) {a : LogicOp} :
    ∀ {pre : Operand} {tail : List (LogicOp × Operand)},
      a ∈ probeOps ⟨pre, tail⟩ → a ∈ probeOps ⟨pre, tail ++ extra⟩
  | _, [], h => by simp [probeOps, ConditionList.triples] at h
  | pre, (op, x) :: rest, h => by
    have ih : a ∈ probeOps ⟨x, rest⟩ → a ∈ probeOps ⟨x, rest ++ extra⟩ :=
      probeOps_subset_append extra
    simp only [probeOps, ConditionList.triples, List.cons_append, List.filterMap_cons] at h ih ⊢
    split at h
    · exact ih h
    · exact (List.mem_cons.mp h).elim (fun h => List.mem_cons.mpr (Or.inl h))
        fun h => List.mem_cons.mpr (Or.inr (ih h))

/-- What the absence of errors says. -/
theorem verifyCondition_eq_nil {l : ConditionList} (h : verifyCondition l = []) :
    l.operands.countP Operand.isCounter ≤ 1 ∧
    (l.operands.countP Operand.isCounter = 1 → l.tail.length > 1 → l.head.isCounter = false →
      l.operands.getLast?.map Operand.isCounter ≠ some false) ∧
    ∀ a ∈ probeOps l, ∀ b ∈ probeOps l, a = b := by
  obtain ⟨hc, hp⟩ := List.append_eq_nil_iff.mp h
  refine ⟨?_, fun h1 hlen hhead hlast => ?_, fun a ha b hb => ?_⟩
  · by_contra hgt
    rw [if_pos (by omega)] at hc
    cases hc
  · rw [if_neg (by omega), if_pos ⟨h1, hlen, hhead, hlast⟩] at hc
    cases hc
  · by_contra hne
    have hboth : LogicOp.and ∈ probeOps l ∧ LogicOp.or ∈ probeOps l := by
      cases a <;> cases b <;> first | exact absurd rfl hne | exact ⟨ha, hb⟩ | exact ⟨hb, ha⟩
    simp [hboth.1, hboth.2] at hp

theorem countP_operands (head : Operand) (tail : List (LogicOp × Operand)) :
    (ConditionList.mk head tail).operands.countP Operand.isCounter =
      tail.countP (fun e => e.2.isCounter) + head.isCounter.toNat := by
  rw [ConditionList.operands, List.countP_cons, List.countP_map]
  cases head <;> rfl

theorem countP_eq_zero {tail : List (LogicOp × Operand)}
    (h : tail.countP (fun e => e.2.isCounter) = 0) : ∀ e ∈ tail, e.2.isCounter = false := by
  simpa using h

theorem verifyCondition_shape {l : ConditionList} (h : verifyCondition l = []) :
    ∃ k : Checked, l = k.toList := by
  obtain ⟨hcount, hlast, hops⟩ := verifyCondition_eq_nil h
  obtain ⟨head, tail⟩ := l
  rw [countP_operands] at hcount hlast
  cases head with
  | counter cmp =>
    have hnone : ∀ e ∈ tail, e.2.isCounter = false := countP_eq_zero (by simpa using hcount)
    cases tail with
    | nil => exact ⟨.counter cmp, rfl⟩
    | cons e rest =>
      obtain ⟨op, x⟩ := e
      obtain ⟨hx, hrest⟩ := List.forall_mem_cons.mp hnone
      obtain ⟨mu, rfl⟩ := isCounter_eq_false hx
      have hsub : ∀ a ∈ probeOps ⟨.probe mu, rest⟩,
          a ∈ probeOps ⟨.counter cmp, (op, .probe mu) :: rest⟩ := fun a ha => by
        simpa [probeOps, ConditionList.triples] using ha
      obtain ⟨o, mus, rfl⟩ := exists_probeTail hrest fun a ha b hb =>
        hops a (hsub a ha) b (hsub b hb)
      exact ⟨.counterFirst cmp op o mu mus, rfl⟩
  | probe mu =>
    rcases List.eq_nil_or_concat tail with rfl | ⟨init, ⟨op, x⟩, rfl⟩
    · exact ⟨.probes .and mu [], rfl⟩
    rw [List.concat_eq_append, List.countP_append] at hcount hlast
    rw [List.concat_eq_append] at hops ⊢
    cases x with
    | counter cmp =>
      -- the counter is last, so every compare before it is on a probe
      have hnone : ∀ e ∈ init, e.2.isCounter = false := countP_eq_zero (by
        simp only [List.countP_singleton, Operand.isCounter_counter, if_true] at hcount
        omega)
      obtain ⟨o, mus, rfl⟩ := exists_probeTail hnone fun a ha b hb =>
        hops a (probeOps_subset_append _ ha) b (probeOps_subset_append _ hb)
      exact ⟨.counterLast o mu mus op cmp, rfl⟩
    | probe mu₁ =>
      -- a counter further left would be neither first nor last
      have hnone : init.countP (fun e => e.2.isCounter) = 0 := by
        by_contra hne
        simp only [List.countP_singleton, Operand.isCounter_probe, Bool.false_eq_true, if_false,
          Bool.toNat_false] at hcount hlast
        refine hlast (by omega) ?_ trivial ?_
        · have := List.countP_le_length (p := fun e : LogicOp × Operand => e.2.isCounter) (l := init)
          rw [List.length_append, List.length_singleton]
          omega
        · simp [ConditionList.operands, List.getLast?_cons]
      have hall : ∀ e ∈ init ++ [(op, .probe mu₁)], e.2.isCounter = false :=
        countP_eq_zero (by simp [hnone])
      obtain ⟨o, mus, hmus⟩ := exists_probeTail hall hops
      exact ⟨.probes o mu mus, by rw [hmus]; rfl⟩

/-! ### `from_item_list` on each shape -/

theorem foldl_scan_probeTail (o : LogicOp) : ∀ (mu : ILATsmMatchUnit) (mus : List ILATsmMatchUnit)
    (cond : ILATsmCondition),
    (ConditionList.triples (.probe mu) (probeTail o mus)).foldl ILATsmCondition.scan cond =
      { cond with probeOperator := if mus = [] then cond.probeOperator else some o }
  | _, [], cond => by simp [ConditionList.triples]
  | _, mu₁ :: mus, cond => by
    rw [probeTail_cons, ConditionList.triples, List.foldl_cons, foldl_scan_probeTail o mu₁ mus]
    simp [ILATsmCondition.scan]

theorem foldl_scan_counterLast (o op : LogicOp) (cmp : ILATsmCounterCompare) :
    ∀ (mu : ILATsmMatchUnit) (mus : List ILATsmMatchUnit) (cond : ILATsmCondition),
    (ConditionList.triples (.probe mu) (probeTail o mus ++ [(op, .counter cmp)])).foldl
        ILATsmCondition.scan cond =
      { cond with
        probeOperator := if mus = [] then cond.probeOperator else some o
        counterOperator := some op
        counterCompare := some cmp }
  | _, [], cond => by simp [ConditionList.triples, ILATsmCondition.scan]
  | _, mu₁ :: mus, cond => by
    rw [probeTail_cons, List.cons_append, ConditionList.triples, List.foldl_cons,
      foldl_scan_counterLast o op cmp mu₁ mus]
    simp [ILATsmCondition.scan]

theorem matchUnits_probeTail (o : LogicOp) (mus : List ILATsmMatchUnit) :
    ((probeTail o mus).map (·.2)).filterMap Operand.matchUnit? = mus := by
  induction mus with
  | nil => rfl
  | cons mu mus ih => simpa using ih

/-- Spec of `from_item_list` on the lists that pass the check. -/
theorem fromItemList_toList (k : Checked) :
    ILATsmCondition.fromItemList k.toList = k.condition := by
  cases k with
  | probes o mu mus =>
    have hmus : (Checked.toList (.probes o mu mus)).operands.filterMap Operand.matchUnit? =
        mu :: mus := congrArg (mu :: ·) (matchUnits_probeTail o mus)
    simp only [ILATsmCondition.fromItemList, hmus]
    simp only [Checked.toList, Checked.condition, foldl_scan_probeTail]
  | counter cmp => rfl
  | counterFirst cmp op o mu mus =>
    have hmus : (Checked.toList (.counterFirst cmp op o mu mus)).operands.filterMap
        Operand.matchUnit? = mu :: mus := congrArg (mu :: ·) (matchUnits_probeTail o mus)
    simp only [ILATsmCondition.fromItemList, hmus]
    simp only [Checked.toList, Checked.condition, ConditionList.triples, List.foldl_cons,
      foldl_scan_probeTail, ILATsmCondition.scan]
  | counterLast o mu mus op cmp =>
    have hmus : (Checked.toList (.counterLast o mu mus op cmp)).operands.filterMap
        Operand.matchUnit? = mu :: mus := by
      rw [Checked.toList, ConditionList.operands, List.map_append,
        List.filterMap_cons_some (Operand.matchUnit?_probe mu), List.filterMap_append,
        matchUnits_probeTail]
      exact congrArg (mu :: ·) (List.append_nil mus)
    simp only [ILATsmCondition.fromItemList, hmus]
    simp only [Checked.toList, Checked.condition, foldl_scan_counterLast]

end Chipscopy.Tsm
