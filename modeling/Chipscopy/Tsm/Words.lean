import Chipscopy.Tsm.Table

/-! Words and action blocks

    Every action of a verified block sets bits of its own field, and the selected counter has two
    bits of its own, so a word decodes to exactly the actions of its block, and only one word below
    `2 ^ 24` does. -/

namespace Chipscopy.Tsm

/-! ### Decoding is unique -/

theorem testBit_goto (word : ℕ) {k : ℕ} (hk : k < 4) :
    (decode word).goto.testBit k = word.testBit k := by
  rw [decode, Nat.testBit_mod_two_pow, decide_eq_true hk, Bool.true_and]

theorem select_bits {a b a' b' : Bool} (h : a.toNat + 2 * b.toNat = a'.toNat + 2 * b'.toNat) :
    a = a' ∧ b = b' := by
  revert h
  cases a <;> cases b <;> cases a' <;> cases b' <;> simp

/-- The bit fields are disjoint and cover the word. -/
theorem decode_injective {word word' : ℕ} (h : word < 2 ^ 24) (h' : word' < 2 ^ 24)
    (heq : decode word = decode word') : word = word' := by
  refine Nat.eq_of_testBit_eq fun k => ?_
  have hgoto := congrArg Effect.goto heq
  have hreset := congrFun (congrArg Effect.reset heq)
  have hinc := congrFun (congrArg Effect.increment heq)
  have hset := congrFun (congrArg Effect.setFlag heq)
  have hclear := congrFun (congrArg Effect.clearFlag heq)
  obtain ⟨h12, h13⟩ := select_bits (congrArg Effect.selectCounter heq)
  rcases Nat.lt_or_ge k 24 with hk | hk
  · rcases Nat.lt_or_ge k 4 with hk4 | hk4
    · rw [← testBit_goto word hk4, ← testBit_goto word' hk4, hgoto]
    · interval_cases k
      · exact hreset 0
      · exact hinc 0
      · exact hreset 1
      · exact hinc 1
      · exact hreset 2
      · exact hinc 2
      · exact hreset 3
      · exact hinc 3
      · exact h12
      · exact h13
      · exact hset 0
      · exact hset 1
      · exact hset 2
      · exact hset 3
      · exact congrArg Effect.capture heq
      · exact congrArg Effect.trigger heq
      · exact hclear 0
      · exact hclear 1
      · exact hclear 2
      · exact hclear 3
  · have hpow : 2 ^ 24 ≤ 2 ^ k := Nat.pow_le_pow_right (by omega) hk
    rw [Nat.testBit_lt_two_pow (by omega), Nat.testBit_lt_two_pow (by omega)]

/-! ### Bits of one action -/

/-- The bits that an action sets; a `goto` sets the bits of the number of its state. -/
def Action.bit (names : List String) (k : ℕ) : Action → Bool
  | .goto stateName => (names.idxOf stateName).testBit k
  | .resetCounter i => k = 4 + 2 * i
  | .incCounter i => k = 5 + 2 * i
  | .setFlag i => k = 14 + i
  | .trigger => k = 19
  | .clearFlag i => k = 20 + i

theorem bit_of_not_goto {a : Action} (h : a.isGoto = false) (names : List String) (k : ℕ) :
    a.bit names k = a.bit [] k := by
  cases a with
  | goto stateName => cases h
  | _ => rfl

theorem testBit_two_pow_shiftLeft (m s k : ℕ) : (2 ^ m <<< s).testBit k = decide (k = m + s) := by
  rw [Nat.shiftLeft_eq, ← Nat.pow_add, Nat.testBit_two_pow]
  exact decide_eq_decide.mpr eq_comm

/-- A `goto` without error names a state. -/
theorem visitAction_goto {ck : ILATsmCheckAndBuild} {stateName : String}
    (h : (ck.visitAction (.goto stateName)).2 = []) :
    stateName ∈ ck.stateNames ∧
      (ck.visitAction (.goto stateName)).1 = ⟨.goto, ck.stateNames.idxOf stateName⟩ := by
  have hidx := List.idxOf?_eq_none_iff (l := ck.stateNames) (a := stateName)
  simp only [ILATsmCheckAndBuild.visitAction] at h ⊢
  split at h
  · next i hi =>
    obtain ⟨hlt, hname, hbefore⟩ := List.idxOf?_eq_some_iff.mp hi
    have hmem : stateName ∈ ck.stateNames := by
      by_contra hnot
      rw [hidx.mpr hnot] at hi
      cases hi
    refine ⟨hmem, ?_⟩
    have hi' : ck.stateNames.idxOf stateName = i := by
      rw [List.idxOf_eq_getD_idxOf?, hi, Option.getD_some]
    rw [hi']
  · cases h

theorem testBit_create {ck : ILATsmCheckAndBuild} {a : Action} (h : (ck.visitAction a).2 = [])
    (k : ℕ) : (ILATsmAction.create (ck.visitAction a).1).testBit k = a.bit ck.stateNames k := by
  cases a with
  | clearFlag i => exact testBit_two_pow_shiftLeft 20 i k
  | setFlag i => exact testBit_two_pow_shiftLeft 14 i k
  | incCounter i =>
    refine (testBit_two_pow_shiftLeft 5 (i * 2) k).trans ?_
    rw [Action.bit, Nat.mul_comm]
  | resetCounter i =>
    refine (testBit_two_pow_shiftLeft 4 (i * 2) k).trans ?_
    rw [Action.bit, Nat.mul_comm]
  | goto stateName => rw [(visitAction_goto h).2]; rfl
  | trigger => exact testBit_two_pow_shiftLeft 19 0 k

/-! ### Bits of a block -/

theorem testBit_foldl_or (k : ℕ) : ∀ (words : List ℕ) (word : ℕ),
    (words.foldl (· ||| ·) word).testBit k = (word.testBit k || words.any (·.testBit k))
  | [], word => by simp
  | w :: words, word => by
    rw [List.foldl_cons, testBit_foldl_or k words, Nat.testBit_or, List.any_cons, Bool.or_assoc]

/-- The word of a block has the bits of its actions. -/
theorem testBit_visitActions {ck : ILATsmCheckAndBuild} {actions : Actions}
    (h : ∀ a ∈ actions.toList, (ck.visitAction a).2 = []) (k : ℕ) :
    (ck.visitActions actions).1.1.testBit k = actions.toList.any (·.bit ck.stateNames k) := by
  obtain ⟨hfirst, hrest⟩ := List.forall_mem_cons.mp h
  simp only [ILATsmCheckAndBuild.visitActions, ILATsmAction.fromActionPairList, testBit_foldl_or,
    testBit_create hfirst, Actions.toList, List.any_cons, List.any_map]
  congr 1
  rw [Bool.eq_iff_iff, List.any_eq_true, List.any_eq_true]
  exact exists_congr fun a => and_congr_right fun ha => by
    rw [Function.comp, Function.comp, testBit_create (hrest a ha)]

theorem testBit_addSelectCounterAction (word : ℕ) (c : Fin counterCount) (k : ℕ) :
    (ILATsmAction.addSelectCounterAction word c).testBit k = (word.testBit k ||
      (decide (k = 12) && decide (c = 1 ∨ c = 3)) || (decide (k = 13) && decide (c = 2 ∨ c = 3))) := by
  have h12 : ILATsmAction.selectCounter1Or3.testBit k = decide (k = 12) := by
    rw [show ILATsmAction.selectCounter1Or3 = 2 ^ 12 from rfl, Nat.testBit_two_pow]
    exact decide_eq_decide.mpr eq_comm
  have h13 : ILATsmAction.selectCounter2Or3.testBit k = decide (k = 13) := by
    rw [show ILATsmAction.selectCounter2Or3 = 2 ^ 13 from rfl, Nat.testBit_two_pow]
    exact decide_eq_decide.mpr eq_comm
  unfold ILATsmAction.addSelectCounterAction
  by_cases h1 : c = 1 ∨ c = 3 <;> by_cases h2 : c = 2 ∨ c = 3 <;>
    simp [h1, h2, Nat.testBit_or, h12, h13]

/-! ### Fields of a block -/

/-- What the checks of a block leave: no error in its actions, at most one `goto`, and no more than
    sixteen states to go to. -/
structure BlockChecked (ck : ILATsmCheckAndBuild) (actions : Actions) : Prop where
  names_le : ck.stateNames.length ≤ maxStateCount
  noError : ∀ a ∈ actions.toList, (ck.visitAction a).2 = []
  gotos_le : (actions.toList.filter Action.isGoto).length ≤ 1

theorem isGoto_visitAction (ck : ILATsmCheckAndBuild) (a : Action) :
    decide ((ck.visitAction a).1.name = .goto) = a.isGoto := by
  cases a with
  | goto stateName =>
    rw [ILATsmCheckAndBuild.visitAction]
    cases ck.stateNames.idxOf? stateName <;> rfl
  | _ => rfl

/-- The `goto` pairs of a block come from its `goto` actions. -/
theorem isGoto_comp (ck : ILATsmCheckAndBuild) :
    (fun a : ILATsmActionPair => decide (a.name = .goto)) ∘ (fun x => x.1) ∘ ck.visitAction =
      Action.isGoto :=
  funext fun a => isGoto_visitAction ck a

theorem blockChecked_of_visitActions {ck : ILATsmCheckAndBuild} {actions : Actions}
    (hnames : ck.stateNames.length ≤ maxStateCount) (h : (ck.visitActions actions).2 = []) :
    BlockChecked ck actions := by
  obtain ⟨hvisit, hverify⟩ := List.append_eq_nil_iff.mp h
  refine ⟨hnames, fun a ha => ?_, ?_⟩
  · exact List.flatMap_eq_nil_iff.mp hvisit _ (List.mem_map_of_mem ha)
  · simp only [verifyActionBlock, List.append_eq_nil_iff] at hverify
    obtain ⟨⟨⟨hgotos, -⟩, -⟩, -⟩ := hverify
    by_contra hgt
    rw [List.map_map, List.filter_map, List.length_map, isGoto_comp, if_pos (by omega)] at hgotos
    cases hgotos

namespace BlockChecked

variable {ck : ILATsmCheckAndBuild} {actions : Actions}

theorem idxOf_lt (h : BlockChecked ck actions) {stateName : String}
    (hmem : .goto stateName ∈ actions.toList) :
    ck.stateNames.idxOf stateName < ck.stateNames.length :=
  List.idxOf_lt_length_of_mem (visitAction_goto (h.noError _ hmem)).1

/-- Every `goto` of the block goes to its target; without one the target is state 0. -/
theorem target_eq (h : BlockChecked ck actions) :
    (∃ stateName, actions.toList.filter Action.isGoto = [.goto stateName] ∧
      actions.target ck.stateNames = ck.stateNames.idxOf stateName) ∨
    (actions.toList.filter Action.isGoto = [] ∧ actions.target ck.stateNames = 0) := by
  have hle := h.gotos_le
  rw [Actions.target, ← List.head?_filter]
  cases hf : actions.toList.filter Action.isGoto with
  | nil => exact Or.inr ⟨rfl, rfl⟩
  | cons a as =>
    rw [hf] at hle
    obtain rfl : as = [] := List.length_eq_zero_iff.mp (by simpa using hle)
    have hgoto : a.isGoto = true := (List.mem_filter.mp (hf ▸ List.mem_singleton_self a)).2
    cases a with
    | goto stateName => exact Or.inl ⟨stateName, rfl, rfl⟩
    | _ => cases hgoto

/-- The visitor finds the target of the block. -/
theorem nextState_eq (h : BlockChecked ck actions) :
    (ck.visitActions actions).1.2 = actions.target ck.stateNames := by
  have hfind : (actions.toList.map ck.visitAction |>.map (·.1)).find? (fun a => a.name = .goto) =
      (actions.toList.find? Action.isGoto).map fun a => (ck.visitAction a).1 := by
    rw [List.map_map, List.find?_map, isGoto_comp]
    rfl
  simp only [ILATsmCheckAndBuild.visitActions, hfind, Actions.target]
  cases hf : actions.toList.find? Action.isGoto with
  | none => rfl
  | some a =>
    have hgoto := List.find?_some hf
    cases a with
    | goto stateName =>
      rw [Option.map_some, (visitAction_goto (h.noError _ (List.mem_of_find?_eq_some hf))).2]
      rfl
    | _ => cases hgoto

theorem target_lt (h : BlockChecked ck actions) (hpos : 0 < ck.stateNames.length) :
    actions.target ck.stateNames < ck.stateNames.length := by
  rcases h.target_eq with ⟨stateName, hf, htarget⟩ | ⟨-, htarget⟩
  · have hmem := (List.mem_filter.mp (hf ▸ List.mem_singleton_self (Action.goto stateName))).1
    exact htarget ▸ h.idxOf_lt hmem
  · exact htarget ▸ hpos

/-- The number of a state has four bits. -/
theorem goto_bit_eq_false (h : BlockChecked ck actions) {a : Action} (ha : a ∈ actions.toList)
    (hgoto : a.isGoto = true) {k : ℕ} (hk : 4 ≤ k) : a.bit ck.stateNames k = false := by
  cases a with
  | goto stateName =>
    have hlt := h.idxOf_lt ha
    have hpow : 2 ^ 4 ≤ 2 ^ k := Nat.pow_le_pow_right (by omega) hk
    have hnames : ck.stateNames.length ≤ 16 := h.names_le
    exact Nat.testBit_lt_two_pow (by omega)
  | _ => cases hgoto

/-- Above the `goto` field, an action of the block has the bit that names it. -/
theorem bit_eq (h : BlockChecked ck actions) {a : Action} (ha : a ∈ actions.toList) {k : ℕ}
    (hk : 4 ≤ k) {x : Action} (hx : ∀ names, x.bit names k = true)
    (huniq : ∀ y : Action, y.isGoto = false → y.bit [] k = true → y = x) :
    a.bit ck.stateNames k = true ↔ a = x := by
  refine ⟨fun hbit => ?_, fun hax => hax ▸ hx _⟩
  cases hgoto : a.isGoto with
  | true => rw [h.goto_bit_eq_false ha hgoto hk] at hbit; cases hbit
  | false => exact huniq a hgoto (bit_of_not_goto hgoto ck.stateNames k ▸ hbit)

/-- A bit that is set by action `x` only. -/
theorem any_bit_eq (h : BlockChecked ck actions) {k : ℕ} (hk : 4 ≤ k) {x : Action}
    (hx : ∀ names, x.bit names k = true)
    (huniq : ∀ y : Action, y.isGoto = false → y.bit [] k = true → y = x) :
    actions.toList.any (·.bit ck.stateNames k) = decide (x ∈ actions.toList) := by
  rw [Bool.eq_iff_iff, List.any_eq_true, decide_eq_true_iff]
  constructor
  · rintro ⟨a, ha, hbit⟩
    exact (h.bit_eq ha hk hx huniq).mp hbit ▸ ha
  · exact fun hmem => ⟨x, hmem, hx _⟩

/-- A bit that no action sets. -/
theorem any_bit_eq_false (h : BlockChecked ck actions) {k : ℕ} (hk : 4 ≤ k)
    (hnone : ∀ y : Action, y.isGoto = false → y.bit [] k = false) :
    actions.toList.any (·.bit ck.stateNames k) = false := by
  rw [List.any_eq_false]
  intro a ha
  rw [Bool.not_eq_true]
  cases hgoto : a.isGoto with
  | true => exact h.goto_bit_eq_false ha hgoto hk
  | false => exact bit_of_not_goto hgoto ck.stateNames k ▸ hnone a hgoto

/-- The lowest four bits of a block are the number of its target. -/
theorem goto_bits (h : BlockChecked ck actions) {k : ℕ} (hk : k < 4) :
    actions.toList.any (·.bit ck.stateNames k) = (actions.target ck.stateNames).testBit k := by
  have hfilter : actions.toList.any (·.bit ck.stateNames k) =
      (actions.toList.filter Action.isGoto).any (·.bit ck.stateNames k) := by
    rw [List.any_filter, Bool.eq_iff_iff, List.any_eq_true, List.any_eq_true]
    refine exists_congr fun a => and_congr_right fun _ => ?_
    cases a <;> simp [Action.bit, Action.isGoto] <;> omega
  rcases h.target_eq with ⟨stateName, hf, htarget⟩ | ⟨hf, htarget⟩
  · rw [hfilter, hf, htarget, List.any_cons, List.any_nil, Bool.or_false, Action.bit]
  · rw [hfilter, hf, htarget, List.any_nil, Nat.zero_testBit]

theorem target_lt_two_pow (h : BlockChecked ck actions) :
    actions.target ck.stateNames < 2 ^ 4 := by
  have hnames : ck.stateNames.length ≤ 16 := h.names_le
  rcases Nat.eq_zero_or_pos ck.stateNames.length with h0 | hpos
  · rcases h.target_eq with ⟨stateName, hf, -⟩ | ⟨-, htarget⟩
    · have hmem := (List.mem_filter.mp (hf ▸ List.mem_singleton_self (Action.goto stateName))).1
      have := h.idxOf_lt hmem
      omega
    · omega
  · have := h.target_lt hpos
    omega

/-- The word of a block with a selected counter decodes to what the block does. -/
theorem decode_word (h : BlockChecked ck actions) (c : Fin counterCount) :
    decode (ILATsmAction.addSelectCounterAction (ck.visitActions actions).1.1 c) =
      actions.effect (actions.target ck.stateNames) c := by
  have hword : ∀ k, (ILATsmAction.addSelectCounterAction (ck.visitActions actions).1.1 c).testBit k =
      (actions.toList.any (·.bit ck.stateNames k) ||
        (decide (k = 12) && decide (c = 1 ∨ c = 3)) ||
        (decide (k = 13) && decide (c = 2 ∨ c = 3))) := fun k => by
    rw [testBit_addSelectCounterAction, testBit_visitActions h.noError]
  have hplain : ∀ k, k ≠ 12 → k ≠ 13 →
      (ILATsmAction.addSelectCounterAction (ck.visitActions actions).1.1 c).testBit k =
        actions.toList.any (·.bit ck.stateNames k) := fun k h12 h13 => by
    rw [hword, decide_eq_false h12, decide_eq_false h13]
    simp
  have hcount : counterCount = 4 := rfl
  have hselect : ∀ k, k = 12 ∨ k = 13 → actions.toList.any (·.bit ck.stateNames k) = false := by
    intro k hk
    refine h.any_bit_eq_false (by omega) fun y hy => ?_
    cases y <;> simp [Action.bit, Action.isGoto] at hy ⊢ <;> omega
  rw [decode, Actions.effect, Effect.mk.injEq]
  refine ⟨?_, ?_, ?_, ?_, ?_, ?_, ?_, ?_⟩
  · refine Nat.eq_of_testBit_eq fun k => ?_
    rw [Nat.testBit_mod_two_pow]
    rcases Nat.lt_or_ge k 4 with hk | hk
    · rw [decide_eq_true hk, Bool.true_and, hplain k (by omega) (by omega), h.goto_bits hk]
    · have hpow : 2 ^ 4 ≤ 2 ^ k := Nat.pow_le_pow_right (by omega) hk
      have htarget := h.target_lt_two_pow
      rw [decide_eq_false (by omega), Bool.false_and, Nat.testBit_lt_two_pow (by omega)]
  · funext i
    rw [hplain _ (by omega) (by omega)]
    refine h.any_bit_eq (by omega) (fun _ => decide_eq_true rfl) fun y hy hbit => ?_
    cases y <;> simp [Action.bit, Action.isGoto] at hy hbit ⊢ <;> omega
  · funext i
    rw [hplain _ (by omega) (by omega)]
    refine h.any_bit_eq (by omega) (fun _ => decide_eq_true rfl) fun y hy hbit => ?_
    cases y <;> simp [Action.bit, Action.isGoto] at hy hbit ⊢ <;> omega
  · rw [hword 12, hword 13, hselect 12 (Or.inl rfl), hselect 13 (Or.inr rfl)]
    fin_cases c <;> rfl
  · funext i
    rw [hplain _ (by omega) (by omega)]
    refine h.any_bit_eq (by omega) (fun _ => decide_eq_true rfl) fun y hy hbit => ?_
    cases y <;> simp [Action.bit, Action.isGoto] at hy hbit ⊢ <;> omega
  · rw [hplain 18 (by omega) (by omega)]
    refine h.any_bit_eq_false (by omega) fun y hy => ?_
    cases y <;> simp [Action.bit, Action.isGoto] at hy ⊢ <;> omega
  · rw [hplain 19 (by omega) (by omega)]
    refine h.any_bit_eq (by omega) (fun _ => rfl) fun y hy hbit => ?_
    cases y <;> simp [Action.bit, Action.isGoto] at hy hbit ⊢ <;> omega
  · funext i
    rw [hplain _ (by omega) (by omega)]
    refine h.any_bit_eq (by omega) (fun _ => decide_eq_true rfl) fun y hy hbit => ?_
    cases y <;> simp [Action.bit, Action.isGoto] at hy hbit ⊢ <;> omega

/-- The word fits the 24 bits of the table. -/
theorem word_lt (h : BlockChecked ck actions) (c : Fin counterCount) :
    ILATsmAction.addSelectCounterAction (ck.visitActions actions).1.1 c < 2 ^ 24 := by
  have hcount : counterCount = 4 := rfl
  refine Nat.lt_pow_two_of_testBit _ fun k hk => ?_
  rw [testBit_addSelectCounterAction, testBit_visitActions h.noError,
    decide_eq_false (show ¬k = 12 by omega), decide_eq_false (show ¬k = 13 by omega),
    h.any_bit_eq_false (by omega)]
  · rfl
  · intro y hy
    cases y <;> simp [Action.bit, Action.isGoto] at hy ⊢ <;> omega

end BlockChecked

end Chipscopy.Tsm
