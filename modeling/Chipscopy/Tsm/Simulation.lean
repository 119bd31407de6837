import Chipscopy.Tsm.Words

/-! The table simulates the program

    For a program without errors the states keep the order of the blocks, every branch goes to a
    state of the program, and the word at an address is the word of the branch that the inputs
    select, with the counter of the state it goes to. One step of the table is then one step of the
    program, and so is every run. -/

namespace Chipscopy.Tsm

/-! ### Names -/

theorem foldl_addState_ok : ∀ {blocks : List StateBlock} {names names' : List String}
    {errors : List String}, blocks.foldl addState (names, errors) = (names', []) → names.Nodup →
      errors = [] ∧ names' = names ++ blocks.map StateBlock.name ∧ names'.Nodup
  | [], names, names', errors, h, hnodup => by
    cases h
    exact ⟨rfl, (List.append_nil _).symm, hnodup⟩
  | block :: blocks, names, names', errors, h, hnodup => by
    rw [List.foldl_cons, addState] at h
    split at h
    · obtain ⟨herr, -, -⟩ := foldl_addState_ok h hnodup
      exact absurd herr (List.append_ne_nil_of_right_ne_nil _ (List.cons_ne_nil _ _))
    · next hnew =>
      have hnodup' : (names ++ [block.name]).Nodup :=
        List.Nodup.append hnodup (List.nodup_singleton _) (by simpa using hnew)
      obtain ⟨herr, hnames, hres⟩ := foldl_addState_ok h hnodup'
      exact ⟨herr, by rw [hnames, List.append_assoc]; rfl, hres⟩

theorem scanStates_ok {p : IlaTsm} (h : (scanStates p).2 = []) :
    (scanStates p).1 = p.blocks.map StateBlock.name ∧ (p.blocks.map StateBlock.name).Nodup ∧
      p.blocks.length ≤ maxStateCount := by
  cases hfold : p.blocks.foldl addState ([], []) with
  | mk names errors =>
    simp only [scanStates, hfold] at h ⊢
    split at h
    · simp at h
    · next hle =>
      obtain rfl : errors = [] := h
      obtain ⟨-, rfl, hnodup⟩ := foldl_addState_ok hfold List.nodup_nil
      rw [if_neg hle]
      rw [List.nil_append, List.length_map] at hle
      exact ⟨rfl, hnodup, Nat.le_of_not_lt hle⟩

/-! ### Conditions -/

/-- A condition evaluates like the list that it was made from. -/
theorem evalCondition_fromItemList {l : ConditionList} (h : verifyCondition l = [])
    (probeMux counterMux : Bool) :
    (ILATsmCondition.fromItemList l).evalCondition probeMux counterMux =
      l.holdsOn probeMux counterMux := by
  obtain ⟨k, rfl⟩ := verifyCondition_shape h
  rw [fromItemList_toList]
  cases k with
  | probes o mu mus =>
    rcases List.eq_nil_or_concat mus with rfl | ⟨init, mu', rfl⟩
    · rfl
    · rw [List.concat_eq_append]
      simp [Checked.condition, Checked.toList, ILATsmCondition.evalCondition,
        ConditionList.holdsOn, probeTail]
  | counter cmp =>
    by_cases hop : cmp.compareOp = .neq <;>
      simp [Checked.condition, Checked.toList, ILATsmCondition.evalCondition,
        ConditionList.holdsOn, ILATsmCondition.isInvertCounterMux, ILATsmCounterCompare.holdsOn, hop]
  | counterFirst cmp op o mu mus =>
    by_cases hop : cmp.compareOp = .neq <;> cases op <;>
      simp [Checked.condition, Checked.toList, ILATsmCondition.evalCondition,
        ConditionList.holdsOn, ILATsmCondition.isInvertCounterMux, ILATsmCounterCompare.holdsOn,
        LogicOp.eval, Bool.or_comm, Bool.and_comm, hop]
  | counterLast o mu mus op cmp =>
    by_cases hop : cmp.compareOp = .neq <;> cases op <;>
      simp [Checked.condition, Checked.toList, ILATsmCondition.evalCondition,
        ConditionList.holdsOn, ILATsmCondition.isInvertCounterMux, ILATsmCounterCompare.holdsOn,
        LogicOp.eval, hop]

theorem findCounters_probeTail (o : LogicOp) (mus : List ILATsmMatchUnit)
    (rest : List (LogicOp × Operand)) (mu : ILATsmMatchUnit) :
    findCounters [⟨.probe mu, probeTail o mus ++ rest⟩] = findCounters [⟨.probe mu, rest⟩] := by
  induction mus with
  | nil => rfl
  | cons mu' mus ih =>
    rw [← ih]
    simp [findCounters, ConditionList.operands]

/-- The counter of a condition is the one that its list compares. -/
theorem counterCompare_fromItemList {l : ConditionList} (h : verifyCondition l = []) :
    (ILATsmCondition.fromItemList l).counterCompare.map (·.counterIndex) =
      (findCounters [l]).head? := by
  obtain ⟨k, rfl⟩ := verifyCondition_shape h
  rw [fromItemList_toList]
  cases k with
  | probes o mu mus =>
    have hnone := findCounters_probeTail o mus [] mu
    rw [List.append_nil] at hnone
    rw [Checked.toList, hnone]
    rfl
  | counter cmp => rfl
  | counterFirst cmp op o mu mus => rfl
  | counterLast o mu mus op cmp =>
    rw [Checked.toList, findCounters_probeTail]
    rfl

/-! ### Branches of a block -/

/-- Conditions and action blocks of a state, in order. -/
def StateBlock.branches : StateBlock → List (Option Condition × Actions)
  | .stateNoIf _ actions => [(none, actions)]
  | .stateIf _ c => (some c.ifCond, c.ifActions) ::
      ((c.elseIf.map fun (cond, actions) => (some cond, actions)).toList ++
        (c.elseActions.map fun actions => (none, actions)).toList)

/-- The branch that the visitor makes of a condition and an action block. -/
def mkBranch (ck : ILATsmCheckAndBuild) (branch : (Option Condition × Actions) × ℕ) :
    ILATsmBranch where
  index := branch.2
  actions := (ck.visitActions branch.1.2).1.1
  condition := branch.1.1.map fun c => .fromItemList (visitFullCondition c).1
  nextState := (ck.visitActions branch.1.2).1.2

/-- What a block without errors satisfies. -/
structure StateChecked (ck : ILATsmCheckAndBuild) (block : StateBlock) : Prop where
  branches_eq : (ck.visitStateBlock block).1.branches = block.branches.zipIdx.map (mkBranch ck)
  blocks : ∀ e ∈ block.branches, BlockChecked ck e.2
  conditions : ∀ e ∈ block.branches, ∀ c, e.1 = some c →
    verifyCondition (visitFullCondition c).1 = []
  counters : ∀ i ∈ block.comparedCounters, ∀ j ∈ block.comparedCounters, i = j
  has_else : ∀ name c, block = .stateIf name c → c.elseActions ≠ none

theorem verifyCondition_of_visitFullCondition {c : Condition} (h : (visitFullCondition c).2 = []) :
    verifyCondition (visitFullCondition c).1 = [] := (List.append_eq_nil_iff.mp h).2

theorem findCounters_eq {conditions : List ConditionList}
    (h : verifyAllIfConditionCounters conditions = []) :
    ∀ i ∈ findCounters conditions, ∀ j ∈ findCounters conditions, i = j := by
  intro i hi j hj
  by_contra hne
  have hsub : [i, j] ⊆ (List.finRange counterCount).filter (· ∈ findCounters conditions) := by
    intro x hx
    rcases List.mem_pair.mp hx with rfl | rfl <;> simpa
  have hnodup : [i, j].Nodup := by simpa using hne
  have hlen : 1 < _ := (hnodup.subperm hsub).length_le
  rw [verifyAllIfConditionCounters, if_pos hlen] at h
  cases h

theorem stateChecked_of_visitStateBlock {ck : ILATsmCheckAndBuild} {block : StateBlock}
    (hnames : ck.stateNames.length ≤ maxStateCount) (h : (ck.visitStateBlock block).2 = []) :
    StateChecked ck block := by
  cases block with
  | stateNoIf name actions =>
    have hblock := blockChecked_of_visitActions hnames h
    refine ⟨rfl, ?_, ?_, ?_, ?_⟩
    · intro e he
      rw [List.mem_singleton.mp he]
      exact hblock
    · intro e he c hc
      rw [List.mem_singleton.mp he] at hc
      cases hc
    · intro i hi
      cases hi
    · intro name c hc
      cases hc
  | stateIf name c =>
    obtain ⟨ifCond, ifActions, elseIf, elseActions⟩ := c
    simp only [ILATsmCheckAndBuild.visitStateBlock, ILATsmCheckAndBuild.visitIfCondition,
      List.append_eq_nil_iff, List.flatMap_eq_nil_iff] at h
    obtain ⟨⟨⟨hcond, hact⟩, hcounters⟩, helse⟩ := h
    have hblocks : ∀ a ∈ (IfCondition.mk ifCond ifActions elseIf elseActions).actions,
        BlockChecked ck a := fun a ha =>
      blockChecked_of_visitActions hnames (hact _ (List.mem_map_of_mem ha))
    have hconds : ∀ c ∈ (IfCondition.mk ifCond ifActions elseIf elseActions).fullConditions,
        verifyCondition (visitFullCondition c).1 = [] := fun c hc =>
      verifyCondition_of_visitFullCondition (hcond _ (List.mem_map_of_mem hc))
    cases elseActions with
    | none =>
      -- as many action blocks as conditions
      cases elseIf <;> cases helse
    | some last =>
      refine ⟨?_, ?_, ?_, ?_, ?_⟩
      · cases elseIf <;> rfl
      · intro e he
        refine hblocks e.2 ?_
        cases elseIf <;> simp_all [StateBlock.branches, IfCondition.actions] <;> aesop
      · intro e he c hc
        refine hconds c ?_
        cases elseIf <;> simp_all [StateBlock.branches, IfCondition.fullConditions] <;> aesop
      · rw [List.map_map] at hcounters
        exact findCounters_eq hcounters
      · intro name' c hc
        cases hc
        exact Option.some_ne_none last

/-! ### Counter selection -/

/-- A branch with the counter of its next state. -/
def withCounter (counters : ℕ → Fin counterCount) (branch : ILATsmBranch) : ILATsmBranch :=
  { branch with
    actions := ILATsmAction.addSelectCounterAction branch.actions (counters branch.nextState) }

theorem findCounters_cons (l : ConditionList) (ls : List ConditionList) :
    (findCounters (l :: ls)).head? = (findCounters [l]).head?.or (findCounters ls).head? := by
  have happend : findCounters (l :: ls) = findCounters [l] ++ findCounters ls := by
    simp [findCounters]
  rw [happend, List.head?_append]

/-- The first counter compare of the branches. -/
theorem findSome_counterCompare (ck : ILATsmCheckAndBuild) :
    ∀ (branches : List (Option Condition × Actions)) (n : ℕ),
      (∀ e ∈ branches, ∀ c, e.1 = some c → verifyCondition (visitFullCondition c).1 = []) →
      (((branches.zipIdx n).map (mkBranch ck)).findSome? fun b =>
        b.condition.bind (·.counterCompare)).map (·.counterIndex) =
      (findCounters ((branches.filterMap (·.1)).map fun c => (visitFullCondition c).1)).head?
  | [], _, _ => rfl
  | (none, _) :: branches, n, h => by
    simpa [mkBranch] using findSome_counterCompare ck branches (n + 1)
      (List.forall_mem_cons.mp h).2
  | (some c, a) :: branches, n, h => by
    obtain ⟨hc, hrest⟩ := List.forall_mem_cons.mp h
    rw [show ((some c, a) :: branches).filterMap (·.1) = c :: branches.filterMap (·.1) from rfl,
      List.map_cons, findCounters_cons,
      ← counterCompare_fromItemList (hc c rfl), ← findSome_counterCompare ck branches (n + 1) hrest,
      List.zipIdx_cons, List.map_cons, List.findSome?_cons]
    cases hcmp : (ILATsmCondition.fromItemList (visitFullCondition c).1).counterCompare <;>
      simp [mkBranch, hcmp]

theorem comparedCounters_eq (block : StateBlock) : block.comparedCounters =
    findCounters ((block.branches.filterMap (·.1)).map fun c => (visitFullCondition c).1) := by
  cases block with
  | stateNoIf name actions => rfl
  | stateIf name c =>
    obtain ⟨ifCond, ifActions, elseIf, elseActions⟩ := c
    cases elseIf <;> cases elseActions <;> rfl

/-- A state takes the counter that its conditions compare. -/
theorem counterIndex_setCounterIndex {ck : ILATsmCheckAndBuild} {block : StateBlock}
    (h : StateChecked ck block) :
    (setCounterIndex (ck.visitStateBlock block).1).counterIndex =
      block.comparedCounters.head?.getD 0 := by
  rw [comparedCounters_eq, ← findSome_counterCompare ck block.branches 0 h.conditions,
    ← h.branches_eq, setCounterIndex]
  cases (ck.visitStateBlock block).1.branches.findSome? fun b =>
    b.condition.bind (·.counterCompare) <;> rfl

/-- The state of a block with the counters of its next states. -/
def selectedState (ck : ILATsmCheckAndBuild) (counters : ℕ → Fin counterCount)
    (block : StateBlock) : ILATsmState :=
  { setCounterIndex (ck.visitStateBlock block).1 with
    branches := (ck.visitStateBlock block).1.branches.map (withCounter counters) }

/-- Every branch goes to a state of the program, so the selection of counters does not fail. -/
theorem selectCounterActions_ok {ck : ILATsmCheckAndBuild} {blocks : List StateBlock}
    (hnames : ck.stateNames = blocks.map StateBlock.name) (hpos : 0 < blocks.length)
    (h : ∀ block ∈ blocks, StateChecked ck block) :
    selectCounterActions (blocks.map fun block => (ck.visitStateBlock block).1) =
      .ok (blocks.map (selectedState ck (comparedCounter blocks))) := by
  have hlen : ck.stateNames.length = blocks.length := by rw [hnames, List.length_map]
  have hbranch : ∀ block ∈ blocks, ∀ b ∈ (ck.visitStateBlock block).1.branches,
      selectCounterAction ((blocks.map fun block => (ck.visitStateBlock block).1).map
        setCounterIndex) b = .ok (withCounter (comparedCounter blocks) b) := by
    intro block hblock b hb
    rw [(h block hblock).branches_eq] at hb
    obtain ⟨⟨e, n⟩, he, rfl⟩ := List.mem_map.mp hb
    have hchecked := (h block hblock).blocks e (List.fst_mem_of_mem_zipIdx he)
    have hlt : (mkBranch ck (e, n)).nextState < blocks.length := by
      rw [← hlen, mkBranch, hchecked.nextState_eq]
      exact hchecked.target_lt (hlen ▸ hpos)
    have hnext : ((blocks.map fun block => (ck.visitStateBlock block).1).map
        setCounterIndex)[(mkBranch ck (e, n)).nextState]? =
        some (setCounterIndex (ck.visitStateBlock blocks[(mkBranch ck (e, n)).nextState]).1) := by
      rw [List.getElem?_map, List.getElem?_map, List.getElem?_eq_getElem hlt]
      rfl
    rw [selectCounterAction, hnext]
    simp only [counterIndex_setCounterIndex (h _ (List.getElem_mem hlt)), withCounter,
      comparedCounter, List.getElem?_eq_getElem hlt, Option.bind_some]
  rw [selectCounterActions]
  refine (Py.mapExcept_eq_ok (g := fun state =>
    { state with branches := state.branches.map (withCounter (comparedCounter blocks)) }) ?_).trans ?_
  · intro state hstate
    obtain ⟨st, hst, rfl⟩ := List.mem_map.mp hstate
    obtain ⟨block, hblock, rfl⟩ := List.mem_map.mp hst
    have hok := Py.mapExcept_eq_ok (hbranch block hblock)
    exact congrArg (Except.map fun branches =>
      { setCounterIndex (ck.visitStateBlock block).1 with branches := branches }) hok
  · rw [List.map_map, List.map_map]
    rfl

/-! ### Rows -/

theorem evalBranch_mkBranch {ck : ILATsmCheckAndBuild} {c : Condition} {actions : Actions} {n : ℕ}
    (counters : ℕ → Fin counterCount) (h : verifyCondition (visitFullCondition c).1 = [])
    (probeMux counterMux : Bool) :
    evalBranch (withCounter counters (mkBranch ck ((some c, actions), n))) probeMux counterMux =
      .ok (c.holdsOn probeMux counterMux) :=
  congrArg Except.ok (evalCondition_fromItemList h probeMux counterMux)

/-- The actions for the inputs are those of the block that the program selects. -/
theorem getActionsTsmForInputs_ok {ck : ILATsmCheckAndBuild} {block : StateBlock}
    (h : StateChecked ck block) (counters : ℕ → Fin counterCount) (inp : ILATsmInput) :
    getActionsTsmForInputs (selectedState ck counters block) inp =
      .ok (ILATsmAction.addSelectCounterAction (ck.visitActions (block.select inp)).1.1
        (counters (ck.visitActions (block.select inp)).1.2)) := by
  have hbranches : (selectedState ck counters block).branches =
      (block.branches.zipIdx.map (mkBranch ck)).map (withCounter counters) := by
    rw [selectedState, h.branches_eq]
  rw [getActionsTsmForInputs, hbranches]
  have hcond := h.conditions
  have helse := h.has_else
  cases block with
  | stateNoIf name actions => rfl
  | stateIf name c =>
    obtain ⟨ifCond, ifActions, elseIf, elseActions⟩ := c
    cases elseActions with
    | none => exact absurd rfl (helse name _ rfl)
    | some last =>
      have hif := hcond (some ifCond, ifActions) List.mem_cons_self ifCond rfl
      cases elseIf with
      | none =>
        simp only [StateBlock.branches, Option.map_none, Option.toList_none, List.nil_append,
          Option.map_some, Option.toList_some, List.zipIdx_cons, List.zipIdx_nil, List.map_cons,
          List.map_nil, evalBranch_mkBranch counters hif, StateBlock.select]
        cases ifCond.holdsOn inp.ifMux inp.counterMux <;> rfl
      | some e =>
        obtain ⟨cond, actions⟩ := e
        have helseIf := hcond (some cond, actions) (by simp [StateBlock.branches]) cond rfl
        simp only [StateBlock.branches, Option.map_some, Option.toList_some, List.cons_append,
          List.nil_append, List.zipIdx_cons, List.zipIdx_nil, List.map_cons, List.map_nil,
          evalBranch_mkBranch counters hif, evalBranch_mkBranch counters helseIf,
          StateBlock.select]
        cases ifCond.holdsOn inp.ifMux inp.counterMux with
        | true => rfl
        | false => cases cond.holdsOn inp.elseIfMux inp.counterMux <;> rfl

/-! ### The table -/

/-- The word of a state for the inputs. -/
def tableWord (ck : ILATsmCheckAndBuild) (blocks : List StateBlock) (block : StateBlock)
    (inp : ILATsmInput) : ILATsmAction :=
  ILATsmAction.addSelectCounterAction (ck.visitActions (block.select inp)).1.1
    (comparedCounter blocks (ck.visitActions (block.select inp)).1.2)

/-- What a program without errors satisfies. -/
structure ProgramChecked (ck : ILATsmCheckAndBuild) (p : IlaTsm) : Prop where
  names_eq : ck.stateNames = p.blocks.map StateBlock.name
  length_le : p.blocks.length ≤ maxStateCount
  blocks : ∀ block ∈ p.blocks, StateChecked ck block

theorem buildStates_ok {counterWidths : Fin counterCount → ℕ} {p : IlaTsm}
    (h : (buildStates counterWidths p).2 = []) : ∃ ck : ILATsmCheckAndBuild, ProgramChecked ck p ∧
      (buildStates counterWidths p).1 = p.blocks.map fun block => (ck.visitStateBlock block).1 := by
  cases hscan : scanStates p with
  | mk names errors =>
    simp only [buildStates, hscan] at h ⊢
    split at h
    · next hne => exact absurd h hne
    · next hnil =>
      rw [if_neg hnil]
      rw [not_not] at hnil
      obtain ⟨hnames, -, hle⟩ := scanStates_ok (p := p) (by rw [hscan]; exact hnil)
      rw [hscan] at hnames
      refine ⟨⟨names, counterWidths⟩, ⟨hnames, hle, fun block hblock => ?_⟩, ?_⟩
      · refine stateChecked_of_visitStateBlock ?_ ?_
        · rw [show names = p.blocks.map StateBlock.name from hnames, List.length_map]
          exact hle
        · exact List.flatMap_eq_nil_iff.mp h _ (List.mem_map_of_mem hblock)
      · rw [List.map_map]
        rfl

theorem length_inputRows : inputRows.length = tableRowsPerState := rfl

theorem getElem?_inputRows (inp : ILATsmInput) : inputRows[inp.row]? = some inp := by
  obtain ⟨ifMux, elseIfMux, counterMux⟩ := inp
  cases ifMux <;> cases elseIfMux <;> cases counterMux <;> rfl

theorem row_lt (inp : ILATsmInput) : inp.row < tableRowsPerState :=
  length_inputRows ▸ (List.getElem?_eq_some_iff.mp (getElem?_inputRows inp)).1

namespace ProgramChecked

variable {ck : ILATsmCheckAndBuild} {p : IlaTsm}

theorem createTsmTableActions_ok (h : ProgramChecked ck p) :
    createTsmTableActions (p.blocks.map (selectedState ck (comparedCounter p.blocks))) =
      .ok (p.blocks.flatMap (fun block => inputRows.map (tableWord ck p.blocks block)) ++
        List.replicate ((maxStateCount - p.blocks.length) * tableRowsPerState)
          ILATsmAction.default) := by
  have hrows : ((p.blocks.map (selectedState ck (comparedCounter p.blocks))).flatMap
      fun state => inputRows.map fun inp => (state, inp)) =
      (p.blocks.flatMap fun block => inputRows.map fun inp => (block, inp)).map
        fun row => (selectedState ck (comparedCounter p.blocks) row.1, row.2) := by
    simp [List.flatMap_map, List.map_flatMap, Function.comp_def]
  have hwords : Py.mapExcept (fun row : ILATsmState × ILATsmInput =>
      getActionsTsmForInputs row.1 row.2)
      ((p.blocks.flatMap fun block => inputRows.map fun inp => (block, inp)).map
        fun row => (selectedState ck (comparedCounter p.blocks) row.1, row.2)) =
      .ok (p.blocks.flatMap fun block => inputRows.map (tableWord ck p.blocks block)) := by
    rw [Py.mapExcept_map]
    refine (Py.mapExcept_eq_ok (g := fun row => tableWord ck p.blocks row.1 row.2) ?_).trans ?_
    · rintro ⟨block, inp⟩ hrow
      obtain ⟨block', hblock, hinp⟩ := List.mem_flatMap.mp hrow
      obtain ⟨inp', -, heq⟩ := List.mem_map.mp hinp
      cases heq
      exact getActionsTsmForInputs_ok (h.blocks _ hblock) _ _
    · simp [List.map_flatMap, Function.comp_def]
  simp only [createTsmTableActions, hrows, hwords, List.length_map]

theorem select_mem (block : StateBlock) (inp : ILATsmInput) :
    ∃ e ∈ block.branches, e.2 = block.select inp := by
  cases block with
  | stateNoIf name actions => exact ⟨_, List.mem_singleton_self _, rfl⟩
  | stateIf name c =>
    obtain ⟨ifCond, ifActions, elseIf, elseActions⟩ := c
    cases hif : ifCond.holdsOn inp.ifMux inp.counterMux with
    | true =>
      exact ⟨_, List.mem_cons_self, by simp only [StateBlock.select, hif, if_true]⟩
    | false =>
      cases elseIf with
      | none => cases elseActions <;> simp [StateBlock.branches, StateBlock.select, hif]
      | some e =>
        cases elseActions with
        | none => simp [StateBlock.branches, StateBlock.select, hif]
        | some last =>
          cases helse : e.1.holdsOn inp.elseIfMux inp.counterMux <;>
            simp [StateBlock.branches, StateBlock.select, hif, helse]

theorem select_checked (h : ProgramChecked ck p) {block : StateBlock} (hblock : block ∈ p.blocks)
    (inp : ILATsmInput) : BlockChecked ck (block.select inp) := by
  obtain ⟨e, he, heq⟩ := select_mem block inp
  exact heq ▸ (h.blocks block hblock).blocks e he

/-- The word of a state does what the program does there. -/
theorem decode_tableWord (h : ProgramChecked ck p) {block : StateBlock} (hblock : block ∈ p.blocks)
    (inp : ILATsmInput) :
    decode (tableWord ck p.blocks block inp) = block.effect p.blocks inp := by
  have hchecked := h.select_checked hblock inp
  rw [tableWord, hchecked.decode_word, hchecked.nextState_eq, h.names_eq]
  rfl

theorem target_lt (h : ProgramChecked ck p) {block : StateBlock} (hblock : block ∈ p.blocks)
    (inp : ILATsmInput) : (block.effect p.blocks inp).goto < p.blocks.length := by
  have hlen : ck.stateNames.length = p.blocks.length := by rw [h.names_eq, List.length_map]
  rw [StateBlock.effect, ← h.names_eq, ← hlen]
  exact (h.select_checked hblock inp).target_lt (by rw [hlen]; exact Nat.succ_pos _)

/-- All conditions of a state compare the counter that is selected on entering it. -/
theorem comparedCounter_eq (h : ProgramChecked ck p) {s : ℕ} {block : StateBlock}
    (hs : p.blocks[s]? = some block) {i : Fin counterCount} (hi : i ∈ block.comparedCounters) :
    comparedCounter p.blocks s = i := by
  have hcounters := (h.blocks block (List.mem_of_getElem? hs)).counters
  rw [comparedCounter, hs, Option.bind_some]
  cases hhead : block.comparedCounters with
  | nil => rw [hhead] at hi; cases hi
  | cons j js => exact hcounters j (hhead ▸ List.mem_cons_self) i hi

end ProgramChecked

/-- The table as rows of words. -/
theorem compileTable_ok {counterWidths : Fin counterCount → ℕ} {p : IlaTsm}
    (h : (buildStates counterWidths p).2 = []) : ∃ ck, ProgramChecked ck p ∧
      compileTable counterWidths p =
        .ok (p.blocks.flatMap (fun block => inputRows.map (tableWord ck p.blocks block)) ++
          List.replicate ((maxStateCount - p.blocks.length) * tableRowsPerState)
            ILATsmAction.default) := by
  obtain ⟨ck, hck, hbuild⟩ := buildStates_ok h
  refine ⟨ck, hck, ?_⟩
  simp only [compileTable, hbuild,
    selectCounterActions_ok hck.names_eq (Nat.succ_pos _) hck.blocks]
  exact hck.createTsmTableActions_ok

/-- The state that an accepted program is in after a branch, and what it does on the way, is what
    the word at the address of the state and of the inputs says; only that word says so. The
    selected counter is the one the entered state compares. Hence the table runs like the program
    from state 0, on every sequence of inputs. -/
theorem compileTable_simulates {counterWidths : Fin counterCount → ℕ} {p : IlaTsm}
    (h : (buildStates counterWidths p).2 = []) : ∃ table, compileTable counterWidths p = .ok table ∧
      table.length = 128 ∧
      (∀ s block, p.blocks[s]? = some block → ∀ inp : ILATsmInput, ∃ word < 2 ^ 24,
        table[s * tableRowsPerState + inp.row]? = some word ∧ decode word = block.effect p.blocks inp ∧
        (∀ word' < 2 ^ 24, decode word' = decode word → word' = word) ∧
        ∃ next, p.blocks[(decode word).goto]? = some next ∧
          ∀ i ∈ next.comparedCounters, (decode word).selectCounter = i) ∧
      ∀ inputs, Machine.run (tableStep table) 0 inputs =
        Machine.run (sourceStep p.blocks) 0 inputs := by
  obtain ⟨ck, hck, htable⟩ := compileTable_ok h
  have hlen : ∀ block, (inputRows.map (tableWord ck p.blocks block)).length = tableRowsPerState :=
    fun block => by rw [List.length_map, length_inputRows]
  have hword : ∀ s block, p.blocks[s]? = some block → ∀ inp : ILATsmInput,
      (p.blocks.flatMap (fun block => inputRows.map (tableWord ck p.blocks block)) ++
        List.replicate ((maxStateCount - p.blocks.length) * tableRowsPerState)
          ILATsmAction.default)[s * tableRowsPerState + inp.row]? =
          some (tableWord ck p.blocks block inp) := by
    intro s block hs inp
    have hrow := Py.getElem?_flatMap_of_length hlen p.blocks s (row_lt inp)
    rw [hs, Option.bind_some, List.getElem?_map, getElem?_inputRows, Option.map_some] at hrow
    rw [List.getElem?_append_left (List.getElem?_eq_some_iff.mp hrow).1, hrow]
  refine ⟨_, htable, ?_, fun s block hs inp => ?_, fun inputs => ?_⟩
  · have hrows : (p.blocks.flatMap fun block => inputRows.map (tableWord ck p.blocks block)).length =
        p.blocks.length * tableRowsPerState := by
      simp [List.length_flatMap, hlen]
    have hle : p.blocks.length ≤ 16 := hck.length_le
    rw [List.length_append, List.length_replicate, hrows, maxStateCount, tableRowsPerState]
    omega
  · have hblock := List.mem_of_getElem? hs
    have hdecode := hck.decode_tableWord hblock inp
    have hlt : tableWord ck p.blocks block inp < 2 ^ 24 := (hck.select_checked hblock inp).word_lt _
    have hnext := List.getElem?_eq_getElem (hck.target_lt hblock inp)
    refine ⟨tableWord ck p.blocks block inp, hlt, hword s block hs inp, hdecode, fun word' hw' heq =>
      decode_injective hw' hlt heq, ?_⟩
    rw [hdecode]
    exact ⟨_, hnext, fun i hi => congrArg Fin.val (hck.comparedCounter_eq hnext hi)⟩
  · have hstep : ∀ s (hs : s < p.blocks.length) inp, tableStep _ s inp =
        ((p.blocks[s].effect p.blocks inp).goto, p.blocks[s].effect p.blocks inp) :=
      fun s hs inp => by
        rw [tableStep, List.getD_eq_getElem?_getD, hword s _ (List.getElem?_eq_getElem hs),
          Option.getD_some, hck.decode_tableWord (List.getElem_mem hs)]
    refine Machine.run_eq (fun s => s < p.blocks.length) (fun s inp hs => ?_)
      (fun s inp hs => ?_) inputs (Nat.succ_pos _)
    · rw [hstep s hs]
      exact hck.target_lt (List.getElem_mem hs) inp
    · rw [hstep s hs, sourceStep, List.getElem?_eq_getElem hs]

/-- State `wait` counts until probe `a` is set, or `$counter1` has reached its value; `fire`
    triggers. -/
def waitForProbe : IlaTsm where
  first := .stateIf "wait" {
    ifCond := .logicOp (probeCompare "a") .or (.counterMatch ⟨1, .eq, ['1', '1']⟩)
    ifActions := { first := .setFlag 2, rest := [.goto "fire"] }
    elseActions := some { first := .incCounter 1, rest := [.goto "wait"] } }
  rest := [.stateNoIf "fire" { first := .trigger }]

theorem compileTable_simulates_waitForProbe : ∃ table,
    compileTable (fun _ => 8) waitForProbe = .ok table ∧
    Machine.run (tableStep table) 0 [⟨false, false, false⟩, ⟨false, false, true⟩] =
      Machine.run (sourceStep waitForProbe.blocks) 0 [⟨false, false, false⟩, ⟨false, false, true⟩] := by
  have haccepted : (buildStates (fun _ => 8) waitForProbe).2 = [] := rfl
  obtain ⟨table, htable, -, -, hrun⟩ := compileTable_simulates haccepted
  exact ⟨table, htable, hrun _⟩

end Chipscopy.Tsm
