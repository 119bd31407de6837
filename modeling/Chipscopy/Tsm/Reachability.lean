import Chipscopy.Lib.DepthFirst
import Chipscopy.Tsm.Data

/-! States that are not reachable

    The checker walks the states from the first one along the branches, depth first, with one set of
    visited states. The call for state 0 also writes the report, after its branches. It is the
    outermost call: a branch back to state 0 finds it visited. -/

namespace Chipscopy.Tsm

open DepthFirst (visit)

/-- The report about states, by their names. -/
def unreachedMessage (tsmStates : List ILATsmState) (unreachedStates : List ℕ) : String :=
  let unreachedStateNames := ", ".intercalate
    (unreachedStates.map fun index => (tsmStates[index]?.map ILATsmState.name).getD "")
  s!"The following states are not reachable: {unreachedStateNames}."

/-- States that are not visited, in their order. -/
def unreachedStates (tsmStates : List ILATsmState) (visitedStates : Finset ℕ) : List ℕ :=
  (List.range tsmStates.length).filter (· ∉ visitedStates)

/-- One branch of a state: the visited states and the messages so far are kept. -/
def visitBranch (verify : Finset ℕ → ℕ → Option (Finset ℕ × List String))
    (acc : Finset ℕ × List String) (branch : ILATsmBranch) : Option (Finset ℕ × List String) := do
  let (visitedStates, messages) ← verify acc.1 branch.nextState
  return (visitedStates, acc.2 ++ messages)

/-- The visited states after a call, and the messages that it reports. -/
def verifyAllStatesVisited (tsmStates : List ILATsmState) :
    ℕ → Finset ℕ → ℕ → Option (Finset ℕ × List String)
  | 0, _, _ => none
  | fuel + 1, visitedStates, stateIndex =>
    match tsmStates[stateIndex]? with
    | none => some (visitedStates, [])
    | some state =>
      if stateIndex ∈ visitedStates then some (visitedStates, [])
      else
        let walked := state.branches.foldlM (visitBranch (verifyAllStatesVisited tsmStates fuel))
          (insert stateIndex visitedStates, [])
        walked.map fun (visitedStates, messages) =>
          if stateIndex = 0 ∧ tsmStates.length > visitedStates.card then
            (visitedStates, messages ++
              [unreachedMessage tsmStates (unreachedStates tsmStates visitedStates)])
          else (visitedStates, messages)

/-! ### The walk as a search -/

/-- Where the branches of a state go. -/
def nextStates (tsmStates : List ILATsmState) (stateIndex : ℕ) : Option (List ℕ) :=
  tsmStates[stateIndex]?.map fun state => state.branches.map ILATsmBranch.nextState

/-- States that branches lead to from the first state. -/
abbrev Reached (tsmStates : List ILATsmState) : ℕ → Prop :=
  DepthFirst.Reachable (nextStates tsmStates) 0

section

variable {tsmStates : List ILATsmState} {visitedStates : Finset ℕ} {fuel : ℕ}

theorem nextStates_isSome_iff {stateIndex : ℕ} :
    (nextStates tsmStates stateIndex).isSome ↔ stateIndex < tsmStates.length := by
  simp [nextStates]

/-- Branches whose calls report nothing are the search of their states. -/
theorem foldlM_visitBranch {verify : Finset ℕ → ℕ → Option (Finset ℕ × List String)}
    {search : Finset ℕ → ℕ → Option (Finset ℕ)}
    (hverify : ∀ seen i, 0 ∈ seen → verify seen i = (search seen i).map (·, []))
    (hsearch : ∀ seen i after, search seen i = some after → seen ⊆ after) :
    ∀ (branches : List ILATsmBranch) (seen : Finset ℕ) (messages : List String), 0 ∈ seen →
      branches.foldlM (visitBranch verify) (seen, messages) =
        ((branches.map ILATsmBranch.nextState).foldlM search seen).map (·, messages)
  | [], seen, messages, _ => rfl
  | branch :: branches, seen, messages, h => by
    rw [List.foldlM_cons, List.map_cons, List.foldlM_cons, visitBranch, hverify _ _ h]
    cases hrun : search seen branch.nextState with
    | none => rfl
    | some after =>
      have hafter : 0 ∈ after := hsearch seen _ after hrun h
      have ih := foldlM_visitBranch hverify hsearch branches after messages hafter
      simpa using ih

/-- Once state 0 is visited, a call reports nothing. -/
theorem verifyAllStatesVisited_visited (tsmStates : List ILATsmState) (fuel : ℕ)
    {visitedStates : Finset ℕ} (stateIndex : ℕ) (h : 0 ∈ visitedStates) :
    verifyAllStatesVisited tsmStates fuel visitedStates stateIndex =
      (visit (nextStates tsmStates) fuel visitedStates stateIndex).map (·, []) := by
  induction fuel generalizing visitedStates stateIndex with
  | zero => rfl
  | succ fuel ih =>
    rw [verifyAllStatesVisited, visit, nextStates]
    cases hstate : tsmStates[stateIndex]? with
    | none => rfl
    | some state =>
      by_cases hvisited : stateIndex ∈ visitedStates
      · simp [hvisited]
      · have hzero : stateIndex ≠ 0 := fun h0 => hvisited (h0 ▸ h)
        have hbranches := foldlM_visitBranch (fun _ i => ih i)
          (fun _ _ _ hrun => (DepthFirst.visit_explores hrun).subset) state.branches
          (insert stateIndex visitedStates) [] (Finset.mem_insert_of_mem h)
        simp [hvisited, hzero, hbranches, Function.comp_def]

/-- The call for state 0: the whole search, and one report if there is something to report. -/
theorem verifyAllStatesVisited_first (hne : tsmStates ≠ []) :
    verifyAllStatesVisited tsmStates (fuel + 1) ∅ 0 =
      (visit (nextStates tsmStates) (fuel + 1) ∅ 0).map fun visitedStates =>
        (visitedStates, if tsmStates.length > visitedStates.card then
          [unreachedMessage tsmStates (unreachedStates tsmStates visitedStates)] else []) := by
  obtain ⟨state, hstate⟩ : ∃ state, tsmStates[0]? = some state :=
    ⟨_, List.getElem?_eq_getElem (List.length_pos_iff.mpr hne)⟩
  have hbranches := foldlM_visitBranch
    (fun _ i => verifyAllStatesVisited_visited tsmStates fuel i)
    (fun _ _ _ hrun => (DepthFirst.visit_explores hrun).subset) state.branches
    (insert 0 ∅) [] (Finset.mem_insert_self 0 ∅)
  rw [verifyAllStatesVisited, visit, nextStates, hstate]
  simp only [Finset.notMem_empty, if_false, Option.map_some, hbranches, Option.map_map]
  congr 1
  funext visitedStates
  by_cases hmore : tsmStates.length > visitedStates.card <;> simp [hmore]

theorem Reached.lt {i : ℕ} (hne : tsmStates ≠ []) (h : Reached tsmStates i) :
    i < tsmStates.length := by
  rcases Relation.ReflTransGen.cases_tail h with heq | ⟨j, -, -, -, -, hnode⟩
  · rw [heq]
    exact List.length_pos_iff.mpr hne
  · exact nextStates_isSome_iff.mp hnode

/-- Fewer visited states than states: one of them is not visited. -/
theorem length_gt_card_iff (h : ∀ i ∈ visitedStates, i < tsmStates.length) :
    tsmStates.length > visitedStates.card ↔ unreachedStates tsmStates visitedStates ≠ [] := by
  have hsub : visitedStates ⊆ Finset.range tsmStates.length :=
    fun i hi => Finset.mem_range.mpr (h i hi)
  constructor
  · intro hlt hnil
    have hall : Finset.range tsmStates.length ⊆ visitedStates := by
      intro i hi
      have hnot := List.filter_eq_nil_iff.mp hnil i (List.mem_range.mpr (Finset.mem_range.mp hi))
      simpa using hnot
    have hcard := Finset.card_le_card hall
    rw [Finset.card_range] at hcard
    omega
  · intro hne
    obtain ⟨i, hi⟩ := List.exists_mem_of_ne_nil _ hne
    obtain ⟨hlt, hnot⟩ := List.mem_filter.mp hi
    have hproper : visitedStates ⊂ Finset.range tsmStates.length :=
      Finset.ssubset_iff_subset_ne.mpr ⟨hsub, fun heq => by simp_all⟩
    have hcard := Finset.card_lt_card hproper
    rwa [Finset.card_range] at hcard

/-- The call for state 0 ends with the reached states visited. -/
theorem verifyAllStatesVisited_reached (hne : tsmStates ≠ []) (hfuel : tsmStates.length < fuel) :
    ∃ visitedStates : Finset ℕ, (∀ i, i ∈ visitedStates ↔ Reached tsmStates i) ∧
      verifyAllStatesVisited tsmStates fuel ∅ 0 = some (visitedStates,
        if tsmStates.length > visitedStates.card then
          [unreachedMessage tsmStates (unreachedStates tsmStates visitedStates)] else []) := by
  have hnodes : ∀ i, (nextStates tsmStates i).isSome → i ∈ Finset.range tsmStates.length :=
    fun i hi => Finset.mem_range.mpr (nextStates_isSome_iff.mp hi)
  have hends : (visit (nextStates tsmStates) fuel ∅ 0).isSome :=
    DepthFirst.visit_isSome hnodes (by rwa [Finset.sdiff_empty, Finset.card_range])
  obtain ⟨visitedStates, hvisit⟩ := Option.isSome_iff_exists.mp hends
  obtain ⟨fuel, rfl⟩ : ∃ n, fuel = n + 1 := ⟨fuel - 1, by omega⟩
  refine ⟨visitedStates, DepthFirst.mem_visit_iff hvisit ?_, ?_⟩
  · exact nextStates_isSome_iff.mpr (List.length_pos_iff.mpr hne)
  · rw [verifyAllStatesVisited_first hne, hvisit, Option.map_some]

end

/-- State 1 goes back to the first state, and state 2 only to itself. -/
example :
    let state := fun name index next =>
      { name, index, branches := [⟨0, .default, none, next⟩] : ILATsmState }
    verifyAllStatesVisited [state "a" 0 1, state "b" 1 0, state "c" 2 2] 4 ∅ 0 =
      some ({0, 1}, ["The following states are not reachable: c."]) := by decide

end Chipscopy.Tsm
