import Chipscopy.Lib.FirstFit
import Chipscopy.Lib.Python

/-! Lanes of transactions

    The completed transactions of one ID and kind are sorted by their start and packed into lanes,
    each into the first lane that has ended. Every lane is appended to the waveform as a signal
    that shows, at each sample, the label of the transaction active there. -/

namespace Chipscopy.Waveform

/-- `Transaction.resp`: whether the response was good, or a code. -/
inductive Response
  | good (isGood : Bool)
  | code (n : ℤ)
  deriving DecidableEq, Repr

/-- `str(t.resp)`. -/
def Response.str : Response → String
  | .good true => "True"
  | .good false => "False"
  | .code n => toString n

/-- The fields of a `Transaction` that its lane shows. -/
structure LaneTransaction where
  kind : String
  id : Option ℤ
  addr : Option ℤ
  startIdx : ℤ
  endIdx : Option ℤ
  resp : Option Response
  deriving DecidableEq, Repr

namespace LaneTransaction

def key (t : LaneTransaction) : ℤ × String := (t.id.getD 0, t.kind)

/-- `x.end_idx if x.end_idx is not None else x.start_idx`. -/
def lastIdx (t : LaneTransaction) : ℤ := t.endIdx.getD t.startIdx

/-- Order of `txns.sort`. -/
def before (t u : LaneTransaction) : Prop :=
  t.startIdx < u.startIdx ∨ t.startIdx = u.startIdx ∧ t.lastIdx ≤ u.lastIdx

instance : DecidableRel before := fun _ _ => inferInstanceAs (Decidable (_ ∨ _))

/-- `0x{t.addr:X}`. -/
def formatHex (n : ℤ) : String :=
  let sign := if n < 0 then ['-'] else []
  "0x" ++ String.ofList (sign ++ (Nat.toDigits 16 n.natAbs).map Char.toUpper)

/-- The label, for a table of capital letters. -/
def label (upper : String → String) (t : LaneTransaction) : String :=
  let addrStr := match t.addr with
    | some addr => formatHex addr
    | none => "N/A"
  let respStr := match t.resp with
    | some resp => resp.str
    | none => "N/A"
  let idStr := match t.id with
    | some id => toString id
    | none => "None"
  s!"{upper t.kind} ID={idStr} ADDR={addrStr} RESP={respStr}"

/-- Active at a sample. -/
def ActiveAt (i : ℤ) (t : LaneTransaction) : Prop := t.startIdx ≤ i ∧ i ≤ t.lastIdx

instance (i : ℤ) : DecidablePred (ActiveAt i) := fun _ => inferInstanceAs (Decidable (_ ∧ _))

end LaneTransaction

/-- Arguments of `append_manual_enum_signal`. -/
structure EnumSignal where
  name : String
  values : List String
  mapping : Py.Dict String ℕ

abbrev TransactionGroups := Py.Dict (ℤ × String) (List LaneTransaction)

def addToGroup (groups : TransactionGroups) (t : LaneTransaction) : TransactionGroups :=
  match t.endIdx with
  | none => groups
  | some _ => groups.set t.key ((groups.get? t.key).getD [] ++ [t])

def groupTransactions (transactions : List LaneTransaction) : TransactionGroups :=
  transactions.foldl addToGroup Py.Dict.empty

/-- `txns.sort` and the packing into `lanes`, each lane with its `lane_last_end`. -/
def packLanes (txns : List LaneTransaction) : List (ℤ × List LaneTransaction) :=
  FirstFit.pack LaneTransaction.startIdx LaneTransaction.lastIdx
    (txns.insertionSort LaneTransaction.before)

/-- `for i in range(s, e + 1): values[i] = label`. -/
def paint (label : String) (s e : ℤ) (values : List String) : List String :=
  ((List.range (e + 1 - s).toNat).map fun k : ℕ => (s + k).toNat).foldl
    (fun values i => values.set i label) values

/-- `values`, `enum_map` and `next_code` of a lane. -/
structure LaneState where
  values : List String
  enumMap : Py.Dict String ℕ
  nextCode : ℕ

/-- The lane before its transactions: idle everywhere. -/
def LaneState.start (n : ℕ) : LaneState where
  values := List.replicate n "-"
  enumMap := Py.Dict.empty.set "-" 0
  nextCode := 1

theorem LaneState.length_start (n : ℕ) : (start n).values.length = n := List.length_replicate

/-- A new label gets the next code. -/
def LaneState.addLabel (state : LaneState) (label : String) : LaneState :=
  if label ∈ state.enumMap.keys then state
  else { state with
    enumMap := state.enumMap.set label state.nextCode
    nextCode := state.nextCode + 1 }

section Emit

variable (upper capitalize : String → String)

def showTransaction (n : ℕ) (state : LaneState) (t : LaneTransaction) : LaneState :=
  let label := t.label upper
  let state := state.addLabel label
  let s := max 0 t.startIdx
  let e := min ((n : ℤ) - 1) t.lastIdx
  { state with values := paint label s e state.values }

def emitLane (n : ℕ) (baseName : String) (key : ℤ × String) (li : ℕ)
    (laneTxns : List LaneTransaction) : EnumSignal :=
  let state := laneTxns.foldl (showTransaction upper n) (LaneState.start n)
  { name := s!"{baseName}_ID{key.1}_{capitalize key.2}_{li}"
    values := state.values
    mapping := state.enumMap }

/-- The signals of one ID and kind. -/
def emitGroup (n : ℕ) (baseName : String) (group : (ℤ × String) × List LaneTransaction) :
    List EnumSignal :=
  (packLanes group.2).mapIdx fun li lane => emitLane upper capitalize n baseName group.1 li lane.2

/-- The signals appended to a waveform of `n` samples, in their order. -/
def appendPerIdBinaryLanes (n : ℕ) (namePrefix : Option String)
    (transactions : List LaneTransaction) : List EnumSignal :=
  let baseName := match namePrefix with
    | some name => if name = "" then "AXI" else name
    | none => "AXI"
  (groupTransactions transactions).entries.flatMap (emitGroup upper capitalize n baseName)

/-- A correct and minimal packing of transactions, shown as signals whose labels can be told apart
    by their codes. -/
structure ShowsPacked (n : ℕ) (txns : List LaneTransaction) (lanes : List (List LaneTransaction))
    (signals : List EnumSignal) : Prop where
  once : lanes.flatten.Perm txns
  apart : ∀ lane ∈ lanes, lane.Pairwise fun t u => ∀ i, ¬ (t.ActiveAt i ∧ u.ActiveAt i)
  fewest : IsGreatest {k | ∃ i : ℕ, i < n ∧ k = txns.countP fun t => decide (t.ActiveAt i)}
    lanes.length
  shows : List.Forall₂ (fun lane signal => signal.values.length = n ∧ ∀ i < n,
    (∀ t ∈ lane, t.ActiveAt i → signal.values[i]? = some (t.label upper)) ∧
    ((∀ t ∈ lane, ¬ t.ActiveAt i) → signal.values[i]? = some "-")) lanes signals
  coded : ∀ signal ∈ signals, (∀ v ∈ signal.values, v ∈ signal.mapping.keys) ∧
    ∀ label label' code, signal.mapping.get? label = some code →
      signal.mapping.get? label' = some code → label = label'

end Emit

/-! ### Groups -/

/-- The completed transactions of one ID and kind. -/
def completedOf (key : ℤ × String) (transactions : List LaneTransaction) : List LaneTransaction :=
  transactions.filter fun t => t.endIdx.isSome && t.key = key

theorem get?_addToGroup (groups : TransactionGroups) (t : LaneTransaction) (key : ℤ × String) :
    ((addToGroup groups t).get? key).getD [] = (groups.get? key).getD [] ++ completedOf key [t] := by
  rw [addToGroup, completedOf]
  split
  · next h => simp [h]
  · next e h =>
    rw [Py.Dict.get?_set]
    by_cases hkey : key = t.key
    · subst hkey
      simp [h]
    · simp [hkey, Ne.symm hkey]

theorem get?_foldl_addToGroup (key : ℤ × String) : ∀ (ts : List LaneTransaction)
    (groups : TransactionGroups), ((ts.foldl addToGroup groups).get? key).getD [] =
      (groups.get? key).getD [] ++ completedOf key ts
  | [], _ => (List.append_nil _).symm
  | t :: ts, groups => by
    have hsplit : completedOf key (t :: ts) = completedOf key [t] ++ completedOf key ts :=
      List.filter_append [t] ts
    rw [List.foldl_cons, get?_foldl_addToGroup key ts, get?_addToGroup, List.append_assoc, hsplit]

theorem getD_groupTransactions (transactions : List LaneTransaction) (key : ℤ × String) :
    ((groupTransactions transactions).get? key).getD [] = completedOf key transactions :=
  get?_foldl_addToGroup key transactions Py.Dict.empty

/-- No group is empty. -/
def NoneEmpty (groups : TransactionGroups) : Prop :=
  ∀ key txns, groups.get? key = some txns → txns ≠ []

theorem NoneEmpty.addToGroup {groups : TransactionGroups} (h : NoneEmpty groups)
    (t : LaneTransaction) : NoneEmpty (addToGroup groups t) := by
  intro key txns hget
  rw [Waveform.addToGroup] at hget
  split at hget
  · exact h key txns hget
  · rw [Py.Dict.get?_set] at hget
    split at hget
    · obtain rfl := Option.some.inj hget
      simp
    · exact h key txns hget

theorem noneEmpty_groupTransactions (transactions : List LaneTransaction) :
    NoneEmpty (groupTransactions transactions) := by
  rw [groupTransactions]
  induction transactions using List.reverseRecOn with
  | nil => exact fun key txns hget => nomatch hget
  | append_singleton ts t ih =>
    rw [List.foldl_append]
    exact ih.addToGroup t

/-- Groups are the completed transactions of the keys that have some. -/
theorem mem_groupTransactions {transactions : List LaneTransaction}
    {group : (ℤ × String) × List LaneTransaction} :
    group ∈ (groupTransactions transactions).entries ↔
      group.2 = completedOf group.1 transactions ∧ group.2 ≠ [] := by
  obtain ⟨key, txns⟩ := group
  have hvalue := getD_groupTransactions transactions key
  rw [← Py.Dict.get?_eq_some_iff]
  constructor
  · intro h
    rw [h] at hvalue
    exact ⟨hvalue, noneEmpty_groupTransactions transactions key txns h⟩
  · rintro ⟨htxns, hne⟩
    rw [← htxns] at hvalue
    rcases h : (groupTransactions transactions).get? key with _ | found
    · rw [h] at hvalue
      exact absurd hvalue.symm hne
    · rw [h] at hvalue
      exact congrArg some hvalue

/-! ### Values of a lane -/

theorem length_paint (label : String) (s e : ℤ) (values : List String) :
    (paint label s e values).length = values.length := by
  rw [paint]
  induction (List.range (e + 1 - s).toNat).map fun k : ℕ => (s + k).toNat generalizing values with
  | nil => rfl
  | cons i is ih => rw [List.foldl_cons, ih, List.length_set]

theorem getElem?_foldl_set (label : String) {i : ℕ} : ∀ (is : List ℕ) (values : List String),
    i < values.length → (is.foldl (fun values i => values.set i label) values)[i]? =
      if i ∈ is then some label else values[i]?
  | [], values, _ => by simp
  | j :: is, values, hi => by
    rw [List.foldl_cons, getElem?_foldl_set label is _ (by rwa [List.length_set])]
    by_cases hmem : i ∈ is
    · simp [hmem]
    · by_cases hj : i = j
      · subst hj
        simp [hi]
      · rw [if_neg hmem, if_neg (by simp [hmem, hj]), List.getElem?_set_ne (Ne.symm hj)]

theorem getElem?_paint {label : String} {s e : ℤ} (hs : 0 ≤ s) {values : List String} {i : ℕ}
    (hi : i < values.length) : (paint label s e values)[i]? =
      if s ≤ i ∧ i ≤ e then some label else values[i]? := by
  rw [paint, getElem?_foldl_set _ _ _ hi]
  refine if_congr ?_ rfl rfl
  rw [List.mem_map]
  constructor
  · rintro ⟨k, hk, hki⟩
    rw [List.mem_range] at hk
    omega
  · rintro ⟨hsi, hie⟩
    refine ⟨i - s.toNat, List.mem_range.mpr ?_, ?_⟩ <;> omega

theorem LaneState.addLabel_values (state : LaneState) (label : String) :
    (state.addLabel label).values = state.values := by
  rw [addLabel]
  split <;> rfl

section Shown

variable (upper : String → String) {n : ℕ} {state : LaneState}

theorem showTransaction_values (t : LaneTransaction) : (showTransaction upper n state t).values =
    paint (t.label upper) (max 0 t.startIdx) (min (n - 1) t.lastIdx) state.values := by
  rw [showTransaction, LaneState.addLabel_values]

theorem length_showTransaction (hlen : state.values.length = n) (t : LaneTransaction) :
    (showTransaction upper n state t).values.length = n := by
  rw [showTransaction_values, length_paint, hlen]

/-- A transaction is shown at the samples where it is active, and nothing else changes. -/
theorem getElem?_showTransaction (hlen : state.values.length = n) (t : LaneTransaction) {i : ℕ}
    (hi : i < n) : (showTransaction upper n state t).values[i]? =
      if t.ActiveAt i then some (t.label upper) else state.values[i]? := by
  rw [showTransaction_values, getElem?_paint (le_max_left _ _) (hlen ▸ hi)]
  refine if_congr ?_ rfl rfl
  rw [LaneTransaction.ActiveAt]
  omega

theorem length_foldl_showTransaction : ∀ {lane : List LaneTransaction} {state : LaneState},
    state.values.length = n → (lane.foldl (showTransaction upper n) state).values.length = n
  | [], _, hlen => hlen
  | t :: lane, _, hlen => by
    rw [List.foldl_cons]
    exact length_foldl_showTransaction (length_showTransaction upper hlen t)

/-- What a lane shows: its transactions never meet, so that none hides another. -/
theorem getElem?_foldl_showTransaction {i : ℕ} (hi : i < n) : ∀ {lane : List LaneTransaction}
    {state : LaneState}, state.values.length = n →
    lane.Pairwise (fun t u => ¬ (t.ActiveAt i ∧ u.ActiveAt i)) →
    let values := (lane.foldl (showTransaction upper n) state).values
    (∀ t ∈ lane, t.ActiveAt i → values[i]? = some (t.label upper)) ∧
      ((∀ t ∈ lane, ¬ t.ActiveAt i) → values[i]? = state.values[i]?)
  | [], _, _, _ => ⟨fun _ h => absurd h List.not_mem_nil, fun _ => rfl⟩
  | t :: lane, state, hlen, hapart => by
    obtain ⟨hfirst, hrest⟩ := List.pairwise_cons.mp hapart
    obtain ⟨hactive, hidle⟩ :=
      getElem?_foldl_showTransaction hi (length_showTransaction upper hlen t) hrest
    have hshow := getElem?_showTransaction upper hlen t hi
    constructor
    · intro u hu hactiveAt
      rcases List.mem_cons.mp hu with rfl | hu
      · rw [List.foldl_cons, hidle fun v hv hv' => hfirst v hv ⟨hactiveAt, hv'⟩, hshow,
          if_pos hactiveAt]
      · exact hactive u hu hactiveAt
    · intro hnone
      obtain ⟨hnot, hnone⟩ := List.forall_mem_cons.mp hnone
      rw [List.foldl_cons, hidle hnone, hshow, if_neg hnot]

/-- The signal of a lane whose transactions never meet. -/
theorem emitLane_shows (capitalize : String → String) (baseName : String) (key : ℤ × String)
    (li : ℕ) {lane : List LaneTransaction}
    (hapart : lane.Pairwise fun t u => ∀ i, ¬ (t.ActiveAt i ∧ u.ActiveAt i)) :
    (emitLane upper capitalize n baseName key li lane).values.length = n ∧ ∀ i < n,
      (∀ t ∈ lane, t.ActiveAt i →
        (emitLane upper capitalize n baseName key li lane).values[i]? = some (t.label upper)) ∧
      ((∀ t ∈ lane, ¬ t.ActiveAt i) →
        (emitLane upper capitalize n baseName key li lane).values[i]? = some "-") := by
  refine ⟨length_foldl_showTransaction upper (LaneState.length_start n), fun i hi => ?_⟩
  obtain ⟨hactive, hidle⟩ := getElem?_foldl_showTransaction upper hi
    (LaneState.length_start n) (hapart.imp fun {t u} h => h i)
  refine ⟨hactive, fun hnone => (hidle hnone).trans ?_⟩
  rw [LaneState.start, List.getElem?_replicate, if_pos hi]

end Shown

/-! ### Codes of a lane -/

/-- Every value has a code, and labels with one code are equal. -/
structure LaneState.Coded (state : LaneState) : Prop where
  known : ∀ v ∈ state.values, v ∈ state.enumMap.keys
  below : ∀ label code, state.enumMap.get? label = some code → code < state.nextCode
  unique : ∀ label label' code, state.enumMap.get? label = some code →
    state.enumMap.get? label' = some code → label = label'

theorem LaneState.coded_start (n : ℕ) : (start n).Coded := by
  have hget : ∀ label code, (start n).enumMap.get? label = some code → label = "-" ∧ code = 0 := by
    intro label code h
    rw [start, Py.Dict.get?_set] at h
    split at h
    · next hlabel => exact ⟨hlabel, (Option.some.inj h).symm⟩
    · cases h
  refine ⟨fun v hv => ?_, fun label code h => ?_, fun label label' code h h' => ?_⟩
  · rw [(List.mem_replicate.mp hv).2]
    exact List.mem_singleton_self _
  · rw [(hget label code h).2]
    exact Nat.one_pos
  · rw [(hget label code h).1, (hget label' code h').1]

theorem LaneState.Coded.addLabel {state : LaneState} (h : state.Coded) (label : String) :
    (state.addLabel label).Coded ∧ label ∈ (state.addLabel label).enumMap.keys := by
  rw [LaneState.addLabel]
  split
  · next hmem => exact ⟨h, hmem⟩
  · next hnew =>
    have hkeys : (state.enumMap.set label state.nextCode).keys = state.enumMap.keys ++ [label] := by
      rw [Py.Dict.keys_set, if_neg hnew]
    refine ⟨⟨fun v hv => ?_, fun l code hl => ?_, fun l l' code hl hl' => ?_⟩, ?_⟩
    · dsimp only
      rw [hkeys]
      exact List.mem_append_left _ (h.known v hv)
    · dsimp only at hl ⊢
      rw [Py.Dict.get?_set] at hl
      split at hl
      · obtain rfl := Option.some.inj hl
        exact Nat.lt_succ_self _
      · exact (h.below l code hl).trans (Nat.lt_succ_self _)
    · dsimp only at hl hl'
      rw [Py.Dict.get?_set] at hl hl'
      split at hl <;> split at hl'
      · next e e' => rw [e, e']
      · obtain rfl := Option.some.inj hl
        exact absurd (h.below l' _ hl') (lt_irrefl _)
      · obtain rfl := Option.some.inj hl'
        exact absurd (h.below l _ hl) (lt_irrefl _)
      · exact h.unique l l' code hl hl'
    · dsimp only
      rw [hkeys]
      exact List.mem_append_right _ (List.mem_singleton_self label)

theorem mem_foldl_set {label v : String} : ∀ {is : List ℕ} {values : List String},
    v ∈ is.foldl (fun values i => values.set i label) values → v = label ∨ v ∈ values
  | [], _, h => .inr h
  | i :: is, values, h => by
    rw [List.foldl_cons] at h
    rcases mem_foldl_set h with h | h
    · exact .inl h
    · exact (List.mem_or_eq_of_mem_set h).symm

theorem LaneState.Coded.showTransaction {state : LaneState} (h : state.Coded)
    (upper : String → String) (n : ℕ) (t : LaneTransaction) :
    (showTransaction upper n state t).Coded := by
  obtain ⟨hcoded, hmem⟩ := h.addLabel (t.label upper)
  refine ⟨fun v hv => ?_, hcoded.below, hcoded.unique⟩
  rcases mem_foldl_set hv with rfl | hv
  · exact hmem
  · exact hcoded.known v hv

/-- A lane is a signal that can be appended. -/
theorem emitLane_coded (upper capitalize : String → String) (n : ℕ) (baseName : String)
    (key : ℤ × String) (li : ℕ) (lane : List LaneTransaction) :
    let signal := emitLane upper capitalize n baseName key li lane
    (∀ v ∈ signal.values, v ∈ signal.mapping.keys) ∧
      ∀ label label' code, signal.mapping.get? label = some code →
        signal.mapping.get? label' = some code → label = label' := by
  have hcoded : (lane.foldl (showTransaction upper n) (LaneState.start n)).Coded := by
    induction lane using List.reverseRecOn with
    | nil => exact LaneState.coded_start n
    | append_singleton lane t ih =>
      rw [List.foldl_append]
      exact ih.showTransaction upper n t
  exact ⟨hcoded.known, hcoded.unique⟩

/-! ### Packed lanes -/

section Packed

variable {n : ℕ} {txns : List LaneTransaction}

/-- Inside the waveform. -/
def LaneTransaction.Inside (n : ℕ) (t : LaneTransaction) : Prop :=
  0 ≤ t.startIdx ∧ t.startIdx ≤ t.lastIdx ∧ t.lastIdx < n

theorem sorted_insertionSort (txns : List LaneTransaction) :
    (txns.insertionSort LaneTransaction.before).Pairwise fun t u => t.startIdx ≤ u.startIdx := by
  have htotal : Std.Total LaneTransaction.before := ⟨fun t u => by
    simp only [LaneTransaction.before]; omega⟩
  have htrans : IsTrans LaneTransaction LaneTransaction.before := ⟨fun t u v htu huv => by
    simp only [LaneTransaction.before] at *; omega⟩
  refine (List.pairwise_insertionSort LaneTransaction.before txns).imp fun {t u} h => ?_
  rw [LaneTransaction.before] at h
  omega

theorem packs_packLanes (hinside : ∀ t ∈ txns, t.Inside n) :
    FirstFit.Packs LaneTransaction.startIdx LaneTransaction.lastIdx
      (txns.insertionSort LaneTransaction.before) (packLanes txns) :=
  FirstFit.packs_pack
    (fun t ht => (hinside t ((List.perm_insertionSort _ _).mem_iff.mp ht)).2.1)
    (sorted_insertionSort txns)

/-- There are as many lanes as transactions active at the busiest sample. -/
theorem length_packLanes (hinside : ∀ t ∈ txns, t.Inside n) (hne : txns ≠ []) :
    IsGreatest {k | ∃ i : ℕ, i < n ∧ k = txns.countP fun t => decide (t.ActiveAt i)}
      (packLanes txns).length := by
  have hperm := List.perm_insertionSort LaneTransaction.before txns
  have hsorted : txns.insertionSort LaneTransaction.before ≠ [] := fun h =>
    hne (List.perm_nil.mp (h ▸ hperm).symm)
  obtain ⟨⟨⟨t, ht, hcount⟩, -⟩, hle⟩ := (packs_packLanes hinside).length_isGreatest hsorted
  obtain ⟨hstart, hend, hlast⟩ := hinside t (hperm.mem_iff.mp ht)
  simp only [hperm.countP_eq] at hcount hle
  constructor
  · refine ⟨t.startIdx.toNat, by omega, hcount.trans ?_⟩
    rw [Int.toNat_of_nonneg hstart]
    rfl
  · rintro k ⟨i, -, rfl⟩
    exact hle i

theorem showsPacked_emitGroup (upper capitalize : String → String) (baseName : String)
    (key : ℤ × String) (hinside : ∀ t ∈ txns, t.Inside n) (hne : txns ≠ []) :
    ShowsPacked upper n txns ((packLanes txns).map (·.2))
      (emitGroup upper capitalize n baseName (key, txns)) := by
  have hpacks := packs_packLanes hinside
  have hapart : ∀ lane ∈ (packLanes txns).map (·.2),
      lane.Pairwise fun t u => ∀ i, ¬ (t.ActiveAt i ∧ u.ActiveAt i) := by
    intro lane hlane
    obtain ⟨packed, hpacked, rfl⟩ := List.mem_map.mp hlane
    refine (hpacks.isLane packed hpacked).apart.imp fun {t u} h i hactive => ?_
    exact absurd (hactive.2.1.trans hactive.1.2) (not_le.mpr h)
  refine ⟨?_, hapart, ?_, ?_, fun signal hsignal => ?_⟩
  · rw [← List.flatMap_def]
    exact hpacks.perm.trans (List.perm_insertionSort _ _)
  · rw [List.length_map]
    exact length_packLanes hinside hne
  · refine List.forall₂_iff_get.mpr ⟨by simp [emitGroup], fun li hli hli' => ?_⟩
    have hlane := hapart _ (List.get_mem _ ⟨li, hli⟩)
    simp only [emitGroup, List.get_eq_getElem, List.getElem_map, List.getElem_mapIdx] at hlane ⊢
    exact emitLane_shows upper capitalize baseName key li hlane
  · obtain ⟨li, hli, rfl⟩ := List.mem_mapIdx.mp hsignal
    exact emitLane_coded upper capitalize n baseName key li _

end Packed

/-! ### The appended signals -/

/-- The signals of each ID and kind are a correct and minimal packing of its transactions. -/
theorem appendPerIdBinaryLanes_showsPacked (upper capitalize : String → String) (n : ℕ)
    (namePrefix : Option String) (transactions : List LaneTransaction)
    (hinside : ∀ t ∈ transactions, ∀ e, t.endIdx = some e →
      0 ≤ t.startIdx ∧ t.startIdx ≤ e ∧ e < n) :
    ∃ groups : List ((ℤ × String) × List (List LaneTransaction) × List EnumSignal),
      appendPerIdBinaryLanes upper capitalize n namePrefix transactions =
        groups.flatMap (fun group => group.2.2) ∧
      (groups.map (·.1)).Nodup ∧
      (∀ key, key ∈ groups.map (·.1) ↔ completedOf key transactions ≠ []) ∧
      ∀ group ∈ groups,
        ShowsPacked upper n (completedOf group.1 transactions) group.2.1 group.2.2 := by
  set baseName := match namePrefix with
    | some name => if name = "" then "AXI" else name
    | none => "AXI"
  refine ⟨(groupTransactions transactions).entries.map fun group =>
    (group.1, (packLanes group.2).map (·.2), emitGroup upper capitalize n baseName group),
    ?_, ?_, fun key => ?_, fun group hgroup => ?_⟩
  · rw [List.flatMap_map]
    rfl
  · rw [List.map_map]
    exact (groupTransactions transactions).nodup
  · simp only [List.map_map, List.mem_map, Function.comp_apply]
    constructor
    · rintro ⟨group, hgroup, rfl⟩
      obtain ⟨htxns, hne⟩ := mem_groupTransactions.mp hgroup
      exact htxns ▸ hne
    · exact fun hne => ⟨(key, completedOf key transactions), mem_groupTransactions.mpr ⟨rfl, hne⟩, rfl⟩
  · obtain ⟨⟨key, txns⟩, hmem, rfl⟩ := List.mem_map.mp hgroup
    obtain ⟨htxns, hne⟩ := mem_groupTransactions.mp hmem
    dsimp only at htxns hne ⊢
    rw [← htxns]
    refine showsPacked_emitGroup upper capitalize baseName key (fun t ht => ?_) hne
    rw [htxns, completedOf, List.mem_filter, Bool.and_eq_true, Option.isSome_iff_exists] at ht
    obtain ⟨hmem, ⟨e, he⟩, -⟩ := ht
    rw [LaneTransaction.Inside, LaneTransaction.lastIdx, he]
    exact hinside t hmem e he

/-- Two reads of one ID that overlap, and a pending write. -/
def overlappingReads : List LaneTransaction :=
  [⟨"read", some 1, some 16, 0, some 2, some (.good true)⟩, ⟨"read", some 1, none, 1, some 3, none⟩,
    ⟨"write", none, some 32, 1, none, none⟩]

theorem appendPerIdBinaryLanes_overlappingReads :
    ∃ groups : List ((ℤ × String) × List (List LaneTransaction) × List EnumSignal),
      appendPerIdBinaryLanes id id 4 none overlappingReads =
        groups.flatMap (fun group => group.2.2) ∧
      (groups.map (·.1)).Nodup ∧
      (∀ key, key ∈ groups.map (·.1) ↔ completedOf key overlappingReads ≠ []) ∧
      ∀ group ∈ groups,
        ShowsPacked id 4 (completedOf group.1 overlappingReads) group.2.1 group.2.2 :=
  appendPerIdBinaryLanes_showsPacked id id 4 none overlappingReads (by decide)

end Chipscopy.Waveform
