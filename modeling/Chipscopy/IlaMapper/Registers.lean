import Chipscopy.IlaMapper.Placement

/-! Trigger condition and match unit registers

    `get_reg_mu_mapping` writes one register for each condition (an operator and one character per
    match unit: `X` unused, `1` used, `0` used with inverted input, least significant unit last) and
    one for each match unit in use. The hardware evaluates a match unit on its port and a condition
    register on the match units it selects. `nor` is written as `and` over inverted inputs. A
    condition whose register no later write replaces then evaluates to what the condition means. -/

namespace Chipscopy.Mapping

namespace IlaMapper

/-- Operator that a condition register starts with; `nor` becomes `and` after de Morgan. -/
def conditionMappingOp : ConditionOp → List Char
  | .and => ['=', '=']
  | .nand => ['!', '=']
  | .or => ['|', '|']
  | .nor => ['=', '=']

def conditionName (isBasicCapture : Bool) (cIndex : ℕ) (c : Condition) : String :=
  if c.name ≠ "" then c.name else if isBasicCapture then "sqc" else "tc" ++ toString cIndex

def muName (muIndex : ℕ) : String := "mu" ++ toString muIndex

/-- Match units that the matches of a condition use. -/
def muUsed (getMuIndex : ℕ → ℕ → ℕ) : List Match → List Bool → Except Py.Error (List Bool)
  | [], used => .ok used
  | mt :: mts, used =>
    if 0 ≤ mt.muIndex then
      let i := getMuIndex mt.portIndex mt.muIndex.toNat
      if i < used.length then muUsed getMuIndex mts (used.set i true) else .error .indexError
    else muUsed getMuIndex mts used

def conditionRegister (muCount : ℕ) (getMuIndex : ℕ → ℕ → ℕ) (c : Condition) :
    Except Py.Error (List Char) :=
  match muUsed getMuIndex c.matchList (List.replicate muCount false) with
  | .error e => .error e
  | .ok used =>
    -- LSB should be at end for value.
    let muUsed := used.reverse
    let cmpValue :=
      if c.op = .nor then muUsed.map fun u => if u then '0' else 'X'
      else muUsed.map fun u => if u then '1' else 'X'
    .ok (conditionMappingOp c.op ++ cmpValue)

/-- Port index, unit index on the port and value of every match unit in use. -/
def units (m : IlaMapper) : List (ℕ × ℕ × List Char) :=
  m.ports.zipIdx.flatMap fun (port, pIndex) =>
    port.muValues.zipIdx.map fun (muVal, muIndexForPort) => (pIndex, muIndexForPort, muVal)

def getRegMuMapping (m : IlaMapper) (muCount : ℕ) (getMuIndex : ℕ → ℕ → ℕ) :
    Except Py.Error (Py.Dict String (List Char)) :=
  let entry := fun ((c, cIndex) : Condition × ℕ) =>
    match conditionRegister muCount getMuIndex c with
    | .error e => .error e
    | .ok reg => .ok (conditionName m.isBasicCapture cIndex c, reg)
  match Py.mapExcept entry m.conditions.zipIdx with
  | .error e => .error e
  | .ok tcs =>
    .ok ((Py.Dict.empty.update tcs).update
      (m.units.map fun (p, j, muVal) => (muName (getMuIndex p j), muVal)))

end IlaMapper

/-! ### What the registers mean -/

/-- Split a match unit register into operator and bit characters. -/
def decodeMuValue : List Char → Option (MatchOp × List Char)
  | '=' :: '=' :: value => some (.eq, value)
  | '!' :: '=' :: value => some (.neq, value)
  | '|' :: '|' :: value => some (.reductionOr, value)
  | '>' :: '=' :: value => some (.ge, value)
  | '<' :: '=' :: value => some (.le, value)
  | '>' :: value => some (.gt, value)
  | '<' :: value => some (.lt, value)
  | _ => none

/-- The port that match unit `muIndex` watches. -/
def muPort (m : IlaMapper) (getMuIndex : ℕ → ℕ → ℕ) (muIndex : ℕ) : Option ℕ :=
  (m.units.find? fun (p, j, _) => getMuIndex p j == muIndex).map (·.1)

/-- Output of a match unit. -/
def muHolds (regs : Py.Dict String (List Char)) (wiring : ℕ → Option ℕ) (port : ℕ → Signal)
    (muIndex : ℕ) : Bool :=
  match wiring muIndex, (regs.get? (IlaMapper.muName muIndex)).bind decodeMuValue with
  | some p, some (op, value) => valueHolds (port p) op 0 value
  | _, _ => false

/-- Inputs that a condition register selects, least significant match unit first. -/
def selectedInputs (mu : ℕ → Bool) : ℕ → List Char → List Bool
  | _, [] => []
  | i, ch :: chs =>
    if ch = '1' then mu i :: selectedInputs mu (i + 1) chs
    else if ch = '0' then (!mu i) :: selectedInputs mu (i + 1) chs
    else selectedInputs mu (i + 1) chs

/-- Value of a condition register on the outputs of the match units. -/
def conditionRegisterHolds (mu : ℕ → Bool) : List Char → Bool
  | '=' :: '=' :: bits => (selectedInputs mu 0 bits.reverse).all id
  | '!' :: '=' :: bits => !(selectedInputs mu 0 bits.reverse).all id
  | '|' :: '|' :: bits => (selectedInputs mu 0 bits.reverse).any id
  | _ => false

/-- Value of the named condition in a register file. -/
def registerHolds (regs : Py.Dict String (List Char)) (wiring : ℕ → Option ℕ) (port : ℕ → Signal)
    (name : String) : Bool :=
  match regs.get? name with
  | some reg => conditionRegisterHolds (muHolds regs wiring port) reg
  | none => false

/-! ### Match unit registers -/

theorem not_equals_of_upper {ch : Char} (h : ch ∈ matchBitValues) : ch ≠ '=' := by
  rintro rfl
  revert h
  simp [matchBitValues]

theorem decodeMuValue_chars (op : MatchOp) {value : List Char} (h : Match.UpperBitChars value) :
    decodeMuValue (op.chars ++ value) = some (op, value) := by
  cases op with
  | eq | neq | ge | le | reductionOr => rfl
  | gt | lt =>
    -- the value does not continue a one character operator
    cases value with
    | nil => rfl
    | cons ch chs =>
      have hne := not_equals_of_upper (h ch List.mem_cons_self).1
      simp only [MatchOp.chars, List.cons_append, List.nil_append]
      unfold decodeMuValue
      split <;> simp_all

theorem mem_units {m : IlaMapper} {p j : ℕ} {v : List Char} :
    (p, j, v) ∈ m.units ↔ ∃ port, m.ports[p]? = some port ∧ port.muValues[j]? = some v := by
  simp only [IlaMapper.units, List.mem_flatMap, List.mem_map, Prod.exists, List.mem_zipIdx_iff_getElem?]
  constructor
  · rintro ⟨port, p', hp, v', j', hv, heq⟩
    cases heq
    exact ⟨port, hp, hv⟩
  · rintro ⟨port, hp, hv⟩
    exact ⟨port, p, hp, v, j, hv, rfl⟩

theorem muName_injective : Function.Injective IlaMapper.muName := by
  intro i j h
  have hlist := congrArg String.toList h
  simp only [IlaMapper.muName, String.toList_append, List.append_cancel_left_eq] at hlist
  exact Nat.repr_injective (String.toList_inj.mp hlist)

/-- `get_mu_index` gives different match units in use different indices. -/
def MuIndexInjective (m : IlaMapper) (getMuIndex : ℕ → ℕ → ℕ) : Prop :=
  ∀ u ∈ m.units, ∀ u' ∈ m.units, getMuIndex u.1 u.2.1 = getMuIndex u'.1 u'.2.1 →
    u.1 = u'.1 ∧ u.2.1 = u'.2.1

theorem MuIndexInjective.eq {m : IlaMapper} {getMuIndex : ℕ → ℕ → ℕ}
    (h : MuIndexInjective m getMuIndex) {u u' : ℕ × ℕ × List Char} (hu : u ∈ m.units)
    (hu' : u' ∈ m.units) (heq : getMuIndex u.1 u.2.1 = getMuIndex u'.1 u'.2.1) : u = u' := by
  obtain ⟨p, j, v⟩ := u
  obtain ⟨p', j', v'⟩ := u'
  obtain ⟨rfl, rfl⟩ : p = p' ∧ j = j' := h _ hu _ hu' heq
  obtain ⟨port, hport, hv⟩ := mem_units.mp hu
  obtain ⟨port', hport', hv'⟩ := mem_units.mp hu'
  rw [hport] at hport'
  cases hport'
  rw [hv] at hv'
  cases hv'
  rfl

theorem muPort_eq {m : IlaMapper} {getMuIndex : ℕ → ℕ → ℕ} (h : MuIndexInjective m getMuIndex)
    {p j : ℕ} {v : List Char} (hu : (p, j, v) ∈ m.units) :
    muPort m getMuIndex (getMuIndex p j) = some p := by
  have hsome : (m.units.find? fun (p', j', _) => getMuIndex p' j' == getMuIndex p j).isSome := by
    rw [List.find?_isSome]
    exact ⟨_, hu, beq_self_eq_true _⟩
  obtain ⟨u, hfind⟩ := Option.isSome_iff_exists.mp hsome
  have hidx : getMuIndex u.1 u.2.1 = getMuIndex p j := by
    simpa using List.find?_some hfind
  rw [muPort, hfind, Option.map_some, h.eq (List.mem_of_find?_eq_some hfind) hu hidx]

/-- The register of a match unit in use is the value that the mapper put on that unit. -/
theorem getRegMuMapping_unit {m : IlaMapper} {muCount : ℕ} {getMuIndex : ℕ → ℕ → ℕ}
    {regs : Py.Dict String (List Char)} (h : MuIndexInjective m getMuIndex)
    (hregs : m.getRegMuMapping muCount getMuIndex = .ok regs) {p j : ℕ} {v : List Char}
    (hu : (p, j, v) ∈ m.units) : regs.get? (IlaMapper.muName (getMuIndex p j)) = some v := by
  simp only [IlaMapper.getRegMuMapping] at hregs
  split at hregs
  · cases hregs
  · cases hregs
    refine Py.Dict.get?_update_of_mem _ _ (List.mem_map.mpr ⟨_, hu, rfl⟩) ?_
    intro e he hname
    obtain ⟨u, hu', rfl⟩ := List.mem_map.mp he
    rw [h.eq hu' hu (muName_injective hname)]

/-- A placed match and its match unit agree. -/
theorem muHolds_of_placed {m : IlaMapper} {muCount : ℕ} {getMuIndex : ℕ → ℕ → ℕ}
    {regs : Py.Dict String (List Char)} (port : ℕ → Signal) (h : MuIndexInjective m getMuIndex)
    (hregs : m.getRegMuMapping muCount getMuIndex = .ok regs) {mt : Match}
    (hupper : Match.UpperBitChars mt.value) (hplaced : Placed m.ports mt) :
    muHolds regs (muPort m getMuIndex) port (getMuIndex mt.portIndex mt.muIndex.toNat) =
      mt.holds port := by
  obtain ⟨p, j, v, hp, hj, hv, hget⟩ := hplaced
  have hu : (mt.portIndex, j, mt.op.chars ++ v) ∈ m.units := mem_units.mpr ⟨p, hp, hget⟩
  have hdecode : decodeMuValue (mt.op.chars ++ v) = some (mt.op, v) :=
    decodeMuValue_chars mt.op (Match.upperBitChars_resizeValue hupper hv)
  rw [hj, Int.toNat_natCast, muHolds, muPort_eq h hu, getRegMuMapping_unit h hregs hu,
    Option.bind_some, hdecode]
  show valueHolds _ mt.op 0 v = valueHolds _ mt.op mt.bitIndex mt.value
  rw [valueHolds, Match.specified_resizeValue _ hv, valueHolds]

/-! ### Condition registers -/

theorem muUsed_ok (getMuIndex : ℕ → ℕ → ℕ) : ∀ {mts : List Match} {used used' : List Bool},
    IlaMapper.muUsed getMuIndex mts used = .ok used' → ∀ i, used'[i]? = some true ↔
      used[i]? = some true ∨
        ∃ mt ∈ mts, 0 ≤ mt.muIndex ∧ getMuIndex mt.portIndex mt.muIndex.toNat = i
  | [], used, used', h, i => by cases h; simp
  | mt :: mts, used, used', h, i => by
    simp only [IlaMapper.muUsed] at h
    split at h
    · next hmu =>
      split at h
      · next hlt =>
        rw [muUsed_ok getMuIndex h i, List.getElem?_set]
        by_cases hi : getMuIndex mt.portIndex mt.muIndex.toNat = i
        · subst hi
          simp [hmu, hlt]
        · simp [hi]
      · cases h
    · next hmu =>
      rw [muUsed_ok getMuIndex h i]
      simp [hmu]

/-- The inputs that a register selects, with or without inversion. -/
theorem mem_selectedInputs (mu : ℕ → Bool) (neg b : Bool) : ∀ (i : ℕ) (used : List Bool),
    b ∈ selectedInputs mu i (used.map fun u => if u then (if neg then '0' else '1') else 'X') ↔
      ∃ k, used[k]? = some true ∧ b = (neg ^^ mu (i + k))
  | i, [] => by simp [selectedInputs]
  | i, u :: used => by
    have ih := mem_selectedInputs mu neg b (i + 1) used
    have hcons : (∃ k, (u :: used)[k]? = some true ∧ b = (neg ^^ mu (i + k))) ↔
        (u = true ∧ b = (neg ^^ mu i)) ∨ ∃ k, used[k]? = some true ∧ b = (neg ^^ mu (i + 1 + k)) := by
      constructor
      · rintro ⟨k, hk, hb⟩
        cases k with
        | zero => exact Or.inl ⟨by simpa using hk, by simpa using hb⟩
        | succ k => exact Or.inr ⟨k, by simpa using hk, by rw [hb, Nat.add_right_comm, Nat.add_assoc]⟩
      · rintro (⟨rfl, hb⟩ | ⟨k, hk, hb⟩)
        · exact ⟨0, by simp, by simpa using hb⟩
        · exact ⟨k + 1, by simpa using hk, by rw [hb, Nat.add_right_comm, Nat.add_assoc]⟩
    rw [hcons, ← ih]
    cases u <;> cases neg <;> simp [selectedInputs]

theorem conditionRegister_ok {muCount : ℕ} {getMuIndex : ℕ → ℕ → ℕ} {c : Condition}
    {reg : List Char} (h : IlaMapper.conditionRegister muCount getMuIndex c = .ok reg) :
    ∃ used : List Bool, (∀ i, used[i]? = some true ↔
        ∃ mt ∈ c.matchList, 0 ≤ mt.muIndex ∧ getMuIndex mt.portIndex mt.muIndex.toNat = i) ∧
      reg = IlaMapper.conditionMappingOp c.op ++ (used.map fun u =>
        if u then (if decide (c.op = .nor) then '0' else '1') else 'X').reverse := by
  simp only [IlaMapper.conditionRegister] at h
  split at h
  · cases h
  · next used hused =>
    cases h
    refine ⟨used, fun i => ?_, ?_⟩
    · rw [muUsed_ok getMuIndex hused i]
      simp [List.getElem?_replicate]
    · by_cases hc : c.op = .nor <;> simp [hc, List.map_reverse]

/-- A condition register evaluates to its condition when every match unit shows its match. -/
theorem conditionRegisterHolds_eq {muCount : ℕ} {getMuIndex : ℕ → ℕ → ℕ} {c : Condition}
    {reg : List Char} (port : ℕ → Signal) (mu : ℕ → Bool)
    (h : IlaMapper.conditionRegister muCount getMuIndex c = .ok reg)
    (hpos : ∀ mt ∈ c.matchList, 0 ≤ mt.muIndex)
    (hmu : ∀ mt ∈ c.matchList, mu (getMuIndex mt.portIndex mt.muIndex.toNat) = mt.holds port) :
    conditionRegisterHolds mu reg = c.holds port := by
  obtain ⟨used, hused, rfl⟩ := conditionRegister_ok h
  have hinputs : ∀ b, b ∈ selectedInputs mu 0
      (used.map fun u => if u then (if decide (c.op = .nor) then '0' else '1') else 'X') ↔
      ∃ mt ∈ c.matchList, b = (decide (c.op = .nor) ^^ mt.holds port) := by
    intro b
    rw [mem_selectedInputs]
    constructor
    · rintro ⟨k, hk, rfl⟩
      obtain ⟨mt, hmt, -, rfl⟩ := (hused k).mp hk
      exact ⟨mt, hmt, by rw [Nat.zero_add, hmu mt hmt]⟩
    · rintro ⟨mt, hmt, rfl⟩
      exact ⟨_, (hused _).mpr ⟨mt, hmt, hpos mt hmt, rfl⟩, by rw [Nat.zero_add, hmu mt hmt]⟩
  have hall : (selectedInputs mu 0 (used.map fun u =>
      if u then (if decide (c.op = .nor) then '0' else '1') else 'X')).all id =
      c.matchList.all fun mt => decide (c.op = .nor) ^^ mt.holds port := by
    rw [Bool.eq_iff_iff, List.all_eq_true, List.all_eq_true]
    simp only [hinputs, forall_exists_index, and_imp, id]
    exact ⟨fun h mt hmt => h _ mt hmt rfl, fun h b mt hmt hb => hb ▸ h mt hmt⟩
  have hany : (selectedInputs mu 0 (used.map fun u =>
      if u then (if decide (c.op = .nor) then '0' else '1') else 'X')).any id =
      c.matchList.any fun mt => decide (c.op = .nor) ^^ mt.holds port := by
    rw [Bool.eq_iff_iff, List.any_eq_true, List.any_eq_true]
    simp only [hinputs, id]
    exact ⟨fun ⟨b, ⟨mt, hmt, hb⟩, ht⟩ => ⟨mt, hmt, hb ▸ ht⟩, fun ⟨mt, hmt, ht⟩ => ⟨_, ⟨mt, hmt, rfl⟩, ht⟩⟩
  cases hop : c.op <;>
    simp only [IlaMapper.conditionMappingOp, List.cons_append, List.nil_append,
      conditionRegisterHolds, List.reverse_reverse, Condition.holds, hop] <;>
    simp only [hop] at hall hany
  · simpa using hall
  · simpa using hall
  · simpa using hany
  · simpa [List.not_any_eq_all_not] using hall

/-- The last write under the name of a condition is its register. -/
theorem getRegMuMapping_condition {m : IlaMapper} {muCount : ℕ} {getMuIndex : ℕ → ℕ → ℕ}
    {regs : Py.Dict String (List Char)} (hregs : m.getRegMuMapping muCount getMuIndex = .ok regs)
    {i : ℕ} {c : Condition} (hc : m.conditions[i]? = some c)
    (hlater : ∀ j c', i < j → m.conditions[j]? = some c' →
      IlaMapper.conditionName m.isBasicCapture j c' ≠ IlaMapper.conditionName m.isBasicCapture i c)
    (hunits : ∀ u ∈ m.units, IlaMapper.muName (getMuIndex u.1 u.2.1) ≠
      IlaMapper.conditionName m.isBasicCapture i c) :
    ∃ reg, IlaMapper.conditionRegister muCount getMuIndex c = .ok reg ∧
      regs.get? (IlaMapper.conditionName m.isBasicCapture i c) = some reg := by
  simp only [IlaMapper.getRegMuMapping] at hregs
  split at hregs
  · cases hregs
  · next tcs htcs =>
    cases hregs
    have hall := Py.forall₂_of_mapExcept_ok htcs
    have hentry : ∀ {j : ℕ} {c' : Condition}, m.conditions[j]? = some c' → ∃ reg,
        IlaMapper.conditionRegister muCount getMuIndex c' = .ok reg ∧
        tcs[j]? = some (IlaMapper.conditionName m.isBasicCapture j c', reg) := by
      intro j c' hc'
      have hzip : m.conditions.zipIdx[j]? = some (c', j) := by
        rw [List.getElem?_zipIdx, hc']; simp
      obtain ⟨e, he, hrel⟩ := Py.forall₂_getElem? hall hzip
      split at hrel
      · cases hrel
      · next reg hreg => cases hrel; exact ⟨reg, hreg, he⟩
    obtain ⟨reg, hreg, hi⟩ := hentry hc
    obtain ⟨hlt, hget⟩ := List.getElem?_eq_some_iff.mp hi
    refine ⟨reg, hreg, ?_⟩
    rw [Py.Dict.get?_update_of_notMem]
    · have hsplit : tcs = tcs.take i ++
          (IlaMapper.conditionName m.isBasicCapture i c, reg) :: tcs.drop (i + 1) := by
        rw [← hget, List.getElem_cons_drop, List.take_append_drop]
      rw [hsplit]
      refine Py.Dict.get?_update_append_cons _ _ _ _ fun hmem => ?_
      -- an entry after position `i` belongs to a later condition
      obtain ⟨e, he, hname⟩ := List.mem_map.mp hmem
      obtain ⟨k, hk⟩ := List.mem_iff_getElem?.mp he
      rw [List.getElem?_drop] at hk
      obtain ⟨hklt, -⟩ := List.getElem?_eq_some_iff.mp hk
      have hlen : i + 1 + k < m.conditions.length := by
        have := hall.length_eq
        rw [List.length_zipIdx] at this
        omega
      obtain ⟨reg', -, he'⟩ := hentry (List.getElem?_eq_getElem hlen)
      rw [hk] at he'
      cases he'
      exact hlater _ _ (by omega) (List.getElem?_eq_getElem hlen) hname
    · rw [List.map_map, List.mem_map]
      rintro ⟨u, hu, hname⟩
      exact hunits u hu hname

/-- No later write replaces the register of condition `i`: neither a later condition nor a match
    unit in use has its name. -/
def RegisterKept (m mapped : IlaMapper) (getMuIndex : ℕ → ℕ → ℕ) (i : ℕ) (c : Condition) : Prop :=
  (∀ j c', i < j → m.conditions[j]? = some c' → IlaMapper.conditionName m.isBasicCapture j c' ≠
    IlaMapper.conditionName m.isBasicCapture i c) ∧
  ∀ u ∈ mapped.units, IlaMapper.muName (getMuIndex u.1 u.2.1) ≠
    IlaMapper.conditionName m.isBasicCapture i c

/-- Mapping keeps the names of the conditions, so the register stays in the mapped state too. -/
theorem RegisterKept.later {port : ℕ → Signal} {m mapped : IlaMapper} {getMuIndex : ℕ → ℕ → ℕ}
    {i : ℕ} {c c₁ : Condition} (h : RegisterKept m mapped getMuIndex i c)
    (hmapped : List.Forall₂ (MappedCondition port mapped.ports) m.conditions mapped.conditions)
    (hbasic : mapped.isBasicCapture = m.isBasicCapture)
    (hname : IlaMapper.conditionName mapped.isBasicCapture i c₁ =
      IlaMapper.conditionName m.isBasicCapture i c) :
    ∀ j c', i < j → mapped.conditions[j]? = some c' →
      IlaMapper.conditionName mapped.isBasicCapture j c' ≠
        IlaMapper.conditionName mapped.isBasicCapture i c₁ := by
  intro j c' hij hc'
  obtain ⟨c₀, hc₀, hm⟩ := Py.forall₂_getElem? (R := flip (MappedCondition port mapped.ports))
    (List.Forall₂.flip hmapped) hc'
  have hsame : IlaMapper.conditionName mapped.isBasicCapture j c' =
      IlaMapper.conditionName m.isBasicCapture j c₀ := by
    rw [IlaMapper.conditionName, IlaMapper.conditionName, hbasic, MappedCondition.name_eq hm]
  rw [hsame, hname]
  exact h.1 j c₀ hij hc₀

/-- The register of a condition, evaluated on the match units it selects, is the condition on its
    original matches, when no later write replaces that register. -/
theorem registerHolds_eq_condition {m mapped : IlaMapper} {skipOverflowMessages : Bool}
    {overflowMsg : Option (List String)} {muCount : ℕ} {getMuIndex : ℕ → ℕ → ℕ}
    {regs : Py.Dict String (List Char)} (port : ℕ → Signal)
    (hproper : ∀ c ∈ m.conditions, c.Proper)
    (hmap : m.map skipOverflowMessages = .ok ((true, overflowMsg), mapped))
    (hinj : MuIndexInjective mapped getMuIndex)
    (hregs : mapped.getRegMuMapping muCount getMuIndex = .ok regs) {i : ℕ} {c : Condition}
    (hc : m.conditions[i]? = some c) (hkept : RegisterKept m mapped getMuIndex i c) :
    registerHolds regs (muPort mapped getMuIndex) port
      (IlaMapper.conditionName m.isBasicCapture i c) = c.holds port := by
  obtain ⟨hbasic, hmapped⟩ := IlaMapper.map_conditions port hproper hmap
  obtain ⟨c', hc', hm⟩ := Py.forall₂_getElem? hmapped hc
  have hname : IlaMapper.conditionName mapped.isBasicCapture i c' =
      IlaMapper.conditionName m.isBasicCapture i c := by
    rw [IlaMapper.conditionName, IlaMapper.conditionName, hbasic, hm.name_eq]
  obtain ⟨reg, hreg, hget⟩ := getRegMuMapping_condition hregs hc'
    (hkept.later hmapped hbasic hname) (hname ▸ hkept.2)
  rw [registerHolds, ← hname, hget]
  show conditionRegisterHolds _ reg = c.holds port
  rw [conditionRegisterHolds_eq port _ hreg (fun mt hmt => ?_) fun mt hmt => ?_, hm.holds_eq]
  · obtain ⟨p, j, v, -, hj, -⟩ := (hm.upper mt hmt).2
    rw [hj]; exact Int.natCast_nonneg j
  · exact muHolds_of_placed port hinj hregs (hm.upper mt hmt).1 (hm.upper mt hmt).2

/-- A rising edge on bit 0 and a `!=` on bit 1 of one port, for a basic trigger. -/
def risingWithBit : IlaMapper where
  ports := [{ index := 0, muCount := 1, width := 3 }]
  conditions := [{
    op := .and
    matchList := [
      { name := "b", portIndex := 0, bitIndex := 1, op := .neq, value := ['0'] },
      { name := "a", portIndex := 0, bitIndex := 0, op := .eq, value := ['r'] }] }]

def risingWithBitMapped : IlaMapper where
  ports := [{ index := 0, muCount := 1, width := 3, muValues := [['=', '=', 'X', '1', 'R']] }]
  conditions := [{
    op := .and
    matchList := [
      { name := "a&~b", portIndex := 0, bitIndex := 0, op := .eq, value := ['1', 'R'], muIndex := 0,
        sourceNames := ["a", "b"], sourceValueIndices := [0, 0] }] }]

/-- Both matches share the one match unit of the port, and the register shows the condition. -/
theorem registerHolds_risingWithBit : ∃ regs,
    risingWithBit.map = .ok ((true, none), risingWithBitMapped) ∧
    risingWithBitMapped.getRegMuMapping 1 Nat.pair = .ok regs ∧
    regs.get? "tc0" = some ['=', '=', '1'] ∧ registerHolds regs
      (muPort risingWithBitMapped Nat.pair) (fun _ _ => (false, true)) "tc0" = true := by
  have hmap : risingWithBit.map true = .ok ((true, none), risingWithBitMapped) := rfl
  have hproper : ∀ c ∈ risingWithBit.conditions, c.Proper := by
    intro c hc
    rw [List.mem_singleton.mp hc]
    simp [Condition.Proper, Match.BitChars, matchBitValues, Match.isDontCare,
      Match.ensureProperTypes]
  have hinj : MuIndexInjective risingWithBitMapped Nat.pair := by
    intro u hu u' hu' _
    rw [List.mem_singleton.mp hu, List.mem_singleton.mp hu']
    exact ⟨rfl, rfl⟩
  have hregs : risingWithBitMapped.getRegMuMapping 1 Nat.pair = .ok (Py.Dict.empty.update
      [("tc0", ['=', '=', '1']), ("mu0", ['=', '=', 'X', '1', 'R'])]) := rfl
  refine ⟨_, hmap, hregs, rfl, (registerHolds_eq_condition (m := risingWithBit) (i := 0)
    (fun _ _ => (false, true)) hproper hmap hinj hregs rfl ⟨fun j c' hj hc' => ?_, ?_⟩).trans rfl⟩
  · have hnone : risingWithBit.conditions[j]? = none := List.getElem?_eq_none hj
    rw [hnone] at hc'
    cases hc'
  · intro u hu
    rw [List.mem_singleton.mp hu]
    decide

def oneBitCondition (value : Char) : Condition where
  name := "tc0"
  op := .and
  matchList := [{ name := "a", portIndex := 0, bitIndex := 0, op := .eq, value := [value] }]

/-- Two conditions that ask to be written to the same register. -/
def sharedName : IlaMapper where
  ports := [{ index := 0, muCount := 2, width := 1 }]
  conditions := [oneBitCondition '1', oneBitCondition '0']

def sharedNameMapped : IlaMapper where
  ports := [{ index := 0, muCount := 2, width := 1, muValues := [['=', '=', '1'], ['=', '=', '0']] }]
  conditions := [
    { name := "tc0", op := .and, matchList := [
      { name := "a", portIndex := 0, bitIndex := 0, op := .eq, value := ['1'], muIndex := 0,
        sourceNames := ["a"], sourceValueIndices := [0] }] },
    { name := "tc0", op := .and, matchList := [
      { name := "a", portIndex := 0, bitIndex := 0, op := .eq, value := ['0'], muIndex := 1,
        sourceNames := ["a"], sourceValueIndices := [0] }] }]

/-- Without the side condition the register of the first condition is lost: on a port that reads
    zero the condition is false and the register named after it is true. -/
theorem registerHolds_ne_of_sharedName : ¬ ∀ (m mapped : IlaMapper) (muCount : ℕ)
    (getMuIndex : ℕ → ℕ → ℕ) (regs : Py.Dict String (List Char)) (port : ℕ → Signal) (i : ℕ)
    (c : Condition), (∀ c ∈ m.conditions, c.Proper) → m.map = .ok ((true, none), mapped) →
    Function.Injective2 getMuIndex → mapped.getRegMuMapping muCount getMuIndex = .ok regs →
    m.conditions[i]? = some c →
    registerHolds regs (muPort mapped getMuIndex) port
      (IlaMapper.conditionName m.isBasicCapture i c) = c.holds port := by
  intro h
  have hinj : Function.Injective2 Nat.pair := fun _ _ _ _ heq => Nat.pair_eq_pair.mp heq
  have hproper : ∀ c ∈ sharedName.conditions, c.Proper := by
    intro c hc
    simp only [sharedName, List.mem_cons, List.not_mem_nil, or_false] at hc
    rcases hc with rfl | rfl <;>
      simp [Condition.Proper, oneBitCondition, Match.BitChars, matchBitValues, Match.isDontCare,
        Match.ensureProperTypes]
  have hmap : sharedName.map = .ok ((true, none), sharedNameMapped) := rfl
  have hlost := h sharedName sharedNameMapped 2 Nat.pair _ (fun _ _ => (false, false)) 0
    (oneBitCondition '1') hproper hmap hinj rfl rfl
  exact absurd hlost (by decide)

end Chipscopy.Mapping
