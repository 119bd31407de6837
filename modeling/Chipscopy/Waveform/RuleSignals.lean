import Chipscopy.Lib.Subsets
import Chipscopy.Waveform.ManualSignal

/-! Signals of rule events

    A probe group shows its rules in one signal. Each listed rule with results gets the bit of its
    position, labels for several active rules are made by counting through the combinations, and
    each sample is labelled with the rules that hit there. The codes are right exactly if the rules
    without results stand behind all others, the labels tell the sets of rules apart, and the
    waveform has room for the codes. -/

namespace Chipscopy.Waveform

open Subsets (mask pick)

/-- A probe group, with the `hits` of its rules. -/
structure ProbeGroup where
  name : String
  ruleResults : Py.Dict String (List Bool)
  enumMappings : Option (Py.Dict String ℤ) := none
  channelName : Option String := none

/-- `enum_mapping` and `rule_bit_map`. -/
structure RuleBits where
  enumMapping : Py.Dict String ℤ
  ruleBitMap : Py.Dict String ℕ

/-- `active_value` and `active_rules` of a sample. -/
structure ActiveRules where
  activeValue : ℕ
  activeRules : List String

/-- The rules whose bit is in a combination. -/
def combinationRules (ruleBitMap : Py.Dict String ℕ) (combo : ℕ) : List String :=
  (ruleBitMap.entries.filter fun e => combo &&& e.2 != 0).map (·.1)

def addCombination (ruleBitMap : Py.Dict String ℕ) (enumMapping : Py.Dict String ℤ) (combo : ℕ) :
    Py.Dict String ℤ :=
  let activeRules := combinationRules ruleBitMap combo
  if activeRules.length > 1 then enumMapping.set (" & ".intercalate activeRules) combo
  else enumMapping

namespace ProbeGroup

variable (group : ProbeGroup)

/-- The bit of one rule, for a rule with results. -/
def addRule (bits : RuleBits) (rule : String × ℕ) : RuleBits :=
  if rule.1 ∈ group.ruleResults.keys then
    let bitValue := 1 <<< rule.2
    { enumMapping := bits.enumMapping.set rule.1 bitValue
      ruleBitMap := bits.ruleBitMap.set rule.1 bitValue }
  else bits

def ruleBits (rules : List String) : RuleBits :=
  rules.zipIdx.foldl group.addRule ⟨Py.Dict.empty.set "-" 0, Py.Dict.empty⟩

/-- `enum_mapping`, with all combinations. -/
def enumMapping (rules : List String) : Py.Dict String ℤ :=
  let bits := group.ruleBits rules
  (List.range' 1 (2 ^ bits.ruleBitMap.size - 1)).foldl (addCombination bits.ruleBitMap)
    bits.enumMapping

/-- Whether a rule has results, and fires at a sample. -/
def hitAt (idx : ℕ) (rule : String) : Bool :=
  match group.ruleResults.get? rule with
  | none => false
  | some hits => hits.getD idx false

/-- A rule that fires was given a bit. -/
def addActive (ruleBitMap : Py.Dict String ℕ) (idx : ℕ) (active : ActiveRules) (rule : String) :
    ActiveRules :=
  if group.hitAt idx rule then
    { activeValue := active.activeValue ||| (ruleBitMap.get? rule).getD 0
      activeRules := active.activeRules ++ [rule] }
  else active

/-- Label of a sample. -/
def valueAt (rules : List String) (idx : ℕ) : String :=
  let active := rules.foldl (group.addActive (group.ruleBits rules).ruleBitMap idx) ⟨0, []⟩
  if active.activeValue = 0 then "-"
  else
    match active.activeRules with
    | [rule] => rule
    | activeRules => " & ".intercalate activeRules

def signalName (numSlots slot : ℤ) : String :=
  if numSlots > 1 then s!"SLOT_{slot}_{group.name}_Events" else s!"{group.name}_Events"

/-- `create_interval_signals`, for the member names that `Enum` takes. -/
def createIntervalSignals (isMemberName : String → String → Bool) (wf : ILAWaveform)
    (numSlots : ℤ) (ruleNames : Option (List String)) (slot : ℤ) :
    Except Py.Error (ProbeGroup × ILAWaveform) :=
  let rulesToProcess := ruleNames.getD group.ruleResults.keys
  if rulesToProcess = [] then .ok (group, wf)
  else do
    let enumMapping := group.enumMapping rulesToProcess
    let values := (List.range wf.sampleCount).map (group.valueAt rulesToProcess)
    let signalName := group.signalName numSlots slot
    let group := { group with channelName := some signalName, enumMappings := some enumMapping }
    let wf ← appendManualEnumSignal isMemberName wf signalName values enumMapping
    return (group, wf)

/-! ### What the signal is to show -/

/-- The listed rules that have results. -/
def knownRules (rules : List String) : List String := rules.filter (· ∈ group.ruleResults.keys)

/-- The listed rules that have a hit at a sample. -/
def activeRules (rules : List String) (idx : ℕ) : List String := rules.filter (group.hitAt idx)

end ProbeGroup

/-- How a set of active rules is written. -/
def setLabel (active : List String) : String :=
  if active = [] then "-" else " & ".intercalate active

/-- A signal whose codes tell all sets of active rules apart, and that shows at each sample the bits
    of the rules active there. -/
structure EncodesActive (group : ProbeGroup) (rules : List String) (mapping : Py.Dict String ℤ)
    (wf : ILAWaveform) (signal : String) : Prop where
  apart : ∀ A B, A.Sublist (group.knownRules rules) → B.Sublist (group.knownRules rules) → A ≠ B →
    ∃ a b, mapping.get? (setLabel A) = some a ∧ mapping.get? (setLabel B) = some b ∧ a ≠ b
  shows : ∃ probe, wf.probes.get? signal = some probe ∧ ∀ i < wf.sampleCount,
    readProbe wf probe i = .ok [mask rules (group.activeRules rules i)]

/-- A rule whose member name goes to a rule further down the list. -/
def Hidden (rules known : List String) (rule : String) : Prop :=
  ∃ rule', [rule, rule'].Sublist known ∧
    memberName rule (mask rules [rule]) = memberName rule' (mask rules [rule'])

/-- Rules and a waveform for which the codes come out right. -/
structure Encodable (isMemberName : String → String → Bool) (group : ProbeGroup)
    (wf : ILAWaveform) (rules : List String) (signal : String) : Prop where
  aligned : (group.knownRules rules).length ≤ 1 ∨ group.knownRules rules <+: rules
  apart : ∀ A B, A.Sublist (group.knownRules rules) → B.Sublist (group.knownRules rules) →
    setLabel A = setLabel B → A = B
  members : ∀ A, A.Sublist (group.knownRules rules) →
    isMemberName s!"{signal}_Enum" (memberName (setLabel A) (mask rules A))
  visible : ∀ i < wf.sampleCount, ∀ rule, group.activeRules rules i = [rule] →
    ¬ Hidden rules (group.knownRules rules) rule
  windows : wf.triggerPosition.length ≠ 0 ∧ wf.windowSize ≠ 0
  room : ∀ i < wf.sampleCount, mask rules (group.activeRules rules i) <
    2 ^ (8 * widenedStride wf (codeWidth (mask rules (group.knownRules rules))) - wf.width)

/-! ### The bits of the rules -/

namespace ProbeGroup

variable {group : ProbeGroup} {rules : List String}

theorem knownRules_sublist : (group.knownRules rules).Sublist rules := List.filter_sublist

theorem nodup_knownRules (hnodup : rules.Nodup) : (group.knownRules rules).Nodup :=
  hnodup.filter _

/-- The rules with results and their bits. -/
def bitEntries (group : ProbeGroup) (rules : List String) : List (String × ℕ) :=
  (group.knownRules rules).map fun rule => (rule, 1 <<< rules.idxOf rule)

/-- The rules with results and their codes. -/
def codeEntries (group : ProbeGroup) (rules : List String) : List (String × ℤ) :=
  (group.knownRules rules).map fun rule => (rule, (mask rules [rule] : ℤ))

theorem foldl_addRule : ∀ (indexed : List (String × ℕ)) (bits : RuleBits),
    indexed.foldl group.addRule bits =
      { enumMapping := bits.enumMapping.update
          ((indexed.filter fun e => e.1 ∈ group.ruleResults.keys).map
            fun e => (e.1, ((1 <<< e.2 : ℕ) : ℤ)))
        ruleBitMap := bits.ruleBitMap.update
          ((indexed.filter fun e => e.1 ∈ group.ruleResults.keys).map
            fun e => (e.1, 1 <<< e.2)) }
  | [], bits => rfl
  | e :: indexed, bits => by
    rw [List.foldl_cons, foldl_addRule indexed, addRule]
    by_cases he : e.1 ∈ group.ruleResults.keys <;> simp [he, Py.Dict.update]

theorem zipIdx_eq_map_idxOf (hnodup : rules.Nodup) :
    rules.zipIdx = rules.map fun rule => (rule, rules.idxOf rule) := by
  refine List.ext_getElem (by simp) fun i hi _ => ?_
  rw [List.getElem_zipIdx, List.getElem_map, hnodup.idxOf_getElem, Nat.zero_add]

theorem ruleBits_eq (hnodup : rules.Nodup) : group.ruleBits rules =
    { enumMapping := (Py.Dict.empty.set "-" 0).update (group.codeEntries rules)
      ruleBitMap := Py.Dict.empty.update (group.bitEntries rules) } := by
  rw [ruleBits, foldl_addRule, zipIdx_eq_map_idxOf hnodup, List.filter_map, List.map_map,
    List.map_map, codeEntries, bitEntries, knownRules]
  simp [Function.comp_def]

theorem entries_ruleBitMap (hnodup : rules.Nodup) :
    (group.ruleBits rules).ruleBitMap.entries = group.bitEntries rules := by
  have hkeys : (((Py.Dict.empty : Py.Dict String ℕ).entries ++ group.bitEntries rules).map
      (·.1)).Nodup := by
    simpa [Py.Dict.empty, bitEntries, Function.comp_def] using nodup_knownRules hnodup
  rw [ruleBits_eq hnodup]
  exact Py.Dict.entries_update hkeys

theorem combinationRules_eq (hnodup : rules.Nodup) (combo : ℕ) :
    combinationRules (group.ruleBits rules).ruleBitMap combo =
      pick rules (group.knownRules rules) combo := by
  rw [combinationRules, entries_ruleBitMap hnodup, bitEntries, List.filter_map, List.map_map, pick]
  simp only [Function.comp_def, Bits.and_shiftLeft_bne_zero, List.map_id']

theorem get?_ruleBitMap (hnodup : rules.Nodup) {rule : String}
    (hrule : rule ∈ group.knownRules rules) :
    (group.ruleBits rules).ruleBitMap.get? rule = some (1 <<< rules.idxOf rule) := by
  rw [Py.Dict.get?_eq_some_iff, entries_ruleBitMap hnodup]
  exact List.mem_map_of_mem (f := fun rule => (rule, 1 <<< rules.idxOf rule)) hrule

/-- The combinations of several rules. -/
def combos (group : ProbeGroup) (rules : List String) : List ℕ :=
  (List.range' 1 (2 ^ (group.knownRules rules).length - 1)).filter fun c =>
    1 < (pick rules (group.knownRules rules) c).length

def comboEntries (group : ProbeGroup) (rules : List String) : List (String × ℤ) :=
  (group.combos rules).map fun c => (setLabel (pick rules (group.knownRules rules) c), (c : ℤ))

theorem foldl_addCombination (hnodup : rules.Nodup) : ∀ (cs : List ℕ) (d : Py.Dict String ℤ),
    cs.foldl (addCombination (group.ruleBits rules).ruleBitMap) d =
      d.update ((cs.filter fun c => 1 < (pick rules (group.knownRules rules) c).length).map
        fun c => (setLabel (pick rules (group.knownRules rules) c), (c : ℤ)))
  | [], d => rfl
  | c :: cs, d => by
    rw [List.foldl_cons, foldl_addCombination hnodup cs, addCombination, combinationRules_eq hnodup]
    by_cases hc : 1 < (pick rules (group.knownRules rules) c).length
    · have hne : pick rules (group.knownRules rules) c ≠ [] := by
        rintro hnil
        simp [hnil] at hc
      simp [hc, Py.Dict.update, setLabel, hne]
    · simp [hc]

/-- The dictionary, as the list of what is stored in it. -/
theorem enumMapping_eq (hnodup : rules.Nodup) : group.enumMapping rules =
    Py.Dict.empty.update (("-", 0) :: group.codeEntries rules ++ group.comboEntries rules) := by
  have hsize : (group.ruleBits rules).ruleBitMap.size = (group.knownRules rules).length := by
    rw [Py.Dict.size, entries_ruleBitMap hnodup, bitEntries, List.length_map]
  rw [enumMapping, hsize, foldl_addCombination hnodup, ruleBits_eq hnodup, Py.Dict.update,
    Py.Dict.update, ← List.foldl_append]
  rfl

end ProbeGroup

/-! ### Labels -/

theorem setLabel_singleton (rule : String) : setLabel [rule] = rule := by
  simp [setLabel]

/-- The label of several rules has blanks. -/
theorem blank_mem_setLabel (rule rule' : String) (rest : List String) :
    ' ' ∈ (setLabel (rule :: rule' :: rest)).toList := by
  rw [setLabel, if_neg (List.cons_ne_nil _ _), String.intercalate_cons_cons, String.toList_append,
    String.toList_append]
  exact List.mem_append_left _ (List.mem_append_right _ (by decide))

theorem eq_of_setLabel_eq_empty {A : List String} (h : setLabel A = "") : A = [""] := by
  match A with
  | [] => exact absurd h (by decide)
  | [rule] =>
    rw [setLabel_singleton] at h
    rw [h]
  | rule :: rule' :: rest =>
    have hblank := blank_mem_setLabel rule rule' rest
    rw [h] at hblank
    cases hblank

/-- A set of rules that is written like the member of the empty label is one rule. -/
theorem eq_of_setLabel_eq_val {A : List String} {n : ℕ} (h : setLabel A = s!"VAL_{(n : ℤ)}") :
    ∃ rule, A = [rule] := by
  have hlist : (s!"VAL_{(n : ℤ)}").toList = ['V', 'A', 'L', '_'] ++ Nat.toDigits 10 n := by
    have hrepr : toString (n : ℤ) = Nat.repr n := rfl
    rw [String.toList_append, hrepr, Nat.toList_repr]
    rfl
  match A with
  | [] =>
    have hminus := congrArg String.toList h
    rw [hlist] at hminus
    exact absurd (List.cons.inj hminus).1 (by decide)
  | [rule] => exact ⟨rule, rfl⟩
  | rule :: rule' :: rest =>
    have hblank := blank_mem_setLabel rule rule' rest
    rw [h, hlist] at hblank
    rcases List.mem_append.mp hblank with hmem | hmem
    · exact absurd hmem (by decide)
    · exact absurd (Nat.isDigit_of_mem_toDigits (by norm_num) le_rfl hmem) (by decide)

/-- Only single rules share a member name. -/
theorem singles_of_memberName_eq {A B : List String} {m n : ℕ}
    (hname : memberName (setLabel A) m = memberName (setLabel B) n)
    (hlabel : setLabel A ≠ setLabel B) : (∃ rule, A = [rule]) ∧ ∃ rule, B = [rule] := by
  rw [memberName, memberName] at hname
  by_cases hA : setLabel A = ""
  · by_cases hB : setLabel B = ""
    · exact absurd (hA.trans hB.symm) hlabel
    · rw [if_pos hA, if_neg hB] at hname
      exact ⟨⟨"", eq_of_setLabel_eq_empty hA⟩, eq_of_setLabel_eq_val hname.symm⟩
  · by_cases hB : setLabel B = ""
    · rw [if_neg hA, if_pos hB] at hname
      exact ⟨eq_of_setLabel_eq_val hname, "", eq_of_setLabel_eq_empty hB⟩
    · rw [if_neg hA, if_neg hB] at hname
      exact absurd hname hlabel

namespace ProbeGroup

variable {group : ProbeGroup} {rules : List String}

/-- The sets of rules that get a label, in the order of the labels. -/
def labelledSets (group : ProbeGroup) (rules : List String) : List (List String) :=
  [] :: (group.knownRules rules).map (fun rule => [rule]) ++
    (group.combos rules).map (pick rules (group.knownRules rules))

/-- With the rules without results at the end, a combination is the bits of its rules. -/
theorem mask_combo (hnodup : rules.Nodup)
    (haligned : (group.knownRules rules).length ≤ 1 ∨ group.knownRules rules <+: rules) {c : ℕ}
    (hc : c ∈ group.combos rules) : mask rules (pick rules (group.knownRules rules) c) = c := by
  rw [combos, List.mem_filter, List.mem_range'_1, decide_eq_true_iff] at hc
  rcases haligned with hone | hfront
  · have hsub : (pick rules (group.knownRules rules) c).Sublist (group.knownRules rules) :=
      Subsets.pick_sublist
    have hle := hsub.length_le
    omega
  · exact Subsets.mask_pick hfront (nodup_knownRules hnodup) (by omega)

theorem entries_eq_map (hnodup : rules.Nodup)
    (haligned : (group.knownRules rules).length ≤ 1 ∨ group.knownRules rules <+: rules) :
    ("-", 0) :: group.codeEntries rules ++ group.comboEntries rules =
      (group.labelledSets rules).map fun A => (setLabel A, (mask rules A : ℤ)) := by
  rw [labelledSets, List.map_append, List.map_cons, List.map_map, List.map_map, codeEntries,
    comboEntries]
  refine congrArg₂ (· ++ ·) (congrArg₂ List.cons rfl ?_) (List.map_congr_left fun c hc => ?_)
  · simp [Function.comp_def, setLabel_singleton]
  · rw [Function.comp_apply, mask_combo hnodup haligned hc]

/-- Every set of rules with results is labelled, -/
theorem mem_labelledSets (hnodup : rules.Nodup)
    (haligned : (group.knownRules rules).length ≤ 1 ∨ group.knownRules rules <+: rules)
    {A : List String} :
    A ∈ group.labelledSets rules ↔ A.Sublist (group.knownRules rules) := by
  rw [labelledSets, List.mem_append, List.mem_cons, List.mem_map, List.mem_map]
  constructor
  · rintro ((rfl | ⟨rule, hrule, rfl⟩) | ⟨c, -, rfl⟩)
    · exact List.nil_sublist _
    · exact List.singleton_sublist.mpr hrule
    · exact Subsets.pick_sublist
  · intro hA
    match A, hA with
    | [], _ => exact Or.inl (Or.inl rfl)
    | [rule], hA => exact Or.inl (Or.inr ⟨rule, List.singleton_sublist.mp hA, rfl⟩)
    | rule :: rule' :: rest, hA =>
      have hlen := hA.length_le
      have hfront := haligned.resolve_left (by rw [List.length_cons, List.length_cons] at hlen; omega)
      have hpick := Subsets.pick_mask knownRules_sublist.subset (nodup_knownRules hnodup) hA
      have hlt : mask rules (rule :: rule' :: rest) < 2 ^ (group.knownRules rules).length :=
        Subsets.mask_lt fun a ha => Subsets.idxOf_lt_of_front hfront (hA.subset ha)
      have hpos : mask rules (rule :: rule' :: rest) ≠ 0 := fun h =>
        absurd (Subsets.mask_eq_zero_iff.mp h) (by simp)
      refine Or.inr ⟨mask rules (rule :: rule' :: rest), ?_, hpick⟩
      rw [combos, List.mem_filter, List.mem_range'_1, hpick]
      exact ⟨by omega, by simp⟩

/-- and none twice. -/
theorem nodup_labelledSets (hnodup : rules.Nodup)
    (haligned : (group.knownRules rules).length ≤ 1 ∨ group.knownRules rules <+: rules) :
    (group.labelledSets rules).Nodup := by
  refine List.nodup_append.mpr ⟨?_, ?_, ?_⟩
  · refine List.nodup_cons.mpr ⟨by simp, ?_⟩
    exact (nodup_knownRules hnodup).map fun r r' h => (List.cons.inj h).1
  · refine List.Nodup.map_on (fun c hc c' hc' h => ?_) (List.Nodup.filter _ (List.nodup_range' 1))
    rw [← mask_combo hnodup haligned hc, h, mask_combo hnodup haligned hc']
  · rintro A hA B hB rfl
    obtain ⟨c, hc, rfl⟩ := List.mem_map.mp hB
    have hlen : 1 < (pick rules (group.knownRules rules) c).length :=
      of_decide_eq_true (List.mem_filter.mp hc).2
    rcases List.mem_cons.mp hA with hnil | hsingle
    · simp [hnil] at hlen
    · obtain ⟨rule, -, hrule⟩ := List.mem_map.mp hsingle
      simp [← hrule] at hlen

/-- Single rules are labelled in their order. -/
theorem sublist_of_labelledSets {rule rule' : String}
    (h : [[rule], [rule']].Sublist (group.labelledSets rules)) :
    [rule, rule'].Sublist (group.knownRules rules) := by
  have hsingles : (group.labelledSets rules).filter (·.length = 1) =
      (group.knownRules rules).map fun rule => [rule] := by
    have hcombos : ((group.combos rules).map
        (pick rules (group.knownRules rules))).filter (·.length = 1) = [] := by
      rw [List.filter_eq_nil_iff]
      intro A hA
      obtain ⟨c, hc, rfl⟩ := List.mem_map.mp hA
      have hlen : 1 < (pick rules (group.knownRules rules) c).length :=
        of_decide_eq_true (List.mem_filter.mp hc).2
      simpa using hlen.ne'
    rw [labelledSets, List.filter_append, hcombos, List.append_nil, List.filter_cons_of_neg (by simp),
      List.filter_eq_self.mpr]
    simp
  have hpair := h.filter (·.length = 1)
  rw [hsingles] at hpair
  obtain ⟨pair, hpair, hmap⟩ := List.sublist_map_iff.mp (show [[rule], [rule']].Sublist _ from hpair)
  obtain rfl : [rule, rule'] = pair :=
    List.map_injective_iff.mpr (fun r r' h => (List.cons.inj h).1) hmap
  exact hpair

section Aligned

variable (hnodup : rules.Nodup)
  (haligned : (group.knownRules rules).length ≤ 1 ∨ group.knownRules rules <+: rules)
  (hapart : ∀ A B, A.Sublist (group.knownRules rules) → B.Sublist (group.knownRules rules) →
    setLabel A = setLabel B → A = B)

include hnodup haligned hapart

/-- The dictionary has one entry for each set of rules. -/
theorem entries_enumMapping : (group.enumMapping rules).entries =
    (group.labelledSets rules).map fun A => (setLabel A, (mask rules A : ℤ)) := by
  have hkeys : ((Py.Dict.empty : Py.Dict String ℤ).entries ++
      (group.labelledSets rules).map fun A => (setLabel A, (mask rules A : ℤ))).map
        (·.1) |>.Nodup := by
    rw [Py.Dict.empty, List.nil_append, List.map_map]
    refine List.Nodup.map_on (fun A hA B hB h => ?_) (nodup_labelledSets hnodup haligned)
    exact hapart A B ((mem_labelledSets hnodup haligned).mp hA)
      ((mem_labelledSets hnodup haligned).mp hB) h
  rw [enumMapping_eq hnodup, entries_eq_map hnodup haligned]
  exact Py.Dict.entries_update hkeys

theorem get?_enumMapping {A : List String} (hA : A.Sublist (group.knownRules rules)) :
    (group.enumMapping rules).get? (setLabel A) = some (mask rules A : ℤ) := by
  rw [Py.Dict.get?_eq_some_iff, entries_enumMapping hnodup haligned hapart]
  exact List.mem_map_of_mem (f := fun A => (setLabel A, (mask rules A : ℤ)))
    ((mem_labelledSets hnodup haligned).mpr hA)

/-- A set of rules has its member unless it is one rule that is hidden. -/
theorem hasMember_setLabel_iff {A : List String} (hA : A.Sublist (group.knownRules rules)) :
    HasMember (group.enumMapping rules).entries (setLabel A) (mask rules A) ↔
      ∀ rule, A = [rule] → ¬ Hidden rules (group.knownRules rules) rule := by
  have hentries := entries_enumMapping hnodup haligned hapart
  have hsets := fun B => mem_labelledSets hnodup haligned (A := B)
  have hmem : (setLabel A, (mask rules A : ℤ)) ∈ (group.enumMapping rules).entries :=
    (Py.Dict.get?_eq_some_iff _).mp (get?_enumMapping hnodup haligned hapart hA)
  rw [hasMember_iff (List.Nodup.of_map _ (group.enumMapping rules).nodup),
    and_iff_right hmem, hentries]
  constructor
  · rintro hlast rule rfl ⟨rule', hsub, hname⟩
    have hpair : [[rule], [rule']].Sublist (group.labelledSets rules) :=
      ((hsub.map fun rule => [rule]).cons []).trans (List.sublist_append_left _ _)
    refine hlast (setLabel [rule'], (mask rules [rule'] : ℤ)) 
      (hpair.map fun A => (setLabel A, (mask rules A : ℤ))) ?_
    rw [setLabel_singleton, setLabel_singleton]
    exact hname.symm
  · rintro hvisible e hsub hname
    obtain ⟨pair, hpair, hmap⟩ := List.sublist_map_iff.mp hsub
    obtain ⟨A', rest, rfl, hA', hrest⟩ := List.map_eq_cons_iff.mp hmap.symm
    obtain ⟨B, rest', rfl, rfl, hnil⟩ := List.map_eq_cons_iff.mp hrest
    obtain rfl := List.map_eq_nil_iff.mp hnil
    have hB := (hsets B).mp (hpair.subset (by simp))
    obtain rfl : A' = A :=
      hapart A' A ((hsets A').mp (hpair.subset (by simp))) hA (congrArg Prod.fst hA')
    have hne : A' ≠ B := by simpa using hpair.nodup (nodup_labelledSets hnodup haligned)
    obtain ⟨⟨rule, rfl⟩, rule', rfl⟩ :=
      singles_of_memberName_eq hname.symm fun h => hne (hapart A' B hA hB h)
    refine hvisible rule rfl ⟨rule', sublist_of_labelledSets hpair, ?_⟩
    rw [setLabel_singleton, setLabel_singleton] at hname
    exact hname.symm

/-- All rules together have the largest code. -/
theorem maxCode_enumMapping : maxCode
    (ManualEnum.ofMapping (group.enumMapping rules).entries).sanitizedMap.values =
      .ok (mask rules (group.knownRules rules) : ℤ) := by
  refine maxCode_sanitizedMap ((hasMember_setLabel_iff hnodup haligned hapart
    (List.Sublist.refl _)).mpr ?_) fun e he => ?_
  · rintro rule hsingle ⟨rule', hsub, -⟩
    have hlen := hsub.length_le
    simp [hsingle] at hlen
  · rw [entries_enumMapping hnodup haligned hapart] at he
    obtain ⟨A, hA, rfl⟩ := List.mem_map.mp he
    exact Int.ofNat_le.mpr
      (Subsets.mask_le_of_subset ((mem_labelledSets hnodup haligned).mp hA).subset)

end Aligned

/-- A dictionary that tells all sets of rules apart has a combination for all rules at once, so no
    rule without results stands before one that has. -/
theorem aligned_of_apart (hnodup : rules.Nodup)
    (hapart : ∀ A B, A.Sublist (group.knownRules rules) → B.Sublist (group.knownRules rules) →
      A ≠ B → ∃ a b, (group.enumMapping rules).get? (setLabel A) = some a ∧
        (group.enumMapping rules).get? (setLabel B) = some b ∧ a ≠ b)
    (hlabels : ∀ A B, A.Sublist (group.knownRules rules) → B.Sublist (group.knownRules rules) →
      setLabel A = setLabel B → A = B) :
    (group.knownRules rules).length ≤ 1 ∨ group.knownRules rules <+: rules := by
  refine or_iff_not_imp_left.mpr fun hlen => ?_
  have hne : group.knownRules rules ≠ [] := by
    rintro hnil
    simp [hnil] at hlen
  obtain ⟨a, -, ha, -⟩ := hapart _ [] (List.Sublist.refl _) (List.nil_sublist _) hne
  have hkey : setLabel (group.knownRules rules) ∈ (group.enumMapping rules).keys := by
    by_contra hkey
    rw [(Py.Dict.get?_eq_none_iff _).mpr hkey] at ha
    cases ha
  rw [enumMapping_eq hnodup, Py.Dict.mem_keys_update, List.map_append, List.mem_append] at hkey
  rcases hkey with hempty | hfirst | hcombo
  · cases hempty
  · rw [List.map_cons, List.mem_cons, codeEntries, List.map_map, List.mem_map] at hfirst
    rcases hfirst with hidle | ⟨rule, hrule, hlabel⟩
    · exact absurd (hlabels _ [] (List.Sublist.refl _) (List.nil_sublist _) hidle) hne
    · have hsingle := List.singleton_sublist.mpr hrule
      have heq := hlabels _ _ hsingle (List.Sublist.refl _) (by rw [setLabel_singleton, ← hlabel]; rfl)
      rw [← heq] at hlen
      exact absurd le_rfl hlen
  · rw [comboEntries, List.map_map, List.mem_map] at hcombo
    obtain ⟨c, hc, hlabel⟩ := hcombo
    have hpick := hlabels _ _ Subsets.pick_sublist (List.Sublist.refl _) hlabel
    rw [combos, List.mem_filter, List.mem_range'_1] at hc
    refine Subsets.front_of_idxOf_lt hnodup knownRules_sublist fun rule hrule => ?_
    have hbit := (Subsets.mem_pick.mp (hpick ▸ hrule)).2
    by_contra hge
    have hlt : c < 2 ^ (group.knownRules rules).length := by omega
    rw [Nat.testBit_lt_two_pow (hlt.trans_le (Nat.pow_le_pow_right (by decide) (not_lt.mp hge)))]
      at hbit
    cases hbit

/-! ### Values -/

theorem mem_keys_of_hitAt {i : ℕ} {rule : String} (h : group.hitAt i rule) :
    rule ∈ group.ruleResults.keys := by
  by_contra hkey
  rw [hitAt, (Py.Dict.get?_eq_none_iff _).mpr hkey] at h
  cases h

theorem activeRules_sublist (i : ℕ) :
    (group.activeRules rules i).Sublist (group.knownRules rules) :=
  List.monotone_filter_right rules fun _ h => decide_eq_true (mem_keys_of_hitAt h)

/-- The loop over the rules collects the active ones and their bits. -/
theorem foldl_addActive (hnodup : rules.Nodup) (i : ℕ) : ∀ (rest : List String)
    (active : ActiveRules), rest ⊆ rules →
    rest.foldl (group.addActive (group.ruleBits rules).ruleBitMap i) active =
      { activeValue := (group.activeRules rest i).foldl (fun n rule => n ||| 1 <<< rules.idxOf rule)
          active.activeValue
        activeRules := active.activeRules ++ group.activeRules rest i }
  | [], active, _ => by simp [activeRules]
  | rule :: rest, active, hsub => by
    obtain ⟨hrule, hrest⟩ := List.cons_subset.mp hsub
    rw [List.foldl_cons, foldl_addActive hnodup i rest _ hrest, addActive]
    by_cases hhit : group.hitAt i rule
    · have hknown : rule ∈ group.knownRules rules :=
        List.mem_filter.mpr ⟨hrule, decide_eq_true (mem_keys_of_hitAt hhit)⟩
      simp [activeRules, hhit, get?_ruleBitMap hnodup hknown]
    · simp [activeRules, hhit]

/-- A sample is labelled with the set of rules active there. -/
theorem valueAt_eq (hnodup : rules.Nodup) (i : ℕ) :
    group.valueAt rules i = setLabel (group.activeRules rules i) := by
  rw [valueAt, foldl_addActive hnodup i rules _ (List.Subset.refl _), List.nil_append]
  have hzero := Subsets.mask_eq_zero_iff (l := rules) (A := group.activeRules rules i)
  rw [mask] at hzero
  by_cases hnil : group.activeRules rules i = []
  · rw [hnil, setLabel, if_pos rfl]
    rfl
  · simp only [mt hzero.mp hnil, if_false]
    split
    · next rule hsingle => rw [hsingle, setLabel_singleton]
    · rw [setLabel, if_neg hnil]

/-! ### The signal -/

section Signal

variable {isMemberName : String → String → Bool} {wf : ILAWaveform} {signal : String}
  (hnodup : rules.Nodup) (hcount : wf.sampleCount ≤ wf.triggerPosition.length * wf.windowSize)

include hnodup hcount

/-- The appended signal encodes the active rules exactly if the rules and the waveform allow it. -/
theorem appendManualEnumSignal_encodes_iff :
    (∃ wf', appendManualEnumSignal isMemberName wf signal
        ((List.range wf.sampleCount).map (group.valueAt rules)) (group.enumMapping rules) = .ok wf' ∧
      EncodesActive group rules (group.enumMapping rules) wf' signal) ↔
    Encodable isMemberName group wf rules signal := by
  have hvalue : ∀ i < wf.sampleCount, ((List.range wf.sampleCount).map (group.valueAt rules))[i]? =
      some (setLabel (group.activeRules rules i)) := by
    intro i hi
    rw [List.getElem?_map, List.getElem?_range hi, Option.map_some, valueAt_eq hnodup]
  have hlt : ∀ i, mask rules (group.activeRules rules i) <
      2 ^ codeWidth (mask rules (group.knownRules rules)) := fun i =>
    (Subsets.mask_le_of_subset (activeRules_sublist i).subset).trans_lt (lt_two_pow_codeWidth _)
  constructor
  · rintro ⟨wf', hok, happart, probe, hprobe, hshows⟩
    have hlabels : ∀ A B, A.Sublist (group.knownRules rules) →
        B.Sublist (group.knownRules rules) → setLabel A = setLabel B → A = B := by
      intro A B hA hB hlabel
      by_contra hne
      obtain ⟨a, b, ha, hb, hab⟩ := happart A B hA hB hne
      rw [hlabel, hb, Option.some_inj] at ha
      exact hab ha.symm
    have haligned := aligned_of_apart hnodup happart hlabels
    have hmax := maxCode_enumMapping hnodup haligned hlabels
    obtain ⟨⟨-, -, hwindows, hsize, hnames⟩, hmembers⟩ :=
      (exists_appendManualEnumSignal_iff hmax hcount).mp ⟨wf', hok⟩
    obtain ⟨hsame, probe', hprobe', hreads⟩ := readProbe_appendManualEnumSignal hmax hcount hok
    obtain rfl : probe = probe' := Option.some_inj.mp (hprobe.symm.trans hprobe')
    have hmember : ∀ i < wf.sampleCount, HasMember (group.enumMapping rules).entries
        (setLabel (group.activeRules rules i)) (mask rules (group.activeRules rules i)) := by
      intro i hi
      obtain ⟨c, hc⟩ := hmembers _ (List.mem_of_getElem? (hvalue i hi))
      have hget := (Py.Dict.get?_eq_some_iff _).mpr hc.mem
      rw [get?_enumMapping hnodup haligned hlabels (activeRules_sublist i), Option.some_inj] at hget
      exact hget ▸ hc
    refine ⟨haligned, hlabels, fun A hA => ?_, fun i hi rule hrule => ?_, ⟨hwindows, hsize⟩,
      fun i hi => ?_⟩
    · exact hnames _ ((Py.Dict.get?_eq_some_iff _).mp (get?_enumMapping hnodup haligned hlabels hA))
    · exact (hasMember_setLabel_iff hnodup haligned hlabels (activeRules_sublist i)).mp
        (hmember i hi) rule hrule
    · have hread := hreads i _ _ (hvalue i hi) (hmember i hi) (hlt i)
      rw [hshows i (hsame ▸ hi), Except.ok.injEq, List.cons.injEq] at hread
      rw [hread.1]
      exact Nat.mod_lt _ (Nat.two_pow_pos _)
  · intro h
    have hmax := maxCode_enumMapping hnodup h.aligned h.apart
    have hmember : ∀ i < wf.sampleCount, HasMember (group.enumMapping rules).entries
        (setLabel (group.activeRules rules i)) (mask rules (group.activeRules rules i)) :=
      fun i hi => (hasMember_setLabel_iff hnodup h.aligned h.apart (activeRules_sublist i)).mpr
        (h.visible i hi)
    have hlabelled : ∀ v ∈ (List.range wf.sampleCount).map (group.valueAt rules),
        ∃ i < wf.sampleCount, v = setLabel (group.activeRules rules i) := by
      intro v hv
      obtain ⟨i, hi, rfl⟩ := List.mem_map.mp hv
      exact ⟨i, List.mem_range.mp hi, valueAt_eq hnodup i⟩
    have happend : ∃ wf', appendManualEnumSignal isMemberName wf signal
        ((List.range wf.sampleCount).map (group.valueAt rules)) (group.enumMapping rules) =
          .ok wf' := by
      refine (exists_appendManualEnumSignal_iff hmax hcount).mpr
        ⟨⟨by simp, fun v hv => ?_, h.windows.1, h.windows.2, fun e he => ?_⟩, fun v hv => ?_⟩
      · obtain ⟨i, hi, rfl⟩ := hlabelled v hv
        exact List.mem_map_of_mem (f := (·.1)) (hmember i hi).mem
      · rw [entries_enumMapping hnodup h.aligned h.apart] at he
        obtain ⟨A, hA, rfl⟩ := List.mem_map.mp he
        exact h.members A ((mem_labelledSets hnodup h.aligned).mp hA)
      · obtain ⟨i, hi, rfl⟩ := hlabelled v hv
        exact ⟨_, hmember i hi⟩
    obtain ⟨wf', hok⟩ := happend
    obtain ⟨hsame, probe, hprobe, hreads⟩ := readProbe_appendManualEnumSignal hmax hcount hok
    refine ⟨wf', hok, fun A B hA hB hne => ?_, probe, hprobe, fun i hi => ?_⟩
    · refine ⟨_, _, get?_enumMapping hnodup h.aligned h.apart hA,
        get?_enumMapping hnodup h.aligned h.apart hB, fun hmask => hne ?_⟩
      exact Subsets.mask_inj knownRules_sublist.subset (nodup_knownRules hnodup) hA hB
        (Int.ofNat_inj.mp hmask)
    · rw [hsame] at hi
      rw [hreads i _ _ (hvalue i hi) (hmember i hi) (hlt i), Nat.mod_eq_of_lt (h.room i hi)]

end Signal

end ProbeGroup

open ProbeGroup in
/-- The call returns with a signal of the active rules exactly for an empty list of rules, or for
    rules and a waveform that can be encoded. -/
theorem createIntervalSignals_encodes_iff (isMemberName : String → String → Bool)
    (group : ProbeGroup) (wf : ILAWaveform) (numSlots slot : ℤ) (ruleNames : Option (List String))
    (hnodup : (ruleNames.getD group.ruleResults.keys).Nodup)
    (hcount : wf.sampleCount ≤ wf.triggerPosition.length * wf.windowSize) :
    (∃ group' wf',
      group.createIntervalSignals isMemberName wf numSlots ruleNames slot = .ok (group', wf') ∧
      (ruleNames.getD group.ruleResults.keys ≠ [] → ∃ mapping,
        group'.enumMappings = some mapping ∧
        EncodesActive group (ruleNames.getD group.ruleResults.keys) mapping wf'
          (group.signalName numSlots slot))) ↔
    ruleNames.getD group.ruleResults.keys = [] ∨
      Encodable isMemberName group wf (ruleNames.getD group.ruleResults.keys)
        (group.signalName numSlots slot) := by
  rw [← appendManualEnumSignal_encodes_iff hnodup hcount, createIntervalSignals]
  by_cases hempty : ruleNames.getD group.ruleResults.keys = []
  · simp [hempty]
  · rw [if_neg hempty, or_iff_right hempty]
    constructor
    · rintro ⟨group', wf', hok, hencodes⟩
      obtain ⟨wf₁, happend, hok⟩ := Py.bind_eq_ok hok
      obtain ⟨rfl, rfl⟩ := Prod.mk.inj (Except.ok.inj hok)
      obtain ⟨mapping, hmapping, hencodes⟩ := hencodes hempty
      obtain rfl := Option.some_inj.mp hmapping
      exact ⟨_, happend, hencodes⟩
    · rintro ⟨wf', happend, hencodes⟩
      refine ⟨{ group with
        channelName := some (group.signalName numSlots slot)
        enumMappings := some (group.enumMapping (ruleNames.getD group.ruleResults.keys)) },
        wf', ?_, fun _ => ⟨_, rfl, hencodes⟩⟩
      simp only [happend, Py.ok_bind]
      rfl

/-- Two rules that fire together at the first sample. -/
def readWrite : ProbeGroup where
  name := "axi"
  ruleResults := ⟨[("read", [true, false]), ("write", [true, true])], by decide⟩

def twoSamples : ILAWaveform where
  width := 3
  sampleCount := 2
  triggerPosition := [0]
  windowSize := 2
  probes := Py.Dict.empty
  data := [0, 0]

theorem createIntervalSignals_encodes_readWrite : ∃ group' wf',
    readWrite.createIntervalSignals (fun _ _ => true) twoSamples 1 none 0 = .ok (group', wf') ∧
    ((none : Option (List String)).getD readWrite.ruleResults.keys ≠ [] → ∃ mapping,
      group'.enumMappings = some mapping ∧
      EncodesActive readWrite ((none : Option (List String)).getD readWrite.ruleResults.keys) mapping
        wf' (readWrite.signalName 1 0)) := by
  refine (createIntervalSignals_encodes_iff (fun _ _ => true) readWrite twoSamples 1 0 none
    (by decide) (by decide)).mpr (Or.inr ⟨?_, ?_, fun _ _ => rfl, ?_, by decide, ?_⟩)
  · exact Or.inr (by decide)
  · have h : ∀ A ∈ (readWrite.knownRules ["read", "write"]).sublists,
        ∀ B ∈ (readWrite.knownRules ["read", "write"]).sublists,
          setLabel A = setLabel B → A = B := by decide
    exact fun A B hA hB => h A (List.mem_sublists.mpr hA) B (List.mem_sublists.mpr hB)
  · rintro i - rule - ⟨rule', hsub, hname⟩
    have hsets : (readWrite.knownRules ["read", "write"]).sublists =
        [[], ["read"], ["write"], ["read", "write"]] := by decide
    have hpair : [rule, rule'] ∈ (readWrite.knownRules ["read", "write"]).sublists :=
      List.mem_sublists.mpr hsub
    rw [hsets] at hpair
    obtain ⟨rfl, rfl⟩ : rule = "read" ∧ rule' = "write" := by simpa using hpair
    exact absurd hname (by decide)
  · decide

/-- A rule without results is listed before the others, and the combination of these has no code. -/
theorem not_createIntervalSignals_encodes_unknown : ¬ ∃ group' wf',
    readWrite.createIntervalSignals (fun _ _ => true) twoSamples 1
      (some ["idle", "read", "write"]) 0 = .ok (group', wf') ∧
    ((some ["idle", "read", "write"]).getD readWrite.ruleResults.keys ≠ [] → ∃ mapping,
      group'.enumMappings = some mapping ∧
      EncodesActive readWrite ((some ["idle", "read", "write"]).getD readWrite.ruleResults.keys)
        mapping wf' (readWrite.signalName 1 0)) := by
  rintro ⟨group', wf', hok, -⟩
  have herror : readWrite.createIntervalSignals (fun _ _ => true) twoSamples 1
      (some ["idle", "read", "write"]) 0 =
        .error (.keyError "axi_Events: no mapping for \x7b'read & write'\x7d") := rfl
  rw [herror] at hok
  cases hok

end Chipscopy.Waveform
