import Chipscopy.Waveform.Data
import Chipscopy.Lib.IntLiteral

/-! Pins of debug cores in a probes file

    A pin is connected to nets, of which a single one may be split into subnets, and a net may refer
    to the net of the source that it was made from, whose states name the values of the probe. The
    table of these nets has only those with states, but any of them may be referred to. -/

namespace Chipscopy.Ltx

open Waveform (EnumMeta)

structure Subnet where
  name : Option String
  parentNetId : Option ℤ
  deriving Repr

structure Net where
  name : Option String
  subnets : Option (List Subnet)
  parentNetId : Option ℤ
  deriving Repr

structure Pin where
  nets : Option (List Net)
  type : Option String
  isVector : Option Bool
  portIndex : Option ℤ
  leftIndex : Option ℤ
  rightIndex : Option ℤ
  direction : Option String
  deriving Repr

structure State where
  name : String
  val : String
  deriving Repr

structure StateReg where
  states : Option (List State)
  deriving Repr

structure ParentNet where
  id : ℤ
  stateReg : Option (List StateReg)
  deriving Repr

/-- Nets without a common name leave `False`. -/
inductive ProbeName
  | text (s : String)
  | false
  deriving DecidableEq, Repr

structure LtxProbe where
  name : ProbeName
  direction : String
  probeType : String
  portIndex : ℤ
  portMsbIndex : ℤ
  portLsbIndex : ℤ
  isBus : Bool
  busLeftIndex : ℤ
  busRightIndex : ℤ
  enumDef : Option EnumMeta

abbrev ParentEnums := Py.Dict ℤ (Py.Dict String String)

/-! ### Parent nets -/

/-- The states of a parent net, the last of each name. -/
def ParentNet.pidStates (pnet : ParentNet) : Py.Dict String String :=
  (pnet.stateReg.getD []).foldl
    (fun pidStates sr => pidStates.update ((sr.states.getD []).map fun state => (state.name, state.val)))
    Py.Dict.empty

/-- One round of the loop of `_read_parent_net_enums`. -/
def addParentNet (pidToEnums : ParentEnums) (pnet : ParentNet) : ParentEnums :=
  if pnet.pidStates.entries ≠ [] then pidToEnums.set pnet.id pnet.pidStates else pidToEnums

def readParentNetEnums (parentNets : List ParentNet) : ParentEnums :=
  parentNets.foldl addParentNet Py.Dict.empty

/-! ### Names and indices -/

/-- `(.+)\[(-?\d+)]$`: the name and the index. The end may be followed by a line feed. -/
def busIndex? (name : String) : Option (String × ℤ) :=
  let s := if name.toList.getLast? = some '\n' then name.toList.dropLast else name.toList
  match s.reverse with
  | ']' :: rest =>
    let digits := (rest.takeWhile fun c => (Py.decimal? c).isSome).reverse
    let number : ℤ := Py.ofDecimals (digits.filterMap Py.decimal?)
    let base (pre : List Char) (index : ℤ) : Option (String × ℤ) :=
      if digits ≠ [] ∧ pre ≠ [] ∧ '\n' ∉ pre then some (String.ofList pre.reverse, index) else none
    match rest.dropWhile fun c => (Py.decimal? c).isSome with
    | '-' :: '[' :: pre => base pre (-number)
    | '[' :: pre => base pre number
    | _ => none
  | _ => none

/-- The name, left index, right index and parents of nets. -/
def readNets (nets : List Net) : ProbeName × ℤ × ℤ × List ℤ :=
  match nets.head?, nets.getLast? with
  | some leftNet, some rightNet =>
    let parentIds := nets.filterMap (·.parentNetId)
    match busIndex? (leftNet.name.getD ""), busIndex? (rightNet.name.getD "") with
    | some (name, left), some (_, right) => (.text name, left, right, parentIds)
    | _, _ => (.false, 0, 0, parentIds)
  | _, _ => (.false, 0, 0, [])

/-- The left index, right index and parents of subnets. -/
def readSubnets (subnets : List Subnet) : ℤ × ℤ × List ℤ :=
  match subnets.head?, subnets.getLast? with
  | some leftNet, some rightNet =>
    let parentIds := subnets.filterMap (·.parentNetId)
    match busIndex? (leftNet.name.getD ""), busIndex? (rightNet.name.getD "") with
    | some (_, left), some (_, right) => (left, right, parentIds)
    | _, _ => (0, 0, parentIds)
  | _, _ => (0, 0, [])

/-- What `_read_pin` reads from the nets of a pin. -/
def readPinNets (pin : Pin) : ProbeName × ℤ × ℤ × List ℤ :=
  match pin.nets.getD [] with
  | [net] => (.text (net.name.getD ""), readSubnets (net.subnets.getD []))
  | nets => readNets nets

/-! ### Probes -/

section Probes

variable (isMemberName : String → String → Bool)

/-- `Enum(probe_name, enum_vals)`, for the member names that `Enum` takes under a class name. -/
def newEnum (probeName : ProbeName) (enumVals : List (String × ℤ)) : Except Py.Error EnumMeta :=
  match probeName with
  | .false => .error (.typeError "type.__new__() argument 1 must be str, not bool")
  | .text name =>
    if enumVals.all fun member => isMemberName name member.1 then .ok ⟨name, enumVals⟩
    else .error (.valueError "invalid enum member name")

/-- A state and the number of its value. -/
def enumVal (state : String × String) : Except Py.Error (String × ℤ) := do
  let n ← IntLiteral.int 2 state.2.toList
  .ok (state.1, n)

def getEnumDef (probeName : ProbeName) (parentIds : List ℤ) (parentEnums : ParentEnums)
    (probeWidth : ℕ) : Except Py.Error (Option EnumMeta) :=
  match parentIds with
  | [] => .ok none
  | first :: _ =>
    match parentEnums.get? first with
    | none => .error (.attributeError "'NoneType' object has no attribute 'values'")
    | some pEnum =>
      if pEnum.values.all fun val => val.length = probeWidth then do
        let enumVals ← Py.mapExcept enumVal pEnum.entries
        let enumDef ← newEnum isMemberName probeName enumVals
        .ok (some enumDef)
      else .ok none

/-- `abs(bus_left_index - bus_right_index) + 1`. -/
def busWidth (left right : ℤ) : ℕ := (left - right).natAbs + 1

def readPin (pin : Pin) (parentEnums : ParentEnums) : Except Py.Error LtxProbe := do
  let (name, busLeftIndex, busRightIndex, parentIds) := readPinNets pin
  let probeDef ← getEnumDef isMemberName name parentIds parentEnums
    (busWidth busLeftIndex busRightIndex)
  .ok {
    name := name
    direction := pin.direction.getD ""
    probeType := pin.type.getD ""
    portIndex := pin.portIndex.getD 0
    portMsbIndex := pin.rightIndex.getD 0
    portLsbIndex := pin.leftIndex.getD 0
    isBus := pin.isVector.getD false
    busLeftIndex := busLeftIndex
    busRightIndex := busRightIndex
    enumDef := probeDef }

/-! ### What a pin should give -/

/-- The states of a net of the source: those of the last entry for it that has any. -/
def statesOf (parentNets : List ParentNet) (id : ℤ) : Option (Py.Dict String String) :=
  ((parentNets.filter fun pnet => pnet.id = id ∧ pnet.pidStates.entries ≠ []).getLast?).map
    ParentNet.pidStates

/-- The nets of the source that a pin refers to. -/
def Pin.parentIds (pin : Pin) : List ℤ := (readPinNets pin).2.2.2

def Pin.name (pin : Pin) : ProbeName := (readPinNets pin).1

def LtxProbe.width (probe : LtxProbe) : ℕ := busWidth probe.busLeftIndex probe.busRightIndex

/-- The states name all values of the first parent net of a pin. -/
def HasEnum (pin : Pin) (parentNets : List ParentNet) (width : ℕ)
    (states : Py.Dict String String) : Prop :=
  ∃ first, pin.parentIds.head? = some first ∧ statesOf parentNets first = some states ∧
    ∀ val ∈ states.values, val.length = width

/-- A probe is read, with the states of the first parent net where they fit its width. -/
def Parses (pin : Pin) (parentNets : List ParentNet) : Prop :=
  ∃ probe, readPin isMemberName pin (readParentNetEnums parentNets) = .ok probe ∧
    ((∃ enumDef, probe.enumDef = some enumDef) ↔
      ∃ states, HasEnum pin parentNets probe.width states) ∧
    ∀ enumDef states, probe.enumDef = some enumDef →
      HasEnum pin parentNets probe.width states →
      List.Forall₂ (fun state member => member.1 = state.1 ∧
        IntLiteral.int 2 state.2.toList = .ok member.2) states.entries enumDef.members

/-- The width of the probe of a pin. -/
def Pin.width (pin : Pin) : ℕ := busWidth (readPinNets pin).2.1 (readPinNets pin).2.2.1

/-- A numeral of base two. -/
def IsNumeral (val : String) : Prop := ∃ n, IntLiteral.int 2 val.toList = .ok n

/-- The first parent net, if there is one, has states; and if all of them have the width of the
    probe, the probe has a name and they have names and values that `Enum` takes. -/
def Nameable (pin : Pin) (parentNets : List ParentNet) : Prop :=
  ∀ first, pin.parentIds.head? = some first → ∃ states, statesOf parentNets first = some states ∧
    ((∃ val ∈ states.values, val.length ≠ pin.width) ∨
      ((∃ name, pin.name = .text name ∧ ∀ state ∈ states.keys, isMemberName name state = true) ∧
        ∀ val ∈ states.values, IsNumeral val))

/-! ### The table of parent nets -/

/-- A net with states stands in the table until another one with its id and states comes. -/
theorem get?_readParentNetEnums (parentNets : List ParentNet) (id : ℤ) :
    (readParentNetEnums parentNets).get? id = statesOf parentNets id := by
  induction parentNets using List.reverseRecOn with
  | nil => rfl
  | append_singleton parentNets pnet ih =>
    rw [readParentNetEnums, List.foldl_append, List.foldl_cons, List.foldl_nil, ← readParentNetEnums,
      addParentNet, statesOf, List.filter_append]
    by_cases hstates : pnet.pidStates.entries ≠ []
    · rw [if_pos hstates]
      by_cases hid : pnet.id = id
      · simp [hid, hstates]
      · rw [Py.Dict.get?_set_ne _ (Ne.symm hid), ih]
        simp [hid, statesOf]
    · rw [if_neg hstates, ih]
      simp [hstates, statesOf]

/-! ### Enums -/

theorem mapExcept_enumVal_ok {states : List (String × String)}
    (h : ∀ state ∈ states, IsNumeral state.2) : ∃ members, Py.mapExcept enumVal states = .ok members ∧
      List.Forall₂ (fun state member => member.1 = state.1 ∧
        IntLiteral.int 2 state.2.toList = .ok member.2) states members := by
  induction states with
  | nil => exact ⟨[], rfl, List.Forall₂.nil⟩
  | cons state states ih =>
    obtain ⟨⟨n, hn⟩, hrest⟩ := List.forall_mem_cons.mp h
    obtain ⟨members, hmembers, hall⟩ := ih hrest
    refine ⟨(state.1, n) :: members, ?_, List.Forall₂.cons ⟨rfl, hn⟩ hall⟩
    have hfirst : enumVal state = .ok (state.1, n) := by
      rw [enumVal, hn, Py.ok_bind]
    rw [Py.mapExcept, hfirst, hmembers]

theorem mapExcept_enumVal_inv {states : List (String × String)} {members : List (String × ℤ)}
    (h : Py.mapExcept enumVal states = .ok members) :
    List.Forall₂ (fun state member => member.1 = state.1 ∧
      IntLiteral.int 2 state.2.toList = .ok member.2) states members := by
  refine (Py.forall₂_of_mapExcept_ok h).imp fun state member hmember => ?_
  obtain ⟨n, hn, hpair⟩ := Py.bind_eq_ok hmember
  obtain rfl := Except.ok.inj hpair
  exact ⟨rfl, hn⟩

theorem names_eq {states : List (String × String)} {members : List (String × ℤ)}
    (h : List.Forall₂ (fun state member => member.1 = state.1 ∧
      IntLiteral.int 2 state.2.toList = .ok member.2) states members) :
    members.map (·.1) = states.map (·.1) := by
  induction h with
  | nil => rfl
  | cons hfirst _ ih => rw [List.map_cons, List.map_cons, hfirst.1, ih]

variable {isMemberName} {probeName : ProbeName} {first : ℤ} {rest : List ℤ} {width : ℕ}
  {parentEnums : ParentEnums} {states : Py.Dict String String}

/-- States of the width of the probe become an enum exactly if `Enum` takes them. -/
theorem getEnumDef_of_width (hstates : parentEnums.get? first = some states)
    (hwidth : ∀ val ∈ states.values, val.length = width) :
    (∃ enumDef, getEnumDef isMemberName probeName (first :: rest) parentEnums width = .ok enumDef) ↔
      (∃ name, probeName = .text name ∧ ∀ state ∈ states.keys, isMemberName name state = true) ∧
        ∀ val ∈ states.values, IsNumeral val := by
  have hall : (states.values.all fun val => val.length = width) = true := by simpa using hwidth
  simp only [getEnumDef, hstates, hall, if_true]
  constructor
  · rintro ⟨enumDef, h⟩
    obtain ⟨members, hmembers, h⟩ := Py.bind_eq_ok h
    obtain ⟨enumMeta, hnew, -⟩ := Py.bind_eq_ok h
    have hpairs := mapExcept_enumVal_inv hmembers
    refine ⟨?_, fun val hval => ?_⟩
    · cases probeName with
      | false => cases hnew
      | text name =>
        refine ⟨name, rfl, ?_⟩
        have hmembersAll : (members.all fun member => isMemberName name member.1) = true := by
          by_contra hnot
          rw [newEnum, if_neg hnot] at hnew
          cases hnew
        intro state hstate
        rw [Py.Dict.keys, ← names_eq hpairs] at hstate
        obtain ⟨member, hmember, rfl⟩ := List.mem_map.mp hstate
        exact List.all_eq_true.mp hmembersAll member hmember
    · obtain ⟨state, hstate, rfl⟩ := List.mem_map.mp hval
      obtain ⟨i, hi⟩ := List.mem_iff_getElem?.mp hstate
      obtain ⟨member, -, -, hn⟩ := Py.forall₂_getElem? hpairs hi
      exact ⟨member.2, hn⟩
  · rintro ⟨⟨name, rfl, hnames⟩, hnumerals⟩
    obtain ⟨members, hmembers, hpairs⟩ := @mapExcept_enumVal_ok states.entries
      fun state hstate => hnumerals _ (List.mem_map.mpr ⟨state, hstate, rfl⟩)
    have hmembersAll : (members.all fun member => isMemberName name member.1) = true := by
      refine List.all_eq_true.mpr fun member hmember => hnames _ ?_
      rw [Py.Dict.keys, ← names_eq hpairs]
      exact List.mem_map.mpr ⟨member, hmember, rfl⟩
    refine ⟨some ⟨name, members⟩, ?_⟩
    rw [hmembers, Py.ok_bind, newEnum, if_pos hmembersAll, Py.ok_bind]

/-- An enum has the numbers of the states. -/
theorem getEnumDef_members (hstates : parentEnums.get? first = some states)
    (hwidth : ∀ val ∈ states.values, val.length = width) {enumDef : Option EnumMeta}
    (h : getEnumDef isMemberName probeName (first :: rest) parentEnums width = .ok enumDef) :
    ∃ enumMeta, enumDef = some enumMeta ∧ List.Forall₂ (fun state member => member.1 = state.1 ∧
      IntLiteral.int 2 state.2.toList = .ok member.2) states.entries enumMeta.members := by
  have hall : (states.values.all fun val => val.length = width) = true := by simpa using hwidth
  simp only [getEnumDef, hstates, hall, if_true] at h
  obtain ⟨members, hmembers, h⟩ := Py.bind_eq_ok h
  obtain ⟨enumMeta, hnew, h⟩ := Py.bind_eq_ok h
  refine ⟨enumMeta, (Except.ok.inj h).symm, ?_⟩
  cases probeName with
  | false => cases hnew
  | text name =>
    rw [newEnum] at hnew
    split_ifs at hnew
    obtain rfl := Except.ok.inj hnew
    exact mapExcept_enumVal_inv hmembers

theorem getEnumDef_of_not_width (hstates : parentEnums.get? first = some states)
    (hwidth : ∃ val ∈ states.values, val.length ≠ width) :
    getEnumDef isMemberName probeName (first :: rest) parentEnums width = .ok none := by
  have hnot : ¬ (states.values.all fun val => val.length = width) = true := by simpa using hwidth
  simp only [getEnumDef, hstates]
  rw [if_neg hnot]

/-! ### Pins -/

/-- A pin is read when its enum is. -/
theorem readPin_ok {pin : Pin} {probe : LtxProbe} :
    readPin isMemberName pin parentEnums = .ok probe → probe.width = pin.width ∧
      getEnumDef isMemberName pin.name pin.parentIds parentEnums pin.width = .ok probe.enumDef := by
  intro h
  obtain ⟨probeDef, hdef, hprobe⟩ := Py.bind_eq_ok h
  obtain rfl := Except.ok.inj hprobe
  exact ⟨rfl, hdef⟩

theorem exists_readPin {pin : Pin} {enumDef : Option EnumMeta}
    (h : getEnumDef isMemberName pin.name pin.parentIds parentEnums pin.width = .ok enumDef) :
    ∃ probe, readPin isMemberName pin parentEnums = .ok probe ∧ probe.enumDef = enumDef := by
  have hdef : getEnumDef isMemberName (readPinNets pin).1 (readPinNets pin).2.2.2 parentEnums
      (busWidth (readPinNets pin).2.1 (readPinNets pin).2.2.1) = .ok enumDef := h
  cases hread : readPin isMemberName pin parentEnums with
  | ok probe =>
    obtain ⟨-, hprobe⟩ := readPin_ok hread
    exact ⟨probe, rfl, Except.ok.inj (hprobe.symm.trans h)⟩
  | error e =>
    unfold readPin at hread
    dsimp only at hread
    rw [hdef, Py.ok_bind] at hread
    cases hread

theorem parses_of_no_parents {pin : Pin} (parentNets : List ParentNet)
    (hids : pin.parentIds = []) : Parses isMemberName pin parentNets := by
  have hnoEnum : ∀ width states, ¬ HasEnum pin parentNets width states := by
    rintro width states ⟨first, hfirst, -⟩
    rw [hids] at hfirst
    cases hfirst
  obtain ⟨probe, hread, henum⟩ := @exists_readPin isMemberName (readParentNetEnums parentNets) pin
    none (by rw [hids]; rfl)
  refine ⟨probe, hread, ⟨?_, ?_⟩, fun enumDef states _ h => absurd h (hnoEnum _ _)⟩
  · rintro ⟨enumDef, hsome⟩
    rw [henum] at hsome
    cases hsome
  · rintro ⟨states, h⟩
    exact absurd h (hnoEnum _ _)

/-- The table has no entry for a net without states. -/
theorem not_parses_of_no_states {pin : Pin} {parentNets : List ParentNet}
    (hids : pin.parentIds = first :: rest) (hstates : statesOf parentNets first = none) :
    ¬ Parses isMemberName pin parentNets := by
  rintro ⟨probe, hread, -⟩
  obtain ⟨-, hdef⟩ := readPin_ok hread
  have hnone := (get?_readParentNetEnums parentNets first).trans hstates
  rw [hids, getEnumDef] at hdef
  simp only [hnone] at hdef
  cases hdef

section States

variable {pin : Pin} {parentNets : List ParentNet} (hids : pin.parentIds = first :: rest)
  (hstates : statesOf parentNets first = some states)

include hids hstates

theorem hasEnum_iff {width : ℕ} {states' : Py.Dict String String} :
    HasEnum pin parentNets width states' ↔
      states' = states ∧ ∀ val ∈ states.values, val.length = width := by
  have hhead : pin.parentIds.head? = some first := by rw [hids]; rfl
  constructor
  · rintro ⟨first', hfirst', hstates', hvalues⟩
    obtain rfl := Option.some.inj (hhead.symm.trans hfirst')
    obtain rfl := Option.some.inj (hstates.symm.trans hstates')
    exact ⟨rfl, hvalues⟩
  · rintro ⟨rfl, hvalues⟩
    exact ⟨first, hhead, hstates, hvalues⟩

theorem nameable_iff : Nameable isMemberName pin parentNets ↔
    (∃ val ∈ states.values, val.length ≠ pin.width) ∨
      ((∃ name, pin.name = .text name ∧ ∀ state ∈ states.keys, isMemberName name state = true) ∧
        ∀ val ∈ states.values, IsNumeral val) := by
  have hhead : pin.parentIds.head? = some first := by rw [hids]; rfl
  constructor
  · intro h
    obtain ⟨states', hstates', hcases⟩ := h first hhead
    obtain rfl := Option.some.inj (hstates.symm.trans hstates')
    exact hcases
  · intro h first' hfirst'
    obtain rfl := Option.some.inj (hhead.symm.trans hfirst')
    exact ⟨states, hstates, h⟩

/-- States of the width of the probe have to be taken by `Enum`. -/
theorem parses_of_width_iff (hwidth : ∀ val ∈ states.values, val.length = pin.width) :
    Parses isMemberName pin parentNets ↔
      (∃ name, pin.name = .text name ∧ ∀ state ∈ states.keys, isMemberName name state = true) ∧
        ∀ val ∈ states.values, IsNumeral val := by
  have hsome := (get?_readParentNetEnums parentNets first).trans hstates
  rw [← @getEnumDef_of_width isMemberName pin.name first rest _ _ states hsome hwidth]
  constructor
  · rintro ⟨probe, hread, -⟩
    obtain ⟨-, hdef⟩ := readPin_ok hread
    rw [hids] at hdef
    exact ⟨_, hdef⟩
  · rintro ⟨enumDef, hdef⟩
    obtain ⟨enumMeta, rfl, hmembers⟩ := getEnumDef_members hsome hwidth hdef
    obtain ⟨probe, hread, henum⟩ := exists_readPin (by rw [hids]; exact hdef)
    have hsame : probe.width = pin.width := (readPin_ok hread).1
    refine ⟨probe, hread, ?_, fun enumDef states' hdef' hhas => ?_⟩
    · refine iff_of_true ⟨enumMeta, henum⟩ ⟨states, (hasEnum_iff hids hstates).mpr ⟨rfl, ?_⟩⟩
      rw [hsame]
      exact hwidth
    · obtain ⟨rfl, -⟩ := (hasEnum_iff hids hstates).mp hhas
      rw [henum] at hdef'
      obtain rfl := Option.some.inj hdef'
      exact hmembers

/-- States of another width are left out. -/
theorem parses_of_not_width (hwidth : ∃ val ∈ states.values, val.length ≠ pin.width) :
    Parses isMemberName pin parentNets := by
  have hsome := (get?_readParentNetEnums parentNets first).trans hstates
  obtain ⟨probe, hread, henum⟩ := @exists_readPin isMemberName (readParentNetEnums parentNets) pin
    none (by rw [hids]; exact getEnumDef_of_not_width hsome hwidth)
  have hsame : probe.width = pin.width := (readPin_ok hread).1
  have hnot : ∀ states', ¬ HasEnum pin parentNets probe.width states' := by
    intro states' hhas
    obtain ⟨val, hval, hne⟩ := hwidth
    rw [hsame] at hhas
    exact hne (((hasEnum_iff hids hstates).mp hhas).2 val hval)
  refine ⟨probe, hread, ⟨?_, ?_⟩, fun enumDef states' _ hhas => absurd hhas (hnot _)⟩
  · rintro ⟨enumDef, hdef⟩
    rw [henum] at hdef
    cases hdef
  · rintro ⟨states', hhas⟩
    exact absurd hhas (hnot _)

end States

end Probes

/-- A pin parses exactly if it refers to no net, or to one whose states fit. -/
theorem parses_iff (isMemberName : String → String → Bool) (pin : Pin)
    (parentNets : List ParentNet) :
    Parses isMemberName pin parentNets ↔ Nameable isMemberName pin parentNets := by
  cases hids : pin.parentIds with
  | nil =>
    refine iff_of_true (parses_of_no_parents parentNets hids) fun first hfirst => ?_
    rw [hids] at hfirst
    cases hfirst
  | cons first rest =>
    cases hstates : statesOf parentNets first with
    | none =>
      refine iff_of_false (not_parses_of_no_states hids hstates) fun h => ?_
      obtain ⟨states, hsome, -⟩ := h first (by rw [hids]; rfl)
      rw [hstates] at hsome
      cases hsome
    | some states =>
      rw [nameable_iff hids hstates]
      by_cases hwidth : ∀ val ∈ states.values, val.length = pin.width
      · have hfits : ¬ ∃ val ∈ states.values, val.length ≠ pin.width := by simpa using hwidth
        rw [or_iff_right hfits, parses_of_width_iff hids hstates hwidth]
      · have hother : ∃ val ∈ states.values, val.length ≠ pin.width := by simpa using hwidth
        exact iff_of_true (parses_of_not_width hids hstates hother) (.inl hother)

/-- A pin of one bit, whose subnet refers to a net of the source. -/
def registerPin : Pin where
  nets := some [{
    name := some "state_reg"
    subnets := some [{ name := some "state_reg[0]", parentNetId := some 7 }]
    parentNetId := none }]
  type := some "DATA"
  isVector := some false
  portIndex := some 0
  leftIndex := some 0
  rightIndex := some 0
  direction := some "IN"

/-- The net has no states, so the table has no entry for it. -/
theorem not_parses_without_states :
    ¬ Parses (fun _ _ => true) registerPin [{ id := 7, stateReg := none }] := by
  rintro ⟨probe, hread, -⟩
  have herror : readPin (fun _ _ => true) registerPin
      (readParentNetEnums [{ id := 7, stateReg := none }]) =
        .error (.attributeError "'NoneType' object has no attribute 'values'") := rfl
  rw [herror] at hread
  cases hread

end Chipscopy.Ltx
