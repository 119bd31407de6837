import Chipscopy.IlaMapper.Placement

/-! Overflow messages

    A match unit is given out once for each different value of a port, but the report counts the
    matches of a port. It names the ports that ran out of units exactly where no port has more
    matches than units and still units for all its values. -/

namespace Chipscopy.Mapping

/-- Matches that look at a port. -/
def IlaMapper.portMatches (m : IlaMapper) (p : ℕ) : List Match :=
  (m.conditions.flatMap (·.matchList)).filter fun mt => mt.portIndex = p

/-- Values of matches, grown to the width of a port. -/
def matchValues (width : ℕ) (matchList : List Match) : List (List Char) :=
  matchList.filterMap fun mt => (mt.makePortMatchValue width).toOption

/-- More different values than match units. -/
def IlaMapper.Overflows (m : IlaMapper) (p : ℕ) (port : Port) : Prop :=
  port.muCount < (matchValues port.width (m.portMatches p)).dedup.length

instance (m : IlaMapper) (p : ℕ) (port : Port) : Decidable (m.Overflows p port) :=
  inferInstanceAs (Decidable (_ < _))

/-- Ports with more different match values than match units, in their order. -/
def IlaMapper.overflowing (m : IlaMapper) : List ℕ :=
  (List.range m.ports.length).filter fun p => (m.ports[p]?).any fun port => m.Overflows p port

/-- What is said about a port: its matches, one on each line. -/
def IlaMapper.portMessage (m : IlaMapper) (p : ℕ) : Except Py.Error String :=
  (Py.mapExcept (fun (mt : Match) => (IlaMapper.binToHexIfPossible mt.value).map fun s =>
    "\t" ++ mt.name ++ " " ++ String.ofList mt.op.chars ++ " " ++ s) (m.portMatches p)).map
      ("\n".intercalate ·)

/-- One message for each port that ran out of units, and at least one. -/
def IlaMapper.ReportsOverflow (m : IlaMapper) (msg : Option (List String)) : Prop :=
  ∃ msgs, msg = some msgs ∧ List.Forall₂ (fun p s => m.portMessage p = .ok s) m.overflowing msgs ∧
    msgs ≠ []

/-- The passes before the match units are given out. -/
def IlaMapper.merged (m : IlaMapper) : Except Py.Error IlaMapper :=
  (flipOneBitNeqToEq (removeDontCareMatches (sortMatches (assignMatchSourceInfo
    (ensureProperTypes m))))).mergeSharedPorts

/-- A port that has more matches than match units has more different values as well; and where the
    ports come with values of their own, some port has too many. -/
def IlaMapper.CountsValues (m merged : IlaMapper) : Prop :=
  (∀ p port, m.ports[p]? = some port → port.muCount < (merged.portMatches p).length →
    merged.Overflows p port) ∧
  ((∀ port ∈ m.ports, port.muValues = []) ∨ merged.overflowing ≠ [])

/-! ### Tables of values -/

/-- Add a value that is not there yet. -/
def extend (values : List (List Char)) (value : List Char) : List (List Char) :=
  if value ∈ values then values else values ++ [value]

theorem mem_extend {values : List (List Char)} {value v : List Char} :
    v ∈ extend values value ↔ v ∈ values ∨ v = value := by
  rw [extend]
  split
  · next h => exact ⟨.inl, fun hv => hv.elim id fun hv => hv ▸ h⟩
  · simp

theorem nodup_extend {values : List (List Char)} (h : values.Nodup) (value : List Char) :
    (extend values value).Nodup := by
  rw [extend]
  split
  · exact h
  · next hnew => exact h.append (List.nodup_singleton value) (by simpa using hnew)

theorem length_le_extend (values : List (List Char)) (value : List Char) :
    values.length ≤ (extend values value).length := by
  rw [extend]
  split
  · exact le_rfl
  · simp

theorem length_le_foldl_extend : ∀ (new values : List (List Char)),
    values.length ≤ (new.foldl extend values).length
  | [], _ => le_rfl
  | value :: new, values =>
    (length_le_extend values value).trans (length_le_foldl_extend new (extend values value))

theorem mem_foldl_extend {v : List Char} : ∀ {new values : List (List Char)},
    v ∈ new.foldl extend values ↔ v ∈ values ∨ v ∈ new
  | [], values => by simp
  | value :: new, values => by
    rw [List.foldl_cons, mem_foldl_extend, mem_extend, List.mem_cons, or_assoc]

theorem nodup_foldl_extend : ∀ (new : List (List Char)) {values : List (List Char)},
    values.Nodup → (new.foldl extend values).Nodup
  | [], _, h => h
  | value :: new, _, h => nodup_foldl_extend new (nodup_extend h value)

/-- From an empty table there are as many entries as different values. -/
theorem length_foldl_extend (new : List (List Char)) :
    (new.foldl extend []).length = new.dedup.length := by
  refine List.Perm.length_eq ((List.perm_ext_iff_of_nodup ?_ (List.nodup_dedup new)).mpr fun v => ?_)
  · exact nodup_foldl_extend new List.nodup_nil
  · rw [mem_foldl_extend, List.mem_dedup]
    simp

/-! ### One run over all matches -/

/-- A placement: the value is in the table of its port, which is extended if it has to be. -/
theorem mapMatchUnit_values {ports ports' : List Port} {mt : Match} {r : Match × Bool}
    (h : mapMatchUnit ports mt = .ok (ports', r)) :
    ∃ port value, ports[mt.portIndex]? = some port ∧ mt.makePortMatchValue port.width = .ok value ∧
      ports' = ports.set mt.portIndex { port with muValues := extend port.muValues value } ∧
      (r.2 = false → port.muCount < (extend port.muValues value).length) := by
  rw [mapMatchUnit] at h
  split at h
  · cases h
  · split at h
    · cases h
    · next port hport =>
      split at h
      · cases h
      · next value hvalue =>
        refine ⟨port, value, hport, hvalue, ?_⟩
        split at h
        · next i hi =>
          cases h
          obtain ⟨hlt, hbeq, -⟩ := List.findIdx?_eq_some_iff_getElem.mp hi
          have hmem : value ∈ port.muValues := by
            rw [← eq_of_beq hbeq]
            exact List.getElem_mem hlt
          rw [extend, if_pos hmem]
          refine ⟨?_, fun hflag => ?_⟩
          · obtain ⟨hlt', hget⟩ := List.getElem?_eq_some_iff.mp hport
            rw [← hget, List.set_getElem_self]
          · exact (not_lt.mp (of_decide_eq_false hflag)).trans_lt hlt
        · next hnone =>
          cases h
          have hnew : value ∉ port.muValues := by
            intro hmem
            rw [List.idxOf?_eq_none_iff] at hnone
            exact hnone hmem
          rw [extend, if_neg hnew]
          refine ⟨rfl, fun hflag => ?_⟩
          rw [List.length_append]
          exact Nat.lt_succ_of_le (not_lt.mp (of_decide_eq_false hflag))

/-- Values of the matches of one port. -/
def valuesOn (matchList : List Match) (p width : ℕ) : List (List Char) :=
  matchValues width (matchList.filter fun mt => mt.portIndex = p)

/-- A port after the matches have been placed. -/
def Port.after (matchList : List Match) (p : ℕ) (port : Port) : Port :=
  { port with muValues := (valuesOn matchList p port.width).foldl extend port.muValues }

/-- A run extends the table of each port by its values; a match without a unit has found its table
    too long. -/
theorem mapAccum_mapMatchUnit : ∀ {matchList : List Match} {ports ports' : List Port}
    {res : List (Match × Bool)}, Py.mapAccum mapMatchUnit ports matchList = .ok (ports', res) →
    (∀ p, ports'[p]? = (ports[p]?).map (Port.after matchList p)) ∧
      ((∃ r ∈ res, r.2 = false) → ∃ (p : ℕ) (port : Port), ports'[p]? = some port ∧
        port.muCount < port.muValues.length)
  | [], ports, ports', res, h => by
    cases h
    refine ⟨fun p => ?_, fun ⟨r, hr, _⟩ => absurd hr List.not_mem_nil⟩
    rw [show Port.after [] p = id from rfl, Option.map_id_fun, id]
  | mt :: matchList, ports, ports', res, h => by
    obtain ⟨ports₁, r, rs, hr, hrs, rfl⟩ := Py.mapAccum_cons_ok h
    obtain ⟨hports, hflags⟩ := mapAccum_mapMatchUnit hrs
    obtain ⟨port, value, hport, hvalue, rfl, hflag⟩ := mapMatchUnit_values hr
    obtain ⟨hlt, -⟩ := List.getElem?_eq_some_iff.mp hport
    constructor
    · intro p
      rw [hports p]
      by_cases hp : p = mt.portIndex
      · subst hp
        rw [List.getElem?_set_self hlt, hport, Option.map_some, Option.map_some]
        simp [Port.after, valuesOn, matchValues, hvalue, Except.toOption]
      · rw [List.getElem?_set_ne (Ne.symm hp)]
        refine congrArg (Option.map · _) (funext fun q => ?_)
        simp [Port.after, valuesOn, matchValues, Ne.symm hp]
    · rintro ⟨r', hr', hfalse⟩
      rcases List.mem_cons.mp hr' with rfl | hr'
      · refine ⟨mt.portIndex, Port.after matchList mt.portIndex
          { port with muValues := extend port.muValues value }, ?_, ?_⟩
        · rw [hports, List.getElem?_set_self hlt, Option.map_some]
        · exact (hflag hfalse).trans_le (length_le_foldl_extend _ _)
      · exact hflags ⟨r', hr', hfalse⟩

theorem mapAccum_append {σ ε α β : Type*} {f : σ → α → Except ε (σ × β)} {s₁ s₂ : σ} {l' : List α}
    {r' : List β} (h' : Py.mapAccum f s₁ l' = .ok (s₂, r')) : ∀ {l : List α} {s : σ} {r : List β},
    Py.mapAccum f s l = .ok (s₁, r) → Py.mapAccum f s (l ++ l') = .ok (s₂, r ++ r')
  | [], s, r, h => by
    cases h
    exact h'
  | a :: l, s, r, h => by
    obtain ⟨s', b, bs, hb, hbs, rfl⟩ := Py.mapAccum_cons_ok h
    rw [List.cons_append, Py.mapAccum, hb]
    dsimp only
    rw [mapAccum_append h' hbs]
    rfl

/-- The conditions are placed as one list of matches. -/
theorem mapAccum_mapConditionUnits : ∀ {conditions : List Condition} {ports ports' : List Port}
    {res : List (Condition × List Bool)},
    Py.mapAccum mapConditionUnits ports conditions = .ok (ports', res) →
      ∃ flat, Py.mapAccum mapMatchUnit ports (conditions.flatMap (·.matchList)) =
          .ok (ports', flat) ∧
        (res.map (·.1)).flatMap (·.matchList) = flat.map (·.1) ∧
        res.flatMap (·.2) = flat.map (·.2)
  | [], ports, ports', res, h => by
    cases h
    exact ⟨[], rfl, rfl, rfl⟩
  | c :: conditions, ports, ports', res, h => by
    obtain ⟨ports₁, r, rs, hr, hrs, rfl⟩ := Py.mapAccum_cons_ok h
    obtain ⟨flat, hflat, hmatches, hflags⟩ := mapAccum_mapConditionUnits hrs
    rw [mapConditionUnits] at hr
    split at hr
    · cases hr
    · next ports₂ placed hplaced =>
      cases hr
      refine ⟨placed ++ flat, ?_, ?_, ?_⟩
      · rw [List.flatMap_cons]
        exact mapAccum_append hflat hplaced
      · rw [List.map_cons, List.flatMap_cons, hmatches, List.map_append]
      · rw [List.flatMap_cons, hflags, List.map_append]

/-! ### Counting on the mapped state -/

/-- The same match, on some unit. -/
def SameMatch (mt mt' : Match) : Prop := ∃ j : ℕ, mt' = { mt with muIndex := j }

theorem portMatches_same {p : ℕ} : ∀ {l l' : List Match}, List.Forall₂ SameMatch l l' →
    List.Forall₂ SameMatch (l.filter fun mt => mt.portIndex = p)
      (l'.filter fun mt => mt.portIndex = p)
  | _, _, .nil => .nil
  | mt :: _, _, .cons ⟨j, hj⟩ h => by
    subst hj
    by_cases hp : mt.portIndex = p
    · rw [List.filter_cons_of_pos (by simpa using hp), List.filter_cons_of_pos (by simpa using hp)]
      exact .cons ⟨j, rfl⟩ (portMatches_same h)
    · rw [List.filter_cons_of_neg (by simpa using hp), List.filter_cons_of_neg (by simpa using hp)]
      exact portMatches_same h

theorem matchValues_same {w : ℕ} : ∀ {l l' : List Match}, List.Forall₂ SameMatch l l' →
    matchValues w l' = matchValues w l
  | _, _, .nil => rfl
  | mt :: _, _, .cons ⟨j, hj⟩ h => by
    subst hj
    rw [matchValues, matchValues, List.filterMap_cons, List.filterMap_cons]
    rw [← matchValues, ← matchValues, matchValues_same h]
    rfl

theorem zipIdx_filter_map_snd {α : Type*} (f : α → ℕ → Bool) (l : List α) :
    (l.zipIdx.filter fun (a, p) => f a p).map (·.2) =
      (List.range l.length).filter fun p => (l[p]?).any fun a => f a p := by
  induction l using List.reverseRecOn with
  | nil => rfl
  | append_singleton l a ih =>
    rw [List.zipIdx_append, List.filter_append, List.map_append, ih, List.length_append,
      List.length_singleton, List.range_succ, List.filter_append]
    congr 1
    · refine List.filter_congr fun p hp => ?_
      rw [List.getElem?_append_left (List.mem_range.mp hp)]
    · cases h : f a l.length <;> simp [h]

section Report

variable {m mapped : IlaMapper} {allMapped : Bool} {msg : Option (List String)}

/-- What a mapping leaves: the ports with their tables, and the same matches. -/
structure Maps (merged : IlaMapper) (mapped : IlaMapper) (allMapped : Bool) : Prop where
  ports : ∀ p : ℕ, mapped.ports[p]? = (merged.ports[p]?).map
    (Port.after (merged.conditions.flatMap (·.matchList)) p)
  same : List.Forall₂ SameMatch (merged.conditions.flatMap (·.matchList))
    (mapped.conditions.flatMap (·.matchList))
  overflow : allMapped = false → ∃ (p : ℕ) (port : Port), mapped.ports[p]? = some port ∧
    port.muCount < port.muValues.length

theorem mapMatchUnits_maps (h : m.mapMatchUnits = .ok (allMapped, mapped)) :
    Maps m mapped allMapped := by
  rw [IlaMapper.mapMatchUnits] at h
  split at h
  · cases h
  · next ports res hres =>
    cases h
    obtain ⟨flat, hflat, hmatches, hflags⟩ := mapAccum_mapConditionUnits hres
    obtain ⟨hports, hfull⟩ := mapAccum_mapMatchUnit hflat
    have hsame := (Py.mapAccum_invariant PortsGrow
      (fun ports mt (r : Match × Bool) => MatchPlaced ports mt r.1)
      PortsGrow.refl (fun _ _ _ => PortsGrow.trans) (fun _ _ _ _ hg hd => ⟨hd.1, hd.2.mono hg⟩)
      (fun _ _ _ _ hstep => mapMatchUnit_ok hstep) hflat).2
    refine ⟨hports, ?_, fun hall => hfull ?_⟩
    · dsimp only
      rw [hmatches]
      exact List.forall₂_map_right_iff.mpr (hsame.imp fun _ _ h => h.1)
    · rw [hflags] at hall
      obtain ⟨flag, hmem, hflag⟩ := List.all_eq_false.mp hall
      obtain ⟨r, hr, rfl⟩ := List.mem_map.mp hmem
      exact ⟨r, hr, Bool.eq_false_iff.mpr hflag⟩

theorem Maps.length_portMatches {merged : IlaMapper} (h : Maps merged mapped allMapped) (p : ℕ) :
    (mapped.portMatches p).length = (merged.portMatches p).length :=
  (portMatches_same h.same).length_eq.symm

theorem Maps.overflows_iff {merged : IlaMapper} (h : Maps merged mapped allMapped) (p : ℕ)
    {port port' : Port} (hcount : port'.muCount = port.muCount) (hwidth : port'.width = port.width) :
    mapped.Overflows p port' ↔ merged.Overflows p port := by
  rw [IlaMapper.Overflows, IlaMapper.Overflows, hcount, hwidth, IlaMapper.portMatches,
    matchValues_same (portMatches_same h.same), IlaMapper.portMatches]

theorem Maps.overflowing_eq {merged : IlaMapper} (h : Maps merged mapped allMapped) :
    mapped.overflowing = merged.overflowing := by
  have hlen : mapped.ports.length = merged.ports.length := by
    refine le_antisymm (not_lt.mp fun hlt => ?_) (not_lt.mp fun hlt => ?_)
    · have hnone := h.ports merged.ports.length
      rw [List.getElem?_eq_getElem hlt, List.getElem?_eq_none le_rfl] at hnone
      cases hnone
    · have hnone := h.ports mapped.ports.length
      rw [List.getElem?_eq_getElem hlt, List.getElem?_eq_none le_rfl] at hnone
      cases hnone
  rw [IlaMapper.overflowing, IlaMapper.overflowing, hlen]
  refine List.filter_congr fun p _ => ?_
  rw [h.ports p]
  rcases merged.ports[p]? with _ | port
  · rfl
  · exact decide_eq_decide.mpr (h.overflows_iff p rfl rfl)

/-- From empty tables, a match without a unit is on a port with too many values. -/
theorem Maps.overflowing_ne_nil {merged : IlaMapper} (h : Maps merged mapped false)
    (hfresh : ∀ port ∈ merged.ports, port.muValues = []) : merged.overflowing ≠ [] := by
  obtain ⟨p, port', hport', hlong⟩ := h.overflow rfl
  rw [h.ports p] at hport'
  obtain ⟨port, hport, rfl⟩ := Option.map_eq_some_iff.mp hport'
  refine List.ne_nil_of_mem (a := p) (List.mem_filter.mpr ⟨?_, ?_⟩)
  · exact List.mem_range.mpr (List.getElem?_eq_some_iff.mp hport).1
  · rw [hport]
    refine decide_eq_true ?_
    have hempty := hfresh port (List.mem_of_getElem? hport)
    rw [Port.after, hempty, length_foldl_extend] at hlong
    exact hlong

/-- Ports the report names: those with more matches than units. -/
def IlaMapper.reported (m : IlaMapper) : List ℕ :=
  (List.range m.ports.length).filter fun p =>
    (m.ports[p]?).any fun port => decide (port.muCount < (m.portMatches p).length)

theorem reportOverflow_eq (m : IlaMapper) :
    m.reportOverflow = Py.mapExcept m.portMessage m.reported := by
  have hports := zipIdx_filter_map_snd
    (fun (port : Port) p => decide (port.muCount < (m.portMatches p).length)) m.ports
  rw [IlaMapper.reported, ← hports]
  rfl

theorem mem_overflowing {p : ℕ} : p ∈ m.overflowing ↔
    ∃ port, m.ports[p]? = some port ∧ m.Overflows p port := by
  rw [IlaMapper.overflowing, List.mem_filter, Option.any_eq_true]
  simp only [decide_eq_true_eq]
  refine and_iff_right_of_imp fun ⟨port, hport, _⟩ => ?_
  exact List.mem_range.mpr (List.getElem?_eq_some_iff.mp hport).1

theorem mem_reported {p : ℕ} : p ∈ m.reported ↔
    ∃ port, m.ports[p]? = some port ∧ port.muCount < (m.portMatches p).length := by
  rw [IlaMapper.reported, List.mem_filter, Option.any_eq_true]
  simp only [decide_eq_true_eq]
  refine and_iff_right_of_imp fun ⟨port, hport, _⟩ => ?_
  exact List.mem_range.mpr (List.getElem?_eq_some_iff.mp hport).1

/-- A port with too many values has too many matches. -/
theorem IlaMapper.Overflows.matches_lt {p : ℕ} {port : Port} (h : m.Overflows p port) :
    port.muCount < (m.portMatches p).length := by
  refine h.trans_le ((List.dedup_sublist _).length_le.trans ?_)
  exact List.length_filterMap_le _ _

theorem overflowing_sublist (m : IlaMapper) : m.overflowing.Sublist m.reported := by
  refine List.monotone_filter_right _ fun p hp => ?_
  obtain ⟨port, hport, hover⟩ := (Option.any_eq_true _ _).mp hp
  refine (Option.any_eq_true _ _).mpr ⟨port, hport, ?_⟩
  exact decide_eq_true (of_decide_eq_true hover : m.Overflows p port).matches_lt

/-- The report names the right ports if too many matches always come with too many values. -/
theorem overflowing_eq_reported_iff (m : IlaMapper) : m.overflowing = m.reported ↔
    ∀ p port, m.ports[p]? = some port → port.muCount < (m.portMatches p).length →
      m.Overflows p port := by
  constructor
  · intro h p port hport hlt
    obtain ⟨port', hport', hover⟩ := mem_overflowing.mp (h ▸ mem_reported.mpr ⟨port, hport, hlt⟩)
    rw [hport] at hport'
    exact Option.some.inj hport' ▸ hover
  · intro h
    refine List.filter_congr fun p _ => ?_
    rw [Bool.eq_iff_iff, Option.any_eq_true, Option.any_eq_true]
    constructor
    · rintro ⟨port, hport, hover⟩
      have hover : m.Overflows p port := of_decide_eq_true hover
      exact ⟨port, hport, decide_eq_true hover.matches_lt⟩
    · rintro ⟨port, hport, hlt⟩
      exact ⟨port, hport, decide_eq_true (h p port hport (of_decide_eq_true hlt))⟩

/-- A report is right if it is one message for each port that ran out of units, and not empty. -/
theorem reportsOverflow_iff {msgs : List String} (hmsgs : m.reportOverflow = .ok msgs) :
    m.ReportsOverflow (some msgs) ↔ m.overflowing = m.reported ∧ m.overflowing ≠ [] := by
  rw [reportOverflow_eq] at hmsgs
  have hreported := Py.forall₂_of_mapExcept_ok hmsgs
  constructor
  · rintro ⟨msgs', hmsgs', hover, hne⟩
    obtain rfl := Option.some.inj hmsgs'
    have hlen : m.overflowing.length = m.reported.length :=
      hover.length_eq.trans hreported.length_eq.symm
    refine ⟨(overflowing_sublist m).eq_of_length hlen, fun hnil => hne ?_⟩
    rw [← List.length_eq_zero_iff, ← hover.length_eq, hnil, List.length_nil]
  · rintro ⟨heq, hne⟩
    rw [← heq] at hreported
    refine ⟨msgs, rfl, hreported, fun hnil => hne ?_⟩
    rw [← List.length_eq_zero_iff, hreported.length_eq, hnil, List.length_nil]

/-- The parts of a mapping that did not fit and whose messages were asked for. -/
theorem map_overflow_ok (h : m.map false = .ok ((false, msg), mapped)) :
    ∃ merged, m.merged = .ok merged ∧ merged.ports = m.ports ∧
      merged.mapMatchUnits = .ok (false, mapped) ∧
      ∃ msgs, msg = some msgs ∧ mapped.reportOverflow = .ok msgs := by
  rw [IlaMapper.map, ← IlaMapper.merged] at h
  split at h
  · cases h
  · next merged hmerged =>
    have hports : merged.ports = m.ports := by
      rw [IlaMapper.merged, IlaMapper.mergeSharedPorts] at hmerged
      split at hmerged
      · cases hmerged
      · cases hmerged
        rfl
    split at h
    · cases h
    · next allMapped mapped' hunits =>
      rcases allMapped with _ | _
      · rw [if_pos (by rfl)] at h
        split at h
        · cases h
        · next msgs hmsgs =>
          cases h
          exact ⟨merged, hmerged, hports, hunits, msgs, rfl, hmsgs⟩
      · rw [if_neg (by decide)] at h
        cases h

/-- Which ports have too many matches and values can be told before the units are given out. -/
theorem Maps.counts_iff {merged : IlaMapper} (h : Maps merged mapped allMapped) :
    (∀ p port, mapped.ports[p]? = some port → port.muCount < (mapped.portMatches p).length →
        mapped.Overflows p port) ↔
      ∀ p port, merged.ports[p]? = some port → port.muCount < (merged.portMatches p).length →
        merged.Overflows p port := by
  simp only [h.length_portMatches, h.ports, Option.map_eq_some_iff]
  constructor
  · intro hmapped p port hport hlt
    have hover := hmapped p _ ⟨port, hport, rfl⟩ hlt
    exact (h.overflows_iff p rfl rfl).mp hover
  · rintro hmerged p _ ⟨port, hport, rfl⟩ hlt
    exact (h.overflows_iff p rfl rfl).mpr (hmerged p port hport hlt)

/-- The overflow report of a mapping that did not fit is right exactly where every port with too
    many matches has too many different values. -/
theorem map_reportsOverflow_iff (h : m.map false = .ok ((false, msg), mapped)) :
    mapped.ReportsOverflow msg ↔ ∃ merged, m.merged = .ok merged ∧ m.CountsValues merged := by
  obtain ⟨merged, hmerged, hports, hunits, msgs, rfl, hmsgs⟩ := map_overflow_ok h
  have hmaps := mapMatchUnits_maps hunits
  rw [reportsOverflow_iff hmsgs, overflowing_eq_reported_iff, hmaps.counts_iff,
    hmaps.overflowing_eq, hports]
  constructor
  · rintro ⟨hcount, hne⟩
    exact ⟨merged, hmerged, hcount, .inr hne⟩
  · rintro ⟨merged', hmerged', hcount, hfresh⟩
    obtain rfl := Except.ok.inj (hmerged.symm.trans hmerged')
    refine ⟨hcount, hfresh.elim (fun hfresh => ?_) id⟩
    exact hmaps.overflowing_ne_nil (hports ▸ hfresh)

end Report

/-- One port asked for two values, another for the value 1 and a second one; each has one unit. -/
def sharedAndFull (second : Char) : IlaMapper where
  ports := [⟨0, 1, 1, []⟩, ⟨1, 1, 1, []⟩]
  conditions := [{ op := .or, matchList :=
    [{ name := "a", portIndex := 0, bitIndex := 0, op := .eq, value := ['0'] },
      { name := "b", portIndex := 0, bitIndex := 0, op := .eq, value := ['1'] },
      { name := "c", portIndex := 1, bitIndex := 0, op := .eq, value := ['1'] },
      { name := "d", portIndex := 1, bitIndex := 0, op := .eq, value := [second] }] }]

theorem map_reportsOverflow_twoFull : ∃ msg mapped,
    (sharedAndFull '0').map false = .ok ((false, msg), mapped) ∧
      (mapped.ReportsOverflow msg ↔
        ∃ merged, (sharedAndFull '0').merged = .ok merged ∧
          (sharedAndFull '0').CountsValues merged) :=
  ⟨_, _, rfl, map_reportsOverflow_iff rfl⟩

/-- The port whose two matches share a unit is reported as well. -/
theorem not_reportsOverflow_shared : ∃ msg mapped,
    (sharedAndFull '1').map false = .ok ((false, msg), mapped) ∧ ¬ mapped.ReportsOverflow msg := by
  refine ⟨_, _, rfl, fun h => ?_⟩
  have heq := ((reportsOverflow_iff rfl).mp h).1
  revert heq
  decide

end Chipscopy.Mapping
