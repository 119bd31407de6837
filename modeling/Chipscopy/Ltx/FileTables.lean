import Chipscopy.Ltx.Sources

/-! Tables of a probes file

    What a file covers is read off its tables: the partitions of its cores, and the cells that have
    no debug cores. A cell whose debug cores are all of unknown IPs is in neither, so it covers
    nothing. -/

namespace Chipscopy.Ltx

/-! ### Sets of paths -/

theorem mem_of_mem_addPath {paths : List LtxPath} {p q : LtxPath} (h : q ∈ addPath paths p) :
    q ∈ paths ∨ q = p := by
  rw [addPath] at h
  split at h
  · exact .inl h
  · exact (List.mem_append.mp h).imp_right List.mem_singleton.mp

theorem mem_of_mem_updatePaths {more : List LtxPath} : ∀ {paths : List LtxPath} {q : LtxPath},
    q ∈ updatePaths paths more → q ∈ paths ∨ q ∈ more := by
  induction more with
  | nil =>
    intro paths q h
    exact .inl h
  | cons p more ih =>
    intro paths q h
    rcases ih h with hq | hq
    · rcases mem_of_mem_addPath hq with hq | rfl
      · exact .inl hq
      · exact .inr List.mem_cons_self
    · exact .inr (List.mem_cons_of_mem _ hq)

/-- As texts, a set has the paths that were there or were added. -/
theorem mem_addPath_str {paths : List LtxPath} {p : LtxPath} {s : String} :
    s ∈ (addPath paths p).map (·.str) ↔ s ∈ paths.map (·.str) ∨ s = p.str := by
  rw [addPath]
  split
  · next hold =>
    obtain ⟨q, hq, heq⟩ := List.any_eq_true.mp hold
    have hmem : p.str ∈ paths.map (·.str) := List.mem_map.mpr ⟨q, hq, of_decide_eq_true heq⟩
    exact ⟨.inl, fun h => h.elim id fun h => h ▸ hmem⟩
  · simp

theorem mem_updatePaths_str {more : List LtxPath} {s : String} : ∀ {paths : List LtxPath},
    s ∈ (updatePaths paths more).map (·.str) ↔ s ∈ paths.map (·.str) ∨ s ∈ more.map (·.str) := by
  induction more with
  | nil => simp [updatePaths]
  | cons p more ih =>
    intro paths
    rw [updatePaths, List.foldl_cons, ← updatePaths, ih, mem_addPath_str, List.map_cons,
      List.mem_cons, or_assoc]

theorem isInsideOf_congr {p p' q q' : LtxPath} (hp : p.str = p'.str) (hq : q.str = q'.str) :
    p.isInsideOf q = p'.isInsideOf q' := by
  cases p
  cases p'
  cases q
  cases q'
  subst hp hq
  rfl

/-- Below the top level, a partition is inside another one whose segments start its own. -/
theorem isInsideOf_iff {p q : LtxPath} (hp : p.str ≠ "") :
    p.isInsideOf q ↔ q.pathSegments <+: p.pathSegments := by
  have hzip : ∀ {xs ys : List (List Char)}, ys.length ≤ xs.length →
      (((xs.zip ys).all fun segs => segs.1 = segs.2) = true ↔ ys <+: xs) := by
    intro xs
    induction xs with
    | nil =>
      intro ys hle
      obtain rfl := List.length_eq_zero_iff.mp (Nat.le_zero.mp hle)
      simp
    | cons x xs ih =>
      intro ys hle
      cases ys with
      | nil => simp
      | cons y ys =>
        have ih := ih (Nat.le_of_succ_le_succ hle)
        rw [List.zip_cons_cons, List.all_cons, Bool.and_eq_true, ih, List.cons_prefix_cons]
        simp [eq_comm]
  rw [LtxPath.isInsideOf, LtxPath.isTopLevel, if_neg (by simpa using hp)]
  split
  · next hlong =>
    refine iff_of_false (by simp) fun hprefix => ?_
    have := hprefix.length_le
    omega
  · next hshort => exact hzip (by omega)

/-! ### Cores by type -/

/-- The cores under a type. -/
def coresUnder (d : Py.Dict CoreType (List LtxCore)) (t : CoreType) : List LtxCore :=
  (d.get? t).getD []

theorem coresUnder_push (d : Py.Dict CoreType (List LtxCore)) (k t : CoreType) (core : LtxCore) :
    coresUnder (push d k core) t = coresUnder d t ++ if k = t then [core] else [] := by
  rw [coresUnder, push]
  by_cases h : k = t
  · subst h
    rw [Py.Dict.get?_set_self, if_pos rfl]
    rfl
  · rw [Py.Dict.get?_set_ne _ (Ne.symm h), if_neg h, List.append_nil, coresUnder]

theorem mem_allCores {ltx : Ltx} {core : LtxCore} :
    core ∈ ltx.allCores ↔ ∃ t, core ∈ coresUnder ltx.cores t := by
  rw [allCores, List.mem_flatten]
  constructor
  · rintro ⟨cs, hcs, hcore⟩
    obtain ⟨⟨t, cs⟩, hentry, rfl⟩ := List.mem_map.mp hcs
    refine ⟨t, ?_⟩
    rw [coresUnder, (Py.Dict.get?_eq_some_iff _).mpr hentry]
    exact hcore
  · rintro ⟨t, hcore⟩
    rw [coresUnder] at hcore
    cases hget : ltx.cores.get? t with
    | none => simp [hget] at hcore
    | some cs =>
      rw [hget] at hcore
      exact ⟨cs, List.mem_map_of_mem (f := (·.2)) ((Py.Dict.get?_eq_some_iff _).mp hget), hcore⟩

/-- Every core is listed under its own type. -/
def Keyed (d : Py.Dict CoreType (List LtxCore)) : Prop :=
  ∀ t, ∀ core ∈ coresUnder d t, core.coreType = t

theorem filter_coreType_entries {t : CoreType} : ∀ {es : List (CoreType × List LtxCore)},
    (es.map (·.1)).Nodup → (∀ e ∈ es, ∀ core ∈ e.2, core.coreType = e.1) →
    (es.map (·.2)).flatten.filter (·.coreType = t) = (Py.lookup t es).getD [] := by
  intro es
  induction es with
  | nil => intros; rfl
  | cons e es ih =>
    intro hnodup hkeyed
    obtain ⟨hnew, hnodup⟩ := List.nodup_cons.mp hnodup
    have hrest := ih hnodup fun e he => hkeyed e (List.mem_cons_of_mem _ he)
    have htypes := hkeyed e List.mem_cons_self
    rw [List.map_cons, List.flatten_cons, List.filter_append, hrest, Py.lookup]
    by_cases ht : e.1 = t
    · have hnone : Py.lookup t es = none := (Py.lookup_eq_none_iff t es).mpr (ht ▸ hnew)
      rw [if_pos ht, hnone, Option.getD_none, List.append_nil, Option.getD_some]
      exact List.filter_eq_self.mpr fun core hcore => by simp [htypes core hcore, ht]
    · rw [if_neg ht, List.filter_eq_nil_iff.mpr fun core hcore => by simp [htypes core hcore, ht],
        List.nil_append]

/-- The cores of a type are those under it, in their order. -/
theorem Keyed.filter_allCores {ltx : Ltx} (h : Keyed ltx.cores) (t : CoreType) :
    ltx.allCores.filter (·.coreType = t) = coresUnder ltx.cores t := by
  refine filter_coreType_entries ltx.cores.nodup fun e he core hcore => h e.1 core ?_
  rw [coresUnder, (Py.Dict.get?_eq_some_iff ltx.cores).mpr he]
  exact hcore

theorem Keyed.push {d : Py.Dict CoreType (List LtxCore)} (h : Keyed d) (core : LtxCore) :
    Keyed (push d core.coreType core) := by
  intro t c hc
  rw [coresUnder_push] at hc
  rcases List.mem_append.mp hc with hc | hc
  · exact h t c hc
  · split at hc
    · next ht => exact List.mem_singleton.mp hc ▸ ht
    · simp at hc

theorem get?_map {κ υ ω : Type} [DecidableEq κ] (f : υ → ω) (d : Py.Dict κ υ) (k : κ) :
    (d.map f).get? k = (d.get? k).map f := by
  have hlookup : ∀ es : List (κ × υ),
      Py.lookup k (es.map fun e => (e.1, f e.2)) = (Py.lookup k es).map f := by
    intro es
    induction es with
    | nil => rfl
    | cons e es ih =>
      rw [List.map_cons, Py.lookup, Py.lookup]
      split
      · rfl
      · exact ih
  exact hlookup d.entries

theorem coresUnder_map (d : Py.Dict CoreType (List LtxCore)) (f : List LtxCore → List LtxCore)
    (hf : f [] = []) (t : CoreType) : coresUnder (d.map f) t = f (coresUnder d t) := by
  rw [coresUnder, coresUnder, get?_map]
  cases d.get? t with
  | none => exact hf.symm
  | some cs => rfl

/-! ### The tables of a file -/

/-- The references that a core adds under a cell name: one for each of its streams that names it. -/
def LtxCore.streamRefs (up : String) (core : LtxCore) : List LtxStreamRef :=
  (core.upstreamCellNames.zipIdx.filter (·.1 = up)).map fun s => ⟨core.cellName, core.uuid, s.2⟩

/-- What `post_process` makes of the cores and of the partitions without cores. -/
structure Processed (ltx ltx' : Ltx) : Prop where
  perm_cores : ltx'.allCores.Perm ltx.allCores
  keyed : Keyed ltx.cores → Keyed ltx'.cores
  emptyPartitions : ltx'.emptyPartitions = ltx.emptyPartitions
  mem_partitions : ∀ q ∈ ltx'.partitions, (q ∈ ltx.partitions ∧ q.str = "") ∨
    q ∈ ltx.emptyPartitions ∨ ∃ core ∈ ltx.allCores, core.partition = q
  mem_partitions_str : ∀ s, s ∈ ltx'.partitions.map (·.str) ↔
    (s ∈ ltx.partitions.map (·.str) ∧ s = "") ∨ s ∈ ltx.emptyPartitions.map (·.str) ∨
      ∃ core ∈ ltx.allCores, core.partition.str = s
  refs : ∀ up, ((ltx'.downstreamRefs.get? up).getD []).Perm
    (ltx'.allCores.flatMap (LtxCore.streamRefs up))
  addresses : List.Forall₂ (fun core address =>
      IntLiteral.int 16 core.debugHubAddress.toList = .ok address)
    (coresUnder ltx'.cores .axiDebugHub) ltx'.debugHubAddresses

theorem Processed.mem_cores {ltx ltx' : Ltx} (h : Processed ltx ltx') (core : LtxCore) :
    core ∈ ltx'.allCores ↔ core ∈ ltx.allCores :=
  h.perm_cores.mem_iff

theorem get?_push {κ υ : Type} [DecidableEq κ] (d : Py.Dict κ (List υ)) (k k' : κ) (v : υ) :
    ((push d k v).get? k').getD [] = (d.get? k').getD [] ++ if k = k' then [v] else [] := by
  rw [push]
  by_cases h : k = k'
  · subst h
    rw [Py.Dict.get?_set_self, if_pos rfl]
    rfl
  · rw [Py.Dict.get?_set_ne _ (Ne.symm h), if_neg h, List.append_nil]

/-- A core's references go to the ends of the lists. -/
theorem get?_addDownstreamRefs (up : String) (refs : Py.Dict String (List LtxStreamRef))
    (core : LtxCore) : ((addDownstreamRefs refs core).get? up).getD [] =
      (refs.get? up).getD [] ++ core.streamRefs up := by
  have hloop : ∀ (names : List (String × ℕ)) (refs : Py.Dict String (List LtxStreamRef)),
      ((names.foldl (fun refs up => push refs up.1 ⟨core.cellName, core.uuid, up.2⟩)
        refs).get? up).getD [] = (refs.get? up).getD [] ++
          (names.filter (·.1 = up)).map fun s => ⟨core.cellName, core.uuid, s.2⟩ := by
    intro names
    induction names with
    | nil => simp
    | cons name names ih =>
      intro refs
      rw [List.foldl_cons, ih, get?_push, List.append_assoc]
      by_cases hname : name.1 = up
      · rw [if_pos hname, List.filter_cons_of_pos (by simpa using hname), List.map_cons]
        rfl
      · rw [if_neg hname, List.filter_cons_of_neg (by simpa using hname), List.nil_append]
  exact hloop _ refs

theorem get?_foldl_addDownstreamRefs (up : String) : ∀ (cores : List LtxCore)
    (refs : Py.Dict String (List LtxStreamRef)),
    ((cores.foldl addDownstreamRefs refs).get? up).getD [] =
      (refs.get? up).getD [] ++ cores.flatMap (LtxCore.streamRefs up) := by
  intro cores
  induction cores with
  | nil => simp
  | cons core cores ih =>
    intro refs
    rw [List.foldl_cons, ih, get?_addDownstreamRefs, List.append_assoc, List.flatMap_cons]

/-- Sorting each list of cores moves the cores inside their type only. -/
theorem perm_values_map_sortCores (d : Py.Dict CoreType (List LtxCore)) :
    (d.map sortCores).values.flatten.Perm d.values.flatten := by
  have hvalues : (d.map sortCores).values = d.values.map sortCores := by
    simp [Py.Dict.values, Py.Dict.map]
  rw [hvalues, ← List.flatMap_def, ← List.flatMap_id]
  exact List.Perm.flatMap_left _ fun cs _ => List.mergeSort_perm cs _

theorem mem_sortCores {core : LtxCore} {coreList : List LtxCore} :
    core ∈ sortCores coreList ↔ core ∈ coreList :=
  (List.mergeSort_perm coreList _).mem_iff

theorem processed {ltx ltx' : Ltx} (h : postProcess ltx = .ok ltx') : Processed ltx ltx' := by
  obtain ⟨addresses, haddresses, h⟩ := Py.bind_eq_ok h
  obtain rfl := (Except.ok.inj h).symm
  have hunder : ∀ t, coresUnder (ltx.cores.map sortCores) t = sortCores (coresUnder ltx.cores t) :=
    coresUnder_map ltx.cores sortCores (List.mergeSort_nil ..)
  refine ⟨perm_values_map_sortCores ltx.cores, fun hkeyed t core hcore => ?_, rfl,
    fun q hq => ?_, fun s => ?_, fun up => ?_, Py.forall₂_of_mapExcept_ok haddresses⟩
  · rw [hunder] at hcore
    exact hkeyed t core (mem_sortCores.mp hcore)
  · rcases mem_of_mem_updatePaths hq with hq | hq
    · rcases mem_of_mem_updatePaths hq with hq | hq
      · obtain ⟨hq, htop⟩ := List.mem_filter.mp hq
        exact .inl ⟨hq, of_decide_eq_true htop⟩
      · exact .inr (.inl hq)
    · exact .inr (.inr (List.mem_map.mp hq))
  · rw [mem_updatePaths_str, mem_updatePaths_str, or_assoc]
    simp only [List.mem_map, List.mem_filter, LtxPath.isTopLevel, decide_eq_true_eq]
    constructor
    · rintro (⟨q, ⟨hq, htop⟩, rfl⟩ | hempty | ⟨q, ⟨core, hcore, rfl⟩, rfl⟩)
      · exact .inl ⟨⟨q, hq, rfl⟩, htop⟩
      · exact .inr (.inl hempty)
      · exact .inr (.inr ⟨core, hcore, rfl⟩)
    · rintro (⟨⟨q, hq, rfl⟩, htop⟩ | hempty | ⟨core, hcore, rfl⟩)
      · exact .inl ⟨q, ⟨hq, htop⟩, rfl⟩
      · exact .inr (.inl hempty)
      · exact .inr (.inr ⟨_, ⟨core, hcore, rfl⟩, rfl⟩)
  · -- the references were made before the cores were sorted
    rw [get?_foldl_addDownstreamRefs]
    exact (perm_values_map_sortCores ltx.cores).symm.flatMap_right _

/-- Only the address of a debug hub can be wrong. -/
theorem exists_postProcess_iff {ltx : Ltx} : (∃ ltx', postProcess ltx = .ok ltx') ↔
    ∀ core ∈ coresUnder ltx.cores .axiDebugHub,
      ∃ address, IntLiteral.int 16 core.debugHubAddress.toList = .ok address := by
  have hunder : ((ltx.cores.map sortCores).get? .axiDebugHub).getD [] =
      sortCores (coresUnder ltx.cores .axiDebugHub) :=
    coresUnder_map ltx.cores sortCores (List.mergeSort_nil ..) .axiDebugHub
  have hloop := Py.exists_mapExcept_iff (l := sortCores (coresUnder ltx.cores .axiDebugHub))
    (f := fun core => IntLiteral.int 16 core.debugHubAddress.toList)
  simp only [mem_sortCores] at hloop
  rw [← hloop, postProcess, hunder]
  constructor
  · rintro ⟨ltx', h⟩
    obtain ⟨addresses, haddresses, -⟩ := Py.bind_eq_ok h
    exact ⟨addresses, haddresses⟩
  · rintro ⟨addresses, haddresses⟩
    rw [haddresses]
    exact ⟨_, rfl⟩

theorem isInsideLtxPartitions_iff {ltx : Ltx} {p : LtxPath} : ltx.isInsideLtxPartitions p ↔
    ∃ s ∈ ltx.partitions.map (·.str), (LtxPath.mk p.str "").isInsideOf ⟨s, ""⟩ := by
  rw [isInsideLtxPartitions, List.any_eq_true]
  constructor
  · rintro ⟨q, hq, hin⟩
    exact ⟨q.str, List.mem_map_of_mem hq, (isInsideOf_congr rfl rfl).trans hin⟩
  · rintro ⟨s, hs, hin⟩
    obtain ⟨q, hq, rfl⟩ := List.mem_map.mp hs
    exact ⟨q, hq, (isInsideOf_congr rfl rfl).trans hin⟩

/-! ### One file over the others -/

theorem coresUnder_foldl_push (k t : CoreType) : ∀ (cs : List LtxCore)
    (d : Py.Dict CoreType (List LtxCore)),
    coresUnder (cs.foldl (push · k ·) d) t = coresUnder d t ++ if k = t then cs else [] := by
  intro cs
  induction cs with
  | nil => simp
  | cons core cs ih =>
    intro d
    rw [List.foldl_cons, ih, coresUnder_push, List.append_assoc]
    split <;> rfl

/-- The cores of the entries go to the ends of the lists. -/
theorem mem_coresUnder_foldl {t : CoreType} {core : LtxCore} :
    ∀ (es : List (CoreType × List LtxCore)) (d : Py.Dict CoreType (List LtxCore)),
    core ∈ coresUnder (es.foldl (fun d e => e.2.foldl (push · e.1 ·) d) d) t ↔
      core ∈ coresUnder d t ∨ ∃ e ∈ es, e.1 = t ∧ core ∈ e.2 := by
  intro es
  induction es with
  | nil => simp
  | cons e es ih =>
    intro d
    rw [List.foldl_cons, ih, coresUnder_foldl_push, List.mem_append, or_assoc,
      List.exists_mem_cons_iff]
    by_cases he : e.1 = t <;> simp [he]

theorem mem_coresUnder_replace (self other : Ltx) (t : CoreType) (core : LtxCore) :
    core ∈ coresUnder (self.replacePartitionCores other).cores t ↔
      (core ∈ coresUnder self.cores t ∧ ¬ other.isInsideLtxPartitions core.partition) ∨
        core ∈ coresUnder other.cores t := by
  have hother : (∃ e ∈ other.cores.entries, e.1 = t ∧ core ∈ e.2) ↔
      core ∈ coresUnder other.cores t := by
    rw [coresUnder]
    constructor
    · rintro ⟨⟨t, cs⟩, he, rfl, hcore⟩
      rw [(Py.Dict.get?_eq_some_iff _).mpr he]
      exact hcore
    · intro hcore
      cases hget : other.cores.get? t with
      | none => simp [hget] at hcore
      | some cs =>
        rw [hget] at hcore
        exact ⟨(t, cs), (Py.Dict.get?_eq_some_iff _).mp hget, rfl, hcore⟩
  rw [replacePartitionCores, mem_coresUnder_foldl, hother, coresUnder_map _ _ List.filter_nil]
  simp

/-- What a file covers of the cores, and of the partitions without cores. -/
def CoversCore (ltx : Ltx) (core : LtxCore) : Prop := ltx.isInsideLtxPartitions core.partition

def CoversPath (ltx : Ltx) (q : LtxPath) : Prop := ltx.isInsideLtxPartitions q

instance (ltx : Ltx) : DecidablePred ltx.CoversCore := fun _ => inferInstanceAs (Decidable (_ = _))

instance (ltx : Ltx) : DecidablePred ltx.CoversPath := fun _ => inferInstanceAs (Decidable (_ = _))

theorem mem_allCores_replace (self other : Ltx) (core : LtxCore) :
    core ∈ (self.replacePartitionCores other).allCores ↔
      core ∈ Layers.cover allCores CoversCore self.allCores other := by
  simp only [Layers.mem_cover, mem_allCores, mem_coresUnder_replace, CoversCore, exists_or,
    exists_and_right]

theorem Keyed.replace {self other : Ltx} (h : Keyed self.cores) (hother : Keyed other.cores) :
    Keyed (self.replacePartitionCores other).cores := by
  intro t core hcore
  rcases (mem_coresUnder_replace self other t core).mp hcore with ⟨hcore, -⟩ | hcore
  · exact h t core hcore
  · exact hother t core hcore

theorem mem_emptyPartitions_replace {self other : Ltx} {q : LtxPath}
    (h : q ∈ (self.replacePartitionCores other).emptyPartitions) :
    q ∈ Layers.cover emptyPartitions CoversPath self.emptyPartitions other := by
  rw [Layers.mem_cover]
  rcases mem_of_mem_updatePaths h with hq | hq
  · exact .inl (by simpa [CoversPath] using hq)
  · exact .inr hq

/-- The files of a merge, from the first one that counts. -/
def merged (ltx : Ltx) (partials : List Ltx) : Ltx := partials.foldl replacePartitionCores ltx

theorem mem_merged (ltx : Ltx) (partials : List Ltx) (core : LtxCore) :
    core ∈ (merged ltx partials).allCores ↔
      ∃ (i : ℕ) (l : Ltx), (ltx :: partials)[i]? = some l ∧ core ∈ l.allCores ∧
        ∀ j > i, ∀ above, (ltx :: partials)[j]? = some above → ¬ above.CoversCore core := by
  rw [merged, Layers.mem_foldl_iff mem_allCores_replace, Layers.mem_overlay_items]

theorem emptyPartitions_merged {ltx : Ltx} {partials : List Ltx} {q : LtxPath}
    (h : q ∈ (merged ltx partials).emptyPartitions) :
    ∃ (i : ℕ) (l : Ltx), (ltx :: partials)[i]? = some l ∧ q ∈ l.emptyPartitions ∧
      ∀ j > i, ∀ above, (ltx :: partials)[j]? = some above → ¬ above.CoversPath q :=
  Layers.mem_overlay_items.mp
    (Layers.mem_overlay_of_mem_foldl (fun _ _ _ => mem_emptyPartitions_replace) h)

/-- A file with cores, or with cells that have none. -/
def Occupied (ltx : Ltx) : Prop := (∃ core, core ∈ ltx.allCores) ∨ ltx.emptyPartitions ≠ []

/-- A file that describes nothing covers nothing. -/
theorem occupied_replace {self other : Ltx} (h : Occupied self ∨ Occupied other)
    (hother : Occupied other ∨ other.partitions = []) :
    Occupied (self.replacePartitionCores other) := by
  have hempty : ∀ q ∈ self.emptyPartitions.filter (fun ep => !other.isInsideLtxPartitions ep) ++
      other.emptyPartitions, (self.replacePartitionCores other).emptyPartitions ≠ [] := by
    intro q hq hnil
    have hmem : q.str ∈ (self.replacePartitionCores other).emptyPartitions.map (·.str) :=
      mem_updatePaths_str.mpr <| by
        rw [← List.mem_append, ← List.map_append]
        exact List.mem_map_of_mem hq
    simp [hnil] at hmem
  have hkept : other.Occupied → (self.replacePartitionCores other).Occupied := by
    rintro (⟨core, hcore⟩ | hne)
    · exact .inl ⟨core, (mem_allCores_replace self other core).mpr
        (Layers.mem_cover.mpr (.inr hcore))⟩
    · obtain ⟨q, hq⟩ := List.exists_mem_of_ne_nil _ hne
      exact .inr (hempty q (List.mem_append_right _ hq))
  rcases hother with hother | hnone
  · exact hkept hother
  · have hin : ∀ q, other.isInsideLtxPartitions q = false := by
      intro q
      rw [isInsideLtxPartitions, hnone]
      rfl
    rcases h with (⟨core, hcore⟩ | hne) | h
    · exact .inl ⟨core, (mem_allCores_replace self other core).mpr
        (Layers.mem_cover.mpr (.inl ⟨hcore, by simp [CoversCore, hin]⟩))⟩
    · obtain ⟨q, hq⟩ := List.exists_mem_of_ne_nil _ hne
      exact .inr (hempty q (List.mem_append_left _ (List.mem_filter.mpr ⟨hq, by simp [hin]⟩)))
    · exact hkept h

theorem occupied_merged {partials : List Ltx} : ∀ {ltx : Ltx},
    (∃ l ∈ ltx :: partials, Occupied l) → (∀ l ∈ partials, Occupied l ∨ l.partitions = []) →
    Occupied (merged ltx partials) := by
  induction partials with
  | nil =>
    rintro ltx ⟨l, hl, hocc⟩ -
    exact List.mem_singleton.mp hl ▸ hocc
  | cons other partials ih =>
    rintro ltx ⟨l, hl, hocc⟩ hall
    obtain ⟨hother, hall⟩ := List.forall_mem_cons.mp hall
    refine ih ?_ hall
    rcases List.mem_cons.mp hl with rfl | hl
    · exact ⟨_, List.mem_cons_self, occupied_replace (.inl hocc) hother⟩
    · rcases List.mem_cons.mp hl with rfl | hl
      · exact ⟨_, List.mem_cons_self, occupied_replace (.inr hocc) hother⟩
      · exact ⟨l, List.mem_cons_of_mem _ hl, hocc⟩

theorem Processed.partitions_ne_nil_iff {ltx ltx' : Ltx} (h : Processed ltx ltx') :
    ltx'.partitions ≠ [] ↔ ltx'.isTopLevel ∨ ltx'.Occupied := by
  have hstr : ∀ s ∈ ltx'.partitions.map (·.str), ltx'.partitions ≠ [] := by
    intro s hs hnil
    simp [hnil] at hs
  constructor
  · intro hne
    obtain ⟨q, hq⟩ := List.exists_mem_of_ne_nil _ hne
    rcases h.mem_partitions q hq with ⟨-, htop⟩ | hempty | ⟨core, hcore, -⟩
    · exact .inl (List.any_eq_true.mpr ⟨q, hq, decide_eq_true htop⟩)
    · exact .inr (.inr (h.emptyPartitions ▸ List.ne_nil_of_mem hempty))
    · exact .inr (.inl ⟨core, (h.mem_cores core).mpr hcore⟩)
  · rintro (htop | ⟨core, hcore⟩ | hempty)
    · obtain ⟨q, hq, -⟩ := List.any_eq_true.mp htop
      exact List.ne_nil_of_mem hq
    · exact hstr _ ((h.mem_partitions_str _).mpr
        (.inr (.inr ⟨core, (h.mem_cores core).mp hcore, rfl⟩)))
    · obtain ⟨q, hq⟩ := List.exists_mem_of_ne_nil _ hempty
      exact hstr _ ((h.mem_partitions_str _).mpr
        (.inr (.inl (List.mem_map_of_mem (h.emptyPartitions ▸ hq)))))

/-! ### Reading a file -/

section Parse

variable (isMemberName : String → String → Bool)

/-- A core of a known IP in a file. -/
def Reads (sourceName : String) (ltxData : List LtxDataItem) (core : LtxCore) : Prop :=
  ∃ item ∈ ltxData, ∃ inCore ∈ item.debugCores.getD [],
    readCore isMemberName inCore (readParentNetEnums (item.parentNets.getD [])) sourceName =
      .ok (some core)

/-- A cell without debug cores in a file. -/
def Vacates (ltxData : List LtxDataItem) (s : String) : Prop :=
  s ≠ "" ∧ ∃ item ∈ ltxData, item.cellName = some s ∧ item.debugCores.getD [] = []

/-- The partitions of a file: the top level of a file without cells, the cells without debug cores,
    and the partitions of the cores. -/
def Describes (sourceName : String) (ltxData : List LtxDataItem) (s : String) : Prop :=
  (s = "" ∧ ∀ item ∈ ltxData, item.cellName.getD "" = "") ∨ Vacates ltxData s ∨
    ∃ core, Reads isMemberName sourceName ltxData core ∧ core.partition.str = s

variable {isMemberName}

theorem partition_of_readCore {inCore : DebugCore} {parentEnums : ParentEnums} {name : String}
    {core : LtxCore} (h : readCore isMemberName inCore parentEnums name = .ok (some core)) :
    core.partition.source = name := by
  obtain ⟨probes, -, h⟩ := Py.bind_eq_ok h
  obtain ⟨coreType, -, rfl⟩ := Option.map_eq_some_iff.mp (Except.ok.inj h)
  rfl

theorem readCores_spec {parentEnums : ParentEnums} {debugCores : List DebugCore} {ltx' : Ltx} :
    ∀ {ltx : Ltx}, readCores isMemberName parentEnums ltx debugCores = .ok ltx' →
    ∃ d, ltx' = { ltx with cores := d } ∧ ∀ t core, core ∈ coresUnder d t ↔
      core ∈ coresUnder ltx.cores t ∨ core.coreType = t ∧ ∃ inCore ∈ debugCores,
        readCore isMemberName inCore parentEnums ltx.sourceName = .ok (some core) := by
  induction debugCores with
  | nil =>
    intro ltx h
    obtain rfl : ltx = ltx' := Except.ok.inj h
    exact ⟨_, rfl, by simp⟩
  | cons inCore debugCores ih =>
    intro ltx h
    obtain ⟨ltx₁, hfirst, hrest⟩ := Py.bind_eq_ok h
    obtain ⟨read, hread, hfirst⟩ := Py.bind_eq_ok hfirst
    cases read with
    | none =>
      obtain rfl : ltx = ltx₁ := Except.ok.inj hfirst
      obtain ⟨d, rfl, hd⟩ := ih hrest
      refine ⟨d, rfl, fun t core => ?_⟩
      rw [hd, List.exists_mem_cons_iff, hread]
      simp
    | some core₁ =>
      obtain rfl := (Except.ok.inj hfirst).symm
      obtain ⟨d, rfl, hd⟩ := ih hrest
      refine ⟨d, rfl, fun t core => ?_⟩
      rw [hd, List.exists_mem_cons_iff, hread, coresUnder_push]
      by_cases ht : core₁.coreType = t
      · subst ht
        simp only [if_true, List.mem_append, List.mem_singleton, Except.ok.injEq,
          Option.some.injEq, or_assoc]
        constructor
        · rintro (hcore | rfl | hcore)
          · exact .inl hcore
          · exact .inr ⟨rfl, .inl rfl⟩
          · exact .inr ⟨hcore.1, .inr hcore.2⟩
        · rintro (hcore | ⟨htype, rfl | hcore⟩)
          · exact .inl hcore
          · exact .inr (.inl rfl)
          · exact .inr (.inr ⟨htype, hcore⟩)
      · simp only [if_neg ht, List.append_nil, Except.ok.injEq, Option.some.injEq]
        refine or_congr_right (and_congr_right fun htype => ⟨.inr, fun hcore => ?_⟩)
        exact hcore.resolve_left fun heq => ht (heq ▸ htype)

theorem path?_eq_some {item : LtxDataItem} {name : String} {p : LtxPath} :
    item.path? name = some p ↔ item.cellName = some p.str ∧ p.str ≠ "" ∧ p.source = name := by
  obtain ⟨s, source⟩ := p
  rw [LtxDataItem.path?, Option.map_eq_some_iff]
  constructor
  · rintro ⟨cell, hcell, heq⟩
    obtain ⟨rfl, rfl⟩ := LtxPath.mk.inj heq
    obtain ⟨hcell, hne⟩ := Option.filter_eq_some_iff.mp hcell
    exact ⟨hcell, by simpa using hne, rfl⟩
  · rintro ⟨hcell, hne, rfl⟩
    exact ⟨s, Option.filter_eq_some_iff.mpr ⟨hcell, by simpa using hne⟩, rfl⟩

theorem path?_eq_none {item : LtxDataItem} {name : String} :
    item.path? name = none ↔ item.cellName.getD "" = "" := by
  rw [LtxDataItem.path?, Option.map_eq_none_iff]
  cases item.cellName <;> simp [Option.filter]

/-- What the items of a file add. -/
structure ItemsRead (isMemberName : String → String → Bool) (ltx : Ltx)
    (items : List LtxDataItem) (ltx' : Ltx) : Prop where
  sourceName : ltx'.sourceName = ltx.sourceName
  cores : ∀ t core, core ∈ coresUnder ltx'.cores t ↔ core ∈ coresUnder ltx.cores t ∨
    core.coreType = t ∧ Reads isMemberName ltx.sourceName items core
  partitions : ∀ q ∈ ltx'.partitions, q ∈ ltx.partitions ∨ q.str ≠ ""
  emptyPartitions : ∀ q ∈ ltx'.emptyPartitions, q ∈ ltx.emptyPartitions ∨
    q.source = ltx.sourceName
  emptyPartitions_str : ∀ s, s ∈ ltx'.emptyPartitions.map (·.str) ↔
    s ∈ ltx.emptyPartitions.map (·.str) ∨ Vacates items s

theorem itemRead {ltx ltx' : Ltx} {item : LtxDataItem}
    (h : readItem isMemberName ltx item = .ok ltx') : ItemsRead isMemberName ltx [item] ltx' := by
  obtain ⟨ltx₁, hcores, h⟩ := Py.bind_eq_ok h
  obtain ⟨d, rfl, hd⟩ := readCores_spec hcores
  have hreads : ∀ core, Reads isMemberName ltx.sourceName [item] core ↔
      ∃ inCore ∈ item.debugCores.getD [], readCore isMemberName inCore
        (readParentNetEnums (item.parentNets.getD [])) ltx.sourceName = .ok (some core) := by
    simp [Reads]
  have hpartitions : ∀ q ∈ (item.path? ltx.sourceName).elim ltx.partitions
      (addPath ltx.partitions), q ∈ ltx.partitions ∨ q.str ≠ "" := by
    intro q hq
    cases hpath : item.path? ltx.sourceName with
    | none =>
      rw [hpath] at hq
      exact .inl hq
    | some p =>
      rw [hpath] at hq
      rcases mem_of_mem_addPath hq with hq | rfl
      · exact .inl hq
      · exact .inr (path?_eq_some.mp hpath).2.1
  cases hpath : item.path? ltx.sourceName with
  | none =>
    have hvacates : ∀ s, ¬ Vacates [item] s := by
      rintro s ⟨hne, item', hitem, hcell, -⟩
      obtain rfl := List.mem_singleton.mp hitem
      exact hne (by simpa [hcell] using path?_eq_none.mp hpath)
    rw [hpath] at h
    obtain rfl := (Except.ok.inj h).symm
    exact ⟨rfl, fun t core => (hd t core).trans (by rw [hreads]), hpath ▸ hpartitions,
      fun q hq => .inl hq, fun s => by simp [hvacates s]⟩
  | some p =>
    obtain ⟨hcell, hne, hsource⟩ := path?_eq_some.mp hpath
    rw [hpath] at h
    cases hdebug : item.debugCores.getD [] with
    | nil =>
      rw [hdebug] at h hd
      obtain rfl := (Except.ok.inj h).symm
      have hvacates : ∀ s, Vacates [item] s ↔ s = p.str := by
        intro s
        simp only [Vacates, List.mem_singleton, exists_eq_left, hcell, hdebug, and_true,
          Option.some.injEq]
        exact ⟨fun hs => hs.2.symm, fun hs => ⟨hs ▸ hne, hs.symm⟩⟩
      refine ⟨rfl, fun t core => (hd t core).trans (by rw [hreads, hdebug]), hpath ▸ hpartitions,
        fun q hq => ?_, fun s => ?_⟩
      · rcases mem_of_mem_addPath hq with hq | rfl
        · exact .inl hq
        · exact .inr hsource
      · rw [hvacates]
        exact mem_addPath_str
    | cons inCore debugCores =>
      rw [hdebug] at h hd
      obtain rfl := (Except.ok.inj h).symm
      have hvacates : ∀ s, ¬ Vacates [item] s := by
        rintro s ⟨-, item', hitem, -, hnil⟩
        obtain rfl := List.mem_singleton.mp hitem
        simp [hdebug] at hnil
      exact ⟨rfl, fun t core => (hd t core).trans (by rw [hreads, hdebug]), hpath ▸ hpartitions,
        fun q hq => .inl hq, fun s => by simp [hvacates s]⟩

theorem itemsRead {items : List LtxDataItem} {ltx' : Ltx} : ∀ {ltx : Ltx},
    items.foldlM (readItem isMemberName) ltx = .ok ltx' →
    ItemsRead isMemberName ltx items ltx' := by
  induction items with
  | nil =>
    intro ltx h
    obtain rfl : ltx = ltx' := Except.ok.inj h
    exact ⟨rfl, by simp [Reads], fun q hq => .inl hq, fun q hq => .inl hq, by simp [Vacates]⟩
  | cons item items ih =>
    intro ltx h
    obtain ⟨ltx₁, hfirst, hrest⟩ := Py.bind_eq_ok h
    have hitem := itemRead hfirst
    have hitems := ih hrest
    refine ⟨hitems.sourceName.trans hitem.sourceName, fun t core => ?_, fun q hq => ?_,
      fun q hq => ?_, fun s => ?_⟩
    · rw [hitems.cores, hitem.cores, hitem.sourceName, or_assoc, ← and_or_left]
      simp only [Reads, List.exists_mem_cons_iff, List.not_mem_nil, false_and, exists_false,
        or_false]
    · exact (hitems.partitions q hq).elim (hitem.partitions q) .inr
    · exact (hitems.emptyPartitions q hq).elim (hitem.emptyPartitions q)
        fun hsource => .inr (hsource.trans hitem.sourceName)
    · rw [hitems.emptyPartitions_str, hitem.emptyPartitions_str, or_assoc]
      simp only [Vacates, List.exists_mem_cons_iff, List.not_mem_nil, false_and, exists_false,
        or_false, and_or_left]

/-- The tables of a file that was read. -/
structure Parsed (isMemberName : String → String → Bool) (name : String)
    (ltxData : List LtxDataItem) (ltx : Ltx) : Prop where
  mem_cores : ∀ core, core ∈ ltx.allCores ↔ Reads isMemberName name ltxData core
  keyed : Keyed ltx.cores
  partitions : ∀ s, s ∈ ltx.partitions.map (·.str) ↔ Describes isMemberName name ltxData s
  source : ∀ q ∈ ltx.partitions, q.source = name
  source_empty : ∀ q ∈ ltx.emptyPartitions, q.source = name ∧ q.str ∈ ltx.partitions.map (·.str)
  source_core : ∀ core ∈ ltx.allCores, core.partition.source = name ∧
    core.partition.str ∈ ltx.partitions.map (·.str)
  processed : ∃ ltx₀, postProcess ltx₀ = .ok ltx

theorem parsed {name : String} {ltxData : List LtxDataItem} {ltx : Ltx}
    (h : parseLtx isMemberName name ltxData = .ok ltx) : Parsed isMemberName name ltxData ltx := by
  obtain ⟨ltx₀, hitems, hpost⟩ := Py.bind_eq_ok h
  have hitems := itemsRead hitems
  set ltx₁ := if ltxData.all fun item => (item.path? name).isNone then
      { ltx₀ with partitions := addPath ltx₀.partitions ⟨"", name⟩ }
    else ltx₀ with hltx₁
  have hcores : ltx₁.cores = ltx₀.cores := by
    rw [hltx₁]
    split <;> rfl
  have hempty : ltx₁.emptyPartitions = ltx₀.emptyPartitions := by
    rw [hltx₁]
    split <;> rfl
  have hall : (ltxData.all fun item => (item.path? name).isNone) = true ↔
      ∀ item ∈ ltxData, item.cellName.getD "" = "" := by
    simp only [List.all_eq_true, Option.isNone_iff_eq_none, path?_eq_none]
  have htop : ∀ q ∈ ltx₁.partitions, q.str = "" → q = ⟨"", name⟩ := by
    have hcells : ∀ q ∈ ltx₀.partitions, q.str ≠ "" := fun q hq =>
      (hitems.partitions q hq).elim (fun hq => absurd hq (List.not_mem_nil)) id
    intro q hq hstr
    rw [hltx₁] at hq
    split at hq
    · exact (mem_of_mem_addPath hq).resolve_left fun hq => hcells q hq hstr
    · exact absurd hstr (hcells q hq)
  have htop_str : ∀ s, s ∈ ltx₁.partitions.map (·.str) ∧ s = "" ↔
      s = "" ∧ ∀ item ∈ ltxData, item.cellName.getD "" = "" := by
    intro s
    rw [← hall, hltx₁]
    constructor
    · rintro ⟨hs, rfl⟩
      refine ⟨rfl, ?_⟩
      split at hs
      · next hfull => exact hfull
      · obtain ⟨q, hq, hstr⟩ := List.mem_map.mp hs
        have hne := (hitems.partitions q hq).resolve_left (List.not_mem_nil)
        exact absurd hstr hne
    · rintro ⟨rfl, hfull⟩
      rw [if_pos hfull]
      exact ⟨mem_addPath_str.mpr (.inr rfl), rfl⟩
  have hmem₁ : ∀ core, core ∈ ltx₁.allCores ↔ Reads isMemberName name ltxData core := by
    intro core
    simp only [mem_allCores, hcores, hitems.cores]
    simp [coresUnder]
  have hkeyed : Keyed ltx₁.cores := by
    intro t core hcore
    rw [hcores, hitems.cores] at hcore
    exact hcore.elim (fun hnil => by simp [coresUnder] at hnil) And.left
  have hvacates : ∀ s, s ∈ ltx₁.emptyPartitions.map (·.str) ↔ Vacates ltxData s := by
    intro s
    rw [hempty, hitems.emptyPartitions_str]
    simp
  have hprocessed := processed hpost
  have hsource_empty : ∀ q ∈ ltx₁.emptyPartitions, q.source = name := by
    intro q hq
    rw [hempty] at hq
    exact (hitems.emptyPartitions q hq).resolve_left (List.not_mem_nil)
  have hsource_core : ∀ core ∈ ltx₁.allCores, core.partition.source = name := by
    intro core hcore
    obtain ⟨item, -, inCore, -, hread⟩ := (hmem₁ core).mp hcore
    exact partition_of_readCore hread
  refine ⟨fun core => (hprocessed.mem_cores core).trans (hmem₁ core), hprocessed.keyed hkeyed,
    fun s => ?_, fun q hq => ?_, fun q hq => ?_, fun core hcore => ?_, _, hpost⟩
  · rw [hprocessed.mem_partitions_str, htop_str, hvacates, Describes]
    simp only [hmem₁]
  · rcases hprocessed.mem_partitions q hq with ⟨hq, hstr⟩ | hq | ⟨core, hcore, rfl⟩
    · rw [htop q hq hstr]
    · exact hsource_empty q hq
    · exact hsource_core core hcore
  · rw [hprocessed.emptyPartitions] at hq
    exact ⟨hsource_empty q hq, (hprocessed.mem_partitions_str _).mpr
      (.inr (.inl (List.mem_map_of_mem hq)))⟩
  · rw [hprocessed.mem_cores] at hcore
    exact ⟨hsource_core core hcore, (hprocessed.mem_partitions_str _).mpr
      (.inr (.inr ⟨core, hcore, rfl⟩))⟩

end Parse

end Chipscopy.Ltx
