import Chipscopy.Ltx.FileTables

/-! Merging probes files

    Merging files is laying layers, where a later file covers what is inside the partitions it
    describes, and where the layers below the last full file are left out. A path that is still
    described after the merge was described last by one source only, so the sources of all cores
    are found among the used ones. -/

namespace Chipscopy.Ltx

/-! ### The last full file -/

theorem find?_reverse_range' (f : ℕ → Bool) (n : ℕ) :
    (∀ j ≤ n, ((List.range' 1 n).reverse.find? f).getD 0 < j → f j = false) ∧
      (0 < ((List.range' 1 n).reverse.find? f).getD 0 →
        f (((List.range' 1 n).reverse.find? f).getD 0) = true) := by
  induction n with
  | zero => exact ⟨fun j hj hlt => by simp at hlt; omega, fun h => by simp at h⟩
  | succ n ih =>
    rw [List.range'_1_concat, List.reverse_concat, List.find?_cons]
    cases hf : f (1 + n) with
    | true => exact ⟨fun j hj hlt => by simp at hlt; omega, fun _ => by simpa using hf⟩
    | false =>
      refine ⟨fun j hj hlt => ?_, ih.2⟩
      rcases Nat.lt_succ_iff_lt_or_eq.mp (Nat.lt_succ_of_le hj) with hlt' | rfl
      · exact ih.1 j (Nat.le_of_lt_succ hlt') hlt
      · rwa [Nat.add_comm]

theorem lastTopLevel_spec (ltxs : List Ltx) :
    (∀ j > lastTopLevel ltxs, ∀ l, ltxs[j]? = some l → ¬ l.isTopLevel) ∧
      (0 < lastTopLevel ltxs → ∃ l, ltxs[lastTopLevel ltxs]? = some l ∧ l.isTopLevel) := by
  obtain ⟨hlast, hfull⟩ := find?_reverse_range'
    (fun idx => (ltxs[idx]?.map (·.isTopLevel)).getD false) (ltxs.length - 1)
  rw [← lastTopLevel] at hlast hfull
  refine ⟨fun j hj l hl => ?_, fun hpos => ?_⟩
  · have hlt := (List.getElem?_eq_some_iff.mp hl).1
    have hnot := hlast j (by omega) hj
    simpa [hl] using hnot
  · have htop := hfull hpos
    cases hget : ltxs[lastTopLevel ltxs]? with
    | none => simp [hget] at htop
    | some l => exact ⟨l, rfl, by simpa [hget] using htop⟩

/-! ### All files -/

section Merge

variable {isMemberName : String → String → Bool} {σ : Type}
  {load : σ → Except Py.Error (List LtxDataItem)} {sources : List σ} {sourceNames : List String}

/-- The files that were read, and what came of them. -/
structure FilesMerged (isMemberName : String → String → Bool)
    (load : σ → Except Py.Error (List LtxDataItem)) (sources : List σ) (sourceNames : List String)
    (ltxs : List Ltx) (idx : ℕ) (first : Ltx) (partials : List Ltx) (ltx : Ltx) : Prop where
  length_eq : sources.length = sourceNames.length
  read : List.Forall₂ (fun s l => (load s.1 >>= parseLtx isMemberName s.2) = .ok l)
    (sources.zip sourceNames) ltxs
  drop : ltxs.drop idx = first :: partials
  later : ∀ j > idx, ∀ l, ltxs[j]? = some l → ¬ l.isTopLevel
  full : 0 < idx → first.isTopLevel
  result : (partials = [] ∧ ltx = first) ∨ postProcess (merged first partials) = .ok ltx

theorem getElem?_drop_eq {ltxs partials : List Ltx} {idx : ℕ} {first : Ltx}
    (h : ltxs.drop idx = first :: partials) (i : ℕ) :
    (first :: partials)[i]? = ltxs[idx + i]? := by
  rw [← h, List.getElem?_drop]

theorem filesMerged_of_merge (hlen : sources.length = sourceNames.length)
    {ltxs partials : List Ltx} {first ltx : Ltx}
    (hread : List.Forall₂ (fun s l => (load s.1 >>= parseLtx isMemberName s.2) = .ok l)
      (sources.zip sourceNames) ltxs)
    (hdrop : ltxs.drop (lastTopLevel ltxs) = first :: partials)
    (hmerge : mergeLtxs first partials = .ok ltx) :
    FilesMerged isMemberName load sources sourceNames ltxs (lastTopLevel ltxs) first partials
      ltx := by
  obtain ⟨hlater, hfull⟩ := lastTopLevel_spec ltxs
  refine ⟨hlen, hread, hdrop, hlater, fun hpos => ?_, ?_⟩
  · obtain ⟨l, hl, htop⟩ := hfull hpos
    have hfirst := getElem?_drop_eq hdrop 0
    rw [Nat.add_zero, hl] at hfirst
    exact Option.some.inj hfirst ▸ htop
  · rw [mergeLtxs] at hmerge
    split at hmerge
    · next hnil => exact .inl ⟨by simpa using hnil, (Except.ok.inj hmerge).symm⟩
    · exact .inr hmerge

theorem mem_usedSources_iff {ltx : Ltx} {idx : ℕ} {s : σ × String} :
    s ∈ ltx.usedSources idx sources sourceNames ↔
      ∃ i ≥ idx, (sources.zip sourceNames)[i]? = some s ∧ s.2 ∈ ltx.getSourceNames := by
  have hzip : (sources.drop idx).zip (sourceNames.drop idx) = (sources.zip sourceNames).drop idx :=
    List.drop_zipWith.symm
  rw [usedSources, hzip, List.mem_filter, List.mem_iff_getElem?]
  simp only [List.getElem?_drop, decide_eq_true_eq]
  constructor
  · rintro ⟨⟨k, hk⟩, hname⟩
    exact ⟨idx + k, Nat.le_add_right _ _, hk, hname⟩
  · rintro ⟨i, hle, hi, hname⟩
    obtain ⟨k, rfl⟩ := Nat.exists_eq_add_of_le hle
    exact ⟨⟨k, hi⟩, hname⟩

/-- A merge returns the files used, unless it is one file only. -/
theorem filesMerged {ltx : Ltx} {usedSources : List σ} {usedNames : List String}
    (h : parseLtxFiles isMemberName load sources sourceNames =
      .ok (ltx, usedSources, usedNames)) :
    ∃ ltxs idx first partials,
      FilesMerged isMemberName load sources sourceNames ltxs idx first partials ltx ∧
      ((ltxs = [ltx] ∧ usedSources = sources ∧ usedNames = sourceNames) ∨
        ltx.partitions ≠ [] ∧
          usedSources.zip usedNames = ltx.usedSources idx sources sourceNames) := by
  rw [parseLtxFiles] at h
  split at h
  · cases h
  · next hlen =>
    obtain ⟨ltxs, hread, h⟩ := Py.bind_eq_ok h
    have hread := Py.forall₂_of_mapExcept_ok hread
    have hlen : sources.length = sourceNames.length := not_not.mp hlen
    split at h
    · next l hread' =>
      obtain ⟨rfl, rfl, rfl⟩ : l = ltx ∧ sources = usedSources ∧ sourceNames = usedNames := by
        simpa using Except.ok.inj h
      refine ⟨[l], 0, l, [], ⟨hlen, hread, rfl, fun j hj l' hl' => ?_,
        fun h => absurd h (lt_irrefl 0), .inl ⟨rfl, rfl⟩⟩, .inl ⟨rfl, rfl, rfl⟩⟩
      rw [List.getElem?_eq_none (Nat.succ_le_of_lt hj)] at hl'
      cases hl'
    · rw [combineLtxs] at h
      split at h
      · cases h
      · next first partials hdrop =>
        obtain ⟨ltx₁, hmerge, h⟩ := Py.bind_eq_ok h
        split at h
        · cases h
        · next hused =>
          obtain ⟨rfl, rfl, rfl⟩ := by simpa using Except.ok.inj h
          refine ⟨ltxs, lastTopLevel ltxs, first, partials,
            filesMerged_of_merge hlen hread hdrop hmerge, .inr ⟨fun hnil => hused ?_,
              (List.zip_of_prod rfl rfl).symm⟩⟩
          simp [usedSources, getSourceNames, hnil]

theorem FilesMerged.file {ltxs partials : List Ltx} {idx : ℕ} {first ltx : Ltx}
    (h : FilesMerged isMemberName load sources sourceNames ltxs idx first partials ltx) {i : ℕ}
    {l : Ltx} (hl : ltxs[i]? = some l) : ∃ s ltxData, (sources.zip sourceNames)[i]? = some s ∧
      load s.1 = .ok ltxData ∧ Parsed isMemberName s.2 ltxData l := by
  obtain ⟨s, hs, hread⟩ := Py.forall₂_getElem? h.read.flip hl
  obtain ⟨ltxData, hload, hparse⟩ := Py.bind_eq_ok hread
  exact ⟨s, ltxData, hs, hload, parsed hparse⟩

/-- The partitions of a file, its own and those it is laid over. -/
theorem Parsed.covers_iff {name : String} {ltxData : List LtxDataItem} {l : Ltx}
    (h : Parsed isMemberName name ltxData l) (p : LtxPath) : l.isInsideLtxPartitions p ↔
      ∃ s, Describes isMemberName name ltxData s ∧ (LtxPath.mk p.str "").isInsideOf ⟨s, ""⟩ := by
  rw [isInsideLtxPartitions_iff]
  simp only [h.partitions]

theorem Parsed.isTopLevel_iff {name : String} {ltxData : List LtxDataItem} {l : Ltx}
    (h : Parsed isMemberName name ltxData l) :
    l.isTopLevel ↔ Describes isMemberName name ltxData "" := by
  rw [← h.partitions, isTopLevel, List.any_eq_true]
  simp

/-- The cores of the merge are those that no later file covers and no later full file drops. -/
theorem FilesMerged.mem_cores {ltxs partials : List Ltx} {idx : ℕ} {first ltx : Ltx}
    (h : FilesMerged isMemberName load sources sourceNames ltxs idx first partials ltx)
    (core : LtxCore) : core ∈ ltx.allCores ↔ ∃ (i : ℕ) (l : Ltx), ltxs[i]? = some l ∧
      core ∈ l.allCores ∧ ∀ j > i, ∀ above, ltxs[j]? = some above →
        ¬ above.isTopLevel ∧ ¬ above.CoversCore core := by
  have hresult : core ∈ ltx.allCores ↔ core ∈ (merged first partials).allCores := by
    rcases h.result with ⟨rfl, rfl⟩ | hpost
    · exact Iff.rfl
    · exact (processed hpost).mem_cores core
  rw [hresult, mem_merged]
  simp only [getElem?_drop_eq h.drop]
  constructor
  · rintro ⟨i, l, hl, hcore, habove⟩
    refine ⟨idx + i, l, hl, hcore, fun j hj above hj' => ⟨h.later j (by omega) above hj', ?_⟩⟩
    obtain ⟨k, rfl⟩ := Nat.exists_eq_add_of_le (show idx ≤ j by omega)
    exact habove k (by omega) above hj'
  · rintro ⟨i, l, hl, hcore, habove⟩
    have hle : idx ≤ i := by
      by_contra hlt
      have hfirst := getElem?_drop_eq h.drop 0
      rw [Nat.add_zero] at hfirst
      exact (habove idx (by omega) first hfirst.symm).1 (h.full (by omega))
    obtain ⟨k, rfl⟩ := Nat.exists_eq_add_of_le hle
    exact ⟨k, l, hl, hcore, fun j hj above hj' => (habove (idx + j) (by omega) above hj').2⟩

/-! ### Tables of the merge -/

theorem keyed_merged {partials : List Ltx} : ∀ {ltx : Ltx}, Keyed ltx.cores →
    (∀ l ∈ partials, Keyed l.cores) → Keyed (merged ltx partials).cores := by
  induction partials with
  | nil => exact fun h _ => h
  | cons l partials ih =>
    intro ltx h hall
    obtain ⟨hl, hrest⟩ := List.forall_mem_cons.mp hall
    exact ih (h.replace hl) hrest

theorem partitions_merged {partials : List Ltx} : ∀ {ltx : Ltx},
    (merged ltx partials).partitions = ltx.partitions := by
  induction partials with
  | nil => exact rfl
  | cons l partials ih => exact ih

/-- A path that is still described was described last by one file. -/
theorem index_eq_of_str_eq {ltxs : List Ltx} {p q : LtxPath} (heq : q.str = p.str) {i k : ℕ}
    {l l' : Ltx} (hl : ltxs[i]? = some l) (hp : p.str ∈ l.partitions.map (·.str))
    (hip : ∀ j > i, ∀ above, ltxs[j]? = some above → ¬ above.isInsideLtxPartitions p)
    (hl' : ltxs[k]? = some l') (hq : q.str ∈ l'.partitions.map (·.str))
    (hkq : ∀ j > k, ∀ above, ltxs[j]? = some above → ¬ above.isInsideLtxPartitions q) :
    i = k := by
  have hself : ∀ s, (LtxPath.mk s "").isInsideOf ⟨s, ""⟩ := by
    intro s
    by_cases hs : s = ""
    · simp [LtxPath.isInsideOf, LtxPath.isTopLevel, hs]
    · exact (isInsideOf_iff hs).mpr (List.prefix_refl _)
  rcases Nat.lt_trichotomy i k with hlt | rfl | hgt
  · refine absurd (isInsideLtxPartitions_iff.mpr ⟨q.str, hq, ?_⟩) (hip k hlt l' hl')
    rw [heq]
    exact hself p.str
  · rfl
  · refine absurd (isInsideLtxPartitions_iff.mpr ⟨p.str, hp, ?_⟩) (hkq i hgt l hl)
    rw [heq]
    exact hself p.str

section Tables

variable {ltxs partials : List Ltx} {idx : ℕ} {first ltx : Ltx}
  (h : FilesMerged isMemberName load sources sourceNames ltxs idx first partials ltx)

include h

theorem FilesMerged.getElem?_first : ltxs[idx]? = some first := by
  have hfirst := getElem?_drop_eq h.drop 0
  rw [Nat.add_zero] at hfirst
  exact hfirst.symm

/-- The last step of every merge computes the tables. -/
theorem FilesMerged.processed : ∃ ltx₀, postProcess ltx₀ = .ok ltx := by
  rcases h.result with ⟨-, rfl⟩ | hpost
  · obtain ⟨s, ltxData, -, -, hparsed⟩ := h.file h.getElem?_first
    exact hparsed.processed
  · exact ⟨_, hpost⟩

theorem FilesMerged.keyed_files : ∀ l ∈ first :: partials, Keyed l.cores := by
  intro l hl
  obtain ⟨i, hi⟩ := List.mem_iff_getElem?.mp hl
  rw [getElem?_drop_eq h.drop] at hi
  obtain ⟨s, ltxData, -, -, hparsed⟩ := h.file hi
  exact hparsed.keyed

theorem FilesMerged.keyed : Keyed ltx.cores := by
  obtain ⟨hfirst, hrest⟩ := List.forall_mem_cons.mp h.keyed_files
  rcases h.result with ⟨-, rfl⟩ | hpost
  · exact hfirst
  · exact (Ltx.processed hpost).keyed (keyed_merged hfirst hrest)

/-- The file that described a path last. -/
theorem FilesMerged.partition_file {q : LtxPath} (hq : q ∈ ltx.partitions) :
    ∃ i l, idx ≤ i ∧ ltxs[i]? = some l ∧ q.str ∈ l.partitions.map (·.str) ∧
      (∀ s, (sources.zip sourceNames)[i]? = some s → q.source = s.2) ∧
      ∀ j > i, ∀ above, ltxs[j]? = some above → ¬ above.isInsideLtxPartitions q := by
  obtain ⟨s, ltxData, hs, -, hparsed⟩ := h.file h.getElem?_first
  have hname : ∀ {i : ℕ} {s : σ × String}, (sources.zip sourceNames)[i]? = some s →
      q.source = s.2 → ∀ s', (sources.zip sourceNames)[i]? = some s' → q.source = s'.2 :=
    fun hs hsource s' hs' => Option.some.inj (hs.symm.trans hs') ▸ hsource
  rcases h.result with ⟨rfl, rfl⟩ | hpost
  · refine ⟨idx, ltx, le_rfl, h.getElem?_first, List.mem_map_of_mem hq,
      hname hs (hparsed.source q hq), fun j hj above hj' => ?_⟩
    have hlen := congrArg List.length h.drop
    rw [List.length_drop, List.length_singleton] at hlen
    rw [List.getElem?_eq_none (by omega)] at hj'
    cases hj'
  · rcases (Ltx.processed hpost).mem_partitions q hq with ⟨hq, htop⟩ | hq | ⟨core, hcore, rfl⟩
    · rw [partitions_merged] at hq
      refine ⟨idx, first, le_rfl, h.getElem?_first, List.mem_map_of_mem hq,
        hname hs (hparsed.source q hq), fun j hj above hj' hin => h.later j hj above hj' ?_⟩
      -- only the top level has the top level inside
      obtain ⟨q', hq', hin⟩ := List.any_eq_true.mp hin
      rw [LtxPath.isInsideOf, if_pos (by simpa [LtxPath.isTopLevel] using htop)] at hin
      exact List.any_eq_true.mpr ⟨q', hq', hin⟩
    · obtain ⟨k, l, hl, hq, habove⟩ := emptyPartitions_merged hq
      simp only [getElem?_drop_eq h.drop] at hl habove
      obtain ⟨s', ltxData', hs', -, hparsed'⟩ := h.file hl
      obtain ⟨hsource, hstr⟩ := hparsed'.source_empty q hq
      refine ⟨idx + k, l, Nat.le_add_right _ _, hl, hstr, hname hs' hsource,
        fun j hj above hj' => ?_⟩
      obtain ⟨n, rfl⟩ := Nat.exists_eq_add_of_le (show idx ≤ j by omega)
      exact habove n (by omega) above hj'
    · obtain ⟨k, l, hl, hcore, habove⟩ := (mem_merged first partials core).mp hcore
      simp only [getElem?_drop_eq h.drop] at hl habove
      obtain ⟨s', ltxData', hs', -, hparsed'⟩ := h.file hl
      obtain ⟨hsource, hstr⟩ := hparsed'.source_core core hcore
      refine ⟨idx + k, l, Nat.le_add_right _ _, hl, hstr, hname hs' hsource,
        fun j hj above hj' => ?_⟩
      obtain ⟨n, rfl⟩ := Nat.exists_eq_add_of_le (show idx ≤ j by omega)
      exact habove n (by omega) above hj'

/-- The source of every core that is left has its name among the partitions. -/
theorem FilesMerged.source_mem {core : LtxCore} {i : ℕ} {l : Ltx} (hl : ltxs[i]? = some l)
    (hcore : core ∈ l.allCores) (habove : ∀ j > i, ∀ above, ltxs[j]? = some above →
      ¬ above.isTopLevel ∧ ¬ above.CoversCore core) : idx ≤ i ∧
      core.partition.source ∈ ltx.getSourceNames := by
  have hle : idx ≤ i := by
    by_contra hlt
    exact (habove idx (by omega) first h.getElem?_first).1 (h.full (by omega))
  obtain ⟨s, ltxData, hs, -, hparsed⟩ := h.file hl
  obtain ⟨hsource, hstr⟩ := hparsed.source_core core hcore
  obtain ⟨ltx₀, hpost⟩ := h.processed
  have hpost := Ltx.processed hpost
  have hmem : core ∈ ltx.allCores := (h.mem_cores core).mpr ⟨i, l, hl, hcore, habove⟩
  obtain ⟨q, hq, heq⟩ := List.mem_map.mp ((hpost.mem_partitions_str _).mpr
    (.inr (.inr ⟨core, (hpost.mem_cores core).mp hmem, rfl⟩)))
  obtain ⟨k, l', -, hl', hstr', hname, hlast⟩ := h.partition_file hq
  obtain rfl := index_eq_of_str_eq heq hl hstr (fun j hj above hj' => (habove j hj above hj').2)
    hl' hstr' hlast
  exact ⟨hle, List.mem_map.mpr ⟨q, hq, (hname s hs).trans hsource.symm⟩⟩

/-- Some path is described after the merge if and only if a file describes one. -/
theorem FilesMerged.partitions_ne_nil_iff :
    ltx.partitions ≠ [] ↔ ∃ l ∈ ltxs, l.partitions ≠ [] := by
  constructor
  · intro hne
    obtain ⟨q, hq⟩ := List.exists_mem_of_ne_nil _ hne
    obtain ⟨i, l, -, hl, hstr, -⟩ := h.partition_file hq
    exact ⟨l, List.mem_of_getElem? hl, fun hnil => by simp [hnil] at hstr⟩
  · rintro ⟨l, hl, hne⟩
    obtain ⟨ltx₀, hprocessed⟩ := h.processed
    rw [(Ltx.processed hprocessed).partitions_ne_nil_iff]
    by_cases htop : first.isTopLevel
    · refine .inl ?_
      rcases h.result with ⟨-, rfl⟩ | hpost
      · exact htop
      · obtain ⟨q, hq, hstr⟩ := List.any_eq_true.mp htop
        have hq : q.str ∈ (merged first partials).partitions.map (·.str) := by
          rw [partitions_merged]
          exact List.mem_map_of_mem hq
        obtain ⟨q', hq', heq⟩ := List.mem_map.mp
          (((Ltx.processed hpost).mem_partitions_str q.str).mpr (.inl ⟨hq, of_decide_eq_true hstr⟩))
        exact List.any_eq_true.mpr ⟨q', hq', decide_eq_true (heq.trans (of_decide_eq_true hstr))⟩
    · -- without a full file, every file counts
      obtain rfl : idx = 0 := Nat.eq_zero_of_not_pos fun hpos => htop (h.full hpos)
      have hfiles : ∀ l ∈ first :: partials, l.Occupied ∨ l.partitions = [] := by
        intro l hl
        obtain ⟨i, hi⟩ := List.mem_iff_getElem?.mp hl
        have hnot : ¬ l.isTopLevel := by
          cases i with
          | zero => exact Option.some.inj hi ▸ htop
          | succ i =>
            rw [getElem?_drop_eq h.drop, Nat.zero_add] at hi
            exact h.later (i + 1) (Nat.succ_pos i) l hi
        rw [getElem?_drop_eq h.drop] at hi
        obtain ⟨s, ltxData, -, -, hparsed⟩ := h.file hi
        obtain ⟨ltx₀, hpost⟩ := hparsed.processed
        by_cases hnil : l.partitions = []
        · exact .inr hnil
        · exact .inl (((Ltx.processed hpost).partitions_ne_nil_iff.mp hnil).resolve_left hnot)
      have hdrop : ltxs = first :: partials := h.drop
      have hocc := (hfiles l (hdrop ▸ hl)).resolve_right hne
      refine .inr ?_
      rcases h.result with ⟨rfl, rfl⟩ | hpost
      · rw [hdrop, List.mem_singleton] at hl
        exact hl ▸ hocc
      · have hpost := Ltx.processed hpost
        rcases occupied_merged ⟨l, hdrop ▸ hl, hocc⟩ (List.forall_mem_cons.mp hfiles).2
          with ⟨core, hcore⟩ | hempty
        · exact .inl ⟨core, (hpost.mem_cores core).mpr hcore⟩
        · exact .inr (hpost.emptyPartitions ▸ hempty)

end Tables

/-! ### Files that can be merged -/

theorem parseLtxFiles_singleton (s : σ) (name : String) :
    parseLtxFiles isMemberName load [s] [name] =
      (load s >>= parseLtx isMemberName name).map fun ltx => (ltx, [s], [name]) := by
  rw [parseLtxFiles, if_neg (by simp)]
  simp only [List.zip_cons_cons, List.zip_nil_right, Py.mapExcept]
  cases load s >>= parseLtx isMemberName name <;> rfl

/-- The addresses of the debug hubs have all been read before. -/
theorem exists_mergeLtxs {first : Ltx} {partials : List Ltx}
    (h : ∀ l ∈ first :: partials, ∃ ltx₀, postProcess ltx₀ = .ok l) :
    ∃ ltx, mergeLtxs first partials = .ok ltx := by
  have hhubs : ∀ {partials : List Ltx} {first : Ltx} {t : CoreType} {core : LtxCore},
      core ∈ coresUnder (merged first partials).cores t →
        ∃ l ∈ first :: partials, core ∈ coresUnder l.cores t := by
    intro partials
    induction partials with
    | nil =>
      intro first t core hcore
      exact ⟨first, List.mem_cons_self, hcore⟩
    | cons l partials ih =>
      intro first t core hcore
      obtain ⟨l', hl', hcore⟩ := ih hcore
      rcases List.mem_cons.mp hl' with rfl | hl'
      · rcases (mem_coresUnder_replace first l t core).mp hcore with ⟨hcore, -⟩ | hcore
        · exact ⟨first, List.mem_cons_self, hcore⟩
        · exact ⟨l, List.mem_cons_of_mem _ List.mem_cons_self, hcore⟩
      · exact ⟨l', List.mem_cons_of_mem _ (List.mem_cons_of_mem _ hl'), hcore⟩
  rw [mergeLtxs]
  split
  · exact ⟨first, rfl⟩
  · refine exists_postProcess_iff.mpr fun core hcore => ?_
    obtain ⟨l, hl, hcore⟩ := hhubs hcore
    obtain ⟨ltx₀, hpost⟩ := h l hl
    obtain ⟨i, hi⟩ := List.mem_iff_getElem?.mp hcore
    obtain ⟨address, -, haddress⟩ := Py.forall₂_getElem? (processed hpost).addresses hi
    exact ⟨address, haddress⟩

theorem exists_parseLtxFiles (hlen : sources.length = sourceNames.length) {ltxs : List Ltx}
    (hmap : Py.mapExcept (fun s => load s.1 >>= parseLtx isMemberName s.2)
      (sources.zip sourceNames) = .ok ltxs)
    (hone : ltxs.length = 1 ∨ ∃ l ∈ ltxs, l.partitions ≠ []) :
    ∃ r, parseLtxFiles isMemberName load sources sourceNames = .ok r := by
  have hread := Py.forall₂_of_mapExcept_ok hmap
  rw [parseLtxFiles, if_neg (by simpa using hlen), hmap, Py.ok_bind]
  split
  · exact ⟨_, rfl⟩
  · next hnot =>
    obtain ⟨l, hl, hne⟩ := hone.resolve_left fun h1 => by
      obtain ⟨l, rfl⟩ := List.length_eq_one_iff.mp h1
      exact hnot l rfl
    have hlast : lastTopLevel ltxs < ltxs.length := by
      rcases Nat.eq_zero_or_pos (lastTopLevel ltxs) with hzero | hpos
      · exact hzero ▸ List.length_pos_of_mem hl
      · obtain ⟨l, hl, -⟩ := (lastTopLevel_spec ltxs).2 hpos
        exact (List.getElem?_eq_some_iff.mp hl).1
    obtain ⟨first, partials, hdrop⟩ : ∃ first partials,
        ltxs.drop (lastTopLevel ltxs) = first :: partials :=
      ⟨_, _, List.drop_eq_getElem_cons hlast⟩
    have hfiles : ∀ l ∈ first :: partials, ∃ ltx₀, postProcess ltx₀ = .ok l := by
      intro l hl
      obtain ⟨i, hi⟩ := List.mem_iff_getElem?.mp (List.mem_of_mem_drop (hdrop ▸ hl))
      obtain ⟨s, -, hparse⟩ := Py.forall₂_getElem? hread.flip hi
      obtain ⟨ltxData, -, hparse⟩ := Py.bind_eq_ok hparse
      exact (parsed hparse).processed
    obtain ⟨ltx, hmerge⟩ := exists_mergeLtxs hfiles
    have hmerged := filesMerged_of_merge hlen hread hdrop hmerge
    obtain ⟨q, hq⟩ := List.exists_mem_of_ne_nil _ (hmerged.partitions_ne_nil_iff.mpr ⟨l, hl, hne⟩)
    obtain ⟨i, l, hle, hl, -, hsource, -⟩ := hmerged.partition_file hq
    obtain ⟨s, ltxData, hs, -, -⟩ := hmerged.file hl
    have hused : s ∈ ltx.usedSources (lastTopLevel ltxs) sources sourceNames := by
      rw [mem_usedSources_iff]
      exact ⟨i, hle, hs, List.mem_map.mpr ⟨q, hq, hsource s hs⟩⟩
    rw [combineLtxs, hdrop]
    dsimp only
    rw [hmerge, Except.bind]
    split
    · next hnil => simp [hnil] at hused
    · exact ⟨_, rfl⟩

/-- Files can be read together if and only if each can be read alone and, unless there is only
    one, some file describes a partition. -/
theorem exists_parseLtxFiles_iff :
    (∃ r, parseLtxFiles isMemberName load sources sourceNames = .ok r) ↔
      sources.length = sourceNames.length ∧
      (∀ s ∈ sources.zip sourceNames, ∃ r, parseLtxFiles isMemberName load [s.1] [s.2] = .ok r) ∧
      (sources.length = 1 ∨ ∃ s ∈ sources.zip sourceNames, ∃ r,
        parseLtxFiles isMemberName load [s.1] [s.2] = .ok r ∧ r.1.partitions ≠ []) := by
  have halone : ∀ (s : σ × String) r, parseLtxFiles isMemberName load [s.1] [s.2] = .ok r ↔
      ∃ l, (load s.1 >>= parseLtx isMemberName s.2) = .ok l ∧ (l, [s.1], [s.2]) = r := by
    intro s r
    rw [parseLtxFiles_singleton]
    cases load s.1 >>= parseLtx isMemberName s.2 <;> simp [Except.map]
  simp only [halone]
  constructor
  · rintro ⟨⟨ltx, usedSources, usedNames⟩, h⟩
    obtain ⟨ltxs, idx, first, partials, hmerged, hused⟩ := filesMerged h
    refine ⟨hmerged.length_eq, fun s hs => ?_, ?_⟩
    · obtain ⟨i, hi⟩ := List.mem_iff_getElem?.mp hs
      obtain ⟨l, -, hl⟩ := Py.forall₂_getElem? hmerged.read hi
      exact ⟨_, l, hl, rfl⟩
    · rcases hused with ⟨rfl, -⟩ | ⟨hne, -⟩
      · have hlen := hmerged.read.length_eq
        rw [List.length_zip, ← hmerged.length_eq, Nat.min_self, List.length_singleton] at hlen
        exact .inl hlen
      · obtain ⟨l, hl, hne⟩ := hmerged.partitions_ne_nil_iff.mp hne
        obtain ⟨i, hi⟩ := List.mem_iff_getElem?.mp hl
        obtain ⟨s, hs, hread⟩ := Py.forall₂_getElem? hmerged.read.flip hi
        exact .inr ⟨s, List.mem_of_getElem? hs, _, ⟨l, hread, rfl⟩, hne⟩
  · rintro ⟨hlen, hall, hone⟩
    obtain ⟨ltxs, hmap⟩ := Py.exists_mapExcept_iff.mpr fun s hs =>
      (hall s hs).elim fun r hr => hr.imp fun l hl => hl.1
    have hread := Py.forall₂_of_mapExcept_ok hmap
    refine exists_parseLtxFiles hlen hmap ?_
    rcases hone with hone | ⟨s, hs, r, ⟨l, hl, rfl⟩, hne⟩
    · have hlen' := hread.length_eq
      rw [List.length_zip, ← hlen, Nat.min_self, hone] at hlen'
      exact .inl hlen'.symm
    · obtain ⟨i, hi⟩ := List.mem_iff_getElem?.mp hs
      obtain ⟨l', hl', hread'⟩ := Py.forall₂_getElem? hread hi
      obtain rfl := Except.ok.inj (hl.symm.trans hread')
      exact .inr ⟨l, List.mem_of_getElem? hl', hne⟩

/-! ### What a merge returns -/

/-- A debug core without pins. -/
def bareCore (reconfigTop : Option String) (ipName name : String) (offset : Option String)
    (master : Option String) : DebugCore :=
  ⟨reconfigTop, none, some ipName, offset.map some, some name, none, master⟩

/-- A debug hub, and an ILA in a partition. -/
def fullData : List LtxDataItem :=
  [⟨none, none, some [bareCore none "axi_dbg_hub" "hub" (some "0x2000") none,
    bareCore (some "a/rp") "axis_ila" "a/rp/ila" none (some "hub")]⟩]

/-- The partition with a VIO. -/
def partialData : List LtxDataItem :=
  [⟨some "a/rp", none, some [bareCore (some "a/rp") "axis_vio" "a/rp/vio" none (some "hub")]⟩]

theorem reads_fullData {core : LtxCore} (h : Reads (fun _ _ => true) "full" fullData core) :
    core.coreType = .axiDebugHub ∨ core.partition = ⟨"a/rp", "full"⟩ := by
  obtain ⟨item, hitem, inCore, hin, hread⟩ := h
  obtain rfl := List.mem_singleton.mp hitem
  rcases List.mem_cons.mp hin with rfl | hin
  · exact .inl (Option.some.inj (Except.ok.inj hread) ▸ rfl)
  · obtain rfl := List.mem_singleton.mp hin
    exact .inr (Option.some.inj (Except.ok.inj hread) ▸ rfl)

theorem exists_parseLtxFiles_twoFiles : ∃ r, parseLtxFiles (fun _ _ => true) .ok
    [fullData, partialData] ["full", "rp"] = .ok r := by
  obtain ⟨l, hl⟩ : ∃ l, parseLtx (fun _ _ => true) "full" fullData = .ok l := by
    have hitems : fullData.foldlM (readItem fun _ _ => true) { sourceName := "full" } = .ok _ := rfl
    rw [parseLtx, hitems, Py.ok_bind]
    refine exists_postProcess_iff.mpr fun core hcore => ?_
    obtain rfl := List.mem_singleton.mp hcore
    exact ⟨0x2000, rfl⟩
  obtain ⟨l', hl'⟩ : ∃ l', parseLtx (fun _ _ => true) "rp" partialData = .ok l' := by
    have hitems : partialData.foldlM (readItem fun _ _ => true) { sourceName := "rp" } = .ok _ :=
      rfl
    rw [parseLtx, hitems, Py.ok_bind]
    refine exists_postProcess_iff.mpr fun core hcore => ?_
    cases hcore
  have hnonempty : l.partitions ≠ [] := by
    have htop : "" ∈ l.partitions.map (·.str) :=
      ((parsed hl).partitions "").mpr (.inl ⟨rfl, by simp [fullData]⟩)
    rintro hnil
    simp [hnil] at htop
  have hmap : Py.mapExcept (fun s => Except.ok s.1 >>= parseLtx (fun _ _ => true) s.2)
      ([fullData, partialData].zip ["full", "rp"]) = .ok [l, l'] := by
    simp [Py.mapExcept, Py.ok_bind, hl, hl']
  exact exists_parseLtxFiles rfl hmap (.inr ⟨l, List.mem_cons_self, hnonempty⟩)

/-- A core of a source is in the merge if and only if no later source is a full file and none
    describes a partition that the core is inside of. -/
theorem mem_parseLtxFiles {ltx : Ltx} {usedSources : List σ} {usedNames : List String}
    (h : parseLtxFiles isMemberName load sources sourceNames =
      .ok (ltx, usedSources, usedNames)) (core : LtxCore) :
    core ∈ ltx.allCores ↔ ∃ (i : ℕ) (s : σ × String) (ltxData : List LtxDataItem),
      (sources.zip sourceNames)[i]? = some s ∧ load s.1 = .ok ltxData ∧
      Reads isMemberName s.2 ltxData core ∧ ∀ j > i, ∀ s' ltxData',
        (sources.zip sourceNames)[j]? = some s' → load s'.1 = .ok ltxData' →
        ¬ Describes isMemberName s'.2 ltxData' "" ∧
        ∀ path, Describes isMemberName s'.2 ltxData' path →
          ¬ (LtxPath.mk core.partition.str "").isInsideOf ⟨path, ""⟩ := by
  obtain ⟨ltxs, idx, first, partials, hmerged, -⟩ := filesMerged h
  rw [hmerged.mem_cores]
  constructor
  · rintro ⟨i, l, hl, hcore, habove⟩
    obtain ⟨s, ltxData, hs, hload, hparsed⟩ := hmerged.file hl
    refine ⟨i, s, ltxData, hs, hload, (hparsed.mem_cores core).mp hcore,
      fun j hj s' ltxData' hs' hload' => ?_⟩
    obtain ⟨above, hj', hread⟩ := Py.forall₂_getElem? hmerged.read hs'
    rw [hload', Py.ok_bind] at hread
    have hparsed' := parsed hread
    obtain ⟨htop, hcovers⟩ := habove j hj above hj'
    refine ⟨fun hfull => htop (hparsed'.isTopLevel_iff.mpr hfull), fun path hpath hin => ?_⟩
    exact hcovers ((hparsed'.covers_iff core.partition).mpr ⟨path, hpath, hin⟩)
  · rintro ⟨i, s, ltxData, hs, hload, hreads, habove⟩
    obtain ⟨l, hl, hread⟩ := Py.forall₂_getElem? hmerged.read hs
    rw [hload, Py.ok_bind] at hread
    have hparsed := parsed hread
    refine ⟨i, l, hl, (hparsed.mem_cores core).mpr hreads, fun j hj above hj' => ?_⟩
    obtain ⟨s', ltxData', hs', hload', hparsed'⟩ := hmerged.file hj'
    obtain ⟨hfull, hpaths⟩ := habove j hj s' ltxData' hs' hload'
    refine ⟨fun htop => hfull (hparsed'.isTopLevel_iff.mp htop), fun hcovers => ?_⟩
    obtain ⟨path, hpath, hin⟩ := (hparsed'.covers_iff core.partition).mp hcovers
    exact hpaths path hpath hin

theorem mem_parseLtxFiles_twoFiles : ∃ ltx usedSources usedNames,
    parseLtxFiles (fun _ _ => true) .ok [fullData, partialData] ["full", "rp"] =
      .ok (ltx, usedSources, usedNames) ∧
    (∃ core ∈ ltx.allCores, core.coreType = .axisVio) ∧
    ∀ core ∈ ltx.allCores, core.coreType ≠ .axisIla := by
  obtain ⟨⟨ltx, usedSources, usedNames⟩, h⟩ := exists_parseLtxFiles_twoFiles
  have hvio : Reads (fun _ _ => true) "rp" partialData _ :=
    ⟨_, List.mem_singleton_self _, _, List.mem_singleton_self _, rfl⟩
  refine ⟨ltx, usedSources, usedNames, h, ⟨_, (mem_parseLtxFiles h _).mpr
    ⟨1, _, partialData, rfl, rfl, hvio, fun j hj s' ltxData' hs' => ?_⟩, rfl⟩, fun core hcore => ?_⟩
  · rw [List.getElem?_eq_none (Nat.succ_le_of_lt hj)] at hs'
    cases hs'
  · obtain ⟨i, s, ltxData, hs, hload, hreads, habove⟩ := (mem_parseLtxFiles h core).mp hcore
    match i with
    | 0 =>
      obtain rfl := Option.some.inj hs
      obtain rfl := Except.ok.inj hload
      rcases reads_fullData hreads with hhub | hila
      · simp [hhub]
      · have hnot := (habove 1 Nat.one_pos _ partialData rfl rfl).2 "a/rp"
          (.inr (.inr ⟨_, hvio, rfl⟩))
        rw [hila] at hnot
        exact absurd (by decide) hnot
    | 1 =>
      obtain rfl := Option.some.inj hs
      obtain rfl := Except.ok.inj hload
      obtain ⟨item, hitem, inCore, hin, hread⟩ := hreads
      obtain rfl := List.mem_singleton.mp hitem
      obtain rfl := List.mem_singleton.mp hin
      obtain rfl := Option.some.inj (Except.ok.inj hread)
      simp
    | i + 2 => simp at hs

/-- The tables of the merge are those of its cores: one address for each debug hub and one reference
    for each stream, and every core comes from a source that is returned. -/
theorem parseLtxFiles_tables {ltx : Ltx} {usedSources : List σ} {usedNames : List String}
    (h : parseLtxFiles isMemberName load sources sourceNames =
      .ok (ltx, usedSources, usedNames)) :
    List.Forall₂ (fun core address =>
        IntLiteral.int 16 core.debugHubAddress.toList = .ok address)
      (ltx.allCores.filter (·.coreType = .axiDebugHub)) ltx.debugHubAddresses ∧
    (∀ up, ((ltx.downstreamRefs.get? up).getD []).Perm
      (ltx.allCores.flatMap (LtxCore.streamRefs up))) ∧
    ∀ core ∈ ltx.allCores, ∃ s ltxData, (s, core.partition.source) ∈ usedSources.zip usedNames ∧
      load s = .ok ltxData ∧ Reads isMemberName core.partition.source ltxData core := by
  obtain ⟨ltxs, idx, first, partials, hmerged, hused⟩ := filesMerged h
  obtain ⟨ltx₀, hpost⟩ := hmerged.processed
  have hpost := processed hpost
  refine ⟨?_, hpost.refs, fun core hcore => ?_⟩
  · rw [hmerged.keyed.filter_allCores]
    exact hpost.addresses
  · obtain ⟨i, l, hl, hcore, habove⟩ := (hmerged.mem_cores core).mp hcore
    obtain ⟨⟨s, name⟩, ltxData, hs, hload, hparsed⟩ := hmerged.file hl
    obtain rfl := (hparsed.source_core core hcore).1
    refine ⟨s, ltxData, ?_, hload, (hparsed.mem_cores core).mp hcore⟩
    obtain ⟨hle, hname⟩ := hmerged.source_mem hl hcore habove
    rcases hused with ⟨-, rfl, rfl⟩ | ⟨-, hused⟩
    · exact List.mem_of_getElem? hs
    · rw [hused, mem_usedSources_iff]
      exact ⟨i, hle, hs, hname⟩

theorem parseLtxFiles_tables_twoFiles : ∃ ltx usedSources usedNames,
    parseLtxFiles (fun _ _ => true) .ok [fullData, partialData] ["full", "rp"] =
      .ok (ltx, usedSources, usedNames) ∧
    ltx.debugHubAddresses.length = (ltx.allCores.filter (·.coreType = .axiDebugHub)).length ∧
    ((ltx.downstreamRefs.get? "hub").getD []).Perm
      (ltx.allCores.flatMap (LtxCore.streamRefs "hub")) ∧
    ∀ core ∈ ltx.allCores, core.partition.source ∈ usedNames := by
  obtain ⟨⟨ltx, usedSources, usedNames⟩, h⟩ := exists_parseLtxFiles_twoFiles
  obtain ⟨haddresses, hrefs, hsources⟩ := parseLtxFiles_tables h
  refine ⟨ltx, usedSources, usedNames, h, haddresses.length_eq.symm, hrefs "hub",
    fun core hcore => ?_⟩
  obtain ⟨s, -, hmem, -⟩ := hsources core hcore
  exact (List.of_mem_zip hmem).2

end Merge

end Chipscopy.Ltx
