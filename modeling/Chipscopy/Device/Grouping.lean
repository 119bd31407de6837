import Chipscopy.Device.Scanner
import Chipscopy.Lib.Method

/-! Groups of records

    Each listed record has at most one home: the text of its DNA, the first JTAG record without DNA
    that its context matches, or the first debugcore record that is left. A group holds the records
    whose home it is. -/

namespace Chipscopy.Device

/-! ### Dictionaries -/

theorem Groups.mem_get_append (groups : Groups) (key k : String) (record r : ViewRecord) :
    r ∈ (groups.append key record).get k ↔ r ∈ groups.get k ∨ k = key ∧ r = record := by
  by_cases h : k = key
  · subst h
    simp [Groups.append, Groups.get, Py.lookup_store_self]
  · simp [Groups.append, Groups.get, Py.lookup_store_ne h, h]

section

variable {α : Type} {ctx : α → String} {dna : α → Option ℕ} {wrap : α → ViewRecord}

theorem mem_populate (records : List α) (dicts : Groups × List (String × α)) (k : String)
    (r : ViewRecord) :
    r ∈ (populateDnaOrContext ctx dna wrap records dicts).1.get k ↔ r ∈ dicts.1.get k ∨
      ∃ record ∈ records, r = wrap record ∧
        (knownDna (dna record)).map toString = some k := by
  induction records generalizing dicts with
  | nil => simp [populateDnaOrContext]
  | cons record records ih =>
    have hstep := ih (populateOne ctx dna wrap dicts record)
    rw [populateDnaOrContext] at hstep ⊢
    rw [List.foldl_cons, hstep, List.exists_mem_cons_iff]
    rcases hdna : knownDna (dna record) with - | n
    · simp [populateOne, hdna]
    · simp only [populateOne, hdna, Groups.mem_get_append, Option.map_some, Option.some.injEq,
        or_assoc]
      rw [and_comm, eq_comm (a := k)]

/-- The entries of records without a known DNA. -/
def unknown (ctx : α → String) (dna : α → Option ℕ) (records : List α) : List (String × α) :=
  (records.filter fun record => knownDna (dna record) = none).map fun record => (ctx record, record)

theorem populate_entries (records : List α) (dicts : Groups × List (String × α))
    (h : (dicts.2.map (·.1) ++ records.map ctx).Nodup) :
    (populateDnaOrContext ctx dna wrap records dicts).2 =
      dicts.2 ++ unknown ctx dna records := by
  induction records generalizing dicts with
  | nil => simp [populateDnaOrContext, unknown]
  | cons record records ih =>
    have hfresh : ctx record ∉ dicts.2.map (·.1) := fun hmem =>
      List.disjoint_of_nodup_append h hmem (by simp)
    rcases hdna : knownDna (dna record) with - | n
    · have hstep := ih (populateOne ctx dna wrap dicts record) (by
        simp only [populateOne, hdna, Py.store_of_notMem record hfresh, List.map_append]
        simpa [List.append_assoc] using h)
      rw [populateDnaOrContext] at hstep ⊢
      rw [List.foldl_cons, hstep]
      simp [populateOne, hdna, Py.store_of_notMem record hfresh, unknown]
    · have hstep := ih (populateOne ctx dna wrap dicts record) (by
        simp only [populateOne, hdna]
        exact h.sublist ((List.Sublist.refl _).append (by simp)))
      rw [populateDnaOrContext] at hstep ⊢
      rw [List.foldl_cons, hstep]
      simp [populateOne, hdna, unknown]

end

/-! ### Moving records -/

theorem moveMatching_spec (view : NodeView) (isMatch : String → Bool) (key : String)
    (groups : Groups) (entries : List (String × NodeRecord)) :
    (∀ k r, r ∈ (moveMatching view isMatch key groups entries).1.get k ↔ r ∈ groups.get k ∨
      k = key ∧ ∃ e ∈ entries, isMatch e.1 ∧ r = .node view e.2) ∧
    (moveMatching view isMatch key groups entries).2 = entries.filter (!isMatch ·.1) := by
  induction entries generalizing groups with
  | nil => simp [moveMatching]
  | cons e entries ih =>
    by_cases h : isMatch e.1
    · obtain ⟨hmem, hrest⟩ := ih (groups.append key (.node view e.2))
      refine ⟨fun k r => ?_, ?_⟩
      · rw [moveMatching, if_pos h, hmem, Groups.mem_get_append, List.exists_mem_cons_iff]
        simp only [h, true_and]
        tauto
      · rw [moveMatching, if_pos h, hrest, List.filter_cons_of_neg (by simp [h])]
    · obtain ⟨hmem, hrest⟩ := ih groups
      refine ⟨fun k r => ?_, ?_⟩
      · rw [moveMatching, if_neg h, hmem, List.exists_mem_cons_iff]
        simp [h]
      · rw [moveMatching, if_neg h]
        simp [hrest, h]

theorem moveViews_spec (isMatch : String → Bool) (key : String) {views : List NodeView}
    (hviews : views.Nodup) (s : Scanned) :
    (∀ k r, r ∈ (views.foldl (fun s view => s.moveMatching view isMatch key) s).groups.get k ↔
      r ∈ s.groups.get k ∨ k = key ∧ ∃ view ∈ views, ∃ e ∈ s.nodes view,
        isMatch e.1 ∧ r = .node view e.2) ∧
    ∀ view, (views.foldl (fun s view => s.moveMatching view isMatch key) s).nodes view =
      if view ∈ views then (s.nodes view).filter (!isMatch ·.1) else s.nodes view := by
  induction views generalizing s with
  | nil => simp
  | cons first views ih =>
    obtain ⟨hfirst, hviews⟩ := List.nodup_cons.mp hviews
    obtain ⟨hmem, hnodes⟩ := ih hviews (s.moveMatching first isMatch key)
    obtain ⟨hmoved, hleft⟩ := moveMatching_spec first isMatch key s.groups (s.nodes first)
    have hother : ∀ view ∈ views,
        (s.moveMatching first isMatch key).nodes view = s.nodes view := fun view hview => by
      have hne : view ≠ first := fun h => hfirst (h ▸ hview)
      simp [Scanned.moveMatching, hne]
    refine ⟨fun k r => ?_, fun view => ?_⟩
    · rw [List.foldl_cons, hmem, List.exists_mem_cons_iff]
      have hrest : (∃ view ∈ views, ∃ e ∈ (s.moveMatching first isMatch key).nodes view,
          isMatch e.1 ∧ r = .node view e.2) ↔
          ∃ view ∈ views, ∃ e ∈ s.nodes view, isMatch e.1 ∧ r = .node view e.2 :=
        exists_congr fun view => and_congr_right fun hview => by rw [hother view hview]
      rw [hrest, Scanned.moveMatching, hmoved, or_assoc, ← and_or_left]
    · rw [List.foldl_cons, hnodes]
      by_cases hview : view = first
      · subst hview
        simp [hfirst, Scanned.moveMatching, hleft]
      · simp [hview, Scanned.moveMatching]

section

variable {β : Type} (views : List NodeView) (isMatch : String × β → String → Bool)
  (wrap : β → ViewRecord)

/-- One round of the loops over JTAG and debugcore records. -/
def takeRound (s : Scanned) (e : String × β) : Scanned :=
  views.foldl (fun s view => s.moveMatching view (isMatch e) e.1)
    { s with groups := s.groups.append e.1 (wrap e.2) }

/-- The first entry that a context matches. -/
def owner (entries : List (String × β)) (ctx : String) : Option String :=
  (entries.find? (isMatch · ctx)).map (·.1)

theorem owner_cons (e : String × β) (entries : List (String × β)) (ctx : String) :
    owner isMatch (e :: entries) ctx =
      if isMatch e ctx then some e.1 else owner isMatch entries ctx := by
  rw [owner, List.find?_cons]
  split <;> simp_all [owner]

variable {views}

theorem takeRounds_spec (hviews : views.Nodup) (entries : List (String × β)) (s : Scanned) :
    (∀ k r, r ∈ (entries.foldl (takeRound views isMatch wrap) s).groups.get k ↔
      r ∈ s.groups.get k ∨ (∃ e ∈ entries, k = e.1 ∧ r = wrap e.2) ∨
        ∃ view ∈ views, ∃ e ∈ s.nodes view,
          owner isMatch entries e.1 = some k ∧ r = .node view e.2) ∧
    ∀ view, (entries.foldl (takeRound views isMatch wrap) s).nodes view =
      if view ∈ views then (s.nodes view).filter fun e => owner isMatch entries e.1 = none
      else s.nodes view := by
  induction entries generalizing s with
  | nil => simp [owner]
  | cons first entries ih =>
    obtain ⟨hmem, hnodes⟩ := ih (takeRound views isMatch wrap s first)
    obtain ⟨hmoved, hleft⟩ := moveViews_spec (isMatch first) first.1 hviews
      { s with groups := s.groups.append first.1 (wrap first.2) }
    refine ⟨fun k r => ?_, fun view => ?_⟩
    · have hrest : (∃ view ∈ views, ∃ e ∈ s.nodes view,
          owner isMatch (first :: entries) e.1 = some k ∧ r = .node view e.2) ↔
          (k = first.1 ∧ ∃ view ∈ views, ∃ e ∈ s.nodes view,
            isMatch first e.1 ∧ r = .node view e.2) ∨
          ∃ view ∈ views, ∃ e ∈ (takeRound views isMatch wrap s first).nodes view,
            owner isMatch entries e.1 = some k ∧ r = .node view e.2 := by
        constructor
        · rintro ⟨view, hview, e, he, howner, hr⟩
          rw [owner_cons] at howner
          split at howner
          · next hmatch =>
            exact Or.inl ⟨(Option.some.inj howner).symm, view, hview, e, he, hmatch, hr⟩
          · next hmatch =>
            refine Or.inr ⟨view, hview, e, ?_, howner, hr⟩
            rw [takeRound, hleft, if_pos hview]
            exact List.mem_filter.mpr ⟨he, by simpa using hmatch⟩
        · rintro (⟨rfl, view, hview, e, he, hmatch, hr⟩ | ⟨view, hview, e, he, howner, hr⟩)
          · exact ⟨view, hview, e, he, by rw [owner_cons, if_pos hmatch], hr⟩
          · rw [takeRound, hleft, if_pos hview] at he
            obtain ⟨he, hmatch⟩ := List.mem_filter.mp he
            refine ⟨view, hview, e, he, ?_, hr⟩
            rw [owner_cons, if_neg (by simpa using hmatch), howner]
      rw [List.foldl_cons, hmem, takeRound, hmoved, Groups.mem_get_append, hrest, takeRound,
        List.exists_mem_cons_iff]
      rw [or_assoc, or_assoc, or_assoc]
      exact or_congr_right (or_congr_right or_left_comm)
    · rw [List.foldl_cons, hnodes, takeRound, hleft]
      split
      · rw [List.filter_filter]
        refine List.filter_congr fun e _ => ?_
        rw [owner_cons]
        by_cases hmatch : isMatch first e.1 <;> simp [hmatch]
      · rfl

end

/-! ### Homes -/

def jtagMatch (e : String × JtagRecord) (ctx : String) : Bool := matchesJtag e.1 e.2.dapCtx ctx

def debugcoreMatch (e : String × NodeRecord) (ctx : String) : Bool := containsCtx ctx e.1

/-- Context names that tell the nodes of one view apart. -/
structure DistinctNames (jtag : List JtagRecord) (nodes : NodeView → List NodeRecord) : Prop where
  jtag : (jtag.map JtagRecord.ctx).Nodup
  nodes : ∀ view, ((nodes view).map NodeRecord.ctx).Nodup

section

variable (jtag : List JtagRecord) (nodes : NodeView → List NodeRecord)

def Listed : ViewRecord → Prop
  | .jtag r => r ∈ jtag
  | .node view r => r ∈ nodes view

def unknownJtag : List (String × JtagRecord) := unknown JtagRecord.ctx JtagRecord.dna jtag

def unknownNodes (view : NodeView) : List (String × NodeRecord) :=
  unknown NodeRecord.ctx NodeRecord.dna (nodes view)

def jtagOwner (ctx : String) : Option String := owner jtagMatch (unknownJtag jtag) ctx

/-- Debugcore records that no JTAG record takes. -/
def leftDebugcore : List (String × NodeRecord) :=
  (unknownNodes nodes .debugcore).filter fun e => jtagOwner jtag e.1 = none

def debugcoreOwner (ctx : String) : Option String := owner debugcoreMatch (leftDebugcore jtag nodes) ctx

/-- The key of a record's group. -/
def home : ViewRecord → Option String
  | .jtag r => some ((knownDna r.dna).elim r.ctx toString)
  | .node view r => ((knownDna r.dna).map toString).or ((jtagOwner jtag r.ctx).or
      (if view = .debugcore then some r.ctx else debugcoreOwner jtag nodes r.ctx))

/-- The dictionaries before contexts are matched. -/
def populated : Scanned :=
  (((Scanned.populateJtag {} jtag).populate .memory (nodes .memory)).populate .debugcore
    (nodes .debugcore)).populate .chipscope (nodes .chipscope)

variable {jtag nodes}

theorem mem_populated (k : String) (r : ViewRecord) :
    r ∈ (populated jtag nodes).groups.get k ↔
      (∃ record ∈ jtag, r = .jtag record ∧ (knownDna record.dna).map toString = some k) ∨
        ∃ view, ∃ record ∈ nodes view, r = .node view record ∧
          (knownDna record.dna).map toString = some k := by
  have hviews : ∀ P : NodeView → Prop, (∃ view, P view) ↔
      P .memory ∨ P .debugcore ∨ P .chipscope := fun P => by
    constructor
    · rintro ⟨view, h⟩
      cases view <;> simp [h]
    · rintro (h | h | h) <;> exact ⟨_, h⟩
  rw [hviews]
  simp only [populated, Scanned.populate, Scanned.populateJtag, mem_populate, or_assoc]
  simp [Groups.get, Py.lookup]

theorem populated_jtag (h : DistinctNames jtag nodes) :
    (populated jtag nodes).jtag = unknownJtag jtag := by
  simp only [populated, Scanned.populate, Scanned.populateJtag]
  rw [populate_entries jtag _ (by simpa using h.jtag), List.nil_append, unknownJtag]

theorem populated_nodes (h : DistinctNames jtag nodes) (view : NodeView) :
    (populated jtag nodes).nodes view = unknownNodes nodes view := by
  have hentries : ∀ view groups, (populateDnaOrContext NodeRecord.ctx NodeRecord.dna (.node view)
      (nodes view) (groups, [])).2 = unknownNodes nodes view := fun view groups =>
    (populate_entries (nodes view) (groups, []) (by simpa using h.nodes view)).trans
      (List.nil_append _)
  cases view <;>
    simp [populated, Scanned.populate, Scanned.populateJtag, hentries]

theorem groupRecords_eq : groupRecords jtag nodes =
    (populated jtag nodes).matchJtag.matchDebugcore.groups := rfl

theorem mem_unknown {α : Type} {ctx : α → String} {dna : α → Option ℕ} {records : List α}
    {e : String × α} : e ∈ unknown ctx dna records ↔
      e.2 ∈ records ∧ knownDna (dna e.2) = none ∧ e.1 = ctx e.2 := by
  obtain ⟨c, a⟩ := e
  simp only [unknown, List.mem_map, List.mem_filter, decide_eq_true_eq, Prod.mk.injEq]
  constructor
  · rintro ⟨b, ⟨hmem, hdna⟩, rfl, rfl⟩
    exact ⟨hmem, hdna, rfl⟩
  · rintro ⟨hmem, hdna, rfl⟩
    exact ⟨a, ⟨hmem, hdna⟩, rfl, rfl⟩

theorem mem_matched (h : DistinctNames jtag nodes) (k : String) (r : ViewRecord) :
    r ∈ (groupRecords jtag nodes).get k ↔ r ∈ (populated jtag nodes).groups.get k ∨
      (∃ e ∈ unknownJtag jtag, k = e.1 ∧ r = .jtag e.2) ∨
      ∃ view, ∃ e ∈ unknownNodes nodes view, r = .node view e.2 ∧ (jtagOwner jtag e.1).or
        (if view = .debugcore then some e.1 else debugcoreOwner jtag nodes e.1) = some k := by
  have hall : ∀ view : NodeView, view ∈ [NodeView.memory, .debugcore, .chipscope] := fun view => by
    cases view <;> simp
  have hsome : ∀ view : NodeView, view ∈ [NodeView.memory, .chipscope] ↔ view ≠ .debugcore :=
    fun view => by cases view <;> simp
  obtain ⟨hmem, hnodes⟩ := takeRounds_spec jtagMatch .jtag
    (show [NodeView.memory, .debugcore, .chipscope].Nodup by decide) (populated jtag nodes).jtag
    { populated jtag nodes with jtag := [] }
  have hmatch : (populated jtag nodes).matchJtag = (populated jtag nodes).jtag.foldl
      (takeRound [NodeView.memory, .debugcore, .chipscope] jtagMatch .jtag)
      { populated jtag nodes with jtag := [] } := rfl
  rw [← hmatch, populated_jtag h] at hmem hnodes
  simp only [hall, true_and, if_true, populated_nodes h] at hmem hnodes
  have hleft : (populated jtag nodes).matchJtag.nodes .debugcore = leftDebugcore jtag nodes :=
    hnodes .debugcore
  obtain ⟨hmem', -⟩ := takeRounds_spec debugcoreMatch (.node .debugcore)
    (show [NodeView.memory, .chipscope].Nodup by decide)
    ((populated jtag nodes).matchJtag.nodes .debugcore)
    { (populated jtag nodes).matchJtag with
      nodes := Function.update (populated jtag nodes).matchJtag.nodes .debugcore [] }
  have hlast : ∀ view ≠ NodeView.debugcore, ∀ e,
      e ∈ Function.update (populated jtag nodes).matchJtag.nodes .debugcore [] view ↔
        e ∈ unknownNodes nodes view ∧ jtagOwner jtag e.1 = none := fun view hview e => by
    rw [Function.update_of_ne hview, hnodes, List.mem_filter, decide_eq_true_eq]
    rfl
  rw [groupRecords_eq]
  refine (hmem' k r).trans ?_
  rw [hmem, hleft, or_assoc, or_assoc]
  refine or_congr_right (or_congr_right ?_)
  constructor
  · rintro (⟨view, e, he, howner, hr⟩ | ⟨e, he, rfl, hr⟩ | ⟨view, hview, e, he, howner, hr⟩)
    · have howner : jtagOwner jtag e.1 = some k := howner
      exact ⟨view, e, he, hr, by simp [howner]⟩
    · obtain ⟨he, hnone⟩ := List.mem_filter.mp he
      have hnone : jtagOwner jtag e.1 = none := by simpa using hnone
      exact ⟨.debugcore, e, he, hr, by simp [hnone]⟩
    · rw [hsome] at hview
      obtain ⟨he, hnone⟩ := (hlast view hview e).mp he
      refine ⟨view, e, he, hr, ?_⟩
      rw [hnone, Option.none_or, if_neg hview]
      exact howner
  · rintro ⟨view, e, he, hr, hkey⟩
    rcases howner : jtagOwner jtag e.1 with - | key
    · rw [howner, Option.none_or] at hkey
      by_cases hview : view = .debugcore
      · subst hview
        rw [if_pos rfl] at hkey
        exact Or.inr (Or.inl ⟨e, List.mem_filter.mpr ⟨he, by simpa using howner⟩,
          (Option.some.inj hkey).symm, hr⟩)
      · rw [if_neg hview] at hkey
        exact Or.inr (Or.inr ⟨view, (hsome view).mpr hview, e, (hlast view hview e).mpr ⟨he, howner⟩,
          hkey, hr⟩)
    · rw [howner, Option.some_or] at hkey
      exact Or.inl ⟨view, e, he, howner.trans hkey, hr⟩

/-- A group holds the listed records whose home it is. -/
theorem mem_groupRecords (h : DistinctNames jtag nodes) (k : String) (r : ViewRecord) :
    r ∈ (groupRecords jtag nodes).get k ↔ Listed jtag nodes r ∧ home jtag nodes r = some k := by
  rw [mem_matched h, mem_populated]
  constructor
  · rintro ((⟨r, hr, rfl, hdna⟩ | ⟨view, r, hr, rfl, hdna⟩) | ⟨e, he, rfl, rfl⟩ |
      ⟨view, e, he, rfl, hkey⟩)
    · obtain ⟨n, hn, rfl⟩ := Option.map_eq_some_iff.mp hdna
      exact ⟨hr, by simp [home, hn]⟩
    · exact ⟨hr, by simp [home, hdna]⟩
    · obtain ⟨hr, hdna, hctx⟩ := mem_unknown.mp he
      exact ⟨hr, by simp [home, hdna, hctx]⟩
    · obtain ⟨hr, hdna, hctx⟩ := mem_unknown.mp he
      rw [hctx] at hkey
      exact ⟨hr, by simpa [home, hdna] using hkey⟩
  · rintro ⟨hr, hkey⟩
    rcases r with r | ⟨view, r⟩
    · rcases hdna : knownDna r.dna with - | n
      · have hctx : r.ctx = k := by simpa [home, hdna] using hkey
        exact Or.inr (Or.inl ⟨(r.ctx, r), mem_unknown.mpr ⟨hr, hdna, rfl⟩, hctx.symm, rfl⟩)
      · exact Or.inl (Or.inl ⟨r, hr, rfl, by simpa [home, hdna] using hkey⟩)
    · rcases hdna : knownDna r.dna with - | n
      · exact Or.inr (Or.inr ⟨view, (r.ctx, r), mem_unknown.mpr ⟨hr, hdna, rfl⟩, rfl,
          by simpa [home, hdna] using hkey⟩)
      · exact Or.inl (Or.inr ⟨view, r, hr, rfl, by simpa [home, hdna] using hkey⟩)

/-! ### The partition -/

/-- A record has a known DNA, matches a JTAG record without one, or extends the context of a
    debugcore record without one. -/
def HasHome (jtag : List JtagRecord) (nodes : NodeView → List NodeRecord) (r : NodeRecord) : Prop :=
  knownDna r.dna ≠ none ∨ (∃ e ∈ unknownJtag jtag, jtagMatch e r.ctx) ∨
    ∃ e ∈ unknownNodes nodes .debugcore, debugcoreMatch e r.ctx

theorem owner_ne_none_iff {β : Type} (isMatch : String × β → String → Bool)
    (entries : List (String × β)) (ctx : String) :
    owner isMatch entries ctx ≠ none ↔ ∃ e ∈ entries, isMatch e ctx := by
  rw [owner, Ne, Option.map_eq_none_iff, List.find?_eq_none]
  simp

theorem containsCtx_trans {a b c : String} (hab : containsCtx a b) (hbc : containsCtx b c) :
    containsCtx a c := by
  rw [containsCtx, decide_eq_true_eq] at *
  exact hbc.trans hab

theorem jtagMatch_trans {e : String × JtagRecord} {ctx part : String} (h : containsCtx ctx part)
    (hmatch : jtagMatch e part) : jtagMatch e ctx := by
  simp only [jtagMatch, matchesJtag, Bool.or_eq_true, Bool.and_eq_true] at hmatch ⊢
  rcases hmatch with hown | ⟨hdap, hown⟩
  · exact Or.inl (containsCtx_trans h hown)
  · exact Or.inr ⟨hdap, containsCtx_trans h hown⟩

/-- What a debugcore record taken by a JTAG record would match is taken by one as well. -/
theorem home_ne_none_iff {view : NodeView} {r : NodeRecord} (hview : view ≠ .debugcore) :
    home jtag nodes (.node view r) ≠ none ↔ HasHome jtag nodes r := by
  rw [HasHome, ← owner_ne_none_iff]
  rcases hdna : knownDna r.dna with - | n
  · have hhome : home jtag nodes (.node view r) =
        (jtagOwner jtag r.ctx).or (debugcoreOwner jtag nodes r.ctx) := by
      simp [home, hdna, hview]
    rw [hhome]
    rcases howner : jtagOwner jtag r.ctx with - | key
    · have hnone : owner jtagMatch (unknownJtag jtag) r.ctx = none := howner
      have hleft : ∀ e ∈ unknownNodes nodes .debugcore, debugcoreMatch e r.ctx →
          e ∈ leftDebugcore jtag nodes := fun e he hmatch => by
        refine List.mem_filter.mpr ⟨he, ?_⟩
        by_contra hne
        have hne : jtagOwner jtag e.1 ≠ none := by simpa using hne
        obtain ⟨j, hj, hjmatch⟩ := (owner_ne_none_iff _ _ _).mp hne
        exact (owner_ne_none_iff _ _ _).mpr ⟨j, hj, jtagMatch_trans hmatch hjmatch⟩ hnone
      rw [Option.none_or, debugcoreOwner, owner_ne_none_iff, hnone]
      constructor
      · rintro ⟨e, he, hmatch⟩
        exact Or.inr (Or.inr ⟨e, (List.mem_filter.mp he).1, hmatch⟩)
      · rintro (h | h | ⟨e, he, hmatch⟩)
        · exact absurd rfl h
        · exact absurd rfl h
        · exact ⟨e, hleft e he hmatch, hmatch⟩
    · have hsome : owner jtagMatch (unknownJtag jtag) r.ctx = some key := howner
      simp [hsome]
  · simp [home, hdna]

/-- A record without DNA matches at most one JTAG record, and at most one debugcore record that no
    JTAG record takes. -/
structure Unambiguous (jtag : List JtagRecord) (nodes : NodeView → List NodeRecord) : Prop where
  byJtag : ∀ view, ∀ r ∈ unknownNodes nodes view, ∀ e ∈ unknownJtag jtag, ∀ e' ∈ unknownJtag jtag,
    jtagMatch e r.1 → jtagMatch e' r.1 → e = e'
  byDebugcore : ∀ view, ∀ r ∈ unknownNodes nodes view, ∀ e ∈ leftDebugcore jtag nodes,
    ∀ e' ∈ leftDebugcore jtag nodes, debugcoreMatch e r.1 → debugcoreMatch e' r.1 → e = e'

/-- With one match at most, the order of the entries does not matter. -/
theorem owner_congr {β : Type} {isMatch : String × β → String → Bool}
    {entries entries' : List (String × β)} {ctx : String} (hmem : ∀ e, e ∈ entries' ↔ e ∈ entries)
    (hunique : ∀ e ∈ entries, ∀ e' ∈ entries, isMatch e ctx → isMatch e' ctx → e = e') :
    owner isMatch entries' ctx = owner isMatch entries ctx := by
  rcases hnone : entries.find? (isMatch · ctx) with - | e
  · have hnone' : entries'.find? (isMatch · ctx) = none := by
      rw [List.find?_eq_none] at hnone ⊢
      exact fun e he => hnone e ((hmem e).mp he)
    rw [owner, owner, hnone, hnone']
  · have he := List.mem_of_find?_eq_some hnone
    have hmatch : isMatch e ctx := List.find?_some (p := (isMatch · ctx)) hnone
    rcases hsome : entries'.find? (isMatch · ctx) with - | e'
    · rw [List.find?_eq_none] at hsome
      exact absurd hmatch (hsome e ((hmem e).mpr he))
    · have he' := (hmem e').mp (List.mem_of_find?_eq_some hsome)
      have hmatch' : isMatch e' ctx := List.find?_some (p := (isMatch · ctx)) hsome
      rw [owner, owner, hnone, hsome, hunique e he e' he' hmatch hmatch']

theorem mem_unknown_congr {α : Type} {ctx : α → String} {dna : α → Option ℕ}
    {records records' : List α} (h : ∀ r, r ∈ records' ↔ r ∈ records) (e : String × α) :
    e ∈ unknown ctx dna records' ↔ e ∈ unknown ctx dna records := by
  rw [mem_unknown, mem_unknown, h]

theorem home_congr (h : Unambiguous jtag nodes) {jtag' : List JtagRecord}
    {nodes' : NodeView → List NodeRecord} (hjtag : ∀ r, r ∈ jtag' ↔ r ∈ jtag)
    (hnodes : ∀ view r, r ∈ nodes' view ↔ r ∈ nodes view) {r : ViewRecord}
    (hr : Listed jtag nodes r) : home jtag' nodes' r = home jtag nodes r := by
  have howner : ∀ view, ∀ e ∈ unknownNodes nodes view, jtagOwner jtag' e.1 = jtagOwner jtag e.1 :=
    fun view e he => owner_congr (mem_unknown_congr hjtag) (h.byJtag view e he)
  have hleft : ∀ e, e ∈ leftDebugcore jtag' nodes' ↔ e ∈ leftDebugcore jtag nodes := fun e => by
    rw [leftDebugcore, leftDebugcore, List.mem_filter, List.mem_filter, unknownNodes, unknownNodes,
      mem_unknown_congr (hnodes .debugcore)]
    exact and_congr_right fun he => by rw [howner .debugcore e he]
  rcases r with r | ⟨view, r⟩
  · rfl
  · rcases hdna : knownDna r.dna with - | n
    · have he : (r.ctx, r) ∈ unknownNodes nodes view := mem_unknown.mpr ⟨hr, hdna, rfl⟩
      have hdebugcore : debugcoreOwner jtag' nodes' r.ctx = debugcoreOwner jtag nodes r.ctx :=
        owner_congr hleft (h.byDebugcore view _ he)
      rw [home, home, hdna, howner view _ he, hdebugcore]
    · simp [home, hdna]

/-- A context name that is the text of a DNA. -/
def NamedLikeDna (r r' : JtagRecord) : Prop :=
  knownDna r.dna = none ∧ ∃ n, knownDna r'.dna = some n ∧ r.ctx = toString n

theorem dna_eq_of_knownDna {dna : Option ℕ} {n : ℕ} (h : knownDna dna = some n) : dna = some n :=
  (Option.filter_eq_some_iff.mp h).1

/-- JTAG records in one group. -/
theorem dna_eq_of_home_eq (h : DistinctNames jtag nodes) {r r' : JtagRecord} (hr : r ∈ jtag)
    (hr' : r' ∈ jtag) (hhome : home jtag nodes (.jtag r) = home jtag nodes (.jtag r')) :
    r.dna = r'.dna ∨ NamedLikeDna r r' ∨ NamedLikeDna r' r := by
  rcases hdna : knownDna r.dna with - | n <;> rcases hdna' : knownDna r'.dna with - | n'
  · have hctx : r.ctx = r'.ctx := by simpa [home, hdna, hdna'] using hhome
    exact Or.inl (congrArg JtagRecord.dna (List.inj_on_of_nodup_map h.jtag hr hr' hctx))
  · exact Or.inr (Or.inl ⟨hdna, n', hdna', by simpa [home, hdna, hdna'] using hhome⟩)
  · exact Or.inr (Or.inr ⟨hdna', n, hdna, by simpa [home, hdna, hdna', eq_comm] using hhome⟩)
  · have htext : toString n = toString n' := by simpa [home, hdna, hdna'] using hhome
    have hn : n = n' := Py.toDigits_ten_inj (by
      simpa only [Nat.toString_eq_repr, Nat.toList_repr] using congrArg String.toList htext)
    exact Or.inl ((dna_eq_of_knownDna hdna).trans (hn ▸ (dna_eq_of_knownDna hdna').symm))

end

/-- A listed record with a home is in one group. -/
theorem existsUnique_groupRecords {jtag : List JtagRecord} {nodes : NodeView → List NodeRecord}
    (h : DistinctNames jtag nodes) {r : ViewRecord} (hr : Listed jtag nodes r)
    (hhome : home jtag nodes r ≠ none) : ∃! k, r ∈ (groupRecords jtag nodes).get k := by
  obtain ⟨k, hk⟩ := Option.ne_none_iff_exists'.mp hhome
  refine ⟨k, (mem_groupRecords h k r).mpr ⟨hr, hk⟩, fun k' hk' => ?_⟩
  exact Option.some.inj (((mem_groupRecords h k' r).mp hk').2.symm.trans hk)

section Scan

variable {hwServer : Option HwServer} {csServer : Option CsServer} {includeDna : Bool}
  (h : DistinctNames (scanJtag hwServer includeDna) (scanNodes hwServer csServer includeDna))

include h

/-- What is scanned on the servers is in one group, and nothing else is in any. -/
theorem mem_scanAllViews (k : String) (r : ViewRecord) :
    r ∈ (scanAllViews hwServer csServer includeDna).get k ↔
      Listed (scanJtag hwServer includeDna) (scanNodes hwServer csServer includeDna) r ∧
        home (scanJtag hwServer includeDna) (scanNodes hwServer csServer includeDna) r = some k :=
  mem_groupRecords h k r

theorem existsUnique_scanAllViews_jtag {r : JtagRecord} (hr : r ∈ scanJtag hwServer includeDna) :
    ∃! k, .jtag r ∈ (scanAllViews hwServer csServer includeDna).get k :=
  existsUnique_groupRecords h hr (by simp [home])

/-- A node of the chipscope and the memory view may be left out. -/
theorem existsUnique_scanAllViews_node {view : NodeView} {r : NodeRecord}
    (hr : r ∈ scanNodes hwServer csServer includeDna view)
    (hhome : view = .debugcore ∨
      HasHome (scanJtag hwServer includeDna) (scanNodes hwServer csServer includeDna) r) :
    ∃! k, .node view r ∈ (scanAllViews hwServer csServer includeDna).get k := by
  refine existsUnique_groupRecords h hr ?_
  rcases eq_or_ne view .debugcore with rfl | hview
  · rcases hdna : knownDna r.dna <;> simp [home, hdna]
  · exact (home_ne_none_iff hview).mpr (hhome.resolve_left hview)

end Scan

/-- Every JTAG and debugcore record is in one group, every other record in one if it has a home,
    and JTAG records of one group have one DNA. Without ambiguous names the groups do not depend on
    the order of the nodes. -/
theorem groupRecords_partition {jtag : List JtagRecord} {nodes : NodeView → List NodeRecord}
    (h : DistinctNames jtag nodes) :
    (∀ r ∈ jtag, ∃! k, .jtag r ∈ (groupRecords jtag nodes).get k) ∧
    (∀ r ∈ nodes .debugcore, ∃! k, .node .debugcore r ∈ (groupRecords jtag nodes).get k) ∧
    (∀ view ≠ .debugcore, ∀ r ∈ nodes view,
      (HasHome jtag nodes r → ∃! k, .node view r ∈ (groupRecords jtag nodes).get k) ∧
      (¬ HasHome jtag nodes r → ∀ k, .node view r ∉ (groupRecords jtag nodes).get k)) ∧
    (∀ r k k', r ∈ (groupRecords jtag nodes).get k → r ∈ (groupRecords jtag nodes).get k' →
      k = k') ∧
    (∀ r ∈ jtag, ∀ r' ∈ jtag, ∀ k, .jtag r ∈ (groupRecords jtag nodes).get k →
      .jtag r' ∈ (groupRecords jtag nodes).get k →
        r.dna = r'.dna ∨ NamedLikeDna r r' ∨ NamedLikeDna r' r) ∧
    (Unambiguous jtag nodes → ∀ jtag' nodes', jtag'.Perm jtag →
      (∀ view, (nodes' view).Perm (nodes view)) → ∀ k r,
        r ∈ (groupRecords jtag' nodes').get k ↔ r ∈ (groupRecords jtag nodes).get k) := by
  have hone := @existsUnique_groupRecords jtag nodes h
  refine ⟨fun r hr => hone hr (by simp [home]), fun r hr => hone hr ?_,
    fun view hview r hr => ⟨fun hhome => hone hr ((home_ne_none_iff hview).mpr hhome),
      fun hhome k hk => hhome ((home_ne_none_iff hview).mp ?_)⟩, fun r k k' hk hk' => ?_,
    fun r hr r' hr' k hk hk' => ?_, fun hunambiguous jtag' nodes' hjtag hnodes k r => ?_⟩
  · rcases hdna : knownDna r.dna <;> simp [home, hdna]
  · simp [((mem_groupRecords h k _).mp hk).2]
  · exact Option.some.inj
      (((mem_groupRecords h k r).mp hk).2.symm.trans ((mem_groupRecords h k' r).mp hk').2)
  · exact dna_eq_of_home_eq h hr hr'
      (((mem_groupRecords h k _).mp hk).2.trans ((mem_groupRecords h k _).mp hk').2.symm)
  · have h' : DistinctNames jtag' nodes' :=
      ⟨(hjtag.map _).nodup_iff.mpr h.jtag, fun view => ((hnodes view).map _).nodup_iff.mpr
        (h.nodes view)⟩
    have hlisted : Listed jtag' nodes' r ↔ Listed jtag nodes r := by
      rcases r with r | ⟨view, r⟩
      · exact hjtag.mem_iff
      · exact (hnodes view).mem_iff
    rw [mem_groupRecords h', mem_groupRecords h, hlisted]
    exact and_congr_right fun hr => by
      rw [home_congr hunambiguous (fun _ => hjtag.mem_iff) (fun view _ => (hnodes view).mem_iff) hr]

/-- A JTAG record with a context and a DNA. -/
def jtagNamed (ctx : String) (dna : Option ℕ) : JtagRecord where
  server := "hw_server"
  view := "jtag"
  ctx := ctx
  name := none
  hierName := "jtag/None"
  part := none
  archName := none
  isArmDap := false
  jtagIndex := 0
  jtagCableCtx := "cable"
  dna := dna

def memoryNamed (ctx : String) : NodeRecord where
  server := "hw_server"
  view := "memory"
  ctx := ctx
  name := ""
  hierName := "memory/None"

/-- One memory record and nothing else beside the JTAG records. -/
def onlyMemory (ctx : String) : NodeView → List NodeRecord
  | .memory => [memoryNamed ctx]
  | _ => []

theorem distinctNames_onlyMemory {jtag : List JtagRecord} (ctx : String)
    (h : (jtag.map JtagRecord.ctx).Nodup) : DistinctNames jtag (onlyMemory ctx) :=
  ⟨h, fun view => by cases view <;> simp [onlyMemory]⟩

/-- A device without DNA and its memory node. -/
theorem groupRecords_partition_memory :
    ∃! k, .node .memory (memoryNamed "AB") ∈
      (groupRecords [jtagNamed "A" none] (onlyMemory "AB")).get k :=
  ((groupRecords_partition (distinctNames_onlyMemory "AB" (by simp))).2.2.1 .memory (by simp)
    (memoryNamed "AB") (by simp [onlyMemory])).1 (Or.inr (Or.inl
      ⟨("A", jtagNamed "A" none), mem_unknown.mpr ⟨by simp, rfl, rfl⟩, by decide⟩))

/-- A memory record below a JTAG record with DNA has no group, a context may be the text of a DNA,
    and of two contexts that match a record the one listed first takes it. -/
theorem not_groupRecords_partition :
    (¬ ∀ (jtag : List JtagRecord) (nodes : NodeView → List NodeRecord), DistinctNames jtag nodes →
      ∀ view ≠ .debugcore, ∀ r ∈ nodes view, (∃ j ∈ jtag, j.ctx.toList <+: r.ctx.toList) →
        ∃! k, .node view r ∈ (groupRecords jtag nodes).get k) ∧
    (¬ ∀ (jtag : List JtagRecord) (nodes : NodeView → List NodeRecord), DistinctNames jtag nodes →
      ∀ r ∈ jtag, ∀ r' ∈ jtag, ∀ k, .jtag r ∈ (groupRecords jtag nodes).get k →
        .jtag r' ∈ (groupRecords jtag nodes).get k → r.dna = r'.dna) ∧
    ¬ ∀ (jtag jtag' : List JtagRecord) (nodes : NodeView → List NodeRecord),
      DistinctNames jtag nodes → jtag'.Perm jtag → ∀ k r,
        r ∈ (groupRecords jtag' nodes).get k ↔ r ∈ (groupRecords jtag nodes).get k := by
  refine ⟨fun h => ?_, fun h => ?_, fun h => ?_⟩
  · obtain ⟨k, hk, -⟩ := h [jtagNamed "A" (some 1)] (onlyMemory "AB")
      (distinctNames_onlyMemory "AB" (by simp)) .memory (by simp) (memoryNamed "AB")
      (by simp [onlyMemory]) ⟨jtagNamed "A" (some 1), by simp, by decide⟩
    have hhome := ((mem_groupRecords (distinctNames_onlyMemory "AB" (by simp)) k _).mp hk).2
    exact absurd hhome (by simp [home, memoryNamed, knownDna, jtagOwner, owner, unknownJtag,
      unknown, jtagNamed, debugcoreOwner, leftDebugcore, unknownNodes, onlyMemory])
  · have hdna := h [jtagNamed "5" none, jtagNamed "B" (some 5)] (onlyMemory "AB")
      (distinctNames_onlyMemory "AB" (by decide)) (jtagNamed "5" none) (by simp)
      (jtagNamed "B" (some 5)) (by simp) "5" (by decide) (by decide)
    cases hdna
  · have hsame := (h [jtagNamed "A" none, jtagNamed "AB" none]
      [jtagNamed "AB" none, jtagNamed "A" none] (onlyMemory "ABC")
      (distinctNames_onlyMemory "ABC" (by decide)) (List.Perm.swap _ _ _) "A"
      (.node .memory (memoryNamed "ABC"))).mpr (by decide)
    exact absurd hsame (by decide)

end Chipscopy.Device
