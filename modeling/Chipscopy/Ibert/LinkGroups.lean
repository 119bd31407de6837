import Chipscopy.Ibert.LinkRegistry

/-! Membership in link groups

    A link knows its group and the group lists its links. The two agree as long as a link is only
    added to the group that it is in and only removed from that one, a group is emptied by name of
    its links, and no link or group stands twice in a list of a call. -/

namespace Chipscopy.Ibert

open Py (Outcome)

namespace State

variable {s : State} {l : LinkId} {g : GroupId}

@[simp] theorem setLinkGroup_name (s : State) (l : LinkId) (g : Option GroupId) (l' : LinkId) :
    ((s.setLinkGroup l g).link l').name = (s.link l').name := by
  rcases eq_or_ne l' l with rfl | hne
  · simp [setLinkGroup]
  · simp [setLinkGroup, hne]

theorem setLinkGroup_linkGroup (s : State) (l : LinkId) (g : Option GroupId) (l' : LinkId) :
    ((s.setLinkGroup l g).link l').linkGroup = if l' = l then g else (s.link l').linkGroup := by
  rcases eq_or_ne l' l with rfl | hne
  · simp [setLinkGroup]
  · simp [setLinkGroup, hne]

/-- The lists of the groups determine names. -/
theorem GroupInv.listed_iff (h : GroupInv s) {name : String} :
    (s.group g).links.get? name = some l ↔
      (s.link l).linkGroup = some g ∧ (s.link l).name = name := by
  constructor
  · intro hl
    obtain ⟨hgroup, hget⟩ := h.listed hl
    exact ⟨hgroup, (h.link hget).1⟩
  · rintro ⟨hgroup, rfl⟩
    exact h.member hgroup

theorem GroupInv.isRegistered (h : GroupInv s) (hgroup : (s.link l).linkGroup = some g) :
    s.IsRegistered l := ⟨_, (h.listed (h.member hgroup)).2⟩

theorem GroupInv.mem_values (h : GroupInv s) :
    l ∈ (s.group g).links.values ↔ (s.link l).linkGroup = some g := by
  constructor
  · intro hl
    obtain ⟨e, he, rfl⟩ := List.mem_map.mp hl
    exact (h.listed ((Py.Dict.get?_eq_some_iff _).mpr he)).1
  · intro hl
    exact List.mem_map.mpr ⟨_, (Py.Dict.get?_eq_some_iff _).mp (h.member hl), rfl⟩

/-- The invariant from what a change of memberships leaves. -/
theorem GroupInv.of_membership {s' : State} (h : GroupInv s) (hlinks : s'.links = s.links)
    (hmade : s'.linksMade = s.linksMade) (hlast : s'.lastLinkNumber = s.lastLinkNumber)
    (hgroups : s'.linkGroups = s.linkGroups) (hgroupsMade : s'.groupsMade = s.groupsMade)
    (hlastGroup : s'.lastLinkGroupNumber = s.lastLinkGroupNumber)
    (hname : ∀ l, (s'.link l).name = (s.link l).name)
    (hgroupName : ∀ g, (s'.group g).name = (s.group g).name)
    (hmember : ∀ {l g}, (s'.link l).linkGroup = some g →
      s.IsRegistered l ∧ s.IsRegisteredGroup g)
    (hlisted : ∀ {g name l}, (s'.group g).links.get? name = some l ↔
      (s'.link l).linkGroup = some g ∧ (s.link l).name = name) : GroupInv s' where
  link := by
    intro name l hl
    rw [hlinks] at hl
    rw [hname, hmade, hlast]
    exact h.link hl
  last := hlast ▸ h.last
  listed := by
    intro g name l hl
    obtain ⟨hgroup, rfl⟩ := hlisted.mp hl
    rw [hlinks]
    exact ⟨hgroup, h.get?_name (hmember hgroup).1⟩
  member := by
    intro g l hgroup
    exact hlisted.mpr ⟨hgroup, (hname l).symm⟩
  group := by
    intro name g hg
    rw [hgroups] at hg
    rw [hgroupName, hgroupsMade, hlastGroup]
    exact h.group hg
  lastGroup := hlastGroup ▸ h.lastGroup
  grouped := by
    intro g name l hl
    rw [IsRegisteredGroup, hgroups]
    exact (hmember (hlisted.mp hl).1).2

/-! ### Adding links -/

/-- With a link in a group. -/
def withMember (s : State) (g : GroupId) (l : LinkId) : State :=
  (s.setLinkGroup l (some g)).setGroupLinks g ((s.group g).links.set (s.link l).name l)

theorem withMember_linkGroup (s : State) (g : GroupId) (l l' : LinkId) :
    ((s.withMember g l).link l').linkGroup = if l' = l then some g else (s.link l').linkGroup :=
  setLinkGroup_linkGroup s l (some g) l'

theorem setGroupLinks_links (s : State) (g : GroupId) (links : Py.Dict String LinkId)
    (g' : GroupId) : ((s.setGroupLinks g links).group g').links =
      if g' = g then links else (s.group g').links := by
  rcases eq_or_ne g' g with rfl | hne
  · simp [setGroupLinks]
  · simp [setGroupLinks, hne]

theorem setGroupLinks_name (s : State) (g : GroupId) (links : Py.Dict String LinkId)
    (g' : GroupId) : ((s.setGroupLinks g links).group g').name = (s.group g').name := by
  rcases eq_or_ne g' g with rfl | hne
  · simp [setGroupLinks]
  · simp [setGroupLinks, hne]

theorem GroupInv.withMember (h : GroupInv s) (hl : s.IsRegistered l) (hg : s.IsRegisteredGroup g)
    (hfree : (s.link l).linkGroup = none ∨ (s.link l).linkGroup = some g) :
    GroupInv (s.withMember g l) := by
  refine h.of_membership rfl rfl rfl rfl rfl rfl (setLinkGroup_name s l (some g))
    (setGroupLinks_name _ g _) ?_ ?_
  · intro l' g' hl'
    rw [withMember_linkGroup] at hl'
    split_ifs at hl' with heq
    · rw [heq, ← Option.some.inj hl']
      exact ⟨hl, hg⟩
    · exact ⟨h.isRegistered hl', h.grouped (h.member hl')⟩
  · intro g' name l'
    rw [withMember_linkGroup, State.withMember, setGroupLinks_links]
    change (if g' = g then (s.group g).links.set (s.link l).name l
      else (s.group g').links).get? name = some l' ↔ _
    have hget := h.get?_name hl
    have hsame (hl' : (s.link l').linkGroup = some g') (hname : (s.link l').name = (s.link l).name) :
        l' = l := by
      have hget' := (h.listed (h.member hl')).2
      rw [hname, hget] at hget'
      exact (Option.some.inj hget').symm
    rcases eq_or_ne g' g with rfl | hg'
    · rw [if_pos rfl]
      rcases eq_or_ne name (s.link l).name with rfl | hname
      · rw [Py.Dict.get?_set_self]
        constructor
        · intro heq
          obtain rfl := Option.some.inj heq
          exact ⟨if_pos rfl, rfl⟩
        · rintro ⟨hgroup, hname⟩
          split_ifs at hgroup with heq
          · rw [heq]
          · exact absurd (hsame hgroup hname) heq
      · rw [Py.Dict.get?_set_ne _ hname, h.listed_iff]
        refine and_congr_left ?_
        rintro rfl
        rw [if_neg]
        rintro rfl
        exact hname rfl
    · rw [if_neg hg', h.listed_iff]
      refine and_congr_left fun _ => ?_
      split_ifs with heq
      · rw [heq]
        constructor
        · intro hgroup
          rcases hfree with hnone | hsome
          · rw [hnone] at hgroup
            exact nomatch hgroup
          · rw [hsome] at hgroup
            exact hgroup
        · exact fun hgroup => absurd (Option.some.inj hgroup).symm hg'
      · rfl

/-- Registered links that are in no group or in this one. -/
def Addable (s : State) (g : GroupId) (links : List LinkId) : Prop :=
  ∀ l ∈ links, s.IsRegistered l ∧
    ((s.link l).linkGroup = none ∨ (s.link l).linkGroup = some g)

theorem GroupInv.add (h : GroupInv s) (hg : s.IsRegisteredGroup g) {links : List LinkId}
    (hlinks : s.Addable g links) :
    ∃ s', LinkGroup.add g links s = (s', none) ∧ GroupInv s' := by
  obtain ⟨s', hloop, hdone, -⟩ := Outcome.loop_ok (f := LinkGroup.addLink g)
    (P := fun ls s => GroupInv s ∧ s.IsRegisteredGroup g ∧ s.Addable g ls)
    (fun l ls s hs => by
      obtain ⟨hinv, hg, hadd⟩ := hs
      obtain ⟨⟨hl, hfree⟩, hls⟩ := List.forall_mem_cons.mp hadd
      refine ⟨s.withMember g l, ?_, hinv.withMember hl hg hfree, hg, fun l' hl' => ?_⟩
      · rw [LinkGroup.addLink]
        simp only [setLinkGroup_name]
        rfl
      · refine ⟨(hls l' hl').1, ?_⟩
        rw [withMember_linkGroup]
        split_ifs
        · exact .inr rfl
        · exact (hls l' hl').2) links ⟨h, hg, hlinks⟩
  exact ⟨s', hloop, hdone⟩

/-! ### Removing links -/

/-- Without a link in a group. -/
def withoutMember (s : State) (g : GroupId) (l : LinkId) : State :=
  (s.setLinkGroup l none).setGroupLinks g ((s.group g).links.erase (s.link l).name)

theorem withoutMember_linkGroup (s : State) (g : GroupId) (l l' : LinkId) :
    ((s.withoutMember g l).link l').linkGroup = if l' = l then none else (s.link l').linkGroup :=
  setLinkGroup_linkGroup s l none l'

theorem GroupInv.withoutMember (h : GroupInv s) (hl : (s.link l).linkGroup = some g) :
    GroupInv (s.withoutMember g l) := by
  have hmember := h.member hl
  refine h.of_membership rfl rfl rfl rfl rfl rfl (setLinkGroup_name s l none)
    (setGroupLinks_name _ g _) ?_ ?_
  · intro l' g' hl'
    rw [withoutMember_linkGroup] at hl'
    split_ifs at hl' with heq
    exact ⟨h.isRegistered hl', h.grouped (h.member hl')⟩
  · intro g' name l'
    rw [withoutMember_linkGroup, State.withoutMember, setGroupLinks_links]
    change (if g' = g then (s.group g).links.erase (s.link l).name
      else (s.group g').links).get? name = some l' ↔ _
    have hother (hne : ¬ (name = (s.link l).name ∧ g' = g)) :
        (s.group g').links.get? name = some l' ↔
          (if l' = l then none else (s.link l').linkGroup) = some g' ∧ (s.link l').name = name := by
      rw [h.listed_iff]
      refine and_congr_left fun hname => ?_
      split_ifs with heq
      · subst heq
        rw [hl]
        refine iff_of_false (fun hg => hne ⟨hname.symm, (Option.some.inj hg).symm⟩) ?_
        exact fun hg => nomatch hg
      · rfl
    rcases eq_or_ne g' g with rfl | hg'
    · rw [if_pos rfl]
      rcases eq_or_ne name (s.link l).name with rfl | hname
      · rw [Py.Dict.get?_erase_self]
        refine iff_of_false (fun hl' => nomatch hl') ?_
        rintro ⟨hgroup, hname⟩
        split_ifs at hgroup with heq
        have hmember' := h.member hgroup
        rw [hname, hmember] at hmember'
        exact heq (Option.some.inj hmember').symm
      · rw [Py.Dict.get?_erase_ne _ hname]
        exact hother fun hboth => hname hboth.1
    · rw [if_neg hg']
      exact hother fun hboth => hg' hboth.2

/-- Links of a group, each once. -/
def DistinctMembers (s : State) (g : GroupId) (links : List LinkId) : Prop :=
  links.Nodup ∧ ∀ l ∈ links, (s.link l).linkGroup = some g

theorem removeLink_eq (hmember : (s.group g).links.get? (s.link l).name = some l) :
    LinkGroup.removeLink g l s = (s.withoutMember g l, none) := by
  have hgroup : (s.setLinkGroup l none).group = s.group := rfl
  rw [LinkGroup.removeLink]
  simp only [setLinkGroup_name, hgroup, hmember]
  rfl

theorem GroupInv.remove (h : GroupInv s) {links : List LinkId}
    (hlinks : s.DistinctMembers g links) :
    ∃ s', LinkGroup.remove g (some links) s = (s', none) ∧ GroupInv s' := by
  obtain ⟨s', hloop, hdone, -⟩ := Outcome.loop_ok (f := LinkGroup.removeLink g)
    (P := fun ls s => GroupInv s ∧ s.DistinctMembers g ls)
    (fun l ls s hs => by
      obtain ⟨hinv, hnodup, hall⟩ := hs
      obtain ⟨hnew, hrest⟩ := List.nodup_cons.mp hnodup
      obtain ⟨hl, hls⟩ := List.forall_mem_cons.mp hall
      refine ⟨_, removeLink_eq (hinv.member hl), hinv.withoutMember hl, hrest, fun l' hl' => ?_⟩
      rw [withoutMember_linkGroup, if_neg]
      · exact hls l' hl'
      · rintro rfl
        exact hnew hl') links ⟨h, hlinks⟩
  exact ⟨s', hloop, hdone⟩

theorem remove_all_empty (hempty : (s.group g).links.size = 0) :
    LinkGroup.remove g none s = (s, none) := by
  have hkeys : (s.group g).links.keys = [] := by
    rw [Py.Dict.keys, List.length_eq_zero_iff.mp hempty]
    rfl
  rw [LinkGroup.remove, hkeys]
  rfl

/-! ### Deleting groups -/

theorem foldl_setLinkGroup_none : ∀ (links : List LinkId) (s : State),
    links.foldl (fun s l => s.setLinkGroup l none) s = { s with
      link := fun l => if l ∈ links then { s.link l with linkGroup := none } else s.link l }
  | [], s => by simp
  | l :: ls, s => by
    rw [List.foldl_cons, foldl_setLinkGroup_none ls]
    have hlink : (fun l' => if l' ∈ ls then
        { (s.setLinkGroup l none).link l' with linkGroup := none }
        else (s.setLinkGroup l none).link l') =
        fun l' => if l' ∈ l :: ls then { s.link l' with linkGroup := none } else s.link l' := by
      funext l'
      rcases eq_or_ne l' l with rfl | hne
      · simp [setLinkGroup]
      · simp [setLinkGroup, hne]
    rw [hlink]
    rfl

/-- Without a group. -/
def withoutGroup (s : State) (g : GroupId) : State :=
  { s with
    link := fun l =>
      if l ∈ (s.group g).links.values then { s.link l with linkGroup := none } else s.link l
    group := Function.update s.group g ⟨"", "", Py.Dict.empty⟩
    linkGroups := s.linkGroups.erase (s.group g).name }

theorem GroupInv.get?_groupName (h : GroupInv s) (hg : s.IsRegisteredGroup g) :
    s.linkGroups.get? (s.group g).name = some g := by
  obtain ⟨name, hname⟩ := hg
  rwa [(h.group hname).1]

theorem GroupInv.deleteLinkGroup (h : GroupInv s) (hg : s.IsRegisteredGroup g)
    (deleteLinksInGroup : Bool) (links : List LinkId) :
    State.deleteLinkGroup deleteLinksInGroup g (s, links) =
      ((s.withoutGroup g,
        if deleteLinksInGroup then links ++ (s.group g).links.values else links), none) := by
  have hgroups : (LinkGroup.invalidate g s).linkGroups = s.linkGroups := by
    rw [LinkGroup.invalidate, foldl_setLinkGroup_none]
  have hget := h.get?_groupName hg
  rw [State.deleteLinkGroup]
  simp only [hgroups, hget]
  rw [LinkGroup.invalidate, foldl_setLinkGroup_none]
  rfl

theorem GroupInv.withoutGroup_linkGroup (h : GroupInv s) (g : GroupId) {g' : GroupId} :
    ((s.withoutGroup g).link l).linkGroup = some g' ↔
      (s.link l).linkGroup = some g' ∧ g' ≠ g := by
  change (if l ∈ (s.group g).links.values then _ else _ : Ibert.Link).linkGroup = some g' ↔ _
  split_ifs with hl
  · rw [h.mem_values.mp hl]
    refine iff_of_false (fun hg' => nomatch hg') ?_
    rintro ⟨hg', hne⟩
    exact hne (Option.some.inj hg').symm
  · refine (and_iff_left_of_imp fun hg' => ?_).symm
    rintro rfl
    exact hl (h.mem_values.mpr hg')

theorem withoutGroup_name (s : State) (g : GroupId) (l : LinkId) :
    ((s.withoutGroup g).link l).name = (s.link l).name := by
  change (if l ∈ (s.group g).links.values then _ else _ : Ibert.Link).name = _
  split_ifs
  · rfl
  · rfl

theorem GroupInv.withoutGroup_get? (h : GroupInv s) (hg : s.IsRegisteredGroup g) {name : String}
    {g' : GroupId} : (s.withoutGroup g).linkGroups.get? name = some g' ↔
      s.linkGroups.get? name = some g' ∧ g' ≠ g := by
  have hget := h.get?_groupName hg
  change (s.linkGroups.erase (s.group g).name).get? name = some g' ↔ _
  rcases eq_or_ne name (s.group g).name with rfl | hne
  · rw [Py.Dict.get?_erase_self, hget]
    simp [eq_comm]
  · rw [Py.Dict.get?_erase_ne _ hne]
    refine (and_iff_left_of_imp fun hg' => ?_).symm
    rintro rfl
    exact hne (h.group hg').1.symm

theorem withoutGroup_group_of_ne {g' : GroupId} (hne : g' ≠ g) :
    (s.withoutGroup g).group g' = s.group g' := Function.update_of_ne hne _ _

theorem GroupInv.withoutGroup (h : GroupInv s) (hg : s.IsRegisteredGroup g) :
    GroupInv (s.withoutGroup g) := by
  have hlisted {g' : GroupId} {name : String} {l : LinkId}
      (hl : ((s.withoutGroup g).group g').links.get? name = some l) :
      g' ≠ g ∧ (s.group g').links.get? name = some l := by
    rcases eq_or_ne g' g with rfl | hne
    · rw [show (s.withoutGroup g').group g' = ⟨"", "", Py.Dict.empty⟩ from
        Function.update_self _ _ _] at hl
      exact nomatch hl
    · rw [withoutGroup_group_of_ne hne] at hl
      exact ⟨hne, hl⟩
  refine {
    link := ?_, last := h.last, listed := ?_, member := ?_, group := ?_,
    lastGroup := h.lastGroup, grouped := ?_ }
  · intro name l hl
    rw [withoutGroup_name]
    exact h.link hl
  · intro g' name l hl
    obtain ⟨hne, hold⟩ := hlisted hl
    exact ⟨(h.withoutGroup_linkGroup g).mpr ⟨(h.listed hold).1, hne⟩, (h.listed hold).2⟩
  · intro g' l hl
    obtain ⟨hold, hne⟩ := (h.withoutGroup_linkGroup g).mp hl
    rw [withoutGroup_group_of_ne hne, withoutGroup_name]
    exact h.member hold
  · intro name g' hg'
    obtain ⟨hold, hne⟩ := (h.withoutGroup_get? hg).mp hg'
    rw [withoutGroup_group_of_ne hne]
    exact h.group hold
  · intro g' name l hl
    obtain ⟨hne, hold⟩ := hlisted hl
    obtain ⟨name', hname'⟩ := h.grouped hold
    exact ⟨name', (h.withoutGroup_get? hg).mpr ⟨hname', hne⟩⟩

/-- Registered groups, each once. -/
def DistinctGroups (s : State) (groups : List GroupId) : Prop :=
  groups.Nodup ∧ ∀ g ∈ groups, s.IsRegisteredGroup g

/-- While groups are deleted their links are registered, each once, and in no group. -/
def DeleteInv (groups : List GroupId) (v : State × List LinkId) : Prop :=
  GroupInv v.1 ∧ v.1.DistinctGroups groups ∧ v.1.DistinctLinks v.2 ∧
    ∀ l ∈ v.2, (v.1.link l).linkGroup = none

theorem GroupInv.distinct_members (h : GroupInv s) (g : GroupId) :
    (s.group g).links.values.Nodup := by
  have hnames : (s.group g).links.values.map (fun l => (s.link l).name) =
      (s.group g).links.keys := by
    rw [Py.Dict.values, List.map_map]
    exact List.map_congr_left fun e he => (h.listed_iff.mp ((Py.Dict.get?_eq_some_iff _).mpr he)).2
  refine List.Nodup.of_map (fun l => (s.link l).name) ?_
  rw [hnames]
  exact (s.group g).links.nodup

theorem deleteLinkGroup_spec (deleteLinksInGroup : Bool) {g : GroupId} {gs : List GroupId}
    {v : State × List LinkId} (h : DeleteInv (g :: gs) v) :
    ∃ v', deleteLinkGroup deleteLinksInGroup g v = (v', none) ∧ DeleteInv gs v' := by
  rcases v with ⟨s, links⟩
  obtain ⟨hinv, ⟨hnodup, hall⟩, ⟨hlinks, hregistered⟩, hnone⟩ := h
  obtain ⟨hnew, hrest⟩ := List.nodup_cons.mp hnodup
  obtain ⟨hg, hgs⟩ := List.forall_mem_cons.mp hall
  have hcleared {l : LinkId} (hl : (s.link l).linkGroup = none ∨ (s.link l).linkGroup = some g) :
      ((s.withoutGroup g).link l).linkGroup = none := by
    rw [Option.eq_none_iff_forall_ne_some]
    intro g' hg'
    obtain ⟨hold, hne⟩ := (hinv.withoutGroup_linkGroup g).mp hg'
    rcases hl with hl | hl
    · rw [hl] at hold
      exact nomatch hold
    · rw [hl] at hold
      exact hne (Option.some.inj hold).symm
  refine ⟨_, hinv.deleteLinkGroup hg deleteLinksInGroup links, hinv.withoutGroup hg, ⟨hrest, ?_⟩,
    ?_, ?_⟩
  · intro g' hg'
    obtain ⟨name, hname⟩ := hgs g' hg'
    refine ⟨name, (hinv.withoutGroup_get? hg).mpr ⟨hname, ?_⟩⟩
    rintro rfl
    exact hnew hg'
  · cases deleteLinksInGroup with
    | false => exact ⟨hlinks, hregistered⟩
    | true =>
      refine ⟨List.Nodup.append hlinks (hinv.distinct_members g) ?_, ?_⟩
      · intro l hl hmember
        have hsome := hinv.mem_values.mp hmember
        rw [hnone l hl] at hsome
        exact nomatch hsome
      · intro l hl
        rcases List.mem_append.mp hl with hold | hmember
        · exact hregistered l hold
        · exact hinv.isRegistered (hinv.mem_values.mp hmember)
  · intro l hl
    cases deleteLinksInGroup with
    | false => exact hcleared (.inl (hnone l hl))
    | true =>
      rcases List.mem_append.mp hl with hold | hmember
      · exact hcleared (.inl (hnone l hold))
      · exact hcleared (.inr (hinv.mem_values.mp hmember))

theorem GroupInv.deleteLinks (h : GroupInv s) {links : List LinkId}
    (hlinks : s.DistinctLinks links) :
    ∃ s', s.deleteLinks (some links) = (s', none) ∧ GroupInv s' :=
  deleteLinks_keep id GroupInv.withoutLink GroupInv.resetNumber h hlinks

/-- The numbering of the groups starts again when none is left. -/
theorem GroupInv.resetGroupNumber (h : GroupInv s) :
    GroupInv (if s.linkGroups.size = 0 then { s with lastLinkGroupNumber := -1 } else s) := by
  split_ifs with hempty
  · refine { h with group := ?_, lastGroup := le_rfl }
    intro name g hg
    have hmem := (Py.Dict.get?_eq_some_iff _).mp hg
    rw [List.length_eq_zero_iff.mp hempty] at hmem
    exact nomatch hmem
  · exact h

theorem GroupInv.deleteLinkGroups (h : GroupInv s) {groups : List GroupId}
    (hgroups : s.DistinctGroups groups) (deleteLinksInGroup : Bool) :
    ∃ s', s.deleteLinkGroups groups deleteLinksInGroup = (s', none) ∧ GroupInv s' := by
  obtain ⟨⟨s₁, links⟩, hloop, hinv, -, hlinks, -⟩ := Outcome.loop_ok
    (P := DeleteInv) (f := State.deleteLinkGroup deleteLinksInGroup)
    (fun g gs v hv => deleteLinkGroup_spec deleteLinksInGroup hv) groups
    (s := (s, [])) ⟨h, hgroups, ⟨List.nodup_nil, List.forall_mem_nil _⟩, List.forall_mem_nil _⟩
  have hlinks' : (if s₁.linkGroups.size = 0 then { s₁ with lastLinkGroupNumber := -1 }
      else s₁ : State).DistinctLinks links := by
    split_ifs
    · exact hlinks
    · exact hlinks
  obtain ⟨s', hdelete, hdone⟩ := hinv.resetGroupNumber.deleteLinks hlinks'
  refine ⟨s', ?_, hdone⟩
  rw [State.deleteLinkGroups, hloop]
  exact hdelete

/-! ### Creating links and groups -/

/-- The constructor makes an object in no group, whatever it raises. -/
theorem Link.new_spec (rx : Option RX) (tx : Option TX) (name : String) (s : State) :
    ∃ handle rxLink txLink raised, Link.new rx tx name s =
      ({ s.withObject ⟨rx, tx, name, handle, none⟩ with rxLink := rxLink, txLink := txLink },
        raised) := by
  rcases tx with - | t
  · rcases rx with - | r
    · exact ⟨"", _, _, _, rfl⟩
    · rcases hr : s.rxLink r with - | l'
      · exact ⟨"UnknownTX" ++ "-->" ++ r.handle, Function.update s.rxLink r (some s.linksMade),
          s.txLink, none, by simp [Link.new, Outcome.andThen, hr, withObject]⟩
      · refine ⟨"UnknownTX" ++ "-->", s.rxLink, s.txLink, some ?_, ?_⟩
        rotate_left
        · simp [Link.new, Outcome.andThen, hr, withObject]
          rfl
  · rcases ht : s.txLink t with - | l'
    · rcases rx with - | r
      · exact ⟨"UnknownRX", s.rxLink, Function.update s.txLink t (some s.linksMade), none, by
          simp [Link.new, Outcome.andThen, ht, withObject]⟩
      · rcases hr : s.rxLink r with - | l'
        · exact ⟨t.handle ++ "-->" ++ r.handle, Function.update s.rxLink r (some s.linksMade),
            Function.update s.txLink t (some s.linksMade), none, by
            simp [Link.new, Outcome.andThen, hr, ht, withObject]⟩
        · refine ⟨t.handle ++ "-->", s.rxLink, Function.update s.txLink t (some s.linksMade),
            some ?_, ?_⟩
          rotate_left
          · simp [Link.new, Outcome.andThen, hr, ht, withObject]
            rfl
    · refine ⟨"", s.rxLink, s.txLink, some ?_, ?_⟩
      rotate_left
      · simp [Link.new, Outcome.andThen, ht, withObject]
        rfl

/-- The endpoints do not matter for the groups. -/
theorem GroupInv.endpoints (h : GroupInv s) (rxLink : RX → Option LinkId)
    (txLink : TX → Option LinkId) :
    GroupInv { s with rxLink := rxLink, txLink := txLink } := { h with }

/-- Some numbers of links are not used. -/
theorem GroupInv.skipNumber (h : GroupInv s) :
    GroupInv { s with lastLinkNumber := s.lastLinkNumber + 1 } :=
  { h with
    link := fun hl => ⟨(h.link hl).1, (h.link hl).2.1,
      (h.link hl).2.2.mono (Int.le_add_one le_rfl)⟩
    last := h.last.trans (Int.le_add_one le_rfl) }

/-- While links are made, with or without those that are not yet registered. -/
def MakeInv (v : State × List LinkId) : Prop :=
  GroupInv v.1 ∧ GroupInv (v.1.register v.2) ∧ ∀ l ∈ v.2, l < v.1.linksMade

theorem register_withObject {newLinks : List LinkId} (hlt : ∀ l ∈ newLinks, l < s.linksMade)
    (x : Ibert.Link) :
    (s.withObject x).register newLinks = (s.register newLinks).withObject x := by
  have hnames : newLinks.map (fun l => (((s.withObject x).link l).name, l)) =
      newLinks.map fun l => ((s.link l).name, l) := by
    refine List.map_congr_left fun l hl => ?_
    rw [State.withObject]
    dsimp only
    rw [Function.update_of_ne (hlt l hl).ne]
  rw [register, hnames]
  rfl

theorem MakeInv.createLink {v : State × List LinkId} (h : MakeInv v)
    (pair : Option RX × Option TX) : MakeInv (State.createLink pair v).1 := by
  rcases v with ⟨s, newLinks⟩
  obtain ⟨hinv, hview, hlt⟩ := h
  let s₀ : State := { s with lastLinkNumber := s.lastLinkNumber + 1 }
  obtain ⟨handle, rxLink, txLink, raised, hnew⟩ := Link.new_spec pair.1 pair.2
    (Py.numbered linkNamePrefix (s.lastLinkNumber + 1)) s₀
  have hlt' : ∀ l ∈ newLinks, l < s.linksMade + 1 :=
    fun l hl => (hlt l hl).trans (Nat.lt_succ_self _)
  rw [State.createLink]
  dsimp only
  rw [hnew]
  cases raised with
  | none =>
    refine ⟨(hinv.skipNumber.withObject rfl).endpoints rxLink txLink, ?_, ?_⟩
    · have hregister := register_new hlt pair handle rxLink txLink
      dsimp only
      rw [show ({ s₀.withObject _ with rxLink := rxLink, txLink := txLink } : State).register
        (newLinks ++ [s.linksMade]) = _ from hregister]
      exact (hview.withLink pair handle).endpoints rxLink txLink
    · intro l hl
      rcases List.mem_append.mp hl with hold | hself
      · exact hlt' l hold
      · rw [List.mem_singleton.mp hself]
        exact Nat.lt_succ_self _
  | some e =>
    let x : Ibert.Link :=
      ⟨pair.1, pair.2, Py.numbered linkNamePrefix (s.lastLinkNumber + 1), handle, none⟩
    have hnumber : s.lastLinkNumber + 1 - 1 = s.lastLinkNumber := add_sub_cancel_right _ _
    have hstate : ({ s₀.withObject x with
        rxLink := rxLink, txLink := txLink, lastLinkNumber := s₀.lastLinkNumber - 1 } : State) =
        { s.withObject x with rxLink := rxLink, txLink := txLink } := by
      change ({ s.withObject x with
        rxLink := rxLink, txLink := txLink, lastLinkNumber := s.lastLinkNumber + 1 - 1 } : State) = _
      rw [hnumber]
      rfl
    change MakeInv ({ s₀.withObject x with
      rxLink := rxLink, txLink := txLink, lastLinkNumber := s₀.lastLinkNumber - 1 }, newLinks)
    rw [hstate]
    refine ⟨(hinv.withObject rfl).endpoints rxLink txLink, ?_, hlt'⟩
    have hregister := register_withObject hlt x
    have hdone := (hview.withObject (x := x) rfl).endpoints rxLink txLink
    rw [← hregister] at hdone
    exact hdone

theorem GroupInv.createLinks (h : GroupInv s) (rxs : Argument RX) (txs : Argument TX) :
    GroupInv (s.createLinks rxs txs).1 := by
  rw [State.createLinks]
  rcases pairs rxs txs with e | ps
  · exact h
  · have hloop := Outcome.loop_inv (P := MakeInv) (fun pair _ hv => hv.createLink pair) ps
      (s := (s, [])) ⟨h, h, List.forall_mem_nil _⟩
    dsimp only
    rcases hrun : Outcome.loop createLink ps (s, []) with ⟨⟨s', newLinks⟩, - | e⟩
    · rw [hrun] at hloop
      exact hloop.2.1
    · rw [hrun] at hloop
      exact hloop.1

/-- A group with the next number. -/
def withGroup (s : State) (description : String) : State :=
  { s with
    group := Function.update s.group s.groupsMade
      ⟨Py.numbered linkGroupNamePrefix (s.lastLinkGroupNumber + 1), description, Py.Dict.empty⟩
    groupsMade := s.groupsMade + 1
    linkGroups := s.linkGroups.set
      (Py.numbered linkGroupNamePrefix (s.lastLinkGroupNumber + 1)) s.groupsMade
    lastLinkGroupNumber := s.lastLinkGroupNumber + 1 }

theorem withGroup_group_of_ne {description : String} (hne : g ≠ s.groupsMade) :
    (s.withGroup description).group g = s.group g := Function.update_of_ne hne _ _

theorem withGroup_group_self {description : String} :
    (s.withGroup description).group s.groupsMade =
      ⟨Py.numbered linkGroupNamePrefix (s.lastLinkGroupNumber + 1), description, Py.Dict.empty⟩ :=
  Function.update_self _ _ _

theorem GroupInv.group_lt (h : GroupInv s) (hg : s.IsRegisteredGroup g) : g < s.groupsMade := by
  obtain ⟨name, hname⟩ := hg
  exact (h.group hname).2.1

theorem GroupInv.withGroup_get? (h : GroupInv s) {description name : String} :
    (s.withGroup description).linkGroups.get? name = some g ↔ s.linkGroups.get? name = some g ∨
      name = Py.numbered linkGroupNamePrefix (s.lastLinkGroupNumber + 1) ∧ g = s.groupsMade := by
  obtain ⟨-, -, -, hunused⟩ := next_unused linkGroupNamePrefix h.lastGroup
  change (s.linkGroups.set _ _).get? name = some g ↔ _
  rcases eq_or_ne name (Py.numbered linkGroupNamePrefix (s.lastLinkGroupNumber + 1)) with rfl | hne
  · have hnone : s.linkGroups.get?
        (Py.numbered linkGroupNamePrefix (s.lastLinkGroupNumber + 1)) = none := by
      rw [Option.eq_none_iff_forall_ne_some]
      exact fun g' hg' => hunused (h.group hg').2.2
    rw [Py.Dict.get?_set_self, hnone]
    simp [eq_comm]
  · rw [Py.Dict.get?_set_ne _ hne]
    simp [hne]

theorem GroupInv.withGroup (h : GroupInv s) (description : String) :
    GroupInv (s.withGroup description) := by
  obtain ⟨n, hname, hn, -⟩ := next_unused linkGroupNamePrefix h.lastGroup
  have hlisted {g : GroupId} {name : String} {l : LinkId}
      (hl : ((s.withGroup description).group g).links.get? name = some l) :
      (s.group g).links.get? name = some l := by
    rcases eq_or_ne g s.groupsMade with rfl | hne
    · rw [withGroup_group_self] at hl
      exact nomatch hl
    · rwa [withGroup_group_of_ne hne] at hl
  refine {
    link := h.link, last := h.last, listed := ?_, member := ?_, group := ?_, lastGroup := ?_,
    grouped := ?_ }
  · intro g name l hl
    exact h.listed (hlisted hl)
  · intro g l hl
    have hmember := h.member hl
    rw [withGroup_group_of_ne (h.group_lt (h.grouped hmember)).ne]
    exact hmember
  · intro name g hg
    rcases h.withGroup_get?.mp hg with hold | ⟨rfl, rfl⟩
    · obtain ⟨hname', hlt, hnum⟩ := h.group hold
      rw [withGroup_group_of_ne hlt.ne]
      exact ⟨hname', hlt.trans (Nat.lt_succ_self _), hnum.mono (Int.le_add_one le_rfl)⟩
    · rw [withGroup_group_self]
      exact ⟨rfl, Nat.lt_succ_self _, n, hname, hn.le⟩
  · exact h.lastGroup.trans (Int.le_add_one le_rfl)
  · intro g name l hl
    obtain ⟨name', hname'⟩ := h.grouped (hlisted hl)
    exact ⟨name', h.withGroup_get?.mpr (.inl hname')⟩

theorem registerGroups_new {newGroups : List GroupId} (hlt : ∀ g ∈ newGroups, g < s.groupsMade)
    (description : String) :
    ((createLinkGroup (s, newGroups) description).1).registerGroups
      (createLinkGroup (s, newGroups) description).2 =
    (s.registerGroups newGroups).withGroup description := by
  have hnames : newGroups.map (fun g => ((Function.update s.group s.groupsMade
      ⟨Py.numbered linkGroupNamePrefix (s.lastLinkGroupNumber + 1), description,
        Py.Dict.empty⟩ g).name, g)) = newGroups.map fun g => ((s.group g).name, g) := by
    refine List.map_congr_left fun g hg => ?_
    rw [Function.update_of_ne (hlt g hg).ne]
  rw [createLinkGroup, registerGroups]
  dsimp only
  rw [List.map_append, hnames]
  simp [Py.Dict.update, State.withGroup, registerGroups]

theorem GroupInv.createLinkGroups (h : GroupInv s) (descriptions : List String) :
    GroupInv (s.createLinkGroups descriptions) := by
  have hfold (descriptions : List String) (v : State × List GroupId)
      (hview : GroupInv (v.1.registerGroups v.2)) (hlt : ∀ g ∈ v.2, g < v.1.groupsMade) :
      GroupInv ((descriptions.foldl createLinkGroup v).1.registerGroups
        (descriptions.foldl createLinkGroup v).2) := by
    induction descriptions generalizing v with
    | nil => exact hview
    | cons description descriptions ih =>
      refine ih (createLinkGroup v description) ?_ ?_
      · rw [registerGroups_new hlt]
        exact hview.withGroup description
      · intro g hg
        rcases List.mem_append.mp hg with hold | hself
        · exact (hlt g hold).trans (Nat.lt_succ_self _)
        · rw [List.mem_singleton.mp hself]
          exact Nat.lt_succ_self _
  exact hfold descriptions (s, []) h (List.forall_mem_nil _)

end State

/-! ### Runs -/

/-- A call on registered links and groups. -/
def OnRegistered (s : State) : Call → Prop
  | .createLinks _ _ => True
  | .deleteLinks none => True
  | .deleteLinks (some links) => ∀ l ∈ links, s.IsRegistered l
  | .createLinkGroups _ => True
  | .deleteLinkGroups groups _ => ∀ g ∈ groups, s.IsRegisteredGroup g
  | .add g links => s.IsRegisteredGroup g ∧ ∀ l ∈ links, s.IsRegistered l
  | .remove g none => s.IsRegisteredGroup g
  | .remove g (some links) => s.IsRegisteredGroup g ∧ ∀ l ∈ links, s.IsRegistered l

/-- Nothing stands twice in a list to delete or remove, a link is only added to the group that it
    is in and only removed from it, and only an empty group is emptied without naming its links. -/
def Undisturbed (s : State) : Call → Prop
  | .createLinks _ _ => True
  | .deleteLinks none => True
  | .deleteLinks (some links) => links.Nodup
  | .createLinkGroups _ => True
  | .deleteLinkGroups groups _ => groups.Nodup
  | .add g links => ∀ l ∈ links, (s.link l).linkGroup = none ∨ (s.link l).linkGroup = some g
  | .remove g none => (s.group g).links.size = 0
  | .remove g (some links) => s.DistinctMembers g links

instance {s : State} {g : GroupId} : Decidable (s.IsRegisteredGroup g) :=
  decidable_of_iff (g ∈ s.linkGroups.values) (by
    constructor
    · intro hg
      obtain ⟨e, he, rfl⟩ := List.mem_map.mp hg
      exact ⟨e.1, (Py.Dict.get?_eq_some_iff _).mpr he⟩
    · rintro ⟨name, hname⟩
      exact List.mem_map.mpr ⟨(name, g), (Py.Dict.get?_eq_some_iff _).mp hname, rfl⟩)

instance {s : State} {call : Call} : Decidable (OnRegistered s call) :=
  match call with
  | .createLinks _ _ => .isTrue trivial
  | .deleteLinks none => .isTrue trivial
  | .deleteLinks (some links) => inferInstanceAs (Decidable (∀ l ∈ links, s.IsRegistered l))
  | .createLinkGroups _ => .isTrue trivial
  | .deleteLinkGroups groups _ =>
    inferInstanceAs (Decidable (∀ g ∈ groups, s.IsRegisteredGroup g))
  | .add g links =>
    inferInstanceAs (Decidable (s.IsRegisteredGroup g ∧ ∀ l ∈ links, s.IsRegistered l))
  | .remove g none => inferInstanceAs (Decidable (s.IsRegisteredGroup g))
  | .remove g (some links) =>
    inferInstanceAs (Decidable (s.IsRegisteredGroup g ∧ ∀ l ∈ links, s.IsRegistered l))

instance {s : State} {call : Call} : Decidable (Undisturbed s call) :=
  match call with
  | .createLinks _ _ => .isTrue trivial
  | .deleteLinks none => .isTrue trivial
  | .deleteLinks (some links) => inferInstanceAs (Decidable links.Nodup)
  | .createLinkGroups _ => .isTrue trivial
  | .deleteLinkGroups groups _ => inferInstanceAs (Decidable groups.Nodup)
  | .add g links => inferInstanceAs (Decidable
      (∀ l ∈ links, (s.link l).linkGroup = none ∨ (s.link l).linkGroup = some g))
  | .remove g none => inferInstanceAs (Decidable ((s.group g).links.size = 0))
  | .remove g (some links) => inferInstanceAs
      (Decidable (links.Nodup ∧ ∀ l ∈ links, (s.link l).linkGroup = some g))

/-- A link is in a group if and only if the group lists it under its name, no group lists it
    elsewhere, and what was deleted is not referred to. -/
structure MembersConsistent (s : State) : Prop where
  member : ∀ l g, (s.link l).linkGroup = some g ↔ (s.group g).links.get? (s.link l).name = some l
  once : ∀ {g g' name name' l}, (s.group g).links.get? name = some l →
    (s.group g').links.get? name' = some l → g = g' ∧ name = name'
  deletedLink : ∀ l, ¬ s.IsRegistered l → ∀ g name, (s.group g).links.get? name ≠ some l
  deletedGroup : ∀ g, ¬ s.IsRegisteredGroup g → ∀ l, (s.link l).linkGroup ≠ some g

/-- Only `create_links` raises. -/
def GroupCallReturns (s : State) (call : Call) (_ : State) : Prop :=
  (∃ rxs txs, call = .createLinks rxs txs) ∨ (call.perform s).2 = none

theorem State.GroupInv.membersConsistent {s : State} (h : s.GroupInv) : MembersConsistent s where
  member l g := by
    rw [h.listed_iff]
    exact (and_iff_left rfl).symm
  once := by
    intro g g' name name' l hl hl'
    obtain ⟨hg, rfl⟩ := h.listed_iff.mp hl
    obtain ⟨hg', rfl⟩ := h.listed_iff.mp hl'
    rw [hg] at hg'
    exact ⟨Option.some.inj hg', rfl⟩
  deletedLink l hl g name hget := hl ⟨name, (h.listed hget).2⟩
  deletedGroup g hg l hgroup := hg (h.grouped (h.member hgroup))

/-- One call. -/
theorem State.GroupInv.call {s s' : State} {call : Call} (h : s.GroupInv)
    (hok : OnRegistered s call ∧ Undisturbed s call) (hstep : step s call = some s') :
    s'.GroupInv ∧ GroupCallReturns s call s' := by
  obtain rfl := Option.some.inj hstep
  have hdone {s₁ : State} (hperform : call.perform s = (s₁, none)) (hinv : s₁.GroupInv) :
      (call.perform s).1.GroupInv ∧ GroupCallReturns s call (call.perform s).1 := by
    rw [GroupCallReturns, hperform]
    exact ⟨hinv, .inr rfl⟩
  obtain ⟨hregistered, hundisturbed⟩ := hok
  cases call with
  | createLinks rxs txs => exact ⟨h.createLinks rxs txs, .inl ⟨rxs, txs, rfl⟩⟩
  | deleteLinks links =>
    cases links with
    | none =>
      obtain ⟨s₁, hdelete, hinv⟩ := h.deleteLinks h.distinct_values
      exact hdone hdelete hinv
    | some links =>
      obtain ⟨s₁, hdelete, hinv⟩ := h.deleteLinks ⟨hundisturbed, hregistered⟩
      exact hdone hdelete hinv
  | createLinkGroups descriptions => exact hdone rfl (h.createLinkGroups descriptions)
  | deleteLinkGroups groups deleteLinksInGroup =>
    obtain ⟨s₁, hdelete, hinv⟩ :=
      h.deleteLinkGroups ⟨hundisturbed, hregistered⟩ deleteLinksInGroup
    exact hdone hdelete hinv
  | add g links =>
    obtain ⟨s₁, hadd, hinv⟩ := h.add hregistered.1 fun l hl =>
      ⟨hregistered.2 l hl, hundisturbed l hl⟩
    exact hdone hadd hinv
  | remove g links =>
    cases links with
    | none => exact hdone (State.remove_all_empty hundisturbed) h
    | some links =>
      obtain ⟨s₁, hremove, hinv⟩ := h.remove hundisturbed
      exact hdone hremove hinv

/-- Groups and links agree in all runs on registered links and groups that do not disturb them. -/
theorem members_consistent (calls : List Call) (hcalls : Machine.EachStep step
      (fun s call => OnRegistered s call ∧ Undisturbed s call) State.initial calls) :
    Machine.Throughout step MembersConsistent GroupCallReturns State.initial calls :=
  Machine.Throughout.of_inv (fun h => h.membersConsistent)
    (fun h hok hstep => h.call hok hstep) calls State.inv_initial.toGroupInv hcalls

private def knownTx (n : ℕ) : Endpoint TX := .known ⟨n, "Quad_205.TX"⟩

private def knownRx (n : ℕ) : Endpoint RX := .known ⟨n, "Quad_205.RX"⟩

/-- A link moves from one group to another, which is then deleted with its links. -/
private def groupCalls : List Call :=
  [.createLinks (.list [knownRx 0, knownRx 1, knownRx 2]) (.list [knownTx 0, knownTx 1, knownTx 2]),
    .createLinkGroups ["near end", "far end"],
    .add 0 [0, 1],
    .add 1 [2],
    .remove 0 (some [1]),
    .add 1 [1, 2],
    .deleteLinkGroups [1] true,
    .deleteLinks (some [0]),
    .remove 0 none,
    .deleteLinkGroups [0] false]

theorem members_consistent_moved :
    Machine.Throughout step MembersConsistent GroupCallReturns State.initial groupCalls :=
  members_consistent groupCalls (by decide +kernel)

/-- The first group still lists a link that was added to a second one. -/
theorem not_members_consistent_addedTwice : ¬ ∀ calls : List Call,
    Machine.EachStep step OnRegistered State.initial calls →
      Machine.Throughout step MembersConsistent GroupCallReturns State.initial calls := by
  intro hall
  have hthroughout := hall [.createLinks (.one (knownRx 0)) (.one (knownTx 0)),
    .createLinkGroups ["near end", "far end"], .add 0 [0], .add 1 [0]] (by decide +kernel)
  have hend := ((((hthroughout.2 _ rfl).2.2 _ rfl).2.2 _ rfl).2.2 _ rfl).2
  exact absurd ((hend.member 0 0).mpr (by decide +kernel)) (by decide +kernel)

end Chipscopy.Ibert
