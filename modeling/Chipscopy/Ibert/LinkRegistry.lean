import Chipscopy.Ibert.Link

/-! Consistency of the link registry

    The endpoints of a link, the registry of the links and the groups are changed one after the
    other, so that they agree only between the calls. A call that creates links for endpoints that
    are all free, and a call that deletes registered links, each once, leaves them in agreement. -/

namespace Chipscopy.Ibert

open Py (Outcome)

namespace State

/-- A link that the registry lists under some name. -/
def IsRegistered (s : State) (l : LinkId) : Prop := ∃ name, s.links.get? name = some l

/-- A group that the registry lists. -/
def IsRegisteredGroup (s : State) (g : GroupId) : Prop := ∃ name, s.linkGroups.get? name = some g

/-- The number of a name that is in use. -/
def Numbered (start : String) (last : ℤ) (name : String) : Prop :=
  ∃ n : ℕ, name = Py.numbered start n ∧ (n : ℤ) ≤ last

/-- What holds of the names and the groups between the calls. -/
structure GroupInv (s : State) : Prop where
  link : ∀ {name l}, s.links.get? name = some l →
    (s.link l).name = name ∧ l < s.linksMade ∧ Numbered linkNamePrefix s.lastLinkNumber name
  last : -1 ≤ s.lastLinkNumber
  listed : ∀ {g name l}, (s.group g).links.get? name = some l →
    (s.link l).linkGroup = some g ∧ s.links.get? name = some l
  member : ∀ {g l}, (s.link l).linkGroup = some g →
    (s.group g).links.get? (s.link l).name = some l
  group : ∀ {name g}, s.linkGroups.get? name = some g →
    (s.group g).name = name ∧ g < s.groupsMade ∧
      Numbered linkGroupNamePrefix s.lastLinkGroupNumber name
  lastGroup : -1 ≤ s.lastLinkGroupNumber
  grouped : ∀ {g name l}, (s.group g).links.get? name = some l → s.IsRegisteredGroup g

/-- With the endpoints. -/
structure Inv (s : State) : Prop extends GroupInv s where
  rx : ∀ {r l}, s.rxLink r = some l ↔ s.IsRegistered l ∧ (s.link l).rx = some r
  tx : ∀ {t l}, s.txLink t = some l ↔ s.IsRegistered l ∧ (s.link l).tx = some t

theorem inv_initial : Inv initial where
  link h := nomatch h
  last := le_rfl
  rx := by
    intro r l
    constructor
    · exact fun h => nomatch h
    · rintro ⟨⟨_, h⟩, -⟩
      exact nomatch h
  tx := by
    intro t l
    constructor
    · exact fun h => nomatch h
    · rintro ⟨⟨_, h⟩, -⟩
      exact nomatch h
  listed h := nomatch h
  member h := nomatch h
  group h := nomatch h
  lastGroup := le_rfl
  grouped h := nomatch h

variable {s : State} {l : LinkId} {g : GroupId}

theorem GroupInv.get?_name (h : GroupInv s) (hl : s.IsRegistered l) :
    s.links.get? (s.link l).name = some l := by
  obtain ⟨name, hname⟩ := hl
  rwa [(h.link hname).1]

theorem GroupInv.lt (h : GroupInv s) (hl : s.IsRegistered l) : l < s.linksMade := by
  obtain ⟨name, hname⟩ := hl
  exact (h.link hname).2.1

/-- The next name is not in use. -/
theorem next_unused (start : String) {last : ℤ} (hlast : -1 ≤ last) :
    ∃ n : ℕ, Py.numbered start (last + 1) = Py.numbered start n ∧ (n : ℤ) = last + 1 ∧
      ¬ Numbered start last (Py.numbered start (last + 1)) := by
  have hn : ((last + 1).toNat : ℤ) = last + 1 := Int.toNat_of_nonneg (by omega)
  refine ⟨(last + 1).toNat, by rw [hn], hn, ?_⟩
  rintro ⟨m, hname, hle⟩
  rw [← hn] at hname
  have hsame := Py.numbered_injective _ hname
  omega

theorem Numbered.mono {start : String} {last last' : ℤ} {name : String}
    (h : Numbered start last name) (hle : last ≤ last') : Numbered start last' name := by
  obtain ⟨n, hname, hn⟩ := h
  exact ⟨n, hname, hn.trans hle⟩

/-! ### A new link -/

/-- The endpoint, if any, gets the link. -/
def attach {α : Type} [DecidableEq α] (links : α → Option LinkId) (a : Option α) (l : LinkId) :
    α → Option LinkId :=
  match a with
  | some a => Function.update links a (some l)
  | none => links

theorem attach_apply {α : Type} [DecidableEq α] (links : α → Option LinkId) (a : Option α)
    (l : LinkId) (b : α) : attach links a l b = if a = some b then some l else links b := by
  cases a with
  | none => exact (if_neg (fun h => nomatch h)).symm
  | some a =>
    refine (Function.update_apply links a (some l) b).trans ?_
    simp [eq_comm]

/-- No endpoint of a pair is in use, and one is known. -/
structure Free (s : State) (pair : Option RX × Option TX) : Prop where
  known : ¬ (pair.1 = none ∧ pair.2 = none)
  rx : ∀ r, pair.1 = some r → s.rxLink r = none
  tx : ∀ t, pair.2 = some t → s.txLink t = none

/-- A link with the next number on a free pair. -/
def withLink (s : State) (pair : Option RX × Option TX) (handle : String) : State :=
  { s with
    link := Function.update s.link s.linksMade
      ⟨pair.1, pair.2, Py.numbered linkNamePrefix (s.lastLinkNumber + 1), handle, none⟩
    linksMade := s.linksMade + 1
    rxLink := attach s.rxLink pair.1 s.linksMade
    txLink := attach s.txLink pair.2 s.linksMade
    links := s.links.set (Py.numbered linkNamePrefix (s.lastLinkNumber + 1)) s.linksMade
    lastLinkNumber := s.lastLinkNumber + 1 }

section WithLink

variable {pair : Option RX × Option TX} {handle : String}

theorem withLink_link_of_ne (hl : l ≠ s.linksMade) :
    (s.withLink pair handle).link l = s.link l := Function.update_of_ne hl _ _

theorem withLink_link_self : (s.withLink pair handle).link s.linksMade =
    ⟨pair.1, pair.2, Py.numbered linkNamePrefix (s.lastLinkNumber + 1), handle, none⟩ :=
  Function.update_self _ _ _

theorem GroupInv.get?_next (h : GroupInv s) :
    s.links.get? (Py.numbered linkNamePrefix (s.lastLinkNumber + 1)) = none := by
  obtain ⟨-, -, -, hunused⟩ := next_unused linkNamePrefix h.last
  by_contra hsome
  obtain ⟨l, hl⟩ := Option.ne_none_iff_exists'.mp hsome
  exact hunused (h.link hl).2.2

theorem GroupInv.withLink_get? (h : GroupInv s) {name : String} :
    (s.withLink pair handle).links.get? name = some l ↔
      s.links.get? name = some l ∨
        name = Py.numbered linkNamePrefix (s.lastLinkNumber + 1) ∧ l = s.linksMade := by
  change (s.links.set _ _).get? name = some l ↔ _
  rcases eq_or_ne name (Py.numbered linkNamePrefix (s.lastLinkNumber + 1)) with rfl | hne
  · rw [Py.Dict.get?_set_self, h.get?_next]
    simp [eq_comm]
  · rw [Py.Dict.get?_set_ne _ hne]
    simp [hne]

theorem GroupInv.withLink_isRegistered (h : GroupInv s) :
    (s.withLink pair handle).IsRegistered l ↔ s.IsRegistered l ∨ l = s.linksMade := by
  constructor
  · rintro ⟨name, hname⟩
    rcases h.withLink_get?.mp hname with hold | ⟨-, hnew⟩
    · exact .inl ⟨name, hold⟩
    · exact .inr hnew
  · rintro (⟨name, hname⟩ | hnew)
    · exact ⟨name, h.withLink_get?.mpr (.inl hname)⟩
    · exact ⟨_, h.withLink_get?.mpr (.inr ⟨rfl, hnew⟩)⟩

/-- One side of the new link. -/
theorem attach_iff {α : Type} [DecidableEq α] {links : α → Option LinkId} {a : Option α}
    {attr : LinkId → Option α} (attr' : LinkId → Option α)
    {registered registered' : LinkId → Prop} {new : LinkId}
    (hlinks : ∀ {b l}, links b = some l ↔ registered l ∧ attr l = some b)
    (hfree : ∀ b, a = some b → links b = none) (hnew : ¬ registered new)
    (hregistered : ∀ {l}, registered' l ↔ registered l ∨ l = new)
    (hattr : ∀ {l}, l ≠ new → attr' l = attr l) (hself : attr' new = a) {b : α} {l : LinkId} :
    attach links a new b = some l ↔ registered' l ∧ attr' l = some b := by
  rw [attach_apply, hregistered]
  rcases eq_or_ne l new with rfl | hne
  · rw [hself]
    constructor
    · intro hsome
      refine ⟨.inr rfl, ?_⟩
      by_contra hother
      rw [if_neg hother] at hsome
      exact hnew (hlinks.mp hsome).1
    · rintro ⟨-, rfl⟩
      exact if_pos rfl
  · rw [hattr hne]
    constructor
    · intro hsome
      split_ifs at hsome with hb
      · exact absurd (Option.some.inj hsome).symm hne
      · have hold := hlinks.mp hsome
        exact ⟨.inl hold.1, hold.2⟩
    · rintro ⟨hold | hbad, hsome⟩
      · have hlink := hlinks.mpr ⟨hold, hsome⟩
        rw [if_neg fun hb => ?_]
        · exact hlink
        · rw [hfree b hb] at hlink
          exact nomatch hlink
      · exact absurd hbad hne

theorem GroupInv.withLink (h : GroupInv s) (pair : Option RX × Option TX) (handle : String) :
    GroupInv (s.withLink pair handle) := by
  have hne {l : LinkId} (hl : s.IsRegistered l) : l ≠ s.linksMade := (h.lt hl).ne
  obtain ⟨n, hname, hn, -⟩ := next_unused linkNamePrefix h.last
  refine {
    link := ?_, last := ?_, listed := ?_, member := ?_, group := h.group,
    lastGroup := h.lastGroup, grouped := h.grouped }
  · intro name l hl
    rcases h.withLink_get?.mp hl with hold | ⟨rfl, rfl⟩
    · obtain ⟨hn', hlt, hnum⟩ := h.link hold
      rw [withLink_link_of_ne hlt.ne]
      exact ⟨hn', hlt.trans (Nat.lt_succ_self _), hnum.mono (Int.le_add_one le_rfl)⟩
    · rw [withLink_link_self]
      exact ⟨rfl, Nat.lt_succ_self _, n, hname, hn.le⟩
  · exact h.last.trans (Int.le_add_one le_rfl)
  · intro g name l hl
    obtain ⟨hgroup, hget⟩ := h.listed hl
    rw [withLink_link_of_ne (hne ⟨name, hget⟩)]
    exact ⟨hgroup, h.withLink_get?.mpr (.inl hget)⟩
  · intro g l hl
    rcases eq_or_ne l s.linksMade with rfl | hl'
    · rw [withLink_link_self] at hl
      exact nomatch hl
    · rw [withLink_link_of_ne hl'] at hl ⊢
      exact h.member hl

theorem Inv.withLink (h : Inv s) (hfree : s.Free pair) (handle : String) :
    Inv (s.withLink pair handle) := by
  have hnew : ¬ s.IsRegistered s.linksMade := fun hl => Nat.lt_irrefl _ (h.lt hl)
  refine { toGroupInv := h.toGroupInv.withLink pair handle, rx := ?_, tx := ?_ }
  · intro r l
    exact attach_iff (fun l => ((s.withLink pair handle).link l).rx) h.rx hfree.rx hnew
      h.withLink_isRegistered (fun hl => by rw [withLink_link_of_ne hl]) (by rw [withLink_link_self])
  · intro t l
    exact attach_iff (fun l => ((s.withLink pair handle).link l).tx) h.tx hfree.tx hnew
      h.withLink_isRegistered (fun hl => by rw [withLink_link_of_ne hl]) (by rw [withLink_link_self])

end WithLink

/-! ### Creating links -/

/-- The constructor for a free pair. -/
theorem Link.new_of_free {pair : Option RX × Option TX} (h : s.Free pair) (name : String) :
    ∃ handle, Link.new pair.1 pair.2 name s = ({ s with
      link := Function.update s.link s.linksMade ⟨pair.1, pair.2, name, handle, none⟩
      linksMade := s.linksMade + 1
      rxLink := attach s.rxLink pair.1 s.linksMade
      txLink := attach s.txLink pair.2 s.linksMade }, none) := by
  rcases pair with ⟨rx, tx⟩
  rcases tx with - | t
  · rcases rx with - | r
    · exact absurd ⟨rfl, rfl⟩ h.known
    · have hr : s.rxLink r = none := h.rx r rfl
      refine ⟨"UnknownTX" ++ "-->" ++ r.handle, ?_⟩
      simp [Link.new, Outcome.andThen, hr, attach]
  · have ht : s.txLink t = none := h.tx t rfl
    rcases rx with - | r
    · refine ⟨"UnknownRX", ?_⟩
      simp [Link.new, Outcome.andThen, ht, attach]
    · have hr : s.rxLink r = none := h.rx r rfl
      refine ⟨t.handle ++ "-->" ++ r.handle, ?_⟩
      simp [Link.new, Outcome.andThen, ht, hr, attach]

/-- Two pairs without a common endpoint. -/
def Apart (p q : Option RX × Option TX) : Prop :=
  (∀ r, p.1 = some r → q.1 ≠ some r) ∧ ∀ t, p.2 = some t → q.2 ≠ some t

/-- The new links count as registered while they are made. -/
def CreateInv (pairs : List (Option RX × Option TX)) (v : State × List LinkId) : Prop :=
  Inv (v.1.register v.2) ∧ (∀ l ∈ v.2, l < v.1.linksMade) ∧ (∀ p ∈ pairs, v.1.Free p) ∧
    pairs.Pairwise Apart

theorem register_append (s : State) (newLinks : List LinkId) (l : LinkId) :
    s.register (newLinks ++ [l]) =
      { s with links := (s.register newLinks).links.set (s.link l).name l } := by
  rw [register, register, List.map_append]
  simp [Py.Dict.update]

/-- A link that is made before the new links are registered. -/
theorem register_new {newLinks : List LinkId} (hlt : ∀ l ∈ newLinks, l < s.linksMade)
    (pair : Option RX × Option TX) (handle : String) (rxLink : RX → Option LinkId)
    (txLink : TX → Option LinkId) :
    ({ s with
      lastLinkNumber := s.lastLinkNumber + 1
      link := Function.update s.link s.linksMade
        ⟨pair.1, pair.2, Py.numbered linkNamePrefix (s.lastLinkNumber + 1), handle, none⟩
      linksMade := s.linksMade + 1
      rxLink := rxLink
      txLink := txLink } : State).register (newLinks ++ [s.linksMade]) =
    { (s.register newLinks).withLink pair handle with rxLink := rxLink, txLink := txLink } := by
  have hnames : newLinks.map (fun l => ((Function.update s.link s.linksMade
      ⟨pair.1, pair.2, Py.numbered linkNamePrefix (s.lastLinkNumber + 1), handle, none⟩ l).name,
      l)) = newLinks.map fun l => ((s.link l).name, l) := by
    refine List.map_congr_left fun l hl => ?_
    rw [Function.update_of_ne (hlt l hl).ne]
  rw [register_append, register]
  dsimp only
  rw [hnames, Function.update_self]
  rfl

theorem createLink_spec {p : Option RX × Option TX} {pairs : List (Option RX × Option TX)}
    {v : State × List LinkId} (h : CreateInv (p :: pairs) v) :
    ∃ v', createLink p v = (v', none) ∧ CreateInv pairs v' := by
  rcases v with ⟨s, newLinks⟩
  obtain ⟨hinv, hlt, hfree, hapart⟩ := h
  obtain ⟨hp, hrest⟩ := List.forall_mem_cons.mp hfree
  obtain ⟨hfirst, hapart⟩ := List.pairwise_cons.mp hapart
  have hfree' : ({ s with lastLinkNumber := s.lastLinkNumber + 1 } : State).Free p :=
    ⟨hp.known, hp.rx, hp.tx⟩
  obtain ⟨handle, hnew⟩ := Link.new_of_free hfree'
    (Py.numbered linkNamePrefix (s.lastLinkNumber + 1))
  let s' : State := { s with
    lastLinkNumber := s.lastLinkNumber + 1
    link := Function.update s.link s.linksMade
      ⟨p.1, p.2, Py.numbered linkNamePrefix (s.lastLinkNumber + 1), handle, none⟩
    linksMade := s.linksMade + 1
    rxLink := attach s.rxLink p.1 s.linksMade
    txLink := attach s.txLink p.2 s.linksMade }
  refine ⟨(s', newLinks ++ [s.linksMade]), ?_, ?_, ?_, ?_, hapart⟩
  · rw [createLink]
    dsimp only
    rw [hnew]
  · have hview : s'.register (newLinks ++ [s.linksMade]) =
        (s.register newLinks).withLink p handle := register_new hlt p handle _ _
    rw [hview]
    exact hinv.withLink ⟨hp.known, hp.rx, hp.tx⟩ handle
  · intro l hl
    rcases List.mem_append.mp hl with hold | hnew
    · exact (hlt l hold).trans (Nat.lt_succ_self _)
    · rw [List.mem_singleton.mp hnew]
      exact Nat.lt_succ_self _
  · intro q hq
    have hq' := hrest q hq
    have hapq := hfirst q hq
    refine ⟨hq'.known, fun r hr => ?_, fun t ht => ?_⟩
    · change attach s.rxLink p.1 s.linksMade r = none
      rw [attach_apply, if_neg fun hpr => hapq.1 r hpr hr]
      exact hq'.rx r hr
    · change attach s.txLink p.2 s.linksMade t = none
      rw [attach_apply, if_neg fun hpt => hapq.2 t hpt ht]
      exact hq'.tx t ht

/-- All endpoints are free, and no two pairs have one in common. -/
def AllFree (s : State) (pairs : List (Option RX × Option TX)) : Prop :=
  (∀ p ∈ pairs, s.Free p) ∧ pairs.Pairwise Apart

theorem Inv.createLinks (h : Inv s) {rxs : Argument RX} {txs : Argument TX}
    {ps : List (Option RX × Option TX)} (hpairs : pairs rxs txs = .ok ps) (hfree : s.AllFree ps) :
    ∃ s', s.createLinks rxs txs = (s', none) ∧ Inv s' := by
  have hstart : CreateInv ps (s, []) :=
    ⟨h, List.forall_mem_nil _, hfree.1, hfree.2⟩
  obtain ⟨⟨s', newLinks⟩, hloop, hdone⟩ := Outcome.loop_ok (f := createLink)
    (P := CreateInv) (fun _ _ _ hv => createLink_spec hv) ps hstart
  refine ⟨s'.register newLinks, ?_, hdone.1⟩
  rw [State.createLinks, hpairs]
  dsimp only
  rw [hloop]

/-- With an object that nothing refers to. -/
def withObject (s : State) (x : Ibert.Link) : State :=
  { s with link := Function.update s.link s.linksMade x, linksMade := s.linksMade + 1 }

theorem GroupInv.withObject_link (h : GroupInv s) {x : Ibert.Link} (hl : s.IsRegistered l) :
    (s.withObject x).link l = s.link l := Function.update_of_ne (h.lt hl).ne _ _

theorem GroupInv.withObject (h : GroupInv s) {x : Ibert.Link} (hx : x.linkGroup = none) :
    GroupInv (s.withObject x) := by
  refine {
    link := ?_, last := h.last, listed := ?_, member := ?_, group := h.group,
    lastGroup := h.lastGroup, grouped := h.grouped }
  · intro name l hl
    obtain ⟨hname, hlt, hnum⟩ := h.link hl
    rw [h.withObject_link ⟨name, hl⟩]
    exact ⟨hname, hlt.trans (Nat.lt_succ_self _), hnum⟩
  · intro g name l hl
    obtain ⟨hgroup, hget⟩ := h.listed hl
    rw [h.withObject_link ⟨name, hget⟩]
    exact ⟨hgroup, hget⟩
  · intro g l hl
    rcases eq_or_ne l s.linksMade with rfl | hne
    · rw [show (s.withObject x).link s.linksMade = x from Function.update_self _ _ _, hx] at hl
      exact nomatch hl
    · have hlink : (s.withObject x).link l = s.link l := Function.update_of_ne hne _ _
      rw [hlink] at hl ⊢
      exact h.member hl

theorem Inv.withObject (h : Inv s) {x : Ibert.Link} (hx : x.linkGroup = none) :
    Inv (s.withObject x) := by
  refine { toGroupInv := h.toGroupInv.withObject hx, rx := ?_, tx := ?_ }
  · intro r l
    exact h.rx.trans (and_congr_right fun hl => by rw [h.withObject_link hl])
  · intro t l
    exact h.tx.trans (and_congr_right fun hl => by rw [h.withObject_link hl])

/-- What a caller sees of the links. -/
structure SameLinks (s s' : State) : Prop where
  rxLink : s'.rxLink = s.rxLink
  txLink : s'.txLink = s.txLink
  links : s'.links = s.links
  lastLinkNumber : s'.lastLinkNumber = s.lastLinkNumber

theorem SameLinks.refl (s : State) : s.SameLinks s := ⟨rfl, rfl, rfl, rfl⟩

/-- A pair whose link is refused before an endpoint has got it. -/
def RefusedAtOnce (s : State) (pair : Option RX × Option TX) : Prop :=
  match pair with
  | (none, none) => True
  | (_, some t) => s.txLink t ≠ none
  | (some r, none) => s.rxLink r ≠ none

theorem Link.new_of_refused {pair : Option RX × Option TX} (h : s.RefusedAtOnce pair)
    (name : String) :
    ∃ x, x.linkGroup = none ∧ ∃ e, Link.new pair.1 pair.2 name s = (s.withObject x, some e) := by
  rcases pair with ⟨- | r, - | t⟩
  · refine ⟨⟨none, none, name, "", none⟩, rfl, ?_⟩
    simp only [Link.new, and_self, if_true]
    exact ⟨_, rfl⟩
  · obtain ⟨l', hl'⟩ := Option.ne_none_iff_exists'.mp h
    refine ⟨⟨none, some t, name, "", none⟩, rfl, ?_⟩
    simp only [Link.new, reduceCtorEq, and_false, if_false, hl']
    exact ⟨_, rfl⟩
  · obtain ⟨l', hl'⟩ := Option.ne_none_iff_exists'.mp h
    refine ⟨⟨some r, none, name, "UnknownTX" ++ "-->", none⟩, rfl, ?_⟩
    simp [Link.new, Outcome.andThen, hl', withObject]
  · obtain ⟨l', hl'⟩ := Option.ne_none_iff_exists'.mp h
    refine ⟨⟨some r, some t, name, "", none⟩, rfl, ?_⟩
    simp only [Link.new, reduceCtorEq, and_false, if_false, hl']
    exact ⟨_, rfl⟩

theorem createLink_refused {p : Option RX × Option TX} (hrefused : s.RefusedAtOnce p)
    (newLinks : List LinkId) : ∃ x : Ibert.Link, x.linkGroup = none ∧
      ∃ e, createLink p (s, newLinks) = ((s.withObject x, newLinks), some e) := by
  have hrefused' : ({ s with lastLinkNumber := s.lastLinkNumber + 1 } : State).RefusedAtOnce p := by
    rcases p with ⟨- | r, - | t⟩
    all_goals exact hrefused
  obtain ⟨x, hx, e, hnew⟩ := Link.new_of_refused hrefused'
    (Py.numbered linkNamePrefix (s.lastLinkNumber + 1))
  refine ⟨x, hx, e, ?_⟩
  rw [createLink]
  dsimp only
  rw [hnew]
  simp only [State.withObject, add_sub_cancel_right]

theorem Inv.createLinks_refused (h : Inv s) {rxs : Argument RX} {txs : Argument TX}
    {p : Option RX × Option TX} {ps : List (Option RX × Option TX)}
    (hpairs : pairs rxs txs = .ok (p :: ps)) (hrefused : s.RefusedAtOnce p) :
    ∃ s' e, s.createLinks rxs txs = (s', some e) ∧ Inv s' ∧ s.SameLinks s' := by
  obtain ⟨x, hx, e, hcreate⟩ := createLink_refused hrefused []
  refine ⟨s.withObject x, e, ?_, h.withObject hx, ⟨rfl, rfl, rfl, rfl⟩⟩
  rw [State.createLinks, hpairs]
  dsimp only
  rw [Outcome.loop_cons_raised hcreate]

/-! ### Deleting links -/

/-- The endpoint, if any, loses its link. -/
def detach {α : Type} [DecidableEq α] (links : α → Option LinkId) (a : Option α) :
    α → Option LinkId :=
  match a with
  | some a => Function.update links a none
  | none => links

theorem detach_apply {α : Type} [DecidableEq α] (links : α → Option LinkId) (a : Option α)
    (b : α) : detach links a b = if a = some b then none else links b := by
  cases a with
  | none => exact (if_neg (fun h => nomatch h)).symm
  | some a =>
    refine (Function.update_apply links a none b).trans ?_
    simp [eq_comm]

/-- Without a registered link. -/
def withoutLink (s : State) (l : LinkId) : State :=
  { s with
    link := Function.update s.link l ⟨none, none, "", "", none⟩
    rxLink := detach s.rxLink (s.link l).rx
    txLink := detach s.txLink (s.link l).tx
    group := match (s.link l).linkGroup with
      | some g => Function.update s.group g { s.group g with
          links := (s.group g).links.erase (s.link l).name }
      | none => s.group
    links := s.links.erase (s.link l).name }

theorem Link.invalidate_eq (s : State) (l : LinkId) :
    Link.invalidate l s =
      (match (s.link l).linkGroup with
        | some g => LinkGroup.remove g (some [l]) { s with
            rxLink := detach s.rxLink (s.link l).rx, txLink := detach s.txLink (s.link l).tx }
        | none => ({ s with
            rxLink := detach s.rxLink (s.link l).rx, txLink := detach s.txLink (s.link l).tx },
            none)).andThen fun s =>
        ({ s with link := Function.update s.link l ⟨none, none, "", "", none⟩ }, none) := by
  rw [Link.invalidate]
  rcases hrx : (s.link l).rx with - | r
  · rcases htx : (s.link l).tx with - | t
    · rfl
    · rfl
  · rcases htx : (s.link l).tx with - | t
    · rfl
    · rfl

theorem LinkGroup.remove_single {name : String} (hname : (s.link l).name = name)
    (hl : (s.group g).links.get? name = some l) :
    LinkGroup.remove g (some [l]) s = ((s.setLinkGroup l none).setGroupLinks g
      ((s.group g).links.erase name), none) := by
  have hname' : ((s.setLinkGroup l none).link l).name = name := by
    simp [setLinkGroup, hname]
  have hgroup : (s.setLinkGroup l none).group = s.group := rfl
  simp [LinkGroup.remove, Outcome.loop, LinkGroup.removeLink, hname', hgroup, hl, Outcome.andThen]

theorem GroupInv.deleteLink (h : GroupInv s) (hl : s.IsRegistered l) :
    State.deleteLink l s = (s.withoutLink l, none) := by
  have hget := h.get?_name hl
  rw [State.deleteLink]
  simp only [hget]
  rw [Link.invalidate_eq]
  rcases hgroup : (s.link l).linkGroup with - | g
  · simp [Outcome.andThen, withoutLink, hgroup]
  · have hmember := h.member hgroup
    dsimp only
    rw [LinkGroup.remove_single (s := { s with
      rxLink := detach s.rxLink (s.link l).rx, txLink := detach s.txLink (s.link l).tx }) rfl hmember]
    simp [Outcome.andThen, withoutLink, hgroup, setLinkGroup, setGroupLinks]

/-- What is registered without a link. -/
theorem GroupInv.withoutLink_get? (h : GroupInv s) (hl : s.IsRegistered l) {name : String} {l' : LinkId} :
    (s.withoutLink l).links.get? name = some l' ↔ s.links.get? name = some l' ∧ l' ≠ l := by
  have hget := h.get?_name hl
  change (s.links.erase (s.link l).name).get? name = some l' ↔ _
  rcases eq_or_ne name (s.link l).name with rfl | hne
  · rw [Py.Dict.get?_erase_self, hget]
    simp [eq_comm]
  · rw [Py.Dict.get?_erase_ne _ hne]
    refine (and_iff_left_of_imp fun hl' => ?_).symm
    rintro rfl
    exact hne (h.link hl').1.symm

/-- What the groups list without it. -/
theorem GroupInv.withoutLink_listed (h : GroupInv s) {name : String} {l' : LinkId} {g : GroupId} :
    ((s.withoutLink l).group g).links.get? name = some l' ↔
      (s.group g).links.get? name = some l' ∧ l' ≠ l := by
  rcases hgroup : (s.link l).linkGroup with - | g'
  · have heq : (s.withoutLink l).group = s.group := by simp [withoutLink, hgroup]
    rw [heq]
    refine (and_iff_left_of_imp fun hl' => ?_).symm
    rintro rfl
    rw [(h.listed hl').1] at hgroup
    exact nomatch hgroup
  · have heq : (s.withoutLink l).group = Function.update s.group g' { s.group g' with
        links := (s.group g').links.erase (s.link l).name } := by simp [withoutLink, hgroup]
    have hmember := h.member hgroup
    rw [heq]
    rcases eq_or_ne g g' with rfl | hne
    · rw [Function.update_self]
      rcases eq_or_ne name (s.link l).name with rfl | hname
      · rw [Py.Dict.get?_erase_self, hmember]
        simp [eq_comm]
      · rw [Py.Dict.get?_erase_ne _ hname]
        refine (and_iff_left_of_imp fun hl' => ?_).symm
        rintro rfl
        exact hname (h.link (h.listed hl').2).1.symm
    · rw [Function.update_of_ne hne]
      refine (and_iff_left_of_imp fun hl' => ?_).symm
      rintro rfl
      rw [(h.listed hl').1] at hgroup
      exact hne (Option.some.inj hgroup)

theorem withoutLink_link_of_ne {l' : LinkId} (hne : l' ≠ l) :
    (s.withoutLink l).link l' = s.link l' := Function.update_of_ne hne _ _

theorem GroupInv.withoutLink_isRegistered (h : GroupInv s) (hl : s.IsRegistered l) {l' : LinkId} :
    (s.withoutLink l).IsRegistered l' ↔ s.IsRegistered l' ∧ l' ≠ l := by
  constructor
  · rintro ⟨name, hname⟩
    obtain ⟨hold, hne⟩ := (h.withoutLink_get? hl).mp hname
    exact ⟨⟨name, hold⟩, hne⟩
  · rintro ⟨⟨name, hname⟩, hne⟩
    exact ⟨name, (h.withoutLink_get? hl).mpr ⟨hname, hne⟩⟩

/-- One side without the link. -/
theorem detach_iff {α : Type} [DecidableEq α] {links : α → Option LinkId}
    {attr : LinkId → Option α} (attr' : LinkId → Option α)
    {registered registered' : LinkId → Prop} {old : LinkId}
    (hlinks : ∀ {b l}, links b = some l ↔ registered l ∧ attr l = some b) (hold : registered old)
    (hregistered : ∀ {l}, registered' l ↔ registered l ∧ l ≠ old)
    (hattr : ∀ {l}, l ≠ old → attr' l = attr l) {b : α} {l : LinkId} :
    detach links (attr old) b = some l ↔ registered' l ∧ attr' l = some b := by
  rw [detach_apply, hregistered]
  split_ifs with hb
  · constructor
    · exact fun h => nomatch h
    · rintro ⟨⟨hl, hne⟩, hattr'⟩
      rw [hattr hne] at hattr'
      have h₁ := hlinks.mpr ⟨hl, hattr'⟩
      rw [hlinks.mpr ⟨hold, hb⟩] at h₁
      exact absurd (Option.some.inj h₁).symm hne
  · rw [hlinks]
    constructor
    · rintro ⟨hl, hattr'⟩
      have hne : l ≠ old := by
        rintro rfl
        exact hb hattr'
      exact ⟨⟨hl, hne⟩, (hattr hne).trans hattr'⟩
    · rintro ⟨⟨hl, hne⟩, hattr'⟩
      exact ⟨hl, (hattr hne).symm.trans hattr'⟩

theorem withoutLink_group_name (s : State) (l : LinkId) (g : GroupId) :
    ((s.withoutLink l).group g).name = (s.group g).name := by
  rcases hgroup : (s.link l).linkGroup with - | g'
  · simp [State.withoutLink, hgroup]
  · rcases eq_or_ne g g' with rfl | hne
    · simp [State.withoutLink, hgroup]
    · simp [State.withoutLink, hgroup, hne]

theorem GroupInv.withoutLink (h : GroupInv s) (hl : s.IsRegistered l) :
    GroupInv (s.withoutLink l) := by
  refine {
    link := ?_, last := h.last, listed := ?_, member := ?_, group := ?_,
    lastGroup := h.lastGroup, grouped := ?_ }
  · intro name l' hl'
    obtain ⟨hold, hne⟩ := (h.withoutLink_get? hl).mp hl'
    rw [withoutLink_link_of_ne hne]
    exact h.link hold
  · intro g name l' hl'
    obtain ⟨hold, hne⟩ := h.withoutLink_listed.mp hl'
    obtain ⟨hgroup, hget⟩ := h.listed hold
    rw [withoutLink_link_of_ne hne]
    exact ⟨hgroup, (h.withoutLink_get? hl).mpr ⟨hget, hne⟩⟩
  · intro g l' hl'
    rcases eq_or_ne l' l with rfl | hne
    · rw [show (s.withoutLink l').link l' = ⟨none, none, "", "", none⟩ from
        Function.update_self _ _ _] at hl'
      exact nomatch hl'
    · rw [withoutLink_link_of_ne hne] at hl' ⊢
      exact h.withoutLink_listed.mpr ⟨h.member hl', hne⟩
  · intro name g hg
    rw [withoutLink_group_name]
    exact h.group hg
  · intro g name l' hl'
    exact h.grouped (h.withoutLink_listed.mp hl').1

theorem Inv.withoutLink (h : Inv s) (hl : s.IsRegistered l) : Inv (s.withoutLink l) := by
  refine { toGroupInv := h.toGroupInv.withoutLink hl, rx := ?_, tx := ?_ }
  · intro r l'
    exact detach_iff (fun l' => ((s.withoutLink l).link l').rx) h.rx hl
      (h.withoutLink_isRegistered hl) (fun hne => by rw [withoutLink_link_of_ne hne])
  · intro t l'
    exact detach_iff (fun l' => ((s.withoutLink l).link l').tx) h.tx hl
      (h.withoutLink_isRegistered hl) (fun hne => by rw [withoutLink_link_of_ne hne])

/-- The numbering starts again when no link is left. -/
def resetNumber (s : State) : State :=
  if s.links.size = 0 then { s with lastLinkNumber := -1 } else s

theorem GroupInv.resetNumber (h : GroupInv s) : GroupInv s.resetNumber := by
  rw [State.resetNumber]
  split_ifs with hempty
  · refine { h with link := ?_, last := le_rfl }
    intro name l hl
    have hmem := (Py.Dict.get?_eq_some_iff _).mp hl
    rw [List.length_eq_zero_iff.mp hempty] at hmem
    exact nomatch hmem
  · exact h

theorem Inv.resetNumber (h : Inv s) : Inv s.resetNumber := by
  refine { toGroupInv := h.toGroupInv.resetNumber, rx := ?_, tx := ?_ }
  · intro r l
    rw [State.resetNumber]
    split_ifs
    · exact h.rx
    · exact h.rx
  · intro t l
    rw [State.resetNumber]
    split_ifs
    · exact h.tx
    · exact h.tx

/-- Registered links, each once. -/
def DistinctLinks (s : State) (links : List LinkId) : Prop :=
  links.Nodup ∧ ∀ l ∈ links, s.IsRegistered l

/-- A property that includes the invariant of the groups and that a deleted link keeps. -/
theorem deleteLinks_keep {J : State → Prop} (hgroups : ∀ {s}, J s → GroupInv s)
    (hwithout : ∀ {s l}, J s → s.IsRegistered l → J (s.withoutLink l))
    (hreset : ∀ {s}, J s → J s.resetNumber) {links : List LinkId} (h : J s)
    (hlinks : s.DistinctLinks links) :
    ∃ s', s.deleteLinks (some links) = (s', none) ∧ J s' := by
  have hstep (l : LinkId) (ls : List LinkId) (s : State) (h : J s ∧ s.DistinctLinks (l :: ls)) :
      ∃ s', State.deleteLink l s = (s', none) ∧ (J s' ∧ s'.DistinctLinks ls) := by
    obtain ⟨hs, hnodup, hall⟩ := h
    obtain ⟨hnew, hrest⟩ := List.nodup_cons.mp hnodup
    obtain ⟨hl, hls⟩ := List.forall_mem_cons.mp hall
    refine ⟨_, (hgroups hs).deleteLink hl, hwithout hs hl, hrest, fun l' hl' => ?_⟩
    refine ((hgroups hs).withoutLink_isRegistered hl).mpr ⟨hls l' hl', ?_⟩
    rintro rfl
    exact hnew hl'
  obtain ⟨s', hloop, hdone, -⟩ := Outcome.loop_ok
    (P := fun ls s => J s ∧ s.DistinctLinks ls) hstep links ⟨h, hlinks⟩
  refine ⟨s'.resetNumber, ?_, hreset hdone⟩
  rw [State.deleteLinks, Option.getD_some, hloop]
  rfl

theorem Inv.deleteLinks (h : Inv s) {links : List LinkId} (hlinks : s.DistinctLinks links) :
    ∃ s', s.deleteLinks (some links) = (s', none) ∧ Inv s' :=
  deleteLinks_keep Inv.toGroupInv Inv.withoutLink Inv.resetNumber h hlinks

/-- All registered links, each once. -/
theorem GroupInv.distinct_values (h : GroupInv s) : s.DistinctLinks s.links.values := by
  have hentry {e : String × LinkId} (he : e ∈ s.links.entries) : s.links.get? e.1 = some e.2 :=
    (Py.Dict.get?_eq_some_iff _).mpr he
  constructor
  · have hnames : s.links.values.map (fun l => (s.link l).name) = s.links.keys := by
      rw [Py.Dict.values, List.map_map]
      exact List.map_congr_left fun e he => (h.link (hentry he)).1
    refine List.Nodup.of_map (fun l => (s.link l).name) ?_
    rw [hnames]
    exact s.links.nodup
  · intro l hl
    obtain ⟨e, he, rfl⟩ := List.mem_map.mp hl
    exact ⟨e.1, hentry he⟩

theorem deleteLinks_raised {l : LinkId} {ls : List LinkId}
    (hl : s.links.get? (s.link l).name = none) :
    s.deleteLinks (some (l :: ls)) = (s, some (.keyError (s.link l).name)) := by
  have hfirst : State.deleteLink l s = (s, some (.keyError (s.link l).name)) := by
    rw [State.deleteLink]
    simp only [hl]
  rw [State.deleteLinks, Option.getD_some, Outcome.loop_cons_raised hfirst]
  rfl

end State

/-! ### Conditions of the calls -/

/-- A call that creates or deletes links, and raises only before it has changed anything. -/
def LinkCallOk (s : State) : Call → Prop
  | .createLinks rxs txs =>
    match State.pairs rxs txs with
    | .error _ => True
    | .ok [] => True
    | .ok (p :: ps) => s.AllFree (p :: ps) ∨ s.RefusedAtOnce p
  | .deleteLinks none => True
  | .deleteLinks (some links) =>
    s.DistinctLinks links ∨ ∃ l ls, links = l :: ls ∧ s.links.get? (s.link l).name = none
  | _ => False

/-! ### Conditions that can be evaluated -/

namespace State

instance {s : State} {l : LinkId} : Decidable (s.IsRegistered l) :=
  decidable_of_iff (l ∈ s.links.values) (by
    constructor
    · intro hl
      obtain ⟨e, he, rfl⟩ := List.mem_map.mp hl
      exact ⟨e.1, (Py.Dict.get?_eq_some_iff _).mpr he⟩
    · rintro ⟨name, hname⟩
      exact List.mem_map.mpr ⟨(name, l), (Py.Dict.get?_eq_some_iff _).mp hname, rfl⟩)

instance {s : State} {pair : Option RX × Option TX} : Decidable (s.Free pair) :=
  decidable_of_iff (¬ (pair.1 = none ∧ pair.2 = none) ∧
    (∀ r ∈ pair.1, s.rxLink r = none) ∧ ∀ t ∈ pair.2, s.txLink t = none)
    ⟨fun h => ⟨h.1, h.2.1, h.2.2⟩, fun h => ⟨h.known, h.rx, h.tx⟩⟩

instance {p q : Option RX × Option TX} : Decidable (Apart p q) :=
  inferInstanceAs (Decidable ((∀ r ∈ p.1, q.1 ≠ some r) ∧ ∀ t ∈ p.2, q.2 ≠ some t))

instance {s : State} {pairs : List (Option RX × Option TX)} : Decidable (s.AllFree pairs) :=
  inferInstanceAs (Decidable ((∀ p ∈ pairs, s.Free p) ∧ pairs.Pairwise Apart))

instance {s : State} {pair : Option RX × Option TX} : Decidable (s.RefusedAtOnce pair) :=
  match pair with
  | (none, none) => inferInstanceAs (Decidable True)
  | (none, some t) => inferInstanceAs (Decidable (s.txLink t ≠ none))
  | (some _, some t) => inferInstanceAs (Decidable (s.txLink t ≠ none))
  | (some r, none) => inferInstanceAs (Decidable (s.rxLink r ≠ none))

instance {s : State} {links : List LinkId} : Decidable (s.DistinctLinks links) :=
  inferInstanceAs (Decidable (links.Nodup ∧ ∀ l ∈ links, s.IsRegistered l))

instance {s : State} {links : List LinkId} :
    Decidable (∃ l ls, links = l :: ls ∧ s.links.get? (s.link l).name = none) :=
  match links with
  | [] => .isFalse fun ⟨_, _, h, _⟩ => nomatch h
  | l :: ls => decidable_of_iff (s.links.get? (s.link l).name = none) (by
    constructor
    · exact fun h => ⟨l, ls, rfl, h⟩
    · rintro ⟨l', ls', heq, h⟩
      obtain ⟨rfl, rfl⟩ := List.cons.inj heq
      exact h)

end State

instance {s : State} {call : Call} : Decidable (LinkCallOk s call) :=
  match call with
  | .createLinks rxs txs =>
    match h : State.pairs rxs txs with
    | .error _ => .isTrue (by rw [LinkCallOk, h]; trivial)
    | .ok [] => .isTrue (by rw [LinkCallOk, h]; trivial)
    | .ok (p :: ps) => decidable_of_iff (s.AllFree (p :: ps) ∨ s.RefusedAtOnce p)
        (by rw [LinkCallOk, h])
  | .deleteLinks none => inferInstanceAs (Decidable True)
  | .deleteLinks (some links) => inferInstanceAs (Decidable (s.DistinctLinks links ∨
      ∃ l ls, links = l :: ls ∧ s.links.get? (s.link l).name = none))
  | .createLinkGroups _ => inferInstanceAs (Decidable False)
  | .deleteLinkGroups _ _ => inferInstanceAs (Decidable False)
  | .add _ _ => inferInstanceAs (Decidable False)
  | .remove _ _ => inferInstanceAs (Decidable False)

/-! ### Runs -/

/-- An endpoint knows the registered link that it is part of, and links are stored under their
    names. -/
structure LinksConsistent (s : State) : Prop where
  rx : ∀ r l, s.rxLink r = some l ↔ s.IsRegistered l ∧ (s.link l).rx = some r
  tx : ∀ t l, s.txLink t = some l ↔ s.IsRegistered l ∧ (s.link l).tx = some t
  name : ∀ name l, s.links.get? name = some l ↔ s.IsRegistered l ∧ (s.link l).name = name

/-- A call that raises leaves the links as they were. -/
def LinksAtomic (s : State) (call : Call) (s' : State) : Prop :=
  (call.perform s).2.isSome → s.SameLinks s'

theorem State.Inv.linksConsistent {s : State} (h : s.Inv) : LinksConsistent s where
  rx _ _ := h.rx
  tx _ _ := h.tx
  name name l := by
    constructor
    · exact fun hl => ⟨⟨name, hl⟩, (h.link hl).1⟩
    · rintro ⟨hl, rfl⟩
      exact h.get?_name hl

/-- One call. -/
theorem State.Inv.linkCall {s s' : State} {call : Call} (h : s.Inv) (hok : LinkCallOk s call)
    (hstep : step s call = some s') : s'.Inv ∧ LinksAtomic s call s' := by
  obtain rfl := Option.some.inj hstep
  have hdone {s₁ : State} (hperform : call.perform s = (s₁, none)) (hinv : s₁.Inv) :
      (call.perform s).1.Inv ∧ LinksAtomic s call (call.perform s).1 := by
    rw [LinksAtomic, hperform]
    exact ⟨hinv, fun hraised => nomatch hraised⟩
  have hraised {s₁ : State} {e : Py.Error} (hperform : call.perform s = (s₁, some e))
      (hinv : s₁.Inv) (hsame : s.SameLinks s₁) :
      (call.perform s).1.Inv ∧ LinksAtomic s call (call.perform s).1 := by
    rw [LinksAtomic, hperform]
    exact ⟨hinv, fun _ => hsame⟩
  cases call with
  | createLinks rxs txs =>
    cases hpairs : State.pairs rxs txs with
    | error e =>
      refine hraised (e := e) ?_ h (State.SameLinks.refl s)
      rw [Call.perform, State.createLinks, hpairs]
    | ok ps =>
      cases ps with
      | nil =>
        obtain ⟨s₁, hcreate, hinv⟩ := h.createLinks hpairs ⟨List.forall_mem_nil _, .nil⟩
        exact hdone hcreate hinv
      | cons p ps =>
        rw [LinkCallOk, hpairs] at hok
        rcases hok with hfree | hrefused
        · obtain ⟨s₁, hcreate, hinv⟩ := h.createLinks hpairs hfree
          exact hdone hcreate hinv
        · obtain ⟨s₁, e, hcreate, hinv, hsame⟩ := h.createLinks_refused hpairs hrefused
          exact hraised hcreate hinv hsame
  | deleteLinks links =>
    cases links with
    | none =>
      obtain ⟨s₁, hdelete, hinv⟩ := h.deleteLinks h.distinct_values
      exact hdone hdelete hinv
    | some links =>
      rcases hok with hdistinct | ⟨l, ls, rfl, hl⟩
      · obtain ⟨s₁, hdelete, hinv⟩ := h.deleteLinks hdistinct
        exact hdone hdelete hinv
      · exact hraised (State.deleteLinks_raised hl) h (State.SameLinks.refl s)
  | createLinkGroups descriptions => exact absurd hok id
  | deleteLinkGroups groups deleteLinksInGroup => exact absurd hok id
  | add group links => exact absurd hok id
  | remove group links => exact absurd hok id

/-- The registry is consistent in all runs whose calls raise before they have changed anything. -/
theorem links_consistent (calls : List Call)
    (hcalls : Machine.EachStep step LinkCallOk State.initial calls) :
    Machine.Throughout step LinksConsistent LinksAtomic State.initial calls :=
  Machine.Throughout.of_inv (fun h => h.linksConsistent)
    (fun h hok hstep => h.linkCall hok hstep) calls State.inv_initial hcalls

/-- The endpoints of two channels of one quad. -/
private def rx0 : RX := ⟨0, "Quad_205.RX_0"⟩
private def rx1 : RX := ⟨1, "Quad_205.RX_1"⟩
private def tx0 : TX := ⟨0, "Quad_205.TX_0"⟩
private def tx1 : TX := ⟨1, "Quad_205.TX_1"⟩

/-- Two links, one for a transmitter that is not free, and one again after it was deleted. -/
private def linkCalls : List Call :=
  [.createLinks (.list [.known rx0, .unknown "Unknown"]) (.list [.known tx0, .known tx1]),
    .createLinks (.one (.known rx1)) (.one (.known tx0)),
    .deleteLinks (some [0]),
    .createLinks (.one (.known rx1)) (.one (.known tx0)),
    .deleteLinks none]

theorem links_consistent_again :
    Machine.Throughout step LinksConsistent LinksAtomic State.initial linkCalls :=
  links_consistent linkCalls (by decide +kernel)

/-- The transmitter has got the link before the receiver turns out to be in use. -/
theorem not_links_consistent_rxInUse : ¬ ∀ calls : List Call,
    (∀ call ∈ calls, (∃ rxs txs, call = .createLinks rxs txs) ∨ ∃ ls, call = .deleteLinks ls) →
      Machine.Throughout step LinksConsistent LinksAtomic State.initial calls := by
  intro hall
  have hthroughout := hall [.createLinks (.one (.known rx0)) (.one (.known tx0)),
    .createLinks (.one (.known rx0)) (.one (.known tx1))] (by
      intro call hcall
      rcases List.mem_pair.mp hcall with rfl | rfl
      · exact .inl ⟨_, _, rfl⟩
      · exact .inl ⟨_, _, rfl⟩)
  have hatomic := ((hthroughout.2 _ rfl).2.2 _ rfl).1 (by decide +kernel)
  have htx := congrFun hatomic.txLink tx1
  exact absurd htx (by decide +kernel)

end Chipscopy.Ibert
