import Chipscopy.Ibert.DetectLinks

/-! What the detection finds

    A transmitter that was given the second pattern keeps it until the end. A receiver is therefore
    found to be locked only if no receiver before it has had its transmitter changed: none whose
    transmitter comes later in the list, and none with a transmitter outside of the list that sends
    the first pattern. -/

namespace Chipscopy.Ibert

open Py (Outcome)

/-! ### Saved registers -/

section Registers

variable {α : Type} [DecidableEq α] {handle : α → String}

theorem save_spec (l : List α) (hnodup : (l.map handle).Nodup) (saved : Py.Dict String String)
    (f : α → String) :
    (∀ a ∈ l, (l.foldl (saveRegister handle) (saved, f)).1.get? (handle a) = some (f a)) ∧
      (∀ k ∉ l.map handle, (l.foldl (saveRegister handle) (saved, f)).1.get? k = saved.get? k) ∧
      ∀ a, (l.foldl (saveRegister handle) (saved, f)).2 a = if a ∈ l then "PRBS 7" else f a := by
  induction l generalizing saved f with
  | nil => exact ⟨List.forall_mem_nil _, fun _ _ => rfl, fun _ => rfl⟩
  | cons a l ih =>
    obtain ⟨hnew, hrest⟩ := List.nodup_cons.mp hnodup
    obtain ⟨hsaved, hother, hset⟩ := ih hrest (saved.set (handle a) (f a))
      (Function.update f a "PRBS 7")
    rw [List.foldl_cons, saveRegister]
    refine ⟨fun a' ha' => ?_, fun k hk => ?_, fun a' => ?_⟩
    · rcases List.mem_cons.mp ha' with rfl | hmem
      · rw [hother _ hnew, Py.Dict.get?_set_self]
      · rw [hsaved a' hmem, Function.update_of_ne]
        rintro rfl
        exact hnew (List.mem_map_of_mem hmem)
    · rw [List.map_cons, List.mem_cons, not_or] at hk
      rw [hother k hk.2, Py.Dict.get?_set_ne _ hk.1]
    · rw [hset]
      rcases eq_or_ne a' a with rfl | hne
      · simp
      · simp [hne]

theorem restore_spec (l : List α) {saved : Py.Dict String String} {f : α → String}
    (hsaved : ∀ a ∈ l, saved.get? (handle a) = some (f a)) (g : α → String) (a : α) :
    l.foldl (restoreRegister handle saved) g a = if a ∈ l then f a else g a := by
  induction l generalizing g with
  | nil => rfl
  | cons a' l ih =>
    obtain ⟨hfirst, hrest⟩ := List.forall_mem_cons.mp hsaved
    rw [List.foldl_cons, ih hrest, restoreRegister, hfirst]
    dsimp only
    rcases eq_or_ne a a' with rfl | hne
    · simp
    · simp [hne]

/-- Registers of which only saved ones have changed are as they were. -/
theorem restore_save (l : List α) (hnodup : (l.map handle).Nodup) {f g : α → String}
    (hsame : ∀ a ∉ l, g a = f a) :
    l.foldl (restoreRegister handle
      (l.foldl (saveRegister handle) (Py.Dict.empty, f)).1) g = f := by
  funext a
  rw [restore_spec l (save_spec l hnodup Py.Dict.empty f).1]
  split_ifs with ha
  · rfl
  · exact hsame a ha

end Registers

/-! ### The inner loop -/

theorem Board.status_eq_iff (b : Board) (p : Patterns) {r : RX} {t : TX}
    (h : b.wiring r = some t) : b.status p r = "No link" ↔ p.tx t ≠ p.rx r := by
  rw [Board.status, h]
  dsimp only
  split_ifs with heq
  · exact iff_of_false (b.report_ne r) (not_not.mpr heq)
  · exact iff_of_true rfl heq

theorem Board.status_none (b : Board) (p : Patterns) {r : RX} (h : b.wiring r = none) :
    b.status p r = "No link" := by rw [Board.status, h]

namespace Detection

variable {b : Board} {r : RX} {t : TX} {d : Detection}

/-- Transmitters that are not skipped send the other pattern. -/
def flipAll (ts : List TX) (d : Detection) : Detection :=
  { d with patterns := { d.patterns with
    tx := fun t => if t ∈ ts ∧ t.handle ∉ d.txsToSkip then "PRBS 15" else d.patterns.tx t } }

theorem flipAll_nil (d : Detection) : d.flipAll [] = d := by simp [flipAll]

theorem flipAll_cons_skipped {ts : List TX} (h : t.handle ∈ d.txsToSkip) :
    d.flipAll (t :: ts) = d.flipAll ts := by
  have hsame (t' : TX) : (t' ∈ t :: ts ∧ t'.handle ∉ d.txsToSkip) ↔
      t' ∈ ts ∧ t'.handle ∉ d.txsToSkip := by
    refine and_congr_left fun hnot => ?_
    rw [List.mem_cons, or_iff_right]
    rintro rfl
    exact hnot h
  simp only [flipAll, hsame]

theorem flipAll_cons {ts : List TX} (h : t.handle ∉ d.txsToSkip) :
    d.flipAll (t :: ts) = (d.flip t).flipAll ts := by
  have hsame : (fun t' => if t' ∈ t :: ts ∧ t'.handle ∉ d.txsToSkip then "PRBS 15"
      else d.patterns.tx t') = fun t' => if t' ∈ ts ∧ t'.handle ∉ d.txsToSkip then "PRBS 15"
      else Function.update d.patterns.tx t "PRBS 15" t' := by
    funext t'
    rcases eq_or_ne t' t with rfl | hne
    · simp [h]
    · simp [hne]
  rw [flipAll, hsame]
  rfl

/-- The driver of the receiver is in the list. -/
theorem searchTx_found (hwired : b.wiring r = some t) (pre post : List TX) (hnew : t ∉ pre)
    (hskip : t.handle ∉ d.txsToSkip) (hrx : d.patterns.rx r = "PRBS 7")
    (htx : d.patterns.tx t = "PRBS 7") :
    searchTx b r (pre ++ t :: post) d = (d.flipAll (pre ++ [t])).connect r t := by
  induction pre generalizing d with
  | nil =>
    have hlost : b.status (d.flip t).patterns r = "No link" := by
      rw [b.status_eq_iff _ hwired]
      simp [flip, hrx]
    rw [List.nil_append, searchTx, if_neg hskip]
    dsimp only
    rw [if_pos hlost, List.nil_append, flipAll_cons hskip, flipAll_nil]
  | cons u pre ih =>
    obtain ⟨hne, hrest⟩ := not_or.mp (List.mem_cons.not.mp hnew)
    rw [List.cons_append, searchTx, List.cons_append]
    split_ifs with hu
    · rw [flipAll_cons_skipped hu]
      exact ih hrest hskip hrx htx
    · have htx' : (d.flip u).patterns.tx t = "PRBS 7" := by simp [flip, hne, htx]
      have hlocked : b.status (d.flip u).patterns r ≠ "No link" := by
        rw [ne_eq, b.status_eq_iff _ hwired, htx', not_not]
        exact hrx.symm
      dsimp only
      rw [if_neg hlocked, flipAll_cons hu]
      exact ih hrest hskip hrx htx'

/-- The driver of the receiver is not in the list. -/
theorem searchTx_outside (hwired : b.wiring r = some t) (ts : List TX) (hnew : t ∉ ts)
    (hrx : d.patterns.rx r = "PRBS 7") (htx : d.patterns.tx t = "PRBS 7") :
    searchTx b r ts d = (d.flipAll ts, none) := by
  induction ts generalizing d with
  | nil => rw [searchTx, flipAll_nil]
  | cons u ts ih =>
    obtain ⟨hne, hrest⟩ := not_or.mp (List.mem_cons.not.mp hnew)
    rw [searchTx]
    split_ifs with hu
    · rw [flipAll_cons_skipped hu]
      exact ih hrest hrx htx
    · have htx' : (d.flip u).patterns.tx t = "PRBS 7" := by simp [flip, hne, htx]
      have hlocked : b.status (d.flip u).patterns r ≠ "No link" := by
        rw [ne_eq, b.status_eq_iff _ hwired, htx', not_not]
        exact hrx.symm
      dsimp only
      rw [if_neg hlocked, flipAll_cons hu]
      exact ih hrest hrx htx'

end Detection

/-! ### New links -/

/-- Links for pairs of endpoints, registered under their names, are all that was made. -/
structure Created (s₀ s : State) (pairs : List (RX × TX)) (newLinks : List LinkId) : Prop where
  endpoints : newLinks.map (fun l => ((s.link l).rx, (s.link l).tx)) =
    pairs.map fun p => (some p.1, some p.2)
  rx : ∀ l ∈ newLinks, ∀ r, (s.link l).rx = some r → s.rxLink r = some l
  tx : ∀ l ∈ newLinks, ∀ t, (s.link l).tx = some t → s.txLink t = some l
  rxOther : ∀ r, (∀ t, (r, t) ∉ pairs) → s.rxLink r = s₀.rxLink r
  txOther : ∀ t, (∀ r, (r, t) ∉ pairs) → s.txLink t = s₀.txLink t
  registered : ∀ l ∈ newLinks, s.links.get? (s.link l).name = some l
  links : ∀ name l, s.links.get? name = some l → l ∈ newLinks ∨ s₀.links.get? name = some l
  new : ∀ l ∈ newLinks, s₀.linksMade ≤ l ∧ l < s.linksMade
  old : ∀ l < s₀.linksMade, s.link l = s₀.link l
  made : s₀.linksMade ≤ s.linksMade
  name : ∀ l ∈ newLinks, ∃ n ≤ s.lastLinkNumber,
    (s.link l).name = Py.numbered linkNamePrefix n

theorem Created.refl (s : State) : Created s s [] [] where
  endpoints := rfl
  rx := List.forall_mem_nil _
  tx := List.forall_mem_nil _
  rxOther _ _ := rfl
  txOther _ _ := rfl
  registered := List.forall_mem_nil _
  links _ _ h := .inr h
  new := List.forall_mem_nil _
  old _ _ := rfl
  made := le_rfl
  name := List.forall_mem_nil _

/-- The state after a link was made and registered. -/
theorem createLink_free {s : State} (newLinks : List LinkId) {r : RX} {t : TX}
    (hr : s.rxLink r = none) (ht : s.txLink t = none) :
    ∃ handle s', State.createLink (some r, some t) (s, newLinks) =
        ((s', newLinks ++ [s.linksMade]), none) ∧
      s'.link = Function.update s.link s.linksMade
        ⟨some r, some t, Py.numbered linkNamePrefix (s.lastLinkNumber + 1), handle, none⟩ ∧
      s'.linksMade = s.linksMade + 1 ∧
      s'.rxLink = Function.update s.rxLink r (some s.linksMade) ∧
      s'.txLink = Function.update s.txLink t (some s.linksMade) ∧
      s'.links = s.links ∧ s'.lastLinkNumber = s.lastLinkNumber + 1 := by
  have hfree : ({ s with lastLinkNumber := s.lastLinkNumber + 1 } : State).Free
      (some r, some t) := by
    refine ⟨fun h => (nomatch h.1), fun r' hr' => ?_, fun t' ht' => ?_⟩
    · obtain rfl := Option.some.inj hr'
      exact hr
    · obtain rfl := Option.some.inj ht'
      exact ht
  obtain ⟨handle, hnew⟩ := State.Link.new_of_free hfree
    (Py.numbered linkNamePrefix (s.lastLinkNumber + 1))
  refine ⟨handle, { s with
    lastLinkNumber := s.lastLinkNumber + 1
    link := Function.update s.link s.linksMade
      ⟨some r, some t, Py.numbered linkNamePrefix (s.lastLinkNumber + 1), handle, none⟩
    linksMade := s.linksMade + 1
    rxLink := Function.update s.rxLink r (some s.linksMade)
    txLink := Function.update s.txLink t (some s.linksMade) }, ?_, rfl, rfl, rfl, rfl, rfl, rfl⟩
  rw [State.createLink]
  dsimp only
  rw [hnew]
  rfl

theorem Created.connect {s₀ s : State} {pairs : List (RX × TX)} {newLinks : List LinkId} {r : RX}
    {t : TX} (h : Created s₀ s pairs newLinks) (hr : s.rxLink r = none)
    (ht : s.txLink t = none) :
    ∃ s', State.createLink (some r, some t) (s, newLinks) =
        ((s', newLinks ++ [s.linksMade]), none) ∧
      Created s₀ (s'.register (newLinks ++ [s.linksMade])) (pairs ++ [(r, t)])
        (newLinks ++ [s.linksMade]) := by
  obtain ⟨handle, s', hcreate, hlink, hmade, hrx, htx, hlinks, hlast⟩ :=
    createLink_free newLinks hr ht
  refine ⟨s', hcreate, ?_⟩
  have holdLink {l : LinkId} (hl : l ∈ newLinks) : s'.link l = s.link l := by
    rw [hlink, Function.update_of_ne (h.new l hl).2.ne]
  have hnewLink : s'.link s.linksMade = ⟨some r, some t,
      Py.numbered linkNamePrefix (s.lastLinkNumber + 1), handle, none⟩ := by
    rw [hlink, Function.update_self]
  have hget (name : String) : (s'.register (newLinks ++ [s.linksMade])).links.get? name =
      if name = Py.numbered linkNamePrefix (s.lastLinkNumber + 1) then some s.linksMade
      else s.links.get? name := by
    have hsame : (s'.register newLinks).links.get? name = s.links.get? name := by
      rw [State.register, ← hlinks]
      refine Py.Dict.get?_update_of_same _ (fun e he => ?_) name
      obtain ⟨l, hl, rfl⟩ := List.mem_map.mp he
      dsimp only
      rw [holdLink hl, hlinks]
      exact h.registered l hl
    rw [State.register_append]
    dsimp only
    rw [Py.Dict.get?_set, hnewLink, hsame]
  have hname {l : LinkId} (hl : l ∈ newLinks) : (s.link l).name ≠
      Py.numbered linkNamePrefix (s.lastLinkNumber + 1) := by
    intro heq
    obtain ⟨n, hn, hname⟩ := h.name l hl
    have hsame := Py.numbered_injective _ (hname.symm.trans heq)
    omega
  have hcases {P : LinkId → Prop} (hold : ∀ l ∈ newLinks, P l) (hself : P s.linksMade) :
      ∀ l ∈ newLinks ++ [s.linksMade], P l := by
    intro l hl
    rcases List.mem_append.mp hl with hl | hl
    · exact hold l hl
    · rw [List.mem_singleton.mp hl]
      exact hself
  refine {
    endpoints := ?_, rx := hcases ?_ ?_, tx := hcases ?_ ?_, rxOther := ?_, txOther := ?_,
    registered := hcases ?_ ?_, links := ?_, new := hcases ?_ ?_, old := ?_, made := ?_,
    name := hcases ?_ ?_ }
  · rw [List.map_append, List.map_append, ← h.endpoints]
    refine congrArg₂ (· ++ ·) (List.map_congr_left fun l hl => ?_) ?_
    · change ((s'.link l).rx, (s'.link l).tx) = _
      rw [holdLink hl]
    · change [((s'.link s.linksMade).rx, (s'.link s.linksMade).tx)] = _
      rw [hnewLink]
      rfl
  · intro l hl r' hr'
    change (s'.link l).rx = some r' at hr'
    change s'.rxLink r' = some l
    rw [holdLink hl] at hr'
    have hold := h.rx l hl r' hr'
    rw [hrx, Function.update_of_ne, hold]
    rintro rfl
    rw [hold] at hr
    cases hr
  · intro r' hr'
    change (s'.link s.linksMade).rx = some r' at hr'
    change s'.rxLink r' = some s.linksMade
    rw [hnewLink] at hr'
    rw [hrx, ← Option.some.inj hr', Function.update_self]
  · intro l hl t' ht'
    change (s'.link l).tx = some t' at ht'
    change s'.txLink t' = some l
    rw [holdLink hl] at ht'
    have hold := h.tx l hl t' ht'
    rw [htx, Function.update_of_ne, hold]
    rintro rfl
    rw [hold] at ht
    cases ht
  · intro t' ht'
    change (s'.link s.linksMade).tx = some t' at ht'
    change s'.txLink t' = some s.linksMade
    rw [hnewLink] at ht'
    rw [htx, ← Option.some.inj ht', Function.update_self]
  · intro r' hr'
    change s'.rxLink r' = _
    rw [hrx, Function.update_of_ne]
    · exact h.rxOther r' fun t' hmem => hr' t' (List.mem_append_left _ hmem)
    · rintro rfl
      exact hr' t (List.mem_append_right _ (List.mem_singleton_self _))
  · intro t' ht'
    change s'.txLink t' = _
    rw [htx, Function.update_of_ne]
    · exact h.txOther t' fun r' hmem => ht' r' (List.mem_append_left _ hmem)
    · rintro rfl
      exact ht' r (List.mem_append_right _ (List.mem_singleton_self _))
  · intro l hl
    change (State.register s' _).links.get? (s'.link l).name = some l
    rw [holdLink hl, hget, if_neg (hname hl)]
    exact h.registered l hl
  · change (State.register s' _).links.get? (s'.link s.linksMade).name = some s.linksMade
    rw [hget, hnewLink, if_pos rfl]
  · intro name l hl
    rw [hget] at hl
    split_ifs at hl
    · exact .inl (List.mem_append_right _ (List.mem_singleton.mpr (Option.some.inj hl).symm))
    · rcases h.links name l hl with hmem | hold
      · exact .inl (List.mem_append_left _ hmem)
      · exact .inr hold
  · intro l hl
    change _ ∧ l < s'.linksMade
    rw [hmade]
    exact ⟨(h.new l hl).1, (h.new l hl).2.trans (Nat.lt_succ_self _)⟩
  · change _ ∧ s.linksMade < s'.linksMade
    rw [hmade]
    exact ⟨h.made, Nat.lt_succ_self _⟩
  · intro l hl
    change s'.link l = _
    rw [hlink, Function.update_of_ne (hl.trans_le h.made).ne]
    exact h.old l hl
  · change _ ≤ s'.linksMade
    rw [hmade]
    exact h.made.trans (Nat.le_succ _)
  · intro l hl
    change ∃ n ≤ s'.lastLinkNumber, (s'.link l).name = _
    obtain ⟨n, hn, hname'⟩ := h.name l hl
    rw [hlast, holdLink hl]
    exact ⟨n, hn.trans (Int.le_add_one le_rfl), hname'⟩
  · change ∃ n ≤ s'.lastLinkNumber, (s'.link s.linksMade).name = _
    rw [hlast, hnewLink]
    exact ⟨_, le_rfl, rfl⟩

namespace Detection

variable {r : RX} {t : TX} {d : Detection}

theorem connect_free {s₀ : State} {pairs : List (RX × TX)}
    (h : Created s₀ d.links pairs d.newLinks) (hr : d.links.rxLink r = none)
    (ht : d.links.txLink t = none) :
    ∃ s newLinks, d.connect r t = ({ d with
      links := s
      newLinks := newLinks
      txsToSkip := insert t.handle d.txsToSkip }, none) ∧
      Created s₀ s (pairs ++ [(r, t)]) newLinks := by
  obtain ⟨s, hcreate, hcreated⟩ := h.connect hr ht
  refine ⟨_, _, ?_, hcreated⟩
  rw [connect]
  dsimp only
  rw [hcreate]

theorem connect_raised (ht : d.links.txLink t ≠ none) :
    ∃ d' e, d.connect r t = (d', some e) := by
  have hrefused : d.links.RefusedAtOnce (some r, some t) := ht
  obtain ⟨x, -, e, hcreate⟩ := State.createLink_refused hrefused d.newLinks
  rw [connect]
  dsimp only
  rw [hcreate]
  exact ⟨_, e, rfl⟩

end Detection

/-! ### The outer loop -/

section Search

/-- A property of each item and of those before it. -/
def Each {α : Type*} (C : List α → α → Prop) : List α → List α → Prop
  | _, [] => True
  | before, a :: as => C before a ∧ Each C (before ++ [a]) as

variable (b : Board) (txs : List TX) (tx₀ : TX → String)

/-- The search for the transmitter of a receiver that is locked comes by another transmitter. -/
def Touches (r : RX) (t : TX) : Prop :=
  ∃ t' ∈ b.wiring r, if t' ∈ txs then txs.idxOf t ≤ txs.idxOf t' else tx₀ t' = "PRBS 7"

/-- A transmitter that was given the second pattern for one of some receivers. -/
def Touched (before : List RX) (t : TX) : Prop := ∃ r ∈ before, Touches b txs tx₀ r t

/-- A pair that was found for one of some receivers. -/
def FoundIn (before : List RX) (r : RX) (t : TX) : Prop :=
  ∃ pre post, before = pre ++ r :: post ∧ b.wiring r = some t ∧ t ∈ txs ∧
    ¬ Touched b txs tx₀ pre t

variable {b txs tx₀} {before : List RX} {r r' : RX} {t t' : TX}

theorem touched_append : Touched b txs tx₀ (before ++ [r]) t ↔
    Touched b txs tx₀ before t ∨ Touches b txs tx₀ r t := by
  simp only [Touched, List.mem_append, List.mem_singleton, or_and_right, exists_or,
    exists_eq_left]

theorem Touched.mono (h : Touched b txs tx₀ before t) (hle : txs.idxOf t' ≤ txs.idxOf t) :
    Touched b txs tx₀ before t' := by
  obtain ⟨r, hr, t₁, ht₁, htouch⟩ := h
  refine ⟨r, hr, t₁, ht₁, ?_⟩
  split_ifs at htouch ⊢
  · exact hle.trans htouch
  · exact htouch

theorem foundIn_append : FoundIn b txs tx₀ (before ++ [r']) r t ↔ FoundIn b txs tx₀ before r t ∨
    r = r' ∧ b.wiring r = some t ∧ t ∈ txs ∧ ¬ Touched b txs tx₀ before t := by
  constructor
  · rintro ⟨pre, post, heq, hfound⟩
    rcases List.eq_nil_or_concat post with rfl | ⟨post, a, rfl⟩
    · obtain ⟨rfl, hlast⟩ := List.append_inj' heq rfl
      obtain rfl := List.singleton_inj.mp hlast
      exact .inr ⟨rfl, hfound⟩
    · rw [List.concat_eq_append, ← List.cons_append, ← List.append_assoc] at heq
      obtain ⟨rfl, -⟩ := List.append_inj' heq rfl
      exact .inl ⟨pre, post, rfl, hfound⟩
  · rintro (⟨pre, post, rfl, hfound⟩ | ⟨rfl, hfound⟩)
    · exact ⟨pre, post ++ [r'], by simp, hfound⟩
    · exact ⟨before, [], rfl, hfound⟩

theorem FoundIn.mem (h : FoundIn b txs tx₀ before r t) : r ∈ before := by
  obtain ⟨pre, post, rfl, -⟩ := h
  exact List.mem_append_right _ List.mem_cons_self

/-- The transmitters up to one of them. -/
theorem mem_upTo_iff {pre post : List TX} (hnew : t ∉ pre) :
    t' ∈ pre ++ [t] ↔ (pre ++ t :: post).idxOf t' ≤ (pre ++ t :: post).idxOf t := by
  rw [List.idxOf_append_of_notMem hnew, List.idxOf_cons_self, Nat.add_zero]
  constructor
  · intro hmem
    rcases List.mem_append.mp hmem with hpre | hlast
    · rw [List.idxOf_append_of_mem hpre]
      exact (List.idxOf_lt_length_of_mem hpre).le
    · rw [List.mem_singleton.mp hlast, List.idxOf_append_of_notMem hnew, List.idxOf_cons_self,
        Nat.add_zero]
  · intro hle
    by_contra hnot
    obtain ⟨hpre, hlast⟩ := not_or.mp (List.mem_append.not.mp hnot)
    rw [List.idxOf_append_of_notMem hpre, List.idxOf_cons_ne _ fun h => hlast (by simp [h])] at hle
    omega

/-- After some receivers: the patterns are known, and the links are those that were found. -/
structure SearchInv (b : Board) (txs : List TX) (tx₀ : TX → String) (rx₁ : RX → String)
    (s₀ : State) (before : List RX) (d : Detection) : Prop where
  rx : d.patterns.rx = rx₁
  touched : ∀ t ∈ txs, Touched b txs tx₀ before t → d.patterns.tx t = "PRBS 15"
  untouched : ∀ t ∈ txs, ¬ Touched b txs tx₀ before t → d.patterns.tx t = "PRBS 7"
  outside : ∀ t ∉ txs, d.patterns.tx t = tx₀ t
  skip : ∀ t ∈ txs, t.handle ∈ d.txsToSkip → Touched b txs tx₀ before t
  processed : ∀ h ∈ d.rxsProcessed, h ∈ before.map RX.handle
  made : ∃ pairs, Created s₀ d.links pairs d.newLinks ∧ pairs.Nodup ∧
    ∀ r t, (r, t) ∈ pairs ↔ FoundIn b txs tx₀ before r t

theorem handle_next {rxs : List RX} (h : ((before ++ r :: rxs).map RX.handle).Nodup) :
    r.handle ∉ before.map RX.handle ∧ (((before ++ [r]) ++ rxs).map RX.handle).Nodup := by
  rw [List.append_assoc, List.singleton_append]
  refine ⟨fun hmem => ?_, h⟩
  rw [List.map_append, List.map_cons] at h
  exact List.disjoint_of_nodup_append h hmem List.mem_cons_self

namespace SearchInv

variable {rx₁ : RX → String} {s₀ : State} {d : Detection}

/-- A receiver that comes next has its link as before, and so has its transmitter. -/
theorem links_of_next (h : SearchInv b txs tx₀ rx₁ s₀ before d) (hr : r ∉ before) :
    d.links.rxLink r = s₀.rxLink r ∧
      ∀ t, b.wiring r = some t → d.links.txLink t = s₀.txLink t := by
  obtain ⟨pairs, hcreated, -, hpairs⟩ := h.made
  constructor
  · exact hcreated.rxOther r fun t hmem => hr ((hpairs r t).mp hmem).mem
  · intro t hwired
    refine hcreated.txOther t fun r' hmem => hr ?_
    have hfound := (hpairs r' t).mp hmem
    obtain ⟨-, -, -, hwired', -⟩ := id hfound
    rw [b.single hwired hwired']
    exact hfound.mem

/-- A receiver for which nothing happens. -/
theorem quiet (h : SearchInv b txs tx₀ rx₁ s₀ before d)
    (htouches : ∀ t ∈ txs, Touches b txs tx₀ r t → Touched b txs tx₀ before t)
    (hfound : ∀ t ∈ txs, b.wiring r = some t → Touched b txs tx₀ before t) :
    SearchInv b txs tx₀ rx₁ s₀ (before ++ [r])
      { d with rxsProcessed := insert r.handle d.rxsProcessed } := by
  have hiff {t : TX} (ht : t ∈ txs) : Touched b txs tx₀ (before ++ [r]) t ↔
      Touched b txs tx₀ before t := by
    rw [touched_append, or_iff_left_of_imp (htouches t ht)]
  obtain ⟨pairs, hcreated, hnodup, hpairs⟩ := h.made
  refine {
    rx := h.rx
    touched := fun t ht htouched => h.touched t ht ((hiff ht).mp htouched)
    untouched := fun t ht hnot => h.untouched t ht fun htouched => hnot ((hiff ht).mpr htouched)
    outside := h.outside
    skip := fun t ht hskip => (hiff ht).mpr (h.skip t ht hskip)
    processed := ?_
    made := ⟨pairs, hcreated, hnodup, fun r' t => ?_⟩ }
  · intro k hk
    rw [List.map_append, List.mem_append]
    rcases Finset.mem_insert.mp hk with rfl | hold
    · exact .inr (List.mem_singleton_self _)
    · exact .inl (h.processed k hold)
  · rw [hpairs, foundIn_append, or_iff_left]
    rintro ⟨rfl, hwired, ht, hnot⟩
    exact hnot (hfound t ht hwired)

/-- A receiver with the first pattern, for which the transmitters up to a place are tried. -/
theorem flipped (h : SearchInv b txs tx₀ rx₁ s₀ before d) {ts : List TX} (hsub : ∀ t ∈ ts, t ∈ txs)
    (htouches : ∀ t ∈ txs, t ∈ ts ↔ Touches b txs tx₀ r t) :
    (∀ t ∈ txs, Touched b txs tx₀ (before ++ [r]) t →
      (d.flipAll ts).patterns.tx t = "PRBS 15") ∧
    (∀ t ∈ txs, ¬ Touched b txs tx₀ (before ++ [r]) t →
      (d.flipAll ts).patterns.tx t = "PRBS 7") ∧
    ∀ t ∉ txs, (d.flipAll ts).patterns.tx t = tx₀ t := by
  refine ⟨fun t ht htouched => ?_, fun t ht hnot => ?_, fun t ht => ?_⟩
  · change (if t ∈ ts ∧ t.handle ∉ d.txsToSkip then "PRBS 15" else d.patterns.tx t) = "PRBS 15"
    split_ifs with hflip
    · rfl
    · refine h.touched t ht ?_
      rcases touched_append.mp htouched with hold | hnew
      · exact hold
      · exact h.skip t ht (not_not.mp fun hskip => hflip ⟨(htouches t ht).mpr hnew, hskip⟩)
  · obtain ⟨hold, hnew⟩ := not_or.mp (touched_append.not.mp hnot)
    change (if t ∈ ts ∧ t.handle ∉ d.txsToSkip then "PRBS 15" else d.patterns.tx t) = "PRBS 7"
    rw [if_neg fun hflip => hnew ((htouches t ht).mp hflip.1)]
    exact h.untouched t ht hold
  · change (if t ∈ ts ∧ t.handle ∉ d.txsToSkip then "PRBS 15" else d.patterns.tx t) = tx₀ t
    rw [if_neg fun hflip => ht (hsub t hflip.1)]
    exact h.outside t ht

theorem searchRx_quiet (h : SearchInv b txs tx₀ rx₁ s₀ before d)
    (hr : r.handle ∉ before.map RX.handle) (hlost : b.status d.patterns r = "No link") :
    Detection.searchRx b txs r d =
      ({ d with rxsProcessed := insert r.handle d.rxsProcessed }, none) := by
  rw [Detection.searchRx, if_neg fun hmem => hr (h.processed _ hmem)]
  dsimp only
  rw [if_neg (not_not.mpr hlost)]

theorem searchRx_locked (h : SearchInv b txs tx₀ rx₁ s₀ before d)
    (hr : r.handle ∉ before.map RX.handle) (hlocked : b.status d.patterns r ≠ "No link")
    {o : Outcome Detection} (ho : Detection.searchTx b r txs d = o) :
    Detection.searchRx b txs r d =
      ({ o.1 with rxsProcessed := insert r.handle o.1.rxsProcessed }, o.2) := by
  rw [Detection.searchRx, if_neg fun hmem => hr (h.processed _ hmem)]
  dsimp only
  rw [if_pos hlocked, ho]

/-- The search for a receiver whose transmitter is in the list and still sends the first pattern. -/
theorem searchTx_found (h : SearchInv b txs tx₀ rx₁ s₀ before d) (hrx : rx₁ r = "PRBS 7")
    (hwired : b.wiring r = some t) (ht : t ∈ txs) (hnot : ¬ Touched b txs tx₀ before t) :
    ∃ ts, (∀ t ∈ ts, t ∈ txs) ∧ (∀ t', t' ∈ ts ↔ txs.idxOf t' ≤ txs.idxOf t) ∧
      Detection.searchTx b r txs d = (d.flipAll ts).connect r t := by
  obtain ⟨pre, post, heq, hnew⟩ := List.eq_append_cons_of_mem ht
  refine ⟨pre ++ [t], fun t' ht' => ?_, fun t' => ?_, ?_⟩
  · rw [heq]
    rcases List.mem_append.mp ht' with hpre | hlast
    · exact List.mem_append_left _ hpre
    · rw [List.mem_singleton.mp hlast]
      exact List.mem_append_right _ List.mem_cons_self
  · rw [heq]
    exact mem_upTo_iff hnew
  · have hskip : t.handle ∉ d.txsToSkip := fun hmem => hnot (h.skip t ht hmem)
    have hsearch := Detection.searchTx_found (d := d) hwired pre post hnew hskip
      ((congrFun h.rx r).trans hrx) (h.untouched t ht hnot)
    rwa [← heq] at hsearch

theorem status_eq_iff (h : SearchInv b txs tx₀ rx₁ s₀ before d) (hrx : rx₁ r = "PRBS 7")
    (hwired : b.wiring r = some t) :
    b.status d.patterns r = "No link" ↔ d.patterns.tx t ≠ "PRBS 7" := by
  rw [b.status_eq_iff _ hwired, h.rx, hrx]

/-- A receiver that can be linked if it is locked. -/
def Linkable (b : Board) (txs : List TX) (tx₀ : TX → String) (s₀ : State) (before : List RX)
    (r : RX) : Prop :=
  ∀ t ∈ txs, b.wiring r = some t → ¬ Touched b txs tx₀ before t → s₀.txLink t = none

/-- One receiver. -/
theorem round (h : SearchInv b txs tx₀ rx₁ s₀ before d) (htxs : (txs.map TX.handle).Nodup)
    (hr : r.handle ∉ before.map RX.handle) (hrx : rx₁ r = "PRBS 7")
    (hunlinked : s₀.rxLink r = none) (hlinkable : Linkable b txs tx₀ s₀ before r) :
    ∃ d', Detection.searchRx b txs r d = (d', none) ∧
      SearchInv b txs tx₀ rx₁ s₀ (before ++ [r]) d' := by
  have hnew : r ∉ before := fun hmem => hr (List.mem_map_of_mem hmem)
  have hprocessed : ∀ k ∈ insert r.handle d.rxsProcessed, k ∈ (before ++ [r]).map RX.handle := by
    intro k hk
    rw [List.map_append, List.mem_append]
    rcases Finset.mem_insert.mp hk with rfl | hold
    · exact .inr (List.mem_singleton_self _)
    · exact .inl (h.processed k hold)
  rcases hwired : b.wiring r with - | t
  · -- not wired
    refine ⟨_, h.searchRx_quiet hr (b.status_none _ hwired), h.quiet ?_ ?_⟩
    · rintro t ht ⟨t', ht', -⟩
      rw [hwired] at ht'
      exact nomatch ht'
    · intro t ht hwired'
      rw [hwired] at hwired'
      exact nomatch hwired'
  rcases Classical.em (t ∈ txs) with ht | ht
  · have htouches (t' : TX) :
        Touches b txs tx₀ r t' ↔ txs.idxOf t' ≤ txs.idxOf t := by
      simp [Touches, hwired, ht]
    rcases Classical.em (Touched b txs tx₀ before t) with htouched | hnot
    · -- its transmitter was changed before
      refine ⟨_, h.searchRx_quiet hr ?_, h.quiet ?_ ?_⟩
      · rw [h.status_eq_iff hrx hwired, h.touched t ht htouched]
        decide
      · exact fun t' _ htouch => htouched.mono ((htouches t').mp htouch)
      · intro t' _ hwired'
        rw [hwired] at hwired'
        rwa [← Option.some.inj hwired']
    · -- its transmitter is found
      obtain ⟨ts, hsub, hts, hsearch⟩ := h.searchTx_found hrx hwired ht hnot
      have hlocked : b.status d.patterns r ≠ "No link" := by
        rw [ne_eq, h.status_eq_iff hrx hwired, h.untouched t ht hnot, not_not]
      obtain ⟨pairs, hcreated, hnodup, hpairs⟩ := h.made
      obtain ⟨hrxLink, htxLink⟩ := h.links_of_next hnew
      obtain ⟨s, newLinks, hconnect, hcreated'⟩ := Detection.connect_free (d := d.flipAll ts)
        (t := t) hcreated (hrxLink.trans hunlinked)
        ((htxLink t hwired).trans (hlinkable t ht hwired hnot))
      obtain ⟨hone, htwo, hthree⟩ := h.flipped hsub fun t' _ => (hts t').trans (htouches t').symm
      refine ⟨_, h.searchRx_locked hr hlocked (hsearch.trans hconnect), {
        rx := h.rx, touched := hone, untouched := htwo, outside := hthree, skip := ?_,
        processed := hprocessed, made := ⟨_, hcreated', ?_, ?_⟩ }⟩
      · intro t' ht' hskip
        rw [touched_append, htouches]
        rcases Finset.mem_insert.mp hskip with heq | hold
        · rw [List.inj_on_of_nodup_map htxs ht' ht heq]
          exact .inr le_rfl
        · exact .inl (h.skip t' ht' hold)
      · refine List.Nodup.append hnodup (List.nodup_singleton _) ?_
        intro p hp hlast
        rw [List.mem_singleton.mp hlast, hpairs] at hp
        exact hnew hp.mem
      · intro r' t'
        rw [List.mem_append, List.mem_singleton, hpairs, foundIn_append]
        refine or_congr_right ?_
        constructor
        · rintro heq
          obtain ⟨rfl, rfl⟩ := Prod.mk.inj heq
          exact ⟨rfl, hwired, ht, hnot⟩
        · rintro ⟨rfl, hwired', -⟩
          rw [hwired] at hwired'
          rw [Option.some.inj hwired']
  · have hnone (t' : TX) (ht' : t' ∈ txs) (hwired' : b.wiring r = some t') : False := by
      rw [hwired] at hwired'
      rw [← Option.some.inj hwired'] at ht'
      exact ht ht'
    rcases eq_or_ne (tx₀ t) "PRBS 7" with hfirst | hother
    · -- its transmitter is not in the list and sends the first pattern
      have htouches (t' : TX) : Touches b txs tx₀ r t' := by
        simp [Touches, hwired, ht, hfirst]
      have hpattern : d.patterns.tx t = "PRBS 7" := (h.outside t ht).trans hfirst
      have hlocked : b.status d.patterns r ≠ "No link" := by
        rw [ne_eq, h.status_eq_iff hrx hwired, hpattern, not_not]
      have hsearch := Detection.searchTx_outside (d := d) hwired txs ht
        ((congrFun h.rx r).trans hrx) hpattern
      obtain ⟨pairs, hcreated, hnodup, hpairs⟩ := h.made
      obtain ⟨hone, htwo, hthree⟩ := h.flipped (fun t' ht' => ht')
        fun t' ht' => iff_of_true ht' (htouches t')
      refine ⟨_, h.searchRx_locked hr hlocked hsearch, {
        rx := h.rx, touched := hone, untouched := htwo, outside := hthree, skip := ?_,
        processed := hprocessed, made := ⟨pairs, hcreated, hnodup, ?_⟩ }⟩
      · exact fun t' _ _ => touched_append.mpr (.inr (htouches t'))
      · intro r' t'
        rw [hpairs, foundIn_append, or_iff_left]
        rintro ⟨rfl, hwired', ht', -⟩
        exact hnone t' ht' hwired'
    · -- its transmitter is not in the list and sends another pattern
      refine ⟨_, h.searchRx_quiet hr ?_, h.quiet ?_ ?_⟩
      · rw [h.status_eq_iff hrx hwired, h.outside t ht]
        exact hother
      · rintro t' - ⟨t₁, ht₁, htouch⟩
        rw [hwired] at ht₁
        obtain rfl := Option.some.inj ht₁
        rw [if_neg ht] at htouch
        exact absurd htouch hother
      · exact fun t' ht' hwired' => (hnone t' ht' hwired').elim

/-- A receiver whose transmitter is found but already has a link. -/
theorem round_raised (h : SearchInv b txs tx₀ rx₁ s₀ before d)
    (hr : r.handle ∉ before.map RX.handle) (hrx : rx₁ r = "PRBS 7")
    (hnot : ¬ Linkable b txs tx₀ s₀ before r) :
    ∃ d' e, Detection.searchRx b txs r d = (d', some e) := by
  have hnew : r ∉ before := fun hmem => hr (List.mem_map_of_mem hmem)
  simp only [Linkable, not_forall] at hnot
  obtain ⟨t, ht, hwired, huntouched, hlinked⟩ := hnot
  obtain ⟨ts, -, -, hsearch⟩ := h.searchTx_found hrx hwired ht huntouched
  have hlocked : b.status d.patterns r ≠ "No link" := by
    rw [ne_eq, h.status_eq_iff hrx hwired, h.untouched t ht huntouched, not_not]
  obtain ⟨d', e, hconnect⟩ := Detection.connect_raised (d := d.flipAll ts) (r := r) (t := t)
    fun hnone => hlinked (((h.links_of_next hnew).2 t hwired).symm.trans hnone)
  exact ⟨_, e, h.searchRx_locked hr hlocked (hsearch.trans hconnect)⟩

/-- All receivers, if each can be linked. -/
theorem run (htxs : (txs.map TX.handle).Nodup) (rxs : List RX) {before : List RX} {d : Detection}
    (h : SearchInv b txs tx₀ rx₁ s₀ before d) (hrxs : ((before ++ rxs).map RX.handle).Nodup)
    (hrx : ∀ r ∈ rxs, rx₁ r = "PRBS 7") (hunlinked : ∀ r ∈ rxs, s₀.rxLink r = none)
    (hlinkable : Each (Linkable b txs tx₀ s₀) before rxs) :
    ∃ d', Outcome.loop (Detection.searchRx b txs) rxs d = (d', none) ∧
      SearchInv b txs tx₀ rx₁ s₀ (before ++ rxs) d' := by
  induction rxs generalizing before d with
  | nil => exact ⟨d, rfl, by rwa [List.append_nil]⟩
  | cons r rxs ih =>
    obtain ⟨hfirst, hrest⟩ := hlinkable
    obtain ⟨hr, hrxs'⟩ := handle_next hrxs
    obtain ⟨d₁, hround, hinv⟩ := h.round htxs hr (hrx r List.mem_cons_self)
      (hunlinked r List.mem_cons_self) hfirst
    obtain ⟨d', hloop, hdone⟩ := ih hinv hrxs' (fun r' hr' => hrx r' (List.mem_cons_of_mem _ hr'))
      (fun r' hr' => hunlinked r' (List.mem_cons_of_mem _ hr')) hrest
    refine ⟨d', ?_, ?_⟩
    · rw [Outcome.loop, hround, Outcome.andThen, hloop]
    · rwa [List.append_assoc, List.singleton_append] at hdone

/-- The first receiver that cannot be linked ends the search. -/
theorem run_raised (htxs : (txs.map TX.handle).Nodup) (rxs : List RX) {before : List RX}
    {d : Detection} (h : SearchInv b txs tx₀ rx₁ s₀ before d)
    (hrxs : ((before ++ rxs).map RX.handle).Nodup) (hrx : ∀ r ∈ rxs, rx₁ r = "PRBS 7")
    (hunlinked : ∀ r ∈ rxs, s₀.rxLink r = none)
    (hnot : ¬ Each (Linkable b txs tx₀ s₀) before rxs) :
    ∃ d' e, Outcome.loop (Detection.searchRx b txs) rxs d = (d', some e) := by
  induction rxs generalizing before d with
  | nil => exact absurd trivial hnot
  | cons r rxs ih =>
    obtain ⟨hr, hrxs'⟩ := handle_next hrxs
    rcases Classical.em (Linkable b txs tx₀ s₀ before r) with hfirst | hfirst
    · obtain ⟨d₁, hround, hinv⟩ := h.round htxs hr (hrx r List.mem_cons_self)
        (hunlinked r List.mem_cons_self) hfirst
      obtain ⟨d', e, hloop⟩ := ih hinv hrxs' (fun r' hr' => hrx r' (List.mem_cons_of_mem _ hr'))
        (fun r' hr' => hunlinked r' (List.mem_cons_of_mem _ hr')) fun hrest => hnot ⟨hfirst, hrest⟩
      exact ⟨d', e, by rw [Outcome.loop, hround, Outcome.andThen, hloop]⟩
    · obtain ⟨d', e, hround⟩ := h.round_raised hr (hrx r List.mem_cons_self) hfirst
      exact ⟨d', e, Outcome.loop_cons_raised hround rxs⟩

end SearchInv

theorem each_iff {α : Type*} {C : List α → α → Prop} {as : List α} : ∀ {before : List α},
    Each C before as ↔ ∀ pre a post, as = pre ++ a :: post → C (before ++ pre) a := by
  induction as with
  | nil =>
    intro before
    refine iff_of_true trivial fun pre a post h => ?_
    simp at h
  | cons a as ih =>
    intro before
    rw [Each, ih]
    constructor
    · rintro ⟨hfirst, hrest⟩ pre a' post heq
      rcases pre with - | ⟨a₁, pre⟩
      · obtain ⟨rfl, -⟩ := List.cons.inj heq
        rwa [List.append_nil]
      · obtain ⟨rfl, htail⟩ := List.cons.inj heq
        have hC := hrest pre a' post htail
        rwa [List.append_assoc, List.singleton_append] at hC
    · intro hall
      refine ⟨?_, fun pre a' post heq => ?_⟩
      · have hC := hall [] a as rfl
        rwa [List.append_nil] at hC
      · have hC := hall (a :: pre) a' post (by rw [heq, List.cons_append])
        rwa [List.append_assoc, List.singleton_append]

end Search

/-! ### The patterns at the end -/

namespace Detection

variable {b : Board} {d : Detection}

theorem connect_patterns (r : RX) (t : TX) (d : Detection) :
    (d.connect r t).1.patterns = d.patterns := by
  rw [connect]
  dsimp only
  split
  · rfl
  · rfl

/-- Only patterns of listed transmitters change. -/
theorem searchTx_frame (r : RX) (ts : List TX) (d : Detection) :
    (searchTx b r ts d).1.patterns.rx = d.patterns.rx ∧
      ∀ t ∉ ts, (searchTx b r ts d).1.patterns.tx t = d.patterns.tx t := by
  induction ts generalizing d with
  | nil => exact ⟨rfl, fun _ _ => rfl⟩
  | cons u ts ih =>
    have hflip {t : TX} (ht : t ≠ u) : (d.flip u).patterns.tx t = d.patterns.tx t :=
      Function.update_of_ne ht _ _
    rw [searchTx]
    split_ifs with hu
    · exact ⟨(ih d).1, fun t ht => (ih d).2 t (not_or.mp (List.mem_cons.not.mp ht)).2⟩
    · dsimp only
      split_ifs with hlost
      · rw [connect_patterns]
        exact ⟨rfl, fun t ht => hflip (not_or.mp (List.mem_cons.not.mp ht)).1⟩
      · refine ⟨(ih _).1, fun t ht => ?_⟩
        obtain ⟨hne, hts⟩ := not_or.mp (List.mem_cons.not.mp ht)
        rw [(ih _).2 t hts, hflip hne]

theorem searchRx_frame (txs : List TX) (r : RX) (d : Detection) :
    (searchRx b txs r d).1.patterns.rx = d.patterns.rx ∧
      ∀ t ∉ txs, (searchRx b txs r d).1.patterns.tx t = d.patterns.tx t := by
  rw [searchRx]
  split_ifs
  · exact ⟨rfl, fun _ _ => rfl⟩
  · exact searchTx_frame r txs d
  · exact ⟨rfl, fun _ _ => rfl⟩

end Detection

/-- GTs of a target with handles of their own. -/
structure Target.Distinct (target : Target) : Prop where
  rx : (target.gtList.map fun g => g.rx.handle).Nodup
  tx : (target.gtList.map fun g => g.tx.handle).Nodup

theorem Target.Distinct.rxs {target : Target} (h : target.Distinct) (s : State) :
    (((target.unlinked s).map GT.rx).map RX.handle).Nodup := by
  rw [List.map_map]
  exact h.rx.sublist (List.filter_sublist.map _)

theorem Target.Distinct.txs {target : Target} (h : target.Distinct) (s : State) :
    (((target.unlinked s).map GT.tx).map TX.handle).Nodup := by
  rw [List.map_map]
  exact h.tx.sublist (List.filter_sublist.map _)

/-- Every pattern is restored, also when the detection raises. -/
theorem detectLinks_patterns (b : Board) {target : Target} (htarget : target.Distinct)
    (w : World) : (detectLinks b target w).1.patterns = w.patterns := by
  rw [detectLinks]
  dsimp only
  split_ifs
  · rfl
  · have hrxs := htarget.rxs w.links
    have htxs := htarget.txs w.links
    set rxs := (target.unlinked w.links).map GT.rx
    set txs := (target.unlinked w.links).map GT.tx
    have hframe := Outcome.loop_inv (f := Detection.searchRx b txs)
      (P := fun d => d.patterns.rx = (rxs.foldl (saveRegister RX.handle)
          (Py.Dict.empty, w.patterns.rx)).2 ∧
        ∀ t ∉ txs, d.patterns.tx t = w.patterns.tx t)
      (fun r d hd => by
        have hround := Detection.searchRx_frame (b := b) txs r d
        exact ⟨hround.1.trans hd.1, fun t ht => (hround.2 t ht).trans (hd.2 t ht)⟩) rxs
      (s := ⟨w.links, ⟨_, (txs.foldl (saveRegister TX.handle)
        (Py.Dict.empty, w.patterns.tx)).2⟩, [], ∅, ∅⟩)
      ⟨rfl, fun t ht => ((save_spec txs htxs Py.Dict.empty w.patterns.tx).2.2 t).trans (if_neg ht)⟩
    have hrx := restore_save rxs hrxs (f := w.patterns.rx) fun r hr =>
      ((save_spec rxs hrxs Py.Dict.empty w.patterns.rx).2.2 r).trans (if_neg hr)
    have htx := restore_save txs htxs (f := w.patterns.tx) hframe.2
    rw [← hframe.1] at hrx
    exact congrArg₂ Patterns.mk hrx htx

/-! ### What is found -/

/-- A wired pair of unlinked endpoints of the target. -/
structure Wanted (b : Board) (target : Target) (s : State) (r : RX) (t : TX) : Prop where
  wired : b.wiring r = some t
  rx : r ∈ target.gtList.map GT.rx
  tx : t ∈ target.gtList.map GT.tx
  rxUnlinked : s.rxLink r = none
  txUnlinked : s.txLink t = none

/-- One link is made for each wanted pair and none else, and all patterns are as before. -/
structure DetectsAll (b : Board) (target : Target) (w : World) : Prop where
  links : ∃ found pairs, (detectLinks b target w).2 = .ok found ∧
    Created w.links (detectLinks b target w).1.links pairs (found.getD []) ∧ pairs.Nodup ∧
      ∀ r t, (r, t) ∈ pairs ↔ Wanted b target w.links r t
  patterns : (detectLinks b target w).1.patterns = w.patterns

/-- The transmitter of a receiver is tried while it still sends the first pattern if and only if it
    is unlinked. One that is not tried at all is linked or of another target. -/
def Discerned (b : Board) (target : Target) (w : World) (before : List RX) (r : RX) : Prop :=
  ∀ t ∈ b.wiring r,
    if t ∈ (target.unlinked w.links).map GT.tx then
      (Touched b ((target.unlinked w.links).map GT.tx) w.patterns.tx before t ↔
        w.links.txLink t ≠ none)
    else t ∈ target.gtList.map GT.tx → w.links.txLink t ≠ none

/-- So for all unlinked receivers of the target. -/
def Separable (b : Board) (target : Target) (w : World) : Prop :=
  Each (Discerned b target w) [] ((target.unlinked w.links).map GT.rx)

theorem mem_rxs_iff {target : Target} {s : State} {r : RX} :
    r ∈ (target.unlinked s).map GT.rx ↔ r ∈ target.gtList.map GT.rx ∧ s.rxLink r = none := by
  simp only [Target.unlinked, List.mem_map, List.mem_filter, decide_eq_true_eq]
  constructor
  · rintro ⟨g, ⟨hg, hnone⟩, rfl⟩
    exact ⟨⟨g, hg, rfl⟩, hnone⟩
  · rintro ⟨⟨g, hg, rfl⟩, hnone⟩
    exact ⟨g, ⟨hg, hnone⟩, rfl⟩

theorem mem_txs {target : Target} {s : State} {t : TX}
    (h : t ∈ (target.unlinked s).map GT.tx) : t ∈ target.gtList.map GT.tx := by
  obtain ⟨g, hg, rfl⟩ := List.mem_map.mp h
  exact List.mem_map_of_mem (List.mem_of_mem_filter hg)

/-- The search starts with nothing touched. -/
theorem searchInv_start (b : Board) {target : Target} (htarget : target.Distinct) (w : World)
    (rx₁ : RX → String) :
    SearchInv b ((target.unlinked w.links).map GT.tx) w.patterns.tx rx₁ w.links []
      ⟨w.links, ⟨rx₁, (((target.unlinked w.links).map GT.tx).foldl (saveRegister TX.handle)
        (Py.Dict.empty, w.patterns.tx)).2⟩, [], ∅, ∅⟩ := by
  have hsaved := (save_spec _ (htarget.txs w.links) Py.Dict.empty w.patterns.tx).2.2
  refine {
    rx := rfl
    touched := fun t _ htouched => ?_
    untouched := fun t ht _ => (hsaved t).trans (if_pos ht)
    outside := fun t ht => (hsaved t).trans (if_neg ht)
    skip := fun t _ hskip => absurd hskip (Finset.notMem_empty _)
    processed := fun k hk => absurd hk (Finset.notMem_empty _)
    made := ⟨[], .refl w.links, List.nodup_nil, fun r t => ?_⟩ }
  · obtain ⟨r, hr, -⟩ := htouched
    exact nomatch hr
  · refine iff_of_false (fun h => nomatch h) fun h => ?_
    exact nomatch h.mem

/-- The detection when every receiver can be linked. -/
theorem detectLinks_linkable (b : Board) {target : Target} (htarget : target.Distinct)
    (w : World) (hlinkable : Each (SearchInv.Linkable b ((target.unlinked w.links).map GT.tx)
      w.patterns.tx w.links) [] ((target.unlinked w.links).map GT.rx)) :
    ∃ found pairs, (detectLinks b target w).2 = .ok found ∧
      Created w.links (detectLinks b target w).1.links pairs (found.getD []) ∧ pairs.Nodup ∧
        ∀ r t, (r, t) ∈ pairs ↔ FoundIn b ((target.unlinked w.links).map GT.tx) w.patterns.tx
          ((target.unlinked w.links).map GT.rx) r t := by
  have hrxs := htarget.rxs w.links
  have htxs := htarget.txs w.links
  have hsaved := (save_spec _ hrxs Py.Dict.empty w.patterns.rx).2.2
  obtain ⟨d, hloop, hinv⟩ := (searchInv_start b htarget w _).run htxs _ hrxs
    (fun r hr => (hsaved r).trans (if_pos hr)) (fun r hr => (mem_rxs_iff.mp hr).2) hlinkable
  obtain ⟨pairs, hcreated, hnodup, hpairs⟩ := hinv.made
  rw [detectLinks]
  dsimp only
  split_ifs with hnone
  · have hempty : (target.unlinked w.links).map GT.rx = [] := by
      rcases hnone with h | h
      · rw [List.map_eq_nil_iff.mp h]
        rfl
      · exact h
    refine ⟨none, [], rfl, .refl w.links, List.nodup_nil, fun r t => ?_⟩
    refine iff_of_false (fun h => nomatch h) fun h => ?_
    have hmem := h.mem
    rw [hempty] at hmem
    exact nomatch hmem
  · rw [hloop]
    exact ⟨some d.newLinks, pairs, rfl, hcreated, hnodup, hpairs⟩

theorem detectLinks_raised (b : Board) {target : Target} (htarget : target.Distinct)
    (w : World) (hnot : ¬ Each (SearchInv.Linkable b ((target.unlinked w.links).map GT.tx)
      w.patterns.tx w.links) [] ((target.unlinked w.links).map GT.rx)) :
    ∃ e, (detectLinks b target w).2 = .error e := by
  have hrxs := htarget.rxs w.links
  have hsaved := (save_spec _ hrxs Py.Dict.empty w.patterns.rx).2.2
  obtain ⟨d, e, hloop⟩ := (searchInv_start b htarget w _).run_raised (htarget.txs w.links) _ hrxs
    (fun r hr => (hsaved r).trans (if_pos hr)) (fun r hr => (mem_rxs_iff.mp hr).2) hnot
  rw [detectLinks]
  dsimp only
  split_ifs with hnone
  · have hempty : (target.unlinked w.links).map GT.rx = [] := by
      rcases hnone with h | h
      · rw [List.map_eq_nil_iff.mp h]
        rfl
      · exact h
    rw [hempty] at hnot
    exact absurd trivial hnot
  · rw [hloop]
    exact ⟨e, rfl⟩

theorem Created.pairs_eq {s₀ s : State} {pairs pairs' : List (RX × TX)}
    {newLinks : List LinkId} (h : Created s₀ s pairs newLinks)
    (h' : Created s₀ s pairs' newLinks) : pairs = pairs' := by
  refine List.map_injective_iff.mpr ?_ (h.endpoints.symm.trans h'.endpoints)
  rintro ⟨r, t⟩ ⟨r', t'⟩ heq
  obtain ⟨hr, ht⟩ := Prod.mk.inj heq
  exact congrArg₂ Prod.mk (Option.some.inj hr) (Option.some.inj ht)

theorem prefix_unique {α : Type*} {l pre pre' post post' : List α} {a : α} (hnodup : l.Nodup)
    (h : l = pre ++ a :: post) (h' : l = pre' ++ a :: post') : pre = pre' := by
  have hnot {pre post : List α} (h : l = pre ++ a :: post) : a ∉ pre ∧ a ∉ post := by
    rw [h] at hnodup
    refine ⟨fun hmem => List.disjoint_of_nodup_append hnodup hmem List.mem_cons_self, ?_⟩
    exact (List.nodup_cons.mp hnodup.of_append_right).1
  exact ((List.append_cons_inj_of_notMem (hnot h).1 (hnot h).2).mp (h.symm.trans h')).1

/-- Detection finds exactly the wiring if and only if the search tells the transmitters apart. -/
theorem detectsAll_iff (b : Board) (target : Target) (htarget : target.Distinct) (w : World) :
    DetectsAll b target w ↔ Separable b target w := by
  have hnodup : ((target.unlinked w.links).map GT.rx).Nodup := (htarget.rxs w.links).of_map _
  rw [Separable, each_iff]
  constructor
  · intro h
    obtain ⟨found, pairs, hok, hcreated, -, hpairs⟩ := h.links
    have hlinkable : Each (SearchInv.Linkable b ((target.unlinked w.links).map GT.tx)
        w.patterns.tx w.links) [] ((target.unlinked w.links).map GT.rx) := by
      by_contra hnot
      obtain ⟨e, he⟩ := detectLinks_raised b htarget w hnot
      rw [hok] at he
      exact nomatch he
    obtain ⟨found', pairs', hok', hcreated', -, hfound⟩ :=
      detectLinks_linkable b htarget w hlinkable
    obtain rfl := Except.ok.inj (hok.symm.trans hok')
    obtain rfl := hcreated.pairs_eq hcreated'
    intro pre r post heq t hwired
    rw [List.nil_append]
    have hr : r ∈ (target.unlinked w.links).map GT.rx := by
      rw [heq]
      exact List.mem_append_right _ List.mem_cons_self
    have hwanted (htx : t ∈ target.gtList.map GT.tx) (hnone : w.links.txLink t = none) :
        FoundIn b ((target.unlinked w.links).map GT.tx) w.patterns.tx
          ((target.unlinked w.links).map GT.rx) r t := by
      rw [← hfound, hpairs]
      exact ⟨hwired, (mem_rxs_iff.mp hr).1, htx, (mem_rxs_iff.mp hr).2, hnone⟩
    split_ifs with htx
    · constructor
      · intro htouched hnone
        obtain ⟨pre', post', heq', -, -, hnot⟩ := hwanted (mem_txs htx) hnone
        have hpre : pre' = pre := prefix_unique hnodup heq' heq
        exact hnot (hpre ▸ htouched)
      · intro hlinked
        by_contra hnot
        exact hlinked (each_iff.mp hlinkable pre r post heq t htx hwired hnot)
    · intro hmem hnone
      obtain ⟨-, -, -, -, ht, -⟩ := hwanted hmem hnone
      exact htx ht
  · intro hall
    have hlinkable : Each (SearchInv.Linkable b ((target.unlinked w.links).map GT.tx)
        w.patterns.tx w.links) [] ((target.unlinked w.links).map GT.rx) := by
      rw [each_iff]
      intro pre r post heq t htx hwired hnot
      have hdiscerned := hall pre r post heq t hwired
      rw [if_pos htx] at hdiscerned
      by_contra hlinked
      exact hnot (hdiscerned.mpr hlinked)
    obtain ⟨found, pairs, hok, hcreated, hpairsNodup, hfound⟩ :=
      detectLinks_linkable b htarget w hlinkable
    refine ⟨⟨found, pairs, hok, hcreated, hpairsNodup, fun r t => ?_⟩,
      detectLinks_patterns b htarget w⟩
    rw [hfound]
    constructor
    · rintro ⟨pre, post, heq, hwired, htx, hnot⟩
      have hr : r ∈ (target.unlinked w.links).map GT.rx := by
        rw [heq]
        exact List.mem_append_right _ List.mem_cons_self
      exact ⟨hwired, (mem_rxs_iff.mp hr).1, mem_txs htx, (mem_rxs_iff.mp hr).2,
        each_iff.mp hlinkable pre r post heq t htx hwired hnot⟩
    · intro hwanted
      obtain ⟨pre, post, heq⟩ :=
        List.append_of_mem (mem_rxs_iff.mpr ⟨hwanted.rx, hwanted.rxUnlinked⟩)
      have hdiscerned := hall pre r post heq t hwanted.wired
      split_ifs at hdiscerned with htx
      · exact ⟨pre, post, heq, hwanted.wired, htx,
          fun htouched => hdiscerned.mp htouched hwanted.txUnlinked⟩
      · exact absurd hwanted.txUnlinked (hdiscerned hwanted.tx)

/-! ### Conditions that can be evaluated -/

instance decidableEach {α : Type*} {C : List α → α → Prop} [∀ before a, Decidable (C before a)] :
    ∀ before as : List α, Decidable (Each C before as)
  | _, [] => .isTrue trivial
  | before, a :: as =>
    have := decidableEach (C := C) (before ++ [a]) as
    inferInstanceAs (Decidable (C before a ∧ Each C (before ++ [a]) as))

instance {b : Board} {txs : List TX} {tx₀ : TX → String} {r : RX} {t : TX} :
    Decidable (Touches b txs tx₀ r t) :=
  inferInstanceAs (Decidable (∃ t' ∈ b.wiring r,
    if t' ∈ txs then txs.idxOf t ≤ txs.idxOf t' else tx₀ t' = "PRBS 7"))

instance {b : Board} {txs : List TX} {tx₀ : TX → String} {before : List RX} {t : TX} :
    Decidable (Touched b txs tx₀ before t) :=
  inferInstanceAs (Decidable (∃ r ∈ before, Touches b txs tx₀ r t))

instance {b : Board} {target : Target} {w : World} {before : List RX} {r : RX} :
    Decidable (Discerned b target w before r) :=
  inferInstanceAs (Decidable (∀ t ∈ b.wiring r,
    if t ∈ (target.unlinked w.links).map GT.tx then
      (Touched b ((target.unlinked w.links).map GT.tx) w.patterns.tx before t ↔
        w.links.txLink t ≠ none)
    else t ∈ target.gtList.map GT.tx → w.links.txLink t ≠ none))

instance {b : Board} {target : Target} {w : World} : Decidable (Separable b target w) :=
  inferInstanceAs (Decidable
    (Each (Discerned b target w) [] ((target.unlinked w.links).map GT.rx)))

private def gt₀ : GT := ⟨⟨0, "Quad_205.RX_0"⟩, ⟨0, "Quad_205.TX_0"⟩⟩

private def gt₁ : GT := ⟨⟨1, "Quad_205.RX_1"⟩, ⟨1, "Quad_205.TX_1"⟩⟩

/-- Wires from two transmitters to the receivers of two GTs. -/
private def wiredTo (t₀ t₁ : TX) (hne : t₀ ≠ t₁) : Board where
  wiring r := if r = gt₀.rx then some t₀ else if r = gt₁.rx then some t₁ else none
  report _ := "10.312 Gbps"
  single := by
    have hends {r : RX} {t : TX} (h : (if r = gt₀.rx then some t₀
        else if r = gt₁.rx then some t₁ else none) = some t) :
        r = gt₀.rx ∧ t = t₀ ∨ r = gt₁.rx ∧ t = t₁ := by
      split_ifs at h with hfirst hsecond
      · exact .inl ⟨hfirst, (Option.some.inj h).symm⟩
      · exact .inr ⟨hsecond, (Option.some.inj h).symm⟩
    intro r r' t h h'
    rcases hends h with ⟨rfl, rfl⟩ | ⟨rfl, rfl⟩
    · rcases hends h' with ⟨rfl, -⟩ | ⟨-, heq⟩
      · rfl
      · exact absurd heq hne
    · rcases hends h' with ⟨-, heq⟩ | ⟨rfl, -⟩
      · exact absurd heq.symm hne
      · rfl
  report_ne _ := by decide

private def twoGts : Target := .gts [gt₀, gt₁]

private def fresh : World := ⟨State.initial, ⟨fun _ => "PRBS 31", fun _ => "PRBS 31"⟩⟩

theorem twoGts_distinct : twoGts.Distinct := ⟨by decide, by decide⟩

/-- Each GT is wired to itself. -/
theorem detectsAll_loopback :
    DetectsAll (wiredTo gt₀.tx gt₁.tx (by decide)) twoGts fresh :=
  (detectsAll_iff _ twoGts twoGts_distinct fresh).mpr (by decide +kernel)

/-- Each of two GTs is wired to the other: the first receiver takes the lock from both. -/
theorem not_detectsAll_crossed : ¬ ∀ (b : Board) (target : Target) (w : World),
    target.Distinct → DetectsAll b target w := by
  intro hall
  obtain ⟨found, pairs, hok, hcreated, -, hpairs⟩ :=
    (hall (wiredTo gt₁.tx gt₀.tx (by decide)) twoGts fresh twoGts_distinct).links
  have hone : (detectLinks (wiredTo gt₁.tx gt₀.tx (by decide)) twoGts fresh).2.toOption =
      some (some [0]) := by decide +kernel
  rw [hok] at hone
  obtain rfl := Option.some.inj hone
  have hlength := congrArg List.length hcreated.endpoints
  rw [List.length_map, List.length_map] at hlength
  have hfirst := (hpairs gt₀.rx gt₁.tx).mpr
    ⟨by decide, by decide, by decide, by decide, by decide⟩
  have hsecond := (hpairs gt₁.rx gt₀.tx).mpr
    ⟨by decide, by decide, by decide, by decide, by decide⟩
  obtain ⟨p, rfl⟩ := List.length_eq_one_iff.mp hlength.symm
  have hsame := (List.mem_singleton.mp hfirst).trans (List.mem_singleton.mp hsecond).symm
  exact absurd hsame (by decide)

end Chipscopy.Ibert
