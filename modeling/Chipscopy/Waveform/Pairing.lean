import Chipscopy.Waveform.Transactions

/-! Transactions are completed once

    A pending transaction stands in the queue of its ID and under its ticket number, and a close
    takes it out of one of them only. What the closes of an ID complete is told by a tally: the
    tickets that counters have named, and the length of the front of the queue that the other
    closes have served. No transaction is completed twice just when no counter names a ticket of
    that front. -/

namespace Chipscopy.Waveform

/-! ### The tally of an ID -/

structure Tally where
  opens : ℕ := 0
  named : List ℕ := []
  served : ℕ := 0
  deriving DecidableEq, Repr

/-- A close that the queue has to serve. -/
def Tally.serve (t : Tally) : Tally :=
  if t.served < t.opens then { t with served := t.served + 1 } else t

/-- A close by its counter reading, if that names a transaction no close has named before. -/
def Tally.close (t : Tally) : Option ℕ → Tally
  | none => t.serve
  | some r =>
    if 0 < r ∧ r ≤ t.opens ∧ t.opens - r ∉ t.named then
      { t with named := (t.opens - r) :: t.named }
    else t.serve

section Events

variable (opens : ℕ → Option OpenEvent) (closes : ℕ → Option CloseEvent)

/-- The tally of an ID over the first samples. -/
def tally (id : ℕ) : ℕ → Tally
  | 0 => {}
  | n + 1 =>
    let t := tally id n
    let t := if (opens n).any (·.id = id) then { t with opens := t.opens + 1 } else t
    match closes n with
    | some c => if c.id = id then t.close c.reading else t
    | none => t

/-- No counter names a transaction that the queue serves. -/
def NamesUnserved (n : ℕ) : Prop :=
  ∀ id, ∀ k ∈ (tally opens closes id n).named, (tally opens closes id n).served ≤ k

/-- The completed transactions are accounted for: an open is completed once, at a sample where the
    close rule applies for its ID, and a close completes one open. -/
structure Conserved (n : ℕ) (txns : List Transaction) : Prop where
  once : ∀ id, ((txns.filter (·.id = id)).map (·.startIdx)).Nodup
  count : ∀ id i, (txns.filter fun t => t.id = id ∧ ∃ e ∈ t.endIdx, e ≤ i).length ≤
    ((List.range (i + 1)).filter fun j => (opens j).any (·.id = id)).length
  paired : ∀ t ∈ txns, ∃ e < n, t.endIdx = some e ∧ t.startIdx ≤ e ∧
    (∃ o, opens t.startIdx = some o ∧ o.id = t.id) ∧ ∃ c, closes e = some c ∧ c.id = t.id
  closesOnce : (txns.map (·.endIdx)).Nodup

/-- The transactions of an ID that have opened, oldest first. -/
def opened (kind : String) (id : ℕ) : ℕ → List Transaction
  | 0 => []
  | n + 1 =>
    opened kind id n ++ match opens n with
      | some o => if o.id = id then [o.transaction kind n] else []
      | none => []

/-- The loop over the samples, without the rules. -/
def pairing (kind : String) (slot : ℕ) (probes : SignalMap) : ℕ → Pairing
  | 0 => {}
  | n + 1 =>
    ((pairing kind slot probes n).openIf kind n (opens n)).closeIf slot probes n (closes n)

end Events

/-! ### Two ways to pick items of a list -/

section Picks

variable {α : Type*} [Inhabited α] {l : List α}

/-- Items picked by index, each index once, and a front of the list: an item is picked twice when an
    index lies in the front. -/
theorem nodup_picks_iff (hl : l.Nodup) {named : List ℕ} (hnamed : named.Nodup)
    (hlt : ∀ k ∈ named, k < l.length) (served : ℕ) :
    (named.map (fun k => l.getD k default) ++ l.take served).Nodup ↔ ∀ k ∈ named, served ≤ k := by
  have hget : ∀ k, ∀ h : k < l.length, l.getD k default = l[k] := fun k h => by
    rw [List.getD_eq_getElem?_getD, List.getElem?_eq_getElem h, Option.getD_some]
  have hinj : (named.map (fun k => l.getD k default)).Nodup := by
    refine hnamed.map_on fun j hj k hk heq => ?_
    rw [hget j (hlt j hj), hget k (hlt k hk)] at heq
    exact (hl.getElem_inj_iff).mp heq
  rw [List.nodup_append]
  constructor
  · rintro ⟨-, -, hdisjoint⟩ k hk
    by_contra hless
    have hfront : l.getD k default ∈ l.take served := by
      rw [hget k (hlt k hk)]
      exact List.mem_take_iff_getElem.mpr ⟨k, by have := hlt k hk; omega, rfl⟩
    exact hdisjoint _ (List.mem_map_of_mem hk) _ hfront rfl
  · intro hbehind
    refine ⟨hinj, hl.sublist (List.take_sublist served l), ?_⟩
    rintro _ ha b hb rfl
    obtain ⟨k, hk, rfl⟩ := List.mem_map.mp ha
    obtain ⟨j, hj, hjk⟩ := List.mem_take_iff_getElem.mp hb
    rw [hget k (hlt k hk)] at hjk
    have hsame : j = k := (hl.getElem_inj_iff).mp hjk
    have := hbehind k hk
    omega

end Picks

/-! ### The stores follow the tally -/

section Follow

variable {opens : ℕ → Option OpenEvent} {closes : ℕ → Option CloseEvent} {kind : String}

theorem id_of_mem_opened {id : ℕ} : ∀ {n : ℕ} {t : Transaction}, t ∈ opened opens kind id n →
    t.id = id ∧ t.startIdx < n ∧ ∃ o, opens t.startIdx = some o ∧ o.id = id
  | n + 1, t, h => by
    rcases List.mem_append.mp h with hold | hnew
    · obtain ⟨hid, hlt, ho⟩ := id_of_mem_opened hold
      exact ⟨hid, hlt.trans (Nat.lt_succ_self n), ho⟩
    · split at hnew
      · next o ho =>
        split at hnew
        · next hid =>
          rw [List.mem_singleton] at hnew
          subst hnew
          exact ⟨hid, Nat.lt_succ_self n, o, ho, hid⟩
        · cases hnew
      · cases hnew

theorem nodup_opened (id : ℕ) : ∀ n, ((opened opens kind id n).map (·.startIdx)).Nodup
  | 0 => List.nodup_nil
  | n + 1 => by
    rw [opened, List.map_append]
    refine List.nodup_append.mpr ⟨nodup_opened id n, ?_, ?_⟩
    · split
      · split
        · exact List.nodup_singleton _
        · exact List.nodup_nil
      · exact List.nodup_nil
    · intro a ha b hb hab
      obtain ⟨t, ht, rfl⟩ := List.mem_map.mp ha
      obtain ⟨t', ht', rfl⟩ := List.mem_map.mp hb
      have hold := (id_of_mem_opened ht).2.1
      split at ht'
      · split at ht'
        · rw [List.mem_singleton] at ht'
          subst ht'
          exact absurd hab hold.ne
        · cases ht'
      · cases ht'

/-- What the stores hold of an ID whose transactions `l` have opened. -/
structure Follows (id : ℕ) (l : List Transaction) (s : Pairing) (t : Tally) : Prop where
  opens_eq : t.opens = l.length
  served_le : t.served ≤ t.opens
  named_nodup : t.named.Nodup
  named_lt : ∀ k ∈ t.named, k < t.opens
  ticket : s.nextTicket id = t.opens
  queue : s.pending id = l.drop t.served
  tickets : ∀ k : ℤ, s.pendingByIdTicket id k =
    if 0 ≤ k ∧ k.toNat ∉ t.named then l[k.toNat]? else none
  done : ((s.completed.filter (·.id = id)).map (·.startIdx)).Perm
    (t.named.map (fun k => (l.map (·.startIdx)).getD k default) ++
      (l.map (·.startIdx)).take t.served)

variable {id : ℕ} {l : List Transaction} {s : Pairing} {t : Tally}

theorem Follows.openAt_self (h : Follows id l s t) (i : ℕ) {e : OpenEvent} (he : e.id = id) :
    Follows id (l ++ [e.transaction kind i]) (s.openAt kind i e)
      { t with opens := t.opens + 1 } := by
  subst he
  refine ⟨?_, Nat.le_succ_of_le h.served_le, h.named_nodup, ?_, ?_, ?_, ?_, ?_⟩
  · simp [h.opens_eq]
  · exact fun k hk => Nat.lt_succ_of_lt (h.named_lt k hk)
  · simp [Pairing.openAt, h.ticket]
  · rw [List.drop_append_of_le_length (h.opens_eq ▸ h.served_le)]
    simp [Pairing.openAt, h.queue]
  · intro k
    simp only [Pairing.openAt, Function.update_self, h.ticket]
    by_cases hk : k = t.opens
    · subst hk
      have hnew : t.opens ∉ t.named := fun hmem => lt_irrefl _ (h.named_lt _ hmem)
      rw [Function.update_self, if_pos ⟨Int.natCast_nonneg _, by rwa [Int.toNat_natCast]⟩,
        Int.toNat_natCast, h.opens_eq, List.getElem?_concat_length]
    · rw [Function.update_of_ne hk, h.tickets]
      split
      · next hcond =>
        rcases Nat.lt_or_ge k.toNat l.length with hlt | hge
        · rw [List.getElem?_append_left hlt]
        · have hopens := h.opens_eq
          rw [List.getElem?_eq_none hge, List.getElem?_eq_none (by
            rw [List.length_append, List.length_singleton]
            omega)]
      · rfl
  · have hfront : ((l ++ [e.transaction kind i]).map (·.startIdx)).take t.served =
        (l.map (·.startIdx)).take t.served := by
      rw [List.map_append, List.take_append_of_le_length (by
        rw [List.length_map, ← h.opens_eq]
        exact h.served_le)]
    have hnamed : t.named.map
        (fun k => ((l ++ [e.transaction kind i]).map (·.startIdx)).getD k default) =
          t.named.map (fun k => (l.map (·.startIdx)).getD k default) := by
      refine List.map_congr_left fun k hk => ?_
      have hlt : k < (l.map (·.startIdx)).length := by
        rw [List.length_map, ← h.opens_eq]
        exact h.named_lt k hk
      rw [List.map_append, List.getD_append _ _ _ _ hlt]
    rw [hfront, hnamed]
    exact h.done

theorem Follows.openAt_other (h : Follows id l s t) (i : ℕ) {e : OpenEvent} (he : e.id ≠ id) :
    Follows id l (s.openAt kind i e) t := by
  have hne : id ≠ e.id := he.symm
  exact ⟨h.opens_eq, h.served_le, h.named_nodup, h.named_lt,
    by simp [Pairing.openAt, Function.update_of_ne hne, h.ticket],
    by simp [Pairing.openAt, Function.update_of_ne hne, h.queue],
    by simp [Pairing.openAt, Function.update_of_ne hne, h.tickets], h.done⟩

/-- The head of the queue is completed. -/
theorem Follows.serve (h : Follows id l s t) (hid : ∀ x ∈ l, x.id = id) (slot : ℕ)
    (probes : SignalMap) (i : ℕ) (e : CloseEvent) :
    Follows id l (Pairing.complete slot probes i e (s.popPending id)) t.serve := by
  rw [Tally.serve]
  split
  · next hless =>
    have hlt : t.served < l.length := h.opens_eq ▸ hless
    have hhead : (s.pending id).head? = some l[t.served] := by
      rw [h.queue, List.drop_eq_getElem_cons hlt, List.head?_cons]
    have htail : (s.pending id).tail = l.drop (t.served + 1) := by
      rw [h.queue, List.tail_drop]
    rw [Pairing.popPending, hhead, Pairing.complete]
    refine ⟨h.opens_eq, hless, h.named_nodup, h.named_lt, h.ticket, ?_, h.tickets, ?_⟩
    · simp [htail]
    · have hkeep : decide (l[t.served].id = id) = true :=
        decide_eq_true (hid _ (List.getElem_mem hlt))
      have hlt' : t.served < (l.map (·.startIdx)).length := by rwa [List.length_map]
      rw [List.filter_append, List.map_append, List.filter_cons_of_pos (by exact hkeep),
        List.filter_nil, List.map_singleton, List.take_succ_eq_append_getElem hlt', ← List.append_assoc,
        List.getElem_map]
      exact h.done.append_right _
  · next hall =>
    have hempty : s.pending id = [] := by
      rw [h.queue, List.drop_eq_nil_of_le (h.opens_eq ▸ not_lt.mp hall)]
    have hqueue := h.queue
    rw [Pairing.popPending, hempty, List.head?_nil, Pairing.complete, List.tail_nil]
    refine ⟨h.opens_eq, h.served_le, h.named_nodup, h.named_lt, h.ticket, ?_, h.tickets, h.done⟩
    rw [← hqueue, hempty]
    exact Function.update_self ..

/-- The transaction under a ticket is completed. -/
theorem Follows.named (h : Follows id l s t) (hid : ∀ x ∈ l, x.id = id) (slot : ℕ)
    (probes : SignalMap) (i : ℕ) (e : CloseEvent) {k : ℕ} (hk : k < l.length) (hnew : k ∉ t.named) :
    Follows id l (Pairing.complete slot probes i e (some l[k], (s.popTicket id k).2))
      { t with named := k :: t.named } := by
  rw [Pairing.complete, Pairing.popTicket]
  refine ⟨h.opens_eq, h.served_le, List.nodup_cons.mpr ⟨hnew, h.named_nodup⟩, ?_, h.ticket, h.queue,
    ?_, ?_⟩
  · intro j hj
    rcases List.mem_cons.mp hj with rfl | hj
    · rwa [h.opens_eq]
    · exact h.named_lt j hj
  · intro j
    simp only [Function.update_self]
    by_cases hjk : j = k
    · subst hjk
      rw [Function.update_self, if_neg (by simp)]
    · rw [Function.update_of_ne hjk, h.tickets]
      have hcond : (0 ≤ j ∧ j.toNat ∉ t.named) ↔ (0 ≤ j ∧ j.toNat ∉ k :: t.named) := by
        rw [List.mem_cons, not_or]
        constructor
        · rintro ⟨hpos, hmem⟩
          exact ⟨hpos, by omega, hmem⟩
        · rintro ⟨hpos, -, hmem⟩
          exact ⟨hpos, hmem⟩
      simp only [hcond]
  · have hkeep : decide (l[k].id = id) = true := decide_eq_true (hid _ (List.getElem_mem hk))
    have hstart : (l.map (·.startIdx)).getD k default = l[k].startIdx := by
      rw [List.getD_eq_getElem?_getD, List.getElem?_map, List.getElem?_eq_getElem hk]
      rfl
    rw [List.filter_append, List.map_append, List.filter_cons_of_pos (by exact hkeep),
      List.filter_nil, List.map_singleton, List.map_cons, hstart]
    exact (List.perm_append_singleton _ _).trans (h.done.cons _)

/-- A ticket that names nothing. -/
theorem Follows.miss (h : Follows id l s t) {k : ℤ} (hnone : s.pendingByIdTicket id k = none) :
    Follows id l (s.popTicket id k).2 t := by
  have hsame : Function.update s.pendingByIdTicket id
      (Function.update (s.pendingByIdTicket id) k none) = s.pendingByIdTicket := by
    rw [← hnone, Function.update_eq_self, Function.update_eq_self]
  rw [Pairing.popTicket, hsame]
  exact h

theorem Follows.closeAt_self (h : Follows id l s t) (hid : ∀ x ∈ l, x.id = id) (slot : ℕ)
    (probes : SignalMap) (i : ℕ) {e : CloseEvent} (he : e.id = id) :
    Follows id l (s.closeAt slot probes i e) (t.close e.reading) := by
  rw [Pairing.closeAt, Pairing.take, he]
  cases e.reading with
  | none => exact h.serve hid slot probes i e
  | some r =>
    have hvalue := h.tickets ((t.opens : ℤ) - r)
    have hlen := h.opens_eq
    by_cases hcond : 0 < r ∧ r ≤ t.opens ∧ t.opens - r ∉ t.named
    · obtain ⟨hpos, hle, hnew⟩ := hcond
      have hk : t.opens - r < l.length := by omega
      have hcast : (t.opens : ℤ) - r = (t.opens - r : ℕ) := by omega
      rw [hcast, if_pos ⟨Int.natCast_nonneg _, by rwa [Int.toNat_natCast]⟩, Int.toNat_natCast,
        List.getElem?_eq_getElem hk] at hvalue
      have hnamed := h.named hid slot probes i e hk hnew
      simp only [Pairing.popTicket] at hnamed
      simp only [Tally.close, if_pos (And.intro hpos (And.intro hle hnew)), Pairing.popTicket,
        h.ticket, hcast, hvalue]
      exact hnamed
    · have hnone : s.pendingByIdTicket id ((t.opens : ℤ) - r) = none := by
        rw [hvalue]
        split
        · next hfound =>
          refine List.getElem?_eq_none ?_
          by_contra hlt
          refine hcond ⟨by omega, by omega, ?_⟩
          have hnat : ((t.opens : ℤ) - r).toNat = t.opens - r := by omega
          rw [← hnat]
          exact hfound.2
        · rfl
      have hserve := (h.miss hnone).serve hid slot probes i e
      simp only [Pairing.popTicket] at hserve
      simp only [Tally.close, if_neg hcond, Pairing.popTicket, h.ticket, hnone]
      exact hserve

/-- A close takes a transaction of its own ID. -/
theorem Follows.mem_of_take {e : CloseEvent} (h : Follows e.id l s t) {x : Transaction}
    (hx : (s.take e).1 = some x) : x ∈ l := by
  have hqueue : ∀ y, (s.pending e.id).head? = some y → y ∈ l := by
    intro y hy
    rw [h.queue] at hy
    exact List.mem_of_mem_drop (List.mem_of_mem_head? hy)
  rw [Pairing.take] at hx
  split at hx
  · exact hqueue x hx
  · next r hr =>
    simp only [Pairing.popTicket] at hx
    split at hx
    · next y hy =>
      cases hx
      rw [h.tickets] at hy
      split at hy
      · exact List.mem_of_getElem? hy
      · cases hy
    · exact hqueue x hx

theorem Pairing.take_other (s : Pairing) {e : CloseEvent} (hne : id ≠ e.id) :
    (s.take e).2.nextTicket id = s.nextTicket id ∧ (s.take e).2.pending id = s.pending id ∧
      (s.take e).2.pendingByIdTicket id = s.pendingByIdTicket id := by
  rw [Pairing.take]
  split
  · simp [Pairing.popPending, Function.update_of_ne hne]
  · simp only [Pairing.popTicket, Pairing.popPending]
    split <;> simp [Function.update_of_ne hne]

theorem Pairing.completed_take (s : Pairing) (e : CloseEvent) :
    (s.take e).2.completed = s.completed := by
  rw [Pairing.take]
  split
  · rfl
  · simp only [Pairing.popTicket, Pairing.popPending]
    split <;> rfl

theorem Follows.closeAt_other (h : Follows id l s t) {l' : List Transaction} {t' : Tally}
    {e : CloseEvent} (h' : Follows e.id l' s t') (hid : ∀ x ∈ l', x.id = e.id) (slot : ℕ)
    (probes : SignalMap) (i : ℕ) (he : e.id ≠ id) : Follows id l (s.closeAt slot probes i e) t := by
  have hne : id ≠ e.id := he.symm
  obtain ⟨hticket, hqueue, htickets⟩ := s.take_other hne
  have hcompleted := s.completed_take e
  rw [Pairing.closeAt]
  cases hx : s.take e with
  | mk x s' =>
    rw [hx] at hticket hqueue htickets hcompleted
    cases x with
    | none =>
      exact ⟨h.opens_eq, h.served_le, h.named_nodup, h.named_lt, hticket.trans h.ticket,
        hqueue.trans h.queue, fun k => (congrFun htickets k).trans (h.tickets k),
        hcompleted ▸ h.done⟩
    | some x =>
      have hxid : x.id ≠ id := by
        rw [hid x (h'.mem_of_take (by rw [hx]))]
        exact he
      refine ⟨h.opens_eq, h.served_le, h.named_nodup, h.named_lt, hticket.trans h.ticket,
        hqueue.trans h.queue, fun k => (congrFun htickets k).trans (h.tickets k), ?_⟩
      have hskip : ¬ decide (x.id = id) = true := by simpa using hxid
      rw [Pairing.complete, hcompleted, List.filter_append, List.filter_cons_of_neg (by exact hskip),
        List.filter_nil, List.append_nil]
      exact h.done

variable {slot : ℕ} {probes : SignalMap}

theorem follows_openIf {n : ℕ} (h : ∀ id, Follows id (opened opens kind id n) s
    (tally opens closes id n)) (id : ℕ) :
    Follows id (opened opens kind id (n + 1)) (s.openIf kind n (opens n))
      (if (opens n).any (·.id = id) then
        { tally opens closes id n with opens := (tally opens closes id n).opens + 1 }
      else tally opens closes id n) := by
  rw [opened]
  cases opens n with
  | none => simpa [Pairing.openIf] using h id
  | some e =>
    by_cases he : e.id = id
    · simpa [he, Pairing.openIf] using (h id).openAt_self n he
    · simpa [he, Pairing.openIf] using (h id).openAt_other n he

/-- The stores of every ID, over any samples. -/
theorem follows_pairing : ∀ (n id : ℕ), Follows id (opened opens kind id n)
    (pairing opens closes kind slot probes n) (tally opens closes id n)
  | 0, id => by
    refine ⟨rfl, le_rfl, List.nodup_nil, fun _ hk => (nomatch hk), rfl, rfl, fun k => ?_,
      List.Perm.refl _⟩
    simp [pairing, opened]
  | n + 1, id => by
    have hopened := follows_openIf (follows_pairing n)
    have hmem : ∀ id, ∀ x ∈ opened opens kind id (n + 1), x.id = id :=
      fun id x hx => (id_of_mem_opened hx).1
    simp only [pairing, tally]
    cases closes n with
    | none => exact hopened id
    | some c =>
      by_cases hc : c.id = id
      · simp only [if_pos hc]
        exact (hopened id).closeAt_self (hmem id) slot probes n hc
      · simp only [if_neg hc]
        exact (hopened id).closeAt_other (hopened c.id) (hmem c.id) slot probes n hc

/-- No open is completed twice just when no counter names what the queue serves. -/
theorem once_iff_namesUnserved (n : ℕ) :
    (∀ id, (((pairing opens closes kind slot probes n).completed.filter (·.id = id)).map
      (·.startIdx)).Nodup) ↔ NamesUnserved opens closes n := by
  refine forall_congr' fun id => ?_
  have h : Follows id (opened opens kind id n) (pairing opens closes kind slot probes n) _ :=
    follows_pairing n id
  have hlt : ∀ k ∈ (tally opens closes id n).named,
      k < ((opened opens kind id n).map (·.startIdx)).length := by
    intro k hk
    rw [List.length_map, ← h.opens_eq]
    exact h.named_lt k hk
  rw [h.done.nodup_iff]
  exact nodup_picks_iff (nodup_opened id n) h.named_nodup hlt _

/-- What one sample completes. -/
theorem completed_succ (n : ℕ) : (pairing opens closes kind slot probes (n + 1)).completed =
      (pairing opens closes kind slot probes n).completed ∨
    ∃ c x, closes n = some c ∧ x ∈ opened opens kind c.id (n + 1) ∧
      (pairing opens closes kind slot probes (n + 1)).completed =
        (pairing opens closes kind slot probes n).completed ++
          [{ x with endIdx := some n, resp := c.resp, slot := slot, probes := probes }] := by
  have hopenIf : ((pairing opens closes kind slot probes n).openIf kind n (opens n)).completed =
      (pairing opens closes kind slot probes n).completed := by
    cases opens n <;> rfl
  have hfollows : ∀ id, Follows id (opened opens kind id (n + 1))
      ((pairing opens closes kind slot probes n).openIf kind n (opens n)) _ :=
    follows_openIf (follows_pairing n)
  rw [pairing]
  cases hclose : closes n with
  | none => exact Or.inl hopenIf
  | some c =>
    have htake := Pairing.completed_take
      ((pairing opens closes kind slot probes n).openIf kind n (opens n)) c
    have hmem : ∀ x, (((pairing opens closes kind slot probes n).openIf kind n
        (opens n)).take c).1 = some x → x ∈ opened opens kind c.id (n + 1) :=
      fun x hx => (hfollows c.id).mem_of_take hx
    rw [Pairing.closeIf, Pairing.closeAt]
    cases hx : ((pairing opens closes kind slot probes n).openIf kind n (opens n)).take c with
    | mk x s' =>
      rw [hx] at htake hmem
      cases x with
      | none => exact Or.inl (htake.trans hopenIf)
      | some x =>
        refine Or.inr ⟨c, x, rfl, hmem x rfl, ?_⟩
        rw [Pairing.complete, htake, hopenIf]

theorem paired_pairing : ∀ (n : ℕ), ∀ t ∈ (pairing opens closes kind slot probes n).completed,
    ∃ e < n, t.endIdx = some e ∧ t.startIdx ≤ e ∧
      (∃ o, opens t.startIdx = some o ∧ o.id = t.id) ∧ ∃ c, closes e = some c ∧ c.id = t.id
  | 0, t, ht => nomatch ht
  | n + 1, t, ht => by
    have hold : t ∈ (pairing opens closes kind slot probes n).completed → _ := paired_pairing n t
    have hstep : (pairing opens closes kind slot probes (n + 1)).completed = _ ∨ _ :=
      completed_succ n
    rcases hstep with hsame | ⟨c, x, hc, hx, hmore⟩
    · obtain ⟨e, he, hrest⟩ := hold (hsame ▸ ht)
      exact ⟨e, he.trans (Nat.lt_succ_self n), hrest⟩
    · rw [hmore] at ht
      rcases List.mem_append.mp ht with hbefore | hnew
      · obtain ⟨e, he, hrest⟩ := hold hbefore
        exact ⟨e, he.trans (Nat.lt_succ_self n), hrest⟩
      · obtain ⟨hid, hlt, o, ho, hoid⟩ := id_of_mem_opened hx
        rw [List.mem_singleton] at hnew
        subst hnew
        exact ⟨n, Nat.lt_succ_self n, rfl, Nat.lt_succ_iff.mp hlt, ⟨o, ho, hoid.trans hid.symm⟩,
          c, hc, hid.symm⟩

theorem nodup_endIdx : ∀ n : ℕ,
    ((pairing opens closes kind slot probes n).completed.map (·.endIdx)).Nodup
  | 0 => List.nodup_nil
  | n + 1 => by
    have hstep : (pairing opens closes kind slot probes (n + 1)).completed = _ ∨ _ :=
      completed_succ n
    rcases hstep with hsame | ⟨c, x, -, -, hmore⟩
    · rw [hsame]
      exact nodup_endIdx n
    · rw [hmore, List.map_append]
      refine List.nodup_append.mpr ⟨nodup_endIdx n, List.nodup_singleton _, ?_⟩
      rintro a ha b hb rfl
      obtain ⟨t, ht, rfl⟩ := List.mem_map.mp ha
      obtain ⟨e, he, hend, -⟩ := paired_pairing n t ht
      rw [hend, List.map_singleton, List.mem_singleton] at hb
      cases hb
      exact lt_irrefl _ he

/-- Opens are not fewer than what has been completed of them. -/
theorem count_of_once {n : ℕ} {txns : List Transaction}
    (honce : ∀ id, ((txns.filter (·.id = id)).map (·.startIdx)).Nodup)
    (hpaired : ∀ t ∈ txns, ∃ e < n, t.endIdx = some e ∧ t.startIdx ≤ e ∧
      (∃ o, opens t.startIdx = some o ∧ o.id = t.id) ∧ ∃ c, closes e = some c ∧ c.id = t.id)
    (id i : ℕ) : (txns.filter fun t => t.id = id ∧ ∃ e ∈ t.endIdx, e ≤ i).length ≤
      ((List.range (i + 1)).filter fun j => (opens j).any (·.id = id)).length := by
  have hsub : (txns.filter fun t => t.id = id ∧ ∃ e ∈ t.endIdx, e ≤ i).Sublist
      (txns.filter (·.id = id)) := by
    refine List.monotone_filter_right _ fun t ht => ?_
    simp only [decide_eq_true_eq] at ht ⊢
    exact ht.1
  have hnodup : ((txns.filter fun t => t.id = id ∧ ∃ e ∈ t.endIdx, e ≤ i).map
      (·.startIdx)).Nodup := (honce id).sublist (hsub.map _)
  rw [← List.length_map (fun t : Transaction => t.startIdx)]
  refine (hnodup.subperm fun j hj => ?_).length_le
  obtain ⟨t, ht, rfl⟩ := List.mem_map.mp hj
  obtain ⟨hmem, hcond⟩ := List.mem_filter.mp ht
  simp only [decide_eq_true_eq] at hcond
  obtain ⟨hid, e, he, hei⟩ := hcond
  obtain ⟨e', -, hend, hstart, ⟨o, ho, hoid⟩, -⟩ := hpaired t hmem
  have hsame : e' = e := by
    rw [hend] at he
    exact Option.some.inj he
  refine List.mem_filter.mpr ⟨List.mem_range.mpr (by omega), ?_⟩
  rw [ho]
  simpa using hoid.trans hid

theorem conserved_pairing_iff (n : ℕ) :
    Conserved opens closes n (pairing opens closes kind slot probes n).completed ↔
      NamesUnserved opens closes n := by
  have honce : (∀ id, (((pairing opens closes kind slot probes n).completed.filter
      (·.id = id)).map (·.startIdx)).Nodup) ↔ _ := once_iff_namesUnserved n
  rw [← honce]
  exact ⟨Conserved.once, fun honce =>
    ⟨honce, count_of_once honce (paired_pairing n), paired_pairing n, nodup_endIdx n⟩⟩

end Follow

/-! ### The loop of a spec -/

/-- The event at a sample, where asking for it did not raise. -/
def eventOf {α : Type} : Except Py.Error (Option α) → Option α
  | .ok event => event
  | .error _ => none

section Specs

variable (letters : Letters) (numSlots : ℕ) (data : Columns) (spec : TransactionSpec)

/-- The opens of a spec; none when its signals are not bound. -/
def specOpens (i : ℕ) : Option OpenEvent :=
  match bind letters numSlots data (openNeed spec), bind letters numSlots data (closeNeed spec) with
  | .ok (some openMap), .ok (some _) => eventOf (openEvent spec (makeCtx data openMap) i)
  | _, _ => none

def specCloses (i : ℕ) : Option CloseEvent :=
  match bind letters numSlots data (openNeed spec), bind letters numSlots data (closeNeed spec) with
  | .ok (some _), .ok (some closeMap) =>
    eventOf (closeEvent spec (makeCtx data closeMap) (closeMap.get? spec.closeCntName).isSome i)
  | _, _ => none

variable {letters numSlots data spec} {slot : ℕ}

theorem foldlM_pairing {openAt : ℕ → Except Py.Error (Option OpenEvent)}
    {closeAt : ℕ → Except Py.Error (Option CloseEvent)} {kind : String} {probes : SignalMap} :
    ∀ (n : ℕ) {s : Pairing}, (List.range n).foldlM (fun (s : Pairing) i => do
        let opened ← openAt i
        let closed ← closeAt i
        return (s.openIf kind i opened).closeIf slot probes i closed) {} = .ok s →
      s = pairing (fun i => eventOf (openAt i)) (fun i => eventOf (closeAt i)) kind slot probes n
  | 0, s, h => by
    cases h
    rfl
  | n + 1, s, h => by
    rw [List.range_succ, List.foldlM_append] at h
    obtain ⟨s', hbefore, hlast⟩ := Py.bind_eq_ok h
    rw [List.foldlM_cons] at hlast
    obtain ⟨s'', hsample, hnil⟩ := Py.bind_eq_ok hlast
    obtain ⟨o, ho, hsample⟩ := Py.bind_eq_ok hsample
    obtain ⟨c, hc, hreturn⟩ := Py.bind_eq_ok hsample
    cases hreturn
    cases hnil
    rw [foldlM_pairing n hbefore, pairing, ho, hc]
    rfl

theorem completed_pairing_of_no_events (kind : String) (slot : ℕ) (probes : SignalMap) : ∀ n,
    (pairing (fun _ => none) (fun _ => none) kind slot probes n).completed = []
  | 0 => rfl
  | n + 1 => completed_pairing_of_no_events kind slot probes n

theorem specTransactions_conserved_iff {n : ℕ} {txns : List Transaction}
    (h : specTransactions letters numSlots data slot n spec = .ok txns) :
    Conserved (specOpens letters numSlots data spec) (specCloses letters numSlots data spec) n txns ↔
      NamesUnserved (specOpens letters numSlots data spec) (specCloses letters numSlots data spec)
        n := by
  obtain ⟨openMap, hopen, h⟩ := Py.bind_eq_ok h
  obtain ⟨closeMap, hclose, h⟩ := Py.bind_eq_ok h
  cases openMap with
  | none =>
    cases h
    have hopens : specOpens letters numSlots data spec = fun _ => none := by
      funext i
      simp only [specOpens, hopen]
    have hcloses : specCloses letters numSlots data spec = fun _ => none := by
      funext i
      simp only [specCloses, hopen]
    rw [hopens, hcloses, ← completed_pairing_of_no_events "" slot Py.Dict.empty n]
    exact conserved_pairing_iff n
  | some openMap =>
    cases closeMap with
    | none =>
      cases h
      have hopens : specOpens letters numSlots data spec = fun _ => none := by
        funext i
        simp only [specOpens, hopen, hclose]
      have hcloses : specCloses letters numSlots data spec = fun _ => none := by
        funext i
        simp only [specCloses, hopen, hclose]
      rw [hopens, hcloses, ← completed_pairing_of_no_events "" slot Py.Dict.empty n]
      exact conserved_pairing_iff n
    | some closeMap =>
      obtain ⟨s, hloop, hreturn⟩ := Py.bind_eq_ok h
      cases hreturn
      have hopens : specOpens letters numSlots data spec = fun i =>
          eventOf (openEvent spec (makeCtx data openMap) i) := by
        funext i
        simp only [specOpens, hopen, hclose]
      have hcloses : specCloses letters numSlots data spec = fun i =>
          eventOf (closeEvent spec (makeCtx data closeMap)
            (closeMap.get? spec.closeCntName).isSome i) := by
        funext i
        simp only [specCloses, hopen, hclose]
      rw [hopens, hcloses, foldlM_pairing n hloop]
      exact conserved_pairing_iff n

theorem forall₂_iff_forall_mem {α β : Type*} {R P : α → β → Prop} {Q : α → Prop}
    (hiff : ∀ a b, R a b → (P a b ↔ Q a)) : ∀ {l : List α} {l' : List β}, List.Forall₂ R l l' →
      (List.Forall₂ P l l' ↔ ∀ a ∈ l, Q a)
  | [], [], .nil => by simp
  | a :: l, b :: l', .cons hab hrest => by
    rw [List.forall₂_cons, hiff a b hab, forall₂_iff_forall_mem hiff hrest, List.forall_mem_cons]

/-- The transactions returned are those of the specs, one after the other. They are accounted for
    when no counter of a spec names a transaction that the queue of its ID serves, and only then. -/
theorem calculateValues_conserved_iff {wf : ILAWaveform} {probeGroups : List (List (List String))}
    {specs : List TransactionSpec} {txns : List Transaction}
    (h : calculateValues letters wf numSlots probeGroups slot specs = .ok txns) :
    ∃ pgs data parts, Py.index probeGroups (if numSlots > 1 then slot else 0 : ℕ) = .ok pgs ∧
      getWaveformDataValues wf pgs.flatten 0 none 0 none ⟨false, false, false⟩ = .ok data ∧
      List.Forall₂ (fun spec part =>
        specTransactions letters numSlots data slot wf.sampleCount spec = .ok part) specs parts ∧
      txns = parts.flatten ∧
      (List.Forall₂ (fun spec part => Conserved (specOpens letters numSlots data spec)
          (specCloses letters numSlots data spec) wf.sampleCount part) specs parts ↔
        ∀ spec ∈ specs, NamesUnserved (specOpens letters numSlots data spec)
          (specCloses letters numSlots data spec) wf.sampleCount) := by
  obtain ⟨pgs, hpgs, h⟩ := Py.bind_eq_ok h
  obtain ⟨data, hdata, h⟩ := Py.bind_eq_ok h
  obtain ⟨parts, hparts, hreturn⟩ := Py.bind_eq_ok h
  cases hreturn
  have hspecs := Py.forall₂_of_mapExcept_ok hparts
  refine ⟨pgs, data, parts, hpgs, hdata, hspecs, rfl, ?_⟩
  refine forall₂_iff_forall_mem ?_ hspecs
  intro spec part hpart
  exact specTransactions_conserved_iff hpart

end Specs

/-! ### A read that ends twice -/

/-- Letters of signal names. -/
def plainLetters : Letters where
  upper s := String.ofList (s.toList.map Char.toUpper)
  sameLetter c d := c.toUpper = d.toUpper

def plainProbe (name : String) (index length : ℕ) : ILAWaveformProbe where
  name := name
  map := ""
  mapRange := [⟨index, length⟩]
  isBus := false

/-- Reads: the address handshake, the data handshake and the counter of outstanding reads. -/
def readProbes : List ILAWaveformProbe :=
  [plainProbe "ARVALID" 0 1, plainProbe "RVALID" 1 1, plainProbe "R_CNT" 2 2]

def readGroups : List (List (List String)) := [[["ARVALID"], ["RVALID", "R_CNT"]]]

/-- An open at the first sample, and two closes with one transaction outstanding. -/
def readWaveform : ILAWaveform where
  width := 4
  sampleCount := 3
  triggerPosition := [0]
  windowSize := 3
  probes := Py.Dict.empty.update (readProbes.map fun p => (p.name, p))
  data := [1, 6, 6]

def readSpec : TransactionSpec where
  name := "Read"
  txnType := "read"
  openRule := Rule.allAsserted "Read-Open" ["ARVALID"]
  closeRule := Rule.allAsserted "Read-Close" ["RVALID"]
  openIdField := some "ARID"
  closeIdField := some "RID"
  openAddrField := some "ARADDR"
  closeRespField := some "RRESP"

def readColumns : Columns :=
  Py.Dict.empty.update [("ARVALID", [1, 0, 0]), ("RVALID", [0, 1, 1]), ("R_CNT", [0, 1, 1])]

theorem getWaveformDataValues_readWaveform :
    getWaveformDataValues readWaveform readGroups.flatten.flatten 0 none 0 none
      ⟨false, false, false⟩ = .ok readColumns := by
  have hwf : readWaveform.Framed := ⟨by decide, by decide, by decide, by decide⟩
  have hsel : selectProbes readWaveform getDataBadNames readGroups.flatten.flatten =
      .ok readProbes := by
    decide +kernel
  have hin : readWaveform.ProbesInside readProbes := by
    simp [ILAWaveform.ProbesInside, readWaveform, readProbes, plainProbe]
  have hpos : ∀ p ∈ readProbes, 0 < p.length := by decide
  have hr : readWaveform.checkRange "ILAWaveform.get_data()" 0 none 0 none = .ok ⟨0, 1, 0, 3⟩ := rfl
  rw [getWaveformDataValues_foldl hwf hsel hin hpos ⟨false, false, false⟩ hr]
  decide +kernel

/-- The read that opened is completed by its ticket, and then by the queue again. -/
theorem specTransactions_readSpec :
    (specTransactions plainLetters 1 readColumns 0 3 readSpec).map
      (·.map fun t => (t.id, t.startIdx, t.endIdx)) = .ok [(0, 0, some 1), (0, 0, some 2)] := by
  decide +kernel

theorem calculateValues_readWaveform :
    calculateValues plainLetters readWaveform 1 readGroups 0 [readSpec] =
      specTransactions plainLetters 1 readColumns 0 3 readSpec := by
  have hpgs : Py.index readGroups (if 1 > 1 then 0 else 0 : ℕ) = .ok readGroups.flatten := rfl
  rw [calculateValues, hpgs, Py.ok_bind, getWaveformDataValues_readWaveform, Py.ok_bind, Py.mapExcept]
  have hcount : readWaveform.sampleCount = 3 := rfl
  rw [hcount]
  cases specTransactions plainLetters 1 readColumns 0 3 readSpec with
  | error e => rfl
  | ok part => exact congrArg Except.ok (List.append_nil part)

theorem calculateValues_twice :
    (calculateValues plainLetters readWaveform 1 readGroups 0 [readSpec]).map
        (·.map fun t => (t.id, t.startIdx, t.endIdx)) = .ok [(0, 0, some 1), (0, 0, some 2)] := by
  rw [calculateValues_readWaveform, specTransactions_readSpec]

theorem calculateValues_conserved_readWaveform : ∃ txns parts,
    calculateValues plainLetters readWaveform 1 readGroups 0 [readSpec] = .ok txns ∧
      txns = parts.flatten ∧
      (List.Forall₂ (fun spec part => Conserved (specOpens plainLetters 1 readColumns spec)
          (specCloses plainLetters 1 readColumns spec) 3 part) [readSpec] parts ↔
        ∀ spec ∈ [readSpec], NamesUnserved (specOpens plainLetters 1 readColumns spec)
          (specCloses plainLetters 1 readColumns spec) 3) := by
  obtain ⟨txns, htxns⟩ : ∃ txns,
      calculateValues plainLetters readWaveform 1 readGroups 0 [readSpec] = .ok txns := by
    rw [calculateValues_readWaveform]
    have hok := specTransactions_readSpec
    cases hspec : specTransactions plainLetters 1 readColumns 0 3 readSpec with
    | error e =>
      rw [hspec] at hok
      cases hok
    | ok part => exact ⟨part, rfl⟩
  obtain ⟨pgs, data, parts, hpgs, hdata, -, hflat, hiff⟩ := calculateValues_conserved_iff htxns
  cases hpgs
  obtain rfl : readColumns = data :=
    Except.ok.inj (getWaveformDataValues_readWaveform.symm.trans hdata)
  exact ⟨txns, parts, htxns, hflat, hiff⟩

end Chipscopy.Waveform
