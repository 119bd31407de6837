import Chipscopy.Dm.Request

/-! Runs of a queue group

    As long as no request fails before it has a node, and only running requests are replied to or
    cancelled, the first request of the queue is the only one that runs, it is scheduled or running,
    and it leaves the queue when it is complete. -/

namespace Chipscopy.Dm

namespace RequestGroup

variable {R E : Type} {s s' : RequestGroup R E} {r x : ReqId} {n n' : NodeRef}

/-- The method of a node was called and the request is not complete. -/
def Running (s : RequestGroup R E) (r : ReqId) (n : NodeRef) : Prop :=
  r ∈ s.submitted ∧ (s.request r).isDone = false ∧ (s.request r).node = some n

/-- What a request has gone through, and where it is now. -/
structure Orderly (s : RequestGroup R E) : Prop where
  nodup : s.deq.Nodup
  mem_deq : ∀ r, r ∈ s.deq ↔
    r ∈ s.submitted ∧ (s.request r).requestQueue = true ∧ (s.request r).isDone = false
  ongoing : ∀ {r}, r ∈ s.submitted → (s.request r).isDone = false →
    (s.request r).callbacks = 0 ∧ (s.request r).removals = 0
  complete : ∀ {r}, r ∈ s.submitted → (s.request r).isDone = true →
    (s.request r).requestQueue = true ∧ (s.request r).cond = true ∧
    (s.request r).callbacks = (if (s.request r).doneCallback then 1 else 0) ∧
    (s.request r).removals = 1
  running : ∀ {r n}, s.Running r n → s.deq.head? = some r ∧ (s.node n).request = some r
  scheduled_nodup : s.scheduled.Nodup
  scheduled : ∀ {r}, r ∈ s.scheduled → r ∈ s.submitted ∧ (s.request r).isDone = false ∧
    (s.request r).node = none ∧ ((s.request r).requestQueue = true → s.deq.head? = some r)
  next : ∀ {r}, s.deq.head? = some r → (s.request r).node ≠ none ∨ r ∈ s.scheduled
  waiting : ∀ {r}, r ∈ s.submitted → (s.request r).requestQueue = false →
    (s.request r).isDone = false ∧ (s.request r).node = none ∧ r ∈ s.scheduled
  raised : s.raised = []

theorem request_setRequest (s : RequestGroup R E) (r x : ReqId) (q : CsFutureRequest R E) :
    (s.setRequest r q).request x = if x = r then q else s.request x :=
  Function.update_apply s.request r q x

theorem request_setRequest_self (s : RequestGroup R E) (r : ReqId) (q : CsFutureRequest R E) :
    (s.setRequest r q).request r = q := (s.request_setRequest r r q).trans (if_pos rfl)

theorem request_setRequest_ne (s : RequestGroup R E) {r x : ReqId} (hx : x ≠ r)
    (q : CsFutureRequest R E) : (s.setRequest r q).request x = s.request x :=
  (s.request_setRequest r x q).trans (if_neg hx)

theorem node_setNode (s : RequestGroup R E) (n n' : NodeRef) (state : NodeState) :
    (s.setNode n state).node n' = if n' = n then state else s.node n' :=
  Function.update_apply s.node n state n'

theorem orderly_init (R E : Type) : (init R E).Orderly where
  nodup := List.nodup_nil
  mem_deq r := by simp [init]
  ongoing hr := nomatch hr
  complete hr := nomatch hr
  running hr := nomatch hr.1
  scheduled_nodup := List.nodup_nil
  scheduled hr := nomatch hr
  next hr := nomatch hr
  waiting hr := nomatch hr
  raised := rfl

/-! ### Changes that do not matter -/

/-- The same progress: a request that is not complete may differ in its result, its error and its
    callback, a node in what is pending. -/
structure SameProgress (s s' : RequestGroup R E) : Prop where
  deq : s'.deq = s.deq
  submitted : s'.submitted = s.submitted
  started : s'.started = s.started
  raised : s'.raised = s.raised
  scheduled : s'.scheduled.Perm s.scheduled
  isDone : ∀ r, (s'.request r).isDone = (s.request r).isDone
  requestQueue : ∀ r, (s'.request r).requestQueue = (s.request r).requestQueue
  node : ∀ r, (s'.request r).node = (s.request r).node
  counts : ∀ r, (s'.request r).callbacks = (s.request r).callbacks ∧
    (s'.request r).removals = (s.request r).removals
  complete : ∀ r, (s.request r).isDone = true → s'.request r = s.request r
  request : ∀ n, (s'.node n).request = (s.node n).request

theorem SameProgress.running_iff (h : s.SameProgress s') : s'.Running r n ↔ s.Running r n := by
  rw [Running, Running, h.submitted, h.isDone, h.node]

theorem SameProgress.orderly (h : s.SameProgress s') (hs : s.Orderly) : s'.Orderly where
  nodup := h.deq ▸ hs.nodup
  mem_deq r := by
    rw [h.deq, h.submitted, h.requestQueue, h.isDone]
    exact hs.mem_deq r
  ongoing {r} hr hdone := by
    rw [h.submitted] at hr
    rw [h.isDone] at hdone
    rw [(h.counts r).1, (h.counts r).2]
    exact hs.ongoing hr hdone
  complete {r} hr hdone := by
    rw [h.submitted] at hr
    rw [h.isDone] at hdone
    rw [h.complete r hdone]
    exact hs.complete hr hdone
  running {r n} hr := by
    rw [h.deq, h.request]
    exact hs.running (h.running_iff.mp hr)
  scheduled_nodup := h.scheduled.nodup_iff.mpr hs.scheduled_nodup
  scheduled {r} hr := by
    rw [h.submitted, h.isDone, h.node, h.requestQueue, h.deq]
    exact hs.scheduled (h.scheduled.mem_iff.mp hr)
  next {r} hr := by
    rw [h.deq] at hr
    rw [h.node, h.scheduled.mem_iff]
    exact hs.next hr
  waiting {r} hr hqueue := by
    rw [h.submitted] at hr
    rw [h.requestQueue] at hqueue
    rw [h.isDone, h.node, h.scheduled.mem_iff]
    exact hs.waiting hr hqueue
  raised := h.raised.trans hs.raised

theorem sameProgress_setRequest (hopen : (s.request r).isDone = false)
    {q : CsFutureRequest R E} (hdone : q.isDone = false)
    (hqueue : q.requestQueue = (s.request r).requestQueue) (hnode : q.node = (s.request r).node)
    (hcallbacks : q.callbacks = (s.request r).callbacks)
    (hremovals : q.removals = (s.request r).removals) : s.SameProgress (s.setRequest r q) := by
  have hcases : ∀ x, ((s.setRequest r q).request x = s.request x ∧ x ≠ r) ∨
      ((s.setRequest r q).request x = q ∧ x = r) := by
    intro x
    rw [request_setRequest]
    by_cases hx : x = r
    · exact .inr ⟨if_pos hx, hx⟩
    · exact .inl ⟨if_neg hx, hx⟩
  refine ⟨rfl, rfl, rfl, rfl, .refl _, fun x => ?_, fun x => ?_, fun x => ?_, fun x => ?_,
    fun x hx => ?_, fun _ => rfl⟩
  · rcases hcases x with ⟨h, -⟩ | ⟨h, rfl⟩
    · rw [h]
    · rw [h, hdone, hopen]
  · rcases hcases x with ⟨h, -⟩ | ⟨h, rfl⟩
    · rw [h]
    · rw [h, hqueue]
  · rcases hcases x with ⟨h, -⟩ | ⟨h, rfl⟩
    · rw [h]
    · rw [h, hnode]
  · rcases hcases x with ⟨h, -⟩ | ⟨h, rfl⟩
    · rw [h]
      exact ⟨rfl, rfl⟩
    · rw [h]
      exact ⟨hcallbacks, hremovals⟩
  · rcases hcases x with ⟨h, -⟩ | ⟨h, rfl⟩
    · exact h
    · rw [hopen] at hx
      exact nomatch hx

theorem sameProgress_pending (s : RequestGroup R E) (n : NodeRef) (pending : List Token) :
    s.SameProgress (s.setNode n { s.node n with pending := pending }) := by
  refine ⟨rfl, rfl, rfl, rfl, .refl _, fun _ => rfl, fun _ => rfl, fun _ => rfl,
    fun _ => ⟨rfl, rfl⟩, fun _ _ => rfl, fun x => ?_⟩
  rw [node_setNode]
  split_ifs with hx
  · rw [hx]
  · rfl

theorem SameProgress.trans {s'' : RequestGroup R E} (h : s.SameProgress s')
    (h' : s'.SameProgress s'') : s.SameProgress s'' where
  deq := h'.deq.trans h.deq
  submitted := h'.submitted.trans h.submitted
  started := h'.started.trans h.started
  raised := h'.raised.trans h.raised
  scheduled := h'.scheduled.trans h.scheduled
  isDone r := (h'.isDone r).trans (h.isDone r)
  requestQueue r := (h'.requestQueue r).trans (h.requestQueue r)
  node r := (h'.node r).trans (h.node r)
  counts r := ⟨(h'.counts r).1.trans (h.counts r).1, (h'.counts r).2.trans (h.counts r).2⟩
  complete r hr := (h'.complete r ((h.isDone r).trans hr)).trans (h.complete r hr)
  request n := (h'.request n).trans (h.request n)

/-- The method itself only leaves a result or an error. -/
theorem sameProgress_run (hopen : (s.request r).isDone = false) (outcome : Outcome R E) :
    s.SameProgress (s.run r n outcome) := by
  cases outcome with
  | unbound e => exact sameProgress_setRequest hopen hopen rfl rfl rfl rfl
  | raises pending e =>
    have hpending := sameProgress_pending s n pending
    have hset := @sameProgress_setRequest R E (s.setNode n { s.node n with pending := pending }) r
      hopen { s.request r with
        doneCallback := (s.request r).doneCallback || (s.request r).done
        error := some (.other e) } hopen rfl rfl rfl rfl
    exact hpending.trans hset
  | returns pending value =>
    have hpending := sameProgress_pending s n pending
    have hset := @sameProgress_setRequest R E (s.setNode n { s.node n with pending := pending }) r
      hopen { s.request r with
        doneCallback := (s.request r).doneCallback || (s.request r).done
        result := if pending = [] then value <|> (s.request r).result else (s.request r).result }
      hopen rfl rfl rfl rfl
    exact hpending.trans hset

/-! ### One request completes -/

/-- A request once its callback has run and it has left the queue. -/
def completed (q : CsFutureRequest R E) : CsFutureRequest R E :=
  { q.invokeDone with
    removals := q.removals + 1
    called := false
    cond := true }

/-- The first request of a queue leaves it, and the next one gets its turn. -/
structure Completes (s : RequestGroup R E) (r : ReqId) (s' : RequestGroup R E) : Prop where
  submitted : s'.submitted = s.submitted
  started : s'.started = s.started
  raised : s'.raised = s.raised
  deq : s.deq = r :: s'.deq
  scheduled : s'.scheduled = s.scheduled ++ s'.deq.head?.toList
  others : ∀ {x}, x ≠ r → s'.request x = s.request x
  request : s'.request r = completed (s.request r)

theorem scheduleNext_eq (s : RequestGroup R E) :
    s.scheduleNext = { s with scheduled := s.scheduled ++ s.deq.head?.toList } := by
  obtain ⟨request, deq, node, isReady, scheduled, submitted, started, raised⟩ := s
  cases deq with
  | nil => simp [scheduleNext]
  | cons next rest => simp [scheduleNext, schedule]

theorem doneRequest_eq {rest : List ReqId} (hdeq : s.deq = r :: rest) :
    s.doneRequest r = some { s with
      request := Function.update s.request r
        { s.request r with removals := (s.request r).removals + 1 }
      deq := rest
      scheduled := s.scheduled ++ rest.head?.toList } := by
  have hmem : r ∈ s.deq := hdeq ▸ List.mem_cons_self
  have herase : s.deq.erase r = rest := by rw [hdeq, List.erase_cons_head]
  rw [doneRequest, if_pos hmem]
  dsimp only
  rw [scheduleNext_eq, herase]
  rfl

theorem leaveNode_eq {rest : List ReqId} (hqueue : (s.request r).requestQueue = true)
    (hdeq : s.deq = r :: rest) :
    s.leaveNode r n = { s with
      request := Function.update s.request r
        { s.request r with
          removals := (s.request r).removals + 1
          called := false
          cond := true }
      node := Function.update s.node n
        { request := none, pending := (s.node n).pending.filter (· ≠ .request r) }
      deq := rest
      scheduled := s.scheduled ++ rest.head?.toList } := by
  let t := s.setNode n { request := none, pending := (s.node n).pending.filter (· ≠ .request r) }
  have hdone := @doneRequest_eq R E t r rest hdeq
  have hqueue' : (t.request r).requestQueue = true := hqueue
  rw [leaveNode]
  dsimp only
  rw [if_pos hqueue', hdone]
  dsimp only [finish, setRequest]
  rw [Function.update_self, Function.update_idem]
  rfl

theorem invokeDone_completes {rest : List ReqId} (hnode : (s.request r).node = some n)
    (hqueue : (s.request r).requestQueue = true) (hdeq : s.deq = r :: rest) :
    s.Completes r (s.invokeDone r) := by
  have hself := s.request_setRequest_self r (s.request r).invokeDone
  have hqueue' : ((s.setRequest r (s.request r).invokeDone).request r).requestQueue = true := by
    rw [hself]
    exact hqueue
  have hleave := @leaveNode_eq R E (s.setRequest r (s.request r).invokeDone) r n rest hqueue' hdeq
  rw [invokeDone, hnode]
  dsimp only
  rw [hleave, hself]
  refine ⟨rfl, rfl, rfl, hdeq, rfl, fun hx => ?_, ?_⟩
  · exact (Function.update_of_ne hx _ _).trans (s.request_setRequest_ne hx _)
  · exact (Function.update_apply _ r _ r).trans (if_pos rfl)

/-- The request that ran is gone, the next one is scheduled. -/
theorem Completes.orderly (h : s.Completes r s') (hs : s.Orderly) (hr : s.Running r n) :
    s'.Orderly := by
  obtain ⟨hsub, hopen, hnode⟩ := hr
  have hdone : (s'.request r).isDone = true := by
    rw [h.request]
    rfl
  have hrqueue : (s'.request r).requestQueue = true := by
    rw [h.request]
    exact ((hs.mem_deq r).mp (h.deq ▸ List.mem_cons_self)).2.1
  have hnodup : r ∉ s'.deq ∧ s'.deq.Nodup := List.nodup_cons.mp (h.deq ▸ hs.nodup)
  have hhead : s.deq.head? = some r := by rw [h.deq]; rfl
  have hnone : ∀ {x m}, x ≠ r → ¬ s.Running x m := by
    intro x m hx hrun
    exact hx (Option.some.inj ((hs.running hrun).1.symm.trans hhead))
  -- no other request was scheduled from the queue
  have hscheduled : ∀ {x}, x ∈ s.scheduled → x ≠ r ∧ (s.request x).requestQueue = false := by
    intro x hx
    have hidle := hs.scheduled hx
    have hne : x ≠ r := by
      rintro rfl
      rw [hidle.2.2.1] at hnode
      exact nomatch hnode
    refine ⟨hne, ?_⟩
    by_contra hqueue
    have hxhead := hidle.2.2.2 (by simpa using hqueue)
    exact hne (Option.some.inj (hxhead.symm.trans hhead))
  have hmem : ∀ {x}, x ∈ s'.deq → x ∈ s.deq ∧ x ≠ r := by
    intro x hx
    refine ⟨h.deq ▸ List.mem_cons_of_mem r hx, ?_⟩
    rintro rfl
    exact hnodup.1 hx
  have hhead' : ∀ {x}, s'.deq.head? = some x → x ∈ s'.deq := List.mem_of_head?
  refine ⟨hnodup.2, fun x => ?_, fun {x} hx hxdone => ?_, fun {x} hx hxdone => ?_,
    fun {x m} hrun => ?_, ?_, fun {x} hx => ?_, fun {x} hx => ?_, fun {x} hx hqueue => ?_,
    h.raised.trans hs.raised⟩
  · by_cases hx : x = r
    · subst hx
      simp [hnodup.1, hdone]
    · rw [h.submitted, h.others hx, ← hs.mem_deq x, h.deq]
      simp [hx]
  · have hne : x ≠ r := by
      rintro rfl
      rw [hdone] at hxdone
      exact nomatch hxdone
    rw [h.submitted] at hx
    rw [h.others hne] at hxdone ⊢
    exact hs.ongoing hx hxdone
  · rw [h.submitted] at hx
    by_cases hne : x = r
    · subst hne
      have hcounts := hs.ongoing hsub hopen
      refine ⟨hrqueue, ?_⟩
      rw [h.request]
      dsimp only [completed, CsFutureRequest.invokeDone]
      rw [hcounts.1, hcounts.2]
      exact ⟨rfl, rfl, rfl⟩
    · rw [h.others hne] at hxdone ⊢
      exact hs.complete hx hxdone
  · exfalso
    obtain ⟨hxs, hxopen, hxnode⟩ := hrun
    have hne : x ≠ r := by
      rintro rfl
      rw [hdone] at hxopen
      exact nomatch hxopen
    rw [h.submitted] at hxs
    rw [h.others hne] at hxopen hxnode
    exact hnone hne ⟨hxs, hxopen, hxnode⟩
  · rw [h.scheduled]
    refine List.Nodup.append hs.scheduled_nodup (by cases s'.deq.head? <;> simp) ?_
    intro x hx hx'
    have hdeq := hmem (hhead' (by simpa using hx'))
    have hqueue := (hscheduled hx).2
    rw [((hs.mem_deq x).mp hdeq.1).2.1] at hqueue
    exact nomatch hqueue
  · rw [h.scheduled] at hx
    rcases List.mem_append.mp hx with hx | hx
    · obtain ⟨hne, hqueue⟩ := hscheduled hx
      obtain ⟨hxs, hxopen, hxnode, -⟩ := hs.scheduled hx
      rw [h.submitted, h.others hne]
      refine ⟨hxs, hxopen, hxnode, fun hq => ?_⟩
      rw [hqueue] at hq
      exact nomatch hq
    · have hxhead : s'.deq.head? = some x := by simpa using hx
      obtain ⟨hdeq, hne⟩ := hmem (hhead' hxhead)
      obtain ⟨hxs, hxqueue, hxopen⟩ := (hs.mem_deq x).mp hdeq
      rw [h.submitted, h.others hne]
      refine ⟨hxs, hxopen, ?_, fun _ => hxhead⟩
      cases hxnode : (s.request x).node with
      | none => rfl
      | some m => exact absurd ⟨hxs, hxopen, hxnode⟩ (hnone hne)
  · right
    rw [h.scheduled, hx]
    exact List.mem_append_right _ List.mem_cons_self
  · rw [h.submitted] at hx
    have hne : x ≠ r := by
      rintro rfl
      rw [hrqueue] at hqueue
      exact nomatch hqueue
    rw [h.others hne] at hqueue ⊢
    obtain ⟨hxopen, hxnode, hxs⟩ := hs.waiting hx hqueue
    refine ⟨hxopen, hxnode, ?_⟩
    rw [h.scheduled]
    exact List.mem_append_left _ hxs

theorem Orderly.invokeDone (hs : s.Orderly) (hr : s.Running r n) :
    s.Completes r (s.invokeDone r) ∧ (s.invokeDone r).Orderly := by
  have hhead := (hs.running hr).1
  cases hdeq : s.deq with
  | nil =>
    rw [hdeq] at hhead
    exact nomatch hhead
  | cons first rest =>
    rw [hdeq] at hhead
    obtain rfl := Option.some.inj hhead
    have hqueue := ((hs.mem_deq first).mp (hdeq ▸ List.mem_cons_self)).2.1
    have hcompletes := invokeDone_completes hr.2.2 hqueue hdeq
    exact ⟨hcompletes, hcompletes.orderly hs hr⟩

/-! ### A request gets its turn -/

/-- A new request waits for its first turn. -/
theorem Orderly.submit (hs : s.Orderly) (hr : r ∉ s.submitted) (nodeId : Ctx) (nodeCls : String)
    (doneCallback done : Bool) : (s.submit r nodeId nodeCls doneCallback done).Orderly := by
  let q := newRequest R E nodeId nodeCls doneCallback done
  let t := s.submit r nodeId nodeCls doneCallback done
  have hself : t.request r = q := s.request_setRequest_self r q
  have hothers : ∀ {x}, x ≠ r → t.request x = s.request x := fun hx => s.request_setRequest_ne hx q
  have hsub : ∀ {x}, x ∈ t.submitted ↔ x ∈ s.submitted ∨ x = r := fun {x} => by
    change x ∈ s.submitted ++ [r] ↔ _
    rw [List.mem_append, List.mem_singleton]
  have hne : ∀ {x}, x ∈ s.submitted → x ≠ r := by
    rintro x hx rfl
    exact hr hx
  have hscheduled : t.scheduled = s.scheduled ++ [r] := rfl
  refine ⟨hs.nodup, fun x => ?_, fun {x} hx hxdone => ?_, fun {x} hx hxdone => ?_,
    fun {x m} hrun => ?_, ?_, fun {x} hx => ?_, fun {x} hx => ?_, fun {x} hx hqueue => ?_,
    hs.raised⟩
  · change x ∈ s.deq ↔ x ∈ t.submitted ∧ _
    by_cases hx : x = r
    · subst hx
      rw [hself, hs.mem_deq]
      simp [hr, q, newRequest]
    · rw [hothers hx, hs.mem_deq, hsub]
      simp [hx]
  · by_cases hxr : x = r
    · subst hxr
      rw [hself]
      exact ⟨rfl, rfl⟩
    · rw [hothers hxr] at hxdone ⊢
      exact hs.ongoing ((hsub.mp hx).resolve_right hxr) hxdone
  · by_cases hxr : x = r
    · subst hxr
      rw [hself] at hxdone
      exact nomatch hxdone
    · rw [hothers hxr] at hxdone ⊢
      exact hs.complete ((hsub.mp hx).resolve_right hxr) hxdone
  · obtain ⟨hxs, hxopen, hxnode⟩ := hrun
    by_cases hxr : x = r
    · subst hxr
      rw [hself] at hxnode
      exact nomatch hxnode
    · rw [hothers hxr] at hxopen hxnode
      exact hs.running ⟨(hsub.mp hxs).resolve_right hxr, hxopen, hxnode⟩
  · rw [hscheduled]
    refine List.Nodup.append hs.scheduled_nodup (List.nodup_singleton r) ?_
    intro x hx hxr
    exact hne (hs.scheduled hx).1 (List.mem_singleton.mp hxr)
  · rcases List.mem_append.mp hx with hx | hx
    · have hidle := hs.scheduled hx
      rw [hothers (hne hidle.1)]
      exact ⟨hsub.mpr (.inl hidle.1), hidle.2⟩
    · obtain rfl := List.mem_singleton.mp hx
      rw [hself]
      exact ⟨hsub.mpr (.inr rfl), rfl, rfl, fun h => nomatch h⟩
  · have hxs := ((hs.mem_deq x).mp (List.mem_of_head? hx)).1
    rw [hothers (hne hxs), hscheduled]
    rcases hs.next hx with h | h
    · exact .inl h
    · exact .inr (List.mem_append_left _ h)
  · by_cases hxr : x = r
    · subst hxr
      rw [hself]
      exact ⟨rfl, rfl, List.mem_append_right _ List.mem_cons_self⟩
    · rw [hothers hxr] at hqueue ⊢
      obtain ⟨hxopen, hxnode, hxs⟩ := hs.waiting ((hsub.mp hx).resolve_right hxr) hqueue
      exact ⟨hxopen, hxnode, List.mem_append_left _ hxs⟩

/-- A request that is taken from the event queue is as good as scheduled. -/
theorem sameProgress_take (s : RequestGroup R E) (hr : r ∈ s.scheduled) :
    s.SameProgress ({ s with scheduled := s.scheduled.erase r }.schedule r) := by
  refine ⟨rfl, rfl, rfl, rfl, ?_, fun _ => rfl, fun _ => rfl, fun _ => rfl,
    fun _ => ⟨rfl, rfl⟩, fun _ _ => rfl, fun _ => rfl⟩
  exact (List.perm_append_singleton r _).trans (List.perm_cons_erase hr).symm

/-- Facts about a request whose turn it is. -/
theorem Orderly.held (hs : (s.schedule r).Orderly) : r ∈ s.submitted ∧
    (s.request r).isDone = false ∧ (s.request r).node = none ∧ r ∉ s.scheduled ∧
    ((s.request r).requestQueue = true → s.deq.head? = some r) := by
  obtain ⟨hsub, hopen, hnode, hhead⟩ := hs.scheduled (List.mem_append_right _ List.mem_cons_self)
  have hnodup := List.nodup_append.mp hs.scheduled_nodup
  exact ⟨hsub, hopen, hnode, fun h => hnodup.2.2 r h r List.mem_cons_self rfl, hhead⟩

/-- Nothing runs when it is the turn of the first request of the queue. -/
theorem Orderly.not_running (hs : (s.schedule r).Orderly) (hhead : s.deq.head? = some r) :
    ¬ s.Running x n := by
  intro hrun
  obtain rfl := Option.some.inj (hhead.symm.trans (hs.running hrun).1)
  exact nomatch hs.held.2.2.1.symm.trans hrun.2.2

/-- The request is queued. Only the first request of the queue still has its turn. -/
theorem Orderly.enqueue (hs : (s.schedule r).Orderly) (hqueue : (s.request r).requestQueue = false)
    {scheduled : List ReqId}
    (hscheduled : scheduled = if s.deq = [] then s.scheduled ++ [r] else s.scheduled) :
    ({ s.getRequestQueue r with scheduled := scheduled } : RequestGroup R E).Orderly := by
  obtain ⟨hsub, hopen, hnode, hnot, -⟩ := hs.held
  let q : CsFutureRequest R E := { s.request r with requestQueue := true }
  let t : RequestGroup R E := { s.setRequest r q with deq := s.deq ++ [r], scheduled := scheduled }
  have heq : { s.getRequestQueue r with scheduled := scheduled } = t := by
    rw [getRequestQueue, if_neg (by rw [hqueue]; exact Bool.false_ne_true)]
  rw [heq]
  have hself : t.request r = q := s.request_setRequest_self r q
  have hothers : ∀ {x}, x ≠ r → t.request x = s.request x := fun hx => s.request_setRequest_ne hx q
  have hmem : ∀ {x}, x ∈ t.deq ↔ x ∈ s.deq ∨ x = r := fun {x} => by
    change x ∈ s.deq ++ [r] ↔ _
    rw [List.mem_append, List.mem_singleton]
  have hrdeq : r ∉ s.deq := by
    intro hr
    have hq := ((hs.mem_deq r).mp hr).2.1
    change (s.request r).requestQueue = true at hq
    rw [hqueue] at hq
    exact nomatch hq
  have hhead : ∀ {x}, s.deq.head? = some x → t.deq.head? = some x := by
    intro x hx
    change (s.deq ++ [r]).head? = some x
    rw [List.head?_append, hx]
    rfl
  have hkept : ∀ {x}, x ∈ s.scheduled → x ∈ scheduled := by
    intro x hx
    rw [hscheduled]
    split_ifs
    · exact List.mem_append_left _ hx
    · exact hx
  have hsame : ∀ {x}, x ≠ r → x ∈ s.scheduled ++ [r] → x ∈ s.scheduled := by
    intro x hx hmem
    exact (List.mem_append.mp hmem).resolve_right fun h => hx (List.mem_singleton.mp h)
  refine ⟨?_, fun x => ?_, fun {x} hx hxdone => ?_, fun {x} hx hxdone => ?_,
    fun {x m} hrun => ?_, ?_, fun {x} hx => ?_, fun {x} hx => ?_, fun {x} hx hxqueue => ?_,
    hs.raised⟩
  · refine List.Nodup.append hs.nodup (List.nodup_singleton r) ?_
    intro x hx hxr
    exact hrdeq (List.mem_singleton.mp hxr ▸ hx)
  · rw [hmem]
    by_cases hx : x = r
    · subst hx
      rw [hself]
      simp only [or_true, true_iff]
      exact ⟨hsub, rfl, hopen⟩
    · rw [hothers hx]
      simp only [hx, or_false]
      exact hs.mem_deq x
  · by_cases hxr : x = r
    · subst hxr
      rw [hself]
      exact hs.ongoing hsub hopen
    · rw [hothers hxr] at hxdone ⊢
      exact hs.ongoing hx hxdone
  · by_cases hxr : x = r
    · subst hxr
      rw [hself] at hxdone
      exact nomatch hopen.symm.trans hxdone
    · rw [hothers hxr] at hxdone ⊢
      exact hs.complete hx hxdone
  · obtain ⟨hxs, hxopen, hxnode⟩ := hrun
    by_cases hxr : x = r
    · subst hxr
      rw [hself] at hxnode
      exact nomatch hnode.symm.trans hxnode
    · rw [hothers hxr] at hxopen hxnode
      obtain ⟨hxhead, hxrequest⟩ := hs.running ⟨hxs, hxopen, hxnode⟩
      exact ⟨hhead hxhead, hxrequest⟩
  · change scheduled.Nodup
    rw [hscheduled]
    split_ifs
    · exact hs.scheduled_nodup
    · exact (List.nodup_append.mp hs.scheduled_nodup).1
  · by_cases hxr : x = r
    · subst hxr
      change x ∈ scheduled at hx
      rw [hscheduled] at hx
      split_ifs at hx with hempty
      · rw [hself]
        refine ⟨hsub, hopen, hnode, fun _ => ?_⟩
        change (s.deq ++ [x]).head? = some x
        rw [hempty]
        rfl
      · exact absurd hx hnot
    · have hx' : x ∈ s.scheduled := by
        change x ∈ scheduled at hx
        rw [hscheduled] at hx
        split_ifs at hx
        · exact hsame hxr hx
        · exact hx
      obtain ⟨hxs, hxopen, hxnode, hxhead⟩ := hs.scheduled (List.mem_append_left _ hx')
      rw [hothers hxr]
      exact ⟨hxs, hxopen, hxnode, fun hq => hhead (hxhead hq)⟩
  · by_cases hempty : s.deq = []
    · have hxr : r = x := by
        change (s.deq ++ [r]).head? = some x at hx
        rw [hempty] at hx
        exact Option.some.inj hx
      right
      change x ∈ scheduled
      rw [hscheduled, if_pos hempty, hxr]
      exact List.mem_append_right _ List.mem_cons_self
    · obtain ⟨first, rest, hdeq⟩ := List.exists_cons_of_ne_nil hempty
      have hfirst : s.deq.head? = some first := by rw [hdeq]; rfl
      obtain rfl := Option.some.inj ((hhead hfirst).symm.trans hx)
      have hxr : first ≠ r := by
        rintro rfl
        exact hrdeq (hdeq ▸ List.mem_cons_self)
      rw [hothers hxr]
      rcases hs.next hfirst with h | h
      · exact .inl h
      · exact .inr (hkept (hsame hxr h))
  · by_cases hxr : x = r
    · subst hxr
      rw [hself] at hxqueue
      exact nomatch hxqueue
    · rw [hothers hxr] at hxqueue ⊢
      obtain ⟨hxopen, hxnode, hxs⟩ := hs.waiting hx hxqueue
      exact ⟨hxopen, hxnode, hkept (hsame hxr hxs)⟩

/-- While nothing runs the nodes may change. -/
theorem Orderly.setNode (hs : s.Orderly) (hnone : ∀ x m, ¬ s.Running x m) (n : NodeRef)
    (state : NodeState) : (s.setNode n state).Orderly :=
  ⟨hs.nodup, hs.mem_deq, hs.ongoing, hs.complete, fun hrun => absurd hrun (hnone _ _),
    hs.scheduled_nodup, hs.scheduled, hs.next, hs.waiting, hs.raised⟩

/-- The first request of the queue starts. -/
theorem Orderly.begin (hs : (s.schedule r).Orderly) (hhead : s.deq.head? = some r) (n : NodeRef) :
    (s.begin r n).Orderly ∧ (s.begin r n).Running r n := by
  obtain ⟨hsub, hopen, hnode, hnot, -⟩ := hs.held
  let q : CsFutureRequest R E := { s.request r with node := some n }
  have hself : (s.begin r n).request r = q := s.request_setRequest_self r q
  have hothers : ∀ {x}, x ≠ r → (s.begin r n).request x = s.request x :=
    fun hx => s.request_setRequest_ne hx q
  have hrun : (s.begin r n).Running r n := by
    refine ⟨hsub, ?_, ?_⟩
    · rw [hself]
      exact hopen
    · rw [hself]
  have hsame : ∀ {x}, x ≠ r → x ∈ s.scheduled ++ [r] → x ∈ s.scheduled := by
    intro x hx hmem
    exact (List.mem_append.mp hmem).resolve_right fun h => hx (List.mem_singleton.mp h)
  have hrequest : ((s.begin r n).node n).request = some r :=
    congrArg NodeState.request ((s.node_setNode n n { s.node n with request := some r }).trans
      (if_pos rfl))
  have hrdeq := List.mem_of_head? hhead
  refine ⟨⟨hs.nodup, fun x => ?_, fun {x} hx hxdone => ?_, fun {x} hx hxdone => ?_,
    fun {x m} hxrun => ?_, (List.nodup_append.mp hs.scheduled_nodup).1, fun {x} hx => ?_,
    fun {x} hx => ?_, fun {x} hx hxqueue => ?_, hs.raised⟩, hrun⟩
  · by_cases hx : x = r
    · subst hx
      rw [hself]
      exact hs.mem_deq x
    · rw [hothers hx]
      exact hs.mem_deq x
  · by_cases hxr : x = r
    · subst hxr
      rw [hself]
      exact hs.ongoing hsub hopen
    · rw [hothers hxr] at hxdone ⊢
      exact hs.ongoing hx hxdone
  · by_cases hxr : x = r
    · subst hxr
      rw [hself] at hxdone
      exact nomatch hopen.symm.trans hxdone
    · rw [hothers hxr] at hxdone ⊢
      exact hs.complete hx hxdone
  · by_cases hxr : x = r
    · subst hxr
      obtain rfl := Option.some.inj (hrun.2.2.symm.trans hxrun.2.2)
      exact ⟨hhead, hrequest⟩
    · obtain ⟨hxs, hxopen, hxnode⟩ := hxrun
      rw [hothers hxr] at hxopen hxnode
      exact absurd ⟨hxs, hxopen, hxnode⟩ (hs.not_running hhead)
  · have hxr : x ≠ r := by
      rintro rfl
      exact hnot hx
    rw [hothers hxr]
    exact hs.scheduled (List.mem_append_left _ hx)
  · obtain rfl := Option.some.inj (hhead.symm.trans hx)
    left
    rw [hself]
    exact fun h => nomatch h
  · by_cases hxr : x = r
    · subst hxr
      rw [hself] at hxqueue
      exact nomatch hxqueue.symm.trans ((hs.mem_deq x).mp hrdeq).2.1
    · rw [hothers hxr] at hxqueue ⊢
      obtain ⟨hxopen, hxnode, hxs⟩ := hs.waiting hx hxqueue
      exact ⟨hxopen, hxnode, hsame hxr hxs⟩

/-! ### The order of the queue -/

/-- Requests finish, run and wait in the order in which they were submitted. -/
def InOrder (s : RequestGroup R E) : Prop :=
  s.submitted.Nodup ∧ ∃ finished waiting, s.submitted = finished ++ (s.deq ++ waiting) ∧
    (∀ r ∈ finished, (s.request r).isDone = true) ∧
    (∀ r ∈ waiting, (s.request r).requestQueue = false) ∧
    s.started = finished ++ s.deq.filter fun r => (s.request r).node.isSome

theorem SameProgress.inOrder (h : s.SameProgress s') (hs : s.InOrder) : s'.InOrder := by
  obtain ⟨hnodup, finished, waiting, hsub, hfinished, hwaiting, hstarted⟩ := hs
  refine ⟨h.submitted ▸ hnodup, finished, waiting, ?_, fun r hr => ?_, fun r hr => ?_, ?_⟩
  · rw [h.submitted, h.deq, hsub]
  · rw [h.isDone]
    exact hfinished r hr
  · rw [h.requestQueue]
    exact hwaiting r hr
  · rw [h.started, h.deq, hstarted]
    simp only [h.node]

theorem InOrder.submit (h : s.InOrder) (hr : r ∉ s.submitted) (nodeId : Ctx) (nodeCls : String)
    (doneCallback done : Bool) : (s.submit r nodeId nodeCls doneCallback done).InOrder := by
  obtain ⟨hnodup, finished, waiting, hsub, hfinished, hwaiting, hstarted⟩ := h
  have hnodup' : (s.submitted ++ [r]).Nodup := by
    refine List.Nodup.append hnodup (List.nodup_singleton r) ?_
    intro x hx hxr
    exact hr (List.mem_singleton.mp hxr ▸ hx)
  have hothers : ∀ {x}, x ∈ s.submitted →
      (s.submit r nodeId nodeCls doneCallback done).request x = s.request x := by
    intro x hx
    refine s.request_setRequest_ne ?_ _
    rintro rfl
    exact hr hx
  rw [hsub] at hothers
  refine ⟨hnodup', finished, waiting ++ [r], ?_, fun x hx => ?_, fun x hx => ?_, ?_⟩
  · change s.submitted ++ [r] = finished ++ (s.deq ++ (waiting ++ [r]))
    rw [hsub]
    simp only [List.append_assoc]
  · rw [hothers (List.mem_append_left _ hx)]
    exact hfinished x hx
  · rcases List.mem_append.mp hx with hx | hx
    · rw [hothers (List.mem_append_right _ (List.mem_append_right _ hx))]
      exact hwaiting x hx
    · obtain rfl := List.mem_singleton.mp hx
      exact congrArg CsFutureRequest.requestQueue (s.request_setRequest_self x _)
  · refine hstarted.trans (congrArg (finished ++ ·) (List.filter_congr fun x hx => ?_))
    rw [hothers (List.mem_append_right _ (List.mem_append_left _ hx))]

theorem Completes.inOrder (h : s.Completes r s') (hs : s.Orderly) (hr : s.Running r n)
    (horder : s.InOrder) : s'.InOrder := by
  obtain ⟨hnodup, finished, waiting, hsub, hfinished, hwaiting, hstarted⟩ := horder
  have hdeq : r ∉ s'.deq := (List.nodup_cons.mp (h.deq ▸ hs.nodup)).1
  refine ⟨h.submitted ▸ hnodup, finished ++ [r], waiting, ?_, fun x hx => ?_, fun x hx => ?_, ?_⟩
  · rw [h.submitted, hsub, h.deq]
    simp only [List.append_assoc, List.cons_append, List.nil_append]
  · by_cases hxr : x = r
    · rw [hxr, h.request]
      rfl
    · rw [h.others hxr]
      refine hfinished x ((List.mem_append.mp hx).resolve_right fun hx => ?_)
      exact hxr (List.mem_singleton.mp hx)
  · have hxr : x ≠ r := by
      rintro rfl
      have hqueue := ((hs.mem_deq x).mp (h.deq ▸ List.mem_cons_self)).2.1
      exact nomatch (hwaiting x hx).symm.trans hqueue
    rw [h.others hxr]
    exact hwaiting x hx
  · have hsame : s'.deq.filter (fun x => (s'.request x).node.isSome) =
        s'.deq.filter (fun x => (s.request x).node.isSome) := by
      refine List.filter_congr fun x hx => ?_
      rw [h.others]
      rintro rfl
      exact hdeq hx
    have hnode : (s.request r).node.isSome = true := by rw [hr.2.2]; rfl
    rw [h.started, hstarted, hsame, h.deq, List.filter_cons, if_pos hnode]
    simp only [List.append_assoc, List.cons_append, List.nil_append]

/-- No request is queued before one that was submitted earlier. -/
def InTurn (s : RequestGroup R E) (r : ReqId) : Prop :=
  (s.request r).requestQueue = false →
    s.submitted.find? (fun x => !(s.request x).requestQueue) = some r

theorem InOrder.enqueue (h : s.InOrder) (hs : (s.schedule r).Orderly)
    (hqueue : (s.request r).requestQueue = false) (hturn : s.InTurn r) :
    (s.getRequestQueue r).InOrder := by
  obtain ⟨hsub, hopen, hnode, -, -⟩ := hs.held
  obtain ⟨hnodup, finished, waiting, hsubmitted, hfinished, hwaiting, hstarted⟩ := h
  -- whoever is not waiting is queued, so that the first of the waiting has its turn
  have hqueued : ∀ x ∈ finished ++ s.deq, (s.request x).requestQueue = true := by
    intro x hx
    rcases List.mem_append.mp hx with hx | hx
    · have hxs : x ∈ s.submitted := hsubmitted ▸ List.mem_append_left _ hx
      exact (hs.complete hxs (hfinished x hx)).1
    · exact ((hs.mem_deq x).mp hx).2.1
  have hfind := hturn hqueue
  rw [hsubmitted, ← List.append_assoc, List.find?_append,
    List.find?_eq_none.mpr fun x hx => by simp [hqueued x hx], Option.none_or] at hfind
  cases waiting with
  | nil => exact nomatch hfind
  | cons first rest =>
    rw [List.find?_cons_of_pos (by simp [hwaiting first List.mem_cons_self])] at hfind
    obtain rfl := Option.some.inj hfind
    let q : CsFutureRequest R E := { s.request first with requestQueue := true }
    have heq : s.getRequestQueue first = { s.setRequest first q with deq := s.deq ++ [first] } := by
      rw [getRequestQueue, if_neg (by rw [hqueue]; exact Bool.false_ne_true)]
    have hothers : ∀ {x}, x ≠ first → (s.setRequest first q).request x = s.request x :=
      fun hx => s.request_setRequest_ne hx q
    have hself : (s.setRequest first q).request first = q := s.request_setRequest_self first q
    have hrest : first ∉ rest := by
      rw [hsubmitted, ← List.append_assoc] at hnodup
      exact (List.nodup_cons.mp (List.nodup_append.mp hnodup).2.1).1
    rw [heq]
    refine ⟨hnodup, finished, rest, ?_, fun x hx => ?_, fun x hx => ?_, ?_⟩
    · change s.submitted = finished ++ ((s.deq ++ [first]) ++ rest)
      rw [hsubmitted, List.append_assoc s.deq, List.singleton_append]
    · by_cases hxr : x = first
      · exact nomatch hopen.symm.trans (hfinished first (hxr ▸ hx))
      · exact (congrArg CsFutureRequest.isDone (hothers hxr)).trans (hfinished x hx)
    · have hxr : x ≠ first := by
        rintro rfl
        exact hrest hx
      refine (congrArg CsFutureRequest.requestQueue (hothers hxr)).trans ?_
      exact hwaiting x (List.mem_cons_of_mem first hx)
    · have hlast : [first].filter (fun x => ((s.setRequest first q).request x).node.isSome) = [] := by
        have hnone : ((s.setRequest first q).request first).node = none :=
          (congrArg CsFutureRequest.node hself).trans hnode
        rw [List.filter_cons, hnone]
        rfl
      have hsame : s.deq.filter (fun x => ((s.setRequest first q).request x).node.isSome) =
          s.deq.filter fun x => (s.request x).node.isSome := by
        refine List.filter_congr fun x hx => ?_
        rw [hothers]
        rintro rfl
        exact nomatch hqueue.symm.trans (hqueued x (List.mem_append_right _ hx))
      change s.started = finished ++ (s.deq ++ [first]).filter _
      rw [hstarted, List.filter_append, hlast, hsame, List.append_nil]

theorem InOrder.begin (h : s.InOrder) (hs : (s.schedule r).Orderly)
    (hhead : s.deq.head? = some r) (n : NodeRef) : (s.begin r n).InOrder := by
  obtain ⟨hnodup, finished, waiting, hsubmitted, hfinished, hwaiting, hstarted⟩ := h
  obtain ⟨hsub, hopen, hnode, -, -⟩ := hs.held
  let q : CsFutureRequest R E := { s.request r with node := some n }
  have hself : (s.begin r n).request r = q := s.request_setRequest_self r q
  have hothers : ∀ {x}, x ≠ r → (s.begin r n).request x = s.request x :=
    fun hx => s.request_setRequest_ne hx q
  have hidle : ∀ x ∈ s.deq, (s.request x).node = none := by
    intro x hx
    obtain ⟨hxs, -, hxopen⟩ := (hs.mem_deq x).mp hx
    cases hxnode : (s.request x).node with
    | none => rfl
    | some m => exact absurd ⟨hxs, hxopen, hxnode⟩ (hs.not_running hhead)
  have hnone : s.deq.filter (fun x => (s.request x).node.isSome) = [] :=
    List.filter_eq_nil_iff.mpr fun x hx => by simp [hidle x hx]
  have hone : s.deq.filter (fun x => ((s.begin r n).request x).node.isSome) = [r] := by
    cases hdeq : s.deq with
    | nil =>
      rw [hdeq] at hhead
      exact nomatch hhead
    | cons first rest =>
      rw [hdeq] at hhead
      obtain rfl := Option.some.inj hhead
      have hfirst : first ∉ rest := (List.nodup_cons.mp (hdeq ▸ hs.nodup : (first :: rest).Nodup)).1
      have hrest : rest.filter (fun x => ((s.begin first n).request x).node.isSome) = [] := by
        refine List.filter_eq_nil_iff.mpr fun x hx => ?_
        have hxr : x ≠ first := by
          rintro rfl
          exact hfirst hx
        rw [hothers hxr, hidle x (hdeq ▸ List.mem_cons_of_mem first hx)]
        exact Bool.false_ne_true
      have hnode : ((s.begin first n).request first).node.isSome = true := by rw [hself]; rfl
      rw [List.filter_cons, if_pos hnode, hrest]
  refine ⟨hnodup, finished, waiting, hsubmitted, fun x hx => ?_, fun x hx => ?_, ?_⟩
  · by_cases hxr : x = r
    · exact nomatch hopen.symm.trans (hfinished r (hxr ▸ hx))
    · rw [hothers hxr]
      exact hfinished x hx
  · by_cases hxr : x = r
    · rw [hxr, hself]
      exact hwaiting r (hxr ▸ hx)
    · rw [hothers hxr]
      exact hwaiting x hx
  · change s.started ++ [r] = finished ++ s.deq.filter _
    rw [hstarted, hnone, hone, List.append_nil]

/-! ### One event -/

/-- Other requests that run stay as they are, and so do their nodes. -/
def Untouched (s : RequestGroup R E) (r : ReqId) (s' : RequestGroup R E) : Prop :=
  ∀ x n, x ≠ r → s.Running x n → s'.request x = s.request x ∧ s'.node n = s.node n

/-- What one request does to the group. -/
structure Serves (s : RequestGroup R E) (r : ReqId) (s' : RequestGroup R E) : Prop where
  orderly : s'.Orderly
  untouched : s.Untouched r s'
  inOrder : s.InOrder → s'.InOrder

theorem Orderly.untouched_of_running (hs : s.Orderly) (hr : s.Running r n)
    (s' : RequestGroup R E) : s.Untouched r s' := by
  intro x m hx hrun
  have hhead := (hs.running hr).1.symm.trans (hs.running hrun).1
  exact absurd (Option.some.inj hhead).symm hx

/-- A running request that gets an error or a result completes. -/
theorem Orderly.serves_complete (hs : s.Orderly) (hr : s.Running r n) (error : Option (Failure E))
    (result : Option R) :
    s.Serves r ((s.setRequest r { s.request r with error := error, result := result }).invokeDone
      r) := by
  have hsame : s.SameProgress
      (s.setRequest r { s.request r with error := error, result := result }) :=
    sameProgress_setRequest hr.2.1 hr.2.1 rfl rfl rfl rfl
  have hrun := hsame.running_iff.mpr hr
  obtain ⟨hcompletes, horderly⟩ := (hsame.orderly hs).invokeDone hrun
  exact ⟨horderly, hs.untouched_of_running hr _,
    fun h => hcompletes.inOrder (hsame.orderly hs) hrun (hsame.inOrder h)⟩

theorem Orderly.doneRun (hs : s.Orderly) (hr : s.Running r n) (error : Option (Failure E))
    (result : Option R) : s.Serves r (s.doneRun r error result) :=
  hs.serves_complete hr error result

theorem Orderly.setException (hs : s.Orderly) (hr : s.Running r n) (error : Failure E) :
    s.Serves r (s.setException r error) :=
  hs.serves_complete hr (some error) (s.request r).result

theorem Orderly.completeAtOnce (hs : s.Orderly) (hr : s.Running r n) :
    s.Serves r (s.completeAtOnce r) := by
  rw [RequestGroup.completeAtOnce]
  split_ifs
  · exact hs.doneRun hr _ _
  · exact ⟨hs, fun _ _ _ _ => ⟨rfl, rfl⟩, id⟩

/-- The node is there, and it is of the class of the request when the request gets to it. -/
def Finds (s : RequestGroup R E) (r : ReqId) (seen : Seen R E) : Prop :=
  s.isReady = true → seen.node.isSome = true ∧
    ((s.getRequestQueue r).deq.head? = some r →
      (∀ n ∈ seen.node, (s.node n).isReady = true) → seen.isConverted = true)

theorem deq_getRequestQueue (s : RequestGroup R E) (r : ReqId) :
    (s.getRequestQueue r).deq = if (s.request r).requestQueue then s.deq else s.deq ++ [r] := by
  rw [getRequestQueue]
  split_ifs
  · rfl
  · rfl

theorem Orderly.invokeOn (hs : (s.schedule r).Orderly) (hhead : s.deq.head? = some r)
    {seen : Seen R E} (hconverted : seen.isConverted = true) (n : NodeRef) :
    s.Serves r (s.invokeOn r n seen) := by
  have hidle : ∀ x m, ¬ s.Running x m := fun x m => hs.not_running hhead
  have huntouched : ∀ s' : RequestGroup R E, s.Untouched r s' :=
    fun s' x m _ hrun => absurd hrun (hidle x m)
  obtain ⟨n', hn'⟩ := Seen.exists_converted hconverted
  have hupgrade : ((s.upgrade n n').schedule r).Orderly :=
    hs.setNode hidle n' (s.node n)
  have heq : s.invokeOn r n seen = if ((s.upgrade n n').node n').isReady then
      (((s.upgrade n n').begin r n').run r n' seen.outcome).completeAtOnce r
      else (s.upgrade n n').schedule r := by
    rw [RequestGroup.invokeOn, hn']
  rw [heq]
  split_ifs
  · obtain ⟨hbegin, hrun⟩ := hupgrade.begin hhead n'
    have hsame := sameProgress_run (n := n') hrun.2.1 seen.outcome
    have hcomplete := (hsame.orderly hbegin).completeAtOnce (hsame.running_iff.mpr hrun)
    exact ⟨hcomplete.orderly, huntouched _, fun h =>
      hcomplete.inOrder (hsame.inOrder (@InOrder.begin R E (s.upgrade n n') r h hupgrade hhead n'))⟩
  · exact ⟨hupgrade, huntouched _, fun h => h⟩

theorem Orderly.invokeQueued (hs : (s.schedule r).Orderly) (hhead : s.deq.head? = some r)
    {seen : Seen R E}
    (hconverted : (s.node n).isReady = true → seen.isConverted = true) :
    s.Serves r (s.invokeQueued r n seen) := by
  cases hdeq : s.deq with
  | nil =>
    rw [hdeq] at hhead
    exact nomatch hhead
  | cons first rest =>
    have hfirst : first = r := by
      rw [hdeq] at hhead
      exact Option.some.inj hhead
    have heq : s.invokeQueued r n seen =
        if (s.node n).isReady then s.invokeOn r n seen else s.schedule r := by
      rw [RequestGroup.invokeQueued, hdeq]
      dsimp only
      rw [if_neg (not_not.mpr hfirst.symm)]
    rw [heq]
    split_ifs with hready
    · exact hs.invokeOn hhead (hconverted hready) n
    · exact ⟨hs, fun _ _ _ _ => ⟨rfl, rfl⟩, fun h => h⟩

/-- `_invoke` of a request whose turn it is. -/
theorem Orderly.invoke (hs : (s.schedule r).Orderly) {seen : Seen R E} (hfinds : s.Finds r seen) :
    (s.invoke r seen).Orderly ∧ s.Untouched r (s.invoke r seen) ∧
      ((s.isReady = true → s.InTurn r) → s.InOrder → (s.invoke r seen).InOrder) := by
  by_cases hready : s.isReady = true
  · obtain ⟨hsome, hconverted⟩ := hfinds hready
    obtain ⟨n, hn⟩ := Option.isSome_iff_exists.mp hsome
    rw [hn] at hconverted
    have heq : s.invoke r seen = (s.getRequestQueue r).invokeQueued r n seen := by
      rw [RequestGroup.invoke, if_pos hready, hn]
    rw [heq]
    by_cases hqueue : (s.request r).requestQueue = true
    · have hget : s.getRequestQueue r = s := if_pos hqueue
      rw [hget] at hconverted ⊢
      have hhead := hs.held.2.2.2.2 hqueue
      have hserves := hs.invokeQueued hhead (n := n) fun h =>
        hconverted hhead fun m hm => Option.some.inj hm ▸ h
      exact ⟨hserves.orderly, hserves.untouched, fun _ => hserves.inOrder⟩
    · have hqueue : (s.request r).requestQueue = false := by simpa using hqueue
      have hget : s.getRequestQueue r =
          { s.setRequest r { s.request r with requestQueue := true } with deq := s.deq ++ [r] } :=
        if_neg (by rw [hqueue]; exact Bool.false_ne_true)
      have hscheduled : (s.getRequestQueue r).scheduled = s.scheduled := by rw [hget]; rfl
      have hdeq : (s.getRequestQueue r).deq = s.deq ++ [r] := by rw [hget]
      have hnode : (s.getRequestQueue r).node = s.node := by rw [hget]; rfl
      cases hempty : s.deq with
      | nil =>
        have henqueue : ((s.getRequestQueue r).schedule r).Orderly := by
          rw [schedule, hscheduled]
          exact hs.enqueue hqueue (by rw [if_pos hempty])
        have hhead : (s.getRequestQueue r).deq.head? = some r := by
          rw [hdeq, hempty]
          rfl
        have hserves := henqueue.invokeQueued hhead (n := n) fun h =>
          hconverted hhead fun m hm => Option.some.inj hm ▸ hnode ▸ h
        refine ⟨hserves.orderly, fun x m _ hrun => ?_, fun hturn h =>
          hserves.inOrder (h.enqueue hs hqueue (hturn hready))⟩
        have hxhead := (hs.running hrun).1
        change s.deq.head? = some x at hxhead
        rw [hempty] at hxhead
        exact nomatch hxhead
      | cons first rest =>
        have hrest : s.scheduled = if s.deq = [] then s.scheduled ++ [r] else s.scheduled := by
          rw [if_neg (by rw [hempty]; exact List.cons_ne_nil _ _)]
        have henqueue := hs.enqueue hqueue hrest
        have hsame : ({ s.getRequestQueue r with scheduled := s.scheduled } : RequestGroup R E) =
            s.getRequestQueue r := by rw [← hscheduled]
        rw [hsame] at henqueue
        have hfirst : r ≠ first := by
          rintro rfl
          have hr : r ∈ s.deq := hempty ▸ List.mem_cons_self
          exact nomatch hqueue.symm.trans ((hs.mem_deq r).mp hr).2.1
        have hwait : (s.getRequestQueue r).invokeQueued r n seen = s.getRequestQueue r := by
          rw [RequestGroup.invokeQueued, hdeq, hempty]
          exact if_pos hfirst
        rw [hwait]
        refine ⟨henqueue, fun x m hx _ => ⟨?_, ?_⟩, fun hturn h =>
          h.enqueue hs hqueue (hturn hready)⟩
        · rw [hget]
          exact s.request_setRequest_ne hx _
        · rw [hnode]
  · have heq : s.invoke r seen = s.schedule r := if_neg hready
    rw [heq]
    exact ⟨hs, fun _ _ _ _ => ⟨rfl, rfl⟩, fun _ h => h⟩

/-- The method was called and the request is not complete. -/
def runs (s : RequestGroup R E) (r : ReqId) : Bool :=
  decide (r ∈ s.submitted) && !(s.request r).isDone && (s.request r).node.isSome

/-- No request fails before it has a node, and only running requests are replied to or cancelled. A
    request that has an error cannot be cancelled. -/
def Undisturbed (s : RequestGroup R E) : Event R E → Prop
  | .call r nodeId nodeCls doneCallback done seen =>
    (s.submit r nodeId nodeCls doneCallback done).Finds r seen
  | .invoke r seen => s.Finds r seen
  | .reply r _ _ => s.runs r = true
  | .cancel r => (s.request r).error.isSome = true ∨ s.runs r = true
  | _ => True

/-- Requests come into the queue in the order in which they were submitted. -/
def KeepsOrder (s : RequestGroup R E) : Event R E → Prop
  | .call r nodeId nodeCls doneCallback done _ =>
    s.isReady = true → (s.submit r nodeId nodeCls doneCallback done).InTurn r
  | .invoke r _ => s.isReady = true → s.InTurn r
  | _ => True

/-- The request that an event is about. -/
def Event.subject : Event R E → Option ReqId
  | .submit r _ _ _ _ | .call r _ _ _ _ _ | .invoke r _ | .reply r _ _ | .cancel r => some r
  | .pending _ _ | .ready _ => none

theorem running_of_runs (h : s.runs r = true) : ∃ n, s.Running r n := by
  rw [runs, Bool.and_eq_true, Bool.and_eq_true, decide_eq_true_iff, Bool.not_eq_true'] at h
  obtain ⟨n, hn⟩ := Option.isSome_iff_exists.mp h.2
  exact ⟨n, h.1.1, h.1.2, hn⟩

/-- A request that is taken from the event queue. -/
theorem Orderly.takeTurn (hs : s.Orderly) (hr : r ∈ s.scheduled) {seen : Seen R E}
    (hfinds : s.Finds r seen) :
    (s.takeTurn r seen).Orderly ∧ s.Untouched r (s.takeTurn r seen) ∧
      ((s.isReady = true → s.InTurn r) → s.InOrder → (s.takeTurn r seen).InOrder) := by
  have hsame := s.sameProgress_take hr
  have hfinds' : ({ s with scheduled := s.scheduled.erase r } : RequestGroup R E).Finds r seen := by
    simpa only [Finds, deq_getRequestQueue] using hfinds
  exact Orderly.invoke (hsame.orderly hs) hfinds'

theorem Orderly.step (hs : s.Orderly) {event : Event R E} (hevent : s.Undisturbed event)
    (hstep : s.step event = some s') :
    s'.Orderly ∧ (∀ r ∈ event.subject, s.Untouched r s') ∧
      (s.KeepsOrder event → s.InOrder → s'.InOrder) := by
  cases event with
  | submit r nodeId nodeCls doneCallback done =>
    obtain ⟨hr, heq⟩ := Option.ite_none_left_eq_some.mp hstep
    obtain rfl := Option.some.inj heq
    refine ⟨hs.submit hr nodeId nodeCls doneCallback done, ?_, fun _ h =>
      h.submit hr nodeId nodeCls doneCallback done⟩
    intro y hy
    obtain rfl := Option.some.inj hy
    exact fun x n hx _ => ⟨s.request_setRequest_ne hx _, rfl⟩
  | call r nodeId nodeCls doneCallback done seen =>
    obtain ⟨hr, heq⟩ := Option.ite_none_left_eq_some.mp hstep
    obtain rfl := Option.some.inj heq
    have hsubmit := hs.submit hr nodeId nodeCls doneCallback done
    obtain ⟨horderly, huntouched, horder⟩ :=
      hsubmit.takeTurn (List.mem_append_right _ List.mem_cons_self) hevent
    refine ⟨horderly, ?_, fun hkeeps h => horder hkeeps (h.submit hr _ _ _ _)⟩
    intro y hy
    obtain rfl := Option.some.inj hy
    rintro x n hx ⟨hxs, hxopen, hxnode⟩
    have hsame : (s.submit r nodeId nodeCls doneCallback done).request x = s.request x :=
      s.request_setRequest_ne hx _
    have hrun : (s.submit r nodeId nodeCls doneCallback done).Running x n :=
      ⟨List.mem_append_left _ hxs, hsame ▸ hxopen, hsame ▸ hxnode⟩
    exact ⟨(huntouched x n hx hrun).1.trans hsame, (huntouched x n hx hrun).2⟩
  | invoke r seen =>
    obtain ⟨hr, heq⟩ := Option.ite_none_right_eq_some.mp hstep
    obtain rfl := Option.some.inj heq
    obtain ⟨horderly, huntouched, horder⟩ := hs.takeTurn hr hevent
    refine ⟨horderly, ?_, horder⟩
    intro y hy
    obtain rfl := Option.some.inj hy
    exact huntouched
  | reply r error result =>
    obtain ⟨-, heq⟩ := Option.ite_none_right_eq_some.mp hstep
    obtain rfl := Option.some.inj heq
    obtain ⟨n, hrun⟩ := running_of_runs hevent
    have hserves := hs.doneRun hrun error result
    refine ⟨hserves.orderly, ?_, fun _ => hserves.inOrder⟩
    intro y hy
    obtain rfl := Option.some.inj hy
    exact hserves.untouched
  | cancel r =>
    obtain ⟨hr, heq⟩ := Option.ite_none_right_eq_some.mp hstep
    obtain rfl := Option.some.inj heq
    cases herror : (s.request r).error with
    | some e =>
      have hsame : s.cancel r = s := by rw [cancel, herror]
      rw [hsame]
      exact ⟨hs, fun _ _ _ _ _ _ => ⟨rfl, rfl⟩, fun _ => id⟩
    | none =>
      have hcancel : s.cancel r = s.setException r (.cancelError "Request Cancelled") := by
        rw [cancel, herror]
      have hruns : s.runs r = true := by
        refine Or.resolve_left hevent ?_
        rw [herror]
        exact Bool.false_ne_true
      obtain ⟨n, hrun⟩ := running_of_runs hruns
      have hserves := hs.setException hrun (.cancelError "Request Cancelled")
      rw [hcancel]
      refine ⟨hserves.orderly, ?_, fun _ => hserves.inOrder⟩
      intro y hy
      obtain rfl := Option.some.inj hy
      exact hserves.untouched
  | pending n pending =>
    obtain rfl := Option.some.inj hstep
    have hsame := s.sameProgress_pending n pending
    exact ⟨hsame.orderly hs, fun _ h => (nomatch h), fun _ => hsame.inOrder⟩
  | ready isReady =>
    obtain rfl := Option.some.inj hstep
    refine ⟨⟨hs.nodup, hs.mem_deq, hs.ongoing, hs.complete, hs.running, hs.scheduled_nodup,
      hs.scheduled, hs.next, hs.waiting, hs.raised⟩, fun _ h => (nomatch h), fun _ h => h⟩

/-! ### Runs -/

/-- The callback of a request runs at most once, and a request that is complete was taken out of
    its queue once. -/
structure CompletesOnce (s : RequestGroup R E) : Prop where
  callbacks : ∀ r ∈ s.submitted, (s.request r).callbacks ≤ 1
  removals : ∀ r ∈ s.submitted, (s.request r).removals = if (s.request r).isDone then 1 else 0

/-- Every request completes once in a run, and leaves the others that run alone. -/
def RunsOnce (s : RequestGroup R E) (events : List (Event R E)) : Prop :=
  Machine.Throughout step CompletesOnce
    (fun s event s' => ∀ r ∈ event.subject, s.Untouched r s') s events

theorem Orderly.completesOnce (hs : s.Orderly) : s.CompletesOnce := by
  constructor
  · intro r hr
    cases hdone : (s.request r).isDone with
    | false => rw [(hs.ongoing hr hdone).1]; exact Nat.zero_le 1
    | true =>
      rw [(hs.complete hr hdone).2.2.1]
      split_ifs
      · exact Nat.le_refl 1
      · exact Nat.zero_le 1
  · intro r hr
    cases hdone : (s.request r).isDone with
    | false => exact (hs.ongoing hr hdone).2
    | true => exact (hs.complete hr hdone).2.2.2

/-- Requests complete once as long as only running requests are replied to or cancelled. -/
theorem runsOnce_of_undisturbed (R E : Type) (events : List (Event R E))
    (h : Machine.EachStep step Undisturbed (init R E) events) : (init R E).RunsOnce events := by
  refine Machine.Throughout.of_inv Orderly.completesOnce ?_ events (orderly_init R E) h
  intro s event s' hs hevent hstep
  obtain ⟨horderly, huntouched, -⟩ := hs.step hevent hstep
  exact ⟨horderly, huntouched⟩

instance (s : RequestGroup R E) (r : ReqId) (seen : Seen R E) : Decidable (s.Finds r seen) :=
  inferInstanceAs (Decidable (_ → _))

instance (s : RequestGroup R E) (r : ReqId) : Decidable (s.InTurn r) :=
  inferInstanceAs (Decidable (_ → _))

instance (s : RequestGroup R E) : DecidablePred s.Undisturbed
  | .call _ _ _ _ _ _ => inferInstanceAs (Decidable (Finds _ _ _))
  | .invoke _ _ => inferInstanceAs (Decidable (Finds _ _ _))
  | .reply _ _ _ => inferInstanceAs (Decidable (_ = _))
  | .cancel _ => inferInstanceAs (Decidable (_ ∨ _))
  | .submit _ _ _ _ _ | .pending _ _ | .ready _ => inferInstanceAs (Decidable True)

instance (s : RequestGroup R E) : DecidablePred s.KeepsOrder
  | .call _ _ _ _ _ _ => inferInstanceAs (Decidable (_ → _))
  | .invoke _ _ => inferInstanceAs (Decidable (_ → _))
  | .reply _ _ _ | .cancel _ | .submit _ _ _ _ _ | .pending _ _ | .ready _ =>
    inferInstanceAs (Decidable True)

/-- A node that is there, and a method that waits for a reply. -/
def waits (R E : Type) (n : NodeRef) : Seen R E where
  node := some n
  converted := .ok (some n)
  outcome := .returns [.command 7] none

/-- A running request is cancelled, and the next one gets its turn. -/
theorem runsOnce_cancelled :
    Machine.EachStep step Undisturbed (init ℕ ℕ) [.submit 0 "a" "Ila" true false,
        .submit 1 "a" "Ila" false true, .invoke 0 (waits ℕ ℕ 4), .invoke 1 (waits ℕ ℕ 4), .cancel 0,
        .pending 4 [], .invoke 1 (waits ℕ ℕ 4), .reply 1 none (some 3)] ∧
      (init ℕ ℕ).RunsOnce [.submit 0 "a" "Ila" true false, .submit 1 "a" "Ila" false true,
        .invoke 0 (waits ℕ ℕ 4), .invoke 1 (waits ℕ ℕ 4), .cancel 0, .pending 4 [],
        .invoke 1 (waits ℕ ℕ 4), .reply 1 none (some 3)] :=
  ⟨by decide +kernel, runsOnce_of_undisturbed ℕ ℕ _ (by decide +kernel)⟩

/-- The reply to a cancelled request runs its callback again. -/
theorem not_runsOnce_lateReply : ¬ (init ℕ ℕ).RunsOnce [.submit 0 "a" "Ila" true false,
    .invoke 0 (waits ℕ ℕ 4), .cancel 0, .reply 0 none (some 3)] := by
  intro h
  have hcount : (Machine.runTo step (init ℕ ℕ) [.submit 0 "a" "Ila" true false,
      .invoke 0 (waits ℕ ℕ 4), .cancel 0, .reply 0 none (some 3)]).map
        (fun s => (s.submitted, (s.request 0).callbacks)) = some ([0], 2) := by decide +kernel
  obtain ⟨s, hs, hfacts⟩ := Option.map_eq_some_iff.mp hcount
  obtain ⟨hsub, htwice⟩ := Prod.mk.inj hfacts
  have honce := (h.runTo hs).callbacks 0 (by rw [hsub]; exact List.mem_cons_self)
  rw [htwice] at honce
  exact absurd honce (by decide)

/-- The queue is served in order, one request at a time, and never stuck. -/
structure Served (s : RequestGroup R E) : Prop where
  running : ∀ r n, s.Running r n → s.deq.head? = some r
  order : s.started.Sublist s.submitted
  gone : ∀ r ∈ s.deq, (s.request r).isDone = false
  next : ∀ r, s.deq.head? = some r → (∃ n, s.Running r n) ∨ r ∈ s.scheduled
  complete : ∀ r ∈ s.submitted, (s.request r).isDone = true → (s.request r).cond = true ∧
    ((s.request r).doneCallback = true → 0 < (s.request r).callbacks)
  raised : s.raised = []

theorem Orderly.served (hs : s.Orderly) (horder : s.InOrder) : s.Served where
  running r n hr := (hs.running hr).1
  order := by
    obtain ⟨-, finished, waiting, hsub, -, -, hstarted⟩ := horder
    rw [hsub, hstarted]
    exact (List.Sublist.refl finished).append
      (List.filter_sublist.trans (List.sublist_append_left s.deq waiting))
  gone r hr := ((hs.mem_deq r).mp hr).2.2
  next r hr := by
    obtain ⟨hsub, -, hopen⟩ := (hs.mem_deq r).mp (List.mem_of_head? hr)
    rcases hs.next hr with h | h
    · obtain ⟨n, hn⟩ := Option.ne_none_iff_exists'.mp h
      exact .inl ⟨n, hsub, hopen, hn⟩
    · exact .inr h
  complete r hr hdone := by
    obtain ⟨-, hcond, hcallbacks, -⟩ := hs.complete hr hdone
    refine ⟨hcond, fun h => ?_⟩
    rw [hcallbacks, if_pos h]
    exact Nat.one_pos
  raised := hs.raised

/-- The queue is served as long as no request fails before it has a node and each comes into the
    queue in its turn. -/
theorem served_of_undisturbed (R E : Type) (events : List (Event R E))
    (h : Machine.EachStep step (fun s event => s.Undisturbed event ∧ s.KeepsOrder event)
      (init R E) events) :
    Machine.Throughout step Served (fun _ _ _ => True) (init R E) events := by
  have hinit : (init R E).InOrder :=
    ⟨List.nodup_nil, [], [], rfl, fun _ h => (nomatch h), fun _ h => (nomatch h), rfl⟩
  have hserved : ∀ {s : RequestGroup R E}, s.Orderly ∧ s.InOrder → s.Served :=
    fun h => h.1.served h.2
  refine Machine.Throughout.of_inv hserved ?_ events ⟨orderly_init R E, hinit⟩ h
  rintro s event s' ⟨hs, horder⟩ ⟨hevent, hkeeps⟩ hstep
  obtain ⟨horderly, -, hinOrder⟩ := hs.step hevent hstep
  exact ⟨⟨horderly, hinOrder hkeeps horder⟩, trivial⟩

/-- Two requests for one node: the second one waits until the first is replied to. -/
theorem served_twoRequests :
    Machine.EachStep step (fun s event => s.Undisturbed event ∧ s.KeepsOrder event) (init ℕ ℕ)
        [.submit 0 "a" "Ila" true false, .submit 1 "a" "Ila" false true, .invoke 0 (waits ℕ ℕ 4),
        .invoke 1 (waits ℕ ℕ 4), .reply 0 none (some 3), .pending 4 [], .invoke 1 (waits ℕ ℕ 4)] ∧
      Machine.Throughout step Served (fun _ _ _ => True) (init ℕ ℕ)
        [.submit 0 "a" "Ila" true false, .submit 1 "a" "Ila" false true, .invoke 0 (waits ℕ ℕ 4),
        .invoke 1 (waits ℕ ℕ 4), .reply 0 none (some 3), .pending 4 [], .invoke 1 (waits ℕ ℕ 4)] :=
  ⟨by decide +kernel, served_of_undisturbed ℕ ℕ _ (by decide +kernel)⟩

/-- A node that is there but cannot be made one of the class of the request. -/
def notConvertible (R E : Type) (n : NodeRef) : Seen R E where
  node := some n
  converted := .ok none
  outcome := .returns [] none

/-- A request whose node has the wrong class is complete but stays in the queue. -/
theorem not_served_notConvertible : ¬ Machine.Throughout step Served (fun _ _ _ => True) (init ℕ ℕ)
    [.submit 0 "a" "Ila" true false, .invoke 0 (notConvertible ℕ ℕ 4)] := by
  intro h
  have hstuck : (Machine.runTo step (init ℕ ℕ) [.submit 0 "a" "Ila" true false,
      .invoke 0 (notConvertible ℕ ℕ 4)]).map
        (fun s => (s.deq, (s.request 0).isDone)) = some ([0], true) := by decide +kernel
  obtain ⟨s, hs, hfacts⟩ := Option.map_eq_some_iff.mp hstuck
  obtain ⟨hdeq, hdone⟩ := Prod.mk.inj hfacts
  have hopen := (h.runTo hs).gone 0 (by rw [hdeq]; exact List.mem_cons_self)
  exact nomatch hopen.symm.trans hdone

end RequestGroup

end Chipscopy.Dm
