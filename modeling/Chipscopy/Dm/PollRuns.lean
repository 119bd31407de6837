import Chipscopy.Dm.Poll

/-! Poll bookkeeping

    The count and the listeners of a poll agree with what the callers have done as long as a
    description is only replaced when it has neither, no retain goes unnoticed, and no release names
    a handler that is registered. -/

namespace Chipscopy.Dm.Polling

/-- The poll is in the set of the node. -/
def State.InNode (s : State) (parentId pollId : String) : Prop :=
  ∃ ids, s.nodes.get? parentId = some ids ∧ pollId ∈ ids

/-! ### What an action does to the polls -/

section Tables

variable {s : State}

/-- The polls and the nodes are the same. -/
structure SameTables (s s' : State) : Prop where
  polls : s'.polls = s.polls
  nodes : s'.nodes = s.nodes

/-- A command was sent that is not `removePoll`, or none. -/
def NothingRemoved (s s' : State) : Prop :=
  ∃ ms, s'.sent = s.sent ++ ms ∧ ∀ pollId, Message.removePoll pollId ∉ ms

theorem NothingRemoved.of_eq {s s' : State} (h : s'.sent = s.sent) : NothingRemoved s s' :=
  ⟨[], by rw [h, List.append_nil], fun _ hm => nomatch hm⟩

theorem NothingRemoved.trans {s s₁ s' : State} (h : NothingRemoved s s₁)
    (h' : NothingRemoved s₁ s') : NothingRemoved s s' := by
  obtain ⟨ms, hms, hnone⟩ := h
  obtain ⟨ms', hms', hnone'⟩ := h'
  refine ⟨ms ++ ms', by rw [hms', hms, List.append_assoc], fun pollId hm => ?_⟩
  rcases List.mem_append.mp hm with hm | hm
  · exact hnone pollId hm
  · exact hnone' pollId hm

theorem SameTables.trans {s s₁ s' : State} (h : SameTables s s₁) (h' : SameTables s₁ s') :
    SameTables s s' := ⟨h'.polls.trans h.polls, h'.nodes.trans h.nodes⟩

/-- Neither the polls nor what is removed in the server changes. -/
structure Quiet (s s' : State) : Prop extends SameTables s s' where
  sent : NothingRemoved s s'

theorem Quiet.refl (s : State) : Quiet s s := ⟨⟨rfl, rfl⟩, .of_eq rfl⟩

theorem Quiet.trans {s s₁ s' : State} (h : Quiet s s₁) (h' : Quiet s₁ s') : Quiet s s' :=
  ⟨h.toSameTables.trans h'.toSameTables, h.sent.trans h'.sent⟩

theorem quiet_later (r : Request) (s : State) : Quiet s (s.later r) := ⟨⟨rfl, rfl⟩, .of_eq rfl⟩

theorem quiet_finish (t : Token) (s : State) : Quiet s (s.finish t) := ⟨⟨rfl, rfl⟩, .of_eq rfl⟩

theorem quiet_notify (done : Bool) (t : Token) (error : Option Py.Error) (result : Result)
    (s : State) : Quiet s (s.notify done t error result) := by
  rw [State.notify]
  split_ifs
  · exact ⟨⟨rfl, rfl⟩, .of_eq rfl⟩
  · exact .refl s

theorem quiet_send {m : Message} (hm : ∀ pollId, m ≠ .removePoll pollId) (r : Request)
    (s : State) : Quiet s (s.send m r) := by
  refine ⟨⟨rfl, rfl⟩, [m], rfl, fun pollId hmem => ?_⟩
  exact hm pollId (List.mem_singleton.mp hmem).symm

theorem quiet_pending (pending : Token → Finset Token) (s : State) :
    Quiet s { s with pending := pending } := ⟨⟨rfl, rfl⟩, .of_eq rfl⟩

theorem quiet_settle (update t : Token) (s : State) : Quiet s (s.settle update t) :=
  quiet_pending _ s

theorem quiet_getContext (update : Token) (node : String) (done : Bool) (s : State)
    (pollId : String) : Quiet s (s.getContext update node done pollId) :=
  (quiet_send (m := .getContext pollId) (fun _ h => nomatch h) (.getContext update node done)
    s).trans (quiet_pending _ _)

theorem quiet_doneGetPolls (t : Token) (node : String) (done : Bool)
    (reply : Except Py.Error (List String)) (s : State) :
    Quiet s (s.doneGetPolls t node done reply) := by
  have hfold (pollIds : List String) (s : State) :
      Quiet s (pollIds.foldl (State.getContext t node done) s) := by
    induction pollIds generalizing s with
    | nil => exact .refl s
    | cons pollId pollIds ih => exact (quiet_getContext t node done s pollId).trans (ih _)
  unfold State.doneGetPolls
  dsimp only
  cases reply with
  | error e =>
    dsimp only
    split_ifs
    · exact (quiet_settle t t s).trans (quiet_notify _ _ _ _ _)
    · exact quiet_settle t t s
  | ok pollIds =>
    dsimp only
    split_ifs
    · exact ((quiet_settle t t s).trans (hfold pollIds _)).trans (quiet_notify _ _ _ _ _)
    · exact (quiet_settle t t s).trans (hfold pollIds _)

end Tables

/-- A description that is added. -/
def Action.Adds (a : Action) (poll : DebugCorePoll) : Prop :=
  a = .pollAdded poll ∨ ∃ t, a = .getContextReply t (.ok poll)

/-- A poll when it is retained. -/
def Poll.subscribed (poll : Poll) (eventHandler : Option Handler) : Poll :=
  (match eventHandler with
    | some h => poll.listening h
    | none => poll).retained

@[simp] theorem Poll.count_retained (poll : Poll) : poll.retained.count = poll.count + 1 := by
  rcases poll with ⟨props, - | n, listeners⟩
  · rfl
  · rfl

theorem Poll.count_subscribed (poll : Poll) (eventHandler : Option Handler) :
    (poll.subscribed eventHandler).count = poll.count + 1 := by
  cases eventHandler with
  | none => exact poll.count_retained
  | some h => exact (poll.listening h).count_retained

theorem Poll.listeners_subscribed (poll : Poll) (eventHandler : Option Handler) :
    (poll.subscribed eventHandler).listeners = eventHandler.toFinset ∪ poll.listeners := by
  cases eventHandler with
  | none => exact (Finset.empty_union _).symm
  | some h => rfl

theorem Poll.parent_subscribed (poll : Poll) (eventHandler : Option Handler) :
    (poll.subscribed eventHandler).parent = poll.parent := by
  cases eventHandler with
  | none => rfl
  | some h => rfl

/-- The polls with one stored. -/
def Stored (s s' : State) (pollId : String) (poll : Poll) : Prop :=
  ∀ pollId', s'.polls.get? pollId' = if pollId' = pollId then some poll else s.polls.get? pollId'

/-- What an action does. -/
inductive Effect (w : World) (a : Action) (w' : World) : Prop
  | quiet (hquiet : Quiet w.state w'.state) (hledger : w'.ledger = w.ledger)
      (hnotAdds : ∀ poll, ¬ a.Adds poll)
  | added (poll : DebugCorePoll) (s : State) (hadds : a.Adds poll) (hquiet : Quiet w.state s)
      (hstate : Quiet (s.addPoll poll) w'.state) (hledger : w'.ledger = w.ledger)
  | removed (pollCtx : String) (ha : a = .pollRemoved pollCtx)
      (hstate : w'.state = (w.state.removePoll pollCtx).1) (hledger : w'.ledger = w.ledger)
  | subscribed (pollId : String) (eventHandler : Option Handler)
      (hnotAdds : ∀ poll, ¬ a.Adds poll)
      (hstate : (w.state.polls.get? pollId = none ∧ Quiet w.state w'.state) ∨
        ∃ poll, w.state.polls.get? pollId = some poll ∧
          Stored w.state w'.state pollId (poll.subscribed eventHandler) ∧
          w'.state.nodes = w.state.nodes ∧ NothingRemoved w.state w'.state)
      (hledger : w'.ledger = w.ledger.withSubscription pollId eventHandler)
  | unnoticed (pollCtx : String) (eventHandler : Option Handler) (n : ℤ)
      (ha : a = .retainPoll pollCtx eventHandler false)
      (hcount : w.state.refCount pollCtx = some n) (hn : n ≠ 0)
  | released (pollCtx : String) (eventHandler : Option Handler) (done : Bool) (poll : Poll)
      (ha : a = .releasePoll pollCtx eventHandler done)
      (hpoll : w.state.polls.get? pollCtx = some poll) (hcount : 0 < poll.count)
      (hpolls : Stored w.state w'.state pollCtx poll.released)
      (hnodes : w'.state.nodes = w.state.nodes)
      (hsent : w'.state.sent = w.state.sent ++
        if poll.count = 1 then [.removePoll pollCtx] else [])
      (hledger : w'.ledger = w.ledger.withRelease pollCtx eventHandler)

theorem modifyPoll_none {s : State} {pollId : String} (h : s.polls.get? pollId = none)
    (f : Poll → Poll) : s.modifyPoll pollId f = (s, some (.keyError pollId)) := by
  rw [State.modifyPoll, h]

theorem modifyPoll_some {s : State} {pollId : String} {poll : Poll}
    (h : s.polls.get? pollId = some poll) (f : Poll → Poll) :
    s.modifyPoll pollId f = (s.storePoll pollId (f poll), none) := by
  rw [State.modifyPoll, h]

theorem subscribe_none {s : State} {pollId : String} (h : s.polls.get? pollId = none)
    (eventHandler : Option Handler) :
    s.subscribe pollId eventHandler = (s, some (.keyError pollId)) := by
  unfold State.subscribe
  cases eventHandler with
  | none => exact modifyPoll_none h _
  | some handler =>
    dsimp only
    rw [State.addEventListener, modifyPoll_none h]
    rfl

theorem subscribe_some {s : State} {pollId : String} {poll : Poll}
    (h : s.polls.get? pollId = some poll) (eventHandler : Option Handler) :
    ∃ s', s.subscribe pollId eventHandler = (s', none) ∧ s'.nodes = s.nodes ∧ s'.sent = s.sent ∧
      Stored s s' pollId (poll.subscribed eventHandler) := by
  unfold State.subscribe
  cases eventHandler with
  | none => exact ⟨_, modifyPoll_some h _, rfl, rfl, Py.Dict.get?_set _ _ _⟩
  | some handler =>
    dsimp only
    rw [State.addEventListener, modifyPoll_some h]
    refine ⟨_, modifyPoll_some (Py.Dict.get?_set_self _ _ _) _, rfl, rfl, fun pollId' => ?_⟩
    rw [State.storePoll, State.storePoll, Py.Dict.get?_set, Py.Dict.get?_set]
    split_ifs
    · rfl
    · rfl

/-- A successful schedule or retain. -/
theorem effect_subscribe {w w' : World} {a : Action} {s : State} {pollId : String}
    {eventHandler : Option Handler} {f : State → Py.Outcome State} (hquiet : Quiet w.state s)
    (hf : ∀ s, Quiet s (f s).1) (hnotAdds : ∀ poll, ¬ a.Adds poll)
    (hstate : w'.state = ((s.subscribe pollId eventHandler).andThen f).1)
    (hledger : w'.ledger = w.ledger.withSubscription pollId eventHandler) : Effect w a w' := by
  refine .subscribed pollId eventHandler hnotAdds ?_ hledger
  rcases hpoll : s.polls.get? pollId with - | poll
  · rw [subscribe_none hpoll] at hstate
    refine .inl ⟨?_, ?_⟩
    · rwa [← hquiet.polls]
    · rw [hstate]
      exact hquiet
  · obtain ⟨s', hsubscribe, hnodes, hsent, hpolls⟩ := subscribe_some hpoll eventHandler
    rw [hsubscribe, Py.Outcome.andThen] at hstate
    have hdone := hf s'
    refine .inr ⟨poll, ?_, ?_, ?_, ?_⟩
    · rwa [← hquiet.polls]
    · intro pollId'
      rw [hstate, hdone.polls, hpolls, hquiet.polls]
    · rw [hstate, hdone.nodes, hnodes, hquiet.nodes]
    · rw [hstate]
      exact (hquiet.sent.trans (.of_eq hsent)).trans hdone.sent

theorem release_some {s : State} {pollId : String} {poll : Poll}
    (h : s.polls.get? pollId = some poll) (hcount : 0 < poll.count) :
    s.release pollId = (s.storePoll pollId poll.released, none) := by
  rw [State.release, h]
  dsimp only
  rw [if_pos hcount, modifyPoll_some h]

theorem releasePoll_none {s : State} {pollCtx : String} (h : s.polls.get? pollCtx = none)
    (eventHandler : Option Handler) (done : Bool) :
    s.releasePoll pollCtx eventHandler done = (s, some (.keyError pollCtx)) := by
  have hrelease : s.release pollCtx = (s, some (.keyError pollCtx)) := by rw [State.release, h]
  cases eventHandler with
  | none =>
    unfold State.releasePoll
    simp only [Py.Outcome.andThen, hrelease]
  | some handler =>
    unfold State.releasePoll
    simp only [Py.Outcome.andThen, State.removeEventListener, h]

/-- The listeners stay when a release names one. -/
theorem releasePoll_some {s : State} {pollCtx : String} {poll : Poll}
    (h : s.polls.get? pollCtx = some poll) (eventHandler : Option Handler) (done : Bool) :
    s.releasePoll pollCtx eventHandler done = (s.release pollCtx).andThen fun s =>
      if s.refCount pollCtx = some 0 then (s.send (.removePoll pollCtx) (.removePoll done), none)
      else (if done then s.later .laterDone else s.token, none) := by
  cases eventHandler with
  | none => rfl
  | some handler =>
    unfold State.releasePoll
    simp only [State.removeEventListener, h]
    rfl

/-- A release that does not raise. -/
theorem releasePoll_spec {s : State} {pollCtx : String} {poll : Poll}
    (h : s.polls.get? pollCtx = some poll) (hcount : 0 < poll.count)
    (eventHandler : Option Handler) (done : Bool) :
    ∃ s', s.releasePoll pollCtx eventHandler done = (s', none) ∧
      Stored s s' pollCtx poll.released ∧ s'.nodes = s.nodes ∧
      s'.sent = s.sent ++ if poll.count = 1 then [.removePoll pollCtx] else [] := by
  have hzero : (s.storePoll pollCtx poll.released).refCount pollCtx = some 0 ↔
      poll.count = 1 := by
    rw [State.refCount, State.storePoll, Py.Dict.get?_set_self]
    change some (poll.count - 1) = some 0 ↔ _
    rw [Option.some_inj]
    omega
  have hstored : Stored s (s.storePoll pollCtx poll.released) pollCtx poll.released :=
    Py.Dict.get?_set _ _ _
  rw [releasePoll_some h, release_some h hcount]
  simp only [Py.Outcome.andThen, hzero]
  rcases eq_or_ne poll.count 1 with hone | hmore
  · rw [if_pos hone, if_pos hone]
    exact ⟨_, rfl, hstored, rfl, rfl⟩
  · rw [if_neg hmore, if_neg hmore, List.append_nil]
    cases done with
    | true => exact ⟨_, rfl, hstored, rfl, rfl⟩
    | false => exact ⟨_, rfl, hstored, rfl, rfl⟩

theorem releasePoll_raised {s : State} {pollCtx : String}
    (h : ∀ poll, s.polls.get? pollCtx = some poll → poll.count ≤ 0)
    (eventHandler : Option Handler) (done : Bool) :
    ∃ e, s.releasePoll pollCtx eventHandler done = (s, some e) := by
  rcases hpoll : s.polls.get? pollCtx with - | poll
  · exact ⟨_, releasePoll_none hpoll eventHandler done⟩
  · have hraise : s.release pollCtx = (s, some (.assertionError "")) := by
      rw [State.release, hpoll]
      dsimp only
      rw [if_neg (h poll hpoll).not_gt]
    refine ⟨.assertionError "", ?_⟩
    rw [releasePoll_some hpoll, hraise, Py.Outcome.andThen]

theorem effect_releasePoll {w w' : World} {pollCtx : String} {eventHandler : Option Handler}
    {done : Bool} (hstep : step w (.releasePoll pollCtx eventHandler done) = some w') :
    Effect w (.releasePoll pollCtx eventHandler done) w' := by
  obtain rfl := Option.some.inj hstep
  have hraised (h : ∀ poll, w.state.polls.get? pollCtx = some poll → poll.count ≤ 0) :
      Effect w (.releasePoll pollCtx eventHandler done)
        ⟨(w.state.releasePoll pollCtx eventHandler done).1, w.ledger.record w.state
          (w.state.releasePoll pollCtx eventHandler done).2
          (.releasePoll pollCtx eventHandler done)⟩ := by
    obtain ⟨e, hraise⟩ := releasePoll_raised h eventHandler done
    rw [hraise]
    refine .quiet (.refl _) rfl fun poll hadds => ?_
    rcases hadds with hbad | ⟨t, hbad⟩
    · exact nomatch hbad
    · exact nomatch hbad
  rcases hpoll : w.state.polls.get? pollCtx with - | poll
  · refine hraised fun poll h => ?_
    rw [hpoll] at h
    exact nomatch h
  · rcases lt_or_ge 0 poll.count with hcount | hcount
    · obtain ⟨s', hrelease, hstored, hnodes, hsent⟩ :=
        releasePoll_spec hpoll hcount eventHandler done
      refine .released pollCtx eventHandler done poll rfl hpoll hcount ?_ ?_ ?_ ?_
      · dsimp only
        rwa [hrelease]
      · dsimp only
        rwa [hrelease]
      · dsimp only
        rwa [hrelease]
      · dsimp only
        rw [hrelease]
        simp only [Ledger.record, if_true]
    · refine hraised fun poll' h => ?_
      rw [hpoll] at h
      obtain rfl := Option.some.inj h
      exact hcount

theorem effect_retainPoll {w w' : World} {pollCtx : String} {eventHandler : Option Handler}
    {done : Bool} (hstep : step w (.retainPoll pollCtx eventHandler done) = some w') :
    Effect w (.retainPoll pollCtx eventHandler done) w' := by
  obtain rfl := Option.some.inj hstep
  have hnotAdds (poll : DebugCorePoll) :
      ¬ (Action.retainPoll pollCtx eventHandler done).Adds poll := by
    rintro (h | ⟨t, h⟩)
    · exact nomatch h
    · exact nomatch h
  have hsame (h : w.state.refCount pollCtx = none ∨ w.state.refCount pollCtx = some 0) :
      w.ledger.record w.state (w.state.retainPoll pollCtx eventHandler done).2
        (.retainPoll pollCtx eventHandler done) = w.ledger := by
    cases done with
    | true => rfl
    | false => simp only [Ledger.record, if_pos h]
  rcases hpoll : w.state.polls.get? pollCtx with - | poll
  · refine .quiet ?_ (hsame (.inl ?_)) hnotAdds
    · dsimp only
      rw [State.retainPoll, hpoll]
      exact .refl _
    · rw [State.refCount, hpoll]
      rfl
  · have hcount : w.state.refCount pollCtx = some poll.count := by
      rw [State.refCount, hpoll]
      rfl
    rcases eq_or_ne poll.count 0 with hzero | hne
    · refine .quiet ?_ (hsame (.inr (hcount.trans (congrArg some hzero)))) hnotAdds
      dsimp only
      rw [State.retainPoll, hpoll]
      dsimp only
      rw [if_neg (not_not.mpr hzero)]
      exact quiet_send (by simp) _ _
    · cases done with
      | false => exact .unnoticed pollCtx eventHandler poll.count rfl hcount hne
      | true =>
        refine .quiet ?_ rfl hnotAdds
        dsimp only
        rw [State.retainPoll, hpoll]
        dsimp only
        rw [if_pos hne]
        exact quiet_later _ _

theorem quiet_donePollUpdate (t update : Token) (node : String) (done : Bool)
    (poll : DebugCorePoll) (s : State) :
    Quiet ((s.settle update t).addPoll poll)
      (s.donePollUpdate t update node done (.ok poll)).1 := by
  unfold State.donePollUpdate
  dsimp only
  split_ifs
  · exact quiet_notify _ _ _ _ _
  · split
    · exact .refl _
    · exact quiet_notify _ _ _ _ _
  · exact .refl _

/-- Every action has one of the effects. -/
theorem step_effect {w w' : World} {a : Action} (hstep : step w a = some w') : Effect w a w' := by
  have hnotAdds {a : Action} (hadded : ∀ poll, a ≠ .pollAdded poll)
      (hreply : ∀ t poll, a ≠ .getContextReply t (.ok poll)) (poll : DebugCorePoll) :
      ¬ a.Adds poll := by
    rintro (h | ⟨t, h⟩)
    · exact hadded poll h
    · exact hreply t poll h
  cases a with
  | pollAdded poll =>
    obtain rfl := Option.some.inj hstep
    exact .added poll w.state (.inl rfl) (.refl _) (.refl _) rfl
  | pollRemoved pollCtx =>
    obtain rfl := Option.some.inj hstep
    exact .removed pollCtx rfl rfl rfl
  | pollEvent pollCtx =>
    obtain rfl := Option.some.inj hstep
    exact .quiet (.refl _) rfl (hnotAdds (by simp) (by simp))
  | updatePolls nodeId done =>
    obtain rfl := Option.some.inj hstep
    exact .quiet ((quiet_send (m := .getPolls nodeId) (by simp) _ _).trans (quiet_pending _ _)) rfl
      (hnotAdds (by simp) (by simp))
  | schedulePoll nodeCtx name period eventHandler done =>
    obtain rfl := Option.some.inj hstep
    exact .quiet (quiet_send (by simp) _ _) rfl (hnotAdds (by simp) (by simp))
  | releasePoll pollCtx eventHandler done => exact effect_releasePoll hstep
  | retainPoll pollCtx eventHandler done => exact effect_retainPoll hstep
  | getPollsReply t reply =>
    obtain ⟨o, ho, rfl⟩ := Option.map_eq_some_iff.mp hstep
    simp only [Action.perform] at ho
    split at ho
    · obtain rfl := Option.some.inj ho
      exact .quiet ((quiet_finish t _).trans (quiet_doneGetPolls t _ _ reply _)) rfl
        (hnotAdds (by simp) (by simp))
    · cases ho
  | getContextReply t reply =>
    obtain ⟨o, ho, rfl⟩ := Option.map_eq_some_iff.mp hstep
    simp only [Action.perform] at ho
    split at ho
    · obtain rfl := Option.some.inj ho
      cases reply with
      | error e =>
        exact .quiet ((quiet_finish t _).trans (quiet_settle _ t _)) rfl
          (hnotAdds (by simp) (by simp))
      | ok poll =>
        exact .added poll _ (.inr ⟨t, rfl⟩) ((quiet_finish t _).trans (quiet_settle _ t _))
          (quiet_donePollUpdate t _ _ _ poll _) rfl
    · cases ho
  | addPollReply t reply =>
    obtain ⟨o, ho, rfl⟩ := Option.map_eq_some_iff.mp hstep
    simp only [Action.perform] at ho
    split at ho
    · next eventHandler done hrequest =>
      obtain rfl := Option.some.inj ho
      cases reply with
      | error e =>
        exact .quiet ((quiet_finish t _).trans (quiet_notify _ _ _ _ _)) rfl
          (hnotAdds (by simp) (by simp))
      | ok pollId =>
        refine effect_subscribe (quiet_finish t _) (fun s => quiet_notify done t none _ s)
          (hnotAdds (by simp) (by simp)) rfl ?_
        simp only [Ledger.record, hrequest]
    · cases ho
  | removePollReply t error =>
    obtain ⟨o, ho, rfl⟩ := Option.map_eq_some_iff.mp hstep
    simp only [Action.perform] at ho
    split at ho
    · obtain rfl := Option.some.inj ho
      exact .quiet ((quiet_finish t _).trans (quiet_notify _ _ _ _ _)) rfl
        (hnotAdds (by simp) (by simp))
    · cases ho
  | retainPollReply t error =>
    obtain ⟨o, ho, rfl⟩ := Option.map_eq_some_iff.mp hstep
    simp only [Action.perform] at ho
    split at ho
    · next pollCtx eventHandler done hrequest =>
      obtain rfl := Option.some.inj ho
      cases error with
      | some e =>
        exact .quiet ((quiet_finish t _).trans (quiet_notify _ _ _ _ _)) rfl
          (hnotAdds (by simp) (by simp))
      | none =>
        refine effect_subscribe (quiet_finish t _) (fun s => quiet_notify done t none _ s)
          (hnotAdds (by simp) (by simp)) rfl ?_
        simp only [Ledger.record, hrequest]
    · cases ho
  | dispatch t =>
    obtain ⟨o, ho, rfl⟩ := Option.map_eq_some_iff.mp hstep
    simp only [Action.perform] at ho
    split at ho
    · next pollCtx eventHandler hrequest =>
      obtain rfl := Option.some.inj ho
      refine effect_subscribe (quiet_finish t _) (fun s => quiet_notify true t none _ s)
        (hnotAdds (by simp) (by simp)) rfl ?_
      simp only [Ledger.record, hrequest]
    · next hrequest =>
      obtain rfl := Option.some.inj ho
      refine .quiet ((quiet_finish t _).trans (quiet_notify true t none .none _)) ?_
        (hnotAdds (by simp) (by simp))
      simp only [Ledger.record, hrequest]
    · cases ho

/-! ### The tables after an addition or a removal -/

theorem addPoll_get? {s : State} {poll : DebugCorePoll} {pollId : String}
    (h : truthy poll.id = some pollId) : Stored s (s.addPoll poll) pollId ⟨poll, none, none⟩ := by
  intro pollId'
  rw [← Py.Dict.get?_set, State.addPoll, h]
  dsimp only
  split
  · rfl
  · rfl

theorem addPoll_none {s : State} {poll : DebugCorePoll} (h : truthy poll.id = none) :
    s.addPoll poll = s := by rw [State.addPoll, h]

theorem addPoll_sent (s : State) (poll : DebugCorePoll) : (s.addPoll poll).sent = s.sent := by
  rw [State.addPoll]
  split
  · rfl
  · dsimp only
    split
    · rfl
    · rfl

theorem addPoll_inNode {s : State} {poll : DebugCorePoll} {pollId : String}
    (h : truthy poll.id = some pollId) {parentId pollId' : String} :
    (s.addPoll poll).InNode parentId pollId' ↔ s.InNode parentId pollId' ∨
      pollId' = pollId ∧ truthy poll.parentId = some parentId := by
  rw [State.addPoll, h]
  dsimp only
  rcases hparent : truthy poll.parentId with - | parentId'
  · simp [State.InNode]
  · simp only [State.InNode, Py.Dict.get?_set, Option.some.injEq]
    rcases eq_or_ne parentId parentId' with rfl | hne
    · rcases s.nodes.get? parentId with - | ids
      · simp
      · simp [or_comm]
    · simp [hne, hne.symm]

theorem removePoll_none {s : State} {pollCtx : String} (h : s.polls.get? pollCtx = none) :
    s.removePoll pollCtx = (s, none) := by rw [State.removePoll, h]

/-- A poll that is in the set of its parent. -/
theorem removePoll_some {s : State} {pollCtx : String} {poll : Poll}
    (h : s.polls.get? pollCtx = some poll)
    (hnode : ∀ parentId, poll.parent = some parentId → s.InNode parentId pollCtx) :
    ∃ s', s.removePoll pollCtx = (s', none) ∧ s'.sent = s.sent ∧
      (∀ pollId, s'.polls.get? pollId = if pollId = pollCtx then none else s.polls.get? pollId) ∧
      ∀ parentId pollId, s'.InNode parentId pollId ↔
        s.InNode parentId pollId ∧ ¬ (pollId = pollCtx ∧ poll.parent = some parentId) := by
  rw [State.removePoll, h]
  dsimp only
  rcases hparent : poll.parent with - | parentId
  · exact ⟨_, rfl, rfl, Py.Dict.get?_erase _ _, fun parentId pollId => by simp [State.InNode]⟩
  · obtain ⟨ids, hids, hmem⟩ := hnode parentId hparent
    simp only [hids, if_pos hmem]
    refine ⟨_, rfl, rfl, Py.Dict.get?_erase _ _, fun parentId' pollId => ?_⟩
    simp only [State.InNode, Py.Dict.get?_set, Option.some.injEq]
    rcases eq_or_ne parentId' parentId with rfl | hne
    · simp [hids, and_comm]
    · simp [hne, hne.symm]

/-! ### Bookkeeping -/

/-- Counts are what callers have done, and polls and nodes describe the same polls. -/
structure Bookkept (w : World) : Prop where
  count : ∀ {pollId poll}, w.state.polls.get? pollId = some poll →
    poll.count = w.ledger.balance pollId
  parents : ∀ {parentId pollId}, w.state.InNode parentId pollId ↔
    ∃ poll, w.state.polls.get? pollId = some poll ∧ poll.parent = some parentId

/-- With the handlers that were released. -/
structure Inv (w : World) : Prop extends Bookkept w where
  released : ∀ {pollId poll}, w.state.polls.get? pollId = some poll →
    Disjoint (w.ledger.released pollId) poll.listeners

theorem inv_initial : Inv World.initial where
  count h := nomatch h
  parents := by
    intro parentId pollId
    constructor
    · rintro ⟨ids, h, -⟩
      exact nomatch h
    · rintro ⟨poll, h, -⟩
      exact nomatch h
  released h := nomatch h

/-- What holds of a step: a poll that is added again keeps its count and its listeners, `removePoll`
    is sent if and only if a count drops to zero, and an event calls no released handler. -/
structure StepOk (w : World) (a : Action) (w' : World) : Prop where
  kept : ∀ {poll pollId old}, a.Adds poll → truthy poll.id = some pollId →
    w.state.polls.get? pollId = some old → ∃ new, w'.state.polls.get? pollId = some new ∧
      new.count = old.count ∧ new.listeners = old.listeners
  removed : ∀ pollId, Message.removePoll pollId ∈ w'.state.sent.drop w.state.sent.length ↔
    ∃ n, 0 < n ∧ w.state.refCount pollId = some n ∧ w'.state.refCount pollId = some 0
  quiet : ∀ {pollCtx}, a = .pollEvent pollCtx →
    Disjoint (w.ledger.released pollCtx) (w.state.pollEvent pollCtx)

/-- A description can be stored under an ID: it replaces one without a count, listeners or another
    parent, or nothing is left of the calls for the ID. -/
def CanStore (w : World) (poll : DebugCorePoll) (pollId : String) : Prop :=
  match w.state.polls.get? pollId with
  | some old => old.count = 0 ∧ old.listeners = ∅ ∧
      (old.parent = none ∨ old.parent = truthy poll.parentId)
  | none => w.ledger.balance pollId = 0

def CanAdd (w : World) (poll : DebugCorePoll) : Prop :=
  ∀ pollId ∈ truthy poll.id, CanStore w poll pollId

/-- Descriptions can be added, a poll with a count is retained with a callback, and a release that
    succeeds names no handler that listens. -/
def Orderly (w : World) : Action → Prop
  | .pollAdded poll => CanAdd w poll
  | .getContextReply _ (.ok poll) => CanAdd w poll
  | .retainPoll pollCtx _ false =>
    w.state.refCount pollCtx = none ∨ w.state.refCount pollCtx = some 0
  | .releasePoll pollCtx (some eventHandler) _ =>
    0 < (w.state.refCount pollCtx).getD 0 → eventHandler ∉ w.state.pollEvent pollCtx
  | _ => True

theorem Orderly.canAdd {w : World} {a : Action} (h : Orderly w a) {poll : DebugCorePoll}
    (hadds : a.Adds poll) : CanAdd w poll := by
  rcases hadds with rfl | ⟨t, rfl⟩
  · exact h
  · exact h

theorem Inv.pollEvent {w : World} (h : Inv w) (pollCtx : String) :
    Disjoint (w.ledger.released pollCtx) (w.state.pollEvent pollCtx) := by
  rw [State.pollEvent]
  rcases hpoll : w.state.polls.get? pollCtx with - | poll
  · exact Finset.disjoint_empty_right _
  · exact h.released hpoll

/-- No command to remove a poll, and no count that drops to zero. -/
theorem StepOk.of_nothingRemoved {w w' : World} {a : Action} (h : Inv w)
    (hsent : NothingRemoved w.state w'.state)
    (hcount : ∀ pollId n, 0 < n → w.state.refCount pollId = some n →
      w'.state.refCount pollId ≠ some 0)
    (hkept : ∀ {poll pollId old}, a.Adds poll → truthy poll.id = some pollId →
      w.state.polls.get? pollId = some old → ∃ new, w'.state.polls.get? pollId = some new ∧
        new.count = old.count ∧ new.listeners = old.listeners) : StepOk w a w' where
  kept := hkept
  removed := by
    intro pollId
    obtain ⟨ms, hms, hnone⟩ := hsent
    rw [hms, List.drop_left]
    refine iff_of_false (hnone pollId) ?_
    rintro ⟨n, hn, hbefore, hafter⟩
    exact hcount pollId n hn hbefore hafter
  quiet := fun _ => h.pollEvent _

theorem refCount_of_stored {s s' : State} {pollId : String} {poll : Poll}
    (h : Stored s s' pollId poll) (pollId' : String) : s'.refCount pollId' =
      if pollId' = pollId then some poll.count else s.refCount pollId' := by
  rw [State.refCount, h pollId']
  split_ifs
  · rfl
  · rfl

/-- The invariant where one poll is stored under an ID. -/
theorem Inv.of_stored {w w' : World} (h : Inv w) {pollId : String} {poll : Poll}
    (hstored : Stored w.state w'.state pollId poll)
    (hbalance : ∀ pollId', pollId' ≠ pollId →
      w'.ledger.balance pollId' = w.ledger.balance pollId' ∧
        w'.ledger.released pollId' = w.ledger.released pollId')
    (hcount : poll.count = w'.ledger.balance pollId)
    (hreleased : Disjoint (w'.ledger.released pollId) poll.listeners)
    (hparents : ∀ {parentId pollId'}, w'.state.InNode parentId pollId' ↔
      if pollId' = pollId then poll.parent = some parentId else w.state.InNode parentId pollId') :
    Inv w' where
  count := by
    intro pollId' poll' hpoll'
    rw [hstored] at hpoll'
    split_ifs at hpoll' with heq
    · rw [heq, ← Option.some.inj hpoll', hcount]
    · rw [(hbalance pollId' heq).1]
      exact h.count hpoll'
  parents := by
    intro parentId pollId'
    rw [hparents, hstored]
    split_ifs
    · simp
    · exact h.parents
  released := by
    intro pollId' poll' hpoll'
    rw [hstored] at hpoll'
    split_ifs at hpoll' with heq
    · rw [heq, ← Option.some.inj hpoll']
      exact hreleased
    · rw [(hbalance pollId' heq).2]
      exact h.released hpoll'

theorem Inv.inNode_iff {w : World} (h : Inv w) {pollId : String} {poll : Poll}
    (hpoll : w.state.polls.get? pollId = some poll) {parentId pollId' : String} :
    w.state.InNode parentId pollId' ↔
      if pollId' = pollId then poll.parent = some parentId
      else w.state.InNode parentId pollId' := by
  split_ifs with heq
  · rw [heq, h.parents, hpoll]
    simp
  · rfl

/-- The invariant where no poll changes, nor what callers did with a known one. -/
theorem Inv.of_quiet {w w' : World} (h : Inv w) (hquiet : SameTables w.state w'.state)
    (hledger : ∀ pollId, w.state.polls.get? pollId ≠ none →
      w'.ledger.balance pollId = w.ledger.balance pollId ∧
        w'.ledger.released pollId = w.ledger.released pollId) : Inv w' where
  count := by
    intro pollId poll hpoll
    rw [hquiet.polls] at hpoll
    rw [(hledger pollId (by simp [hpoll])).1]
    exact h.count hpoll
  parents := by
    intro parentId pollId
    rw [State.InNode, hquiet.nodes, hquiet.polls]
    exact h.parents
  released := by
    intro pollId poll hpoll
    rw [hquiet.polls] at hpoll
    rw [(hledger pollId (by simp [hpoll])).2]
    exact h.released hpoll

theorem StepOk.of_quiet {w w' : World} {a : Action} (h : Inv w)
    (hquiet : Quiet w.state w'.state) (hnotAdds : ∀ poll, ¬ a.Adds poll) : StepOk w a w' := by
  refine .of_nothingRemoved h hquiet.sent ?_ fun hadds _ _ => absurd hadds (hnotAdds _)
  intro pollId n hn hbefore hafter
  rw [State.refCount, hquiet.polls] at hafter
  rw [State.refCount, hafter] at hbefore
  exact hn.ne (Option.some.inj hbefore)

/-- A description is added. -/
theorem Inv.added {w w' : World} {a : Action} {poll : DebugCorePoll} {s : State} (h : Inv w)
    (hok : CanAdd w poll) (hquiet : Quiet w.state s) (hadds : ∀ poll', a.Adds poll' → poll' = poll)
    (hstate : Quiet (s.addPoll poll) w'.state) (hledger : w'.ledger = w.ledger) :
    Inv w' ∧ StepOk w a w' := by
  have hsent : NothingRemoved w.state w'.state :=
    (hquiet.sent.trans (.of_eq (addPoll_sent s poll))).trans hstate.sent
  rcases hid : truthy poll.id with - | pollId
  · rw [addPoll_none hid] at hstate
    have hsame := hquiet.trans hstate
    refine ⟨h.of_quiet hsame.toSameTables fun _ _ => hledger ▸ ⟨rfl, rfl⟩,
      .of_nothingRemoved h hsent ?_ ?_⟩
    · intro pollId n hn hbefore hafter
      rw [State.refCount, hsame.polls] at hafter
      rw [State.refCount, hafter] at hbefore
      exact hn.ne' (Option.some.inj hbefore).symm
    · intro poll' pollId old hadd hid' hold
      rw [hadds poll' hadd, hid] at hid'
      exact nomatch hid'
  · have hcan := hok pollId hid
    rw [CanStore] at hcan
    have hstored : Stored w.state w'.state pollId ⟨poll, none, none⟩ := by
      intro pollId'
      rw [hstate.polls, addPoll_get? hid pollId', hquiet.polls]
    refine ⟨h.of_stored hstored (fun _ _ => by rw [hledger]; exact ⟨rfl, rfl⟩) ?_
      (Finset.disjoint_empty_right _) ?_, .of_nothingRemoved h hsent ?_ ?_⟩
    · change 0 = _
      rw [hledger]
      rcases hold : w.state.polls.get? pollId with - | old
      · rw [hold] at hcan
        exact hcan.symm
      · rw [hold] at hcan
        rw [← h.count hold]
        exact hcan.1.symm
    · intro parentId pollId'
      have hnode : w'.state.InNode parentId pollId' ↔ (s.addPoll poll).InNode parentId pollId' := by
        rw [State.InNode, hstate.nodes]
        rfl
      have hnode' : s.InNode parentId pollId' ↔ w.state.InNode parentId pollId' := by
        rw [State.InNode, hquiet.nodes]
        rfl
      rw [hnode, addPoll_inNode hid, hnode']
      split_ifs with heq
      · rw [heq]
        refine ⟨fun hor => ?_, fun hparent => .inr ⟨rfl, hparent⟩⟩
        rcases hor with hin | ⟨-, hparent⟩
        · obtain ⟨old, hold, hparent⟩ := h.parents.mp hin
          rw [hold] at hcan
          rcases hcan.2.2 with hnone | hsame
          · rw [hnone] at hparent
            exact nomatch hparent
          · exact hsame.symm.trans hparent
        · exact hparent
      · simp [heq]
    · intro pollId' n hn hbefore hafter
      rw [refCount_of_stored hstored] at hafter
      split_ifs at hafter with heq
      · rw [heq] at hbefore
        obtain ⟨old, hold, hcount⟩ := Option.map_eq_some_iff.mp hbefore
        rw [hold] at hcan
        rw [hcan.1] at hcount
        exact hn.ne hcount
      · rw [hafter] at hbefore
        exact hn.ne (Option.some.inj hbefore)
    · intro poll' pollId' old hadd hid' hold
      rw [hadds poll' hadd, hid] at hid'
      obtain rfl := Option.some.inj hid'
      rw [hold] at hcan
      refine ⟨_, (hstored pollId).trans (if_pos rfl), hcan.1.symm, hcan.2.1.symm⟩

/-- A poll is removed. -/
theorem Inv.removed {w w' : World} {a : Action} {pollCtx : String} (h : Inv w)
    (ha : a = .pollRemoved pollCtx) (hstate : w'.state = (w.state.removePoll pollCtx).1)
    (hledger : w'.ledger = w.ledger) : Inv w' ∧ StepOk w a w' := by
  have hnotAdds (poll : DebugCorePoll) : ¬ a.Adds poll := by
    rw [ha]
    rintro (hbad | ⟨t, hbad⟩)
    · cases hbad
    · cases hbad
  rcases hpoll : w.state.polls.get? pollCtx with - | poll
  · rw [removePoll_none hpoll] at hstate
    have hquiet : Quiet w.state w'.state := by
      rw [hstate]
      exact .refl _
    exact ⟨h.of_quiet hquiet.toSameTables fun _ _ => hledger ▸ ⟨rfl, rfl⟩,
      .of_quiet h hquiet hnotAdds⟩
  · obtain ⟨s', hremove, hsent, hpolls, hnodes⟩ := removePoll_some hpoll
      fun parentId hparent => h.parents.mpr ⟨poll, hpoll, hparent⟩
    rw [hremove] at hstate
    obtain rfl := hstate
    refine ⟨{ count := ?_, parents := ?_, released := ?_ }, .of_nothingRemoved h (.of_eq hsent) ?_
      fun hadds _ _ => absurd hadds (hnotAdds _)⟩
    · intro pollId poll' hpoll'
      rw [hpolls] at hpoll'
      split_ifs at hpoll'
      rw [hledger]
      exact h.count hpoll'
    · intro parentId pollId
      rw [hnodes, hpolls, h.parents]
      split_ifs with heq
      · rw [heq, hpoll]
        simp
      · simp [heq]
    · intro pollId poll' hpoll'
      rw [hpolls] at hpoll'
      split_ifs at hpoll'
      rw [hledger]
      exact h.released hpoll'
    · intro pollId n hn hbefore hafter
      rw [State.refCount, hpolls] at hafter
      split_ifs at hafter
      · cases hafter
      · rw [State.refCount, hafter] at hbefore
        exact hn.ne (Option.some.inj hbefore)

/-- A successful schedule or retain. -/
theorem Inv.subscribed {w w' : World} {a : Action} {pollId : String}
    {eventHandler : Option Handler} (h : Inv w) (hnotAdds : ∀ poll, ¬ a.Adds poll)
    (hstate : (w.state.polls.get? pollId = none ∧ Quiet w.state w'.state) ∨
      ∃ poll, w.state.polls.get? pollId = some poll ∧
        Stored w.state w'.state pollId (poll.subscribed eventHandler) ∧
        w'.state.nodes = w.state.nodes ∧ NothingRemoved w.state w'.state)
    (hledger : w'.ledger = w.ledger.withSubscription pollId eventHandler) :
    Inv w' ∧ StepOk w a w' := by
  have hother (pollId' : String) (hne : pollId' ≠ pollId) :
      w'.ledger.balance pollId' = w.ledger.balance pollId' ∧
        w'.ledger.released pollId' = w.ledger.released pollId' := by
    rw [hledger]
    exact ⟨Function.update_of_ne hne _ _, Function.update_of_ne hne _ _⟩
  have hbalance : w'.ledger.balance pollId = w.ledger.balance pollId + 1 := by
    rw [hledger]
    exact Function.update_self _ _ _
  have hreleased : w'.ledger.released pollId =
      w.ledger.released pollId \ eventHandler.toFinset := by
    rw [hledger]
    exact Function.update_self _ _ _
  rcases hstate with ⟨hnone, hquiet⟩ | ⟨poll, hpoll, hstored, hnodes, hsent⟩
  · refine ⟨h.of_quiet hquiet.toSameTables fun pollId' hknown => hother pollId' ?_,
      .of_quiet h hquiet hnotAdds⟩
    rintro rfl
    exact hknown hnone
  · refine ⟨h.of_stored hstored hother ?_ ?_ ?_, .of_nothingRemoved h hsent ?_
      fun hadds _ _ => absurd hadds (hnotAdds _)⟩
    · rw [poll.count_subscribed, hbalance, h.count hpoll]
    · rw [hreleased, poll.listeners_subscribed, Finset.disjoint_union_right]
      exact ⟨Finset.sdiff_disjoint, (h.released hpoll).mono_left Finset.sdiff_subset⟩
    · intro parentId pollId'
      rw [poll.parent_subscribed, State.InNode, hnodes]
      exact h.inNode_iff hpoll
    · intro pollId' n hn hbefore hafter
      rw [refCount_of_stored hstored] at hafter
      split_ifs at hafter with heq
      · rw [heq, State.refCount, hpoll] at hbefore
        have hn' : poll.count = n := Option.some.inj hbefore
        have hzero := Option.some.inj hafter
        rw [poll.count_subscribed, hn'] at hzero
        omega
      · rw [hafter] at hbefore
        exact hn.ne (Option.some.inj hbefore)

/-- A release that does not raise. -/
theorem Inv.releasedStep {w w' : World} {pollCtx : String} {eventHandler : Option Handler}
    {done : Bool} {poll : Poll} (h : Inv w)
    (hok : Orderly w (.releasePoll pollCtx eventHandler done))
    (hpoll : w.state.polls.get? pollCtx = some poll) (hcount : 0 < poll.count)
    (hstored : Stored w.state w'.state pollCtx poll.released)
    (hnodes : w'.state.nodes = w.state.nodes)
    (hsent : w'.state.sent = w.state.sent ++
      if poll.count = 1 then [.removePoll pollCtx] else [])
    (hledger : w'.ledger = w.ledger.withRelease pollCtx eventHandler) :
    Inv w' ∧ StepOk w (.releasePoll pollCtx eventHandler done) w' := by
  have hrefCount : w.state.refCount pollCtx = some poll.count := by
    rw [State.refCount, hpoll]
    rfl
  have hnotListening : Disjoint eventHandler.toFinset poll.listeners := by
    cases eventHandler with
    | none => exact Finset.disjoint_empty_left _
    | some handler =>
      have hnot := hok (by rwa [hrefCount])
      rw [State.pollEvent, hpoll] at hnot
      exact Finset.disjoint_singleton_left.mpr hnot
  refine ⟨h.of_stored hstored ?_ ?_ ?_ ?_, ?_, ?_, fun ha => nomatch ha⟩
  · intro pollId hne
    rw [hledger]
    exact ⟨Function.update_of_ne hne _ _, Function.update_of_ne hne _ _⟩
  · rw [hledger]
    simp only [Ledger.withRelease, Function.update_self]
    rw [← h.count hpoll]
    rfl
  · rw [hledger]
    simp only [Ledger.withRelease, Function.update_self]
    have hlisteners : poll.released.listeners = poll.listeners := rfl
    rw [hlisteners]
    exact Finset.disjoint_union_left.mpr ⟨h.released hpoll, hnotListening⟩
  · intro parentId pollId
    rw [State.InNode, hnodes]
    exact h.inNode_iff hpoll
  · rintro poll' pollId old (hbad | ⟨t, hbad⟩)
    · exact nomatch hbad
    · exact nomatch hbad
  · intro pollId
    rw [hsent, List.drop_left, refCount_of_stored hstored]
    have hafter : poll.released.count = poll.count - 1 := rfl
    rw [hafter]
    rcases eq_or_ne pollId pollCtx with rfl | hne
    · rw [if_pos rfl, hrefCount]
      split_ifs with hone
      · refine iff_of_true (List.mem_singleton_self _) ⟨poll.count, hcount, rfl, ?_⟩
        rw [hone]
        rfl
      · refine iff_of_false (fun hm => nomatch hm) ?_
        rintro ⟨n, -, -, hzero⟩
        have hzero' : poll.count - 1 = 0 := Option.some.inj hzero
        omega
    · rw [if_neg hne]
      refine iff_of_false (fun hm => hne ?_) ?_
      · split_ifs at hm
        · exact Message.removePoll.inj (List.mem_singleton.mp hm)
        · exact nomatch hm
      · rintro ⟨n, hn, hbefore, hzero⟩
        rw [hbefore] at hzero
        exact hn.ne' (Option.some.inj hzero)

/-- One action. -/
theorem Inv.step {w w' : World} {a : Action} (h : Inv w) (hok : Orderly w a)
    (hstep : step w a = some w') : Inv w' ∧ StepOk w a w' := by
  cases step_effect hstep with
  | quiet hquiet hledger hnotAdds =>
    exact ⟨h.of_quiet hquiet.toSameTables fun _ _ => hledger ▸ ⟨rfl, rfl⟩,
      .of_quiet h hquiet hnotAdds⟩
  | added poll s hadds hquiet hstate hledger =>
    refine h.added (hok.canAdd hadds) hquiet (fun poll' hadds' => ?_) hstate hledger
    rcases hadds with rfl | ⟨t, rfl⟩
    · rcases hadds' with hsame | ⟨t, hbad⟩
      · exact (Action.pollAdded.inj hsame).symm
      · exact nomatch hbad
    · rcases hadds' with hbad | ⟨t', hsame⟩
      · exact nomatch hbad
      · exact (Except.ok.inj (Action.getContextReply.inj hsame).2).symm
  | removed pollCtx ha hstate hledger => exact h.removed ha hstate hledger
  | subscribed pollId eventHandler hnotAdds hstate hledger =>
    exact h.subscribed hnotAdds hstate hledger
  | unnoticed pollCtx eventHandler n ha hcount hn =>
    rw [ha] at hok
    rcases hok with hnone | hzero
    · rw [hcount] at hnone
      exact nomatch hnone
    · rw [hcount] at hzero
      exact absurd (Option.some.inj hzero) hn
  | released pollCtx eventHandler done poll ha hpoll hcount hpolls hnodes hsent hledger =>
    subst ha
    exact h.releasedStep hok hpoll hcount hpolls hnodes hsent hledger

/-- Polls are kept in all orderly runs. -/
theorem polls_bookkept (actions : List Action)
    (hactions : Machine.EachStep step Orderly World.initial actions) :
    Machine.Throughout step Bookkept StepOk World.initial actions :=
  Machine.Throughout.of_inv (fun h => h.toBookkept) (fun h hok hstep => h.step hok hstep) actions
    inv_initial hactions

instance {w : World} {poll : DebugCorePoll} {pollId : String} :
    Decidable (CanStore w poll pollId) :=
  match h : w.state.polls.get? pollId with
  | some old => decidable_of_iff (old.count = 0 ∧ old.listeners = ∅ ∧
      (old.parent = none ∨ old.parent = truthy poll.parentId)) (by rw [CanStore, h])
  | none => decidable_of_iff (w.ledger.balance pollId = 0) (by rw [CanStore, h])

instance {w : World} {poll : DebugCorePoll} : Decidable (CanAdd w poll) :=
  inferInstanceAs (Decidable (∀ pollId ∈ truthy poll.id, CanStore w poll pollId))

instance {w : World} {a : Action} : Decidable (Orderly w a) :=
  match a with
  | .pollAdded poll => inferInstanceAs (Decidable (CanAdd w poll))
  | .getContextReply _ (.ok poll) => inferInstanceAs (Decidable (CanAdd w poll))
  | .getContextReply _ (.error _) => .isTrue trivial
  | .retainPoll pollCtx _ false => inferInstanceAs (Decidable
      (w.state.refCount pollCtx = none ∨ w.state.refCount pollCtx = some 0))
  | .retainPoll _ _ true => .isTrue trivial
  | .releasePoll pollCtx (some eventHandler) _ => inferInstanceAs (Decidable
      (0 < (w.state.refCount pollCtx).getD 0 → eventHandler ∉ w.state.pollEvent pollCtx))
  | .releasePoll _ none _ => .isTrue trivial
  | .pollRemoved _ => .isTrue trivial
  | .pollEvent _ => .isTrue trivial
  | .updatePolls _ _ => .isTrue trivial
  | .schedulePoll _ _ _ _ _ => .isTrue trivial
  | .getPollsReply _ _ => .isTrue trivial
  | .addPollReply _ _ => .isTrue trivial
  | .removePollReply _ _ => .isTrue trivial
  | .retainPollReply _ _ => .isTrue trivial
  | .dispatch _ => .isTrue trivial

private def poll : DebugCorePoll := ⟨some "P1", some "N1"⟩

/-- A poll is scheduled, retained, released twice and removed; the server names it again before it
    knows of that. -/
private def actions : List Action :=
  [.pollAdded poll,
    .schedulePoll "N1" "trigger" 1000 (some 7) false,
    .addPollReply 0 (.ok "P1"),
    .retainPoll "P1" (some 8) true,
    .pollEvent "P1",
    .dispatch 1,
    .releasePoll "P1" (some 9) false,
    .releasePoll "P1" none true,
    .pollRemoved "P1",
    .updatePolls "N1" true,
    .getPollsReply 4 (.ok ["P1"]),
    .getContextReply 5 (.ok poll),
    .removePollReply 3 none]

theorem polls_bookkept_removed :
    Machine.Throughout step Bookkept StepOk World.initial actions :=
  polls_bookkept actions (by decide +kernel)

/-- A poll that is announced a second time loses its count and its listener. -/
theorem not_polls_bookkept_announcedTwice : ¬ ∀ actions : List Action,
    Machine.Throughout step Bookkept StepOk World.initial actions := by
  intro hall
  have hthroughout := hall [.pollAdded poll,
    .schedulePoll "N1" "trigger" 1000 (some 7) false, .addPollReply 0 (.ok "P1"), .pollAdded poll]
  have hend := ((((hthroughout.2 _ rfl).2.2 _ rfl).2.2 _ rfl).2.2 _ rfl).2
  have hcount := @hend.count "P1" ⟨poll, none, none⟩ (by decide +kernel)
  exact absurd hcount (by decide +kernel)

end Chipscopy.Dm.Polling
