import Chipscopy.Api.SessionCounts

/-! Runs of sessions

    As long as each call is allowed, every connect that succeeds is a session that joins, and every
    disconnect one that leaves. -/

namespace Chipscopy.Api.Session

variable {options : SessionId → Options} {st : State} {s : SessionId}

@[simp] theorem setSession_session_self (x : SessionState) : (st.setSession s x).session s = x := by
  simp only [State.setSession, Function.update_self]

theorem setSession_session_ne {r : SessionId} (hr : r ≠ s) (x : SessionState) :
    (st.setSession s x).session r = st.session r := by
  simp only [State.setSession, Function.update_of_ne hr]

/-- A session whose connection stays. -/
theorem setSession_csServer {x : SessionState} (hx : x.csServer = (st.session s).csServer)
    (r : SessionId) : ((st.setSession s x).session r).csServer = (st.session r).csServer := by
  by_cases hr : r = s
  · rw [hr, setSession_session_self, hx]
  · rw [setSession_session_ne hr]

/-! ### Disconnecting -/

theorem disconnectCsServer_none (hcs : (st.session s).csServer = none) :
    disconnectCsServer options s st = (st, none) := by
  rw [disconnectCsServer, hcs]

theorem disconnectCsServer_stored {c : Connection} {address : Address} {n : ℤ}
    (hcs : (st.session s).csServer = some c) (hurl : (options s).csServer = some address)
    (hget : st.refCount.get? address = some (n, c)) (hhw : (st.session s).hwServer)
    (hlast : (options s).csServerSharing ∨ n = 1) :
    ∃ st', disconnectCsServer options s st = (st', none) ∧ st'.connected = st.connected ∧
      Frees st s st' := by
  have hfalse : ¬ (st.session s).hwServer = false := by rw [hhw]; simp
  rw [disconnectCsServer, hcs, hurl]
  simp only [hget, if_neg hfalse]
  by_cases hn : n = 1
  · have hzero : n - 1 = 0 := by omega
    rw [if_pos (.inl hzero)]
    refine ⟨_, rfl, rfl, ?_, fun r hr => setSession_session_ne hr _, rfl, rfl, ?_⟩
    · exact congrArg SessionState.csServer (setSession_session_self _)
    · exact .inr ⟨address, n, c, hcs, hget, .last hn rfl rfl⟩
  · have hsharing : ¬ (n - 1 = 0 ∨ (options s).csServerSharing = false) := by
      rw [hlast.resolve_right hn]
      rintro (hzero | hfalse)
      · omega
      · cases hfalse
    rw [if_neg hsharing]
    refine ⟨_, rfl, rfl, ?_, fun r hr => setSession_session_ne hr _, rfl, rfl, ?_⟩
    · exact congrArg SessionState.csServer (setSession_session_self _)
    · exact .inr ⟨address, n, c, hcs, hget, .shared hn rfl rfl⟩

/-- The count of a connection that no other uses is one. -/
theorem Inv.count_eq_one (h : Inv options st) (hmem : s ∈ st.connected) {address : Address} {n : ℤ}
    {c : Connection} (hcs : (st.session s).csServer = some c)
    (hget : st.refCount.get? address = some (n, c))
    (halone : ∀ r ∈ st.connected.erase s, (st.session r).csServer ≠ some c) : n = 1 := by
  have hrest : (st.connected.erase s).countP (fun r => (st.session r).csServer = some c) = 0 :=
    List.countP_eq_zero.mpr fun r hr => by simpa using halone r hr
  have hcount := (List.perm_cons_erase hmem).countP_eq fun r => (st.session r).csServer = some c
  rw [h.counted address n c hget, State.users, hcount, List.countP_cons, hrest, hcs]
  simp

/-- A session that is ready leaves. -/
theorem disconnect_ready (h : Inv options st) (hmem : s ∈ st.connected)
    (hready : Ready options st s (st.connected.erase s)) :
    ∃ st', disconnect options s st = (st', none) ∧ Leaves st s st' := by
  have hhw := h.hw s hmem
  obtain ⟨hlistening, hserver⟩ := hready
  have hregistered : ¬ ((options s).listens ∧ (st.session s).hwServer ∧
      ¬ (st.session s).listening) := fun ⟨hl, _, hn⟩ => hn (hlistening hl)
  let x : SessionState :=
    { st.session s with listening := (st.session s).listening && !(options s).listens }
  have hfrees : ∃ st', disconnectCsServer options s (st.setSession s x) = (st', none) ∧
      st'.connected = st.connected ∧ Frees st s st' := by
    have hx : ∀ r, ((st.setSession s x).session r).csServer = (st.session r).csServer :=
      setSession_csServer rfl
    rcases hcs : (st.session s).csServer with _ | c
    · refine ⟨_, disconnectCsServer_none ((hx s).trans hcs), rfl, (hx s).trans hcs,
        fun r hr => setSession_session_ne hr x, rfl, rfl, .inl ⟨hcs, rfl, rfl⟩⟩
    · obtain ⟨⟨address, hurl, ⟨n, c⟩, hget, rfl⟩, hlast⟩ := hserver c hcs
      obtain ⟨st', hout, hconnected, hf⟩ := @disconnectCsServer_stored options
        (st.setSession s x) s c address n ((hx s).trans hcs) hurl hget (by rw [setSession_session_self]; exact hhw)
        (hlast.imp_right fun halone => h.count_eq_one hmem hcs hget halone)
      refine ⟨st', hout, hconnected, hf.csServer, fun r hr => ?_, hf.nextConnection,
        hf.failedDisconnects, ?_⟩
      · rw [hf.session r hr, setSession_session_ne hr]
      · rcases hf.release with ⟨hnone, -⟩ | ⟨a, n', c', hc', hget', hrelease⟩
        · rw [hx, hcs] at hnone
          cases hnone
        · refine .inr ⟨a, n', c', (hx s).symm.trans hc', hget', ?_⟩
          rcases hrelease with ⟨hn, hcount, hclosed⟩ | ⟨hn, hcount, hclosed⟩
          · exact .last hn hcount hclosed
          · exact .shared hn hcount hclosed
  obtain ⟨st₂, hout, hconnected, hf⟩ := hfrees
  have hmem₂ : s ∈ (st₂.setSession s { st₂.session s with hwServer := false }).connected :=
    hconnected ▸ hmem
  have hsession : disconnectSession options s st =
      ({ st₂.setSession s { st₂.session s with hwServer := false } with
        connected := st₂.connected.erase s }, none) := by
    simp only [disconnectSession, if_neg hregistered]
    rw [show disconnectCsServer options s (st.setSession s x) = _ from hout]
    exact if_pos hmem₂
  have hdisconnect : disconnect options s st = disconnectSession options s st := by
    rw [disconnect, hsession]
  refine ⟨_, hdisconnect.trans hsession, ⟨?_, fun r hr => ?_, hf.nextConnection,
    hf.failedDisconnects, ?_⟩, hmem, by rw [hconnected]⟩
  · exact (congrArg SessionState.csServer (setSession_session_self _)).trans hf.csServer
  · exact (setSession_session_ne hr _).trans (hf.session r hr)
  · rcases hf.release with hnone | ⟨a, n, c, hc, hget, ⟨hn, hcount, hclosed⟩ | ⟨hn, hcount, hclosed⟩⟩
    · exact .inl hnone
    · exact .inr ⟨a, n, c, hc, hget, .last hn hcount hclosed⟩
    · exact .inr ⟨a, n, c, hc, hget, .shared hn hcount hclosed⟩

/-- A session that is not connected has no connection to give up. -/
theorem disconnectSession_of_not_mem (hmem : s ∉ st.connected)
    (hcs : (st.session s).csServer = none) : ∃ x e, x.csServer = none ∧
      disconnectSession options s st = (st.setSession s x, some e) := by
  by_cases hregistered : (options s).listens ∧ (st.session s).hwServer ∧
      ¬ (st.session s).listening
  · refine ⟨st.session s, .valueError, hcs, ?_⟩
    simp only [disconnectSession, if_pos hregistered, State.setSession, Function.update_eq_self]
  · refine ⟨{ st.session s with
        hwServer := false
        listening := (st.session s).listening && !(options s).listens }, .keyError, hcs, ?_⟩
    simp only [disconnectSession, if_neg hregistered]
    rw [disconnectCsServer_none (by rw [setSession_session_self]; exact hcs)]
    simp only [State.setSession, Function.update_idem, Function.update_self, if_neg hmem]

theorem disconnect_inv_of_not_mem (h : Inv options st) (hmem : s ∉ st.connected) :
    Inv options (disconnect options s st).1 := by
  have hcs : (st.session s).csServer = none := by
    rcases hc : (st.session s).csServer with _ | c
    · rfl
    · exact absurd (h.registered s c hc) hmem
  obtain ⟨x, e, hx, hsession⟩ := @disconnectSession_of_not_mem options st s hmem hcs
  rw [disconnect, hsession, if_neg hmem]
  refine h.of_same rfl (setSession_csServer (hx.trans hcs.symm)) (fun r hr => ?_) rfl rfl rfl
    (List.append_nil _)
  have hrs : r ≠ s := fun heq => hmem (heq ▸ hr)
  exact congrArg SessionState.hwServer (setSession_session_ne hrs x)

theorem disconnect_inv (h : Inv options st)
    (hready : s ∈ st.connected → Ready options st s (st.connected.erase s)) :
    Inv options (disconnect options s st).1 := by
  by_cases hmem : s ∈ st.connected
  · obtain ⟨st', hout, hl⟩ := disconnect_ready h hmem (hready hmem)
    rw [hout]
    exact hl.inv h
  · exact disconnect_inv_of_not_mem h hmem

/-- Those after it are ready when a session has left. -/
theorem Leaves.ready {st' : State} (hl : Leaves st s st') (h : Inv options st) {r : SessionId}
    {others : List SessionId} (hrs : r ≠ s) (hothers : ∀ r' ∈ others, r' ≠ s)
    (hready : Ready options st r others) : Ready options st' r others := by
  refine ⟨fun hlistens => ?_, fun c hc => ?_⟩
  · rw [hl.session r hrs]
    exact hready.1 hlistens
  · rw [hl.session r hrs] at hc
    obtain ⟨⟨address, hurl, ⟨n, _⟩, hget, rfl⟩, hlast⟩ := hready.2 c hc
    obtain ⟨n', hget'⟩ := hl.get?_kept h hrs hc hget
    refine ⟨⟨address, hurl, _, hget', rfl⟩, hlast.imp_right fun halone r' hr' => ?_⟩
    rw [hl.session r' (hothers r' hr')]
    exact halone r' hr'

theorem Leaves.eachReady {st' : State} (hl : Leaves st s st') (h : Inv options st) :
    ∀ {others : List SessionId}, s ∉ others → EachReady options st others →
      EachReady options st' others
  | [], _, _ => trivial
  | r :: others, hs, ⟨hr, hothers⟩ => by
    have hne : ∀ r' ∈ r :: others, r' ≠ s := fun r' hr' heq => hs (heq ▸ hr')
    exact ⟨hl.ready h (hne r List.mem_cons_self)
        (fun r' hr' => hne r' (List.mem_cons_of_mem r hr')) hr,
      hl.eachReady h (fun hmem => hs (List.mem_cons_of_mem r hmem)) hothers⟩

/-- On the sessions that are left. -/
theorem disconnectEach_inv : ∀ (rest : List SessionId) {st : State}, Inv options st →
    st.connected = rest → EachReady options st rest →
    Inv options (rest.foldl (fun st s => (disconnect options s st).1) st) ∧
      (rest.foldl (fun st s => (disconnect options s st).1) st).connected = []
  | [], _, h, hconnected, _ => ⟨h, hconnected⟩
  | s :: rest, st, h, hconnected, ⟨hs, hrest⟩ => by
    have herase : st.connected.erase s = rest := by rw [hconnected, List.erase_cons_head]
    have hnodup : (s :: rest).Nodup := hconnected ▸ h.nodup
    obtain ⟨st', hout, hl⟩ := disconnect_ready h (hconnected ▸ List.mem_cons_self) (herase ▸ hs)
    rw [List.foldl_cons, hout]
    exact disconnectEach_inv rest (hl.inv h) (hl.connected.trans herase)
      (hl.eachReady h (List.nodup_cons.mp hnodup).1 hrest)

theorem disconnectAllSessions_inv (h : Inv options st)
    (hready : EachReady options st st.connected) :
    Inv options (disconnectAllSessions options st) := by
  obtain ⟨hinv, hnil⟩ := disconnectEach_inv st.connected h rfl hready
  exact hinv.clear hnil

/-! ### Connecting -/

theorem mem_addConnection (st : State) (s : SessionId) : s ∈ (st.addConnection s).connected := by
  rw [State.addConnection]
  split
  · assumption
  · exact List.mem_append_right _ (List.mem_singleton_self s)

/-- A session came, and can leave once its listener is there. -/
structure Entered (options : SessionId → Options) (s : SessionId) (st : State) : Prop where
  inv : Inv options st
  mem : s ∈ st.connected
  releasable : Releasable options st s (st.connected.erase s)

theorem Joins.entered {st' : State} {address : Address} {n : ℤ} {c : Connection}
    (hj : Joins options st s address n c st') (h : Inv options st)
    (halone : (options s).csServerSharing ∨ c = st.nextConnection) : Entered options s st' := by
  have hnew := h.not_mem_of_hw hj.before
  refine ⟨hj.inv h, ?_, fun c' hc' => ?_⟩
  · rw [hj.connected]
    exact List.mem_append_right _ (List.mem_singleton_self s)
  · obtain rfl := Option.some.inj (hj.csServer.symm.trans hc')
    refine ⟨⟨address, hj.server, (n + 1, c), by rw [hj.refCount, Py.Dict.get?_set_self]; rfl, rfl⟩,
      halone.imp_right fun hfresh r hr hrc => ?_⟩
    rw [hj.connected, List.erase_append_right _ hnew, List.erase_cons_head, List.append_nil] at hr
    have hrs : r ≠ s := fun heq => hnew (heq ▸ hr)
    rw [hj.session r hrs] at hrc
    exact absurd (h.fresh r c hrc) (hfresh ▸ lt_irrefl _)

namespace Entered

variable (he : Entered options s st)
include he

/-- Registering a listener changes no connection. -/
theorem listening (b : Bool) :
    Entered options s (st.setSession s { st.session s with listening := b }) := by
  have hcs : ∀ r, ((st.setSession s { st.session s with listening := b }).session r).csServer =
      (st.session r).csServer := setSession_csServer rfl
  refine ⟨he.inv.of_same rfl hcs (fun r _ => ?_) rfl rfl rfl rfl, he.mem, fun c hc => ?_⟩
  · by_cases hrs : r = s
    · rw [hrs, setSession_session_self]
    · rw [setSession_session_ne hrs]
  · obtain ⟨hstored, hlast⟩ := he.releasable c ((hcs s).symm.trans hc)
    refine ⟨hstored, hlast.imp_right fun halone r hr => ?_⟩
    rw [hcs r]
    exact halone r hr

/-- It leaves again if a `RuntimeError` is raised. -/
theorem handleException_inv {runtime : Bool}
    (hlistening : runtime = true → (options s).listens → (st.session s).listening) :
    Inv options (handleException options s runtime st).1 := by
  cases runtime with
  | false => exact he.inv
  | true =>
    obtain ⟨st', hout, hl⟩ := disconnect_ready he.inv he.mem ⟨hlistening rfl, he.releasable⟩
    simp only [handleException, if_pos, hout]
    exact hl.inv he.inv

end Entered

/-- The connection that `connect_cs_server` finds or opens. -/
theorem connectCsServer_counts {failure : Option Failure} {address : Address}
    (hurl : (options s).csServer = some address) (hcs : (st.session s).csServer = none)
    (hopening : failure ≠ some .opening) (hremote : failure ≠ some .remote) :
    ∃ n c next, ((st.refCount.get? address = some (n, c) ∧ next = st.nextConnection) ∨
        (n = 0 ∧ c = st.nextConnection ∧ next = st.nextConnection + 1)) ∧
      ((options s).csServerSharing ∨ c = st.nextConnection) ∧
      connectCsServer options s failure st = (State.setSession
        { st with refCount := st.refCount.set address (n + 1, c), nextConnection := next }
        s { st.session s with csServer := some c }, none) := by
  rw [connectCsServer, hurl]
  simp only [hcs, ne_eq, not_true_eq_false, if_false, if_neg hopening, if_neg hremote]
  rcases hsharing : (options s).csServerSharing with _ | _
  · exact ⟨0, st.nextConnection, _, .inr ⟨rfl, rfl, rfl⟩, .inr rfl, rfl⟩
  · rcases hget : st.refCount.get? address with _ | ⟨n, c⟩
    · exact ⟨0, st.nextConnection, _, .inr ⟨rfl, rfl, rfl⟩, .inr rfl, rfl⟩
    · exact ⟨n, c, _, .inl ⟨rfl, rfl⟩, .inl rfl, rfl⟩

/-- `connect_cs_server` fails before the count, or the session comes. -/
theorem connectCsServer_cases (h : Inv options st) (hhw : (st.session s).hwServer = false)
    {failure : Option Failure}
    (hremote : failure = some .remote → (options s).csServer = none) {st₁ : State}
    (hst₁ : st₁ = st.setSession s { st.session s with hwServer := true }) :
    (∃ e, connectCsServer options s failure st₁ = (st₁, some e)) ∨
      ∃ st₂, connectCsServer options s failure st₁ = (st₂, none) ∧
        Entered options s (st₂.addConnection s) := by
  have hnew := h.not_mem_of_hw hhw
  have hcs : (st₁.session s).csServer = none := by
    rw [hst₁, setSession_session_self]
    exact h.csServer_of_hw hhw
  rcases hurl : (options s).csServer with _ | address
  · refine .inr ⟨st₁, by rw [connectCsServer, hurl], ?_⟩
    have hj : Inv options (st₁.addConnection s) := by
      subst hst₁
      exact h.join_alone hhw (if_neg hnew) hcs
        (congrArg SessionState.hwServer (setSession_session_self _))
        (fun r hr => setSession_session_ne hr _) rfl rfl rfl rfl
    refine ⟨hj, ?_, fun c hc => ?_⟩
    · exact mem_addConnection st₁ s
    · rw [show (st₁.addConnection s).session = st₁.session from rfl, hcs] at hc
      cases hc
  · by_cases hopening : failure = some .opening
    · refine .inl ⟨.external, ?_⟩
      rw [connectCsServer, hurl]
      simp only [hcs, ne_eq, not_true_eq_false, if_false, if_pos hopening]
    · have hrem : failure ≠ some .remote := fun heq => by
        rw [hremote heq] at hurl
        cases hurl
      obtain ⟨n, c, next, hentry, halone, hout⟩ :=
        connectCsServer_counts hurl hcs hopening hrem
      refine .inr ⟨_, hout, ?_⟩
      have hj : Joins options st s address n c (State.addConnection (State.setSession
          { st₁ with refCount := st₁.refCount.set address (n + 1, c), nextConnection := next }
          s { st₁.session s with csServer := some c }) s) := by
        subst hst₁
        refine ⟨hhw, hurl, hentry, if_neg hnew, ?_, ?_, fun r hr => ?_, rfl, rfl, rfl⟩
        · exact congrArg SessionState.csServer (setSession_session_self _)
        · refine (congrArg SessionState.hwServer (setSession_session_self _)).trans ?_
          exact congrArg SessionState.hwServer (setSession_session_self _)
        · exact (setSession_session_ne hr _).trans (setSession_session_ne hr _)
      subst hst₁
      exact hj.entered h halone

/-- Only the session itself is changed before its connection is counted. -/
theorem connect_inv (h : Inv options st) {failure : Option Failure}
    (hallowed : Allowed options st (.connect s failure)) :
    Inv options (connect options s failure st).1 := by
  rw [connect]
  rcases hhw : (st.session s).hwServer with _ | _
  · obtain ⟨hremote, hchecking⟩ := hallowed.resolve_left (by rw [hhw]; simp)
    rw [if_neg (by simp)]
    by_cases hfail : failure = some .hwServer
    · rw [if_pos hfail]
      exact h
    · rw [if_neg hfail]
      simp only
      rcases connectCsServer_cases h hhw hremote rfl with ⟨e, hout⟩ | ⟨st₂, hout, he⟩
      · rw [hout]
        refine h.of_same rfl (setSession_csServer rfl) (fun r hr => ?_) rfl rfl rfl rfl
        have hrs : r ≠ s := fun heq => h.not_mem_of_hw hhw (heq ▸ hr)
        exact congrArg SessionState.hwServer (setSession_session_ne hrs _)
      · rw [hout]
        have hlisten := he.listening (options s).listens
        rcases failure with _ | (_ | _ | _ | runtime | runtime)
        · exact hlisten.inv
        · exact hlisten.inv
        · exact hlisten.inv
        · exact hlisten.inv
        · refine he.handleException_inv fun hruntime hlistens => ?_
          rw [hchecking (by rw [hruntime])] at hlistens
          cases hlistens
        · refine hlisten.handleException_inv fun _ hlistens => ?_
          rw [setSession_session_self]
          exact hlistens
  · rw [if_pos rfl]
    exact h

/-! ### All calls -/

theorem step_inv (h : Inv options st) {call : Call} (hallowed : Allowed options st call)
    {st' : State} (hstep : step options st call = some st') :
    Inv options st' ∧ Quiet options st call st' := by
  cases call with
  | connect s failure =>
    obtain rfl := Option.some.inj hstep
    exact ⟨connect_inv h hallowed, trivial⟩
  | disconnect s =>
    obtain rfl := Option.some.inj hstep
    refine ⟨disconnect_inv h hallowed, fun hmem => ?_⟩
    obtain ⟨st', hout, -⟩ := disconnect_ready h hmem (hallowed hmem)
    rw [hout]
  | disconnectAllSessions =>
    obtain rfl := Option.some.inj hstep
    exact ⟨disconnectAllSessions_inv h hallowed, trivial⟩

/-- In a run of allowed calls the counts are right in every state. -/
theorem sound_throughout (options : SessionId → Options) (calls : List Call)
    (hallowed : Machine.EachStep (step options) (Allowed options) State.initial calls) :
    Machine.Throughout (step options) Sound (Quiet options) State.initial calls :=
  Machine.Throughout.of_inv (fun h => h.toSound) (fun h hcall hstep => step_inv h hcall hstep) calls
    (inv_initial options) hallowed

/-- The first session does not share its connections, the others do. -/
def firstAlone (s : SessionId) : Options where
  csServerSharing := s ≠ 0
  csServer := some ("10.0.0.1", 3042)
  listens := true

theorem sound_throughout_firstAlone : Machine.Throughout (step firstAlone) Sound (Quiet firstAlone)
    State.initial [.connect 1 none, .connect 2 (some (.scanning true)), .disconnect 1,
      .connect 0 (some (.scanning false)), .connect 2 (some .opening), .disconnectAllSessions] :=
  sound_throughout firstAlone _ (by decide)

/-- A session that does not share takes the connection away from one that does. -/
theorem not_sound_firstAlone : ¬ Machine.Throughout (step firstAlone) Sound (Quiet firstAlone)
    State.initial [.connect 0 none, .connect 1 none, .disconnect 0] := fun h =>
  (h.runTo rfl).usable 1 0 rfl (by decide)

end Chipscopy.Api.Session
