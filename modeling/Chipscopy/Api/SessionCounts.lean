import Chipscopy.Api.Session

/-! Users of a connection

    A session joins a connection or opens one, and leaves the one that is stored. Both keep the
    counts the numbers of users; what is left unused is closed. -/

namespace Chipscopy.Api.Session

variable {options : SessionId → Options} {st : State} {s : SessionId} {c : Connection}

/-! ### Users -/

theorem users_pos : 0 < st.users c ↔ ∃ s ∈ st.connected, (st.session s).csServer = some c := by
  rw [State.users, List.countP_pos_iff]
  simp only [decide_eq_true_eq]

/-- A new session counts for its connection. -/
theorem users_join {st' : State} (hnew : s ∉ st.connected)
    (hconnected : st'.connected = st.connected ++ [s])
    (hsession : ∀ r, r ≠ s → (st'.session r).csServer = (st.session r).csServer) (c : Connection) :
    st'.users c = st.users c + if (st'.session s).csServer = some c then 1 else 0 := by
  have hold : st.connected.countP (fun r => (st'.session r).csServer = some c) = st.users c :=
    List.countP_congr fun r hr => by
      rw [hsession r fun heq => hnew (heq ▸ hr)]
  rw [State.users, hconnected, List.countP_append, hold, List.countP_singleton]
  simp only [decide_eq_true_eq]

/-- One that leaves no longer counts. -/
theorem users_leave {st' : State} (hnodup : st.connected.Nodup) (hmem : s ∈ st.connected)
    (hconnected : st'.connected = st.connected.erase s)
    (hsession : ∀ r, r ≠ s → (st'.session r).csServer = (st.session r).csServer) (c : Connection) :
    st.users c = st'.users c + if (st.session s).csServer = some c then 1 else 0 := by
  have hrest : st'.users c = (st.connected.erase s).countP
      fun r => (st.session r).csServer = some c := by
    rw [State.users, hconnected]
    exact List.countP_congr fun r hr => by
      rw [hsession r fun heq => hnodup.not_mem_erase (heq ▸ hr)]
  have hcount := (List.perm_cons_erase hmem).countP_eq fun r => (st.session r).csServer = some c
  rw [State.users, hcount, List.countP_cons, hrest]
  simp only [decide_eq_true_eq]

/-! ### The invariant -/

/-- Besides, stored connections are used, by sessions of that address only. -/
structure Inv (options : SessionId → Options) (st : State) : Prop extends Sound st where
  hw : ∀ s ∈ st.connected, (st.session s).hwServer
  owner : ∀ s c address n, (st.session s).csServer = some c →
    st.refCount.get? address = some (n, c) → (options s).csServer = some address
  stored : ∀ address n c, st.refCount.get? address = some (n, c) → 0 < st.users c
  fresh : ∀ s c, (st.session s).csServer = some c → c < st.nextConnection
  opened : ∀ c ∈ st.disconnected, c < st.nextConnection

theorem inv_initial (options : SessionId → Options) : Inv options State.initial where
  nodup := List.nodup_nil
  registered _ _ h := by cases h
  counted _ _ _ h := by cases h
  closedOnce _ h := absurd h (Nat.not_lt_zero _)
  usable _ _ h := by cases h
  quiet := rfl
  hw _ h := absurd h List.not_mem_nil
  owner _ _ _ _ h := by cases h
  stored _ _ _ h := by cases h
  fresh _ _ h := by cases h
  opened _ h := absurd h List.not_mem_nil

namespace Inv

variable (h : Inv options st)
include h

theorem csServer_of_hw (hhw : (st.session s).hwServer = false) : (st.session s).csServer = none := by
  rcases hcs : (st.session s).csServer with _ | c
  · rfl
  · have := h.hw s (h.registered s c hcs)
    rw [hhw] at this
    cases this

/-- A connection is stored for one address. -/
theorem address_unique {a a' : Address} {n n' : ℤ} (ha : st.refCount.get? a = some (n, c))
    (ha' : st.refCount.get? a' = some (n', c)) : a = a' := by
  obtain ⟨s, -, hs⟩ := users_pos.mp (h.stored a n c ha)
  exact Option.some.inj ((h.owner s c a n hs ha).symm.trans (h.owner s c a' n' hs ha'))

theorem users_fresh : st.users st.nextConnection = 0 := by
  by_contra hne
  obtain ⟨s, -, hs⟩ := users_pos.mp (Nat.pos_of_ne_zero hne)
  exact absurd (h.fresh s _ hs) (lt_irrefl _)

/-- The fields that do not count. -/
theorem of_same {st' : State} (hconnected : st'.connected = st.connected)
    (hcs : ∀ r, (st'.session r).csServer = (st.session r).csServer)
    (hhw : ∀ r ∈ st.connected, (st'.session r).hwServer = (st.session r).hwServer)
    (hcount : st'.refCount = st.refCount) (hnext : st'.nextConnection = st.nextConnection)
    (hclosed : st'.disconnected = st.disconnected)
    (hquiet : st'.failedDisconnects = st.failedDisconnects) : Inv options st' := by
  have husers : ∀ c, st'.users c = st.users c := fun c => by
    simp only [State.users, hconnected, hcs]
  constructor
  · constructor
    · rw [hconnected]
      exact h.nodup
    · simp only [hcs, hconnected]
      exact h.registered
    · simp only [hcount, husers]
      exact h.counted
    · simp only [hnext, hclosed, husers]
      exact h.closedOnce
    · simp only [hcs, hclosed]
      exact h.usable
    · rw [hquiet]
      exact h.quiet
  · rw [hconnected]
    exact fun r hr => (hhw r hr).trans (h.hw r hr)
  · simp only [hcs, hcount]
    exact h.owner
  · simp only [hcount, husers]
    exact h.stored
  · simp only [hcs, hnext]
    exact h.fresh
  · simp only [hclosed, hnext]
    exact h.opened

theorem not_mem_of_hw (hhw : (st.session s).hwServer = false) : s ∉ st.connected := fun hmem => by
  have := h.hw s hmem
  rw [hhw] at this
  cases this

end Inv

/-! ### Sessions that come -/

/-- A session gets a connection, the stored one of its address or a new one. -/
structure Joins (options : SessionId → Options) (st : State) (s : SessionId) (address : Address)
    (n : ℤ) (c : Connection) (st' : State) : Prop where
  before : (st.session s).hwServer = false
  server : (options s).csServer = some address
  entry : (st.refCount.get? address = some (n, c) ∧ st'.nextConnection = st.nextConnection) ∨
    (n = 0 ∧ c = st.nextConnection ∧ st'.nextConnection = st.nextConnection + 1)
  connected : st'.connected = st.connected ++ [s]
  csServer : (st'.session s).csServer = some c
  hwServer : (st'.session s).hwServer
  session : ∀ r, r ≠ s → st'.session r = st.session r
  refCount : st'.refCount = st.refCount.set address (n + 1, c)
  disconnected : st'.disconnected = st.disconnected
  failedDisconnects : st'.failedDisconnects = st.failedDisconnects

namespace Joins

variable {st' : State} {address : Address} {n : ℤ} (hj : Joins options st s address n c st')
  (h : Inv options st)
include hj h

theorem users (c' : Connection) : st'.users c' = st.users c' + if c = c' then 1 else 0 := by
  rw [users_join (h.not_mem_of_hw hj.before) hj.connected (fun r hr => by rw [hj.session r hr]),
    hj.csServer]
  simp only [Option.some.injEq]

theorem count_eq : n = st.users c := by
  rcases hj.entry with ⟨hget, -⟩ | ⟨rfl, rfl, -⟩
  · exact h.counted address n c hget
  · rw [h.users_fresh, Nat.cast_zero]

theorem not_mem_disconnected : c ∉ st.disconnected := by
  rcases hj.entry with ⟨hget, -⟩ | ⟨-, rfl, -⟩
  · obtain ⟨r, -, hr⟩ := users_pos.mp (h.stored address n c hget)
    exact h.usable r c hr
  · exact fun hmem => absurd (h.opened _ hmem) (lt_irrefl _)

theorem nextConnection : st.nextConnection ≤ st'.nextConnection ∧ c < st'.nextConnection ∧
    ∀ c' < st'.nextConnection, c' ≠ c → c' < st.nextConnection := by
  rcases hj.entry with ⟨hget, hnext⟩ | ⟨-, rfl, hnext⟩
  · obtain ⟨r, -, hr⟩ := users_pos.mp (h.stored address n c hget)
    rw [hnext]
    exact ⟨le_rfl, h.fresh r c hr, fun c' hlt _ => hlt⟩
  · rw [hnext]
    exact ⟨Nat.le_succ _, Nat.lt_succ_self _, fun c' hlt hne =>
      Nat.lt_of_le_of_ne (Nat.lt_succ_iff.mp hlt) hne⟩

/-- An entry is that of the session, or one of another connection. -/
theorem get?_refCount {a : Address} {n' : ℤ} {c' : Connection}
    (hget : st'.refCount.get? a = some (n', c')) : (a = address ∧ n' = n + 1 ∧ c' = c) ∨
      (c ≠ c' ∧ st.refCount.get? a = some (n', c')) := by
  rw [hj.refCount] at hget
  by_cases ha : a = address
  · subst ha
    rw [Py.Dict.get?_set_self] at hget
    obtain ⟨rfl, rfl⟩ := Prod.mk.inj (Option.some.inj hget)
    exact .inl ⟨rfl, rfl, rfl⟩
  · rw [Py.Dict.get?_set_ne _ ha] at hget
    refine .inr ⟨?_, hget⟩
    rintro rfl
    rcases hj.entry with ⟨hget', -⟩ | ⟨-, rfl, -⟩
    · exact ha (h.address_unique hget hget')
    · have hpos := h.stored a n' _ hget
      rw [h.users_fresh] at hpos
      exact absurd hpos (lt_irrefl 0)

omit h in
/-- Who has a connection is the session, or had it before. -/
theorem csServer_of {r : SessionId} {c' : Connection} (hr : (st'.session r).csServer = some c') :
    (r = s ∧ c' = c) ∨ (r ≠ s ∧ (st.session r).csServer = some c') := by
  by_cases hrs : r = s
  · rw [hrs, hj.csServer] at hr
    exact .inl ⟨hrs, (Option.some.inj hr).symm⟩
  · rw [hj.session r hrs] at hr
    exact .inr ⟨hrs, hr⟩

theorem sound : Sound st' where
  nodup := by
    rw [hj.connected]
    refine List.nodup_append.mpr ⟨h.nodup, List.nodup_singleton s, fun a ha b hb hab => ?_⟩
    rw [List.mem_singleton.mp hb] at hab
    exact h.not_mem_of_hw hj.before (hab ▸ ha)
  registered r c' hr := by
    rw [hj.connected]
    rcases hj.csServer_of hr with ⟨rfl, -⟩ | ⟨-, hr⟩
    · exact List.mem_append_right _ (List.mem_singleton_self r)
    · exact List.mem_append_left _ (h.registered r c' hr)
  counted a n' c' hget := by
    rw [hj.users h]
    rcases hj.get?_refCount h hget with ⟨-, rfl, rfl⟩ | ⟨hne, hget⟩
    · rw [if_pos rfl, hj.count_eq h, Nat.cast_add, Nat.cast_one]
    · rw [if_neg hne, Nat.add_zero]
      exact h.counted a n' c' hget
  closedOnce c' hc' := by
    rw [hj.disconnected, hj.users h]
    by_cases heq : c = c'
    · subst heq
      rw [if_pos rfl, if_neg (Nat.succ_ne_zero _)]
      exact List.count_eq_zero.mpr (hj.not_mem_disconnected h)
    · rw [if_neg heq, Nat.add_zero]
      exact h.closedOnce c' ((hj.nextConnection h).2.2 c' hc' (Ne.symm heq))
  usable r c' hr := by
    rw [hj.disconnected]
    rcases hj.csServer_of hr with ⟨-, rfl⟩ | ⟨-, hr⟩
    · exact hj.not_mem_disconnected h
    · exact h.usable r c' hr
  quiet := by
    rw [hj.failedDisconnects]
    exact h.quiet

theorem inv : Inv options st' where
  toSound := hj.sound h
  hw r hr := by
    by_cases hrs : r = s
    · rw [hrs]
      exact hj.hwServer
    · rw [hj.session r hrs]
      rw [hj.connected, List.mem_append, List.mem_singleton] at hr
      exact h.hw r (hr.resolve_right hrs)
  owner r c' a n' hr hget := by
    rcases hj.get?_refCount h hget with ⟨rfl, -, rfl⟩ | ⟨hne, hget⟩
    · rcases hj.csServer_of hr with ⟨rfl, -⟩ | ⟨-, hr⟩
      · exact hj.server
      · rcases hj.entry with ⟨hget', -⟩ | ⟨-, rfl, -⟩
        · exact h.owner r _ a n hr hget'
        · exact absurd (h.fresh r _ hr) (lt_irrefl _)
    · rcases hj.csServer_of hr with ⟨-, rfl⟩ | ⟨-, hr⟩
      · exact absurd rfl hne
      · exact h.owner r c' a n' hr hget
  stored a n' c' hget := by
    rw [hj.users h]
    rcases hj.get?_refCount h hget with ⟨-, -, rfl⟩ | ⟨-, hget⟩
    · rw [if_pos rfl]
      exact Nat.succ_pos _
    · exact Nat.add_pos_left (h.stored a n' c' hget) _
  fresh r c' hr := by
    rcases hj.csServer_of hr with ⟨-, rfl⟩ | ⟨-, hr⟩
    · exact (hj.nextConnection h).2.1
    · exact (h.fresh r c' hr).trans_le (hj.nextConnection h).1
  opened c' hc' := by
    rw [hj.disconnected] at hc'
    exact (h.opened c' hc').trans_le (hj.nextConnection h).1

end Joins

namespace Inv

variable (h : Inv options st)
include h

/-- A session without a cs_server comes. -/
theorem join_alone (hhw : (st.session s).hwServer = false) {st' : State}
    (hconnected : st'.connected = st.connected ++ [s])
    (hcs : (st'.session s).csServer = none) (hhw' : (st'.session s).hwServer)
    (hsession : ∀ r, r ≠ s → st'.session r = st.session r)
    (hcount : st'.refCount = st.refCount) (hnext : st'.nextConnection = st.nextConnection)
    (hclosed : st'.disconnected = st.disconnected)
    (hquiet : st'.failedDisconnects = st.failedDisconnects) : Inv options st' := by
  have hnew : s ∉ st.connected := fun hmem => by
    have := h.hw s hmem
    rw [hhw] at this
    cases this
  have hsame : ∀ r, (st'.session r).csServer = (st.session r).csServer := fun r => by
    by_cases hrs : r = s
    · rw [hrs, hcs, h.csServer_of_hw hhw]
    · rw [hsession r hrs]
  have husers : ∀ c, st'.users c = st.users c := fun c => by
    rw [users_join hnew hconnected (fun r _ => hsame r), hcs, if_neg (by simp), Nat.add_zero]
  constructor
  · constructor
    · rw [hconnected]
      exact List.nodup_append.mpr ⟨h.nodup, List.nodup_singleton s, fun a ha b hb hab => by
        rw [List.mem_singleton.mp hb] at hab
        exact hnew (hab ▸ ha)⟩
    · rintro r c hr
      rw [hsame] at hr
      rw [hconnected]
      exact List.mem_append_left _ (h.registered r c hr)
    · simp only [hcount, husers]
      exact h.counted
    · simp only [hnext, hclosed, husers]
      exact h.closedOnce
    · simp only [hsame, hclosed]
      exact h.usable
    · rw [hquiet]
      exact h.quiet
  · rintro r hr
    by_cases hrs : r = s
    · rwa [hrs]
    · rw [hsession r hrs]
      rw [hconnected, List.mem_append, List.mem_singleton] at hr
      exact h.hw r (hr.resolve_right hrs)
  · simp only [hsame, hcount]
    exact h.owner
  · simp only [hcount, husers]
    exact h.stored
  · simp only [hsame, hnext]
    exact h.fresh
  · simp only [hclosed, hnext]
    exact h.opened

end Inv

/-! ### Sessions that leave -/

/-- What a connection is afterwards that a session had: closed and forgotten if this was the last
    user, and counted down otherwise. -/
inductive Releases (st st' : State) (address : Address) (n : ℤ) (c : Connection) : Prop
  | last (hn : n = 1) (hcount : st'.refCount = st.refCount.erase address)
    (hclosed : st'.disconnected = st.disconnected ++ [c])
  | shared (hn : n ≠ 1) (hcount : st'.refCount = st.refCount.set address (n - 1, c))
    (hclosed : st'.disconnected = st.disconnected)

/-- A session gives up its connection, the one that is stored for its address, or has none. -/
structure Frees (st : State) (s : SessionId) (st' : State) : Prop where
  csServer : (st'.session s).csServer = none
  session : ∀ r, r ≠ s → st'.session r = st.session r
  nextConnection : st'.nextConnection = st.nextConnection
  failedDisconnects : st'.failedDisconnects = st.failedDisconnects
  release : ((st.session s).csServer = none ∧ st'.refCount = st.refCount ∧
      st'.disconnected = st.disconnected) ∨
    ∃ address n c, (st.session s).csServer = some c ∧
      st.refCount.get? address = some (n, c) ∧ Releases st st' address n c

structure Leaves (st : State) (s : SessionId) (st' : State) : Prop extends Frees st s st' where
  mem : s ∈ st.connected
  connected : st'.connected = st.connected.erase s

namespace Leaves

variable {st' : State} (hl : Leaves st s st') (h : Inv options st)
include hl h

theorem users (c : Connection) :
    st.users c = st'.users c + if (st.session s).csServer = some c then 1 else 0 :=
  users_leave h.nodup hl.mem hl.connected (fun r hr => by rw [hl.session r hr]) c

theorem users_eq {c : Connection} (hne : (st.session s).csServer ≠ some c) :
    st'.users c = st.users c := by
  rw [hl.users h c, if_neg hne, Nat.add_zero]

theorem users_succ {c : Connection} (hc : (st.session s).csServer = some c) :
    st.users c = st'.users c + 1 := by
  rw [hl.users h c, if_pos hc]

omit h in
theorem csServer_of {r : SessionId} {c : Connection} (hr : (st'.session r).csServer = some c) :
    r ≠ s ∧ (st.session r).csServer = some c := by
  by_cases hrs : r = s
  · rw [hrs, hl.csServer] at hr
    cases hr
  · exact ⟨hrs, by rwa [hl.session r hrs] at hr⟩

/-- Entries that are left count their users, and there are some. -/
theorem get?_refCount {a : Address} {n : ℤ} {c : Connection}
    (hget : st'.refCount.get? a = some (n, c)) :
    n = st'.users c ∧ 0 < st'.users c ∧ ∃ n', st.refCount.get? a = some (n', c) := by
  have hother : (st.session s).csServer ≠ some c → st.refCount.get? a = some (n, c) →
      n = st'.users c ∧ 0 < st'.users c ∧ ∃ n', st.refCount.get? a = some (n', c) := by
    rintro hne hget
    rw [hl.users_eq h hne]
    exact ⟨h.counted a n c hget, h.stored a n c hget, n, hget⟩
  rcases hl.release with ⟨hnone, hcount, -⟩ | ⟨address, n₀, c₀, hc₀, hstored, hrelease⟩
  · rw [hcount] at hget
    exact hother (by rw [hnone]; exact (Option.some_ne_none c).symm) hget
  · have hkept : a ≠ address → st.refCount.get? a = some (n, c) →
        (st.session s).csServer ≠ some c := fun ha hget hc => by
      obtain rfl := Option.some.inj (hc₀.symm.trans hc)
      exact ha (h.address_unique hget hstored)
    by_cases ha : a = address
    · subst ha
      rcases hrelease with ⟨-, hcount, -⟩ | ⟨hn, hcount, -⟩
      · rw [hcount, Py.Dict.get?_erase_self] at hget
        cases hget
      · rw [hcount, Py.Dict.get?_set_self] at hget
        obtain ⟨rfl, rfl⟩ := Prod.mk.inj (Option.some.inj hget)
        have hcounted := h.counted a n₀ c₀ hstored
        have hless := hl.users_succ h hc₀
        exact ⟨by omega, by omega, n₀, hstored⟩
    · have hbefore : st.refCount.get? a = some (n, c) := by
        rcases hrelease with ⟨-, hcount, -⟩ | ⟨-, hcount, -⟩
        · rwa [hcount, Py.Dict.get?_erase_ne _ ha] at hget
        · rwa [hcount, Py.Dict.get?_set_ne _ ha] at hget
      exact hother (hkept ha hbefore) hbefore

theorem users_pos_of_ne {r : SessionId} {c : Connection} (hrs : r ≠ s)
    (hr : (st.session r).csServer = some c) : 0 < st'.users c :=
  users_pos.mpr ⟨r, by
    rw [hl.connected]
    exact (List.mem_erase_of_ne hrs).mpr (h.registered r c hr), by rwa [hl.session r hrs]⟩

/-- What others have stays stored. -/
theorem get?_kept {r : SessionId} {a : Address} {n : ℤ} {c : Connection} (hrs : r ≠ s)
    (hr : (st.session r).csServer = some c) (hget : st.refCount.get? a = some (n, c)) :
    ∃ n', st'.refCount.get? a = some (n', c) := by
  rcases hl.release with ⟨-, hcount, -⟩ | ⟨address, n₀, c₀, hc₀, hstored, hrelease⟩
  · exact ⟨n, by rwa [hcount]⟩
  · by_cases ha : a = address
    · subst ha
      obtain ⟨rfl, rfl⟩ := Prod.mk.inj (Option.some.inj (hget.symm.trans hstored))
      have hcounted := h.counted a n c hget
      have hless := hl.users_succ h hc₀
      have hpos := hl.users_pos_of_ne h hrs hr
      rcases hrelease with ⟨hn, -, -⟩ | ⟨-, hcount, -⟩
      · omega
      · exact ⟨n - 1, by rw [hcount, Py.Dict.get?_set_self]⟩
    · refine ⟨n, ?_⟩
      rcases hrelease with ⟨-, hcount, -⟩ | ⟨-, hcount, -⟩
      · rwa [hcount, Py.Dict.get?_erase_ne _ ha]
      · rwa [hcount, Py.Dict.get?_set_ne _ ha]

/-- The connection is closed with its last user. -/
theorem closedOnce {c : Connection} (hc : c < st.nextConnection) :
    st'.disconnected.count c = if st'.users c = 0 then 1 else 0 := by
  have hbefore := h.closedOnce c hc
  rcases hl.release with ⟨hnone, -, hclosed⟩ | ⟨address, n₀, c₀, hc₀, hstored, hrelease⟩
  · rw [hl.users_eq h (by rw [hnone]; exact (Option.some_ne_none c).symm), hclosed, hbefore]
  · by_cases heq : c₀ = c
    · subst heq
      have hcounted := h.counted address n₀ c₀ hstored
      have hless := hl.users_succ h hc₀
      rw [if_neg (by omega)] at hbefore
      rcases hrelease with ⟨hn, -, hclosed⟩ | ⟨hn, -, hclosed⟩
      · rw [hclosed, List.count_append, hbefore, List.count_singleton_self, if_pos (by omega)]
      · rw [hclosed, hbefore, if_neg (by omega)]
    · rw [hl.users_eq h (by rw [hc₀]; exact fun hsome => heq (Option.some.inj hsome)), ← hbefore]
      rcases hrelease with ⟨-, -, hclosed⟩ | ⟨-, -, hclosed⟩
      · rw [hclosed, List.count_append,
          List.count_eq_zero.mpr (fun hmem => heq (List.mem_singleton.mp hmem).symm), Nat.add_zero]
      · rw [hclosed]

theorem sound : Sound st' where
  nodup := by
    rw [hl.connected]
    exact h.nodup.erase s
  registered r c hr := by
    obtain ⟨hrs, hr⟩ := hl.csServer_of hr
    rw [hl.connected]
    exact (List.mem_erase_of_ne hrs).mpr (h.registered r c hr)
  counted a n c hget := (hl.get?_refCount h hget).1
  closedOnce c hc := hl.closedOnce h (hl.nextConnection ▸ hc)
  usable r c hr hmem := by
    obtain ⟨hrs, hr'⟩ := hl.csServer_of hr
    have hpos := hl.users_pos_of_ne h hrs hr'
    have hzero := hl.closedOnce h (h.fresh r c hr')
    rw [if_neg hpos.ne', List.count_eq_zero] at hzero
    exact hzero hmem
  quiet := by
    rw [hl.failedDisconnects]
    exact h.quiet

theorem inv : Inv options st' where
  toSound := hl.sound h
  hw r hr := by
    rw [hl.connected] at hr
    have hrs : r ≠ s := fun heq => h.nodup.not_mem_erase (heq ▸ hr)
    rw [hl.session r hrs]
    exact h.hw r (List.mem_of_mem_erase hr)
  owner r c a n hr hget := by
    obtain ⟨-, -, n', hbefore⟩ := hl.get?_refCount h hget
    exact h.owner r c a n' (hl.csServer_of hr).2 hbefore
  stored a n c hget := (hl.get?_refCount h hget).2.1
  fresh r c hr := by
    rw [hl.nextConnection]
    exact h.fresh r c (hl.csServer_of hr).2
  opened c hc := by
    rw [hl.nextConnection]
    rcases hl.release with ⟨-, -, hclosed⟩ | ⟨address, n₀, c₀, hc₀, -, hrelease⟩
    · exact h.opened c (hclosed ▸ hc)
    · rcases hrelease with ⟨-, -, hclosed⟩ | ⟨-, -, hclosed⟩
      · rw [hclosed, List.mem_append, List.mem_singleton] at hc
        rcases hc with hc | rfl
        · exact h.opened c hc
        · exact h.fresh s c hc₀
      · exact h.opened c (hclosed ▸ hc)

end Leaves

/-- Nothing is stored when no session is left. -/
theorem Inv.clear (h : Inv options st) (hnil : st.connected = []) :
    Inv options { st with connected := [], refCount := Py.Dict.empty } := by
  have hnone : ∀ r c, (st.session r).csServer ≠ some c := fun r c hr => by
    have hmem := h.registered r c hr
    rw [hnil] at hmem
    exact List.not_mem_nil hmem
  have husers : ∀ c, st.users c = 0 := fun c => by
    rw [State.users, hnil, List.countP_nil]
  constructor
  · constructor
    · exact List.nodup_nil
    · exact fun r c hr => absurd hr (hnone r c)
    · exact fun _ _ _ hget => by cases hget
    · exact fun c hc => (h.closedOnce c hc).trans (by rw [husers, State.users, List.countP_nil])
    · exact fun r c hr => absurd hr (hnone r c)
    · exact h.quiet
  · exact fun _ hr => absurd hr List.not_mem_nil
  · exact fun r c _ _ hr => absurd hr (hnone r c)
  · exact fun _ _ _ hget => by cases hget
  · exact fun r c hr => absurd hr (hnone r c)
  · exact h.opened

end Chipscopy.Api.Session
