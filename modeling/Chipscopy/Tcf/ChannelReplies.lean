import Chipscopy.Tcf.ChannelRuns

/-! Replies of the TCF channel

    The listener of a command is told the replies that carry its token, each once and in the order
    of their arrival, as long as the channel is open. What comes later is dropped. -/

namespace Chipscopy.Tcf

def Happening.isReply : Happening → Bool
  | .progress _ => true
  | .result _ => true
  | .terminated .rejected => true
  | _ => false

def Job.input? : Job → Option Message
  | .handleInput msg => some msg
  | _ => none

namespace Channel

/-- What a message means to a command. -/
def replyTo (id : ℕ) (msg : Message) : Option Happening :=
  if (msg.type = 'P' ∨ msg.type = 'R' ∨ msg.type = 'N') ∧ msg.token = some (toString id) then
    some (happening msg)
  else none

/-- Replies that a command was told. -/
def told (c : Channel) (id : ℕ) : List Happening :=
  ((c.commands id).elim [] (·.log)).filter Happening.isReply

/-- Messages that the reader has left to the dispatch thread. -/
def pending (c : Channel) : List Message := c.jobs.filterMap Job.input?

theorem isReply_happening (msg : Message) : (happening msg).isReply = true := by
  rw [happening]
  split_ifs <;> rfl

variable {c c' c'' : Channel} {env : Environment}

/-! ### Steps that tell no reply -/

/-- No reply is told and no message is taken. -/
structure Silent (c c' : Channel) : Prop where
  told : c'.told = c.told
  pending : c'.pending = c.pending
  received : c'.received = c.received
  closed : c.state = .closed → c'.state = .closed

theorem Silent.refl (c : Channel) : Silent c c := ⟨rfl, rfl, rfl, fun h => h⟩

theorem Silent.trans (h : Silent c c') (h' : Silent c' c'') : Silent c c'' :=
  ⟨h'.told.trans h.told, h'.pending.trans h.pending, h'.received.trans h.received,
    fun hc => h'.closed (h.closed hc)⟩

theorem told_setCommand {id : ℕ} {cmd : Command}
    (h : cmd.log.filter Happening.isReply = c.told id) : (c.setCommand id cmd).told = c.told := by
  funext j
  rw [told, show (c.setCommand id cmd).commands = Function.update c.commands id (some cmd) from rfl]
  by_cases hj : j = id
  · rw [hj, Function.update_self]
    exact h
  · rw [Function.update_of_ne hj, told]

theorem told_known {id : ℕ} {cmd : Command} (hcmd : c.commands id = some cmd) :
    c.told id = cmd.log.filter Happening.isReply := by
  rw [told, hcmd]
  rfl

theorem pending_invokeLater {job : Job} (hjob : job.input? = none) :
    (c.invokeLater job).pending = c.pending := by
  rw [pending, Channel.invokeLater, List.filterMap_append,
    List.filterMap_cons_none hjob, List.filterMap_nil, List.append_nil, pending]

theorem silent_shut (c : Channel) (error : Bool) : Silent c (c.shut error) := by
  rw [Channel.shut]
  split_ifs
  · exact Silent.refl c
  · exact ⟨rfl, pending_invokeLater rfl, rfl, fun _ => rfl⟩

theorem silent_sendReply (c : Channel) (type : Char) (token : String)
    (data : Option (List UInt8)) : Silent c (c.sendReply type token data) := by
  rw [Channel.sendReply]
  split_ifs <;> exact ⟨rfl, rfl, rfl, fun h => h⟩

theorem Inv.silent_perform (h : c.Inv) (act : Act) : Silent c (c.perform act) := by
  cases act with
  | command service name args =>
    have hfresh : c.told c.tokenCnt = [] := by
      rw [told, h.fresh le_rfl]
      rfl
    simp only [Channel.perform, Channel.sendCommand]
    split_ifs
    · exact ⟨told_setCommand hfresh.symm, rfl, rfl, fun h => h⟩
    · exact ⟨told_setCommand hfresh.symm, pending_invokeLater rfl, rfl, fun h => h⟩
  | cancel id =>
    simp only [Channel.perform, Channel.cancel]
    split
    · exact Silent.refl c
    rename_i cmd hcmd
    split_ifs
    · exact Silent.refl c
    · refine ⟨told_setCommand ?_, rfl, rfl, fun h => h⟩
      rw [told_known (c := { c with outTokens := c.outTokens.erase id }) hcmd, List.filter_append,
        show [Happening.canceled].filter Happening.isReply = [] from rfl, List.append_nil]
    · exact ⟨told_setCommand (told_known hcmd).symm, rfl, rfl, fun h => h⟩
  | close => exact silent_shut c false
  | terminate => exact silent_shut c true
  | reply type token data => exact silent_sendReply c type token data
  | event service name args =>
    simp only [Channel.perform, Channel.sendEvent]
    split_ifs <;> exact ⟨rfl, rfl, rfl, fun h => h⟩
  | token => exact ⟨rfl, rfl, rfl, fun h => h⟩

theorem Inv.silent_performAll (acts : List Act) :
    ∀ {c : Channel}, c.Inv → Silent c (c.performAll acts) := by
  induction acts with
  | nil => exact fun _ => Silent.refl _
  | cons act acts ih => exact fun h => (h.silent_perform act).trans (ih (h.perform act))

theorem silent_sendCongestionLevel (c : Channel) (r : Reaction) :
    Silent c (c.sendCongestionLevel r) := by
  rw [Channel.sendCongestionLevel]
  dsimp only
  split_ifs <;> exact ⟨rfl, rfl, rfl, fun h => h⟩

/-- A listener is told something that is no reply. -/
theorem silent_listen (c : Channel) (id : ℕ) {x : Happening} (hx : x.isReply = false) :
    Silent c (c.listen id x).1 := by
  rw [Channel.listen]
  split
  · exact ⟨rfl, rfl, rfl, fun h => h⟩
  · rename_i cmd' hcall
    obtain ⟨cmd, hcmd, hcall⟩ := Option.bind_eq_some_iff.mp hcall
    refine ⟨told_setCommand ?_, rfl, rfl, fun h => h⟩
    rw [Command.call] at hcall
    split_ifs at hcall
    obtain rfl := Option.some.inj hcall
    rw [told_known hcmd, List.filter_append, List.filter_singleton, hx]
    exact List.append_nil _

/-- A listener is told a reply, and no other listener is. -/
theorem told_listen {id : ℕ} {x : Happening} (hx : x.isReply = true)
    (hlisten : c.listen id x = (c', false)) :
    c'.told = Function.update c.told id (c.told id ++ [x]) ∧ c'.pending = c.pending ∧
      c'.received = c.received := by
  rw [Channel.listen] at hlisten
  split at hlisten
  · cases hlisten
  · rename_i cmd' hcall
    obtain rfl := congrArg Prod.fst hlisten
    obtain ⟨cmd, hcmd, hcall⟩ := Option.bind_eq_some_iff.mp hcall
    rw [Command.call] at hcall
    split_ifs at hcall
    obtain rfl := Option.some.inj hcall
    refine ⟨funext fun j => ?_, rfl, rfl⟩
    by_cases hj : j = id
    · rw [hj, Function.update_self, told_known hcmd, told_known (Function.update_self ..),
        List.filter_append, List.filter_singleton, hx]
      rfl
    · rw [Function.update_of_ne hj, told, told]
      exact congrArg (fun o : Option Command => (o.elim [] (·.log)).filter Happening.isReply)
        (Function.update_of_ne hj _ _)

/-! ### Messages that are handled -/

theorem replyTo_other {msg : Message}
    (htype : ¬ (msg.type = 'P' ∨ msg.type = 'R' ∨ msg.type = 'N')) (id : ℕ) :
    replyTo id msg = none :=
  if_neg fun h => htype h.1

/-- The message is told to the command with its token, or else the channel is closed. -/
def Handles (c c' : Channel) (msg : Message) : Prop :=
  c'.received = c.received ∧ c'.pending = c.pending ∧
    (c.state ≠ .closed ∧ (∀ id, c'.told id = c.told id ++ (replyTo id msg).toList) ∨
      c'.told = c.told ∧ c'.state = .closed)

theorem Silent.handles {msg : Message} (h : Silent c c') (hopen : c.state ≠ .closed)
    (htype : ¬ (msg.type = 'P' ∨ msg.type = 'R' ∨ msg.type = 'N')) : Handles c c' msg := by
  refine ⟨h.received, h.pending, .inl ⟨hopen, fun id => ?_⟩⟩
  rw [h.told, replyTo_other htype, Option.toList_none, List.append_nil]

theorem shut_state (c : Channel) (error : Bool) : (c.shut error).state = .closed := by
  rw [Channel.shut]
  split_ifs with hclosed
  · exact hclosed
  · rfl

theorem Inv.handles_reply (h : c.Inv) (hopen : c.state ≠ .closed) (r : Reaction) {msg : Message}
    (htype : msg.type = 'P' ∨ msg.type = 'R' ∨ msg.type = 'N') :
    Handles c (c.handleReply r msg) msg := by
  rw [Channel.handleReply]
  split
  · have hsilent := silent_shut c true
    exact ⟨hsilent.received, hsilent.pending, .inr ⟨hsilent.told, shut_state c true⟩⟩
  rename_i id hfind
  have htoken : msg.token = some (toString id) := by simpa using List.find?_some hfind
  have hreply : ∀ j, replyTo j msg = if j = id then some (happening msg) else none := fun j => by
    rw [replyTo, htoken]
    refine if_congr ⟨fun hj => ?_, fun hj => ?_⟩ rfl rfl
    · exact (Nat.repr_injective (Option.some.inj hj.2)).symm
    · exact ⟨htype, by rw [hj]⟩
  obtain ⟨c₁, hlisten, hinv⟩ := h.reply (List.mem_of_find?_eq_some hfind) msg
  obtain ⟨htold, hpending, hreceived⟩ := told_listen (isReply_happening msg) hlisten
  have hnext : Handles c c₁ msg := by
    refine ⟨hreceived, hpending, .inl ⟨hopen, fun j => ?_⟩⟩
    have htold' : c₁.told = Function.update c.told id (c.told id ++ [happening msg]) := htold
    rw [htold', hreply]
    by_cases hj : j = id
    · rw [hj, Function.update_self, if_pos rfl, Option.toList_some]
    · rw [Function.update_of_ne hj, if_neg hj, Option.toList_none, List.append_nil]
  have hlater : ∀ {c₂}, Silent c₁ c₂ → Handles c c₂ msg := fun hsilent =>
    ⟨hsilent.received.trans hnext.1, hsilent.pending.trans hnext.2.1,
      hnext.2.2.imp (fun ht => ⟨hopen, fun j => by rw [hsilent.told, ht.2]⟩)
        fun ht => ⟨hsilent.told.trans ht.1, hsilent.closed ht.2⟩⟩
  have hacts := hinv.silent_performAll (r.command id)
  dsimp only
  rw [hlisten]
  dsimp only
  split_ifs
  · exact hlater hacts
  · exact hlater (hacts.trans (silent_sendCongestionLevel _ r))

theorem Inv.silent_handleHello (h : c.Inv) (r : Reaction) (data : List UInt8) :
    Silent c (c.handleHello env r data) := by
  rw [Channel.handleHello]
  split
  · exact silent_shut c true
  rename_i names _
  dsimp only
  split_ifs with hstate
  · have hzero : Silent c { c with zeroCopy := names.contains "ZeroCopy" } :=
      ⟨rfl, rfl, rfl, fun h => h⟩
    exact hzero.trans (silent_shut _ true)
  · have hopening : c.state = .opening := not_not.mp hstate
    have hopened : Silent c { c with state := .opened, zeroCopy := names.contains "ZeroCopy" } :=
      ⟨rfl, rfl, rfl, fun hclosed => absurd (hopening.symm.trans hclosed) (by decide)⟩
    exact hopened.trans ((h.hello hopening _).silent_performAll r.others)

theorem Inv.handles_input (h : c.Inv) (r : Reaction) (msg : Message) :
    Handles c (c.handleInput env r msg) msg := by
  rw [Channel.handleInput]
  split_ifs with hstate hreply _ _ _ _ _
  · exact ⟨rfl, rfl, .inr ⟨rfl, hstate⟩⟩
  · exact h.handles_reply hstate r hreply
  · exact (silent_shut c true).handles hstate hreply
  · exact (h.silent_performAll r.others).handles hstate hreply
  · exact (silent_sendReply c 'N' _ none).handles hstate hreply
  · exact (h.silent_handleHello r _).handles hstate hreply
  · have hevent := (h.silent_performAll r.others).trans (silent_sendCongestionLevel _ r)
    exact hevent.handles hstate hreply
  · refine Silent.handles ?_ hstate hreply
    dsimp only
    split
    · exact silent_shut c true
    · exact ⟨rfl, rfl, rfl, fun h => h⟩

theorem Inv.silent_windUp (h : c.Inv) (r : Reaction) {error : Bool} {jobs : List Job}
    (hjobs : c.jobs = .closed error :: jobs) : Silent c ({ c with jobs }.windUp r error) := by
  have hpop : Silent c { c with jobs } :=
    ⟨rfl, by rw [pending, pending, hjobs]; rfl, rfl, fun h => h⟩
  have hacts : ∀ {c₁ ids} (acts : List Act), c₁.state = .closed →
      (aside ids [.closed error] c₁).Inv → Silent c c₁ → Silent c (c₁.performAll acts) := by
    intro c₁ ids acts hclosed hinv hsilent
    have hperform := hinv.silent_performAll acts
    rw [(performAll_aside _ _ acts hclosed).1] at hperform
    exact hsilent.trans ⟨hperform.told, hperform.pending, hperform.received,
      fun _ => (performAll_aside [] [] acts hclosed).2⟩
  obtain ⟨hinv, hsilent⟩ := Inv.abort r error (fun _ id hs => hs.trans (silent_listen _ id rfl))
    hacts c.outTokens (c := { c with jobs }) (h.closed_of_job hjobs) ((aside_jobs hjobs).symm ▸ h)
    hpop
  have hwound : Silent ({ c with jobs }.abort r c.outTokens)
      { { c with jobs }.abort r c.outTokens with
        outTokens := []
        closings := ({ c with jobs }.abort r c.outTokens).closings ++ [error] } :=
    ⟨rfl, rfl, rfl, fun h => h⟩
  exact hsilent.trans (hwound.trans (hinv.wound.silent_performAll r.others))

/-! ### Runs -/

/-- The messages so far were told to the commands they were for, unless the channel was closed
    before. -/
def Heard (c : Channel) : Prop :=
  ∃ handled rest, c.received = handled ++ rest ∧ (c.state ≠ .closed → rest = c.pending) ∧
    ∀ id, c.told id = handled.filterMap (replyTo id)

theorem Heard.silent (h : c.Heard) (hsilent : Silent c c') : c'.Heard := by
  obtain ⟨handled, rest, hreceived, hrest, htold⟩ := h
  refine ⟨handled, rest, hsilent.received.trans hreceived, fun hopen => ?_, fun id => ?_⟩
  · rw [hsilent.pending]
    exact hrest fun hclosed => hopen (hsilent.closed hclosed)
  · rw [hsilent.told]
    exact htold id

theorem Heard.handles (h : c.Heard) {msg : Message} {jobs : List Job}
    (hjobs : c.jobs = .handleInput msg :: jobs) (hhandles : Handles { c with jobs } c' msg) :
    c'.Heard := by
  obtain ⟨handled, rest, hreceived, hrest, htold⟩ := h
  obtain ⟨hreceived', hpending, ⟨hopen, htold'⟩ | ⟨htold', hstate⟩⟩ := hhandles
  · have hnext : rest = msg :: c'.pending := by
      rw [hrest hopen, hpending, pending, hjobs]
      rfl
    refine ⟨handled ++ [msg], c'.pending, ?_, fun _ => rfl, fun id => ?_⟩
    · rw [hreceived', List.append_assoc, List.singleton_append, ← hnext]
      exact hreceived
    · have hlast : [msg].filterMap (replyTo id) = (replyTo id msg).toList := by
        rw [List.filterMap_cons, List.filterMap_nil]
        cases replyTo id msg <;> rfl
      rw [htold', List.filterMap_append, hlast]
      exact congrArg (· ++ _) (htold id)
  · refine ⟨handled, rest, hreceived'.trans hreceived, fun hopen => absurd hstate hopen,
      fun id => ?_⟩
    rw [htold']
    exact htold id

theorem Heard.runJob (h : c.Heard) (hinv : c.Inv) (r : Reaction) {job : Job} {jobs : List Job}
    (hjobs : c.jobs = job :: jobs) : ({ c with jobs }.runJob env r job).Heard := by
  have hpop : job.input? = none → Silent c { c with jobs } := fun hinput =>
    ⟨rfl, by rw [pending, pending, hjobs, List.filterMap_cons_none hinput], rfl, fun h => h⟩
  cases job with
  | error id =>
    obtain ⟨c₁, hlisten, hinv₁⟩ := hinv.error hjobs
    have hsilent := silent_listen { c with jobs } id (x := .terminated .refused) rfl
    rw [hlisten] at hsilent
    rw [Channel.runJob, hlisten]
    exact h.silent ((hpop rfl).trans (hsilent.trans (hinv₁.silent_performAll _)))
  | handleInput msg =>
    exact h.handles hjobs ((hinv.pop hjobs (fun _ => Job.noConfusion) rfl).handles_input r msg)
  | handleEOS report =>
    rw [Channel.runJob]
    split_ifs <;> exact h.silent ((hpop rfl).trans (silent_shut _ _))
  | terminate => exact h.silent ((hpop rfl).trans (silent_shut _ true))
  | closed error => exact h.silent (hinv.silent_windUp r hjobs)

theorem silent_transmit (hstep : c.transmit = some c') : Silent c c' := by
  rw [Channel.transmit] at hstep
  split_ifs at hstep
  split at hstep
  · cases hstep
  · obtain rfl := Option.some.inj hstep
    exact ⟨rfl, rfl, rfl, fun h => h⟩
  · obtain rfl := Option.some.inj hstep
    exact ⟨rfl, rfl, rfl, fun h => h⟩
  · dsimp only at hstep
    split at hstep
    · obtain rfl := Option.some.inj hstep
      exact ⟨rfl, rfl, rfl, fun h => h⟩
    rename_i cmd hcmd
    split_ifs at hstep
    · obtain rfl := Option.some.inj hstep
      exact ⟨rfl, rfl, rfl, fun h => h⟩
    · obtain rfl := Option.some.inj hstep
      exact ⟨told_setCommand (told_known hcmd).symm, rfl, rfl, fun h => h⟩

theorem Heard.receive (h : c.Heard) (msg : Message) :
    ({ c with received := c.received ++ [msg] }.invokeLater (.handleInput msg)).Heard := by
  obtain ⟨handled, rest, hreceived, hrest, htold⟩ := h
  refine ⟨handled, rest ++ [msg], ?_, fun hopen => ?_, htold⟩
  · rw [← List.append_assoc, ← hreceived]
    rfl
  · rw [hrest hopen, pending, pending, Channel.invokeLater, List.filterMap_append]
    rfl

theorem Heard.step (h : c.Heard) (hinv : c.Inv) {event : Event}
    (hstep : c.step env event = some c') : c'.Heard := by
  cases event with
  | act act =>
    obtain rfl := Option.some.inj hstep
    exact h.silent (hinv.silent_perform act)
  | dispatch r =>
    rw [Channel.step] at hstep
    split at hstep
    · cases hstep
    · rename_i job jobs hjobs
      obtain rfl := Option.some.inj hstep
      exact h.runJob hinv r hjobs
  | transmit => exact h.silent (silent_transmit hstep)
  | transmitFails =>
    obtain ⟨c₁, hc₁, rfl⟩ := Option.map_eq_some_iff.mp hstep
    exact h.silent ((silent_transmit hc₁).trans ⟨rfl, pending_invokeLater rfl, rfl, fun h => h⟩)
  | receive msg =>
    rw [Channel.step] at hstep
    split_ifs at hstep
    obtain rfl := Option.some.inj hstep
    exact h.receive msg
  | endOfStream report =>
    rw [Channel.step] at hstep
    split_ifs at hstep
    obtain rfl := Option.some.inj hstep
    exact h.silent ⟨rfl, pending_invokeLater rfl, rfl, fun h => h⟩
  | readFails =>
    rw [Channel.step] at hstep
    split_ifs at hstep
    obtain rfl := Option.some.inj hstep
    exact h.silent ⟨rfl, pending_invokeLater rfl, rfl, fun h => h⟩

/-- What users of the channel may rely on, whatever the peer sends. -/
structure Sound (c : Channel) : Prop where
  asserts : c.refused = []
  last : ∀ id cmd, c.commands id = some cmd → ∀ h ∈ cmd.log.dropLast, h.isFinal = false
  replies : ∀ id, c.told id <+: c.received.filterMap (replyTo id)
  current : c.state ≠ .closed → c.pending = [] → ∀ id, c.told id = c.received.filterMap (replyTo id)
  explained : ∀ id cmd, c.commands id = some cmd → ∀ h ∈ cmd.log, c.Explains cmd h
  waits : ∀ id cmd, c.commands id = some cmd → (∀ h ∈ cmd.log, h.isFinal = false) →
    id ∈ c.outTokens ∨ .error id ∈ c.jobs
  order : (c.written.filterMap Entry.command?).Pairwise (· < ·)
  sent : ∀ id cmd, c.commands id = some cmd → .command id ∈ c.written → cmd.isCanceled = false
  kept : c.state ≠ .closed → ∀ id cmd, c.commands id = some cmd → cmd.isAccepted = true →
    cmd.isCanceled = false → .command id ∈ c.written ∨ .command id ∈ c.outQueue
  closings : c.closings.length ≤ if c.state = .closed then 1 else 0
  finished : c.state = .closed → c.jobs = [] → c.closings.length = 1 ∧
    ∀ id cmd, c.commands id = some cmd → ∃ h ∈ cmd.log, h.isFinal = true

theorem Inv.sound (h : c.Inv) (hheard : c.Heard) : c.Sound where
  asserts := h.refused
  last id cmd hcmd := (h.consistent id cmd hcmd).last
  replies id := by
    obtain ⟨handled, rest, hreceived, -, htold⟩ := hheard
    rw [htold, hreceived, List.filterMap_append]
    exact List.prefix_append _ _
  current hopen hpending id := by
    obtain ⟨handled, rest, hreceived, hrest, htold⟩ := hheard
    rw [htold, hreceived, hrest hopen, hpending, List.append_nil]
  explained := h.explained
  waits id cmd hcmd hnone := by
    have hzero : cmd.outcomes = 0 := by
      simpa [Command.outcomes, List.countP_eq_zero] using hnone
    have howed := h.owed id cmd hcmd
    rw [owes] at howed
    rcases Nat.eq_zero_or_pos (c.outTokens.count id) with hcount | hcount
    · exact .inr (List.count_pos_iff.mp (by omega))
    · exact .inl (List.count_pos_iff.mp hcount)
  order := by
    have horder := h.order
    rw [entries, List.filterMap_append] at horder
    exact (List.pairwise_append.mp horder).1
  sent id cmd hcmd hmem := (h.consistent id cmd hcmd).sent ((h.sent id cmd hcmd).mpr hmem)
  kept hopen id cmd hcmd hacc hcan := List.mem_append.mp (h.kept hopen id cmd hcmd hacc hcan)
  closings := h.closings ▸ Nat.le_add_right _ _
  finished hclosed hjobs := by
    have hclosings := h.closings
    rw [hjobs, if_pos hclosed] at hclosings
    have hlength : c.closings.length = 1 := hclosings
    refine ⟨hlength, fun id cmd hcmd => ?_⟩
    have howed := h.owed id cmd hcmd
    have htokens := h.woundUp fun hnil => by simp [hnil] at hlength
    rw [owes, htokens, hjobs] at howed
    exact List.countP_pos_iff.mp (by rw [← Command.outcomes]; simp at howed; omega)

/-- All runs of a channel are sound. -/
theorem runTo_sound {tokenCnt : ℕ} {events : List Event}
    (hrun : Machine.runTo (step env) (initial tokenCnt) events = some c) : c.Sound := by
  have hinitial : (initial tokenCnt).Heard := ⟨[], [], rfl, fun _ => rfl, fun _ => rfl⟩
  obtain ⟨hinv, hheard⟩ := Machine.runTo_inv (I := fun c => c.Inv ∧ c.Heard)
    (fun h hstep => ⟨h.1.step hstep, h.2.step h.1 hstep⟩) events
    ⟨inv_initial tokenCnt, hinitial⟩ hrun
  exact hinv.sound hheard

/-- One command is answered, one is cancelled, one is aborted and one is refused. -/
def closedRun : List Event :=
  [.act (.event "Locator" "Hello" none), .transmit,
    .receive { type := 'E', service := some "Locator", name := some "Hello" },
    .dispatch ⟨fun _ => [], [.command "Memory" "getContext" none], 0, 0⟩,
    .act (.command "Jtag" "getChildren" none), .act (.command "Jtag" "getContext" none),
    .transmit, .transmit, .act (.cancel 9), .transmit,
    .receive { type := 'P', token := some "8", data := some [1] },
    .receive { type := 'R', token := some "8", data := some [2] },
    .dispatch ⟨fun _ => [], [], 0, 0⟩, .dispatch ⟨fun _ => [.token], [], 0, 0⟩,
    .endOfStream false, .dispatch ⟨fun _ => [], [], 0, 0⟩,
    .dispatch ⟨fun _ => [.command "Jtag" "lock" none], [.close], 0, 0⟩,
    .dispatch ⟨fun _ => [], [], 0, 0⟩]

theorem runTo_sound_closedRun : ∃ c, Machine.runTo
    (step ⟨fun _ => false, fun _ => some ["Locator", "ZeroCopy"]⟩) (initial 7) closedRun = some c ∧
      c.Sound := by
  obtain ⟨c, hrun⟩ := Option.isSome_iff_exists.mp (by decide +kernel : (Machine.runTo
    (step ⟨fun _ => false, fun _ => some ["Locator", "ZeroCopy"]⟩)
    (initial 7) closedRun).isSome = true)
  exact ⟨c, hrun, runTo_sound hrun⟩

end Channel

end Chipscopy.Tcf
