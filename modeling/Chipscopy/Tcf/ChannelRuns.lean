import Chipscopy.Tcf.Channel

/-! Runs of the TCF channel

    Each command is owed one outcome until it has one: the reply that carries its token, a
    rejection, an exception where the channel refuses or aborts it, or its cancellation. So no
    listener is told anything more, whatever the peer sends and whenever the channel is closed. -/

namespace Chipscopy.Tcf

/-! ### What holds of every state -/

def Command.outcomes (cmd : Command) : ℕ := cmd.log.countP Happening.isFinal

def Job.isClosed : Job → Bool
  | .closed _ => true
  | _ => false

/-- Facts about one command. -/
structure Command.Consistent (cmd : Command) : Prop where
  done : cmd.isDone = true → 0 < cmd.outcomes
  last : ∀ h ∈ cmd.log.dropLast, h.isFinal = false
  sent : cmd.isSent = true → cmd.isCanceled = false

namespace Channel

/-- How often a command is still to be told an outcome. -/
def owes (c : Channel) (id : ℕ) : ℕ := c.outTokens.count id + c.jobs.count (.error id)

/-- Commands that were written and those that wait. -/
def entries (c : Channel) : List Entry := c.written ++ c.outQueue

/-- Where a happening comes from that is no reply. -/
def Explains (c : Channel) (cmd : Command) : Happening → Prop
  | .terminated .aborted => c.state = .closed
  | .terminated .refused => cmd.isAccepted = false
  | .canceled => cmd.isCanceled = true
  | _ => True

theorem Explains.mono {c c' : Channel} {cmd cmd' : Command} {x : Happening}
    (h : c.Explains cmd x) (hstate : c.state = .closed → c'.state = .closed)
    (haccepted : cmd.isAccepted = false → cmd'.isAccepted = false)
    (hcanceled : cmd.isCanceled = true → cmd'.isCanceled = true) : c'.Explains cmd' x := by
  cases x with
  | progress data => trivial
  | result data => trivial
  | canceled => exact hcanceled h
  | terminated error =>
    cases error with
    | refused => exact haccepted h
    | rejected => trivial
    | aborted => exact hstate h

structure Inv (c : Channel) : Prop where
  known : ∀ id cmd, c.commands id = some cmd → id < c.tokenCnt
  owed : ∀ id cmd, c.commands id = some cmd → c.owes id + cmd.outcomes = 1
  unknown : ∀ id, c.commands id = none → c.owes id = 0
  consistent : ∀ id cmd, c.commands id = some cmd → cmd.Consistent
  explained : ∀ id cmd, c.commands id = some cmd → ∀ h ∈ cmd.log, c.Explains cmd h
  refused : c.refused = []
  closings : c.closings.length + c.jobs.countP Job.isClosed = if c.state = .closed then 1 else 0
  woundUp : c.closings ≠ [] → c.outTokens = []
  order : (c.entries.filterMap Entry.command?).Pairwise (· < ·)
  queued : ∀ id, .command id ∈ c.entries → c.commands id ≠ none
  sent : ∀ id cmd, c.commands id = some cmd → (cmd.isSent = true ↔ .command id ∈ c.written)
  kept : c.state ≠ .closed → ∀ id cmd, c.commands id = some cmd → cmd.isAccepted = true →
    cmd.isCanceled = false → .command id ∈ c.entries
  dropped : c.state = .closed → ∀ e ∈ c.outQueue, e = .stop
  errors : ∀ id, .error id ∈ c.jobs → ∀ cmd, c.commands id = some cmd → cmd.isAccepted = false

theorem inv_initial (tokenCnt : ℕ) : (initial tokenCnt).Inv where
  known := by simp [initial]
  owed := by simp [initial]
  unknown := by simp [initial, owes]
  consistent := by simp [initial]
  explained := by simp [initial]
  refused := rfl
  closings := rfl
  woundUp := by simp [initial]
  order := by simp [initial, entries]
  queued := by simp [initial, entries]
  sent := by simp [initial]
  kept := by simp [initial]
  dropped := by simp [initial]
  errors := by simp [initial]

variable {c : Channel} {id : ℕ} {cmd : Command}

/-! ### One command is told something -/

theorem setCommand_some {c : Channel} {id j : ℕ} {cmd' cmd₁ : Command}
    (hj : (c.setCommand id cmd').commands j = some cmd₁) :
    j = id ∧ cmd₁ = cmd' ∨ j ≠ id ∧ c.commands j = some cmd₁ := by
  change Function.update c.commands id (some cmd') j = _ at hj
  by_cases hji : j = id
  · rw [hji, Function.update_self] at hj
    exact .inl ⟨hji, (Option.some.inj hj).symm⟩
  · rw [Function.update_of_ne hji] at hj
    exact .inr ⟨hji, hj⟩

theorem setCommand_none {c : Channel} {id j : ℕ} {cmd' : Command}
    (hj : (c.setCommand id cmd').commands j = none) : j ≠ id ∧ c.commands j = none := by
  change Function.update c.commands id (some cmd') j = _ at hj
  by_cases hji : j = id
  · rw [hji, Function.update_self] at hj
    cases hj
  · rw [Function.update_of_ne hji] at hj
    exact ⟨hji, hj⟩

/-- A command changes, with what it is owed. -/
theorem Inv.settle (h : c.Inv) (outTokens : List ℕ) (jobs : List Job)
    (hcmd : c.commands id = some cmd) {cmd' : Command}
    (hothers : ∀ j ≠ id, outTokens.count j + jobs.count (.error j) = c.owes j)
    (howed : outTokens.count id + jobs.count (.error id) + cmd'.outcomes = 1)
    (hclosed : jobs.countP Job.isClosed = c.jobs.countP Job.isClosed)
    (hjobs : ∀ job ∈ jobs, job ∈ c.jobs) (hwound : c.closings ≠ [] → outTokens = [])
    (hcons : cmd'.Consistent)
    (hlog : ∀ h ∈ cmd'.log, c.Explains cmd' h) (hsent : cmd'.isSent = cmd.isSent)
    (haccepted : cmd'.isAccepted = cmd.isAccepted)
    (hcanceled : cmd'.isCanceled = false → cmd.isCanceled = false) :
    ({ c with outTokens, jobs }.setCommand id cmd').Inv := by
  constructor
  · intro j cmd₁ hj
    rcases setCommand_some hj with ⟨rfl, -⟩ | ⟨-, hj⟩
    · exact h.known j cmd hcmd
    · exact h.known j cmd₁ hj
  · intro j cmd₁ hj
    rcases setCommand_some hj with ⟨rfl, rfl⟩ | ⟨hne, hj⟩
    · exact howed
    · have hj' := h.owed j cmd₁ hj
      rw [← hothers j hne] at hj'
      exact hj'
  · intro j hj
    obtain ⟨hne, hj⟩ := setCommand_none hj
    exact (hothers j hne).trans (h.unknown j hj)
  · intro j cmd₁ hj
    rcases setCommand_some hj with ⟨-, rfl⟩ | ⟨-, hj⟩
    · exact hcons
    · exact h.consistent j cmd₁ hj
  · intro j cmd₁ hj
    rcases setCommand_some hj with ⟨rfl, rfl⟩ | ⟨-, hj⟩
    · exact hlog
    · exact h.explained j cmd₁ hj
  · exact h.refused
  · exact hclosed ▸ h.closings
  · exact hwound
  · exact h.order
  · intro j hj hnot
    exact h.queued j hj (setCommand_none hnot).2
  · intro j cmd₁ hj
    rcases setCommand_some hj with ⟨rfl, rfl⟩ | ⟨-, hj⟩
    · rw [hsent]
      exact h.sent j cmd hcmd
    · exact h.sent j cmd₁ hj
  · intro hopen j cmd₁ hj hacc hcan
    rcases setCommand_some hj with ⟨rfl, rfl⟩ | ⟨-, hj⟩
    · exact h.kept hopen j cmd hcmd (haccepted ▸ hacc) (hcanceled hcan)
    · exact h.kept hopen j cmd₁ hj hacc hcan
  · exact h.dropped
  · intro j hj cmd₁ hcmd₁
    rcases setCommand_some hcmd₁ with ⟨rfl, rfl⟩ | ⟨-, hcmd₁⟩
    · rw [haccepted]
      exact h.errors j (hjobs _ hj) cmd hcmd
    · exact h.errors j (hjobs _ hj) cmd₁ hcmd₁

/-- A listener that is owed an outcome is told something. -/
theorem Inv.listen (h : c.Inv) (outTokens : List ℕ) (jobs : List Job)
    (hcmd : c.commands id = some cmd) (howes : 0 < c.owes id) {x : Happening}
    (hx : c.Explains cmd x)
    (hothers : ∀ j ≠ id, outTokens.count j + jobs.count (.error j) = c.owes j)
    (howed : outTokens.count id + jobs.count (.error id) + (if x.isFinal then 1 else 0) = 1)
    (hclosed : jobs.countP Job.isClosed = c.jobs.countP Job.isClosed)
    (hjobs : ∀ job ∈ jobs, job ∈ c.jobs) (hwound : c.closings ≠ [] → outTokens = []) :
    ∃ c', { c with outTokens, jobs }.listen id x = (c', false) ∧ c'.Inv := by
  have hzero : cmd.outcomes = 0 := by
    have := h.owed id cmd hcmd
    omega
  have hcons := h.consistent id cmd hcmd
  have hdone : cmd.isDone = false := by
    by_contra hdone
    have := hcons.done (by simpa using hdone)
    omega
  have hnone : ∀ y ∈ cmd.log, y.isFinal = false := by
    simpa [Command.outcomes, List.countP_eq_zero] using hzero
  let cmd' : Command := { cmd with isDone := x.isFinal, log := cmd.log ++ [x] }
  have hcall : cmd.call x = some cmd' := by
    rw [Command.call, hdone]
    rfl
  have houtcomes : cmd'.outcomes = if x.isFinal then 1 else 0 := by
    have hlog : cmd'.outcomes = cmd.outcomes + if x.isFinal then 1 else 0 := by
      simp only [Command.outcomes, cmd', List.countP_append, List.countP_singleton]
    rw [hlog, hzero, Nat.zero_add]
  refine ⟨{ c with outTokens, jobs }.setCommand id cmd', ?_, ?_⟩
  · rw [Channel.listen, hcmd, Option.bind_some, hcall]
  · refine h.settle outTokens jobs hcmd hothers (houtcomes ▸ howed) hclosed hjobs hwound ?_ ?_ rfl
      rfl fun hcan => hcan
    · refine ⟨fun hfinal => ?_, ?_, hcons.sent⟩
      · have hfinal' : x.isFinal = true := hfinal
        rw [houtcomes, if_pos hfinal']
        exact Nat.one_pos
      · rw [show cmd'.log.dropLast = cmd.log from List.dropLast_concat]
        exact hnone
    · intro y hy
      rcases List.mem_append.mp hy with hy | hy
      · exact (h.explained id cmd hcmd y hy).mono (fun hs => hs) (fun ha => ha)
          fun hc => hc
      · obtain rfl := List.mem_singleton.mp hy
        exact hx.mono (fun hs => hs) (fun ha => ha)
          fun hc => hc

/-! ### Acts of users -/

/-- A token that has no command yet. -/
theorem Inv.fresh (h : c.Inv) {j : ℕ} (hj : c.tokenCnt ≤ j) : c.commands j = none := by
  by_contra hne
  obtain ⟨cmd, hcmd⟩ := Option.ne_none_iff_exists'.mp hne
  exact absurd (h.known j cmd hcmd) (by omega)

/-- A new command, which is owed one outcome. -/
theorem Inv.create (h : c.Inv) {message : Message} {isAccepted : Bool} (outTokens : List ℕ)
    (jobs : List Job) (outQueue : List Entry)
    (hothers : ∀ j ≠ c.tokenCnt, outTokens.count j + jobs.count (.error j) = c.owes j)
    (howed : outTokens.count c.tokenCnt + jobs.count (.error c.tokenCnt) = 1)
    (hclosed : jobs.countP Job.isClosed = c.jobs.countP Job.isClosed)
    (hjobs : ∀ job ∈ jobs, job ∈ c.jobs ∨ job = .error c.tokenCnt ∧ isAccepted = false)
    (hwound : c.closings ≠ [] → outTokens = [])
    (hqueue : outQueue = c.outQueue ∧ isAccepted = false ∨
      outQueue = c.outQueue ++ [.command c.tokenCnt] ∧ c.state ≠ .closed) :
    ({ c with tokenCnt := c.tokenCnt + 1, outTokens, jobs, outQueue }.setCommand c.tokenCnt
      { message, isAccepted }).Inv := by
  have hfresh := h.fresh le_rfl
  have hmem : ∀ e ∈ c.written ++ c.outQueue, e ∈ c.written ++ outQueue := by
    intro e he
    rcases hqueue with ⟨rfl, -⟩ | ⟨rfl, -⟩
    · exact he
    · rw [← List.append_assoc]
      exact List.mem_append_left _ he
  have hin : ∀ j, .command j ∈ c.written ++ outQueue →
      .command j ∈ c.written ++ c.outQueue ∨ j = c.tokenCnt := by
    intro j hj
    rcases hqueue with ⟨rfl, -⟩ | ⟨rfl, -⟩
    · exact .inl hj
    · rw [← List.append_assoc] at hj
      refine (List.mem_append.mp hj).imp_right fun hj => ?_
      exact Entry.command.inj (List.mem_singleton.mp hj)
  have hnotWritten : .command c.tokenCnt ∉ c.written := fun hw =>
    h.queued _ (List.mem_append_left _ hw) hfresh
  constructor
  · intro j cmd₁ hj
    rcases setCommand_some hj with ⟨rfl, -⟩ | ⟨-, hj⟩
    · exact Nat.lt_succ_self _
    · exact (h.known j cmd₁ hj).trans (Nat.lt_succ_self _)
  · intro j cmd₁ hj
    rcases setCommand_some hj with ⟨rfl, rfl⟩ | ⟨hne, hj⟩
    · exact howed
    · have hj' := h.owed j cmd₁ hj
      rw [← hothers j hne] at hj'
      exact hj'
  · intro j hj
    obtain ⟨hne, hj⟩ := setCommand_none hj
    exact (hothers j hne).trans (h.unknown j hj)
  · intro j cmd₁ hj
    rcases setCommand_some hj with ⟨-, rfl⟩ | ⟨-, hj⟩
    · exact ⟨fun hdone => (nomatch hdone), fun _ hmem => (nomatch hmem),
        fun hsent => (nomatch hsent)⟩
    · exact h.consistent j cmd₁ hj
  · intro j cmd₁ hj
    rcases setCommand_some hj with ⟨-, rfl⟩ | ⟨-, hj⟩
    · exact fun _ hmem => nomatch hmem
    · exact h.explained j cmd₁ hj
  · exact h.refused
  · exact hclosed ▸ h.closings
  · exact hwound
  · rcases hqueue with ⟨rfl, -⟩ | ⟨rfl, -⟩
    · exact h.order
    · show ((c.written ++ (c.outQueue ++ [Entry.command c.tokenCnt])).filterMap _).Pairwise _
      rw [← List.append_assoc, List.filterMap_append, List.pairwise_append]
      refine ⟨h.order, List.pairwise_singleton _ _, fun a ha b hb => ?_⟩
      obtain rfl : b = c.tokenCnt := by simpa [Entry.command?] using hb
      obtain ⟨e, he, hea⟩ := List.mem_filterMap.mp ha
      obtain rfl : e = .command a := by
        cases e <;> simp_all [Entry.command?]
      obtain ⟨cmd, hcmd⟩ := Option.ne_none_iff_exists'.mp (h.queued a he)
      exact h.known a cmd hcmd
  · intro j hj hnot
    obtain ⟨hne, hnone⟩ := setCommand_none hnot
    exact h.queued j ((hin j hj).resolve_right hne) hnone
  · intro j cmd₁ hj
    rcases setCommand_some hj with ⟨rfl, rfl⟩ | ⟨-, hj⟩
    · exact iff_of_false (fun hsent => nomatch hsent) hnotWritten
    · exact h.sent j cmd₁ hj
  · intro hopen j cmd₁ hj hacc hcan
    rcases setCommand_some hj with ⟨rfl, rfl⟩ | ⟨-, hj⟩
    · rcases hqueue with ⟨-, hnot⟩ | ⟨rfl, -⟩
      · exact absurd (hacc.symm.trans hnot) (by decide)
      · exact List.mem_append_right _ (List.mem_append_right _ (List.mem_singleton_self _))
    · exact hmem _ (h.kept hopen j cmd₁ hj hacc hcan)
  · intro hclosed e he
    rcases hqueue with ⟨rfl, -⟩ | ⟨-, hopen⟩
    · exact h.dropped hclosed e he
    · exact absurd hclosed hopen
  · intro j hj cmd₁ hcmd₁
    rcases setCommand_some hcmd₁ with ⟨rfl, rfl⟩ | ⟨hne, hcmd₁⟩
    · rcases hjobs _ hj with hj | ⟨-, hnot⟩
      · have howes := h.unknown _ hfresh
        have hpos := List.count_pos_iff.mpr hj
        rw [owes] at howes
        omega
      · exact hnot
    · rcases hjobs _ hj with hj | ⟨hj, -⟩
      · exact h.errors j hj cmd₁ hcmd₁
      · exact absurd (Job.error.inj hj) hne

theorem Inv.sendCommand (h : c.Inv) (service name : String) (args : Option (List UInt8)) :
    (c.sendCommand service name args).Inv := by
  have howes := h.unknown _ (h.fresh le_rfl)
  rw [owes] at howes
  rw [Channel.sendCommand]
  dsimp only
  split_ifs with hopen
  · refine h.create (c.outTokens ++ [c.tokenCnt]) c.jobs
      (c.outQueue ++ [.command c.tokenCnt]) (fun j hj => ?_) ?_ rfl (fun _ => .inl)
      (fun hclosings => ?_) (.inr ⟨rfl, ?_⟩)
    · rw [List.count_append, List.count_singleton, if_neg (by simpa using hj.symm), Nat.add_zero,
        owes]
    · rw [List.count_append, List.count_singleton_self]
      omega
    · have hclosed := h.closings
      rw [hopen, if_neg (by decide)] at hclosed
      exact absurd (List.length_eq_zero_iff.mp (by omega)) hclosings
    · rw [hopen]
      decide
  · refine h.create c.outTokens (c.jobs ++ [.error c.tokenCnt]) c.outQueue
      (fun j hj => ?_) ?_ ?_ (fun job hjob => ?_) h.woundUp (.inl ⟨rfl, rfl⟩)
    · rw [List.count_append, List.count_singleton, if_neg (by simpa using hj.symm), Nat.add_zero,
        owes]
    · rw [List.count_append, List.count_singleton_self]
      omega
    · rw [List.countP_append]
      rfl
    · exact (List.mem_append.mp hjob).imp_right fun hjob => ⟨List.mem_singleton.mp hjob, rfl⟩

theorem Inv.cancel (h : c.Inv) (id : ℕ) : (c.cancel id).Inv := by
  rw [Channel.cancel]
  split
  · exact h
  · rename_i cmd hcmd
    split_ifs with hrefuses hmem
    · exact h
    · obtain ⟨-, -, hsent⟩ : c.state = .opened ∧ cmd.isAccepted = true ∧ cmd.isSent = false := by
        simpa [not_or] using hrefuses
      obtain ⟨htokens, hjobs, hzero⟩ : c.outTokens.count id = 1 ∧ c.jobs.count (.error id) = 0 ∧
          cmd.outcomes = 0 := by
        have howed := h.owed id cmd hcmd
        have hpos := List.count_pos_iff.mpr hmem
        rw [owes] at howed
        omega
      have hnone : ∀ y ∈ cmd.log, y.isFinal = false := by
        simpa [Command.outcomes, List.countP_eq_zero] using hzero
      have hone : (cmd.log ++ [Happening.canceled]).countP Happening.isFinal = 1 := by
        rw [List.countP_append, show cmd.log.countP Happening.isFinal = 0 from hzero]
        rfl
      refine h.settle (c.outTokens.erase id) c.jobs hcmd (fun j hj => ?_) ?_ rfl
        (fun _ hjob => hjob) (fun hclosings => ?_) ⟨fun _ => ?_, ?_, fun hsent' => ?_⟩ ?_ rfl rfl
        (fun hcan => nomatch hcan)
      · rw [List.count_erase_of_ne hj, owes]
      · rw [List.count_erase_self, htokens, hjobs, Command.outcomes, hone]
      · rw [h.woundUp hclosings] at hmem
        cases hmem
      · rw [Command.outcomes, hone]
        exact Nat.one_pos
      · rw [List.dropLast_concat]
        exact hnone
      · exact absurd (hsent.symm.trans hsent') (by decide)
      · intro y hy
        rcases List.mem_append.mp hy with hy | hy
        · exact (h.explained id cmd hcmd y hy).mono (fun hs => hs)
            (fun ha => ha) fun _ => rfl
        · obtain rfl := List.mem_singleton.mp hy
          rfl
    · obtain ⟨-, -, hsent⟩ : c.state = .opened ∧ cmd.isAccepted = true ∧ cmd.isSent = false := by
        simpa [not_or] using hrefuses
      have hcons := h.consistent id cmd hcmd
      refine h.settle c.outTokens c.jobs hcmd (fun _ _ => rfl)
        (h.owed id cmd hcmd) rfl (fun _ hjob => hjob) h.woundUp
        ⟨hcons.done, hcons.last, fun hsent' => ?_⟩ (fun y hy => ?_) rfl rfl
        (fun hcan => nomatch hcan)
      · exact absurd (hsent.symm.trans hsent') (by decide)
      · exact (h.explained id cmd hcmd y hy).mono (fun hs => hs)
          (fun ha => ha) fun _ => rfl

/-- Fields that the invariant does not speak of. -/
theorem Inv.levels (h : c.Inv) (zeroCopy isWriting isReading : Bool) (remoteCongestionLevel
    localCongestionLevel localCongestionTime : ℤ) (localCongestionCnt : ℕ) :
    { c with zeroCopy, isWriting, isReading, remoteCongestionLevel, localCongestionLevel,
             localCongestionTime, localCongestionCnt : Channel }.Inv :=
  ⟨h.known, h.owed, h.unknown, h.consistent, h.explained, h.refused, h.closings, h.woundUp, h.order,
    h.queued, h.sent, h.kept, h.dropped, h.errors⟩

theorem mem_command {l : List Entry} :
    .command id ∈ l ↔ id ∈ l.filterMap Entry.command? := by
  rw [List.mem_filterMap]
  constructor
  · exact fun hmem => ⟨_, hmem, rfl⟩
  · rintro ⟨e, he, hid⟩
    cases e <;> cases hid
    exact he

/-- Messages come into the queue and go out of it, and no commands. -/
theorem Inv.requeue (h : c.Inv) (outQueue : List Entry)
    (hqueue : outQueue.filterMap Entry.command? = c.outQueue.filterMap Entry.command?)
    (hdropped : c.state = .closed → ∀ e ∈ outQueue, e = .stop) :
    ({ c with outQueue } : Channel).Inv := by
  have hentries : (c.written ++ outQueue).filterMap Entry.command? =
      c.entries.filterMap Entry.command? := by
    rw [List.filterMap_append, hqueue, entries, List.filterMap_append]
  refine ⟨h.known, h.owed, h.unknown, h.consistent, h.explained, h.refused, h.closings, h.woundUp,
    ?_, fun j hj => ?_, h.sent, fun hopen j cmd hj hacc hcan => ?_, hdropped, h.errors⟩
  · exact hentries ▸ h.order
  · rw [entries, mem_command, hentries, ← mem_command] at hj
    exact h.queued j hj
  · rw [entries, mem_command, hentries, ← mem_command]
    exact h.kept hopen j cmd hj hacc hcan

theorem Inv.addMessage (h : c.Inv) (hopen : c.state ≠ .closed) (msg : Message) :
    (c.addToOutQueue (.message msg)).Inv :=
  h.requeue _ (by rw [List.filterMap_append]; exact List.append_nil _) fun hclosed =>
    absurd hclosed hopen

theorem Inv.sendReply (h : c.Inv) (type : Char) (token : String) (data : Option (List UInt8)) :
    (c.sendReply type token data).Inv := by
  rw [Channel.sendReply]
  split_ifs with hopen
  · exact h.addMessage (by rw [hopen]; decide) _
  · exact h

theorem Inv.sendEvent (h : c.Inv) (service name : String) (args : Option (List UInt8)) :
    (c.sendEvent service name args).Inv := by
  rw [Channel.sendEvent]
  split_ifs with hopen
  · refine h.addMessage ?_ _
    rcases hopen with hopen | ⟨hopen, -⟩ <;> rw [hopen] <;> decide
  · exact h

/-- What is not sent when the channel is closed is not sent any more. -/
theorem Inv.shut (h : c.Inv) (error : Bool) : (c.shut error).Inv := by
  rw [Channel.shut]
  split_ifs with hclosed
  · exact h
  have hsub : ∀ j, .command j ∈ c.written ++ [Entry.stop] → .command j ∈ c.written := by
    simp
  refine ⟨h.known, fun j cmd hj => ?_, fun j hj => ?_, h.consistent, fun j cmd hj y hy => ?_,
    h.refused, ?_, h.woundUp, ?_, fun j hj => ?_, h.sent, fun hopen => absurd rfl hopen, ?_,
    fun j hj => h.errors j ?_⟩
  · rw [← h.owed j cmd hj, owes, owes]
    simp [invokeLater, List.count_append]
  · rw [← h.unknown j hj, owes, owes]
    simp [invokeLater, List.count_append]
  · exact (h.explained j cmd hj y hy).mono (fun _ => rfl) (fun ha => ha)
      fun hc => hc
  · have hcount := h.closings
    rw [if_neg hclosed] at hcount
    simp only [invokeLater, List.countP_append, if_pos]
    rw [show ([Job.closed error]).countP Job.isClosed = 1 from rfl]
    omega
  · have horder := h.order
    rw [entries, List.filterMap_append] at horder
    show ((c.written ++ [Entry.stop]).filterMap Entry.command?).Pairwise _
    rw [List.filterMap_append, show [Entry.stop].filterMap Entry.command? = [] from rfl,
      List.append_nil]
    exact (List.pairwise_append.mp horder).1
  · exact h.queued j (List.mem_append_left _ (hsub j hj))
  · exact fun _ e he => List.mem_singleton.mp he
  · simpa [invokeLater] using hj

theorem Inv.perform (h : c.Inv) (act : Act) : (c.perform act).Inv := by
  cases act with
  | command service name args => exact h.sendCommand service name args
  | cancel id => exact h.cancel id
  | close => exact h.shut false
  | terminate => exact h.shut true
  | reply type token data => exact h.sendReply type token data
  | event service name args => exact h.sendEvent service name args
  | token =>
    exact ⟨fun j cmd hj => (h.known j cmd hj).trans (Nat.lt_succ_self _), h.owed, h.unknown,
      h.consistent, h.explained, h.refused, h.closings, h.woundUp, h.order, h.queued, h.sent,
      h.kept, h.dropped, h.errors⟩

theorem Inv.performAll (acts : List Act) : ∀ {c : Channel}, c.Inv → (c.performAll acts).Inv := by
  induction acts with
  | nil => exact fun h => h
  | cons act acts ih => exact fun h => ih (h.perform act)

/-! ### Input -/

theorem filterMap_putLevel (data : Option (List UInt8)) (queue : List Entry) :
    (putLevel data queue).filterMap Entry.command? = queue.filterMap Entry.command? := by
  rw [putLevel.eq_def]
  split
  · split_ifs <;> rfl
  · rfl

theorem Inv.sendCongestionLevel (h : c.Inv) (r : Reaction) : (c.sendCongestionLevel r).Inv := by
  rw [Channel.sendCongestionLevel]
  dsimp only
  split_ifs with hcnt hstate
  · exact h.levels _ _ _ _ _ _ _
  · exact h.levels _ _ _ _ _ _ _
  · exact h.levels _ _ _ _ _ _ _
  · exact h.levels _ _ _ _ _ _ _
  all_goals
    refine (h.requeue _ (filterMap_putLevel _ _) fun hclosed => ?_).levels _ _ _ _ _ _ _
    exact absurd (hclosed.symm.trans (not_not.mp hstate)) (by decide)

/-- A job is taken that tells no command anything. -/
theorem Inv.pop (h : c.Inv) {job : Job} {jobs : List Job} (hjobs : c.jobs = job :: jobs)
    (herror : ∀ j, job ≠ .error j) (hclosed : job.isClosed = false) :
    ({ c with jobs } : Channel).Inv := by
  have howes : ∀ j, ({ c with jobs } : Channel).owes j = c.owes j := fun j => by
    rw [owes, owes, hjobs, List.count_cons_of_ne (herror j)]
  have hmem : ∀ {j}, j ∈ jobs → j ∈ c.jobs := fun hj => hjobs ▸ List.mem_cons_of_mem _ hj
  refine ⟨h.known, fun j cmd hj => ?_, fun j hj => ?_, h.consistent, h.explained, h.refused, ?_,
    h.woundUp, h.order, h.queued, h.sent, h.kept, h.dropped, fun j hj => h.errors j (hmem hj)⟩
  · rw [howes]
    exact h.owed j cmd hj
  · rw [howes]
    exact h.unknown j hj
  · rw [← h.closings, hjobs, List.countP_cons_of_neg (by simp [hclosed])]

/-- A job is left that tells no command anything. -/
theorem Inv.invokeLater (h : c.Inv) {job : Job} (herror : ∀ j, job ≠ .error j)
    (hclosed : job.isClosed = false) : (c.invokeLater job).Inv := by
  have howes : ∀ j, (c.invokeLater job).owes j = c.owes j := fun j => by
    rw [owes, owes, Channel.invokeLater, List.count_append,
      List.count_singleton, if_neg (by simpa using herror j), Nat.add_zero]
  have hmem : ∀ {j}, j ∈ c.jobs ++ [job] → j ∈ c.jobs ∨ j = job := fun hj =>
    (List.mem_append.mp hj).imp_right List.mem_singleton.mp
  refine ⟨h.known, fun j cmd hj => ?_, fun j hj => ?_, h.consistent, h.explained, h.refused, ?_,
    h.woundUp, h.order, h.queued, h.sent, h.kept, h.dropped, fun j hj => ?_⟩
  · rw [howes]
    exact h.owed j cmd hj
  · rw [howes]
    exact h.unknown j hj
  · have hcount : (c.jobs ++ [job]).countP Job.isClosed = c.jobs.countP Job.isClosed := by
      rw [List.countP_append, List.countP_singleton, hclosed]
      rfl
    exact (congrArg (c.closings.length + ·) hcount).trans h.closings
  · exact h.errors j ((hmem hj).resolve_right fun hj => herror j hj.symm)

/-- Only commands are owed something, and they have no outcome yet. -/
theorem Inv.known_of_owes (h : c.Inv) (howes : 0 < c.owes id) :
    ∃ cmd, c.commands id = some cmd ∧ c.owes id = 1 := by
  have hknown : c.commands id ≠ none := by
    intro hnone
    rw [h.unknown id hnone] at howes
    exact absurd howes (lt_irrefl 0)
  obtain ⟨cmd, hcmd⟩ := Option.ne_none_iff_exists'.mp hknown
  have howed := h.owed id cmd hcmd
  exact ⟨cmd, hcmd, by omega⟩

/-- A token in the table stands for one command. -/
theorem Inv.waits (h : c.Inv) (hmem : id ∈ c.outTokens) :
    ∃ cmd, c.commands id = some cmd ∧ c.outTokens.count id = 1 ∧ c.jobs.count (.error id) = 0 := by
  have hpos := List.count_pos_iff.mpr hmem
  obtain ⟨cmd, hcmd, hone⟩ := h.known_of_owes (Nat.add_pos_left hpos _)
  rw [owes] at hone
  exact ⟨cmd, hcmd, by omega, by omega⟩

/-- A reply for a command that waits. -/
theorem Inv.reply (h : c.Inv) (hmem : id ∈ c.outTokens) (msg : Message) :
    ∃ c', { c with outTokens := if msg.type ≠ 'P' then c.outTokens.erase id
                                else c.outTokens }.listen id (happening msg) = (c', false) ∧
      c'.Inv := by
  obtain ⟨cmd, hcmd, hcount, hjobs⟩ := h.waits hmem
  have howes : 0 < c.owes id := by
    rw [owes]
    omega
  have hexplains : c.Explains cmd (happening msg) := by
    rw [happening]
    split_ifs <;> trivial
  split_ifs with htype
  · have hfinal : (happening msg).isFinal = true := by
      rw [happening, if_neg htype]
      split_ifs <;> rfl
    refine h.listen (c.outTokens.erase id) c.jobs hcmd howes hexplains (fun j hj => ?_) ?_ rfl
      (fun _ hjob => hjob) fun hclosings => ?_
    · rw [List.count_erase_of_ne hj, owes]
    · rw [List.count_erase_self, hcount, hjobs, hfinal]
      rfl
    · rw [h.woundUp hclosings]
      rfl
  · have hfinal : (happening msg).isFinal = false := by
      rw [happening, if_pos (not_not.mp htype)]
      rfl
    refine h.listen c.outTokens c.jobs hcmd howes hexplains
      (fun _ _ => rfl) ?_ rfl (fun _ hjob => hjob) h.woundUp
    rw [hcount, hjobs, hfinal]
    rfl

theorem Inv.handleReply (h : c.Inv) (r : Reaction) (msg : Message) : (c.handleReply r msg).Inv := by
  rw [Channel.handleReply]
  split
  · exact h.shut true
  · rename_i id hfind
    obtain ⟨c', hlisten, hinv⟩ := h.reply (List.mem_of_find?_eq_some hfind) msg
    dsimp only
    rw [hlisten]
    dsimp only
    split_ifs
    · exact hinv.performAll _
    · exact (hinv.performAll _).sendCongestionLevel r

variable {env : Environment}

/-- The channel opens. -/
theorem Inv.hello (h : c.Inv) (hopening : c.state = .opening) (zeroCopy : Bool) :
    ({ c with state := .opened, zeroCopy } : Channel).Inv := by
  have hopen : c.state ≠ .closed := by
    rw [hopening]
    decide
  have hclosings := h.closings
  rw [if_neg hopen] at hclosings
  refine ⟨h.known, h.owed, h.unknown, h.consistent, fun j cmd hj y hy => ?_, h.refused, hclosings,
    h.woundUp, h.order, h.queued, h.sent, fun _ => h.kept hopen, (nomatch ·), h.errors⟩
  exact (h.explained j cmd hj y hy).mono (fun hs => absurd hs hopen) (fun ha => ha) fun hc => hc

theorem Inv.handleHello (h : c.Inv) (r : Reaction) (data : List UInt8) :
    (c.handleHello env r data).Inv := by
  rw [Channel.handleHello]
  split
  · exact h.shut true
  dsimp only
  split_ifs with hstate
  · exact (h.levels _ _ _ _ _ _ _).shut true
  · exact (h.hello (not_not.mp hstate) _).performAll r.others

theorem Inv.handleInput (h : c.Inv) (r : Reaction) (msg : Message) :
    (c.handleInput env r msg).Inv := by
  rw [Channel.handleInput]
  split_ifs
  · exact h
  · exact h.handleReply r msg
  · exact h.shut true
  · exact h.performAll _
  · exact h.sendReply _ _ _
  · exact h.handleHello r _
  · exact (h.performAll _).sendCongestionLevel r
  · dsimp only
    split
    · exact h.shut true
    · exact h.levels _ _ _ _ _ _ _

/-! ### The job of a channel that is closed -/

/-- Another table, and jobs before the others. -/
def aside (outTokens : List ℕ) (jobs : List Job) (c : Channel) : Channel :=
  { c with outTokens, jobs := jobs ++ c.jobs }

theorem listen_aside (outTokens : List ℕ) (jobs : List Job) (c : Channel) (id : ℕ) (x : Happening) :
    ((aside outTokens jobs c).listen id x).1 = aside outTokens jobs (c.listen id x).1 ∧
      (c.listen id x).1.state = c.state := by
  rw [Channel.listen, Channel.listen, show (aside outTokens jobs c).commands = c.commands from rfl]
  split <;> exact ⟨rfl, rfl⟩

theorem shut_closed (hclosed : c.state = .closed) (error : Bool) : c.shut error = c :=
  if_pos hclosed

theorem perform_aside (outTokens : List ℕ) (jobs : List Job) (hclosed : c.state = .closed)
    (act : Act) :
    (aside outTokens jobs c).perform act = aside outTokens jobs (c.perform act) ∧
      (c.perform act).state = .closed := by
  have hnot : c.state ≠ .opened := by
    rw [hclosed]
    decide
  have haside : (aside outTokens jobs c).state = c.state := rfl
  cases act with
  | command service name args =>
    simp only [perform, sendCommand, haside, if_neg hnot]
    refine ⟨?_, hclosed⟩
    simp only [aside, invokeLater, setCommand, List.append_assoc]
  | cancel id =>
    simp only [perform, Channel.cancel, haside, hnot, ne_eq, not_false_eq_true, true_or, if_true,
      show (aside outTokens jobs c).commands = c.commands from rfl]
    split <;> exact ⟨rfl, hclosed⟩
  | close =>
    simp only [perform, close, shut_closed hclosed, shut_closed (haside.trans hclosed), hclosed,
      and_self]
  | terminate =>
    simp only [perform, terminate, shut_closed hclosed, shut_closed (haside.trans hclosed), hclosed,
      and_self]
  | reply type token data =>
    simp only [perform, Channel.sendReply, haside, if_neg hnot]
    exact ⟨trivial, hclosed⟩
  | event service name args =>
    have hsilent : ¬ (c.state = .opened ∨ c.state = .opening ∧ service = locatorName) := by
      simp [hclosed]
    simp only [perform, Channel.sendEvent, haside, if_neg hsilent]
    exact ⟨trivial, hclosed⟩
  | token => exact ⟨rfl, hclosed⟩

theorem performAll_aside (outTokens : List ℕ) (jobs : List Job) (acts : List Act) :
    ∀ {c : Channel}, c.state = .closed →
      (aside outTokens jobs c).performAll acts = aside outTokens jobs (c.performAll acts) ∧
        (c.performAll acts).state = .closed := by
  induction acts with
  | nil => exact fun hclosed => ⟨rfl, hclosed⟩
  | cons act acts ih =>
    intro c hclosed
    obtain ⟨haside, hstate⟩ := perform_aside outTokens jobs hclosed act
    rw [performAll, List.foldl_cons, haside]
    exact ih hstate

theorem Inv.closed_of_job (h : c.Inv) {error : Bool} {jobs : List Job}
    (hjobs : c.jobs = .closed error :: jobs) : c.state = .closed := by
  by_contra hopen
  have hclosings := h.closings
  rw [hjobs, if_neg hopen, List.countP_cons_of_pos rfl] at hclosings
  omega

theorem aside_jobs {error : Bool} {jobs : List Job} (hjobs : c.jobs = .closed error :: jobs) :
    aside c.outTokens [.closed error] { c with jobs } = c := by
  show { c with jobs := .closed error :: jobs } = c
  rw [← hjobs]

/-- The commands that are left are aborted one after the other. The table is emptied in the end, so
    the invariant speaks of the part of it that is still to come. -/
theorem Inv.abort (r : Reaction) (error : Bool) {P : Channel → Prop}
    (hlistens : ∀ c id, P c → P (c.listen id (.terminated .aborted)).1)
    (hacts : ∀ {c ids} acts, c.state = .closed → (aside ids [.closed error] c).Inv → P c →
      P (c.performAll acts)) (ids : List ℕ) :
    ∀ {c : Channel}, c.state = .closed → (aside ids [.closed error] c).Inv → P c →
      (aside [] [.closed error] (c.abort r ids)).Inv ∧ P (c.abort r ids) := by
  induction ids with
  | nil => exact fun _ h hP => ⟨h, hP⟩
  | cons id ids ih =>
    intro c hclosed h hP
    obtain ⟨cmd, hcmd, hcount, hjobs⟩ := h.waits (List.mem_cons_self (a := id))
    have hcount' : ids.count id = 0 := by
      rw [show (aside (id :: ids) [.closed error] c).outTokens = id :: ids from rfl,
        List.count_cons_self] at hcount
      omega
    obtain ⟨c', hlisten, hinv⟩ := h.listen (x := .terminated .aborted) ids
      (aside (id :: ids) [.closed error] c).jobs hcmd
      (by rw [owes]; omega) hclosed
      (fun j hj => by
        rw [owes, show (aside (id :: ids) [.closed error] c).outTokens = id :: ids from rfl,
          List.count_cons_of_ne hj.symm])
      (by rw [hcount', hjobs]; rfl) rfl (fun _ hjob => hjob)
      fun hclosings => nomatch h.woundUp hclosings
    obtain ⟨haside, hstate⟩ := listen_aside ids [.closed error] c id (.terminated .aborted)
    have hc' : c' = aside ids [.closed error] (c.listen id (.terminated .aborted)).1 := by
      rw [← haside]
      exact (congrArg Prod.fst hlisten).symm
    have hclosed' := hstate.trans hclosed
    obtain ⟨hperform, hstate'⟩ :=
      performAll_aside ids [.closed error] (r.command id) hclosed'
    rw [hc'] at hinv
    exact ih hstate' (hperform ▸ hinv.performAll (r.command id))
      (hacts (r.command id) hclosed' hinv (hlistens c id hP))

/-- The listeners of the channel are told next. -/
theorem Inv.wound {error : Bool} (h : (aside [] [.closed error] c).Inv) :
    ({ c with outTokens := [], closings := c.closings ++ [error] } : Channel).Inv := by
  have howes : ∀ j, ({ c with outTokens := [], closings := c.closings ++ [error] } : Channel).owes
      j = (aside [] [.closed error] c).owes j := fun j => by
    rw [owes, owes, show (aside [] [.closed error] c).jobs = .closed error :: c.jobs from rfl,
      List.count_cons_of_ne (by simp)]
    rfl
  refine ⟨h.known, fun j cmd hj => ?_, fun j hj => ?_, h.consistent, h.explained, h.refused, ?_,
    fun _ => rfl, h.order, h.queued, h.sent, h.kept, h.dropped,
    fun j hj => h.errors j (List.mem_cons_of_mem _ hj)⟩
  · rw [howes]
    exact h.owed j cmd hj
  · rw [howes]
    exact h.unknown j hj
  · have hclosings := h.closings
    rw [show (aside [] [.closed error] c).jobs = .closed error :: c.jobs from rfl,
      List.countP_cons_of_pos rfl] at hclosings
    refine Eq.trans ?_ hclosings
    show (c.closings ++ [error]).length + c.jobs.countP Job.isClosed =
      c.closings.length + (c.jobs.countP Job.isClosed + 1)
    rw [List.length_append, List.length_singleton]
    omega

theorem Inv.windUp (h : c.Inv) (r : Reaction) {error : Bool} {jobs : List Job}
    (hjobs : c.jobs = .closed error :: jobs) : ({ c with jobs }.windUp r error).Inv := by
  have habort := Inv.abort r error (P := fun _ => True) (fun _ _ _ => trivial)
    (fun _ _ _ _ => trivial) c.outTokens (c := { c with jobs }) (h.closed_of_job hjobs)
    ((aside_jobs hjobs).symm ▸ h) trivial
  exact habort.1.wound.performAll r.others

/-- A command that was refused is told so. -/
theorem Inv.error (h : c.Inv) {jobs : List Job} (hjobs : c.jobs = .error id :: jobs) :
    ∃ c', { c with jobs }.listen id (.terminated .refused) = (c', false) ∧ c'.Inv := by
  have hcount : c.owes id = c.outTokens.count id + (jobs.count (.error id) + 1) := by
    rw [owes, hjobs, List.count_cons_self]
  obtain ⟨cmd, hcmd, hone⟩ := h.known_of_owes (hcount.symm ▸ Nat.succ_pos _ : 0 < c.owes id)
  refine h.listen (x := .terminated .refused) c.outTokens jobs hcmd (by omega)
    (h.errors id (hjobs ▸ List.mem_cons_self) cmd hcmd) (fun j hj => ?_) ?_ ?_
    (fun job hjob => hjobs ▸ List.mem_cons_of_mem _ hjob) h.woundUp
  · rw [owes, hjobs, List.count_cons_of_ne (by simpa using hj.symm)]
  · rw [show (Happening.terminated .refused).isFinal = true from rfl, if_pos rfl]
    omega
  · rw [hjobs, List.countP_cons_of_neg (by simp [Job.isClosed])]

theorem Inv.runJob (h : c.Inv) (r : Reaction) {job : Job} {jobs : List Job}
    (hjobs : c.jobs = job :: jobs) : ({ c with jobs }.runJob env r job).Inv := by
  cases job with
  | error id =>
    obtain ⟨c', hlisten, hinv⟩ := h.error hjobs
    rw [Channel.runJob, hlisten]
    exact hinv.performAll _
  | handleInput msg =>
    exact (h.pop hjobs (fun _ => Job.noConfusion) rfl).handleInput r msg
  | handleEOS report =>
    rw [Channel.runJob]
    split_ifs <;> exact (h.pop hjobs (fun _ => Job.noConfusion) rfl).shut _
  | terminate => exact (h.pop hjobs (fun _ => Job.noConfusion) rfl).shut true
  | closed error => exact h.windUp r hjobs

/-! ### The transmitter -/

/-- A command is taken from the queue, and it is written or it is cancelled. -/
theorem Inv.take (h : c.Inv) {outQueue : List Entry} (hqueue : c.outQueue = .command id :: outQueue)
    (hcmd : c.commands id = some cmd) :
    if cmd.isCanceled then ({ c with outQueue } : Channel).Inv
    else ({ c with outQueue, written := c.written ++ [Entry.command id] }.setCommand id
      { cmd with isSent := true }).Inv := by
  have hentries : c.entries = c.written ++ .command id :: outQueue := by rw [entries, hqueue]
  have hopen : c.state ≠ .closed := fun hclosed =>
    nomatch h.dropped hclosed (.command id) (hqueue ▸ List.mem_cons_self)
  split_ifs with hcanceled
  · have hsub : (c.written ++ outQueue).Sublist c.entries := by
      rw [hentries]
      exact List.Sublist.append_left (List.sublist_cons_self _ _) _
    refine ⟨h.known, h.owed, h.unknown, h.consistent, h.explained, h.refused, h.closings, h.woundUp,
      h.order.sublist (hsub.filterMap _), fun j hj => h.queued j (hsub.subset hj), h.sent,
      fun _ j cmd₁ hj hacc hcan => ?_, fun hclosed => absurd hclosed hopen, h.errors⟩
    have hkept := h.kept hopen j cmd₁ hj hacc hcan
    rw [hentries, List.mem_append, List.mem_cons] at hkept
    refine List.mem_append.mpr (hkept.imp_right fun hkept => hkept.resolve_left fun hj' => ?_)
    obtain rfl := Entry.command.inj hj'
    obtain rfl := Option.some.inj (hj.symm.trans hcmd)
    exact absurd (hcan.symm.trans hcanceled) (by decide)
  · have hentries' : c.written ++ [.command id] ++ outQueue = c.entries := by
      rw [hentries, List.append_assoc, List.singleton_append]
    constructor
    · intro j cmd₁ hj
      rcases setCommand_some hj with ⟨rfl, -⟩ | ⟨-, hj⟩
      · exact h.known j cmd hcmd
      · exact h.known j cmd₁ hj
    · intro j cmd₁ hj
      rcases setCommand_some hj with ⟨rfl, rfl⟩ | ⟨-, hj⟩
      · exact h.owed j cmd hcmd
      · exact h.owed j cmd₁ hj
    · exact fun j hj => h.unknown j (setCommand_none hj).2
    · intro j cmd₁ hj
      rcases setCommand_some hj with ⟨-, rfl⟩ | ⟨-, hj⟩
      · have hcons := h.consistent id cmd hcmd
        exact ⟨hcons.done, hcons.last, fun _ => by simpa using hcanceled⟩
      · exact h.consistent j cmd₁ hj
    · intro j cmd₁ hj
      rcases setCommand_some hj with ⟨rfl, rfl⟩ | ⟨-, hj⟩
      · intro y hy
        exact (h.explained j cmd hcmd y hy).mono (fun hs => hs)
          (fun ha => ha) fun hc => hc
      · exact h.explained j cmd₁ hj
    · exact h.refused
    · exact h.closings
    · exact h.woundUp
    · show ((c.written ++ [Entry.command id] ++ outQueue).filterMap _).Pairwise _
      rw [hentries']
      exact h.order
    · intro j hj hnot
      change _ ∈ c.written ++ [.command id] ++ outQueue at hj
      rw [hentries'] at hj
      exact h.queued j hj (setCommand_none hnot).2
    · intro j cmd₁ hj
      show _ ↔ _ ∈ c.written ++ [Entry.command id]
      rw [List.mem_append, List.mem_singleton]
      rcases setCommand_some hj with ⟨rfl, rfl⟩ | ⟨hne, hj⟩
      · exact iff_of_true rfl (.inr rfl)
      · rw [h.sent j cmd₁ hj]
        exact (or_iff_left fun hj' => hne (Entry.command.inj hj')).symm
    · intro _ j cmd₁ hj hacc hcan
      show _ ∈ c.written ++ [.command id] ++ outQueue
      rw [hentries']
      rcases setCommand_some hj with ⟨rfl, rfl⟩ | ⟨-, hj⟩
      · exact h.kept hopen j cmd hcmd hacc hcan
      · exact h.kept hopen j cmd₁ hj hacc hcan
    · exact fun hclosed => absurd hclosed hopen
    · intro j hj cmd₁ hcmd₁
      rcases setCommand_some hcmd₁ with ⟨rfl, rfl⟩ | ⟨-, hcmd₁⟩
      · exact h.errors j hj cmd hcmd
      · exact h.errors j hj cmd₁ hcmd₁

theorem Inv.transmit (h : c.Inv) {c' : Channel} (hstep : c.transmit = some c') : c'.Inv := by
  rw [Channel.transmit] at hstep
  split_ifs at hstep with hwriting
  split at hstep
  · cases hstep
  · rename_i outQueue hqueue
    obtain rfl := Option.some.inj hstep
    refine (h.requeue outQueue ?_ fun hclosed e he => ?_).levels _ _ _ _ _ _ _
    · rw [hqueue]
      rfl
    · exact h.dropped hclosed e (hqueue ▸ List.mem_cons_of_mem _ he)
  · rename_i msg outQueue hqueue
    obtain rfl := Option.some.inj hstep
    have hentries : c.written ++ [Entry.message msg] ++ outQueue = c.entries := by
      rw [entries, hqueue, List.append_assoc, List.singleton_append]
    refine ⟨h.known, h.owed, h.unknown, h.consistent, h.explained, h.refused, h.closings, h.woundUp,
      ?_, fun j hj => h.queued j ?_, fun j cmd hj => ?_, fun hopen j cmd hj hacc hcan => ?_,
      fun hclosed e he => ?_, h.errors⟩
    · show ((c.written ++ [Entry.message msg] ++ outQueue).filterMap _).Pairwise _
      rw [hentries]
      exact h.order
    · rw [← hentries]
      exact hj
    · rw [h.sent j cmd hj]
      show _ ↔ _ ∈ c.written ++ [Entry.message msg]
      simp
    · show _ ∈ c.written ++ [.message msg] ++ outQueue
      rw [hentries]
      exact h.kept hopen j cmd hj hacc hcan
    · exact h.dropped hclosed e (hqueue ▸ List.mem_cons_of_mem _ he)
  · rename_i id outQueue hqueue
    have hmem : .command id ∈ c.entries :=
      List.mem_append_right _ (hqueue ▸ List.mem_cons_self)
    obtain ⟨cmd, hcmd⟩ := Option.ne_none_iff_exists'.mp (h.queued id hmem)
    have htake := h.take hqueue hcmd
    dsimp only at hstep
    rw [hcmd] at hstep
    dsimp only at hstep
    split_ifs at hstep htake
    · obtain rfl := Option.some.inj hstep
      exact htake
    · obtain rfl := Option.some.inj hstep
      exact htake

theorem Inv.step (h : c.Inv) {event : Event} {c' : Channel} (hstep : c.step env event = some c') :
    c'.Inv := by
  cases event with
  | act act =>
    obtain rfl := Option.some.inj hstep
    exact h.perform act
  | dispatch r =>
    rw [Channel.step] at hstep
    split at hstep
    · cases hstep
    · rename_i job jobs hjobs
      obtain rfl := Option.some.inj hstep
      exact h.runJob r hjobs
  | transmit => exact h.transmit hstep
  | transmitFails =>
    obtain ⟨c₁, hc₁, rfl⟩ := Option.map_eq_some_iff.mp hstep
    exact ((h.transmit hc₁).levels c₁.zeroCopy false _ _ _ _ _).invokeLater
      (fun _ => Job.noConfusion) rfl
  | receive msg =>
    rw [Channel.step] at hstep
    split_ifs at hstep
    obtain rfl := Option.some.inj hstep
    have hreceived : ({ c with received := c.received ++ [msg] } : Channel).Inv :=
      ⟨h.known, h.owed, h.unknown, h.consistent, h.explained, h.refused, h.closings, h.woundUp,
        h.order, h.queued, h.sent, h.kept, h.dropped, h.errors⟩
    exact hreceived.invokeLater (fun _ => Job.noConfusion) rfl
  | endOfStream report =>
    rw [Channel.step] at hstep
    split_ifs at hstep
    obtain rfl := Option.some.inj hstep
    exact (h.levels c.zeroCopy c.isWriting false _ _ _ _).invokeLater
      (fun _ => Job.noConfusion) rfl
  | readFails =>
    rw [Channel.step] at hstep
    split_ifs at hstep
    obtain rfl := Option.some.inj hstep
    exact (h.levels c.zeroCopy c.isWriting false _ _ _ _).invokeLater
      (fun _ => Job.noConfusion) rfl

end Channel

end Chipscopy.Tcf
