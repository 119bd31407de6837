import Chipscopy.Lib.Machine
import Chipscopy.Lib.Python

/-! Reading finished futures

    A future keeps what it was completed with, and its error is made an exception when it is read for
    the first time. For the report of a command the text is looked for in what the property `error`
    returns, and the property does the same again, until the stack of the interpreter is full. -/

namespace Chipscopy.Dm.Future

/-- Classes of futures. -/
inductive Kind
  | csFuture
  | csFutureSync
  | csFutureRequestSync
  deriving DecidableEq, Repr

/-- Entries of error reports. -/
inductive Value
  | text (s : String)
  | int (n : ℤ)
  deriving DecidableEq, Repr

abbrev Report := Py.Dict String Value

/-- Exceptions that others have made, and those that the future makes, with their argument. -/
inductive ExceptionObject (E : Type)
  | given (e : E)
  | made (id : ℕ) (arg : Option Value)
  deriving DecidableEq, Repr

/-- What a future may have as its error. -/
inductive ErrorValue (E : Type)
  | str (s : String)
  | report (r : Report)
  | exception (x : ExceptionObject E)

/-- `bool(error)`. -/
def ErrorValue.truthy {E : Type} : ErrorValue E → Bool
  | .str s => s ≠ ""
  | .report r => !r.entries.isEmpty
  | .exception _ => true

/-- The attributes of a future. The last two are for statements only: how often the final callback
    ran, how many exceptions were made. -/
structure CsFuture (R P E : Type) where
  kind : Kind
  isDone : Bool
  error : Option (ErrorValue E)
  result : R
  progressStatus : P
  final : Bool
  cond : Bool
  finals : ℕ
  made : ℕ

/-- What a read may raise. -/
inductive Raised (E : Type)
  | exception (x : ExceptionObject E)
  | recursionError
  | attributeError
  | typeError
  | notDone
  | timedOut

/-- What a read returns. -/
inductive Returned (R P E : Type)
  | result (r : R)
  | progress (p : P)
  | error (e : Option (ErrorValue E))
  | waited

section Code

variable {R P E α β : Type}

/-- The outcome of a call and the future after it. -/
abbrev Reading (R P E α : Type) := Except (Raised E) α × CsFuture R P E

def andThen (x : Reading R P E α) (next : α → CsFuture R P E → Reading R P E β) :
    Reading R P E β :=
  match x with
  | (.ok a, f) => next a f
  | (.error e, f) => (.error e, f)

namespace CsFuture

/-- `self._error = Exception(arg)`. -/
def makeException (f : CsFuture R P E) (arg : Option Value) : CsFuture R P E where
  kind := f.kind
  isDone := f.isDone
  error := some (.exception (.made f.made arg))
  result := f.result
  progressStatus := f.progressStatus
  final := f.final
  cond := f.cond
  finals := f.finals
  made := f.made + 1

/-- `_finalize` in the thread of the user. -/
def finalize (f : CsFuture R P E) : CsFuture R P E where
  kind := f.kind
  isDone := f.isDone
  error := f.error
  result := f.result
  progressStatus := f.progressStatus
  final := false
  cond := f.cond
  finals := if f.final then f.finals + 1 else f.finals
  made := f.made

/-- `cancel`. -/
def cancel (f : CsFuture R P E) : CsFuture R P E where
  kind := f.kind
  isDone := true
  error := some (.exception (.made f.made (some (.text "Request Cancelled"))))
  result := f.result
  progressStatus := f.progressStatus
  final := f.final
  cond := true
  finals := f.finals
  made := f.made + 1

def hasError (f : CsFuture R P E) : Bool := (f.error.map ErrorValue.truthy).getD false

/-- `wait` in the thread of the user. -/
def wait (f : CsFuture R P E) : Reading R P E Unit :=
  if !f.cond && !f.hasError then (.error .timedOut, f.cancel) else (.ok (), f.finalize)

/-- What the properties of a class do before those of the base class. -/
def arrive (f : CsFuture R P E) : Reading R P E Unit :=
  match f.kind with
  | .csFuture => (.ok (), f)
  | .csFutureSync => (.ok (), f)
  | .csFutureRequestSync => f.wait

/-- The property `error`, which calls the conversion of the error. -/
def errorWith (sanitizeError : CsFuture R P E → Reading R P E Unit) (f : CsFuture R P E) :
    Reading R P E (Option (ErrorValue E)) :=
  andThen f.arrive fun _ f =>
    if !f.isDone then (.error .notDone, f)
    else andThen (sanitizeError f) fun _ f => (.ok f.finalize.error, f.finalize)

/-- `_sanitize_error`, with the number of reads of `error` for which the stack has room. -/
def sanitizeError : ℕ → CsFuture R P E → Reading R P E Unit
  | 0 => fun f =>
    match f.error with
    | some (.str s) => (.ok (), f.makeException (some (.text s)))
    | some (.report _) => (.error .recursionError, f)
    | _ => (.ok (), f)
  | room + 1 => fun f =>
    match f.error with
    | some (.str s) => (.ok (), f.makeException (some (.text s)))
    | some (.report _) =>
      andThen (errorWith (sanitizeError room) f) fun e f =>
        match e with
        | some (.report r) => (.ok (), f.makeException (r.get? "Format"))
        | _ => (.error .attributeError, f)
    | _ => (.ok (), f)

/-- `raise self._error`. -/
def raiseError (f : CsFuture R P E) : Raised E :=
  match f.error with
  | some (.exception x) => .exception x
  | _ => .typeError

def readError (room : ℕ) (f : CsFuture R P E) : Reading R P E (Option (ErrorValue E)) :=
  errorWith (sanitizeError room) f

def readResult (room : ℕ) (f : CsFuture R P E) : Reading R P E R :=
  andThen f.arrive fun _ f =>
    if !f.isDone then (.error .notDone, f)
    else if f.hasError then andThen (sanitizeError room f) fun _ f => (.error f.raiseError, f)
    else (.ok f.finalize.result, f.finalize)

def readProgress (room : ℕ) (f : CsFuture R P E) : Reading R P E P :=
  if f.hasError then andThen (sanitizeError room f) fun _ f => (.error f.raiseError, f)
  else (.ok f.progressStatus, f)

end CsFuture

/-- What a user does with a finished future. -/
inductive Op
  | result
  | error
  | progress
  | wait
  deriving DecidableEq, Repr

/-- One read. The base class has no `wait`. -/
def read (room : ℕ) (f : CsFuture R P E) :
    Op → CsFuture R P E × Except (Raised E) (Returned R P E)
  | .result => ((f.readResult room).2, (f.readResult room).1.map .result)
  | .error => ((f.readError room).2, (f.readError room).1.map .error)
  | .progress => ((f.readProgress room).2, (f.readProgress room).1.map .progress)
  | .wait =>
    if f.kind = .csFuture then (f, .error .attributeError)
    else (f.wait.2, f.wait.1.map fun _ => .waited)

end Code

/-! ### Outcomes -/

/-- A text that is not empty, a report with its text, an exception. -/
def ErrorValue.Given {E : Type} : ErrorValue E → Prop
  | .str s => s ≠ ""
  | .report r => "Format" ∈ r.keys
  | .exception _ => True

inductive Outcome (R E : Type)
  | result (r : R)
  | error (v : ErrorValue E) (given : v.Given)

variable {R P E : Type}

/-- A future that was completed. -/
def completed (kind : Kind) (outcome : Outcome R E) (unset : R) (progress : P) (final : Bool) :
    CsFuture R P E where
  kind := kind
  isDone := true
  error := match outcome with
    | .result _ => none
    | .error v _ => some v
  result := match outcome with
    | .result r => r
    | .error _ _ => unset
  progressStatus := progress
  final := final
  cond := true
  finals := 0
  made := 0

/-- The exception of an error. -/
def ErrorValue.Carries (x : ExceptionObject E) : ErrorValue E → Prop
  | .str s => ∃ id, x = .made id (some (.text s))
  | .report r => ∃ id, x = .made id (r.get? "Format")
  | .exception x' => x = x'

/-- What a read has to tell. -/
def Answers (outcome : Outcome R E) (progress : P) (x : ExceptionObject E) :
    Op → Except (Raised E) (Returned R P E) → Prop
  | .result, told => match outcome with
    | .result r => told = .ok (.result r)
    | .error _ _ => told = .error (.exception x)
  | .error, told => match outcome with
    | .result _ => told = .ok (.error none)
    | .error _ _ => told = .ok (.error (some (.exception x)))
  | .progress, told => match outcome with
    | .result _ => told = .ok (.progress progress)
    | .error _ _ => told = .error (.exception x)
  | .wait, told => told ≠ .error .recursionError

/-- All reads tell one outcome, and the final callback does not run twice. -/
def Tells (room : ℕ) (kind : Kind) (outcome : Outcome R E) (unset : R) (progress : P) (final : Bool)
    (ops : List Op) : Prop :=
  ∃ x : ExceptionObject E, (∀ v given, outcome = .error v given → v.Carries x) ∧
    List.Forall₂ (fun op seen => Answers outcome progress x op seen.2 ∧ seen.1.finals ≤ 1) ops
      (Machine.run (read room) (completed kind outcome unset progress final) ops)

def Outcome.IsReport : Outcome R E → Prop
  | .error (.report _) _ => True
  | _ => False

/-! ### Finished futures -/

/-- The final callback has run at most once, and not at all while it is there. -/
structure Finished (progress : P) (f : CsFuture R P E) : Prop where
  isDone : f.isDone = true
  cond : f.cond = true
  progressStatus : f.progressStatus = progress
  finals : f.finals + (if f.final then 1 else 0) ≤ 1

def Succeeded (r : R) (f : CsFuture R P E) : Prop := f.error = none ∧ f.result = r

/-- The error is the exception, or a text of which the next read makes it. -/
def Failed (x : ExceptionObject E) (f : CsFuture R P E) : Prop :=
  f.error = some (.exception x) ∨
    ∃ s, s ≠ "" ∧ f.error = some (.str s) ∧ x = .made f.made (some (.text s))

def Reported (f : CsFuture R P E) : Prop := ∃ r, "Format" ∈ r.keys ∧ f.error = some (.report r)

variable {progress : P} {r : R} {x : ExceptionObject E} {f : CsFuture R P E}

theorem Finished.finals_le (h : Finished progress f) : f.finals ≤ 1 :=
  (Nat.le_add_right _ _).trans h.finals

theorem Finished.finalize (h : Finished progress f) : Finished progress f.finalize where
  isDone := h.isDone
  cond := h.cond
  progressStatus := h.progressStatus
  finals := by
    have hfinals := h.finals
    unfold CsFuture.finalize
    cases hfinal : f.final
    · simpa [hfinal] using hfinals
    · simpa [hfinal] using hfinals

theorem Finished.makeException (h : Finished progress f) (arg : Option Value) :
    Finished progress (f.makeException arg) where
  isDone := h.isDone
  cond := h.cond
  progressStatus := h.progressStatus
  finals := h.finals

theorem wait_eq (hcond : f.cond = true) : f.wait = (.ok (), f.finalize) := by
  simp [CsFuture.wait, hcond]

/-- What a class does first may run the final callback. -/
theorem arrive_spec {I : CsFuture R P E → Prop} (hfinalize : ∀ f, I f → I f.finalize)
    (hcond : f.cond = true) (hf : I f) : ∃ f', f.arrive = (.ok (), f') ∧ I f' := by
  unfold CsFuture.arrive
  cases f.kind with
  | csFuture => exact ⟨f, rfl, hf⟩
  | csFutureSync => exact ⟨f, rfl, hf⟩
  | csFutureRequestSync => exact ⟨f.finalize, wait_eq hcond, hfinalize f hf⟩

theorem read_wait (hcond : f.cond = true) (room : ℕ) :
    (read room f .wait).2 ≠ .error .recursionError ∧
      ((read room f .wait).1 = f ∨ (read room f .wait).1 = f.finalize) := by
  simp only [read]
  split_ifs with hkind
  · exact ⟨by simp, .inl rfl⟩
  · rw [wait_eq hcond]
    exact ⟨by simp [Except.map], .inr rfl⟩

/-- A finished future goes on to its result. -/
theorem readResult_eq {f' : CsFuture R P E} (harrive : f.arrive = (.ok (), f'))
    (hdone : f'.isDone = true) (room : ℕ) : f.readResult room =
      if f'.hasError then andThen (f'.sanitizeError room) fun _ f => (.error f.raiseError, f)
      else (.ok f'.finalize.result, f'.finalize) := by
  rw [CsFuture.readResult, harrive, andThen]
  simp [hdone]

theorem errorWith_eq {f' : CsFuture R P E} (harrive : f.arrive = (.ok (), f'))
    (hdone : f'.isDone = true) (sanitize : CsFuture R P E → Reading R P E Unit) :
    f.errorWith sanitize =
      andThen (sanitize f') fun _ f => (.ok f.finalize.error, f.finalize) := by
  rw [CsFuture.errorWith, harrive, andThen]
  simp [hdone]

/-! ### Results -/

section Succeeded

theorem Succeeded.finalize (h : Succeeded r f) : Succeeded r f.finalize := h

theorem Succeeded.hasError (h : Succeeded r f) : f.hasError = false := by
  simp [CsFuture.hasError, h.1]

theorem Succeeded.sanitizeError (h : Succeeded r f) (room : ℕ) :
    f.sanitizeError room = (.ok (), f) := by
  cases room with
  | zero => simp [CsFuture.sanitizeError, h.1]
  | succ room => simp [CsFuture.sanitizeError, h.1]

/-- A read of a result tells it and leaves it. -/
theorem read_succeeded (h : Finished progress f ∧ Succeeded r f) (room : ℕ)
    (x : ExceptionObject E) (op : Op) :
    Answers (.result r) progress x op (read room f op).2 ∧
      Finished progress (read room f op).1 ∧ Succeeded r (read room f op).1 := by
  have hfinalize : ∀ f : CsFuture R P E, Finished progress f ∧ Succeeded r f →
      Finished progress f.finalize ∧ Succeeded r f.finalize := fun f hf => ⟨hf.1.finalize, hf.2⟩
  obtain ⟨f', harrive, hf', hs'⟩ := arrive_spec hfinalize h.1.cond h
  cases op with
  | result =>
    simp only [read, readResult_eq harrive hf'.isDone, hs'.hasError]
    exact ⟨congrArg (Except.ok ∘ Returned.result) hs'.2, hf'.finalize, hs'⟩
  | error =>
    simp only [read, CsFuture.readError, errorWith_eq harrive hf'.isDone, hs'.sanitizeError, andThen]
    exact ⟨congrArg (Except.ok ∘ Returned.error) hs'.1, hf'.finalize, hs'⟩
  | progress =>
    simp only [read, CsFuture.readProgress, h.2.hasError]
    exact ⟨congrArg (Except.ok ∘ Returned.progress) h.1.progressStatus, h⟩
  | wait =>
    obtain ⟨htold, hstate⟩ := read_wait h.1.cond room
    refine ⟨htold, ?_⟩
    rcases hstate with hsame | hfinal
    · rw [hsame]
      exact h
    · rw [hfinal]
      exact hfinalize f h

end Succeeded

/-! ### Errors that become exceptions -/

section Failed

theorem Failed.finalize (h : Failed x f) : Failed x f.finalize := h

theorem Failed.hasError (h : Failed x f) : f.hasError = true := by
  rcases h with h | ⟨s, hs, h, -⟩
  · simp [CsFuture.hasError, h, ErrorValue.truthy]
  · simp [CsFuture.hasError, h, ErrorValue.truthy, hs]

/-- The first read makes the exception, and the later ones find it. -/
theorem Failed.sanitizeError (hf : Finished progress f) (h : Failed x f) (room : ℕ) :
    ∃ f', f.sanitizeError room = (.ok (), f') ∧ Finished progress f' ∧
      f'.error = some (.exception x) := by
  rcases h with h | ⟨s, hs, h, rfl⟩
  · refine ⟨f, ?_, hf, h⟩
    cases room with
    | zero => simp [CsFuture.sanitizeError, h]
    | succ room => simp [CsFuture.sanitizeError, h]
  · refine ⟨f.makeException (some (.text s)), ?_, hf.makeException _, rfl⟩
    cases room with
    | zero => simp [CsFuture.sanitizeError, h]
    | succ room => simp [CsFuture.sanitizeError, h]

theorem raiseError_eq (h : f.error = some (.exception x)) : f.raiseError = .exception x := by
  simp [CsFuture.raiseError, h]

theorem read_failed (h : Finished progress f ∧ Failed x f) {v : ErrorValue E} (given : v.Given)
    (room : ℕ) (op : Op) : Answers (R := R) (.error v given) progress x op (read room f op).2 ∧
      Finished progress (read room f op).1 ∧ Failed x (read room f op).1 := by
  have hfinalize : ∀ f : CsFuture R P E, Finished progress f ∧ Failed x f →
      Finished progress f.finalize ∧ Failed x f.finalize := fun f hf => ⟨hf.1.finalize, hf.2⟩
  obtain ⟨f', harrive, hf', hx'⟩ := arrive_spec hfinalize h.1.cond h
  cases op with
  | result =>
    obtain ⟨f'', hsanitize, hf'', hx''⟩ := hx'.sanitizeError hf' room
    simp only [read, readResult_eq harrive hf'.isDone, hx'.hasError, if_true, hsanitize, andThen,
      raiseError_eq hx'']
    exact ⟨rfl, hf'', .inl hx''⟩
  | error =>
    obtain ⟨f'', hsanitize, hf'', hx''⟩ := hx'.sanitizeError hf' room
    simp only [read, CsFuture.readError, errorWith_eq harrive hf'.isDone, hsanitize, andThen]
    exact ⟨congrArg (Except.ok ∘ Returned.error) hx'', hf''.finalize, .inl hx''⟩
  | progress =>
    obtain ⟨f'', hsanitize, hf'', hx''⟩ := h.2.sanitizeError h.1 room
    simp only [read, CsFuture.readProgress, h.2.hasError, if_true, hsanitize, andThen,
      raiseError_eq hx'']
    exact ⟨rfl, hf'', .inl hx''⟩
  | wait =>
    obtain ⟨htold, hstate⟩ := read_wait h.1.cond room
    refine ⟨htold, ?_⟩
    rcases hstate with hsame | hfinal
    · rw [hsame]
      exact h
    · rw [hfinal]
      exact hfinalize f h

end Failed

/-! ### Reports -/

section Reported

theorem Reported.finalize (h : Reported f) : Reported f.finalize := h

theorem Reported.hasError (h : Reported f) : f.hasError = true := by
  obtain ⟨report, hformat, herror⟩ := h
  have hne : report.entries ≠ [] := by
    intro hnil
    simp [Py.Dict.keys, hnil] at hformat
  simp [CsFuture.hasError, herror, ErrorValue.truthy, hne]

/-- Each conversion starts another one, however much room there is. -/
theorem Reported.sanitizeError (room : ℕ) : ∀ {f : CsFuture R P E}, Finished progress f →
    Reported f → (f.sanitizeError room).1 = .error .recursionError := by
  induction room with
  | zero =>
    rintro f - ⟨report, -, herror⟩
    simp [CsFuture.sanitizeError, herror]
  | succ room ih =>
    intro f hf h
    have hfinalize : ∀ f : CsFuture R P E, Finished progress f ∧ Reported f →
        Finished progress f.finalize ∧ Reported f.finalize := fun f hf => ⟨hf.1.finalize, hf.2⟩
    obtain ⟨f', harrive, hf', h'⟩ := arrive_spec hfinalize hf.cond ⟨hf, h⟩
    have hinner := ih hf' h'
    obtain ⟨report, -, herror⟩ := h
    simp only [CsFuture.sanitizeError, herror, errorWith_eq harrive hf'.isDone]
    rcases hcall : f'.sanitizeError room with ⟨told, f''⟩
    rw [hcall] at hinner
    obtain rfl : told = .error .recursionError := hinner
    rfl

/-- A read of a report that is no `wait` fills the stack. -/
theorem read_reported (h : Finished progress f ∧ Reported f) (room : ℕ) {op : Op}
    (hop : op ≠ .wait) : (read room f op).2 = .error .recursionError := by
  have hfinalize : ∀ f : CsFuture R P E, Finished progress f ∧ Reported f →
      Finished progress f.finalize ∧ Reported f.finalize := fun f hf => ⟨hf.1.finalize, hf.2⟩
  obtain ⟨f', harrive, hf', h'⟩ := arrive_spec hfinalize h.1.cond h
  cases op with
  | result =>
    have hraised := h'.sanitizeError room hf'
    simp only [read, readResult_eq harrive hf'.isDone, h'.hasError, if_true]
    rcases hcall : f'.sanitizeError room with ⟨told, f''⟩
    rw [hcall] at hraised
    obtain rfl : told = .error .recursionError := hraised
    rfl
  | error =>
    have hraised := h'.sanitizeError room hf'
    simp only [read, CsFuture.readError, errorWith_eq harrive hf'.isDone]
    rcases hcall : f'.sanitizeError room with ⟨told, f''⟩
    rw [hcall] at hraised
    obtain rfl : told = .error .recursionError := hraised
    rfl
  | progress =>
    have hraised := h.2.sanitizeError room h.1
    simp only [read, CsFuture.readProgress, h.2.hasError, if_true]
    rcases hcall : f.sanitizeError room with ⟨told, f''⟩
    rw [hcall] at hraised
    obtain rfl : told = .error .recursionError := hraised
    rfl
  | wait => exact absurd rfl hop

end Reported

/-! ### Sequences of reads -/

theorem Answers.terminates {outcome : Outcome R E} {op : Op}
    {told : Except (Raised E) (Returned R P E)} (h : Answers outcome progress x op told) :
    told ≠ .error .recursionError := by
  cases op with
  | wait => exact h
  | result =>
    cases outcome with
    | result r => simp [show told = .ok (.result r) from h]
    | error v given => simp [show told = .error (.exception x) from h]
  | error =>
    cases outcome with
    | result r => simp [show told = .ok (.error none) from h]
    | error v given => simp [show told = .ok (.error (some (.exception x))) from h]
  | progress =>
    cases outcome with
    | result r => simp [show told = .ok (.progress progress) from h]
    | error v given => simp [show told = .error (.exception x) from h]

/-- A report is not told by any read, only waited for. -/
theorem run_reported {v : ErrorValue E} (given : v.Given) (room : ℕ) (ops : List Op) :
    ∀ {f : CsFuture R P E}, Finished progress f ∧ Reported f →
      (List.Forall₂ (fun op seen => Answers (.error v given) progress x op seen.2 ∧
        seen.1.finals ≤ 1) ops (Machine.run (read room) f ops) ↔ ∀ op ∈ ops, op = .wait) := by
  induction ops with
  | nil => simp [Machine.run]
  | cons op ops ih =>
    intro f h
    rw [Machine.run, List.forall₂_cons, List.forall_mem_cons]
    by_cases hop : op = .wait
    · subst hop
      obtain ⟨htold, hstate⟩ := read_wait h.1.cond room
      have hnext : Finished progress (read room f .wait).1 ∧ Reported (read room f .wait).1 := by
        rcases hstate with hsame | hfinal
        · rw [hsame]
          exact h
        · rw [hfinal]
          exact ⟨h.1.finalize, h.2⟩
      rw [ih hnext]
      exact and_congr_left fun _ => iff_of_true ⟨htold, hnext.1.finals_le⟩ rfl
    · refine iff_of_false (fun hall => ?_) fun hall => hop hall.1
      exact hall.1.1.terminates (read_reported h room hop)

theorem finished_completed (kind : Kind) (outcome : Outcome R E) (unset : R) (progress : P)
    (final : Bool) : Finished progress (completed kind outcome unset progress final) where
  isDone := rfl
  cond := rfl
  progressStatus := rfl
  finals := by
    cases final
    · simp [completed]
    · simp [completed]

/-- However much room the stack has, the reads tell the outcome exactly if it is no report or the
    user only waits. -/
theorem tells_iff (room : ℕ) (kind : Kind) (outcome : Outcome R E) (unset : R) (progress : P)
    (final : Bool) (ops : List Op) : Tells room kind outcome unset progress final ops ↔
      (outcome.IsReport → ∀ op ∈ ops, op = .wait) := by
  have hfinished := finished_completed kind outcome unset progress final
  cases outcome with
  | result r =>
    refine iff_of_true ⟨.made 0 none, by simp, ?_⟩ (fun h => h.elim)
    refine Machine.run_forall₂ (fun f => Finished progress f ∧ Succeeded r f) (fun f op h => ?_) ops
      ⟨hfinished, rfl, rfl⟩
    obtain ⟨htold, hnext⟩ := read_succeeded h room (.made 0 none) op
    exact ⟨⟨htold, hnext.1.finals_le⟩, hnext⟩
  | error v given =>
    have hfailed : ∀ x : ExceptionObject E, v.Carries x →
        Failed x (completed kind (.error v given : Outcome R E) unset progress final) →
        Tells room kind (.error v given) unset progress final ops := by
      intro x hcarries hx
      refine ⟨x, ?_, ?_⟩
      · rintro _ _ ⟨⟩
        exact hcarries
      · refine Machine.run_forall₂ (fun f => Finished progress f ∧ Failed x f) (fun f op h => ?_) ops
          ⟨hfinished, hx⟩
        obtain ⟨htold, hnext⟩ := read_failed h given room op
        exact ⟨⟨htold, hnext.1.finals_le⟩, hnext⟩
    cases v with
    | str s =>
      refine iff_of_true (hfailed (.made 0 (some (.text s))) ⟨0, rfl⟩ ?_) (fun h => h.elim)
      exact .inr ⟨s, given, rfl, rfl⟩
    | exception x => exact iff_of_true (hfailed x rfl (.inl rfl)) (fun h => h.elim)
    | report report =>
      have hreported : Reported
          (completed kind (.error (.report report) given : Outcome R E) unset progress final) :=
        ⟨report, given, rfl⟩
      constructor
      · rintro ⟨x, -, htold⟩ -
        exact (run_reported given room ops ⟨hfinished, hreported⟩).mp htold
      · intro h
        refine ⟨.made 0 (report.get? "Format"), ?_, ?_⟩
        · rintro _ _ ⟨⟩
          exact ⟨0, rfl⟩
        · exact (run_reported given room ops ⟨hfinished, hreported⟩).mpr (h trivial)

/-- The report of a command that failed. -/
def failedCommand : Report := Py.Dict.empty.set "Format" (.text "Command failed")

theorem failedCommand_given : (ErrorValue.report failedCommand : ErrorValue ℕ).Given := by
  rw [ErrorValue.Given]
  decide

/-- No room is enough to read the error once. -/
theorem not_tells_report : ¬ ∃ room, Tells room .csFuture
    (.error (.report failedCommand) failedCommand_given : Outcome ℕ ℕ) 0 0 false [.error] := by
  rintro ⟨room, x, -, htold⟩
  have hreported : Finished 0 (completed .csFuture
      (.error (.report failedCommand) failedCommand_given : Outcome ℕ ℕ) 0 0 false) ∧
      Reported (completed .csFuture
        (.error (.report failedCommand) failedCommand_given : Outcome ℕ ℕ) 0 0 false) :=
    ⟨finished_completed _ _ _ _ _, failedCommand, failedCommand_given, rfl⟩
  have hwaits := (run_reported failedCommand_given room [.error] hreported).mp htold
  exact absurd (hwaits .error (List.mem_singleton_self _)) (by decide)

end Chipscopy.Dm.Future
