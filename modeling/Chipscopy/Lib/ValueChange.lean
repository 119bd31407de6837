import Mathlib

/-! Value change dumps

    A dump is a text of words: declarations, each closed by `$end`, and after them time stamps and
    changes of declared variables. A variable holds its value until its next change, so its value at
    a time is what the last change up to that time wrote. -/

namespace ValueChange

/-! ### Words of a text -/

def isBlank (c : Char) : Bool := c = ' ' || c = '\n' || c = '\t' || c = '\r'

/-- Words of a text after the letters `pending`, which are in reverse order. -/
def wordsFrom (pending : List Char) : List Char → List (List Char)
  | [] => if pending = [] then [] else [pending.reverse]
  | c :: cs =>
    if isBlank c then
      if pending = [] then wordsFrom [] cs else pending.reverse :: wordsFrom [] cs
    else wordsFrom (c :: pending) cs

def words (text : List Char) : List (List Char) := wordsFrom [] text

/-- One word and nothing else. -/
def Solid (w : List Char) : Prop := w ≠ [] ∧ ∀ c ∈ w, isBlank c = false

theorem wordsFrom_append_blank {b : Char} (hb : isBlank b = true) (rest : List Char) :
    ∀ (l pending : List Char),
      wordsFrom pending (l ++ b :: rest) = wordsFrom pending l ++ words rest
  | [], pending => by
    by_cases h : pending = [] <;> simp [wordsFrom, hb, h, words]
  | c :: cs, pending => by
    rw [List.cons_append, wordsFrom, wordsFrom]
    split
    · split
      · exact wordsFrom_append_blank hb rest cs []
      · rw [List.cons_append, wordsFrom_append_blank hb rest cs []]
    · exact wordsFrom_append_blank hb rest cs (c :: pending)

/-- A blank ends a word. -/
theorem words_append_blank {b : Char} (hb : isBlank b = true) (l rest : List Char) :
    words (l ++ b :: rest) = words l ++ words rest := wordsFrom_append_blank hb rest l []

theorem wordsFrom_of_solid : ∀ (w pending : List Char), (∀ c ∈ w, isBlank c = false) →
    pending ≠ [] ∨ w ≠ [] → wordsFrom pending w = [pending.reverse ++ w]
  | [], pending, _, h => by
    have hp : pending ≠ [] := h.resolve_right fun hn => hn rfl
    rw [wordsFrom, if_neg hp, List.append_nil]
  | c :: cs, pending, hw, _ => by
    obtain ⟨hc, hcs⟩ := List.forall_mem_cons.mp hw
    rw [wordsFrom, hc, if_neg Bool.false_ne_true,
      wordsFrom_of_solid cs (c :: pending) hcs (Or.inl (List.cons_ne_nil _ _)), List.reverse_cons,
      List.append_assoc, List.singleton_append]

theorem words_of_solid {w : List Char} (h : Solid w) : words w = [w] :=
  wordsFrom_of_solid w [] h.2 (Or.inr h.1)

/-- A word in front of a blank. -/
theorem words_cons {w : List Char} (h : Solid w) {b : Char} (hb : isBlank b = true)
    (rest : List Char) : words (w ++ b :: rest) = w :: words rest := by
  rw [words_append_blank hb, words_of_solid h, List.singleton_append]

/-- Every word of a text is made of letters of the text. -/
theorem mem_of_mem_wordsFrom {c : Char} : ∀ (l pending : List Char) {w : List Char},
    w ∈ wordsFrom pending l → c ∈ w → c ∈ pending ∨ c ∈ l
  | [], pending, w, hw, hc => by
    rw [wordsFrom] at hw
    split at hw
    · cases hw
    · rw [List.mem_singleton.mp hw, List.mem_reverse] at hc
      exact Or.inl hc
  | d :: ds, pending, w, hw, hc => by
    rw [wordsFrom] at hw
    split at hw
    · have htail : w ∈ wordsFrom [] ds → c ∈ pending ∨ c ∈ d :: ds := fun h =>
        Or.inr (List.mem_cons_of_mem _ ((mem_of_mem_wordsFrom ds [] h hc).resolve_left (by simp)))
      split at hw
      · exact htail hw
      · rcases List.mem_cons.mp hw with rfl | hw
        · exact Or.inl (List.mem_reverse.mp hc)
        · exact htail hw
    · rcases mem_of_mem_wordsFrom ds (d :: pending) hw hc with h | h
      · rcases List.mem_cons.mp h with rfl | h
        · exact Or.inr List.mem_cons_self
        · exact Or.inl h
      · exact Or.inr (List.mem_cons_of_mem _ h)

theorem mem_of_mem_words {c : Char} {l w : List Char} (hw : w ∈ words l) (hc : c ∈ w) : c ∈ l :=
  (mem_of_mem_wordsFrom l [] hw hc).resolve_left (by simp)

/-- A number in decimal digits. -/
def number (ds : List Char) : Option ℕ :=
  if ds ≠ [] ∧ ds.all Char.isDigit then some (Nat.ofDigitChars 10 ds 0) else none

theorem number_toDigits (n : ℕ) : number (Nat.toDigits 10 n) = some n := by
  rw [number, if_pos ⟨Nat.toDigits_ne_nil, List.all_eq_true.mpr fun c hc =>
    Nat.isDigit_of_mem_toDigits (by decide) (by decide) hc⟩, Nat.ofDigitChars_ten_toDigits]

/-! ### Reading a dump -/

structure Var where
  width : ℕ
  id : List Char
  reference : List (List Char)
  deriving DecidableEq, Repr

/-- Values are written most significant digit first. -/
inductive Event
  | time (t : ℕ)
  | change (id value : List Char)
  deriving DecidableEq, Repr

structure File where
  vars : List Var
  events : List Event
  deriving DecidableEq, Repr

/-- Where the reader stands. -/
inductive Mode
  | declarations
  | skipped
  | declaration (read : List (List Char))
  | lastDeclaration
  | changes
  | vector (value : List Char)
  | failed
  deriving DecidableEq, Repr

structure Reader where
  mode : Mode
  file : File
  deriving DecidableEq, Repr

/-- A declared variable: type, width, identifier and reference. -/
def readVar : List (List Char) → Option Var
  | _ :: width :: id :: reference => (number width).map fun n => ⟨n, id, reference⟩
  | _ => none

/-- A word among the changes. -/
def readChange (file : File) : List Char → Reader
  | '#' :: digits =>
    match number digits with
    | some t => ⟨.changes, { file with events := file.events ++ [.time t] }⟩
    | none => ⟨.failed, file⟩
  | 'b' :: value => ⟨.vector value, file⟩
  | c :: id =>
    if c = '0' ∨ c = '1' ∨ c = 'x' then
      ⟨.changes, { file with events := file.events ++ [.change id [c]] }⟩
    else ⟨.failed, file⟩
  | [] => ⟨.failed, file⟩

def readWord : Reader → List Char → Reader
  | ⟨.declarations, file⟩, w =>
    if w = "$var".toList then ⟨.declaration [], file⟩
    else if w = "$enddefinitions".toList then ⟨.lastDeclaration, file⟩
    else if w.head? = some '$' then ⟨.skipped, file⟩
    else ⟨.failed, file⟩
  | ⟨.skipped, file⟩, w => if w = "$end".toList then ⟨.declarations, file⟩ else ⟨.skipped, file⟩
  | ⟨.declaration read, file⟩, w =>
    if w = "$end".toList then
      match readVar read with
      | some v => ⟨.declarations, { file with vars := file.vars ++ [v] }⟩
      | none => ⟨.failed, file⟩
    else ⟨.declaration (read ++ [w]), file⟩
  | ⟨.lastDeclaration, file⟩, w =>
    if w = "$end".toList then ⟨.changes, file⟩ else ⟨.failed, file⟩
  | ⟨.changes, file⟩, w => readChange file w
  | ⟨.vector value, file⟩, w =>
    ⟨.changes, { file with events := file.events ++ [.change w value] }⟩
  | ⟨.failed, file⟩, _ => ⟨.failed, file⟩

/-- Reading a text further. -/
def Reader.run (r : Reader) (text : List Char) : Reader := (words text).foldl readWord r

/-- The dump of a text; nothing for a text that is no dump. -/
def read (text : List Char) : Option File :=
  let r := Reader.run ⟨.declarations, ⟨[], []⟩⟩ text
  if r.mode = .changes then some r.file else none

theorem Reader.run_append_blank {b : Char} (hb : isBlank b = true) (r : Reader)
    (l rest : List Char) : r.run (l ++ b :: rest) = (r.run l).run rest := by
  rw [run, words_append_blank hb, List.foldl_append]
  rfl

/-- Words of a skipped declaration. -/
theorem foldl_readWord_skipped (file : File) : ∀ {ws : List (List Char)}, "$end".toList ∉ ws →
    ws.foldl readWord ⟨.skipped, file⟩ = ⟨.skipped, file⟩
  | [], _ => rfl
  | w :: ws, h => by
    obtain ⟨hw, hws⟩ := not_or.mp (List.mem_cons.not.mp h)
    rw [List.foldl_cons, readWord, if_neg (Ne.symm hw)]
    exact foldl_readWord_skipped file hws

/-- Words of a variable declaration. -/
theorem foldl_readWord_declaration (file : File) : ∀ {ws : List (List Char)}
    (before : List (List Char)), "$end".toList ∉ ws →
    ws.foldl readWord ⟨.declaration before, file⟩ = ⟨.declaration (before ++ ws), file⟩
  | [], before, _ => by rw [List.append_nil]; rfl
  | w :: ws, before, h => by
    obtain ⟨hw, hws⟩ := not_or.mp (List.mem_cons.not.mp h)
    rw [List.foldl_cons, readWord, if_neg (Ne.symm hw), foldl_readWord_declaration file _ hws,
      List.append_assoc, List.singleton_append]

/-! ### Lines of a dump -/

/-- Lines that are complete. -/
def Lines (text : List Char) : Prop := text = [] ∨ ∃ l, text = l ++ ['\n']

theorem Lines.nil : Lines [] := Or.inl rfl

theorem Lines.line (l : List Char) : Lines (l ++ ['\n']) := Or.inr ⟨l, rfl⟩

theorem Lines.append {text text' : List Char} (h : Lines text) (h' : Lines text') :
    Lines (text ++ text') := by
  rcases h' with rfl | ⟨l, rfl⟩
  · rwa [List.append_nil]
  · exact Or.inr ⟨text ++ l, (List.append_assoc _ _ _).symm⟩

/-- What follows complete lines is read on its own. -/
theorem Lines.run_append {text : List Char} (h : Lines text) (r : Reader) (rest : List Char) :
    r.run (text ++ rest) = (r.run text).run rest := by
  rcases h with rfl | ⟨l, rfl⟩
  · rfl
  · rw [List.append_assoc, List.singleton_append, Reader.run_append_blank rfl,
      Reader.run_append_blank rfl]
    rfl

theorem isBlank_of_isDigit {c : Char} (h : c.isDigit = true) : isBlank c = false := by
  by_contra hblank
  simp only [isBlank, Bool.not_eq_false, Bool.or_eq_true, decide_eq_true_eq] at hblank
  rcases hblank with ((rfl | rfl) | rfl) | rfl <;> exact absurd h (by decide)

theorem solid_digits (n : ℕ) : Solid (Nat.toDigits 10 n) :=
  ⟨Nat.toDigits_ne_nil, fun _ hc =>
    isBlank_of_isDigit (Nat.isDigit_of_mem_toDigits (by decide) (by decide) hc)⟩

theorem Solid.cons {w : List Char} (h : ∀ c ∈ w, isBlank c = false) {c : Char}
    (hc : isBlank c = false) : Solid (c :: w) :=
  ⟨List.cons_ne_nil _ _, List.forall_mem_cons.mpr ⟨hc, h⟩⟩

/-- A line of one word. -/
theorem run_line {w : List Char} (h : Solid w) (r : Reader) :
    r.run (w ++ ['\n']) = readWord r w := by
  rw [Reader.run, words_cons h rfl]
  rfl

/-- A time stamp. -/
theorem run_time (file : File) (n : ℕ) :
    Reader.run ⟨.changes, file⟩ ('#' :: Nat.toDigits 10 n ++ ['\n']) =
      ⟨.changes, { file with events := file.events ++ [.time n] }⟩ := by
  have hsolid : Solid ('#' :: Nat.toDigits 10 n) := Solid.cons (solid_digits n).2 rfl
  rw [run_line hsolid]
  simp only [readWord, readChange, number_toDigits]

/-- A change of a variable of one bit. -/
theorem run_bit (file : File) {c : Char} (hc : c = '0' ∨ c = '1' ∨ c = 'x') {id : List Char}
    (hid : Solid id) : Reader.run ⟨.changes, file⟩ (c :: id ++ ['\n']) =
      ⟨.changes, { file with events := file.events ++ [.change id [c]] }⟩ := by
  rcases hc with rfl | rfl | rfl
  · exact run_line (Solid.cons hid.2 rfl) _
  · exact run_line (Solid.cons hid.2 rfl) _
  · exact run_line (Solid.cons hid.2 rfl) _

/-- A change of a vector. -/
theorem run_vector (file : File) {value : List Char} (hvalue : ∀ c ∈ value, isBlank c = false)
    {id : List Char} (hid : Solid id) :
    Reader.run ⟨.changes, file⟩ ('b' :: value ++ ' ' :: id ++ ['\n']) =
      ⟨.changes, { file with events := file.events ++ [.change id value] }⟩ := by
  have hsolid : Solid ('b' :: value) := Solid.cons hvalue rfl
  rw [List.append_assoc]
  change Reader.run _ ('b' :: value ++ ' ' :: (id ++ ['\n'])) = _
  rw [Reader.run, words_cons hsolid rfl, words_cons hid rfl]
  rfl

/-- A declaration that declares no variable. -/
theorem run_section (file : File) {name body : List Char} (hname : Solid ('$' :: name))
    (hvar : '$' :: name ≠ "$var".toList) (hlast : '$' :: name ≠ "$enddefinitions".toList)
    (hbody : "$end".toList ∉ words body) {b : Char} (hb : isBlank b = true) :
    Reader.run ⟨.declarations, file⟩ ('$' :: name ++ b :: body ++ "\n$end\n".toList) =
      ⟨.declarations, file⟩ := by
  have hwords : words ('$' :: name ++ b :: body ++ "\n$end\n".toList) =
      ('$' :: name) :: (words body ++ ["$end".toList]) := by
    rw [List.append_assoc]
    change words ('$' :: name ++ b :: (body ++ "\n$end\n".toList)) = _
    rw [words_cons hname hb]
    exact congrArg _ (words_append_blank rfl body _)
  rw [Reader.run, hwords, List.foldl_cons, readWord, if_neg hvar, if_neg hlast,
    if_pos (by rfl), List.foldl_append, foldl_readWord_skipped file hbody]
  rfl

/-- A declaration of a variable. -/
theorem run_var (file : File) (width : ℕ) {id : List Char} (hid : Solid id)
    (hend : id ≠ "$end".toList) {name : List Char} (hname : "$end".toList ∉ words name) :
    Reader.run ⟨.declarations, file⟩ ("$var reg ".toList ++ Nat.toDigits 10 width ++ ' ' :: id ++
        ' ' :: name ++ " $end\n".toList) =
      ⟨.declarations, { file with vars := file.vars ++ [⟨width, id, words name⟩] }⟩ := by
  have hwords : words ("$var reg ".toList ++ Nat.toDigits 10 width ++ ' ' :: id ++
      ' ' :: name ++ " $end\n".toList) =
        "$var".toList :: (["reg".toList, Nat.toDigits 10 width, id] ++ words name ++
          ["$end".toList]) := by
    have hstart : words ("$var reg ".toList ++ (Nat.toDigits 10 width ++ ' ' :: (id ++ ' ' ::
        (name ++ ' ' :: "$end\n".toList)))) = "$var".toList :: "reg".toList ::
          words (Nat.toDigits 10 width ++ ' ' :: (id ++ ' ' :: (name ++ ' ' :: "$end\n".toList))) :=
      rfl
    have hlast : words "$end\n".toList = ["$end".toList] := by decide
    rw [words_cons (solid_digits width) rfl, words_cons hid rfl, words_append_blank rfl,
      hlast] at hstart
    simpa using hstart
  have hdigits : Nat.toDigits 10 width ≠ "$end".toList := fun h => by
    have hmem : '$' ∈ Nat.toDigits 10 width := h ▸ by decide
    exact absurd (Nat.isDigit_of_mem_toDigits (by decide) (by decide) hmem) (by decide)
  have hnot : "$end".toList ∉ ["reg".toList, Nat.toDigits 10 width, id] ++ words name := by
    intro hmem
    simp only [List.cons_append, List.nil_append, List.mem_cons] at hmem
    rcases hmem with h | h | h | h
    · exact absurd h (by decide)
    · exact hdigits h.symm
    · exact hend h.symm
    · exact hname h
  rw [Reader.run, hwords, List.foldl_cons, readWord, if_pos rfl, List.foldl_append,
    foldl_readWord_declaration file [] hnot, List.nil_append, List.foldl_cons, readWord, if_pos rfl]
  simp only [List.cons_append, List.nil_append, readVar, number_toDigits, Option.map_some,
    List.foldl_nil]

/-! ### Values over time -/

/-- Times of the stamps, in order. -/
def times : List Event → List ℕ
  | [] => []
  | .time t :: es => t :: times es
  | .change _ _ :: es => times es

/-- Value after all changes. -/
def latest (id : List Char) (value : Option (List Char)) : List Event → Option (List Char)
  | [] => value
  | .time _ :: es => latest id value es
  | .change id' w :: es => latest id (if id' = id then some w else value) es

/-- Value at time `t`: the changes under a later stamp do not count. -/
def valueAt (t : ℕ) (id : List Char) (counts : Bool) (value : Option (List Char)) :
    List Event → Option (List Char)
  | [] => value
  | .time n :: es => valueAt t id (n ≤ t) value es
  | .change id' w :: es => valueAt t id counts (if counts ∧ id' = id then some w else value) es

/-- Extension of a value to a width. -/
def zeroExtend (width : ℕ) (value : List Char) : List Char :=
  List.replicate (width - value.length) '0' ++ value

/-- What a variable reads at a time; unknown before its first change. -/
def File.reading (file : File) (v : Var) (t : ℕ) : List Char :=
  match valueAt t v.id true none file.events with
  | some value => zeroExtend v.width value
  | none => List.replicate v.width 'x'

@[simp] theorem times_append : ∀ es es' : List Event, times (es ++ es') = times es ++ times es'
  | [], _ => rfl
  | .time t :: es, es' => congrArg (t :: ·) (times_append es es')
  | .change _ _ :: es, es' => times_append es es'

theorem latest_append (id : List Char) : ∀ (value : Option (List Char)) (es es' : List Event),
    latest id value (es ++ es') = latest id (latest id value es) es'
  | _, [], _ => rfl
  | value, .time _ :: es, es' => latest_append id value es es'
  | _, .change _ _ :: es, es' => latest_append id _ es es'

/-- Changes of other variables. -/
theorem latest_of_notMem {id : List Char} : ∀ {es : List Event} {value : Option (List Char)},
    (∀ w, Event.change id w ∉ es) → latest id value es = value
  | [], _, _ => rfl
  | .time t :: es, value, h => by
    rw [latest]
    exact latest_of_notMem fun w hw => h w (List.mem_cons_of_mem _ hw)
  | .change id' w' :: es, value, h => by
    have hne : id' ≠ id := fun heq => h w' (heq ▸ List.mem_cons_self)
    rw [latest, if_neg hne]
    exact latest_of_notMem fun w hw => h w (List.mem_cons_of_mem _ hw)

/-- Later stamps only: nothing counts. -/
theorem valueAt_of_lt {t : ℕ} (id : List Char) : ∀ (es : List Event) {value : Option (List Char)},
    (∀ n ∈ times es, t < n) → valueAt t id false value es = value
  | [], _, _ => rfl
  | .time n :: es, value, h => by
    obtain ⟨hn, hes⟩ := List.forall_mem_cons.mp (show ∀ m ∈ n :: times es, t < m from h)
    rw [valueAt, decide_eq_false (Nat.not_le_of_lt hn)]
    exact valueAt_of_lt id es hes
  | .change _ _ :: es, _, h => by
    rw [valueAt, if_neg (by simp)]
    exact valueAt_of_lt id es h

/-- The stamps up to `t` come first, then later ones: the value is what the first part wrote. -/
theorem valueAt_append {t : ℕ} (id : List Char) {es' : List Event}
    (hlater : ∀ n ∈ times es', t < n) (hstart : ∀ id w es'', es' ≠ .change id w :: es'') :
    ∀ (es : List Event) {value : Option (List Char)}, (∀ n ∈ times es, n ≤ t) →
      valueAt t id true value (es ++ es') = latest id value es
  | [], value, _ => by
    cases es' with
    | nil => rfl
    | cons e es' =>
      cases e with
      | time n =>
        obtain ⟨hn, hes⟩ := List.forall_mem_cons.mp (show ∀ m ∈ n :: times es', t < m from hlater)
        rw [List.nil_append, valueAt, decide_eq_false (Nat.not_le_of_lt hn)]
        exact valueAt_of_lt id es' hes
      | change id' w => exact absurd rfl (hstart id' w es')
  | .time n :: es, value, h => by
    obtain ⟨hn, hes⟩ := List.forall_mem_cons.mp (show ∀ m ∈ n :: times es, m ≤ t from h)
    rw [List.cons_append, valueAt, decide_eq_true hn]
    exact valueAt_append id hlater hstart es hes
  | .change id' w :: es, value, h => by
    rw [List.cons_append, valueAt, latest]
    simp only [true_and]
    exact valueAt_append id hlater hstart es h

end ValueChange
