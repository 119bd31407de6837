import Chipscopy.Lib.Decimal

/-! Printing of a trace

    A trace is a text of items between commas, with lists of items in brackets at any depth. The
    items before a list are printed, then the list by a call of its own at the next indentation;
    behind a list one comma is skipped, and the search for the next list goes on one character
    later. -/

namespace Chipscopy.Pcie

/-! ### Brackets that belong together -/

/-- What printing may raise: three kinds of `IndexError`, and a `KeyError`. -/
inductive TraceError
  | noClosing (i : ℕ)
  | noOpening (i : ℕ)
  | colorIndex
  | noLocation (start : ℕ)
  deriving DecidableEq, Repr

/-- `toret` and `pstack`. -/
structure Braces where
  toret : Py.Dict ℕ ℕ
  pstack : List ℕ
  deriving DecidableEq

/-- The loop of `find_brace` from a position. -/
def scanBraces (braces : Char × Char) : ℕ → List Char → Braces → Except TraceError Braces
  | _, [], st => .ok st
  | i, c :: s, st =>
    if c = braces.1 then scanBraces braces (i + 1) s ⟨st.toret, i :: st.pstack⟩
    else if c = braces.2 then
      match st.pstack with
      -- the message is "No matching closing parens at: " with the position
      | [] => .error (.noClosing i)
      | j :: pstack => scanBraces braces (i + 1) s ⟨st.toret.set j i, pstack⟩
    else scanBraces braces (i + 1) s st

def findBrace (s : List Char) (braces : Char × Char) : Except TraceError (Py.Dict ℕ ℕ) :=
  match scanBraces braces 0 s ⟨.empty, []⟩ with
  | .error e => .error e
  | .ok st =>
    match st.pstack with
    | [] => .ok st.toret
    -- the message is "No matching opening parens at: " with the position
    | j :: _ => .error (.noOpening j)

/-- Positions of opening brackets with those of the brackets that close them. -/
structure BraceLocations where
  toret : Py.Dict ℕ ℕ
  lt : ∀ start stop, toret.get? start = some stop → start < stop

theorem scanBraces_lt (braces : Char × Char) : ∀ (s : List Char) (i : ℕ) (st : Braces)
    {st' : Braces}, (∀ j ∈ st.pstack, j < i) → (∀ j k, st.toret.get? j = some k → j < k) →
    scanBraces braces i s st = .ok st' → ∀ j k, st'.toret.get? j = some k → j < k
  | [], _, _, _, _, hlt, h => by cases h; exact hlt
  | c :: s, i, st, st', hstack, hlt, h => by
    rw [scanBraces] at h
    have hnext : ∀ j ∈ st.pstack, j < i + 1 := fun j hj => Nat.lt_succ_of_lt (hstack j hj)
    split at h
    · exact scanBraces_lt braces s (i + 1)
        ⟨st.toret, i :: st.pstack⟩ (by simpa using hnext) hlt h
    · split at h
      · split at h
        · cases h
        · next j pstack hj =>
          rw [hj] at hstack hnext
          refine scanBraces_lt braces s (i + 1) _
            (fun k hk => hnext k (List.mem_cons_of_mem _ hk)) ?_ h
          intro k l hk
          rw [Py.Dict.get?_set] at hk
          split at hk
          · next heq =>
            obtain rfl := Option.some.inj hk
            exact heq ▸ hstack j List.mem_cons_self
          · exact hlt k l hk
      · exact scanBraces_lt braces s (i + 1) st hnext hlt h

theorem findBrace_lt {s : List Char} {braces : Char × Char} {toret : Py.Dict ℕ ℕ}
    (h : findBrace s braces = .ok toret) : ∀ start stop, toret.get? start = some stop →
      start < stop := by
  rw [findBrace] at h
  split at h
  · cases h
  · next st hscan =>
    split at h
    · cases h
      exact scanBraces_lt braces s 0 _ (by simp) (by simp) hscan
    · cases h

/-! ### Printing -/

/-- `"\t" * indent + f"[\x7bcolor\x7d]\x7bitem\x7d[/\x7bcolor\x7d]"`. -/
def line (color : String) (indent : ℕ) (item : List Char) : List Char :=
  List.replicate indent '\t' ++ '[' :: color.toList ++ ']' :: item ++ '[' :: '/' :: color.toList ++
    [']']

def colors : List String := ["green", "blue", "magenta", "yellow", "blue"]

/-- Code points of `str.isdigit` that are no decimal digits. -/
def otherDigits : List (ℕ × ℕ) :=
  [(0xb2, 0xb3), (0xb9, 0xb9), (0x1369, 0x1371), (0x19da, 0x19da), (0x2070, 0x2070),
    (0x2074, 0x2079), (0x2080, 0x2089), (0x2460, 0x2468), (0x2474, 0x247c), (0x2488, 0x2490),
    (0x24ea, 0x24ea), (0x24f5, 0x24fd), (0x24ff, 0x24ff), (0x2776, 0x277e), (0x2780, 0x2788),
    (0x278a, 0x2792), (0x10a40, 0x10a43), (0x10e60, 0x10e68), (0x11052, 0x1105a),
    (0x1f100, 0x1f10a)]

def isDigit (c : Char) : Bool :=
  (Py.decimal? c).isSome || otherDigits.any fun range => range.1 ≤ c.toNat && c.toNat ≤ range.2

/-- `s.isdigit()`. -/
def isdigit (s : List Char) : Bool := !s.isEmpty && s.all isDigit

/-- `s.strip()`. -/
def strip (s : List Char) : List Char := (s.dropWhile Py.isSpace).rdropWhile Py.isSpace

/-- The items of `s.split(",")` that are not empty. -/
def printItems (color : String) (indent : ℕ) (s : List Char) : List (List Char) :=
  ((s.splitOn ',').filter (· ≠ [])).map fun item => line color indent (strip item)

/-- `trace.find("[", start)`. -/
def findOpening (trace : List Char) (start : ℕ) : Option ℕ :=
  ((trace.drop start).idxOf? '[').map (start + ·)

theorem findOpening_eq_some {trace : List Char} {start i : ℕ}
    (h : findOpening trace start = some i) : start ≤ i ∧ i < trace.length := by
  obtain ⟨k, hk, rfl⟩ := Option.map_eq_some_iff.mp h
  obtain ⟨hlt, -⟩ := List.idxOf?_eq_some_iff.mp hk
  rw [List.length_drop] at hlt
  omega

set_option linter.unusedVariables false in
mutual

/-- What is printed, and what is raised then. -/
def printBracketed (trace : List Char) (indent : ℕ) : List (List Char) × Option TraceError :=
  match colors[indent]? with
  | none => ([], some .colorIndex)
  | some color =>
    if isdigit trace then ([line color indent trace], none)
    else match h : findBrace trace ('[', ']') with
      | .error e => ([], some e)
      | .ok toret => printLists trace indent color ⟨toret, findBrace_lt h⟩ 0 0 0
termination_by (trace.length, 1, 0)

/-- The loop, with `prev`, with `end + 1`, and with the place where the next list is looked for. -/
def printLists (trace : List Char) (indent : ℕ) (color : String) (braceLocations : BraceLocations)
    (prev next start : ℕ) : List (List Char) × Option TraceError :=
  match hstart : findOpening trace start with
  | none => (printItems color indent (trace.drop next), none)
  | some start =>
    match hstop : braceLocations.toret.get? start with
    | none => ([], some (.noLocation start))
    | some stop =>
      let items := printItems color indent (Py.segment trace prev start)
      match printBracketed (Py.segment trace (start + 1) stop) (indent + 1) with
      | (inner, some e) => (items ++ inner, some e)
      | (inner, none) =>
        let prev := stop + 1
        if prev ≥ trace.length then (items ++ inner, none)
        else
          let prev := if (trace)[prev]? = some ',' then prev + 1 else prev
          let (rest, raised) :=
            printLists trace indent color braceLocations prev (stop + 1) (prev + 1)
          (items ++ inner ++ rest, raised)
termination_by (trace.length, 0, trace.length - start)
decreasing_by
  · have hfound := findOpening_eq_some hstart
    refine Prod.Lex.left _ _ ?_
    rw [Py.length_segment]
    omega
  · have hfound := findOpening_eq_some hstart
    have hlt := braceLocations.lt _ _ hstop
    refine Prod.Lex.right _ (Prod.Lex.right _ ?_)
    split <;> omega

end

/-- `print_trace` of one text. -/
def printTrace (trace : List Char) : List (List Char) × Option TraceError := printBracketed trace 0

end Chipscopy.Pcie
