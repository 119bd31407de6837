import Chipscopy.Lib.Decimal

/-! Port maps

    A port map is a text of items, each a port with the bits of it. An item is read by a regular
    expression that is matched at its front only, so that what follows the part it knows is not
    looked at; and the bits of an item without any are looked for in the ports, which need not be
    given. -/

namespace Chipscopy.Mapping

structure ILAPort where
  bitWidth : ℕ
  deriving DecidableEq, Repr

/-- A port bit-range. -/
structure MapPortSeq where
  portIdx : ℕ
  highIdx : ℕ
  lowIdx : ℕ
  deriving DecidableEq, Repr

def MapPortSeq.str (s : MapPortSeq) : List Char :=
  let port := "port".toList ++ Nat.toDigits 10 s.portIdx
  if s.highIdx = s.lowIdx then port ++ '[' :: Nat.toDigits 10 s.highIdx ++ [']']
  else port ++ '[' :: Nat.toDigits 10 s.highIdx ++ ':' :: Nat.toDigits 10 s.lowIdx ++ [']']

def MapPortSeq.toStr (seqs : List MapPortSeq) : List Char := [' '].intercalate (seqs.map str)

/-- `str.split()`. -/
def splitSpace (s : List Char) : List (List Char) := (s.splitOnP Py.isSpace).filter (· ≠ [])

/-! ### Reading an item -/

/-- `(\[(\d+)(:(\d+))?\])?`: the two groups of digits, and what is left. -/
def matchBrackets : List Char → Option (List ℕ × Option (List ℕ)) × List Char
  | '[' :: s => match Py.digitRun s with
    | (d :: ds, ']' :: rest) => (some (d :: ds, none), rest)
    | (d :: ds, ':' :: s') => match Py.digitRun s' with
      | (e :: es, ']' :: rest) => (some (d :: ds, some (e :: es)), rest)
      | _ => (none, '[' :: s)
    | _ => (none, '[' :: s)
  | s => (none, s)

/-- Match of `_map_re` at the front of a string. -/
def mapRe (s : List Char) : Option (List ℕ × Option (List ℕ × Option (List ℕ)) × List Char) :=
  match Py.digitRun s with
  | ([], _) => none
  | (d :: ds, rest) => some (d :: ds, matchBrackets rest)

section Parse

variable (name : String) (ports : Option (List ILAPort))

/-- Start of a message about an item. -/
def itemMessage (item : List Char) : String :=
  "Probe \"" ++ name ++ "\" map item \"" ++ String.ofList item ++ "\" "

def indexMessage (item : List Char) (portIdx count : ℕ) : String :=
  itemMessage name item ++ s!"has invalid port index \"{portIdx}\" valid values are 0 to {count}."

def rangeMessage (item : List Char) : String :=
  itemMessage name item ++ "needs explict range \"[<high>:<low>]\" since port bit width is larger "
    ++ "than one."

/-- The checks of the bits. A run of digits is not negative, so that of the lower bit never fails. -/
def checkBits (item : List Char) (portIdx high low : ℕ) (portWidth : Option ℕ) :
    Except Py.Error MapPortSeq :=
  if high < low then
    .error (.valueError (itemMessage name item ++ s!"high range index \"{high}\" is less than low "
      ++ s!"bit index \"{low}\"."))
  else match portWidth with
    | none => .ok ⟨portIdx, high, low⟩
    | some width =>
      if width ≤ high then
        .error (.valueError (itemMessage name item ++ s!"high range index \"{high}\" is invalid. "
          ++ s!"Port has \"{width}\" bit(s)."))
      else .ok ⟨portIdx, high, low⟩

def stripPrefix (item : List Char) : Option (List Char) :=
  if ['p', 'o', 'r', 't'].isPrefixOf item then some (item.drop 4)
  else if ['p', 'r', 'o', 'b', 'e'].isPrefixOf item then some (item.drop 5)
  else none

/-- `_parse_map_item`. An empty list of ports counts as none. -/
def parseMapItem (item : List Char) : Except Py.Error MapPortSeq :=
  match stripPrefix item with
  | none => .error (.valueError (itemMessage name item ++ "does not start with prefix \"port\"."))
  | some s =>
    match mapRe s with
    | none => .error (.valueError (itemMessage name item ++ "has incorrect syntax."))
    | some (portStr, brackets, _) =>
      let portIdx := Py.ofDecimals portStr
      let given := ports.getD []
      if given ≠ [] ∧ given.length ≤ portIdx then
        .error (.valueError (indexMessage name item portIdx given.length))
      else
        let portWidth := (given[portIdx]?).map ILAPort.bitWidth
        match brackets, portWidth with
        | some (left, right), _ =>
          checkBits name item portIdx (Py.ofDecimals left) (Py.ofDecimals (right.getD left)) portWidth
        | none, some width =>
          if width = 1 then checkBits name item portIdx 0 0 portWidth
          else .error (.valueError (rangeMessage name item))
        | none, none =>
          .error (.typeError "'<' not supported between instances of 'NoneType' and 'int'")

def portMapStrToPortSeqs (lower : List Char → List Char) (mapStr : List Char) :
    Except Py.Error (List MapPortSeq) :=
  Py.mapExcept (parseMapItem name ports) (splitSpace (lower mapStr))

end Parse

/-! ### The documented grammar -/

/-- `port<int>`, `port<int>[<int>]` or `port<int>[<int>:<int>]`, also with the prefix `probe`: the
    text of an item with its port and bits. -/
inductive ItemText : List Char → ℕ → Option (ℕ × ℕ) → Prop
  | bare {front p : List Char} {n : ℕ} (hfront : front = "port".toList ∨ front = "probe".toList)
      (hp : Py.Numeral p n) : ItemText (front ++ p) n none
  | bit {front p i : List Char} {n b : ℕ} (hfront : front = "port".toList ∨ front = "probe".toList)
      (hp : Py.Numeral p n) (hi : Py.Numeral i b) :
      ItemText (front ++ (p ++ '[' :: (i ++ [']']))) n (some (b, b))
  | range {front p i j : List Char} {n high low : ℕ}
      (hfront : front = "port".toList ∨ front = "probe".toList) (hp : Py.Numeral p n)
      (hi : Py.Numeral i high) (hj : Py.Numeral j low) :
      ItemText (front ++ (p ++ '[' :: (i ++ ':' :: (j ++ [']'])))) n (some (high, low))

/-- An item of the grammar, its bits in order, and its indices within the port if ports are given. -/
def Documented (ports : Option (List ILAPort)) (item : List Char) : Prop :=
  ∃ n bits, ItemText item n bits ∧ (∀ b ∈ bits, b.2 ≤ b.1) ∧
    ∀ given ∈ ports, ∃ port, given[n]? = some port ∧ ∀ b ∈ bits, b.1 < port.bitWidth

/-- A port map is accepted exactly if all its items are documented, and refused by a `ValueError`. -/
def ParsesDocumented (name : String) (ports : Option (List ILAPort))
    (lower : List Char → List Char) (mapStr : List Char) : Prop :=
  ((∃ seqs, portMapStrToPortSeqs name ports lower mapStr = .ok seqs) ↔
    ∀ item ∈ splitSpace (lower mapStr), Documented ports item) ∧
  ∀ e, portMapStrToPortSeqs name ports lower mapStr = .error e → ∃ msg, e = .valueError msg

/-! ### When the code keeps to it -/

/-- Port, bits and rest of an item, as the regular expression reads it. -/
def readItem (item : List Char) : Option (ℕ × Option (ℕ × ℕ) × List Char) := do
  let s ← stripPrefix item
  let (port, brackets, rest) ← mapRe s
  return (Py.ofDecimals port,
    brackets.map fun (left, right) => (Py.ofDecimals left, Py.ofDecimals (right.getD left)), rest)

/-- No port can be read, or the port is not there, or it has more than one bit where none is named,
    or the bits are not in order or not in the port. -/
def Refused (given : List ILAPort) (item : List Char) : Prop :=
  ∀ n bits rest, readItem item = some (n, bits, rest) → (given ≠ [] ∧ given.length ≤ n) ∨
    (bits = none ∧ ∃ port, given[n]? = some port ∧ port.bitWidth ≠ 1) ∨
    ∃ b ∈ bits, b.1 < b.2 ∨ ∃ port, given[n]? = some port ∧ port.bitWidth ≤ b.1

/-- No bits are named, and no ports are given to look them up. -/
def Unresolved (given : List ILAPort) (item : List Char) : Prop :=
  given = [] ∧ ∃ n rest, readItem item = some (n, none, rest)

/-- The item is accepted. -/
def Readable (given : List ILAPort) (item : List Char) : Prop :=
  ¬ Refused given item ∧ ¬ Unresolved given item

/-- Every item is documented and accepted; or some item is not documented, and the first one that
    is not accepted is refused. -/
def KeepsGrammar (given : List ILAPort) (ports : Option (List ILAPort)) (items : List (List Char)) :
    Prop :=
  (∀ item ∈ items, Documented ports item ∧ Readable given item) ∨
    ((∃ item ∈ items, ¬ Documented ports item) ∧ ∃ before item after,
      items = before ++ item :: after ∧ (∀ i ∈ before, Readable given i) ∧ Refused given item)

/-! ### One item -/

section Item

variable {name : String} {ports : Option (List ILAPort)} {item : List Char}

/-- What the parser does with an item it can read. -/
theorem parseMapItem_eq {n : ℕ} {bits : Option (ℕ × ℕ)} {rest : List Char}
    (h : readItem item = some (n, bits, rest)) : parseMapItem name ports item =
      if ports.getD [] ≠ [] ∧ (ports.getD []).length ≤ n then
        .error (.valueError (indexMessage name item n (ports.getD []).length))
      else match bits, ((ports.getD [])[n]?).map ILAPort.bitWidth with
        | some (high, low), width => checkBits name item n high low width
        | none, some width =>
          if width = 1 then checkBits name item n 0 0 (some width)
          else .error (.valueError (rangeMessage name item))
        | none, none =>
          .error (.typeError "'<' not supported between instances of 'NoneType' and 'int'") := by
  obtain ⟨s, hs, h⟩ := Option.bind_eq_some_iff.mp h
  obtain ⟨⟨port, brackets, rest'⟩, hre, h⟩ := Option.bind_eq_some_iff.mp h
  cases h
  simp only [parseMapItem, hs, hre]
  refine if_congr Iff.rfl rfl ?_
  rcases brackets with _ | ⟨left, right⟩
  · rcases ((ports.getD [])[Py.ofDecimals port]?).map ILAPort.bitWidth with _ | width
    · rfl
    · rfl
  · rfl

theorem checkBits_ok {n high low : ℕ} {width : Option ℕ} (hle : low ≤ high)
    (hin : ∀ w ∈ width, high < w) : checkBits name item n high low width = .ok ⟨n, high, low⟩ := by
  rcases width with _ | w
  · rw [checkBits, if_neg (not_lt.mpr hle)]
  · rw [checkBits, if_neg (not_lt.mpr hle), if_neg (not_le.mpr (hin w rfl))]

theorem checkBits_error {n high low : ℕ} {width : Option ℕ}
    (h : high < low ∨ ∃ w ∈ width, w ≤ high) :
    ∃ msg, checkBits name item n high low width = .error (.valueError msg) := by
  by_cases hlt : high < low
  · rcases width with _ | w
    · exact ⟨_, if_pos hlt⟩
    · exact ⟨_, if_pos hlt⟩
  · obtain ⟨w, rfl, hw⟩ := h.resolve_left hlt
    rw [checkBits, if_neg hlt]
    exact ⟨_, if_pos hw⟩

theorem parseMapItem_unread (h : readItem item = none) :
    ∃ msg, parseMapItem name ports item = .error (.valueError msg) := by
  rcases hs : stripPrefix item with _ | s
  · exact ⟨_, by rw [parseMapItem, hs]⟩
  · rcases hre : mapRe s with _ | ⟨port, brackets, rest⟩
    · refine ⟨itemMessage name item ++ "has incorrect syntax.", ?_⟩
      simp only [parseMapItem, hs, hre]
    · simp [readItem, hs, hre] at h

theorem parseMapItem_refused (h : Refused (ports.getD []) item) :
    ∃ msg, parseMapItem name ports item = .error (.valueError msg) := by
  rcases hread : readItem item with _ | ⟨n, bits, rest⟩
  · exact parseMapItem_unread hread
  · rw [parseMapItem_eq hread]
    by_cases hindex : ports.getD [] ≠ [] ∧ (ports.getD []).length ≤ n
    · exact ⟨_, if_pos hindex⟩
    · rw [if_neg hindex]
      rcases (h n bits rest hread).resolve_left hindex with ⟨rfl, port, hport, hone⟩ | ⟨b, rfl, hb⟩
      · rw [hport]
        exact ⟨_, if_neg hone⟩
      · refine checkBits_error (hb.imp_right ?_)
        rintro ⟨port, hport, hle⟩
        exact ⟨port.bitWidth, by rw [hport]; rfl, hle⟩

theorem parseMapItem_unresolved (h : Unresolved (ports.getD []) item) :
    ∃ msg, parseMapItem name ports item = .error (.typeError msg) := by
  obtain ⟨hgiven, n, rest, hread⟩ := h
  rw [parseMapItem_eq hread, hgiven, if_neg (by simp)]
  exact ⟨_, rfl⟩

/-- Bits that are named are the ones of the segment. -/
theorem parseMapItem_range {n high low : ℕ} {rest : List Char}
    (hread : readItem item = some (n, some (high, low), rest)) (hle : low ≤ high)
    (hindex : ports.getD [] ≠ [] → n < (ports.getD []).length)
    (hin : ∀ port, (ports.getD [])[n]? = some port → high < port.bitWidth) :
    parseMapItem name ports item = .ok ⟨n, high, low⟩ := by
  rw [parseMapItem_eq hread, if_neg fun h => absurd (hindex h.1) (not_lt.mpr h.2)]
  refine checkBits_ok hle fun w hw => ?_
  obtain ⟨port, hport, rfl⟩ := Option.map_eq_some_iff.mp hw
  exact hin port hport

theorem parseMapItem_readable (h : Readable (ports.getD []) item) :
    ∃ seq, parseMapItem name ports item = .ok seq := by
  obtain ⟨hrefused, hunresolved⟩ := h
  rw [Refused] at hrefused
  push Not at hrefused
  obtain ⟨n, bits, rest, hread, hindex, hbare, hbits⟩ := hrefused
  have hindex : ports.getD [] ≠ [] → n < (ports.getD []).length := hindex
  rcases bits with _ | ⟨high, low⟩
  · have hgiven : ports.getD [] ≠ [] := fun hnil => hunresolved ⟨hnil, n, rest, hread⟩
    obtain ⟨port, hport⟩ : ∃ port, (ports.getD [])[n]? = some port :=
      ⟨_, List.getElem?_eq_getElem (hindex hgiven)⟩
    rw [parseMapItem_eq hread, if_neg fun h => absurd (hindex h.1) (not_lt.mpr h.2), hport]
    have hone := hbare rfl port hport
    refine ⟨⟨n, 0, 0⟩, (if_pos hone).trans (checkBits_ok le_rfl fun w hw => ?_)⟩
    obtain rfl := Option.some.inj hw
    rw [hone]
    exact Nat.one_pos
  · obtain ⟨hle, hin⟩ := hbits (high, low) rfl
    exact ⟨_, parseMapItem_range hread hle hindex hin⟩

end Item

/-! ### The grammar and the regular expression -/

theorem noDigit_nil : Py.NoDigit [] := fun _ h => nomatch h

theorem noDigit_cons {c : Char} (h : Py.decimal? c = none) (s : List Char) :
    Py.NoDigit (c :: s) := fun _ hc => Option.some.inj hc ▸ h

theorem noDigit_open (s : List Char) : Py.NoDigit ('[' :: s) := noDigit_cons (by decide) s

theorem noDigit_close (s : List Char) : Py.NoDigit (']' :: s) := noDigit_cons (by decide) s

theorem noDigit_colon (s : List Char) : Py.NoDigit (':' :: s) := noDigit_cons (by decide) s

theorem stripPrefix_append {front : List Char}
    (h : front = "port".toList ∨ front = "probe".toList) (s : List Char) :
    stripPrefix (front ++ s) = some s := by
  rcases h with rfl | rfl <;> rfl

theorem matchBrackets_bit {i rest : List Char} {b : ℕ} (hi : Py.Numeral i b) :
    ∃ ds, matchBrackets ('[' :: (i ++ ']' :: rest)) = (some (ds, none), rest) ∧
      Py.ofDecimals ds = b := by
  obtain ⟨d, ds, hrun, hnum⟩ := hi.digitRun (noDigit_close rest)
  exact ⟨d :: ds, by simp only [matchBrackets, hrun], hnum⟩

theorem matchBrackets_range {i j rest : List Char} {high low : ℕ} (hi : Py.Numeral i high)
    (hj : Py.Numeral j low) :
    ∃ ds es, matchBrackets ('[' :: (i ++ ':' :: (j ++ ']' :: rest))) = (some (ds, some es), rest) ∧
      Py.ofDecimals ds = high ∧ Py.ofDecimals es = low := by
  obtain ⟨d, ds, hrun, hnum⟩ := hi.digitRun (noDigit_colon (j ++ ']' :: rest))
  obtain ⟨e, es, hrun', hnum'⟩ := hj.digitRun (noDigit_close rest)
  exact ⟨d :: ds, e :: es, by simp only [matchBrackets, hrun, hrun'], hnum, hnum'⟩

theorem readItem_append {front p after : List Char} {n : ℕ}
    (hfront : front = "port".toList ∨ front = "probe".toList) (hp : Py.Numeral p n)
    (hafter : Py.NoDigit after) : readItem (front ++ (p ++ after)) =
      some (n, (matchBrackets after).1.map fun (left, right) =>
        (Py.ofDecimals left, Py.ofDecimals (right.getD left)), (matchBrackets after).2) := by
  obtain ⟨d, ds, hrun, hnum⟩ := hp.digitRun hafter
  simp only [readItem, stripPrefix_append hfront, mapRe, hrun, Option.bind_eq_bind,
    Option.bind_some, hnum]
  rfl

/-- The expression reads an item of the grammar to its end. -/
theorem readItem_of_itemText {item : List Char} {n : ℕ} {bits : Option (ℕ × ℕ)}
    (h : ItemText item n bits) : readItem item = some (n, bits, []) := by
  cases h with
  | bare hfront hp =>
    have hread := readItem_append hfront hp noDigit_nil
    rwa [List.append_nil] at hread
  | bit hfront hp hi =>
    obtain ⟨ds, hmatch, rfl⟩ := @matchBrackets_bit _ [] _ hi
    rw [readItem_append hfront hp (noDigit_open _), hmatch]
    rfl
  | range hfront hp hi hj =>
    obtain ⟨ds, es, hmatch, rfl, rfl⟩ := @matchBrackets_range _ _ [] _ _ hi hj
    rw [readItem_append hfront hp (noDigit_open _), hmatch]
    rfl

/-! ### Whole texts -/

section Text

variable {α β ε : Type*} {f : α → Except ε β}

/-- The first element that fails decides. -/
theorem mapExcept_first {a : α} {e : ε} {after : List α} (ha : f a = .error e) :
    ∀ {before : List α}, (∀ a ∈ before, ∃ b, f a = .ok b) →
      Py.mapExcept f (before ++ a :: after) = .error e
  | [], _ => by rw [List.nil_append, Py.mapExcept, ha]
  | a' :: before, h => by
    obtain ⟨⟨b, hb⟩, hbefore⟩ := List.forall_mem_cons.mp h
    rw [List.cons_append, Py.mapExcept, hb]
    dsimp only
    rw [mapExcept_first ha hbefore]

theorem exists_first_of_not_forall {P : α → Prop} : ∀ {l : List α}, (¬ ∀ a ∈ l, P a) →
    ∃ before a after, l = before ++ a :: after ∧ (∀ a ∈ before, P a) ∧ ¬ P a
  | [], h => absurd (fun _ ha => absurd ha List.not_mem_nil) h
  | a :: l, h => by
    by_cases ha : P a
    · have hl : ¬ ∀ a ∈ l, P a := fun hl => h (List.forall_mem_cons.mpr ⟨ha, hl⟩)
      obtain ⟨before, a', after, rfl, hbefore, ha'⟩ := exists_first_of_not_forall hl
      exact ⟨a :: before, a', after, rfl, List.forall_mem_cons.mpr ⟨ha, hbefore⟩, ha'⟩
    · exact ⟨[], a, l, rfl, fun _ h => absurd h List.not_mem_nil, ha⟩

end Text

section Main

variable {name : String} {ports : Option (List ILAPort)} {lower : List Char → List Char}
  {mapStr : List Char}

/-- A first item that is refused makes the parser raise a `ValueError`. -/
theorem portMap_refused {item : List Char} {before after : List (List Char)}
    (hitems : splitSpace (lower mapStr) = before ++ item :: after)
    (hbefore : ∀ i ∈ before, Readable (ports.getD []) i) (hitem : Refused (ports.getD []) item) :
    ∃ msg, portMapStrToPortSeqs name ports lower mapStr = .error (.valueError msg) := by
  obtain ⟨msg, hmsg⟩ := @parseMapItem_refused name ports item hitem
  refine ⟨msg, ?_⟩
  rw [portMapStrToPortSeqs, hitems]
  exact mapExcept_first hmsg fun i hi => parseMapItem_readable (hbefore i hi)

theorem parsesDocumented_iff : ParsesDocumented name ports lower mapStr ↔
    KeepsGrammar (ports.getD []) ports (splitSpace (lower mapStr)) := by
  rw [ParsesDocumented, KeepsGrammar]
  by_cases hall : ∀ item ∈ splitSpace (lower mapStr), Readable (ports.getD []) item
  · obtain ⟨seqs, hseqs⟩ : ∃ seqs, portMapStrToPortSeqs name ports lower mapStr = .ok seqs :=
      Py.exists_mapExcept_iff.mpr fun item hitem => parseMapItem_readable (hall item hitem)
    constructor
    · rintro ⟨hiff, -⟩
      exact .inl fun item hitem => ⟨hiff.mp ⟨seqs, hseqs⟩ item hitem, hall item hitem⟩
    · rintro (hdoc | ⟨-, before, item, after, hitems, -, hrefused⟩)
      · refine ⟨iff_of_true ⟨seqs, hseqs⟩ fun item hitem => (hdoc item hitem).1, fun e he => ?_⟩
        rw [hseqs] at he
        cases he
      · exact absurd hrefused (hall item (by rw [hitems]; simp)).1
  · obtain ⟨before, item, after, hitems, hbefore, hitem⟩ := exists_first_of_not_forall hall
    by_cases hrefused : Refused (ports.getD []) item
    · obtain ⟨msg, hmsg⟩ := @portMap_refused name ports lower mapStr _ _ _ hitems hbefore hrefused
      have hnot : ¬ ∃ seqs, portMapStrToPortSeqs name ports lower mapStr = .ok seqs := by
        rintro ⟨seqs, hseqs⟩
        rw [hmsg] at hseqs
        cases hseqs
      constructor
      · rintro ⟨hiff, -⟩
        have hdoc := hiff.not.mp hnot
        push Not at hdoc
        exact .inr ⟨hdoc, before, item, after, hitems, hbefore, hrefused⟩
      · rintro (hdoc | ⟨⟨i, hi, hdoc⟩, -⟩)
        · exact absurd (fun i hi => (hdoc i hi).2) hall
        · refine ⟨iff_of_false hnot fun h => hdoc (h i hi), fun e he => ⟨msg, ?_⟩⟩
          rw [hmsg] at he
          cases he
          rfl
    · -- the first item that fails has no bits and no port to look them up
      have hunresolved : Unresolved (ports.getD []) item := by
        by_contra h
        exact hitem ⟨hrefused, h⟩
      obtain ⟨msg, hmsg⟩ : ∃ msg, portMapStrToPortSeqs name ports lower mapStr =
          .error (.typeError msg) := by
        obtain ⟨msg, hmsg⟩ := @parseMapItem_unresolved name ports item hunresolved
        refine ⟨msg, ?_⟩
        rw [portMapStrToPortSeqs, hitems]
        exact mapExcept_first hmsg fun i hi => parseMapItem_readable (hbefore i hi)
      refine iff_of_false ?_ ?_
      · rintro ⟨-, herror⟩
        obtain ⟨msg', hmsg'⟩ := herror _ hmsg
        cases hmsg'
      · rintro (hdoc | ⟨-, before', item', after', hitems', hbefore', hrefused'⟩)
        · exact hall fun i hi => (hdoc i hi).2
        · obtain ⟨msg', hmsg'⟩ :=
            @portMap_refused name ports lower mapStr _ _ _ hitems' hbefore' hrefused'
          rw [hmsg] at hmsg'
          cases hmsg'

end Main

/-! ### Writing port maps -/

/-- A character that stands for itself in an item. -/
def Plain (c : Char) : Prop := c.toLower = c ∧ c.toNat < 128 ∧ Py.isSpace c = false

instance : DecidablePred Plain := fun _ => inferInstanceAs (Decidable (_ ∧ _))

theorem plain_digitChar : ∀ d < 10, Plain (Nat.digitChar d) := by decide

theorem plain_toDigits (n : ℕ) : ∀ c ∈ Nat.toDigits 10 n, Plain c := by
  intro c hc
  obtain ⟨d, hd, rfl⟩ := Py.exists_of_mem_toDigits hc
  exact plain_digitChar d hd

theorem plain_port : ∀ c ∈ "port".toList, Plain c := by
  intro c hc
  have hc : c ∈ ['p', 'o', 'r', 't'] := hc
  simp only [List.mem_cons, List.not_mem_nil, or_false] at hc
  rcases hc with rfl | rfl | rfl | rfl <;> decide

theorem MapPortSeq.str_plain (s : MapPortSeq) : ∀ c ∈ s.str, Plain c := by
  have hopen : Plain '[' := by decide
  have hclose : Plain ']' := by decide
  have hcolon : Plain ':' := by decide
  intro c hc
  rw [str] at hc
  split at hc <;>
  · simp only [List.mem_append, List.mem_cons, List.not_mem_nil, or_false] at hc
    grind [plain_port, plain_toDigits]

theorem MapPortSeq.str_itemText (s : MapPortSeq) :
    ItemText s.str s.portIdx (some (s.highIdx, s.lowIdx)) := by
  have hport := Py.numeral_toDigits s.portIdx
  have hhigh := Py.numeral_toDigits s.highIdx
  have hlow := Py.numeral_toDigits s.lowIdx
  rw [str]
  split
  · next heq =>
    rw [← heq]
    simpa only [List.append_assoc, List.cons_append] using ItemText.bit (.inl rfl) hport hhigh
  · simpa only [List.append_assoc, List.cons_append] using
      ItemText.range (.inl rfl) hport hhigh hlow

theorem MapPortSeq.str_ne_nil (s : MapPortSeq) : s.str ≠ [] := by
  rw [str]
  split <;> simp

theorem MapPortSeq.str_notSpace (s : MapPortSeq) : ∀ c ∈ s.str, Py.isSpace c = false :=
  fun c hc => (s.str_plain c hc).2.2

theorem MapPortSeq.toStr_singleton (s : MapPortSeq) : toStr [s] = s.str := by
  simp [toStr, List.intercalate]

theorem MapPortSeq.toStr_cons_cons (s s' : MapPortSeq) (seqs : List MapPortSeq) :
    toStr (s :: s' :: seqs) = s.str ++ ' ' :: toStr (s' :: seqs) := by
  simp [toStr, List.intercalate]

theorem splitSpace_toStr : ∀ seqs : List MapPortSeq,
    splitSpace (MapPortSeq.toStr seqs) = seqs.map MapPortSeq.str
  | [] => rfl
  | [s] => by
    rw [MapPortSeq.toStr_singleton, splitSpace, List.splitOnP_eq_singleton s.str_notSpace]
    simp [s.str_ne_nil]
  | s :: s' :: seqs => by
    rw [MapPortSeq.toStr_cons_cons, splitSpace,
      List.splitOnP_append_cons_of_forall_mem s.str_notSpace ' ' (by decide),
      List.filter_cons_of_pos (by simp [s.str_ne_nil]), ← splitSpace, splitSpace_toStr (s' :: seqs)]
    rfl

theorem MapPortSeq.toStr_chars : ∀ seqs : List MapPortSeq,
    ∀ c ∈ toStr seqs, c.toLower = c ∧ c.toNat < 128
  | [], _, hc => absurd hc List.not_mem_nil
  | [s], c, hc => by
    rw [toStr_singleton] at hc
    obtain ⟨hlower, hascii, -⟩ := s.str_plain c hc
    exact ⟨hlower, hascii⟩
  | s :: s' :: seqs, c, hc => by
    rw [toStr_cons_cons] at hc
    rcases List.mem_append.mp hc with hc | hc
    · obtain ⟨hlower, hascii, -⟩ := s.str_plain c hc
      exact ⟨hlower, hascii⟩
    · rcases List.mem_cons.mp hc with rfl | hc
      · decide
      · exact toStr_chars (s' :: seqs) c hc

/-- A segment that is in the ports, if there are any. -/
def Inside (given : List ILAPort) (seq : MapPortSeq) : Prop :=
  given ≠ [] → ∃ port, given[seq.portIdx]? = some port ∧ seq.highIdx < port.bitWidth

theorem parseMapItem_str {name : String} {ports : Option (List ILAPort)} {seq : MapPortSeq}
    (hle : seq.lowIdx ≤ seq.highIdx) (hin : Inside (ports.getD []) seq) :
    parseMapItem name ports seq.str = .ok seq := by
  refine parseMapItem_range (readItem_of_itemText seq.str_itemText) hle (fun hne => ?_) ?_
  · obtain ⟨port, hport, -⟩ := hin hne
    exact (List.getElem?_eq_some_iff.mp hport).1
  · intro port hport
    obtain ⟨port', hport', hlt⟩ := hin fun hnil => by simp [hnil] at hport
    rw [hport] at hport'
    exact Option.some.inj hport' ▸ hlt

/-- What is written is read back. -/
theorem portMap_toStr {name : String} {ports : Option (List ILAPort)}
    {lower : List Char → List Char}
    (hlower : ∀ s : List Char, (∀ c ∈ s, c.toNat < 128) → lower s = s.map Char.toLower)
    {seqs : List MapPortSeq} (hle : ∀ seq ∈ seqs, seq.lowIdx ≤ seq.highIdx)
    (hin : ∀ seq ∈ seqs, Inside (ports.getD []) seq) :
    portMapStrToPortSeqs name ports lower (MapPortSeq.toStr seqs) = .ok seqs := by
  have hsame : lower (MapPortSeq.toStr seqs) = MapPortSeq.toStr seqs := by
    rw [hlower _ fun c hc => (MapPortSeq.toStr_chars seqs c hc).2]
    exact (List.map_congr_left fun c hc => (MapPortSeq.toStr_chars seqs c hc).1).trans (List.map_id _)
  rw [portMapStrToPortSeqs, hsame, splitSpace_toStr, Py.mapExcept_map]
  have hok := @Py.mapExcept_eq_ok _ _ _ (fun seq => parseMapItem name ports seq.str) id seqs
    fun seq hseq => parseMapItem_str (hle seq hseq) (hin seq hseq)
  rwa [List.map_id] at hok

/-- A port map is parsed by the documented grammar exactly where its items are documented and
    accepted, or one is not documented and the first that fails is refused; and every list of
    segments with their bits in order is read back. -/
theorem portMap_grammar (lower : List Char → List Char)
    (hlower : ∀ s : List Char, (∀ c ∈ s, c.toNat < 128) → lower s = s.map Char.toLower) :
    (∀ name ports mapStr, ParsesDocumented name ports lower mapStr ↔
      KeepsGrammar (ports.getD []) ports (splitSpace (lower mapStr))) ∧
    ∀ name ports seqs, (∀ seq ∈ seqs, seq.lowIdx ≤ seq.highIdx) →
      (∀ seq ∈ seqs, Inside (ports.getD []) seq) →
        portMapStrToPortSeqs name ports lower (MapPortSeq.toStr seqs) = .ok seqs :=
  ⟨fun _ _ _ => parsesDocumented_iff, fun _ _ _ hle hin => portMap_toStr hlower hle hin⟩

theorem portMap_grammar_ascii :
    (∀ name ports mapStr, ParsesDocumented name ports (List.map Char.toLower) mapStr ↔
      KeepsGrammar (ports.getD []) ports (splitSpace (mapStr.map Char.toLower))) ∧
    ∀ name ports seqs, (∀ seq ∈ seqs, seq.lowIdx ≤ seq.highIdx) →
      (∀ seq ∈ seqs, Inside (ports.getD []) seq) →
        portMapStrToPortSeqs name ports (List.map Char.toLower) (MapPortSeq.toStr seqs) = .ok seqs :=
  portMap_grammar (List.map Char.toLower) fun _ _ => rfl

/-- What follows the range is not looked at. -/
theorem not_parsesDocumented_trailing : ¬ ParsesDocumented "p" none (List.map Char.toLower)
    ['p', 'o', 'r', 't', '1', '[', '2', ']', 'x'] := by
  rintro ⟨hiff, -⟩
  have hdoc := hiff.mp ⟨[⟨1, 2, 2⟩], by decide⟩ ['p', 'o', 'r', 't', '1', '[', '2', ']', 'x']
    (by decide)
  obtain ⟨n, bits, htext, -⟩ := hdoc
  have hread := readItem_of_itemText htext
  revert hread
  have hrest : readItem ['p', 'o', 'r', 't', '1', '[', '2', ']', 'x'] =
    some (1, some (2, 2), ['x']) := by decide
  rw [hrest]
  rintro ⟨⟩

end Chipscopy.Mapping
