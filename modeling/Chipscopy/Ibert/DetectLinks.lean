import Chipscopy.Ibert.LinkRegistry

/-! Link detection

    A receiver locks onto its transmitter when both use the same pattern. The detection gives all
    transmitters and receivers of unlinked receivers one pattern, and for each receiver that is
    locked gives another to the transmitters, one after the other, until the lock is lost. -/

namespace Chipscopy.Ibert

open Py (Outcome)

/-! ### The hardware -/

/-- Pattern registers. -/
structure Patterns where
  rx : RX → String
  tx : TX → String

/-- The wires between transmitters and receivers, and what a locked receiver reports. -/
structure Board where
  wiring : RX → Option TX
  report : RX → String
  single : ∀ {r r' t}, wiring r = some t → wiring r' = some t → r = r'
  report_ne : ∀ r, report r ≠ "No link"

/-- The status of a receiver. -/
def Board.status (b : Board) (p : Patterns) (r : RX) : String :=
  match b.wiring r with
  | some t => if p.tx t = p.rx r then b.report r else "No link"
  | none => "No link"

structure GT where
  rx : RX
  tx : TX
  deriving DecidableEq, Repr

/-- What links are looked for in: a session has devices, a device IBERT cores, a core groups of
    GTs. -/
inductive Target
  | sessions (sessions : List (List (List (List (List GT)))))
  | devices (devices : List (List (List (List GT))))
  | iberts (iberts : List (List (List GT)))
  | gtGroups (gtGroups : List (List GT))
  | gts (gts : List GT)

/-- The GTs of a target, in the order in which they are visited. -/
def Target.gtList : Target → List GT
  | .sessions l => l.flatten.flatten.flatten.flatten
  | .devices l => l.flatten.flatten.flatten
  | .iberts l => l.flatten.flatten
  | .gtGroups l => l.flatten
  | .gts l => l

/-! ### Saved registers -/

section Registers

variable {α : Type} [DecidableEq α] (handle : α → String)

/-- Save the value of a register under the handle of its owner and set it to `PRBS 7`. -/
def saveRegister (v : Py.Dict String String × (α → String)) (a : α) :
    Py.Dict String String × (α → String) :=
  (v.1.set (handle a) (v.2 a), Function.update v.2 a "PRBS 7")

/-- Set a register to the value that was saved. -/
def restoreRegister (saved : Py.Dict String String) (register : α → String) (a : α) : α → String :=
  match saved.get? (handle a) with
  | some pattern => Function.update register a pattern
  | none => register

end Registers

/-! ### The search -/

/-- The links, the patterns and the local variables of the search. -/
structure Detection where
  links : State
  patterns : Patterns
  newLinks : List LinkId
  txsToSkip : Finset String
  rxsProcessed : Finset String

namespace Detection

/-- A transmitter sends another pattern. -/
def flip (t : TX) (d : Detection) : Detection :=
  { d with patterns := { d.patterns with tx := Function.update d.patterns.tx t "PRBS 15" } }

/-- A link that was found. It is made as one of a list of links is, and registered at once. -/
def connect (r : RX) (t : TX) (d : Detection) : Outcome Detection :=
  let d := { d with txsToSkip := insert t.handle d.txsToSkip }
  match State.createLink (some r, some t) (d.links, d.newLinks) with
  | ((s, newLinks), none) =>
    ({ d with
      links := s.register newLinks
      newLinks := newLinks }, none)
  | ((s, newLinks), some e) =>
    ({ d with
      links := s
      newLinks := newLinks }, some e)

/-- The inner loop: transmitters are tried until the receiver loses its lock. -/
def searchTx (b : Board) (r : RX) : List TX → Detection → Outcome Detection
  | [], d => (d, none)
  | t :: ts, d =>
    if t.handle ∈ d.txsToSkip then searchTx b r ts d
    else
      let d := d.flip t
      if b.status d.patterns r = "No link" then d.connect r t else searchTx b r ts d

/-- One round of the outer loop. -/
def searchRx (b : Board) (txs : List TX) (r : RX) (d : Detection) : Outcome Detection :=
  if r.handle ∈ d.rxsProcessed then (d, none)
  else
    let o := if b.status d.patterns r ≠ "No link" then searchTx b r txs d else (d, none)
    ({ o.1 with rxsProcessed := insert r.handle o.1.rxsProcessed }, o.2)

end Detection

/-- The links and the hardware. -/
structure World where
  links : State
  patterns : Patterns

/-- The GTs with an unlinked receiver. -/
def Target.unlinked (target : Target) (s : State) : List GT :=
  target.gtList.filter fun g => s.rxLink g.rx = none

/-- `LinkManager.detect_links` without a callback. The result is missing when there is nothing to
    look at. -/
def detectLinks (b : Board) (target : Target) (w : World) :
    World × Except Py.Error (Option (List LinkId)) :=
  let txs := (target.unlinked w.links).map GT.tx
  let rxs := (target.unlinked w.links).map GT.rx
  if txs = [] ∨ rxs = [] then (w, .ok none)
  else
    let rxSaved := rxs.foldl (saveRegister RX.handle) (Py.Dict.empty, w.patterns.rx)
    let txSaved := txs.foldl (saveRegister TX.handle) (Py.Dict.empty, w.patterns.tx)
    let o := Outcome.loop (Detection.searchRx b txs) rxs ⟨w.links, ⟨rxSaved.2, txSaved.2⟩, [], ∅, ∅⟩
    let patterns := o.1.patterns
    (⟨o.1.links, rxs.foldl (restoreRegister RX.handle rxSaved.1) patterns.rx,
      txs.foldl (restoreRegister TX.handle txSaved.1) patterns.tx⟩,
      match o.2 with
      | some e => .error e
      | none => .ok (some o.1.newLinks))

end Chipscopy.Ibert
