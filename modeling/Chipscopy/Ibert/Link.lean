import Chipscopy.Lib.Method
import Chipscopy.Lib.Machine

/-! Links and link groups of IBERT

    A link is known to its receiver and its transmitter and stored under its name; a group stores
    its links under their names and each link knows its group. The methods of links, groups and of
    their two managers change several of these places one after the other. -/

namespace Chipscopy.Ibert

structure RX where
  id : ℕ
  handle : String
  deriving DecidableEq, Repr

structure TX where
  id : ℕ
  handle : String
  deriving DecidableEq, Repr

abbrev LinkId := ℕ
abbrev GroupId := ℕ

/-- Attributes of a link. -/
structure Link where
  rx : Option RX
  tx : Option TX
  name : String
  handle : String
  linkGroup : Option GroupId
  deriving DecidableEq, Repr

/-- Attributes of a group. -/
structure LinkGroup where
  name : String
  description : String
  links : Py.Dict String LinkId
  deriving DecidableEq

/-- All objects, and the class variables of the two managers. -/
structure State where
  link : LinkId → Link
  linksMade : ℕ
  rxLink : RX → Option LinkId
  txLink : TX → Option LinkId
  links : Py.Dict String LinkId
  lastLinkNumber : ℤ
  group : GroupId → LinkGroup
  groupsMade : ℕ
  linkGroups : Py.Dict String GroupId
  lastLinkGroupNumber : ℤ

def linkNamePrefix : String := "Link_"
def linkGroupNamePrefix : String := "LinkGroup_"

/-- Before the first call. -/
def State.initial : State where
  link _ := ⟨none, none, "", "", none⟩
  linksMade := 0
  rxLink _ := none
  txLink _ := none
  links := Py.Dict.empty
  lastLinkNumber := -1
  group _ := ⟨"", "", Py.Dict.empty⟩
  groupsMade := 0
  linkGroups := Py.Dict.empty
  lastLinkGroupNumber := -1

/-- A receiver or transmitter that is given, or a string for one that is not known. -/
inductive Endpoint (α : Type)
  | known (endpoint : α)
  | unknown (text : String)
  deriving DecidableEq, Repr

def Endpoint.toOption {α : Type} : Endpoint α → Option α
  | .known a => some a
  | .unknown _ => none

/-- An argument of `create_links`. -/
inductive Argument (α : Type)
  | one (endpoint : Endpoint α)
  | list (endpoints : List (Endpoint α))
  deriving DecidableEq, Repr

open Py (Outcome)

namespace State

/-- `link.link_group = group`. -/
def setLinkGroup (s : State) (l : LinkId) (g : Option GroupId) : State :=
  { s with link := Function.update s.link l { s.link l with linkGroup := g } }

/-- `group._links = links`. -/
def setGroupLinks (s : State) (g : GroupId) (links : Py.Dict String LinkId) : State :=
  { s with group := Function.update s.group g { s.group g with links := links } }

/-! ### Groups -/

namespace LinkGroup

/-- One round of the loop of `LinkGroup.add`. -/
def addLink (g : GroupId) (l : LinkId) (s : State) : Outcome State :=
  let s := s.setLinkGroup l (some g)
  (s.setGroupLinks g ((s.group g).links.set (s.link l).name l), none)

/-- `LinkGroup.add`. -/
def add (g : GroupId) (links : List LinkId) (s : State) : Outcome State :=
  Outcome.loop (addLink g) links s

/-- One round of the loop of `LinkGroup.remove`. -/
def removeLink (g : GroupId) (l : LinkId) (s : State) : Outcome State :=
  let s := s.setLinkGroup l none
  let name := (s.link l).name
  match (s.group g).links.get? name with
  | some _ => (s.setGroupLinks g ((s.group g).links.erase name), none)
  | none => (s, some (.keyError name))

/-- `LinkGroup.remove`. Without links the loop is over the names, which are strings. -/
def remove (g : GroupId) (links : Option (List LinkId)) (s : State) : Outcome State :=
  match links with
  | some links => Outcome.loop (removeLink g) links s
  | none => Outcome.loop (fun _ s =>
      (s, some (.attributeError "'str' object has no attribute 'link_group'")))
      (s.group g).links.keys s

/-- `LinkGroup.invalidate`. -/
def invalidate (g : GroupId) (s : State) : State :=
  let s := (s.group g).links.values.foldl (fun s l => s.setLinkGroup l none) s
  { s with group := Function.update s.group g ⟨"", "", Py.Dict.empty⟩ }

end LinkGroup

/-! ### Links -/

namespace Link

/-- The constructor with `__post_init__`. The object is there even when the latter raises. -/
def new (rx : Option RX) (tx : Option TX) (name : String) (s : State) : Outcome State :=
  let l := s.linksMade
  let s := { s with
    link := Function.update s.link l ⟨rx, tx, name, "", none⟩
    linksMade := s.linksMade + 1 }
  let setHandle (s : State) (handle : String) : State :=
    { s with link := Function.update s.link l { s.link l with handle := handle } }
  if rx = none ∧ tx = none then (s, some (.valueError "Both RX and TX cant be unknown!"))
  else
    let o : Outcome State := match tx with
      | some t =>
        match s.txLink t with
        | some other =>
          (s, some (.valueError s!"{t.handle} is already part of {(s.link other).name}!"))
        | none => (setHandle { s with txLink := Function.update s.txLink t (some l) } t.handle, none)
      | none => (setHandle s "UnknownTX", none)
    o.andThen fun s =>
      let s := setHandle s ((s.link l).handle ++ "-->")
      match rx with
      | some r =>
        match s.rxLink r with
        | some other =>
          (s, some (.valueError s!"{r.handle} is already part of {(s.link other).name}!"))
        | none => (setHandle { s with rxLink := Function.update s.rxLink r (some l) }
            ((s.link l).handle ++ r.handle), none)
      | none => (setHandle s "UnknownRX", none)

/-- `Link.invalidate`. -/
def invalidate (l : LinkId) (s : State) : Outcome State :=
  let s := match (s.link l).rx with
    | some r => { s with rxLink := Function.update s.rxLink r none }
    | none => s
  let s := match (s.link l).tx with
    | some t => { s with txLink := Function.update s.txLink t none }
    | none => s
  let o := match (s.link l).linkGroup with
    | some g => LinkGroup.remove g (some [l]) s
    | none => (s, none)
  o.andThen fun s => ({ s with link := Function.update s.link l ⟨none, none, "", "", none⟩ }, none)

end Link

/-! ### Managers -/

/-- The pairs of `create_links`. -/
def pairs (rxs : Argument RX) (txs : Argument TX) :
    Except Py.Error (List (Option RX × Option TX)) :=
  match rxs, txs with
  | .list rxs, .list txs =>
    if rxs.length ≠ txs.length then
      .error (.valueError "Number of RXs and TXs provided in the lists must be the same!")
    else .ok ((rxs.map Endpoint.toOption).zip (txs.map Endpoint.toOption))
  | .one (.known rx), .one (.known tx) => .ok [(some rx, some tx)]
  | .one (.unknown _), .one (.known tx) => .ok [(none, some tx)]
  | .one (.known rx), .one (.unknown _) => .ok [(some rx, none)]
  | _, _ => .error (.valueError ("Valid formats for link creation are\n" ++
      "- rxs = RX obj, txs = TX obj\n" ++
      "- rxs = list[RX objs], txs = list[TX objs]; Both the lists must equal in length\n" ++
      "- Either rxs/txs = 'Unknown', txs/rxs = TX/RX obj\n"))

/-- One round of the loop of `create_links`, with the list of new links. -/
def createLink (pair : Option RX × Option TX) (v : State × List LinkId) :
    Outcome (State × List LinkId) :=
  let s := { v.1 with lastLinkNumber := v.1.lastLinkNumber + 1 }
  let l := s.linksMade
  match Link.new pair.1 pair.2 (Py.numbered linkNamePrefix s.lastLinkNumber) s with
  | (s, none) => ((s, v.2 ++ [l]), none)
  | (s, some e) => (({ s with lastLinkNumber := s.lastLinkNumber - 1 }, v.2), some e)

/-- `LinkManager.links.update` with new links. -/
def register (s : State) (newLinks : List LinkId) : State :=
  { s with links := s.links.update (newLinks.map fun l => ((s.link l).name, l)) }

/-- `LinkManager.create_links`. -/
def createLinks (rxs : Argument RX) (txs : Argument TX) (s : State) : Outcome State :=
  match pairs rxs txs with
  | .error e => (s, some e)
  | .ok pairs =>
    match Outcome.loop createLink pairs (s, []) with
    | ((s, newLinks), none) => (s.register newLinks, none)
    | ((s, _), some e) => (s, some e)

/-- One round of the loop of `delete_links`. -/
def deleteLink (l : LinkId) (s : State) : Outcome State :=
  let name := (s.link l).name
  match s.links.get? name with
  | none => (s, some (.keyError name))
  | some l' => (Link.invalidate l' s).andThen fun s => ({ s with links := s.links.erase name }, none)

/-- `LinkManager.delete_links`. -/
def deleteLinks (links : Option (List LinkId)) (s : State) : Outcome State :=
  (Outcome.loop deleteLink (links.getD s.links.values) s).andThen fun s =>
    (if s.links.size = 0 then { s with lastLinkNumber := -1 } else s, none)

/-- One round of the loop of `create_link_groups`, with the list of new groups. -/
def createLinkGroup (v : State × List GroupId) (description : String) : State × List GroupId :=
  let g := v.1.groupsMade
  let number := v.1.lastLinkGroupNumber + 1
  ({ v.1 with
    lastLinkGroupNumber := number
    group := Function.update v.1.group g
      ⟨Py.numbered linkGroupNamePrefix number, description, Py.Dict.empty⟩
    groupsMade := v.1.groupsMade + 1 }, v.2 ++ [g])

/-- `LinkGroupManager.link_groups.update` with new groups. -/
def registerGroups (s : State) (newGroups : List GroupId) : State :=
  { s with linkGroups := s.linkGroups.update (newGroups.map fun g => ((s.group g).name, g)) }

/-- `LinkGroupManager.create_link_groups`. -/
def createLinkGroups (descriptions : List String) (s : State) : State :=
  let v := descriptions.foldl createLinkGroup (s, [])
  v.1.registerGroups v.2

/-- One round of the loop of `delete_link_groups`, with the links to delete. -/
def deleteLinkGroup (deleteLinksInGroup : Bool) (g : GroupId) (v : State × List LinkId) :
    Outcome (State × List LinkId) :=
  let linksToDelete := if deleteLinksInGroup then v.2 ++ (v.1.group g).links.values else v.2
  let groupName := (v.1.group g).name
  let s := LinkGroup.invalidate g v.1
  match s.linkGroups.get? groupName with
  | none => ((s, linksToDelete), some (.keyError groupName))
  | some _ => (({ s with linkGroups := s.linkGroups.erase groupName }, linksToDelete), none)

/-- `LinkGroupManager.delete_link_groups`. -/
def deleteLinkGroups (groups : List GroupId) (deleteLinksInGroup : Bool) (s : State) :
    Outcome State :=
  match Outcome.loop (deleteLinkGroup deleteLinksInGroup) groups (s, []) with
  | ((s, _), some e) => (s, some e)
  | ((s, linksToDelete), none) =>
    let s := if s.linkGroups.size = 0 then { s with lastLinkGroupNumber := -1 } else s
    s.deleteLinks (some linksToDelete)

end State

/-- Calls of a user. -/
inductive Call
  | createLinks (rxs : Argument RX) (txs : Argument TX)
  | deleteLinks (links : Option (List LinkId))
  | createLinkGroups (descriptions : List String)
  | deleteLinkGroups (groups : List GroupId) (deleteLinksInGroup : Bool)
  | add (group : GroupId) (links : List LinkId)
  | remove (group : GroupId) (links : Option (List LinkId))
  deriving DecidableEq, Repr

def Call.perform (s : State) : Call → Outcome State
  | .createLinks rxs txs => s.createLinks rxs txs
  | .deleteLinks links => s.deleteLinks links
  | .createLinkGroups descriptions => (s.createLinkGroups descriptions, none)
  | .deleteLinkGroups groups deleteLinksInGroup => s.deleteLinkGroups groups deleteLinksInGroup
  | .add group links => State.LinkGroup.add group links s
  | .remove group links => State.LinkGroup.remove group links s

/-- The state after a call, also when it raised. -/
def step (s : State) (call : Call) : Option State := some (call.perform s).1

end Chipscopy.Ibert
