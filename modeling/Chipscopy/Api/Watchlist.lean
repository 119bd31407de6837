import Chipscopy.Lib.Machine
import Chipscopy.Lib.Python

/-! Watchlists of properties

    A watchlist keeps, for every watched property, the watch IDs of the calls of `add` that watch it,
    and for every watch ID its listeners. `add` enters a call into both tables before it asks the
    server, and takes it out again by hand if the server refuses: the watch ID is removed from the
    set of each property, but the property stays a key of the table, and the keys are the active
    properties. A read trusts the values that the client has for active properties. -/

namespace Chipscopy.Api.Property

/-- A property name, or a list of them. -/
inductive PropertyNames
  | one (name : String)
  | many (names : List String)
  deriving DecidableEq

/-- `PropertyCommands.sanitize_input` for lists. -/
def sanitizeInput : PropertyNames → List String
  | .one name => [name]
  | .many names => names

/-- The argument `listeners`. -/
inductive Listeners (L : Type*)
  | omitted
  | one (listener : L)
  | many (listeners : List L)

/-- The list that a single listener is put into; there is none if the argument is omitted. -/
def Listeners.toList? {L : Type*} : Listeners L → Option (List L)
  | .omitted => none
  | .one listener => some [listener]
  | .many listeners => some listeners

/-- What the server is asked for; only IBERT watchlists name an endpoint. -/
structure Request where
  propertyNames : List String
  endpointName : Option String
  deriving DecidableEq

inductive Raised
  | server
  | python (error : Py.Error)
  deriving DecidableEq

structure Watchlist (L : Type*) where
  listeners : Py.Dict String (List L)
  watchIdsForProperty : Py.Dict String (Finset String)
  tcfEventListenerRegistered : Bool

variable {L : Type*}

/-- A new watchlist. -/
def Watchlist.initial : Watchlist L where
  listeners := .empty
  watchIdsForProperty := .empty
  tcfEventListenerRegistered := false

/-! ### The tables -/

/-- `active_properties`. -/
def Watchlist.activeProperties (wl : Watchlist L) : List String := wl.watchIdsForProperty.keys

/-- The set of a property; a look at a property without one makes an empty set. -/
def watchers (ids : Py.Dict String (Finset String)) (propertyName : String) : Finset String :=
  (ids.get? propertyName).getD ∅

def watch (watchId : String) (ids : Py.Dict String (Finset String)) (propertyName : String) :
    Py.Dict String (Finset String) :=
  ids.set propertyName (insert watchId (watchers ids propertyName))

/-- The watch ID removed from the sets of properties, and the error of the first set that does not
    have it. -/
def unwatchAll (watchId : String) (ids : Py.Dict String (Finset String)) :
    List String → Py.Dict String (Finset String) × Option Py.Error
  | [] => (ids, none)
  | propertyName :: propertyNames =>
    if watchId ∈ watchers ids propertyName then
      unwatchAll watchId (ids.set propertyName ((watchers ids propertyName).erase watchId))
        propertyNames
    else (ids.set propertyName (watchers ids propertyName), some (.keyError watchId))

/-! ### Calls -/

/-- The result of `_get_uuid`: the first drawn ID that is not in use. -/
def getUuid (wl : Watchlist L) (uuids : List String) : Option String :=
  uuids.find? (· ∉ wl.listeners.keys)

/-- The call entered into the tables. -/
def enter (wl : Watchlist L) (watchId : String) (listeners : List L)
    (propertyNames : List String) : Watchlist L where
  listeners := wl.listeners.set watchId ((wl.listeners.get? watchId).getD [] ++ listeners)
  watchIdsForProperty := propertyNames.foldl (watch watchId) wl.watchIdsForProperty
  tcfEventListenerRegistered := true

/-- `add` of both classes, with a new watch ID. -/
def addTo (endpointName : Option String) (refuses : Request → Bool) (wl : Watchlist L)
    (watchId : String) (propertyNames : PropertyNames) (listeners : Listeners L) :
    Watchlist L × Option Raised :=
  let names := sanitizeInput propertyNames
  match listeners.toList? with
  | none =>
    -- The entry of the watch ID is made before `None` is found not to be iterable.
    (enter wl watchId [] [], some (.python (.typeError "'NoneType' object is not iterable")))
  | some listeners =>
    let entered := enter wl watchId listeners names
    if refuses ⟨names, endpointName⟩ then
      match unwatchAll watchId entered.watchIdsForProperty names with
      | (ids, some error) => ({ entered with watchIdsForProperty := ids }, some (.python error))
      | (ids, none) =>
        ({ entered with watchIdsForProperty := ids, listeners := entered.listeners.erase watchId },
          none)
    else (entered, none)

/-- `remove` of both classes. -/
def removeFrom (endpointName : Option String) (refuses : Request → Bool) (wl : Watchlist L)
    (propertyNames : PropertyNames) : Watchlist L × Option Raised :=
  let names := ((sanitizeInput propertyNames).filter (· ∈ wl.activeProperties)).dedup
  if refuses ⟨names, endpointName⟩ then (wl, some .server)
  else ({ wl with
    watchIdsForProperty := names.foldl (fun ids name => ids.erase name) wl.watchIdsForProperty },
    none)

namespace Watchlist

def add (refuses : Request → Bool) : Watchlist L → String → PropertyNames → Listeners L →
    Watchlist L × Option Raised := addTo none refuses

def remove (refuses : Request → Bool) : Watchlist L → PropertyNames →
    Watchlist L × Option Raised := removeFrom none refuses

end Watchlist

namespace IBERTWatchlist

def add (endpointName : String) (refuses : Request → Bool) : Watchlist L → String →
    PropertyNames → Listeners L → Watchlist L × Option Raised := addTo (some endpointName) refuses

def remove (endpointName : String) (refuses : Request → Bool) : Watchlist L → PropertyNames →
    Watchlist L × Option Raised := removeFrom (some endpointName) refuses

end IBERTWatchlist

/-! ### Reads -/

section

variable {V E : Type}

/-- Properties that the client has a value for, and those that the server is asked for. -/
def segregateProps (wl : Watchlist L) (props : Py.Dict String V) (allPropertyNames : List String) :
    List String × List String :=
  let names := allPropertyNames.dedup
  let clientSide := names.filter fun name => name ∈ props.keys ∧ name ∈ wl.activeProperties
  (clientSide, names.filter (· ∉ clientSide))

/-- `IBERTPropertyCommands.get`. -/
def get (getProperty : List String → Except E (Py.Dict String V)) (wl : Watchlist L)
    (props : Py.Dict String V) (propertyNames : PropertyNames) :
    Except E (Py.Dict String V) := do
  let (clientSide, serverSide) := segregateProps wl props (sanitizeInput propertyNames)
  let values := Py.Dict.empty.update
    (clientSide.filterMap fun name => (props.get? name).map (name, ·))
  if serverSide.length > 0 then
    let answer ← getProperty serverSide
    return values.update answer.entries
  else return values

end

/-! ### Runs -/

/-- A watchlist, with the properties that a successful call watches. -/
structure State (L : Type*) where
  watchlist : Watchlist L
  watched : Finset String

def State.initial : State L := ⟨.initial, ∅⟩

/-- A call with the answers of the server, and the IDs that are drawn for a new one. -/
inductive Call (L : Type*)
  | add (uuids : List String) (refuses : Request → Bool) (propertyNames : PropertyNames)
    (listeners : Listeners L)
  | remove (refuses : Request → Bool) (propertyNames : PropertyNames)

/-- `add` of the base class, and of the IBERT class for an endpoint. -/
def addAs : Option String → (Request → Bool) → Watchlist L → String → PropertyNames →
    Listeners L → Watchlist L × Option Raised
  | none => Watchlist.add
  | some endpointName => IBERTWatchlist.add endpointName

def removeAs : Option String → (Request → Bool) → Watchlist L → PropertyNames →
    Watchlist L × Option Raised
  | none => Watchlist.remove
  | some endpointName => IBERTWatchlist.remove endpointName

variable (endpointName : Option String)

/-- A call of `add` is not made without a new watch ID. -/
def step (s : State L) : Call L → Option (State L)
  | .add uuids refuses propertyNames listeners =>
    (getUuid s.watchlist uuids).map fun watchId =>
      let names := sanitizeInput propertyNames
      ⟨(addAs endpointName refuses s.watchlist watchId propertyNames listeners).1,
        if listeners.toList?.isSome ∧ ¬ refuses ⟨names, endpointName⟩ then s.watched ∪ names.toFinset
        else s.watched⟩
  | .remove refuses propertyNames =>
    let removed := removeAs endpointName refuses s.watchlist propertyNames
    some ⟨removed.1, if removed.2 = none then s.watched \ (sanitizeInput propertyNames).toFinset
      else s.watched⟩

/-- The same watch IDs for every property, among the same keys, and the same listeners. -/
structure SameTables (wl wl' : Watchlist L) : Prop where
  listeners : ∀ watchId, wl'.listeners.get? watchId = wl.listeners.get? watchId
  watchIds : ∀ name, wl'.watchIdsForProperty.get? name = wl.watchIdsForProperty.get? name

/-- A refused `add` leaves no trace, and without listeners `add` is as with none of them. -/
def LeavesNoTrace (s : State L) : Call L → State L → Prop
  | .add uuids refuses propertyNames listeners, s' =>
    (refuses ⟨sanitizeInput propertyNames, endpointName⟩ = true →
      SameTables s.watchlist s'.watchlist) ∧
    (listeners.toList? = none → ∀ watchId, getUuid s.watchlist uuids = some watchId →
      addAs endpointName refuses s.watchlist watchId propertyNames listeners =
        addAs endpointName refuses s.watchlist watchId propertyNames (.many []))
  | .remove _ _, _ => True

/-- Values of properties that no successful call watches are those of the server. -/
def ServesWatched (V E : Type) (s : State L) : Prop :=
  ∀ (getProperty : List String → Except E (Py.Dict String V)) (props : Py.Dict String V)
    (propertyNames : PropertyNames) (values : Py.Dict String V),
    get getProperty s.watchlist props propertyNames = .ok values →
    ∀ name ∈ sanitizeInput propertyNames, name ∉ s.watched →
      ∃ asked answer, getProperty asked = .ok answer ∧ values.get? name = answer.get? name

/-- Listeners are given, and if the server refuses, the properties are different ones that are
    watched already. -/
def CanBeUndone (s : State L) : Call L → Prop
  | .add uuids refuses propertyNames listeners => (getUuid s.watchlist uuids).isSome →
    listeners.toList?.isSome ∧ (refuses ⟨sanitizeInput propertyNames, endpointName⟩ = true →
      (sanitizeInput propertyNames).Nodup ∧
        ∀ name ∈ sanitizeInput propertyNames, name ∈ s.watchlist.activeProperties)
  | .remove _ _ => True

variable {endpointName}

/-! ### The tables of a call -/

section

variable {ids ids' : Py.Dict String (Finset String)} {watchId name : String} {names : List String}

theorem get?_watchAll (ids : Py.Dict String (Finset String)) (watchId : String)
    (names : List String) (name : String) : (names.foldl (watch watchId) ids).get? name =
      if name ∈ names then some (insert watchId (watchers ids name)) else ids.get? name := by
  induction names generalizing ids with
  | nil => simp
  | cons first names ih =>
    rw [List.foldl_cons, ih, watch]
    by_cases hfirst : name = first
    · subst hfirst
      by_cases hname : name ∈ names <;> simp [hname, watchers]
    · simp [watchers, Py.Dict.get?_set_ne _ hfirst, hfirst]

/-- A set without the watch ID stops the removal. -/
theorem unwatchAll_error (hname : name ∈ names) (hnot : watchId ∉ watchers ids name) :
    (unwatchAll watchId ids names).2 ≠ none := by
  induction names generalizing ids with
  | nil => cases hname
  | cons first names ih =>
    rw [unwatchAll]
    by_cases hfirst : watchId ∈ watchers ids first
    · rw [if_pos hfirst]
      have hne : name ≠ first := by
        rintro rfl
        exact hnot hfirst
      refine ih ((List.mem_cons.mp hname).resolve_left hne) ?_
      rwa [watchers, Py.Dict.get?_set_ne _ hne]
    · simp [hfirst]

/-- Names that come twice stop it. -/
theorem nodup_of_unwatchAll (h : (unwatchAll watchId ids names).2 = none) : names.Nodup := by
  induction names generalizing ids with
  | nil => exact List.nodup_nil
  | cons first names ih =>
    rw [unwatchAll] at h
    by_cases hfirst : watchId ∈ watchers ids first
    · rw [if_pos hfirst] at h
      refine List.nodup_cons.mpr ⟨fun hmem => ?_, ih h⟩
      refine unwatchAll_error hmem ?_ h
      simp [watchers]
    · rw [if_neg hfirst] at h
      cases h

theorem unwatchAll_keyError {error : Py.Error}
    (h : (unwatchAll watchId ids names).2 = some error) : error = .keyError watchId := by
  induction names generalizing ids with
  | nil => cases h
  | cons first names ih =>
    rw [unwatchAll] at h
    by_cases hfirst : watchId ∈ watchers ids first
    · rw [if_pos hfirst] at h
      exact ih h
    · rw [if_neg hfirst] at h
      exact (Option.some.inj h).symm

theorem unwatchAll_nodup (hnodup : names.Nodup) (hall : ∀ n ∈ names, watchId ∈ watchers ids n) :
    ∃ ids', unwatchAll watchId ids names = (ids', none) ∧
      ∀ n, ids'.get? n = if n ∈ names then some ((watchers ids n).erase watchId) else ids.get? n := by
  induction names generalizing ids with
  | nil => exact ⟨ids, rfl, by simp⟩
  | cons first names ih =>
    obtain ⟨hnot, hnodup⟩ := List.nodup_cons.mp hnodup
    obtain ⟨hfirst, hall⟩ := List.forall_mem_cons.mp hall
    have hkept : ∀ n, n ≠ first →
        watchers (ids.set first ((watchers ids first).erase watchId)) n = watchers ids n := by
      intro n hne
      rw [watchers, Py.Dict.get?_set_ne _ hne, watchers]
    obtain ⟨ids', hrun, hids'⟩ := @ih (ids.set first ((watchers ids first).erase watchId)) hnodup
      fun n hn => by rw [hkept n (fun heq => hnot (heq ▸ hn))]; exact hall n hn
    refine ⟨ids', by rw [unwatchAll, if_pos hfirst, hrun], fun n => ?_⟩
    rw [hids']
    by_cases hn : n = first
    · subst hn
      simp [hnot]
    · simp [hn, hkept n hn, Py.Dict.get?_set_ne _ hn]

end

/-! ### One call -/

section

variable {wl : Watchlist L} {refuses : Request → Bool} {watchId : String}
  {propertyNames : PropertyNames} {listeners : Listeners L} {l : List L}

theorem addAs_eq (endpointName : Option String) :
    (addAs endpointName : (Request → Bool) → Watchlist L → _) = addTo endpointName := by
  cases endpointName <;> rfl

theorem removeAs_eq (endpointName : Option String) :
    (removeAs endpointName : (Request → Bool) → Watchlist L → _) = removeFrom endpointName := by
  cases endpointName <;> rfl

theorem getUuid_new {uuids : List String} (h : getUuid wl uuids = some watchId) :
    watchId ∉ wl.listeners.keys := by
  simpa using List.find?_some h

theorem addTo_omitted (hnone : listeners.toList? = none) :
    addTo endpointName refuses wl watchId propertyNames listeners =
      (enter wl watchId [] [],
        some (.python (.typeError "'NoneType' object is not iterable"))) := by
  rw [addTo]
  simp only [hnone]

/-- Without listeners the call raises a `TypeError`, which it does not with an empty list. -/
theorem addTo_omitted_ne (hnone : listeners.toList? = none) :
    addTo endpointName refuses wl watchId propertyNames listeners ≠
      addTo endpointName refuses wl watchId propertyNames (.many []) := by
  intro heq
  have hraised := congrArg Prod.snd heq
  rw [addTo_omitted hnone, addTo, show (Listeners.many ([] : List L)).toList? = some [] from rfl]
    at hraised
  dsimp only at hraised
  by_cases hrefuses : refuses ⟨sanitizeInput propertyNames, endpointName⟩ = true
  · rw [if_pos hrefuses] at hraised
    rcases hrun : unwatchAll watchId
      (enter wl watchId [] (sanitizeInput propertyNames)).watchIdsForProperty
      (sanitizeInput propertyNames) with ⟨ids, _ | error⟩
    · rw [hrun] at hraised
      cases hraised
    · rw [hrun] at hraised
      obtain rfl := unwatchAll_keyError (congrArg Prod.snd hrun)
      cases hraised
  · rw [if_neg hrefuses] at hraised
    cases hraised

theorem addTo_accepted (hlist : listeners.toList? = some l)
    (haccepts : ¬ refuses ⟨sanitizeInput propertyNames, endpointName⟩ = true) :
    addTo endpointName refuses wl watchId propertyNames listeners =
      (enter wl watchId l (sanitizeInput propertyNames), none) := by
  simp [addTo, hlist, haccepts]

/-- A refused call leaves the tables as they were exactly if its names are different and active. -/
theorem addTo_refused_iff (hlist : listeners.toList? = some l)
    (hrefuses : refuses ⟨sanitizeInput propertyNames, endpointName⟩ = true)
    (hnew : watchId ∉ wl.listeners.keys)
    (hunused : ∀ name, watchId ∉ watchers wl.watchIdsForProperty name) :
    SameTables wl (addTo endpointName refuses wl watchId propertyNames listeners).1 ↔
      (sanitizeInput propertyNames).Nodup ∧
        ∀ name ∈ sanitizeInput propertyNames, name ∈ wl.activeProperties := by
  have hnone : wl.listeners.get? watchId = none := (Py.Dict.get?_eq_none_iff _).mpr hnew
  have hentered := get?_watchAll wl.watchIdsForProperty watchId (sanitizeInput propertyNames)
  have hall : ∀ n ∈ sanitizeInput propertyNames, watchId ∈ watchers
      (enter wl watchId l (sanitizeInput propertyNames)).watchIdsForProperty n := by
    intro n hn
    rw [watchers, enter, hentered, if_pos hn]
    exact Finset.mem_insert_self _ _
  simp only [addTo, hlist, hrefuses, if_true]
  by_cases hnodup : (sanitizeInput propertyNames).Nodup
  · obtain ⟨ids', hrun, hids'⟩ := unwatchAll_nodup hnodup hall
    rw [hrun, and_iff_right hnodup]
    have hget : ∀ n, ids'.get? n = if n ∈ sanitizeInput propertyNames then
        some (watchers wl.watchIdsForProperty n) else wl.watchIdsForProperty.get? n := by
      intro n
      rw [hids', watchers, enter, hentered]
      by_cases hn : n ∈ sanitizeInput propertyNames
      · simp [hn, Finset.erase_insert (hunused n)]
      · simp [hn]
    constructor
    · intro hsame n hn
      have hwatch := hsame.watchIds n
      rw [hget, if_pos hn] at hwatch
      rw [Watchlist.activeProperties, Py.Dict.mem_keys_iff, ← hwatch]
      rfl
    · intro hactive
      refine ⟨fun id => ?_, fun n => ?_⟩
      · rw [Py.Dict.get?_erase, enter]
        by_cases hid : id = watchId
        · rw [if_pos hid, hid, hnone]
        · rw [if_neg hid, Py.Dict.get?_set_ne _ hid]
      · rw [hget]
        by_cases hn : n ∈ sanitizeInput propertyNames
        · obtain ⟨ids, hids⟩ := Option.isSome_iff_exists.mp (Py.Dict.mem_keys_iff.mp (hactive n hn))
          rw [if_pos hn, watchers, hids]
          rfl
        · rw [if_neg hn]
  · refine iff_of_false (fun hsame => ?_) fun h => hnodup h.1
    rcases hrun : unwatchAll watchId
      (enter wl watchId l (sanitizeInput propertyNames)).watchIdsForProperty
      (sanitizeInput propertyNames) with ⟨ids, _ | error⟩
    · exact hnodup (nodup_of_unwatchAll (congrArg Prod.snd hrun))
    · -- The listeners of the call stay.
      rw [hrun] at hsame
      have hlisteners := hsame.listeners watchId
      rw [hnone, enter] at hlisteners
      simp at hlisteners

end

/-! ### Reads of properties that are not active -/

/-- The value of a property that is not active is that of the server. -/
theorem get_of_not_active {V E : Type} {getProperty : List String → Except E (Py.Dict String V)}
    {wl : Watchlist L} {props values : Py.Dict String V} {propertyNames : PropertyNames}
    {name : String} (h : get getProperty wl props propertyNames = .ok values)
    (hname : name ∈ sanitizeInput propertyNames) (hnot : name ∉ wl.activeProperties) :
    ∃ asked answer, getProperty asked = .ok answer ∧ values.get? name = answer.get? name := by
  have hclient : name ∉ (segregateProps wl props (sanitizeInput propertyNames)).1 := by
    intro hmem
    have hactive := (List.mem_filter.mp hmem).2
    simp only [Bool.decide_and, Bool.and_eq_true, decide_eq_true_eq] at hactive
    exact hnot hactive.2
  have hserver : name ∈ (segregateProps wl props (sanitizeInput propertyNames)).2 :=
    List.mem_filter.mpr ⟨List.mem_dedup.mpr hname, decide_eq_true hclient⟩
  rw [get] at h
  dsimp only at h
  rw [if_pos (List.length_pos_iff.mpr (List.ne_nil_of_mem hserver))] at h
  obtain ⟨answer, hanswer, hvalues⟩ := Py.bind_eq_ok h
  refine ⟨_, answer, hanswer, ?_⟩
  rw [← Except.ok.inj hvalues, Py.Dict.get?_update_entries]
  rcases answer.get? name with - | v
  · rw [Option.none_or]
    refine Py.Dict.get?_update_of_notMem _ _ fun hmem => hclient ?_
    obtain ⟨e, he, rfl⟩ := List.mem_map.mp hmem
    obtain ⟨n, hn, hvalue⟩ := List.mem_filterMap.mp he
    obtain ⟨v, -, rfl⟩ := Option.map_eq_some_iff.mp hvalue
    exact hn
  · rfl

/-! ### Every call of a run -/

/-- Watch IDs of properties have an entry of listeners, and the active properties are the watched
    ones. -/
structure Inv (s : State L) : Prop where
  known : ∀ name, ∀ watchId ∈ watchers s.watchlist.watchIdsForProperty name,
    watchId ∈ s.watchlist.listeners.keys
  active_iff : ∀ name, name ∈ s.watchlist.activeProperties ↔ name ∈ s.watched

theorem inv_initial : Inv (State.initial : State L) where
  known := by simp [State.initial, Watchlist.initial, watchers]
  active_iff := by
    simp [State.initial, Watchlist.initial, Watchlist.activeProperties, Py.Dict.mem_keys_iff]

namespace Inv

variable {s s' : State L}

theorem servesWatched (h : Inv s) (V E : Type) : ServesWatched V E s := by
  intro getProperty props propertyNames values hget name hname hnot
  exact get_of_not_active hget hname fun hactive => hnot ((h.active_iff name).mp hactive)

theorem same (h : Inv s) (hsame : SameTables s.watchlist s'.watchlist)
    (hwatched : s'.watched = s.watched) : Inv s' where
  known := by
    intro name watchId hmem
    rw [watchers, hsame.watchIds] at hmem
    have hkey := Py.Dict.mem_keys_iff.mp (h.known name watchId hmem)
    rwa [Py.Dict.mem_keys_iff, hsame.listeners]
  active_iff := by
    intro name
    rw [hwatched, ← h.active_iff, Watchlist.activeProperties, Watchlist.activeProperties,
      Py.Dict.mem_keys_iff, Py.Dict.mem_keys_iff, hsame.watchIds]

theorem enter (h : Inv s) (watchId : String) (l : List L) (names : List String) :
    Inv ⟨enter s.watchlist watchId l names, s.watched ∪ names.toFinset⟩ where
  known := by
    intro name id hid
    rw [watchers, Property.enter, get?_watchAll] at hid
    rw [Property.enter, Py.Dict.mem_keys_iff, Py.Dict.get?_set]
    by_cases heq : id = watchId
    · rw [if_pos heq]
      rfl
    · rw [if_neg heq]
      refine Py.Dict.mem_keys_iff.mp (h.known name id ?_)
      by_cases hname : name ∈ names
      · rw [if_pos hname, Option.getD_some] at hid
        exact (Finset.mem_insert.mp hid).resolve_left heq
      · rwa [if_neg hname] at hid
  active_iff := by
    intro name
    have hold := h.active_iff name
    rw [Watchlist.activeProperties, Py.Dict.mem_keys_iff] at hold
    rw [Watchlist.activeProperties, Py.Dict.mem_keys_iff, Property.enter, get?_watchAll,
      Finset.mem_union,
      List.mem_toFinset, ← hold]
    by_cases hname : name ∈ names <;> simp [hname]

theorem get?_eraseAll (names : List String) (ids : Py.Dict String (Finset String)) (name : String) :
    (names.foldl (fun ids name => ids.erase name) ids).get? name =
      if name ∈ names then none else ids.get? name := by
  induction names generalizing ids with
  | nil => simp
  | cons first names ih =>
    rw [List.foldl_cons, ih, Py.Dict.get?_erase]
    by_cases hname : name ∈ names <;> by_cases hfirst : name = first <;> simp [hname, hfirst]

theorem remove (h : Inv s) (endpointName : Option String) (refuses : Request → Bool)
    (propertyNames : PropertyNames) :
    Inv ⟨(removeFrom endpointName refuses s.watchlist propertyNames).1,
      if (removeFrom endpointName refuses s.watchlist propertyNames).2 = none then
        s.watched \ (sanitizeInput propertyNames).toFinset else s.watched⟩ := by
  rw [removeFrom]
  by_cases hrefuses : refuses ⟨((sanitizeInput propertyNames).filter
      (· ∈ s.watchlist.activeProperties)).dedup, endpointName⟩ = true
  · rw [if_pos hrefuses]
    exact h
  · rw [if_neg hrefuses]
    refine ⟨fun name watchId hmem => ?_, fun name => ?_⟩
    · rw [watchers, get?_eraseAll] at hmem
      refine h.known name watchId ?_
      split at hmem
      · simp at hmem
      · exact hmem
    · have hold := h.active_iff name
      have hkeys : name ∈ s.watchlist.activeProperties ↔
          (s.watchlist.watchIdsForProperty.get? name).isSome := Py.Dict.mem_keys_iff
      rw [Watchlist.activeProperties, Py.Dict.mem_keys_iff, get?_eraseAll, if_pos rfl,
        Finset.mem_sdiff,
        List.mem_toFinset, ← hold, hkeys]
      by_cases hname : name ∈ sanitizeInput propertyNames
      · by_cases hactive : name ∈ s.watchlist.activeProperties
        · simp [hname, hactive]
        · have hnone : s.watchlist.watchIdsForProperty.get? name = none := by
            rwa [hkeys, Option.not_isSome_iff_eq_none] at hactive
          simp [hname, hactive, hnone]
      · simp [hname]

end Inv

section

variable {s s' : State L}

/-- A call that can be undone, if it is refused, keeps the invariant and leaves no trace. -/
theorem step_inv (h : Inv s) {call : Call L} (hcall : CanBeUndone endpointName s call)
    (hstep : step endpointName s call = some s') :
    Inv s' ∧ LeavesNoTrace endpointName s call s' := by
  cases call with
  | remove refuses propertyNames =>
    rw [step, removeAs_eq] at hstep
    obtain rfl := Option.some.inj hstep
    exact ⟨h.remove endpointName refuses propertyNames, trivial⟩
  | add uuids refuses propertyNames listeners =>
    rw [step, addAs_eq] at hstep
    obtain ⟨watchId, huuid, rfl⟩ := Option.map_eq_some_iff.mp hstep
    have hnew := getUuid_new huuid
    obtain ⟨hgiven, hundo⟩ := hcall (by rw [huuid]; rfl)
    obtain ⟨l, hlist⟩ := Option.isSome_iff_exists.mp hgiven
    have hnotNone : listeners.toList? = none → ∀ watchId, getUuid s.watchlist uuids = some watchId →
        addAs endpointName refuses s.watchlist watchId propertyNames listeners =
          addAs endpointName refuses s.watchlist watchId propertyNames (.many []) := by
      intro hnone
      rw [hnone] at hlist
      cases hlist
    by_cases hrefuses : refuses ⟨sanitizeInput propertyNames, endpointName⟩ = true
    · have hsame : SameTables s.watchlist
          (addTo endpointName refuses s.watchlist watchId propertyNames listeners).1 :=
        (addTo_refused_iff hlist hrefuses hnew fun name hmem => hnew (h.known name _ hmem)).mpr
          (hundo hrefuses)
      exact ⟨h.same hsame (by simp [hrefuses]), fun _ => hsame, hnotNone⟩
    · rw [addTo_accepted hlist hrefuses]
      dsimp only
      rw [if_pos ⟨hgiven, hrefuses⟩]
      exact ⟨h.enter watchId l _, fun htrue => absurd htrue hrefuses, hnotNone⟩

/-- A call that cannot be undone leaves a trace, or is not as with an empty list. -/
theorem step_trace (h : Inv s) {call : Call L} (hcall : ¬ CanBeUndone endpointName s call) :
    ∃ s', step endpointName s call = some s' ∧ ¬ LeavesNoTrace endpointName s call s' := by
  cases call with
  | remove refuses propertyNames => exact absurd trivial hcall
  | add uuids refuses propertyNames listeners =>
    rw [CanBeUndone, Classical.not_imp] at hcall
    obtain ⟨huuid, hnot⟩ := hcall
    obtain ⟨watchId, huuid⟩ := Option.isSome_iff_exists.mp huuid
    refine ⟨_, by rw [step, huuid]; rfl, fun hleaves => ?_⟩
    obtain ⟨hrefused, homitted⟩ := hleaves
    rw [addAs_eq] at hrefused homitted
    cases hlist : listeners.toList? with
    | none => exact addTo_omitted_ne hlist (homitted hlist watchId huuid)
    | some l =>
      refine hnot ⟨by rw [hlist]; rfl, fun hrefuses => ?_⟩
      have hnew := getUuid_new huuid
      exact (addTo_refused_iff hlist hrefuses hnew fun name hmem => hnew (h.known name _ hmem)).mp
        (hrefused hrefuses)

end

/-- In a run, refused calls leave no trace, calls without listeners are as with none of them, and
    reads serve values of the client for watched properties only, exactly if every call of `add` is
    given listeners and every refused one has different names that are watched already. -/
theorem leavesNoTrace_iff (endpointName : Option String) (V E : Type) (calls : List (Call L)) :
    Machine.Throughout (step endpointName) (ServesWatched V E) (LeavesNoTrace endpointName)
      State.initial calls ↔
    Machine.EachStep (step endpointName) (CanBeUndone endpointName) State.initial calls := by
  have hbad : ∀ {s : State L} {call}, Inv s → ¬ CanBeUndone endpointName s call →
      ∃ s', step endpointName s call = some s' ∧
        (LeavesNoTrace endpointName s call s' → ¬ ServesWatched V E s') := by
    intro s call h hcall
    obtain ⟨s', hstep, hnot⟩ := step_trace h hcall
    exact ⟨s', hstep, fun hleaves => absurd hleaves hnot⟩
  exact Machine.Throughout.iff_eachStep Inv (fun h => h.servesWatched V E)
    (fun h hcall => step_inv h hcall) hbad calls inv_initial

/-- After a refused call the property is active. -/
theorem not_leavesNoTrace_refused : ¬ ∀ (endpointName : Option String) (calls : List (Call ℕ)),
    Machine.Throughout (step endpointName) (ServesWatched ℕ Unit) (LeavesNoTrace endpointName)
      State.initial calls := by
  intro h
  have hcall := h none [.add ["id"] (fun _ => true) (.one "ber") (.many [])]
  have htrace := ((hcall.2 _ rfl).1.1 rfl).watchIds "ber"
  exact absurd htrace (by decide)

end Chipscopy.Api.Property
