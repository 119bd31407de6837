import Chipscopy.Api.DeviceList

/-! Runs of the two threads

    As long as nothing is stored over an INVALID device, the flag stays set until the next scan, and
    a device that is INVALID when an access begins stays so and is in no list that is stored. -/

namespace Chipscopy.Api.DeviceList

variable {st st' : State} {d : DeviceId}

/-- Not INVALID. -/
def State.Usable (st : State) (d : DeviceId) : Prop := (st.device d).state ≠ .invalid

theorem setState_usable_self {state : DeviceState} :
    (st.setState d state).Usable d ↔ state ≠ .invalid := by
  simp [State.Usable, State.setState]

theorem setState_usable_ne {state : DeviceState} {r : DeviceId} (hr : r ≠ d) :
    (st.setState d state).Usable r ↔ st.Usable r := by
  simp [State.Usable, State.setState, hr]

/-- The spec of a device stays, and with it what a callback does. -/
theorem setState_nodeCallback {state : DeviceState} (r : DeviceId) (action : NodeAction)
    (ctx : String) : ((st.setState d state).device r).nodeCallback action ctx =
      (st.device r).nodeCallback action ctx := by
  by_cases hr : r = d
  · subst hr
    simp [State.setState, Device.nodeCallback]
  · simp [State.setState, hr]

/-! ### What a step does -/

/-- What a callback may do to a device. -/
theorem nodeCallback_cases (device : Device) (action : NodeAction) (ctx : String) :
    (device.nodeCallback action ctx = some .invalid ∧ action = .nodeRemoved) ∨
      (device.nodeCallback action ctx = some .needsRefresh ∧ action ≠ .nodeRemoved) ∨
      device.nodeCallback action ctx = none := by
  rw [Device.nodeCallback]
  by_cases hremoved : action = .nodeRemoved ∧ ctx ∈ device.spec.rootDeviceContexts
  · exact .inl ⟨if_pos hremoved, hremoved.1⟩
  · rw [if_neg hremoved]
    by_cases hchanged : action = .nodeChanged ∧ ctx ∈ device.spec.allDeviceContexts
    · refine .inr (.inl ⟨if_pos hchanged, ?_⟩)
      rw [hchanged.1]
      decide
    · exact .inr (.inr (if_neg hchanged))

theorem event_cases {action : NodeAction} {ctx : String}
    (hstep : step st (.event action ctx) = some st') : st.callback = none ∧
      st' = { st with callback := some ⟨action, ctx, st.devices, .next, []⟩ } := by
  simp only [step] at hstep
  split at hstep
  · next hcb => exact ⟨hcb, (Option.some.inj hstep).symm⟩
  · cases hstep

/-- A callback marks the next device INVALID, sets it to be refreshed or leaves it. -/
theorem call_cases (hstep : step st .nodeCallback = some st') : ∃ cb d rest,
    st.callback = some cb ∧ cb.remaining = d :: rest ∧ cb.phase = .next ∧
      (((st.device d).nodeCallback cb.action cb.ctx = some .invalid ∧ cb.action = .nodeRemoved ∧
          st' = { st.setState d .invalid with
            callback := some { cb with remaining := rest, phase := .clearing d }
            invalidated := true }) ∨
        ((st.device d).nodeCallback cb.action cb.ctx = some .needsRefresh ∧
          cb.action ≠ .nodeRemoved ∧ st' = { st.setState d .needsRefresh with
            callback := some { cb with remaining := rest, phase := .called d } }) ∨
        ((st.device d).nodeCallback cb.action cb.ctx = none ∧
          st' = { st with callback := some { cb with remaining := rest, phase := .called d } })) := by
  simp only [step] at hstep
  split at hstep
  · next action ctx d rest valid hcb =>
    refine ⟨_, d, rest, hcb, rfl, rfl, ?_⟩
    obtain rfl := Option.some.inj hstep
    rcases nodeCallback_cases (st.device d) action ctx with ⟨hcall, hact⟩ | ⟨hcall, hact⟩ | hcall
    · exact .inl ⟨hcall, hact, by simp only [State.callNode, hcall]⟩
    · exact .inr (.inl ⟨hcall, hact, by simp only [State.callNode, hcall]⟩)
    · exact .inr (.inr ⟨hcall, by simp only [State.callNode, hcall]⟩)
  · cases hstep

theorem removeWrapper_cases {deviceNode : Option NodeId}
    (hstep : step st (.removeWrapper deviceNode) = some st') : ∃ cb d wrappers,
    st.callback = some cb ∧ cb.phase = .clearing d ∧
      (∀ node d, wrappers node = some d → st.deviceWrapper node = some d) ∧
      st' = { st with
        deviceWrapper := wrappers
        callback := some { cb with phase := .called d } } := by
  simp only [step] at hstep
  split at hstep
  · next hcb =>
    refine ⟨_, _, _, hcb, rfl, fun node d hwrapper => ?_, (Option.some.inj hstep).symm⟩
    split at hwrapper
    · next removed =>
      by_cases hnode : node = removed
      · subst hnode
        rw [Function.update_self] at hwrapper
        cases hwrapper
      · rwa [Function.update_of_ne hnode] at hwrapper
    · exact hwrapper
  · cases hstep

theorem testState_cases (hstep : step st .testState = some st') : ∃ cb d,
    st.callback = some cb ∧ cb.phase = .called d ∧
      ((¬ st.Usable d ∧ st' = { st with
          needToScanDevices := true
          callback := some { cb with phase := .next } }) ∨
        (st.Usable d ∧ st' = { st with
          callback := some { cb with phase := .next, validDeviceList := cb.validDeviceList ++ [d] } })) := by
  simp only [step] at hstep
  split at hstep
  · next hcb =>
    refine ⟨_, _, hcb, rfl, ?_⟩
    split at hstep
    · next hstate => exact .inl ⟨fun h => h hstate, (Option.some.inj hstep).symm⟩
    · next hstate => exact .inr ⟨hstate, (Option.some.inj hstep).symm⟩
  · cases hstep

theorem storeValid_cases (hstep : step st .storeValid = some st') : ∃ cb, st.callback = some cb ∧
    st' = { st.setDeviceWithLock cb.validDeviceList with callback := none } := by
  simp only [step] at hstep
  split at hstep
  · next hcb => exact ⟨_, hcb, (Option.some.inj hstep).symm⟩
  · cases hstep

theorem access_cases (hstep : step st .access = some st') : st.access = none ∧
    ((st.needToScanDevices = true ∧ st' = { st with
        access := some (.scanning (fun d => (st.device d).state) [])
        invalidated := false }) ∨
      (st.needToScanDevices = false ∧
        st' = { st with access := some (.returning fun d => (st.device d).state) })) := by
  simp only [step] at hstep
  split at hstep
  · cases hstep
  · next hnone =>
    refine ⟨hnone, ?_⟩
    split at hstep
    · next hneed => exact .inl ⟨hneed, (Option.some.inj hstep).symm⟩
    · next hneed => exact .inr ⟨Bool.eq_false_iff.mpr hneed, (Option.some.inj hstep).symm⟩

/-- A scan reuses the wrapper of a node or makes a device. -/
theorem discover_cases {node : NodeId} {spec : DeviceSpec}
    (hstep : step st (.discover node spec) = some st') : ∃ before found,
    st.access = some (.scanning before found) ∧
      ((∃ d, st.deviceWrapper node = some d ∧
          st' = { st with access := some (.scanning before (found ++ [d])) }) ∨
        st' = { st with
          device := Function.update st.device st.nextDevice ⟨spec, .valid⟩
          nextDevice := st.nextDevice + 1
          deviceWrapper := Function.update st.deviceWrapper node (some st.nextDevice)
          access := some (.scanning before (found ++ [st.nextDevice])) }) := by
  simp only [step] at hstep
  split at hstep
  · next before found hscan =>
    refine ⟨before, found, hscan, ?_⟩
    obtain rfl := Option.some.inj hstep
    rcases hwrapper : st.deviceWrapper node with _ | d
    · exact .inr (by simp only [State.discover, hwrapper])
    · exact .inl ⟨d, rfl, by simp only [State.discover, hwrapper]⟩
  · cases hstep

theorem storeScanned_cases (hstep : step st .storeScanned = some st') : ∃ before found,
    st.access = some (.scanning before found) ∧
      st' = { st.setDeviceWithLock found with access := some (.returning before) } := by
  simp only [step] at hstep
  split at hstep
  · next hscan => exact ⟨_, _, hscan, (Option.some.inj hstep).symm⟩
  · cases hstep

theorem return_cases (hstep : step st .return = some st') : ∃ before,
    st.access = some (.returning before) ∧ st' = { st with access := none } := by
  simp only [step] at hstep
  split at hstep
  · next hreturn => exact ⟨_, hreturn, (Option.some.inj hstep).symm⟩
  · cases hstep

/-! ### Devices that exist -/

/-- All devices in some list have been made, and no other is INVALID. -/
structure Known (st : State) : Prop where
  devices : ∀ d ∈ st.devices, d < st.nextDevice
  remaining : ∀ cb, st.callback = some cb → ∀ d ∈ cb.remaining, d < st.nextDevice
  phase : ∀ cb, st.callback = some cb → ∀ d, cb.phase = .clearing d ∨ cb.phase = .called d →
    d < st.nextDevice
  valid : ∀ cb, st.callback = some cb → ∀ d ∈ cb.validDeviceList, d < st.nextDevice
  found : ∀ before found, st.access = some (.scanning before found) →
    ∀ d ∈ found, d < st.nextDevice
  wrapper : ∀ node d, st.deviceWrapper node = some d → d < st.nextDevice
  fresh : ∀ d, st.nextDevice ≤ d → st.Usable d

theorem known_initial : Known State.initial where
  devices _ h := absurd h List.not_mem_nil
  remaining _ h := by cases h
  phase _ h := by cases h
  valid _ h := by cases h
  found _ _ h := by cases h
  wrapper _ _ h := by cases h
  fresh _ _ := by simp [State.Usable, State.initial, noDevice]

theorem setState_fresh (h : Known st) (hd : d < st.nextDevice) (state : DeviceState) :
    ∀ r, st.nextDevice ≤ r → (st.setState d state).Usable r := fun r hr =>
  (setState_usable_ne (hd.trans_le hr).ne').mpr (h.fresh r hr)

theorem step_known (h : Known st) {label : Label} (hstep : step st label = some st') :
    Known st' := by
  cases label with
  | event action ctx =>
    obtain ⟨-, rfl⟩ := event_cases hstep
    exact { h with
      remaining := fun cb hcb => by cases hcb; exact h.devices
      phase := fun cb hcb d hd => by cases hcb; simp at hd
      valid := fun cb hcb d hd => by cases hcb; exact absurd hd List.not_mem_nil }
  | nodeCallback =>
    obtain ⟨cb, d, rest, hcb, hremaining, -, hcases⟩ := call_cases hstep
    have hhead : d < st.nextDevice :=
      h.remaining cb hcb d (hremaining ▸ List.mem_cons_self)
    have hrest : ∀ r ∈ rest, r < st.nextDevice := fun r hr =>
      h.remaining cb hcb r (hremaining ▸ List.mem_cons_of_mem d hr)
    rcases hcases with ⟨-, -, rfl⟩ | ⟨-, -, rfl⟩ | ⟨-, rfl⟩
    · exact { h with
        remaining := fun _ hcb' => by cases hcb'; exact hrest
        phase := fun _ hcb' r hr => by
          cases hcb'
          rcases hr with hr | hr <;> cases hr
          exact hhead
        valid := fun _ hcb' => by cases hcb'; exact h.valid cb hcb
        fresh := setState_fresh h hhead .invalid }
    · exact { h with
        remaining := fun _ hcb' => by cases hcb'; exact hrest
        phase := fun _ hcb' r hr => by
          cases hcb'
          rcases hr with hr | hr <;> cases hr
          exact hhead
        valid := fun _ hcb' => by cases hcb'; exact h.valid cb hcb
        fresh := setState_fresh h hhead .needsRefresh }
    · exact { h with
        remaining := fun _ hcb' => by cases hcb'; exact hrest
        phase := fun _ hcb' r hr => by
          cases hcb'
          rcases hr with hr | hr <;> cases hr
          exact hhead
        valid := fun _ hcb' => by cases hcb'; exact h.valid cb hcb }
  | removeWrapper deviceNode =>
    obtain ⟨cb, d, wrappers, hcb, hphase, hwrappers, rfl⟩ := removeWrapper_cases hstep
    exact { h with
      remaining := fun _ hcb' => by cases hcb'; exact h.remaining cb hcb
      phase := fun _ hcb' r hr => by
        cases hcb'
        rcases hr with hr | hr <;> cases hr
        exact h.phase cb hcb d (.inl hphase)
      valid := fun _ hcb' => by cases hcb'; exact h.valid cb hcb
      wrapper := fun node r hr => h.wrapper node r (hwrappers node r hr) }
  | testState =>
    obtain ⟨cb, d, hcb, hphase, ⟨-, rfl⟩ | ⟨-, rfl⟩⟩ := testState_cases hstep
    · exact { h with
        remaining := fun _ hcb' => by cases hcb'; exact h.remaining cb hcb
        phase := fun _ hcb' r hr => by cases hcb'; simp at hr
        valid := fun _ hcb' => by cases hcb'; exact h.valid cb hcb }
    · exact { h with
        remaining := fun _ hcb' => by cases hcb'; exact h.remaining cb hcb
        phase := fun _ hcb' r hr => by cases hcb'; simp at hr
        valid := fun _ hcb' r hr => by
          cases hcb'
          rcases List.mem_append.mp hr with hr | hr
          · exact h.valid cb hcb r hr
          · rw [List.mem_singleton.mp hr]
            exact h.phase cb hcb d (.inr hphase) }
  | storeValid =>
    obtain ⟨cb, hcb, rfl⟩ := storeValid_cases hstep
    exact { h with
      devices := h.valid cb hcb
      remaining := fun _ hnone => by cases hnone
      phase := fun _ hnone => by cases hnone
      valid := fun _ hnone => by cases hnone }
  | access =>
    obtain ⟨-, ⟨-, rfl⟩ | ⟨-, rfl⟩⟩ := access_cases hstep
    · exact { h with
        found := fun _ _ hscan d hd => by cases hscan; exact absurd hd List.not_mem_nil }
    · exact { h with found := fun _ _ hscan => by cases hscan }
  | discover node spec =>
    obtain ⟨before, found, hscan, ⟨d, hwrapper, rfl⟩ | rfl⟩ := discover_cases hstep
    · exact { h with
        found := fun _ _ hscan' r hr => by
          cases hscan'
          rcases List.mem_append.mp hr with hr | hr
          · exact h.found before found hscan r hr
          · rw [List.mem_singleton.mp hr]
            exact h.wrapper node d hwrapper }
    · exact
        { devices := fun r hr => Nat.lt_succ_of_lt (h.devices r hr)
          remaining := fun cb hcb r hr => Nat.lt_succ_of_lt (h.remaining cb hcb r hr)
          phase := fun cb hcb r hr => Nat.lt_succ_of_lt (h.phase cb hcb r hr)
          valid := fun cb hcb r hr => Nat.lt_succ_of_lt (h.valid cb hcb r hr)
          found := fun _ _ hscan' r hr => by
            cases hscan'
            rcases List.mem_append.mp hr with hr | hr
            · exact Nat.lt_succ_of_lt (h.found before found hscan r hr)
            · rw [List.mem_singleton.mp hr]
              exact Nat.lt_succ_self _
          wrapper := fun node' r hr => by
            dsimp only at hr
            by_cases hnode : node' = node
            · subst hnode
              rw [Function.update_self] at hr
              obtain rfl := Option.some.inj hr
              exact Nat.lt_succ_self _
            · rw [Function.update_of_ne hnode] at hr
              exact Nat.lt_succ_of_lt (h.wrapper node' r hr)
          fresh := fun r hr => by
            dsimp only [State.Usable]
            rw [Function.update_of_ne (Nat.succ_le_iff.mp hr).ne']
            exact h.fresh r (Nat.le_of_succ_le hr) }
  | storeScanned =>
    obtain ⟨before, found, hscan, rfl⟩ := storeScanned_cases hstep
    exact { h with
      devices := h.found before found hscan
      found := fun _ _ hscan' => by cases hscan' }
  | «return» =>
    obtain ⟨before, -, rfl⟩ := return_cases hstep
    exact { h with found := fun _ _ hscan => by cases hscan }

/-! ### The invariant -/

def Access.before : Access → DeviceId → DeviceState
  | .scanning before _ => before
  | .returning before => before

/-- No list holds an INVALID device that no event is owed for; a callback that does not remove
    finds none at all. -/
structure Inv (st : State) : Prop extends Known st where
  flag : st.invalidated = true → st.needToScanDevices = true ∨ st.Marking
  idle : st.callback = none → st.invalidated = false ∧ ∀ d ∈ st.devices, st.Usable d
  unmarked : ∀ cb, st.callback = some cb → ∀ d ∈ cb.validDeviceList,
    st.Usable d ∧ (st.device d).nodeCallback cb.action cb.ctx ≠ some .invalid
  marked : ∀ cb, st.callback = some cb → ∀ d, cb.phase = .clearing d ∨ cb.phase = .called d →
    (st.device d).nodeCallback cb.action cb.ctx = some .invalid → ¬ st.Usable d
  clearing : ∀ cb, st.callback = some cb → ∀ d, cb.phase = .clearing d → ¬ st.Usable d
  kept : ∀ cb, st.callback = some cb → cb.action ≠ .nodeRemoved →
    st.invalidated = false ∧ (∀ d ∈ cb.remaining, st.Usable d) ∧ ∀ d ∈ st.devices, st.Usable d
  scanned : ∀ before found, st.access = some (.scanning before found) → st.invalidated = false →
    ∀ d ∈ found, st.Usable d
  listed : (∀ before found, st.access ≠ some (.scanning before found)) → st.invalidated = false →
    ∀ d ∈ st.devices, st.Usable d
  stays : ∀ a, st.access = some a → ∀ d, a.before d = .invalid → ¬ st.Usable d
  returned : ∀ before, st.access = some (.returning before) → ∀ d ∈ st.devices, before d ≠ .invalid

theorem inv_initial : Inv State.initial where
  toKnown := known_initial
  flag h := by cases h
  idle _ := ⟨rfl, fun _ h => absurd h List.not_mem_nil⟩
  unmarked _ h := by cases h
  marked _ h := by cases h
  clearing _ h := by cases h
  kept _ h := by cases h
  scanned _ _ h := by cases h
  listed _ _ _ h := absurd h List.not_mem_nil
  stays _ h := by cases h
  returned _ h := by cases h

/-- Only a mark makes a usable device INVALID. -/
theorem setState_usable_mono {state : DeviceState} (hstate : state ≠ .invalid) {r : DeviceId}
    (hr : st.Usable r) : (st.setState d state).Usable r := by
  by_cases hrd : r = d
  · subst hrd
    exact setState_usable_self.mpr hstate
  · exact (setState_usable_ne hrd).mpr hr

theorem not_usable_of_mark {r : DeviceId} (hr : ¬ st.Usable r) :
    ¬ (st.setState d .invalid).Usable r := by
  by_cases hrd : r = d
  · subst hrd
    exact fun h => setState_usable_self.mp h rfl
  · exact fun h => hr ((setState_usable_ne hrd).mp h)

theorem event_inv (h : Inv st) {action : NodeAction} {ctx : String}
    (hstep : step st (.event action ctx) = some st') : Inv st' := by
  have hknown := step_known h.toKnown hstep
  obtain ⟨hcb, rfl⟩ := event_cases hstep
  obtain ⟨hinvalidated, hlisted⟩ := h.idle hcb
  exact { hknown, h with
    flag := fun hinv => by
      rw [show st.invalidated = true from hinv] at hinvalidated
      cases hinvalidated
    idle := fun hnone => by cases hnone
    unmarked := fun _ hcb' d hd => by cases hcb'; exact absurd hd List.not_mem_nil
    marked := fun _ hcb' d hd => by cases hcb'; simp at hd
    clearing := fun _ hcb' d hd => by cases hcb'; cases hd
    kept := fun _ hcb' _ => by cases hcb'; exact ⟨hinvalidated, hlisted, hlisted⟩ }

theorem nodeCallback_inv (h : Inv st) (hstep : step st .nodeCallback = some st') : Inv st' := by
  have hknown := step_known h.toKnown hstep
  obtain ⟨cb, d, rest, hcb, hremaining, hphase, hcases⟩ := call_cases hstep
  have hhead : d ∈ cb.remaining := hremaining ▸ List.mem_cons_self
  have hrest : ∀ r ∈ rest, r ∈ cb.remaining := fun r hr => hremaining ▸ List.mem_cons_of_mem d hr
  rcases hcases with ⟨hcall, haction, rfl⟩ | ⟨hcall, haction, rfl⟩ | ⟨hcall, rfl⟩
  · -- the device is marked: it is not among those that were found valid
    have hvalid : ∀ r ∈ cb.validDeviceList, r ≠ d := fun r hr heq =>
      (h.unmarked cb hcb r hr).2 (heq ▸ hcall)
    exact
      { toKnown := hknown
        flag := fun _ => .inr trivial
        idle := fun hnone => by cases hnone
        unmarked := fun _ hcb' r hr => by
          cases hcb'
          obtain ⟨husable, hnot⟩ := h.unmarked cb hcb r hr
          exact ⟨(setState_usable_ne (hvalid r hr)).mpr husable, by
            rw [setState_nodeCallback]
            exact hnot⟩
        marked := fun _ hcb' r hr _ => by
          cases hcb'
          rcases hr with hr | hr <;> cases hr
          exact fun husable => setState_usable_self.mp husable rfl
        clearing := fun _ hcb' r hr => by
          cases hcb'
          cases hr
          exact fun husable => setState_usable_self.mp husable rfl
        kept := fun _ hcb' hne => by cases hcb'; exact absurd haction hne
        scanned := fun _ _ _ hinv => by cases hinv
        listed := fun _ hinv => by cases hinv
        stays := fun a ha r hr => not_usable_of_mark (h.stays a ha r hr)
        returned := h.returned }
  · -- a device that changes was usable before
    obtain ⟨hinvalidated, hremain, hlisted⟩ := h.kept cb hcb haction
    have hmono : ∀ {r}, st.Usable r → (st.setState d .needsRefresh).Usable r :=
      fun hr => setState_usable_mono (by decide) hr
    have hother : ∀ r, ¬ st.Usable r → ¬ (st.setState d .needsRefresh).Usable r := fun r hr => by
      have hrd : r ≠ d := fun heq => hr (heq ▸ hremain d hhead)
      exact fun hset => hr ((setState_usable_ne hrd).mp hset)
    exact
      { toKnown := hknown
        flag := fun hinv => by
          rw [show st.invalidated = true from hinv] at hinvalidated
          cases hinvalidated
        idle := fun hnone => by cases hnone
        unmarked := fun _ hcb' r hr => by
          cases hcb'
          obtain ⟨husable, hnot⟩ := h.unmarked cb hcb r hr
          exact ⟨hmono husable, by
            rw [setState_nodeCallback]
            exact hnot⟩
        marked := fun _ hcb' r hr hinv => by
          cases hcb'
          rcases hr with hr | hr <;> cases hr
          rw [setState_nodeCallback, hcall] at hinv
          cases hinv
        clearing := fun _ hcb' r hr => by cases hcb'; cases hr
        kept := fun _ hcb' _ => by
          cases hcb'
          exact ⟨hinvalidated, fun r hr => hmono (hremain r (hrest r hr)),
            fun r hr => hmono (hlisted r hr)⟩
        scanned := fun before found hscan hinv r hr => hmono (h.scanned before found hscan hinv r hr)
        listed := fun _ _ r hr => hmono (hlisted r hr)
        stays := fun a ha r hr => hother r (h.stays a ha r hr)
        returned := h.returned }
  · exact { hknown, h with
      flag := fun hinv => by
        refine (h.flag hinv).imp_right fun hmarking => ?_
        simp [State.Marking, hcb, hphase] at hmarking
      idle := fun hnone => by cases hnone
      unmarked := fun _ hcb' => by cases hcb'; exact h.unmarked cb hcb
      marked := fun _ hcb' r hr hinv => by
        cases hcb'
        rcases hr with hr | hr <;> cases hr
        rw [hcall] at hinv
        cases hinv
      clearing := fun _ hcb' r hr => by cases hcb'; cases hr
      kept := fun _ hcb' hne => by
        cases hcb'
        obtain ⟨hinvalidated, hremain, hlisted⟩ := h.kept cb hcb hne
        exact ⟨hinvalidated, fun r hr => hremain r (hrest r hr), hlisted⟩ }

theorem removeWrapper_inv (h : Inv st) {deviceNode : Option NodeId}
    (hstep : step st (.removeWrapper deviceNode) = some st') : Inv st' := by
  have hknown := step_known h.toKnown hstep
  obtain ⟨cb, d, wrappers, hcb, hphase, -, rfl⟩ := removeWrapper_cases hstep
  have hd : ¬ st.Usable d := h.clearing cb hcb d hphase
  exact { hknown, h with
    flag := fun _ => .inr (not_not.mp hd)
    idle := fun hnone => by cases hnone
    unmarked := fun _ hcb' => by cases hcb'; exact h.unmarked cb hcb
    marked := fun _ hcb' r hr _ => by
      cases hcb'
      rcases hr with hr | hr <;> cases hr
      exact hd
    clearing := fun _ hcb' r hr => by cases hcb'; cases hr
    kept := fun _ hcb' => by cases hcb'; exact h.kept cb hcb }

theorem testState_inv (h : Inv st) (hstep : step st .testState = some st') : Inv st' := by
  have hknown := step_known h.toKnown hstep
  obtain ⟨cb, d, hcb, hphase, ⟨hstate, rfl⟩ | ⟨hstate, rfl⟩⟩ := testState_cases hstep
  · exact { hknown, h with
      flag := fun _ => .inl rfl
      idle := fun hnone => by cases hnone
      unmarked := fun _ hcb' => by cases hcb'; exact h.unmarked cb hcb
      marked := fun _ hcb' r hr => by cases hcb'; simp at hr
      clearing := fun _ hcb' r hr => by cases hcb'; cases hr
      kept := fun _ hcb' => by cases hcb'; exact h.kept cb hcb }
  · exact { hknown, h with
      flag := fun hinv => by
        refine (h.flag hinv).imp_right fun hmarking => ?_
        simp only [State.Marking, hcb, Option.map_some, hphase] at hmarking
        exact absurd hmarking hstate
      idle := fun hnone => by cases hnone
      unmarked := fun _ hcb' r hr => by
        cases hcb'
        rcases List.mem_append.mp hr with hr | hr
        · exact h.unmarked cb hcb r hr
        · rw [List.mem_singleton.mp hr]
          exact ⟨hstate, fun hinv => h.marked cb hcb d (.inr hphase) hinv hstate⟩
      marked := fun _ hcb' r hr => by cases hcb'; simp at hr
      clearing := fun _ hcb' r hr => by cases hcb'; cases hr
      kept := fun _ hcb' => by cases hcb'; exact h.kept cb hcb }

/-- What is left of the list is stored. -/
theorem storeValid_inv (h : Inv st) (hinv : st.invalidated = false)
    (hstep : step st .storeValid = some st') : Inv st' := by
  have hknown := step_known h.toKnown hstep
  obtain ⟨cb, hcb, rfl⟩ := storeValid_cases hstep
  have hvalid : ∀ d ∈ cb.validDeviceList, st.Usable d := fun d hd => (h.unmarked cb hcb d hd).1
  exact { hknown, h with
    flag := fun htrue => by
      rw [show st.invalidated = true from htrue] at hinv
      cases hinv
    idle := fun _ => ⟨hinv, hvalid⟩
    unmarked := fun _ hnone => by cases hnone
    marked := fun _ hnone => by cases hnone
    clearing := fun _ hnone => by cases hnone
    kept := fun _ hnone => by cases hnone
    listed := fun _ _ => hvalid
    returned := fun before hreturn d hd hbefore =>
      h.stays _ hreturn d hbefore (hvalid d hd) }

/-! ### The user's thread -/

theorem access_inv (h : Inv st) (hallowed : Allowed st .access)
    (hstep : step st .access = some st') : Inv st' ∧ Rescans st .access st' := by
  have hknown := step_known h.toKnown hstep
  obtain ⟨hnone, ⟨hneed, rfl⟩ | ⟨hneed, rfl⟩⟩ := access_cases hstep
  · refine ⟨{ hknown, h with
      flag := fun hinv => by cases hinv
      idle := fun hcb => ⟨rfl, (h.idle hcb).2⟩
      kept := fun cb hcb hne => ⟨rfl, (h.kept cb hcb hne).2⟩
      scanned := fun _ _ hscan _ d hd => by cases hscan; exact absurd hd List.not_mem_nil
      listed := fun hno => absurd rfl (hno _ _)
      stays := fun a ha d hd => by cases ha; exact fun husable => husable hd
      returned := fun _ hreturn => by cases hreturn }, fun _ => ⟨_, rfl⟩⟩
  · have hinvalidated : st.invalidated = false := by
      by_contra htrue
      have hmarking := (h.flag (by simpa using htrue)).resolve_left (by rw [hneed]; simp)
      have := hallowed (by simpa using htrue) hmarking
      rw [hneed] at this
      cases this
    have hlisted := h.listed (fun _ _ => by rw [hnone]; simp) hinvalidated
    refine ⟨{ hknown, h with
      scanned := fun _ _ hscan => by cases hscan
      listed := fun _ _ => hlisted
      stays := fun a ha d hd => by cases ha; exact fun husable => husable hd
      returned := fun _ hreturn d hd => by cases hreturn; exact hlisted d hd }, fun hinv => ?_⟩
    rw [hinvalidated] at hinv
    cases hinv

theorem discover_inv (h : Inv st) {node : NodeId} {spec : DeviceSpec}
    (hallowed : Allowed st (.discover node spec))
    (hstep : step st (.discover node spec) = some st') : Inv st' := by
  have hknown := step_known h.toKnown hstep
  obtain ⟨before, found, hscan, ⟨d, hwrapper, rfl⟩ | rfl⟩ := discover_cases hstep
  · exact { hknown, h with
      scanned := fun _ _ hscan' hinv r hr => by
        cases hscan'
        rcases List.mem_append.mp hr with hr | hr
        · exact h.scanned before found hscan hinv r hr
        · rw [List.mem_singleton.mp hr]
          exact hallowed d hwrapper
      listed := fun hno => absurd rfl (hno _ _)
      stays := fun a ha r hr => by
        cases ha
        exact h.stays _ hscan r hr
      returned := fun _ hreturn => by cases hreturn }
  · -- the devices in the lists are older than the new one
    let device := Function.update st.device st.nextDevice ⟨spec, .valid⟩
    have hsame : ∀ r < st.nextDevice, device r = st.device r := fun r hr =>
      Function.update_of_ne hr.ne _ _
    have hnew : (device st.nextDevice).state ≠ .invalid := by
      simp [device]
    have hmono : ∀ r, st.Usable r → (device r).state ≠ .invalid := fun r hr => by
      by_cases heq : r = st.nextDevice
      · rw [heq]
        exact hnew
      · rw [show device r = st.device r from Function.update_of_ne heq _ _]
        exact hr
    have hother : ∀ r, ¬ st.Usable r → ¬ (device r).state ≠ .invalid := fun r hr => by
      have heq : r ≠ st.nextDevice := fun heq => hr (h.fresh r heq.ge)
      rw [show device r = st.device r from Function.update_of_ne heq _ _]
      exact hr
    exact
      { toKnown := hknown
        flag := fun hinv => (h.flag hinv).imp_right fun hmarking => by
          rcases hcb : st.callback with _ | cb
          · simp [State.Marking, hcb] at hmarking
          · rcases hphase : cb.phase with _ | r | r
            · simp [State.Marking, hcb, hphase] at hmarking
            · simp [State.Marking, hphase]
            · simp only [State.Marking, hcb, Option.map_some, hphase] at hmarking ⊢
              exact not_not.mp (hother r (not_not.mpr hmarking))
        idle := fun hcb => ⟨(h.idle hcb).1, fun r hr => hmono r ((h.idle hcb).2 r hr)⟩
        unmarked := fun cb hcb r hr => by
          obtain ⟨husable, hnot⟩ := h.unmarked cb hcb r hr
          refine ⟨hmono r husable, ?_⟩
          change (device r).nodeCallback cb.action cb.ctx ≠ some .invalid
          rwa [hsame r (h.valid cb hcb r hr)]
        marked := fun cb hcb r hr hinv => by
          change (device r).nodeCallback cb.action cb.ctx = some .invalid at hinv
          rw [hsame r (h.phase cb hcb r hr)] at hinv
          exact hother r (h.marked cb hcb r hr hinv)
        clearing := fun cb hcb r hr => hother r (h.clearing cb hcb r hr)
        kept := fun cb hcb hne => by
          obtain ⟨hinv, hremain, hlisted⟩ := h.kept cb hcb hne
          exact ⟨hinv, fun r hr => hmono r (hremain r hr), fun r hr => hmono r (hlisted r hr)⟩
        scanned := fun _ _ hscan' hinv r hr => by
          cases hscan'
          rcases List.mem_append.mp hr with hr | hr
          · exact hmono r (h.scanned before found hscan hinv r hr)
          · rw [List.mem_singleton.mp hr]
            exact hnew
        listed := fun hno => absurd rfl (hno _ _)
        stays := fun a ha r hr => by
          cases ha
          exact hother r (h.stays _ hscan r hr)
        returned := fun _ hreturn => by cases hreturn }

theorem storeScanned_inv (h : Inv st) (hinv : st.invalidated = false)
    (hstep : step st .storeScanned = some st') : Inv st' := by
  have hknown := step_known h.toKnown hstep
  obtain ⟨before, found, hscan, rfl⟩ := storeScanned_cases hstep
  have hfound := h.scanned before found hscan hinv
  exact { hknown, h with
    flag := fun htrue => by
      rw [show st.invalidated = true from htrue] at hinv
      cases hinv
    idle := fun hcb => ⟨hinv, hfound⟩
    kept := fun cb hcb hne => ⟨hinv, (h.kept cb hcb hne).2.1, hfound⟩
    scanned := fun _ _ hscan' => by cases hscan'
    listed := fun _ _ => hfound
    stays := fun a ha d hd => by
      cases ha
      exact h.stays _ hscan d hd
    returned := fun _ hreturn d hd hbefore => by
      cases hreturn
      exact h.stays _ hscan d hbefore (hfound d hd) }

theorem return_inv (h : Inv st) (hstep : step st .return = some st') :
    Inv st' ∧ Rescans st .return st' := by
  have hknown := step_known h.toKnown hstep
  obtain ⟨before, hreturn, rfl⟩ := return_cases hstep
  refine ⟨{ hknown, h with
    scanned := fun _ _ hscan => by cases hscan
    listed := fun _ => h.listed fun _ _ => by rw [hreturn]; simp
    stays := fun _ ha => by cases ha
    returned := fun _ hnone => by cases hnone }, h.returned⟩

theorem step_inv (h : Inv st) {label : Label} (hallowed : Allowed st label)
    (hstep : step st label = some st') : Inv st' ∧ Rescans st label st' := by
  cases label with
  | event action ctx => exact ⟨event_inv h hstep, trivial⟩
  | nodeCallback => exact ⟨nodeCallback_inv h hstep, trivial⟩
  | removeWrapper deviceNode => exact ⟨removeWrapper_inv h hstep, trivial⟩
  | testState => exact ⟨testState_inv h hstep, trivial⟩
  | storeValid => exact ⟨storeValid_inv h hallowed hstep, trivial⟩
  | access => exact access_inv h hallowed hstep
  | discover node spec => exact ⟨discover_inv h hallowed hstep, trivial⟩
  | storeScanned => exact ⟨storeScanned_inv h hallowed hstep, trivial⟩
  | «return» => exact return_inv h hstep

/-- In a run of allowed steps every access scans if it has to, and returns no device that was
    INVALID when it began. -/
theorem rescans_throughout (labels : List Label)
    (hallowed : Machine.EachStep step Allowed State.initial labels) :
    Machine.Throughout step (fun _ => True) Rescans State.initial labels :=
  Machine.Throughout.of_inv (P := fun _ => True) (Q := Rescans) (fun _ => trivial)
    (fun h hlabel hstep => step_inv h hlabel hstep) labels inv_initial hallowed

/-- A device of one context. -/
def cableSpec (ctx : String) : DeviceSpec := ⟨ctx, ctx, "", "", "", "", "", ""⟩

/-- A scan that finds one device. -/
def scanOne (node : NodeId) (ctx : String) : List Label :=
  [.access, .discover node (cableSpec ctx), .storeScanned, .return]

/-- The device is changed, used and removed; an access that begins while the removal is still on
    its way through the list scans again. -/
theorem rescans_throughout_removed : Machine.Throughout step (fun _ => True) Rescans State.initial
    (scanOne 0 "jsn-A" ++ [.event .nodeChanged "jsn-A", .nodeCallback, .testState, .storeValid,
      .access, .return, .event .nodeRemoved "jsn-A", .nodeCallback, .removeWrapper (some 0),
      .testState, .access, .storeValid, .discover 1 (cableSpec "jsn-B"), .storeScanned, .return]) :=
  rescans_throughout _ (by decide)

/-- A removal whose callback has ended is forgotten. -/
theorem not_rescans_removed : ¬ Machine.Throughout step (fun _ => True) Rescans State.initial
    (scanOne 0 "jsn-A" ++ [.event .nodeRemoved "jsn-A", .nodeCallback, .removeWrapper (some 0),
      .testState, .storeValid] ++ [.access]) := by
  intro h
  obtain ⟨before, hscan⟩ := h.last rfl rfl rfl
  cases hscan

end Chipscopy.Api.DeviceList
