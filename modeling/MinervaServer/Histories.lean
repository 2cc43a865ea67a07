/-
# Histories

What a cache holds, and what it makes of the next write, read off the writes it has seen.

* `reads_history`: every cell holds what was said of it last, and a unit is cached exactly if it was
  put there and nothing has displaced it since.  `getSimulationInfo_history` says what that makes
  `get_simulation_info` answer.
* `command_admitted_iff`: so whether a command is admitted is a matter of what became of its group.
* `last_write_counts`: between writes of one thing each, only those about the same thing have to be
  kept in order.  A push of a group with its units, a removal of a group and a reset are not of this
  kind, since what they touch depends on what is there.
* `clear_restarts`: after a reset the past has no bearing on anything but the sequence numbers, and
  the orders in which the maps happen to be iterated.

The first is about the effects of the writes on the registry (`Write.effect_groups`,
`Write.effect_units`), which say in one line each what the nine writes do to one group and to one
unit; the rest is general (`Lib/Changelog.lean`).
-/
import MinervaServer.Effects
import MinervaServer.CommandService
import MinervaServer.Services
import MinervaServer.Lib.Changelog

namespace MinervaServer

open Lib

variable {Fl : Floats}

/-! ## 1. What a write says of each cell -/

namespace Write

/-- What a write makes of the stored fields of the group `g`: `none` if it leaves them alone,
`some none` if it forgets them. -/
def ofGroup (g : GroupId) : Write Fl → Option (Option (Proto.Group Fl))
  | .upsertGroup group | .upsertGroupWithUnits _ group _ =>
    if groupKey group = g then some (some (bare group)) else none
  | .removeGroup id => if id = g then some none else none
  | .clear _ => some none
  | .upsertUnit _ | .removeUnit _ | .setSimulationInfo _ | .setSimulationState _
  | .setLocations _ => none

def ofSimulationInfo : Write Fl → Option (Option (Proto.SimulationInfo Fl))
  | .setSimulationInfo info => some (some info)
  | .clear _ => some none
  | .upsertUnit _ | .removeUnit _ | .upsertGroup _ | .upsertGroupWithUnits _ _ _ | .removeGroup _
  | .setSimulationState _ | .setLocations _ => none

def ofSimulationState : Write Fl → Option (Option (Proto.SimulationStateUpdate Fl))
  | .setSimulationState state => some (some state)
  | .clear _ => some none
  | .upsertUnit _ | .removeUnit _ | .upsertGroup _ | .upsertGroupWithUnits _ _ _ | .removeGroup _
  | .setSimulationInfo _ | .setLocations _ => none

def ofLocations : Write Fl → Option (List (Proto.Location Fl))
  | .setLocations locations => some locations
  | .clear _ => some []
  | .upsertUnit _ | .removeUnit _ | .upsertGroup _ | .upsertGroupWithUnits _ _ _ | .removeGroup _
  | .setSimulationInfo _ | .setSimulationState _ => none

/-- The unit that a write stores under `id`. -/
def putsUnit (id : UnitId) : Write Fl → Option (Proto.Unit Fl)
  | .upsertUnit unit => if unitKey unit = id then some unit else none
  | .upsertGroupWithUnits _ group units =>
    (lastKeyed unitKey units id).map (assign (groupKey group))
  | .removeUnit _ | .upsertGroup _ | .removeGroup _ | .setSimulationInfo _ | .setSimulationState _
  | .setLocations _ | .clear _ => none

/-- The write takes the unit out of the cache, or stores another in its place.  `cached` says which
groups there are. -/
def displaces (cached : GroupId → Prop) (unit : Proto.Unit Fl) : Write Fl → Prop
  | .upsertUnit other => unitKey other = unitKey unit
  | .removeUnit id => id = unitKey unit
  -- stored anew, or not listed by its own group
  | .upsertGroupWithUnits _ group units =>
    unitKey unit ∈ units.map unitKey ∨ groupKey group = groupOf unit
  -- a group that is not cached is not removed, and its units stay
  | .removeGroup id => id = groupOf unit ∧ cached id
  | .clear _ => True
  | .upsertGroup _ | .setSimulationInfo _ | .setSimulationState _ | .setLocations _ => False

theorem effect_groups (w : Write Fl) (r : Registry Fl) (g : GroupId) :
    (w.effect r).groups g = (w.ofGroup g).getD (r.groups g) := by
  have hstored : ∀ group : Proto.Group Fl,
      Function.update r.groups (groupKey group) (some (bare group)) g =
        (if groupKey group = g then some (some (bare group)) else none).getD (r.groups g) := by
    intro group
    by_cases hg : groupKey group = g
    · subst hg
      rw [Function.update_self, if_pos rfl, Option.getD_some]
    · rw [Function.update_of_ne (Ne.symm hg), if_neg hg, Option.getD_none]
  cases w with
  | upsertUnit unit => rfl
  | removeUnit id => rfl
  | upsertGroup group => exact hstored group
  | upsertGroupWithUnits order group units => exact hstored group
  | removeGroup id =>
    by_cases hid : id = g
    · subst hid
      simp [effect, Registry.takeGroup, ofGroup]
    · simp [effect, Registry.takeGroup, ofGroup, hid, Function.update_of_ne (Ne.symm hid)]
  | setSimulationInfo info => rfl
  | setSimulationState state => rfl
  | setLocations locations => rfl
  | clear order => rfl

theorem effect_units (w : Write Fl) (r : Registry Fl) (id : UnitId) (unit : Proto.Unit Fl) :
    (w.effect r).units id = some unit ↔ w.putsUnit id = some unit ∨
      (r.units id = some unit ∧ ¬ w.displaces (fun g => (r.groups g).isSome) unit) := by
  have hkey := r.units_keyed id unit
  cases w with
  | upsertUnit other =>
    by_cases hid : unitKey other = id
    · subst hid
      have hnot : ¬ (r.units (unitKey other) = some unit ∧ ¬ unitKey other = unitKey unit) :=
        fun hkept => hkept.2 (hkey hkept.1).symm
      rw [effect, Registry.putUnit_units, Function.update_self, putsUnit, if_pos rfl, displaces,
        or_iff_left hnot]
    · rw [effect, Registry.putUnit_units, Function.update_of_ne (Ne.symm hid), putsUnit, if_neg hid,
        displaces, or_iff_right (by simp), iff_self_and]
      exact fun hunit heq => hid (heq.trans (hkey hunit))
  | removeUnit other =>
    rw [effect, Registry.dropUnit_units, putsUnit, displaces, or_iff_right (by simp)]
    by_cases hid : other = id
    · subst hid
      rw [Function.update_self]
      exact iff_of_false (by simp) fun hkept => hkept.2 (hkey hkept.1).symm
    · rw [Function.update_of_ne (Ne.symm hid), iff_self_and]
      exact fun hunit heq => hid (heq.trans (hkey hunit))
  | upsertGroup group => simp [effect, Registry.putGroup, putsUnit, displaces]
  | upsertGroupWithUnits order group units =>
    rw [effect, Registry.push_units, Registry.pushUnits_eq_some, putsUnit, displaces,
      Option.map_eq_some_iff, lastKeyed_eq_none]
    refine or_congr (by simp [eq_comm]) ?_
    constructor
    · rintro ⟨hunlisted, hunit, hgroup⟩
      refine ⟨hunit, ?_⟩
      rintro (hlisted | heq)
      · obtain ⟨other, hmem, hother⟩ := List.mem_map.mp hlisted
        exact hunlisted other hmem (hother.trans (hkey hunit))
      · exact hgroup heq.symm
    · rintro ⟨hunit, hstays⟩
      refine ⟨fun other hmem hother => hstays (Or.inl ?_), hunit, fun heq => hstays (Or.inr heq.symm)⟩
      exact List.mem_map.mpr ⟨other, hmem, hother.trans (hkey hunit).symm⟩
  | removeGroup g =>
    rw [putsUnit, displaces, or_iff_right (by simp)]
    simp only [effect, Registry.takeGroup]
    split
    · next hcached =>
      rw [Option.filter_eq_some_iff, decide_eq_true_eq, and_iff_left hcached, ne_comm]
    · next hcached => rw [and_iff_left fun hboth => hcached hboth.2]
  | setSimulationInfo info => simp [effect, putsUnit, displaces]
  | setSimulationState state => simp [effect, putsUnit, displaces]
  | setLocations locations => simp [effect, putsUnit, displaces]
  | clear order => simp [effect, putsUnit, displaces, Registry.empty]

end Write

namespace StateCache

/-! ## 2. The cells after a run -/

/-- What a cell holds to which these were the assignments. -/
def lastOf {V : Type} (assignments : List (Option V)) : Option V := assignments.getLast?.join

/-- The stored fields of the group `g` after these writes. -/
def groupAfter (writes : List (Write Fl)) (g : GroupId) : Option (Proto.Group Fl) :=
  lastOf (writes.filterMap (Write.ofGroup g))

theorem lastOf_eq {V : Type} (assignments : List (Option V)) :
    assignments.getLast?.getD none = lastOf assignments := by
  rw [lastOf]
  cases assignments.getLast? <;> rfl

theorem groups_effects (writes : List (Write Fl)) (g : GroupId) :
    (writes.foldl (fun r w => Write.effect w r) .empty : Registry Fl).groups g =
      groupAfter writes g :=
  (foldl_assigned (fun (r : Registry Fl) w => Write.effect w r) (fun r => r.groups g)
    (fun r w => w.effect_groups r g) .empty writes).trans (lastOf_eq _)

theorem groups_after (writes : List (Write Fl)) (g : GroupId) :
    (after writes).inner.groups[g]? = groupAfter writes g :=
  (congrFun (congrArg Registry.groups (registry_after writes)) g).trans (groups_effects writes g)

/-- The simulation's cells do not look at each other, nor at the registry. -/
theorem simulation_write (c : StateCache Fl) (w : Write Fl) :
    (c.write w).inner.simulationInfo = w.ofSimulationInfo.getD c.inner.simulationInfo ∧
    (c.write w).inner.simulationState = w.ofSimulationState.getD c.inner.simulationState ∧
    (c.write w).inner.locations = w.ofLocations.getD c.inner.locations := by
  rw [write_inner]
  cases w with
  | setSimulationInfo info | setSimulationState state | setLocations locations | clear order =>
    exact ⟨rfl, rfl, rfl⟩
  | _ =>
    rw [Write.commit_frame rfl]
    exact ⟨rfl, rfl, rfl⟩

/-- **The cache is what its history says.**  After any run of writes a group's stored fields, the
simulation info, the simulation state and the locations are what was said of them last, by a write
of their own or by a `clear`.  And a unit is cached exactly if some write put it there and no write
since has displaced it: replaced or removed it, pushed its group without it, removed its group while
that was cached, or cleared everything. -/
theorem reads_history (writes : List (Write Fl)) :
    let c := after writes
    (∀ g : GroupId, c.inner.groups[g]? = lastOf (writes.filterMap (Write.ofGroup g))) ∧
    c.simulationInfo = lastOf (writes.filterMap Write.ofSimulationInfo) ∧
    c.simulationState = lastOf (writes.filterMap Write.ofSimulationState) ∧
    c.inner.locations = (writes.filterMap Write.ofLocations).getLast?.getD [] ∧
    ∀ id unit, c.getUnit id = some unit ↔ ∃ before w rest, writes = before ++ w :: rest ∧
      w.putsUnit id = some unit ∧ ∀ first w' last, rest = first ++ w' :: last →
        ¬ w'.displaces (fun g => (groupAfter (before ++ w :: first) g).isSome) unit := by
  refine ⟨groups_after writes, ?_, ?_, ?_, fun id unit => ?_⟩
  · exact (foldl_assigned write (fun c => c.inner.simulationInfo)
      (fun c w => (simulation_write c w).1) new writes).trans (lastOf_eq _)
  · exact (foldl_assigned write (fun c => c.inner.simulationState)
      (fun c w => (simulation_write c w).2.1) new writes).trans (lastOf_eq _)
  · exact foldl_assigned write (fun c => c.inner.locations)
      (fun c w => (simulation_write c w).2.2) new writes
  · have hunits : (after writes).getUnit id =
        (writes.foldl (fun r w => Write.effect w r) .empty : Registry Fl).units id :=
      congrFun (congrArg Registry.units (registry_after writes)) id
    have hgroups : ∀ (log : List (Write Fl)) g,
        (log.foldl (fun r w => Write.effect w r) .empty : Registry Fl).groups g = groupAfter log g :=
      fun log g => (congrFun (congrArg Registry.groups (registry_after log)) g).symm.trans
        (groups_after log g)
    rw [hunits, foldl_since (fun (r : Registry Fl) w => Write.effect w r) (fun r => r.units id)
      (fun r w unit => w.effect_units r id unit) rfl]
    simp only [groups_effects]

end StateCache

namespace StateCache

theorem simulationInfo_eq_some (writes : List (Write Fl)) (info : Proto.SimulationInfo Fl) :
    (after writes).simulationInfo = some info ↔
      ∃ before rest, writes = before ++ .setSimulationInfo info :: rest ∧
        ∀ w ∈ rest, w.ofSimulationInfo = none := by
  have hstep : ∀ (c : StateCache Fl) (w : Write Fl) info, (c.write w).simulationInfo = some info ↔
      w.ofSimulationInfo.join = some info ∨
        (c.simulationInfo = some info ∧ ¬ w.ofSimulationInfo ≠ none) := by
    intro c w info
    rw [simulationInfo, (simulation_write c w).1, ← simulationInfo]
    rcases w.ofSimulationInfo with _ | _ | set <;> simp
  have hsets : ∀ w : Write Fl, w.ofSimulationInfo.join = some info ↔
      w = .setSimulationInfo info := by
    rintro w
    cases w <;> simp [Write.ofSimulationInfo]
  rw [after, foldl_since_mem write _ hstep rfl]
  simp [hsets]

/-- There is one if one was set and the cache not cleared since, whatever else was set. -/
theorem isSome_simulationInfo (writes : List (Write Fl)) :
    (after writes).simulationInfo.isSome ↔
      ∃ before info rest, writes = before ++ .setSimulationInfo info :: rest ∧
        ∀ order, .clear order ∉ rest := by
  -- whether it is there, whatever it says
  let there (c : StateCache Fl) : Option PUnit.{1} := c.simulationInfo.map fun _ => ⟨⟩
  have hstep : ∀ (c : StateCache Fl) (w : Write Fl) v, there (c.write w) = some v ↔
      w.ofSimulationInfo.join.map (fun _ => PUnit.unit) = some v ∨
        (there c = some v ∧ ¬ w.ofSimulationInfo = some none) := by
    intro c w v
    simp only [there, simulationInfo, (simulation_write c w).1]
    rcases w.ofSimulationInfo with _ | _ | set <;> simp
  have hsets : ∀ w : Write Fl, w.ofSimulationInfo.join.map (fun _ => PUnit.unit) = some ⟨⟩ ↔
      ∃ info, w = .setSimulationInfo info := by
    rintro w
    cases w <;> simp [Write.ofSimulationInfo]
  have hclear : ∀ w : Write Fl, w.ofSimulationInfo = some none ↔ ∃ order, w = .clear order := by
    rintro w
    cases w <;> simp [Write.ofSimulationInfo]
  have hthere : (after writes).simulationInfo.isSome ↔ there (writes.foldl write new) = some ⟨⟩ := by
    simp only [there, after]
    cases (writes.foldl write new).simulationInfo <;> simp
  rw [hthere, foldl_since_mem write there hstep rfl]
  constructor
  · rintro ⟨before, w, rest, hwrites, hputs, hkept⟩
    obtain ⟨info, rfl⟩ := (hsets w).mp hputs
    exact ⟨before, info, rest, hwrites, fun order horder => hkept _ horder rfl⟩
  · rintro ⟨before, info, rest, hwrites, hkept⟩
    refine ⟨before, _, rest, hwrites, rfl, fun w hw hcleared => ?_⟩
    obtain ⟨order, rfl⟩ := (hclear w).mp hcleared
    exact hkept order hw

end StateCache

/-- **What `get_simulation_info` answers.**  The info that some write set, where no write since has
set another or cleared the cache; and it is unavailable exactly if the cache has been cleared since
every info that was set. -/
theorem getSimulationInfo_history (writes : List (Write Fl)) :
    let response := SimulationService.getSimulationInfo (StateCache.after writes)
    (∀ info, response = .ok { info := some info } ↔
      ∃ before rest, writes = before ++ .setSimulationInfo info :: rest ∧
        ∀ w ∈ rest, w.ofSimulationInfo = none) ∧
    (response = .error ⟨.unavailable, "simulation info not set"⟩ ↔
      ∀ before info rest, writes = before ++ .setSimulationInfo info :: rest →
        ∃ order, .clear order ∈ rest) := by
  intro response
  have hok : ∀ info, response = .ok { info := some info } ↔
      (StateCache.after writes).simulationInfo = some info := fun info => by
    simp only [response, SimulationService.getSimulationInfo]
    cases (StateCache.after writes).simulationInfo <;> simp
  have herror : response = .error ⟨.unavailable, "simulation info not set"⟩ ↔
      ¬ (StateCache.after writes).simulationInfo.isSome := by
    simp only [response, SimulationService.getSimulationInfo]
    cases (StateCache.after writes).simulationInfo <;> simp
  refine ⟨fun info => (hok info).trans (StateCache.simulationInfo_eq_some writes info), ?_⟩
  rw [herror, StateCache.isSome_simulationInfo]
  push Not
  rfl

/-! ## 3. Which commands are admitted -/

/-- The write stores the group. -/
def Write.storesGroup (g : GroupId) (w : Write Fl) : Bool := (w.ofGroup g).any Option.isSome

/-- The write forgets the group, if it was there. -/
def Write.forgetsGroup (g : GroupId) (w : Write Fl) : Bool := (w.ofGroup g).any Option.isNone

namespace StateCache

/-- A group is cached exactly if it was stored and not forgotten since. -/
theorem isSome_groupAfter (writes : List (Write Fl)) (g : GroupId) :
    (groupAfter writes g).isSome ↔ ∃ before w rest, writes = before ++ w :: rest ∧
      w.storesGroup g ∧ ∀ w' ∈ rest, ¬ w'.forgetsGroup g := by
  -- whether it is there, whatever its fields
  let there (r : Registry Fl) : Option PUnit.{1} := (r.groups g).map fun _ => ⟨⟩
  have hstep : ∀ (r : Registry Fl) (w : Write Fl) v, there (w.effect r) = some v ↔
      (if w.storesGroup g then some ⟨⟩ else none) = some v ∨
        (there r = some v ∧ ¬ w.forgetsGroup g) := by
    intro r w v
    simp only [there, Write.effect_groups]
    rcases hsays : w.ofGroup g with _ | _ | stored <;>
      simp [Write.storesGroup, Write.forgetsGroup, hsays]
  have hthere : (groupAfter writes g).isSome ↔
      there (writes.foldl (fun r w => Write.effect w r) .empty) = some ⟨⟩ := by
    simp only [there, groups_effects]
    cases groupAfter writes g <;> simp
  rw [hthere, foldl_since_mem (fun (r : Registry Fl) w => Write.effect w r) there hstep rfl]
  simp

end StateCache

/-- **Which commands are admitted.**  `send_command` goes on to the engine exactly with the command
a well-formed request asks for, if the group that is to receive it was stored by some write, and no
write since has removed it, nor cleared the cache. -/
theorem command_admitted_iff (writes : List (Write Fl)) (request : Proto.SendCommandRequest Fl)
    (command : Command Fl) :
    accept (StateCache.after writes) request = .ok command ↔
      request.WellFormed ∧ command.toProto = request ∧
        ∃ before w rest, writes = before ++ w :: rest ∧ w.storesGroup command.groupId ∧
          ∀ w' ∈ rest, ¬ w'.forgetsGroup command.groupId := by
  have hcached : ((StateCache.after writes).getGroup command.groupId).isNone = false ↔
      (StateCache.groupAfter writes command.groupId).isSome := by
    rw [← StateCache.groups_after, StateCache.getGroup, Inner.joinedGroup, Option.isNone_map]
    cases (StateCache.after writes).inner.groups[command.groupId]? <;> simp
  rw [← StateCache.isSome_groupAfter, ← hcached]
  constructor
  · intro h
    obtain ⟨hproto, hformed⟩ := Command.fromProto_eq_ok.mp (proto_of_accept h)
    refine ⟨hformed, hproto, ?_⟩
    rw [accept, proto_of_accept h] at h
    dsimp only at h
    split at h
    · cases h
    · next hsome => exact eq_false_of_ne_true hsome
  · rintro ⟨hformed, hproto, hsome⟩
    rw [accept, Command.fromProto_eq_ok.mpr ⟨hproto, hformed⟩]
    dsimp only
    rw [hsome]
    rfl

/-! ## 4. Writes of one thing each -/

/-- What a write that sets or erases one thing is about. -/
inductive Target where
  | unit (id : UnitId)
  | group (id : GroupId)
  | simulationInfo
  | simulationState
  | locations
  deriving DecidableEq

inductive Content (Fl : Floats) where
  | unit (unit : Proto.Unit Fl)
  | group (group : Proto.Group Fl)
  | simulationInfo (info : Proto.SimulationInfo Fl)
  | simulationState (state : Proto.SimulationStateUpdate Fl)
  | locations (locations : List (Proto.Location Fl))

/-- The one thing a write sets or erases; `none` for a push of a group with its units, a removal of
a group, and a reset, which touch more than one. -/
def Write.target : Write Fl → Option Target
  | .upsertUnit unit => some (.unit (unitKey unit))
  | .removeUnit id => some (.unit id)
  | .upsertGroup group => some (.group (groupKey group))
  | .setSimulationInfo _ => some .simulationInfo
  | .setSimulationState _ => some .simulationState
  | .setLocations _ => some .locations
  | .upsertGroupWithUnits _ _ _ | .removeGroup _ | .clear _ => none

def Write.content : Write Fl → Option (Content Fl)
  | .upsertUnit unit => some (.unit unit)
  | .upsertGroup group => some (.group (bare group))
  | .setSimulationInfo info => some (.simulationInfo info)
  | .setSimulationState state => some (.simulationState state)
  | .setLocations locations => some (.locations locations)
  | .removeUnit _ | .upsertGroupWithUnits _ _ _ | .removeGroup _ | .clear _ => none

/-- The cache as one table. -/
def Inner.content (inner : Inner Fl) : Target → Option (Content Fl)
  | .unit id => inner.units[id]?.map .unit
  | .group id => inner.groups[id]?.map .group
  | .simulationInfo => inner.simulationInfo.map .simulationInfo
  | .simulationState => inner.simulationState.map .simulationState
  | .locations => some (.locations inner.locations)

namespace StateCache

theorem content_write_self {c : StateCache Fl} (h : c.inner.Consistent) {w : Write Fl} {t : Target}
    (ht : w.target = some t) : (c.write w).inner.content t = w.content := by
  cases w with
  | upsertUnit unit =>
    obtain rfl := Option.some.inj ht
    rw [Inner.content, write_units h, Write.effect, Registry.putUnit_units, Function.update_self]
    rfl
  | removeUnit id =>
    obtain rfl := Option.some.inj ht
    rw [Inner.content, write_units h, Write.effect, Registry.dropUnit_units, Function.update_self]
    rfl
  | upsertGroup group =>
    obtain rfl := Option.some.inj ht
    rw [Inner.content, write_groups h, Write.effect_groups, Write.ofGroup, if_pos rfl]
    rfl
  | setSimulationInfo info | setSimulationState state | setLocations locations =>
    obtain rfl := Option.some.inj ht
    rfl
  | upsertGroupWithUnits | removeGroup | clear => cases ht

theorem content_write_other {c : StateCache Fl} (h : c.inner.Consistent) {w : Write Fl}
    {t t' : Target} (ht : w.target = some t) (hne : t' ≠ t) :
    (c.write w).inner.content t' = c.inner.content t' := by
  obtain ⟨hinfo, hstate, hlocations⟩ := simulation_write c w
  cases t' with
  | unit id =>
    rw [Inner.content, Inner.content, write_units h]
    refine congrArg _ ?_
    cases w with
    | upsertUnit | removeUnit =>
      obtain rfl := Option.some.inj ht
      exact Function.update_of_ne (fun heq => hne (congrArg Target.unit heq)) _ _
    | upsertGroupWithUnits | removeGroup | clear => cases ht
    | _ => rfl
  | group id =>
    rw [Inner.content, Inner.content, write_groups h]
    refine congrArg _ ?_
    cases w with
    | upsertGroup =>
      obtain rfl := Option.some.inj ht
      exact Function.update_of_ne (fun heq => hne (congrArg Target.group heq)) _ _
    | upsertGroupWithUnits | removeGroup | clear => cases ht
    | _ => rfl
  | simulationInfo =>
    rw [Inner.content, Inner.content, hinfo]
    cases w with
    | setSimulationInfo => exact absurd (Option.some.inj ht) hne
    | clear => cases ht
    | _ => rfl
  | simulationState =>
    rw [Inner.content, Inner.content, hstate]
    cases w with
    | setSimulationState => exact absurd (Option.some.inj ht) hne
    | clear => cases ht
    | _ => rfl
  | locations =>
    rw [Inner.content, Inner.content, hlocations]
    cases w with
    | setLocations => exact absurd (Option.some.inj ht) hne
    | clear => cases ht
    | _ => rfl

theorem content_write {c : StateCache Fl} (h : c.inner.Consistent) {w : Write Fl} {t : Target}
    (ht : w.target = some t) :
    (c.write w).inner.content = Function.update c.inner.content t w.content := by
  funext t'
  by_cases hne : t' = t
  · subst hne
    rw [Function.update_self, content_write_self h ht]
  · rw [Function.update_of_ne hne, content_write_other h ht hne]

theorem content_run {c : StateCache Fl} (h : c.inner.Consistent) {log : List (Write Fl)}
    (hlog : ∀ w ∈ log, w.target.isSome) :
    (log.foldl write c).inner.content =
      replay Write.target Write.content c.inner.content log := by
  induction log generalizing c with
  | nil => rfl
  | cons w log ih =>
    obtain ⟨t, ht⟩ := Option.isSome_iff_exists.mp (hlog w List.mem_cons_self)
    rw [List.foldl_cons, ih (write_consistent h w) fun w' hw' => hlog w' (List.mem_cons_of_mem w hw'),
      content_write h ht, replay, replay, List.foldl_cons, ht]

theorem after_append (writes log : List (Write Fl)) :
    after (writes ++ log) = log.foldl write (after writes) := List.foldl_append

/-- Caches with the same contents answer alike. -/
theorem sameReads_of_content {c c' : StateCache Fl} (h : c.inner.Consistent)
    (h' : c'.inner.Consistent) (hcontent : c.inner.content = c'.inner.content) :
    SameReads c c' := by
  have hregistry : c.inner.registry h = c'.inner.registry h' := by
    refine Registry.ext (funext fun id => ?_) (funext fun id => ?_)
    · exact Option.map_injective (fun _ _ => Content.unit.inj) (congrFun hcontent (.unit id))
    · exact Option.map_injective (fun _ _ => Content.group.inj) (congrFun hcontent (.group id))
  refine sameReads_of_registry hregistry ?_ ?_ ?_
  · exact Option.map_injective (fun _ _ => Content.simulationInfo.inj)
      (congrFun hcontent .simulationInfo)
  · exact Option.map_injective (fun _ _ => Content.simulationState.inj)
      (congrFun hcontent .simulationState)
  · exact Content.locations.inj (Option.some.inj (congrFun hcontent .locations))

/-- **The last write counts.**  Let two engines, or one engine twice, write units one by one, the
fields of groups, and what there is of the simulation, in orders of their own.  If about each unit,
each group and each of the rest the last write is the same, the caches answer every read alike. -/
theorem last_write_counts (writes log log' : List (Write Fl))
    (hlog : ∀ w ∈ log, w.target.isSome) (hlog' : ∀ w ∈ log', w.target.isSome)
    (hlast : ∀ t, (concerning Write.target t log).getLast? =
      (concerning Write.target t log').getLast?) :
    SameReads (after (writes ++ log)) (after (writes ++ log')) := by
  refine sameReads_of_content (after_consistent _) (after_consistent _) ?_
  rw [after_append, after_append, content_run (after_consistent writes) hlog,
    content_run (after_consistent writes) hlog', replay_congr hlast]

/-- The side of a group is set twice, and a unit comes before the group it names or after it. -/
theorem last_write_counts_sample :
    SameReads
      (after ([.setLocations []] ++ [.upsertGroup (.sample "A" .opfor),
        .upsertUnit (.sample "u" "A"), .upsertGroup (.sample "A" .blufor)]))
      (after ([.setLocations []] ++ [.upsertGroup (.sample "A" .blufor),
        .upsertUnit (.sample "u" "A")]) : StateCache Floats.bits) := by
  refine last_write_counts _ _ _ (by decide) (by decide) fun t => ?_
  by_cases hgroup : t = .group (.ofStr "A")
  · subst hgroup
    rfl
  · by_cases hunit : t = .unit (.ofStr "u")
    · subst hunit
      rfl
    · have hg : ∀ side, (Write.upsertGroup (.sample "A" side)).target ≠ some t :=
        fun _ heq => hgroup (Option.some.inj heq).symm
      have hu : (Write.upsertUnit (.sample "u" "A")).target ≠ some t :=
        fun heq => hunit (Option.some.inj heq).symm
      simp [concerning, hg, hu]

/-! ## 5. A reset -/

theorem detachListed_sequence (inner : Inner Fl) (sequence : UInt64) (g : GroupId)
    (units : List (Proto.Unit Fl)) : detachListed { inner with sequence } g units =
      { detachListed inner g units with sequence } := by
  induction units generalizing inner with
  | nil => rfl
  | cons unit rest ih =>
    simp only [detachListed, List.foldl_cons]
    split
    · split
      · exact ih (inner.unlinkMember _ _)
      · exact ih inner
    · exact ih inner

/-- Nothing that a write does to the maps depends on the counter. -/
theorem commit_sequence_congr (w : Write Fl) (inner : Inner Fl) (sequence : UInt64) :
    w.commit { inner with sequence } = { w.commit inner with sequence } := by
  cases w with
  | upsertUnit unit =>
    have hmoved : ({ inner with sequence } : Inner Fl).movedFrom unit = inner.movedFrom unit := rfl
    simp only [Write.commit, Inner.placeUnit, hmoved]
    cases inner.movedFrom unit <;> rfl
  | removeUnit id =>
    simp only [Write.commit, Inner.dropUnit]
    cases inner.units[id]? <;> rfl
  | upsertGroup group => rfl
  | upsertGroupWithUnits order group units =>
    have hdetached := detachListed_sequence (inner.dropUnlisted (groupKey group)
      (.ofList ((units.map (assign (groupKey group))).map unitKey))) sequence (groupKey group)
      (units.map (assign (groupKey group)))
    simp only [Inner.dropUnlisted] at hdetached
    simp only [Write.commit, Inner.pushGroup, Inner.placeGroup, Inner.relist, Inner.dropUnlisted,
      hdetached]
  | removeGroup id =>
    simp only [Write.commit, Inner.takeGroup]
    split
    · cases inner.members[id]? <;> rfl
    · rfl
  | setSimulationInfo info => rfl
  | setSimulationState state => rfl
  | setLocations locations => rfl
  | clear order => rfl

theorem messages_sequence_congr (w : Write Fl) (inner : Inner Fl) (sequence : UInt64) :
    w.messages { inner with sequence } = w.messages inner := by
  have hfirst : w.announcedFirst { inner with sequence } = w.announcedFirst inner := by
    cases w <;> rfl
  have hcompared : w.compared { inner with sequence } = w.compared inner := by
    cases w <;> rfl
  rw [Write.messages, Write.messages, hfirst, hcompared, commit_sequence_congr]
  rfl

/-- The same cache, with other broadcasts behind it. -/
def resumed (c : StateCache Fl) (sequence : UInt64) (sent : List (Event (Message Fl))) :
    StateCache Fl :=
  ⟨{ c.inner with sequence := sequence + c.inner.sequence },
    sent ++ c.sent.map fun e => ⟨sequence + e.sequence, e.response⟩⟩

theorem stamp_shift (s sequence : UInt64) (messages : List (Message Fl)) :
    stamp (s + sequence) messages =
      (stamp sequence messages).map fun e => ⟨s + e.sequence, e.response⟩ := by
  induction messages generalizing sequence with
  | nil => rfl
  | cons message rest ih =>
    rw [stamp, stamp, List.map_cons, UInt64.add_assoc, ih]

theorem write_resumed (c : StateCache Fl) (w : Write Fl) (sequence : UInt64)
    (sent : List (Event (Message Fl))) :
    (c.resumed sequence sent).write w = (c.write w).resumed sequence sent := by
  have hinner : (c.resumed sequence sent).inner =
      { c.inner with sequence := sequence + c.inner.sequence } := rfl
  have heta : (c.resumed sequence sent).write w =
      ⟨((c.resumed sequence sent).write w).inner, ((c.resumed sequence sent).write w).sent⟩ := rfl
  rw [heta, write_inner, write_sent, hinner, commit_sequence_congr, messages_sequence_congr,
    stamp_shift, resumed, resumed, write_inner, write_sent, List.map_append, List.append_assoc,
    UInt64.add_assoc]

theorem foldl_resumed (c : StateCache Fl) (log : List (Write Fl)) (sequence : UInt64)
    (sent : List (Event (Message Fl))) :
    log.foldl write (c.resumed sequence sent) = (log.foldl write c).resumed sequence sent := by
  induction log generalizing c with
  | nil => rfl
  | cons w log ih => rw [List.foldl_cons, List.foldl_cons, write_resumed, ih]

end StateCache

/-- The same call, where the map it iterates over, if any, is iterated in this order. -/
def Write.inOrder (order : IterOrder GroupId) : Write Fl → Write Fl
  | .upsertGroupWithUnits _ group units => .upsertGroupWithUnits order group units
  | .clear _ => .clear order
  | w => w

theorem Write.commit_inOrder (order : IterOrder GroupId) (w : Write Fl) (inner : Inner Fl) :
    (w.inOrder order).commit inner = w.commit inner := by
  cases w <;> rfl

/-- The order of an iteration is the order of what the call announces, and nothing else. -/
theorem Write.messages_inOrder (order : IterOrder GroupId) (w : Write Fl) (inner : Inner Fl) :
    (w.messages inner).Perm ((w.inOrder order).messages inner) := by
  cases w with
  | upsertGroupWithUnits order' group units =>
    have hlosers : (StateCache.losers order' inner (groupKey group)
          (units.map (assign (groupKey group)))).Perm
        (StateCache.losers order inner (groupKey group) (units.map (assign (groupKey group)))) :=
      (order'.arrange_perm _).trans (order.arrange_perm _).symm
    exact ((hlosers.cons _).flatMap_right _).append_left _
  | clear order' =>
    have hkeys : (order'.arrange inner.groups.keys).Perm (order.arrange inner.groups.keys) :=
      (order'.arrange_perm _).trans (order.arrange_perm _).symm
    exact ((hkeys.map _).append_right _).append_right _
  | _ => exact List.Perm.refl _

namespace StateCache

/-- What each call of a log announces. -/
def bursts : List (Write Fl) → StateCache Fl → List (List (Message Fl))
  | [], _ => []
  | w :: log, c => w.messages c.inner :: bursts log (c.write w)

/-- And that is what is broadcast. -/
theorem sent_foldl (log : List (Write Fl)) (c : StateCache Fl) :
    (log.foldl write c).sent = c.sent ++ stamp c.inner.sequence (bursts log c).flatten := by
  induction log generalizing c with
  | nil => exact (List.append_nil _).symm
  | cons w log ih =>
    rw [List.foldl_cons, ih, write_sent, write_inner, bursts, List.flatten_cons, stamp_append,
      List.append_assoc]

/-- Caches that differ in the counter go on alike, but for the orders of their iterations. -/
theorem foldl_inOrder (later : List (Write Fl × IterOrder GroupId)) {c c' : StateCache Fl}
    {sequence : UInt64}
    (h : c'.inner = { c.inner with sequence := sequence + c.inner.sequence }) :
    let calls := later.map Prod.fst
    let reordered := later.map fun (w, order) => w.inOrder order
    List.Forall₂ List.Perm (bursts calls c) (bursts reordered c') ∧
      (reordered.foldl write c').inner = { (calls.foldl write c).inner with
        sequence := sequence + (calls.foldl write c).inner.sequence } := by
  intro calls reordered
  induction later generalizing c c' with
  | nil => exact ⟨.nil, h⟩
  | cons call later ih =>
    obtain ⟨w, order⟩ := call
    have hmessages : (w.messages c.inner).Perm ((w.inOrder order).messages c'.inner) := by
      rw [h, messages_sequence_congr (w.inOrder order) c.inner]
      exact w.messages_inOrder order c.inner
    have hnext : (c'.write (w.inOrder order)).inner = { (c.write w).inner with
        sequence := sequence + (c.write w).inner.sequence } := by
      rw [write_inner, write_inner, ← hmessages.length_eq, h, Write.commit_inOrder,
        commit_sequence_congr, UInt64.add_assoc]
    obtain ⟨hbursts, hinner⟩ := ih hnext
    exact ⟨.cons hmessages hbursts, hinner⟩

/-- **A reset is a new start.**  After a `clear` the cache does what a new one would do with the
calls since.  If the maps of both happen to be iterated in the same orders, the maps are the same,
and the events the same in the same order; only the sequence numbers go on from where they were.  In
orders of their own the maps are still the same, and each call announces the same, in an order of
its own. -/
theorem clear_restarts (before : List (Write Fl)) (order : IterOrder GroupId)
    (later : List (Write Fl × IterOrder GroupId)) :
    let cleared := after (before ++ [.clear order])
    let calls := later.map Prod.fst
    let fresh := after calls
    let reordered := later.map fun (w, order) => w.inOrder order
    let again := after (before ++ .clear order :: reordered)
    after (before ++ .clear order :: calls) =
      ⟨{ fresh.inner with sequence := cleared.inner.sequence + fresh.inner.sequence },
        cleared.sent ++ fresh.sent.map fun e => ⟨cleared.inner.sequence + e.sequence, e.response⟩⟩ ∧
    again.inner = { fresh.inner with
      sequence := cleared.inner.sequence + fresh.inner.sequence } ∧
    List.Forall₂ List.Perm (bursts calls new) (bursts reordered cleared) ∧
    fresh.sent = stamp 0 (bursts calls new).flatten ∧
    again.sent = cleared.sent ++ stamp cleared.inner.sequence (bursts reordered cleared).flatten := by
  intro cleared calls fresh reordered again
  have hinner : cleared.inner = { sequence := cleared.inner.sequence } := by
    simp only [cleared, after_concat, write_inner]
    rfl
  have hcleared : cleared = new.resumed cleared.inner.sequence cleared.sent := by
    have heta : cleared = ⟨cleared.inner, cleared.sent⟩ := rfl
    rw [resumed, new, List.map_nil, List.append_nil, UInt64.add_zero, ← hinner, ← heta]
  have hsplit : ∀ log : List (Write Fl),
      after (before ++ .clear order :: log) = log.foldl write cleared := fun log => by
    rw [List.append_cons, after_append]
  have hnew : cleared.inner = { (new : StateCache Fl).inner with
      sequence := cleared.inner.sequence + (new : StateCache Fl).inner.sequence } :=
    hinner.trans (by rw [new, UInt64.add_zero])
  obtain ⟨hbursts, hmaps⟩ := foldl_inOrder later hnew
  refine ⟨?_, ?_, hbursts, ?_, ?_⟩
  · rw [hsplit]
    exact (congrArg (calls.foldl write) hcleared).trans (foldl_resumed new calls _ _)
  · rw [show again = _ from hsplit reordered]
    exact hmaps
  · exact sent_foldl calls new
  · rw [show again = _ from hsplit reordered]
    exact sent_foldl reordered cleared

end StateCache

end MinervaServer
