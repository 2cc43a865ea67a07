/-
# The calls that read

`src/services/`: `parse_side`, and the unary calls that answer from the cache.  A call takes one
look at the cache, under the read lock, and answers with what it found or with a status.

The requests name a side by its raw value.  `read_services_agree` says what the answers are in the
terms of a client, which knows raw values and ids and nothing of the cache: each list is what the
calls that ask for one thing would give, one by one, filtered by the raw values; and a list is
refused exactly if the raw value that it asks for is none of the enum.
-/
import MinervaServer.Listings
import MinervaServer.Requests

namespace MinervaServer

open Lib

variable {Fl : Floats}

/-! ## 1. The services -/

/-- `Status::not_found`. -/
def Status.notFound (message : String) : Status := ⟨.notFound, message⟩

/-- `parse_side`: decodes an `optional Side` request field, rejecting out-of-range values. -/
def parseSide (side : Option Int32) : Except Status (Option Proto.Side) :=
  match side.map Proto.Side.tryFrom with
  | none => .ok none
  | some (some side) => .ok (some side)
  | some none => .error (.invalidArgument "invalid side")

namespace GroupService

/-- `list_groups`. -/
def listGroups (order : IterOrder GroupId) (state : StateCache Fl)
    (request : Proto.ListGroupsRequest) : Except Status (Proto.ListGroupsResponse Fl) := do
  let side ← parseSide request.side
  return { groups := state.listGroups order side }

/-- `get_group`. -/
def getGroup (state : StateCache Fl) (request : Proto.GetGroupRequest) :
    Except Status (Proto.GetGroupResponse Fl) :=
  match state.getGroup (.ofStr request.id) with
  | some group => .ok { group := some group }
  | none => .error (.notFound ("group " ++ request.id ++ " not found"))

end GroupService

namespace UnitService

/-- `get_unit`. -/
def getUnit (state : StateCache Fl) (request : Proto.GetUnitRequest) :
    Except Status (Proto.GetUnitResponse Fl) :=
  match state.getUnit (.ofStr request.id) with
  | some unit => .ok { unit := some unit }
  | none => .error (.notFound ("unit " ++ request.id ++ " not found"))

/-- `list_units`. -/
def listUnits (order : IterOrder UnitId) (state : StateCache Fl)
    (request : Proto.ListUnitsRequest) : Except Status (Proto.ListUnitsResponse Fl) := do
  let side ← parseSide request.side
  let groupId := request.groupId.map GroupId.ofStr
  return { units := state.listUnits order side groupId }

end UnitService

/-- `list_locations`. -/
def LocationService.listLocations (state : StateCache Fl) (request : Proto.ListLocationsRequest) :
    Except Status (Proto.ListLocationsResponse Fl) := do
  let side ← parseSide request.side
  return { locations := state.listLocations side }

/-- `get_simulation_info`. -/
def SimulationService.getSimulationInfo (state : StateCache Fl) :
    Except Status (Proto.GetSimulationInfoResponse Fl) :=
  match state.simulationInfo with
  | some info => .ok { info := some info }
  | none => .error ⟨.unavailable, "simulation info not set"⟩

/-! ## 2. Raw sides -/

theorem Proto.Side.tryFrom_eq_some {raw : Int32} {side : Proto.Side} :
    Proto.Side.tryFrom raw = some side ↔ raw = side.toI32 := by
  constructor
  · intro h
    unfold Proto.Side.tryFrom at h
    split_ifs at h <;> cases h <;> assumption
  · rintro rfl
    exact side.tryFrom_toI32

theorem parseSide_eq_ok {side : Option Int32} {parsed : Option Proto.Side} :
    parseSide side = .ok parsed ↔ side = parsed.map Proto.Side.toI32 := by
  unfold parseSide
  cases side with
  | none => cases parsed <;> simp
  | some raw =>
    rw [Option.map_some]
    cases hraw : Proto.Side.tryFrom raw with
    | some s =>
      obtain rfl := Proto.Side.tryFrom_eq_some.mp hraw
      cases parsed with
      | none => simp
      | some s' =>
        simp only [Except.ok.injEq, Option.some.injEq, Option.map_some]
        exact ⟨congrArg _, fun h => Option.some.inj
          ((s.tryFrom_toI32).symm.trans ((congrArg _ h).trans s'.tryFrom_toI32))⟩
    | none =>
      cases parsed with
      | none => simp
      | some s' =>
        simp only [reduceCtorEq, Option.map_some, Option.some.injEq, false_iff]
        rintro rfl
        rw [s'.tryFrom_toI32] at hraw
        cases hraw

/-- The one status of `parse_side`, and when it comes. -/
theorem parseSide_eq_error {side : Option Int32} {status : Status} :
    parseSide side = .error status ↔
      status = .invalidArgument "invalid side" ∧ ∃ raw, side = some raw ∧
        ∀ s : Proto.Side, raw ≠ s.toI32 := by
  unfold parseSide
  cases side with
  | none => simp
  | some raw =>
    rw [Option.map_some]
    cases hraw : Proto.Side.tryFrom raw with
    | some s =>
      obtain rfl := Proto.Side.tryFrom_eq_some.mp hraw
      simp
    | none =>
      have hunknown : ∀ s : Proto.Side, raw ≠ s.toI32 := fun s h => by
        rw [Proto.Side.tryFrom_eq_some.mpr h] at hraw
        cases hraw
      simp [hunknown, eq_comm]

/-- A filter that was parsed compares raw values. -/
theorem matchesSide_parsed {side : Option Int32} {parsed : Option Proto.Side}
    (h : parseSide side = .ok parsed) (raw : Int32) :
    StateCache.matchesSide parsed raw = true ↔ ∀ r, side = some r → raw = r := by
  rw [parseSide_eq_ok] at h
  subst h
  cases parsed with
  | none => simp [StateCache.matchesSide]
  | some s => simp [matchesSide_some, Proto.Side.tryFrom_eq_some]

/-! ## 3. What a client is answered -/

theorem getGroup_eq_ok {c : StateCache Fl} {id : String} {group : Proto.Group Fl} :
    GroupService.getGroup c ⟨id⟩ = .ok ⟨some group⟩ ↔ c.getGroup (.ofStr id) = some group := by
  unfold GroupService.getGroup
  cases c.getGroup (.ofStr id) <;> simp

theorem getUnit_eq_ok {c : StateCache Fl} {id : String} {unit : Proto.Unit Fl} :
    UnitService.getUnit c ⟨id⟩ = .ok ⟨some unit⟩ ↔ c.getUnit (.ofStr id) = some unit := by
  unfold UnitService.getUnit
  cases c.getUnit (.ofStr id) <;> simp

/-- A list that was answered is the list of the cache, by the side that was parsed. -/
theorem parsed_of_answered {A : Type} {side : Option Int32} {list : Option Proto.Side → A}
    {response : A} (h : (do let parsed ← parseSide side; return list parsed) = .ok response) :
    ∃ parsed, parseSide side = .ok parsed ∧ list parsed = response := by
  obtain ⟨parsed, hparsed, h⟩ := Command.except_bind_eq_ok.mp h
  exact ⟨parsed, hparsed, Except.ok.inj h⟩

/-- A list is refused by its side alone. -/
theorem refused_iff {A : Type} {side : Option Int32} {list : Option Proto.Side → A}
    {status : Status} :
    (do let parsed ← parseSide side; return list parsed) = .error status ↔
      parseSide side = .error status := by
  cases parseSide side <;> simp [bind, Except.bind, pure, Except.pure]

namespace StateCache

theorem mem_answered_groups {c : StateCache Fl} (h : c.inner.Consistent)
    {order : IterOrder GroupId} {side : Option Int32} {parsed : Option Proto.Side}
    (hparsed : parseSide side = .ok parsed) {group : Proto.Group Fl} :
    group ∈ c.listGroups order parsed ↔ GroupService.getGroup c ⟨group.id⟩ = .ok ⟨some group⟩ ∧
      ∀ raw, side = some raw → group.side = raw := by
  rw [listGroups, mem_matchingGroups, getGroup_eq_ok]
  constructor
  · rintro ⟨g, hview, hside⟩
    obtain rfl := Inner.groupKey_of_joinedGroup h hview
    exact ⟨hview, (matchesSide_parsed hparsed _).mp hside⟩
  · rintro ⟨hview, hside⟩
    exact ⟨_, hview, (matchesSide_parsed hparsed _).mpr hside⟩

/-- The side of a unit is the side of the group that `get_group` gives. -/
theorem unitSide_answered {c : StateCache Fl} {unit : Proto.Unit Fl} {side : Option Int32}
    {parsed : Option Proto.Side} (hparsed : parseSide side = .ok parsed) :
    (∀ s, parsed = some s → unitSide c.inner unit = some s) ↔
      ∀ raw, side = some raw → ∃ group,
        GroupService.getGroup c ⟨unit.groupId⟩ = .ok ⟨some group⟩ ∧ group.side = raw := by
  obtain rfl := parseSide_eq_ok.mp hparsed
  cases parsed with
  | none => simp
  | some s =>
    simp only [Option.some.injEq, forall_eq', Option.map_some, getGroup_eq_ok, unitSide_eq_some,
      Proto.Side.tryFrom_eq_some]
    constructor
    · rintro ⟨stored, hstored, hside⟩
      refine ⟨{ stored with units := c.inner.memberUnits (groupOf unit) }, ?_, hside⟩
      exact Option.map_eq_some_iff.mpr ⟨stored, hstored, rfl⟩
    · rintro ⟨group, hview, hside⟩
      obtain ⟨stored, hstored, rfl⟩ := Option.map_eq_some_iff.mp hview
      exact ⟨stored, hstored, hside⟩

theorem mem_answered_units {c : StateCache Fl} (h : c.inner.Consistent) {order : IterOrder UnitId}
    {side : Option Int32} {parsed : Option Proto.Side} (hparsed : parseSide side = .ok parsed)
    {g : Option String} {unit : Proto.Unit Fl} :
    unit ∈ c.listUnits order parsed (g.map GroupId.ofStr) ↔
      UnitService.getUnit c ⟨unit.id⟩ = .ok ⟨some unit⟩ ∧
        (∀ id, g = some id → unit.groupId = id) ∧
        ∀ raw, side = some raw → ∃ group,
          GroupService.getGroup c ⟨unit.groupId⟩ = .ok ⟨some group⟩ ∧ group.side = raw := by
  have hgroup : (∀ id, g.map GroupId.ofStr = some id → groupOf unit = id) ↔
      ∀ id, g = some id → unit.groupId = id := by
    cases g with
    | none => simp
    | some id =>
      simp only [Option.map_some, Option.some.injEq, forall_eq']
      exact ⟨congrArg GroupId.str, congrArg GroupId.ofStr⟩
  rw [mem_listUnits, hgroup, unitSide_answered hparsed, Inner.stored_iff h, getUnit_eq_ok]
  rfl

/-- **The calls that read agree with one another**, in every reachable state and whatever order
a list comes in.

A list of groups has exactly the groups that `get_group` gives, once each, a list of units exactly
the units that `get_unit` gives, once each, and each group lists the units that name it; the filters
compare raw values, and the side of a unit is the side of the group that `get_group` gives for it;
locations keep their order.  A list is refused exactly for a raw side outside the enum. -/
theorem read_services_agree (writes : List (Write Fl)) (orderU : IterOrder UnitId)
    (orderG : IterOrder GroupId) :
    let c := after writes
    (∀ side response, GroupService.listGroups orderG c ⟨side⟩ = .ok response →
      (∀ group, group ∈ response.groups ↔ GroupService.getGroup c ⟨group.id⟩ = .ok ⟨some group⟩ ∧
        ∀ raw, side = some raw → group.side = raw) ∧
      (response.groups.map Proto.Group.id).Nodup) ∧
    (∀ side g response, UnitService.listUnits orderU c ⟨side, g⟩ = .ok response →
      (∀ unit, unit ∈ response.units ↔ UnitService.getUnit c ⟨unit.id⟩ = .ok ⟨some unit⟩ ∧
        (∀ id, g = some id → unit.groupId = id) ∧
        ∀ raw, side = some raw → ∃ group,
          GroupService.getGroup c ⟨unit.groupId⟩ = .ok ⟨some group⟩ ∧ group.side = raw) ∧
      (response.units.map Proto.Unit.id).Nodup) ∧
    (∀ id group, GroupService.getGroup c ⟨id⟩ = .ok ⟨some group⟩ → group.id = id ∧
      ∀ unit, unit ∈ group.units ↔
        UnitService.getUnit c ⟨unit.id⟩ = .ok ⟨some unit⟩ ∧ unit.groupId = id) ∧
    (∀ all side response, LocationService.listLocations c ⟨none⟩ = .ok all →
      LocationService.listLocations c ⟨side⟩ = .ok response →
      response.locations = all.locations.filter fun location =>
        side.all fun raw => location.owner = raw) ∧
    ∀ side status, (GroupService.listGroups orderG c ⟨side⟩ = .error status ↔
        status = .invalidArgument "invalid side" ∧
          ∃ raw, side = some raw ∧ ∀ s : Proto.Side, raw ≠ s.toI32) ∧
      (∀ g, UnitService.listUnits orderU c ⟨side, g⟩ = .error status ↔
        GroupService.listGroups orderG c ⟨side⟩ = .error status) ∧
      (LocationService.listLocations c ⟨side⟩ = .error status ↔
        GroupService.listGroups orderG c ⟨side⟩ = .error status) := by
  intro c
  have hc : c.inner.Consistent := after_consistent writes
  refine ⟨?_, ?_, ?_, ?_, fun side status => ⟨?_, fun g => ?_, ?_⟩⟩
  · intro side response hanswer
    obtain ⟨parsed, hparsed, rfl⟩ := parsed_of_answered hanswer
    refine ⟨fun group => mem_answered_groups hc hparsed, ?_⟩
    rw [List.nodup_iff_pairwise_ne, List.pairwise_map]
    exact pairwise_matchingGroups hc orderG parsed
  · intro side g response hanswer
    obtain ⟨parsed, hparsed, rfl⟩ := parsed_of_answered hanswer
    refine ⟨fun unit => mem_answered_units hc hparsed, List.Nodup.of_map UnitId.ofStr ?_⟩
    rw [List.map_map]
    exact nodup_listUnits hc orderU parsed (g.map GroupId.ofStr)
  · intro id group hanswer
    have hview := getGroup_eq_ok.mp hanswer
    have hkey := Inner.groupKey_of_joinedGroup hc hview
    refine ⟨congrArg GroupId.str hkey, fun unit => ?_⟩
    rw [Inner.units_of_joinedGroup hview, Inner.mem_memberUnits hc, getUnit_eq_ok]
    exact and_congr_right fun _ => ⟨congrArg GroupId.str, congrArg GroupId.ofStr⟩
  · intro all side response hall hanswer
    obtain ⟨parsed, hparsed, rfl⟩ := parsed_of_answered hanswer
    obtain ⟨parsed', hparsed', rfl⟩ := parsed_of_answered hall
    obtain rfl := Except.ok.inj hparsed'
    simp only [listLocations, List.filter_filter]
    refine List.filter_congr fun location _ => ?_
    rw [Bool.eq_iff_iff, matchesSide_parsed hparsed]
    cases side <;> simp [matchesSide]
  · exact refused_iff.trans parseSide_eq_error
  · exact refused_iff.trans refused_iff.symm
  · exact refused_iff.trans refused_iff.symm

end StateCache

end MinervaServer
