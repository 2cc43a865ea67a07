/-
# The protobuf messages the cache stores and sends

`src/gen/minerva/v1/minerva.v1.rs`: the messages that reach the cache, the update streams and the
dispatcher, and the requests and responses of the calls that read.

The cache compares whole messages (`after == before`), and some of their fields are floats.  A
`Floats` says what the two float types are and that equality on them can be decided.  Then `==` of
messages is equality, and that is an assumption: in the source it goes down to the `==` of floats,
for which NaN is not itself and `0.0` is `-0.0`.  A message with a NaN in it is announced again by a
write that repeats it, and a change of nothing but the sign of a zero is not announced.
-/
import MinervaServer.Ids

namespace MinervaServer

/-- The types `f32` and `f64`, with an equality that is taken to be lawful. -/
structure Floats where
  F32 : Type
  F64 : Type
  [eq32 : DecidableEq F32]
  [eq64 : DecidableEq F64]

attribute [instance] Floats.eq32 Floats.eq64

/-- Floats by their bit patterns, for runs that are evaluated. -/
def Floats.bits : Floats := ⟨UInt32, UInt64⟩

namespace Proto

/-! ## 1. Sides -/

/-- Side (faction affiliation) of a unit, group or location. -/
inductive Side where
  | unspecified
  | blufor
  | opfor
  | independent
  | civilian
  deriving DecidableEq, Repr

/-- `side as i32`. -/
def Side.toI32 : Side → Int32
  | .unspecified => 0
  | .blufor => 1
  | .opfor => 2
  | .independent => 3
  | .civilian => 4

/-- `Side::try_from(i32)`; `none` is the error of an unknown enumeration value. -/
def Side.tryFrom (value : Int32) : Option Side :=
  if value = 0 then some .unspecified
  else if value = 1 then some .blufor
  else if value = 2 then some .opfor
  else if value = 3 then some .independent
  else if value = 4 then some .civilian
  else none

theorem Side.tryFrom_toI32 (side : Side) : Side.tryFrom side.toI32 = some side := by
  cases side <;> decide

/-! ## 2. Units and groups -/

structure Position (Fl : Floats) where
  x : Fl.F64
  y : Fl.F64
  z : Fl.F64
  deriving DecidableEq

structure Orientation (Fl : Floats) where
  direction : Fl.F32
  pitch : Fl.F32
  roll : Fl.F32
  deriving DecidableEq

structure Velocity (Fl : Floats) where
  x : Fl.F32
  y : Fl.F32
  z : Fl.F32
  deriving DecidableEq

structure Weapon where
  deriving DecidableEq

structure LoadoutState where
  weapon : List Weapon
  deriving DecidableEq

structure HealthState (Fl : Floats) where
  health : Fl.F32
  damageEffects : List String
  deriving DecidableEq

structure UnitState (Fl : Floats) where
  position : Option (Position Fl)
  orientation : Option (Orientation Fl)
  velocity : Option (Velocity Fl)
  health : Option (HealthState Fl)
  loadout : Option LoadoutState
  deriving DecidableEq

structure Unit (Fl : Floats) where
  id : String
  /-- Id of the group this unit belongs to. -/
  groupId : String
  category : Int32
  type : String
  state : Option (UnitState Fl)
  deriving DecidableEq

structure Waypoint (Fl : Floats) where
  type : Int32
  position : Option (Position Fl)
  deriving DecidableEq

structure GroupReadiness (Fl : Floats) where
  fuelState : Fl.F32
  ammoState : Fl.F32
  healthState : Fl.F32
  deriving DecidableEq

structure Group (Fl : Floats) where
  id : String
  side : Int32
  readiness : Option (GroupReadiness Fl)
  hasTask : Bool
  waypoints : List (Waypoint Fl)
  /-- The group's full current membership. -/
  units : List (Unit Fl)
  deriving DecidableEq

/-- A unit that is nothing but its id and its group, for runs that are evaluated. -/
def Unit.sample (id groupId : String) : Unit Floats.bits := ⟨id, groupId, 0, "", none⟩

/-- A group that is nothing but its id and its side, for runs that are evaluated. -/
def Group.sample (id : String) (side : Side) : Group Floats.bits :=
  ⟨id, side.toI32, none, false, [], []⟩

/-! ## 3. Simulation and locations -/

structure Faction where
  name : String
  side : Int32
  deriving DecidableEq

structure WorldSize (Fl : Floats) where
  xMeters : Fl.F64
  yMeters : Fl.F64
  deriving DecidableEq

structure SimulationInfo (Fl : Floats) where
  worldName : String
  worldSize : Option (WorldSize Fl)
  factions : List Faction
  simulationStartSimTime : Int64
  simulationStartRealTime : Int64
  deriving DecidableEq

structure Weather (Fl : Floats) where
  overcast : Fl.F32
  windSpeed : Fl.F32
  windDirection : Fl.F32
  deriving DecidableEq

structure SimulationStateUpdate (Fl : Floats) where
  simulationTime : Int64
  timeAcceleration : Fl.F32
  weather : Option (Weather Fl)
  deriving DecidableEq

/-- A simulation state that is nothing but its time, for runs that are evaluated. -/
def SimulationStateUpdate.sample (time : Int64) : SimulationStateUpdate Floats.bits :=
  ⟨time, (0 : UInt32), none⟩

structure Location (Fl : Floats) where
  id : String
  name : String
  capabilities : List Int32
  position : Option (Position Fl)
  resources : Lib.HashMap String Fl.F64
  owner : Int32

/-! ## 4. The two update streams -/

/-- The oneof of `SubscribeGroupUpdatesResponse`. -/
inductive GroupUpdate (Fl : Floats) where
  /-- The group was created or changed. -/
  | upserted (group : Group Fl)
  /-- The group with this id should no longer be tracked. -/
  | removedId (id : String)
  deriving DecidableEq

structure SubscribeGroupUpdatesResponse (Fl : Floats) where
  event : Option (GroupUpdate Fl)
  deriving DecidableEq

structure SubscribeSimulationUpdatesResponse (Fl : Floats) where
  state : Option (SimulationStateUpdate Fl)
  deriving DecidableEq

/-! ## 5. Commands -/

/-- A command's destination. -/
structure CommandTarget (Fl : Floats) where
  x : Fl.F64
  y : Fl.F64
  z : Option Fl.F64
  deriving DecidableEq

structure MoveCommand (Fl : Floats) where
  position : Option (CommandTarget Fl)
  groupId : String
  deriving DecidableEq

structure SearchAndDestroyCommand (Fl : Floats) where
  position : Option (CommandTarget Fl)
  groupId : String
  deriving DecidableEq

structure DefendZoneCommand (Fl : Floats) where
  groupId : String
  zoneId : String
  position : Option (CommandTarget Fl)
  deriving DecidableEq

structure PatrolCommand (Fl : Floats) where
  groupId : String
  waypoints : List (CommandTarget Fl)
  loop : Bool
  deriving DecidableEq

structure SupportCommand where
  supporterGroupId : String
  supportedGroupId : String
  supportType : String
  deriving DecidableEq, Repr

/-- The oneof of `SendCommandRequest`. -/
inductive Oneof (Fl : Floats) where
  | move (c : MoveCommand Fl)
  | searchAndDestroy (c : SearchAndDestroyCommand Fl)
  | defendZone (c : DefendZoneCommand Fl)
  | patrol (c : PatrolCommand Fl)
  | support (c : SupportCommand)
  deriving DecidableEq

structure SendCommandRequest (Fl : Floats) where
  command : Option (Oneof Fl)
  deriving DecidableEq

inductive CommandResult where
  | unspecified
  | success
  | failure
  deriving DecidableEq, Repr

/-- `result as i32`. -/
def CommandResult.toI32 : CommandResult → Int32
  | .unspecified => 0
  | .success => 1
  | .failure => 2

structure SendCommandResponse where
  result : Int32
  reason : String
  deriving DecidableEq, Repr

/-! ## 6. Requests that read -/

structure GetUnitRequest where
  id : String

structure GetUnitResponse (Fl : Floats) where
  unit : Option (Unit Fl)

structure ListUnitsRequest where
  side : Option Int32
  groupId : Option String

structure ListUnitsResponse (Fl : Floats) where
  units : List (Unit Fl)

structure ListGroupsRequest where
  side : Option Int32

structure ListGroupsResponse (Fl : Floats) where
  groups : List (Group Fl)

structure GetGroupRequest where
  id : String

structure GetGroupResponse (Fl : Floats) where
  group : Option (Group Fl)

structure SubscribeGroupUpdatesRequest where
  side : Option Int32

structure ListLocationsRequest where
  side : Option Int32

structure ListLocationsResponse (Fl : Floats) where
  locations : List (Location Fl)

structure GetSimulationInfoResponse (Fl : Floats) where
  info : Option (SimulationInfo Fl)

end Proto

end MinervaServer
