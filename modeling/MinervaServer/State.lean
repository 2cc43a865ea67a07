/-
# The state cache

`src/state.rs`, as the code computes it: `Inner`, the writes of `StateCache` one by one, its
reads, and the snapshots its two subscriptions take.

`StateCache` here is what one holder of the write lock sees: the locked value `inner`, and
`sent`, everything broadcast so far on the two channels in the order it was sent.  (Each channel
is the part of `sent` that is its own: `groupUpdates`, `simulationUpdates`.  What a bounded
channel keeps of it is the receivers' concern, `Subscription.lean`.)

Rust's `u64` sequence counter is `UInt64`, whose `+` wraps around, as `+=` does in a release
build.  Where the code iterates over a `HashMap`, the function takes the order of that
iteration as an argument.
-/
import MinervaServer.Proto
import MinervaServer.Lib.Index

namespace MinervaServer

open Lib

variable {Fl : Floats}

/-! ## 1. Events -/

/-- A broadcast on one of the channels, with the cache's sequence number as of the write that
produced it.  `GroupEvent` and `SimulationEvent` are its two instances. -/
structure Event (M : Type) where
  sequence : UInt64
  response : M
  deriving DecidableEq

abbrev GroupEvent (Fl : Floats) := Event (Proto.SubscribeGroupUpdatesResponse Fl)

abbrev SimulationEvent (Fl : Floats) := Event (Proto.SubscribeSimulationUpdatesResponse Fl)

/-- What a write hands to one of the two senders. -/
inductive Message (Fl : Floats) where
  | group (response : Proto.SubscribeGroupUpdatesResponse Fl)
  | simulation (response : Proto.SubscribeSimulationUpdatesResponse Fl)
  deriving DecidableEq

/-- A message for the group channel. -/
@[simp] def Message.asGroup : Message Fl → Option (Proto.SubscribeGroupUpdatesResponse Fl)
  | .group response => some response
  | .simulation _ => none

/-- A message for the simulation channel. -/
@[simp] def Message.asSimulation : Message Fl → Option (Proto.SubscribeSimulationUpdatesResponse Fl)
  | .group _ => none
  | .simulation response => some response

/-- The part of the broadcasts that is on one channel. -/
def channel {M : Type} (part : Message Fl → Option M) (sent : List (Event (Message Fl))) :
    List (Event M) :=
  sent.filterMap fun e => (part e.response).map fun response => ⟨e.sequence, response⟩

def groupUpserted (group : Proto.Group Fl) : Proto.SubscribeGroupUpdatesResponse Fl :=
  ⟨some (.upserted group)⟩

def groupRemoved (id : String) : Proto.SubscribeGroupUpdatesResponse Fl :=
  ⟨some (.removedId id)⟩

/-! ## 2. The locked value -/

structure Inner (Fl : Floats) where
  units : HashMap UnitId (Proto.Unit Fl) := ∅
  groups : HashMap GroupId (Proto.Group Fl) := ∅
  /-- Which units currently belong to each group, derived from `units`' `groupId` field. -/
  members : HashMap GroupId (BTreeSet UnitId) := ∅
  simulationInfo : Option (Proto.SimulationInfo Fl) := none
  simulationState : Option (Proto.SimulationStateUpdate Fl) := none
  locations : List (Proto.Location Fl) := []
  sequence : UInt64 := 0

/-- `GroupId::from(unit.group_id.as_str())`: the group a unit names. -/
def groupOf (unit : Proto.Unit Fl) : GroupId := .ofStr unit.groupId

/-- `UnitId::from(unit.id.as_str())`. -/
def unitKey (unit : Proto.Unit Fl) : UnitId := .ofStr unit.id

/-- `GroupId::from(group.id.as_str())`. -/
def groupKey (group : Proto.Group Fl) : GroupId := .ofStr group.id

namespace Inner

def nextSequence (inner : Inner Fl) : UInt64 × Inner Fl :=
  (inner.sequence + 1, { inner with sequence := inner.sequence + 1 })

def memberUnits (inner : Inner Fl) (id : GroupId) : List (Proto.Unit Fl) :=
  join inner.members inner.units id

/-- The group's stored fields joined with its current members, or `none` if the group isn't
cached (regardless of whether it has members). -/
def joinedGroup (inner : Inner Fl) (id : GroupId) : Option (Proto.Group Fl) :=
  inner.groups[id]?.map fun group => { group with units := inner.memberUnits id }

/-- Detaches `unitId` from `groupId`'s member set, dropping the set once it's empty. -/
def unlinkMember (inner : Inner Fl) (groupId : GroupId) (unitId : UnitId) : Inner Fl :=
  { inner with members := unlink inner.members groupId unitId }

end Inner

/-! ## 3. The cache and what it broadcasts -/

/-- `BROADCAST_CAPACITY`: the number of buffered messages per update stream. -/
def broadcastCapacity : Nat := 256

structure StateCache (Fl : Floats) where
  inner : Inner Fl
  sent : List (Event (Message Fl))

namespace StateCache

def new : StateCache Fl := ⟨{}, []⟩

/-- Draw the next sequence number and send one event. -/
def send (c : StateCache Fl) (message : Message Fl) : StateCache Fl :=
  let (sequence, inner) := c.inner.nextSequence
  ⟨inner, c.sent ++ [⟨sequence, message⟩]⟩

/-- Sends an event for `id` if its joined value now differs from `before` (its value just prior
to the write in progress). -/
def emitIfChanged (c : StateCache Fl) (id : GroupId) (before : Option (Proto.Group Fl)) :
    StateCache Fl :=
  let after := c.inner.joinedGroup id
  if after = before then c
  else c.send (.group (match after with
    | some group => groupUpserted group
    | none => groupRemoved id.str))

/-- Replaces a group's stored (unit-less) fields, broadcasting a removal first if this changed
its side. -/
def replaceGroupFields (c : StateCache Fl) (id : GroupId) (group : Proto.Group Fl) :
    StateCache Fl :=
  let previousSide := c.inner.groups[id]?.map fun existing => existing.side
  let c := { c with inner := { c.inner with groups := c.inner.groups.insert id group } }
  if previousSide.any fun previous => previous ≠ group.side then
    c.send (.group (groupRemoved group.id))
  else c

/-! ## 4. Writes -/

/-- Upserts a single unit without otherwise touching group membership. -/
def upsertUnit (c : StateCache Fl) (unit : Proto.Unit Fl) : StateCache Fl :=
  let inner := c.inner
  let id := unitKey unit
  let newGroup := groupOf unit
  let oldGroup := inner.units[id]?.map groupOf
  let beforeNew := inner.joinedGroup newGroup
  let beforeOld := (oldGroup.filter fun old => old ≠ newGroup).map fun old =>
    (old, inner.joinedGroup old)
  let inner := match beforeOld with
    | some (old, _) => inner.unlinkMember old id
    | none => inner
  let inner := { inner with
    members := inner.members.insert newGroup ((inner.members[newGroup]?.getD ∅).insert id) }
  let inner := { inner with units := inner.units.insert id unit }
  let c := { c with inner }.emitIfChanged newGroup beforeNew
  match beforeOld with
  | some (old, before) => c.emitIfChanged old before
  | none => c

/-- Removes a unit and re-broadcasts the group it belonged to. -/
def removeUnit (c : StateCache Fl) (id : UnitId) : StateCache Fl × Option (Proto.Unit Fl) :=
  let groupId := c.inner.units[id]?.map groupOf
  let before := groupId.bind fun id => c.inner.joinedGroup id
  let removed := c.inner.units[id]?
  let c := { c with inner := { c.inner with units := c.inner.units.erase id } }
  match groupId with
  | some groupId =>
    ({ c with inner := c.inner.unlinkMember groupId id }.emitIfChanged groupId before, removed)
  | none => (c, removed)

/-- Upserts a group's own fields without touching its membership; `group.units` is ignored. -/
def upsertGroup (c : StateCache Fl) (group : Proto.Group Fl) : StateCache Fl :=
  let group := { group with units := [] }
  let id := groupKey group
  let before := c.inner.joinedGroup id
  (c.replaceGroupFields id group).emitIfChanged id before

/-- Every other group that will lose a member to this write, with its value before it. -/
def otherBefore (inner : Inner Fl) (groupId : GroupId) (units : List (Proto.Unit Fl)) :
    HashMap GroupId (Option (Proto.Group Fl)) :=
  units.foldl (fun others unit =>
    match inner.units[unitKey unit]? with
    | some existing =>
      let previousGroup := groupOf existing
      if previousGroup ≠ groupId then
        others.insertIfNew previousGroup (inner.joinedGroup previousGroup)
      else others
    | none => others) ∅

/-- Detaches every listed unit from wherever it used to belong (if different). -/
def detachListed (inner : Inner Fl) (groupId : GroupId) (units : List (Proto.Unit Fl)) :
    Inner Fl :=
  units.foldl (fun inner unit =>
    let id := unitKey unit
    match inner.units[id]? with
    | some existing =>
      let previousGroup := groupOf existing
      if previousGroup ≠ groupId then inner.unlinkMember previousGroup id else inner
    | none => inner) inner

/-- Upserts a group's fields and replaces its member set: any unit previously in this group but
not in `units` is dropped, and a unit listed here that belonged to a different group is moved.
`order` is the order the map of the other groups is iterated in. -/
def upsertGroupWithUnits (order : IterOrder GroupId) (c : StateCache Fl) (group : Proto.Group Fl)
    (units : List (Proto.Unit Fl)) : StateCache Fl :=
  let group := { group with units := [] }
  let inner := c.inner
  let groupId := groupKey group
  let units := units.map fun unit => { unit with groupId := groupId.str }
  let newIds : BTreeSet UnitId := .ofList (units.map unitKey)
  let others := otherBefore inner groupId units
  let before := inner.joinedGroup groupId
  -- drop members no longer listed
  let oldIds := inner.members[groupId]?.getD ∅
  let inner := { inner with
    units := (oldIds.toList.filter (· ∉ newIds)).foldl (fun units id => units.erase id)
      inner.units }
  let inner := detachListed inner groupId units
  let inner := { inner with members := inner.members.insert groupId newIds }
  let inner := { inner with
    units := units.foldl (fun m unit => m.insert (unitKey unit) unit) inner.units }
  let c := { c with inner }.replaceGroupFields groupId group
  let c := c.emitIfChanged groupId before
  (entries order others).foldl (fun c (otherId, before) => c.emitIfChanged otherId before) c

/-- Removes a group and every unit that belonged to it, broadcasting a single removal. -/
def removeGroup (c : StateCache Fl) (id : GroupId) : StateCache Fl × Option (Proto.Group Fl) :=
  if id ∉ c.inner.groups then (c, none)
  else
    let removed := c.inner.joinedGroup id
    let inner := { c.inner with groups := c.inner.groups.erase id }
    let inner := match inner.members[id]? with
      | some members => { inner with
          members := inner.members.erase id
          units := members.toList.foldl (fun units unitId => units.erase unitId) inner.units }
      | none => inner
    ({ c with inner }.send (.group (groupRemoved id.str)), removed)

def setSimulationInfo (c : StateCache Fl) (info : Proto.SimulationInfo Fl) : StateCache Fl :=
  { c with inner := { c.inner with simulationInfo := some info } }

def setSimulationState (c : StateCache Fl) (state : Proto.SimulationStateUpdate Fl) :
    StateCache Fl :=
  { c with inner := { c.inner with simulationState := some state } }.send
    (.simulation ⟨some state⟩)

def setLocations (c : StateCache Fl) (locations : List (Proto.Location Fl)) : StateCache Fl :=
  { c with inner := { c.inner with locations } }

/-- Drops all cached state, broadcasting a removal for every group that was present and a
`none` simulation update.  `order` is the order the group ids are collected in. -/
def clear (order : IterOrder GroupId) (c : StateCache Fl) : StateCache Fl :=
  let ids := (entries order c.inner.groups).map fun (id, _) => id.str
  let c := { c with inner := { sequence := c.inner.sequence } }
  let c := ids.foldl (fun c id => c.send (.group (groupRemoved id))) c
  c.send (.simulation ⟨none⟩)

/-! ## 5. Reads -/

def getUnit (c : StateCache Fl) (id : UnitId) : Option (Proto.Unit Fl) := c.inner.units[id]?

/-- `side.is_none_or(|side| Side::try_from(raw) == Ok(side))`: the filter of every list. -/
def matchesSide (side : Option Proto.Side) (raw : Int32) : Bool :=
  side.all fun side => Proto.Side.tryFrom raw = some side

def unitSide (inner : Inner Fl) (unit : Proto.Unit Fl) : Option Proto.Side :=
  inner.groups[groupOf unit]?.bind fun group => Proto.Side.tryFrom group.side

def listUnits (order : IterOrder UnitId) (c : StateCache Fl) (side : Option Proto.Side)
    (groupId : Option GroupId) : List (Proto.Unit Fl) :=
  (((entries order c.inner.units).map Prod.snd).filter fun unit =>
    groupId.all fun id => unit.groupId = id.str).filter fun unit =>
    side.all fun side => unitSide c.inner unit = some side

def getGroup (c : StateCache Fl) (id : GroupId) : Option (Proto.Group Fl) :=
  c.inner.joinedGroup id

/-- The body `list_groups` and `subscribe_group_updates` share. -/
def matchingGroups (order : IterOrder GroupId) (inner : Inner Fl) (side : Option Proto.Side) :
    List (Proto.Group Fl) :=
  ((entries order inner.groups).filter fun (_, group) => matchesSide side group.side).map
    fun (id, group) => { group with units := inner.memberUnits id }

def listGroups (order : IterOrder GroupId) (c : StateCache Fl) (side : Option Proto.Side) :
    List (Proto.Group Fl) :=
  matchingGroups order c.inner side

/-- The snapshot of `subscribe_group_updates` and the sequence number it was taken at, read
together under the lock.  (The receiver it returns was created before: `Subscription.lean`.) -/
def subscribeGroupUpdates (order : IterOrder GroupId) (inner : Inner Fl)
    (side : Option Proto.Side) : List (Proto.Group Fl) × UInt64 :=
  (matchingGroups order inner side, inner.sequence)

/-- The snapshot of `subscribe_simulation_updates` and its sequence number. -/
def subscribeSimulationUpdates (inner : Inner Fl) :
    Option (Proto.SimulationStateUpdate Fl) × UInt64 :=
  (inner.simulationState, inner.sequence)

def simulationInfo (c : StateCache Fl) : Option (Proto.SimulationInfo Fl) :=
  c.inner.simulationInfo

def simulationState (c : StateCache Fl) : Option (Proto.SimulationStateUpdate Fl) :=
  c.inner.simulationState

def listLocations (c : StateCache Fl) (side : Option Proto.Side) : List (Proto.Location Fl) :=
  c.inner.locations.filter fun location => matchesSide side location.owner

end StateCache

/-! ## 6. Runs of writes -/

/-- One call of a write, with its arguments and, where it iterates over a hash map, the order
that iteration takes. -/
inductive Write (Fl : Floats) where
  | upsertUnit (unit : Proto.Unit Fl)
  | removeUnit (id : UnitId)
  | upsertGroup (group : Proto.Group Fl)
  | upsertGroupWithUnits (order : IterOrder GroupId) (group : Proto.Group Fl)
      (units : List (Proto.Unit Fl))
  | removeGroup (id : GroupId)
  | setSimulationInfo (info : Proto.SimulationInfo Fl)
  | setSimulationState (state : Proto.SimulationStateUpdate Fl)
  | setLocations (locations : List (Proto.Location Fl))
  | clear (order : IterOrder GroupId)

namespace StateCache

/-- Perform one write. -/
def write (c : StateCache Fl) : Write Fl → StateCache Fl
  | .upsertUnit unit => c.upsertUnit unit
  | .removeUnit id => (c.removeUnit id).1
  | .upsertGroup group => c.upsertGroup group
  | .upsertGroupWithUnits order group units => c.upsertGroupWithUnits order group units
  | .removeGroup id => (c.removeGroup id).1
  | .setSimulationInfo info => c.setSimulationInfo info
  | .setSimulationState state => c.setSimulationState state
  | .setLocations locations => c.setLocations locations
  | .clear order => c.clear order

/-- The cache after a run of writes from `StateCache::new()`: every reachable state is one. -/
def after (writes : List (Write Fl)) : StateCache Fl := writes.foldl write new

/-- The broadcasts on the group channel. -/
def groupUpdates (sent : List (Event (Message Fl))) : List (GroupEvent Fl) :=
  channel Message.asGroup sent

/-- The broadcasts on the simulation channel. -/
def simulationUpdates (sent : List (Event (Message Fl))) : List (SimulationEvent Fl) :=
  channel Message.asSimulation sent

end StateCache

end MinervaServer
