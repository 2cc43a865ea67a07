/-
# Every write is one commit followed by its announcements

The code interleaves the two: it mutates the maps, sends an event, compares, sends another.
But sending touches nothing of the locked value except the sequence counter, and a group's
joined view does not read the counter.  So every write equals a COMMIT, which replaces the
maps and sends nothing, followed by a list of messages sent one after another (`sendAll`).
`upsertUnit_eq` and its siblings say so for each write, and name the messages as a function of
the joined views before and after the commit.

From here on the maps (`Writes.lean`) and the events (`Broadcasts.lean`) are two subjects.
-/
import MinervaServer.Registry

namespace MinervaServer

open Lib

variable {Fl : Floats}

/-! ## 1. Sending a list of messages -/

namespace StateCache

/-- Send the messages one after another. -/
def sendAll (c : StateCache Fl) (messages : List (Message Fl)) : StateCache Fl :=
  messages.foldl send c

@[simp] theorem sendAll_nil (c : StateCache Fl) : c.sendAll [] = c := rfl

theorem sendAll_append (c : StateCache Fl) (first rest : List (Message Fl)) :
    c.sendAll (first ++ rest) = (c.sendAll first).sendAll rest := by
  simp [sendAll, List.foldl_append]

theorem sendAll_singleton (c : StateCache Fl) (message : Message Fl) :
    c.sendAll [message] = c.send message := rfl

/-- Sending moves the sequence counter and nothing else of the locked value. -/
theorem sendAll_inner (c : StateCache Fl) (messages : List (Message Fl)) :
    (c.sendAll messages).inner =
      { c.inner with sequence := c.inner.sequence + UInt64.ofNat messages.length } := by
  induction messages generalizing c with
  | nil => simp
  | cons message rest ih =>
    have hsend : (c.send message).inner = { c.inner with sequence := c.inner.sequence + 1 } := rfl
    rw [← List.singleton_append, sendAll_append, ih, sendAll_singleton, hsend]
    simp only [List.singleton_append, List.length_cons, UInt64.ofNat_add]
    congr 1
    rw [UInt64.add_assoc, UInt64.add_comm 1]
    rfl

@[simp] theorem sendAll_units (c : StateCache Fl) (messages : List (Message Fl)) :
    (c.sendAll messages).inner.units = c.inner.units := by rw [sendAll_inner]

@[simp] theorem sendAll_groups (c : StateCache Fl) (messages : List (Message Fl)) :
    (c.sendAll messages).inner.groups = c.inner.groups := by rw [sendAll_inner]

/-- The joined view does not read the counter. -/
@[simp] theorem sendAll_joinedGroup (c : StateCache Fl) (messages : List (Message Fl)) :
    (c.sendAll messages).inner.joinedGroup = c.inner.joinedGroup := by
  rw [sendAll_inner]
  rfl

/-- The events that carry `messages` when the counter stands at `sequence`. -/
def stamp (sequence : UInt64) : List (Message Fl) → List (Event (Message Fl))
  | [] => []
  | message :: rest => ⟨sequence + 1, message⟩ :: stamp (sequence + 1) rest

theorem sendAll_sent (c : StateCache Fl) (messages : List (Message Fl)) :
    (c.sendAll messages).sent = c.sent ++ stamp c.inner.sequence messages := by
  induction messages generalizing c with
  | nil => simp [stamp]
  | cons message rest ih =>
    rw [← List.singleton_append, sendAll_append, ih, sendAll_singleton]
    simp [send, Inner.nextSequence, stamp]

@[simp] theorem stamp_response (sequence : UInt64) (messages : List (Message Fl)) :
    (stamp sequence messages).map Event.response = messages := by
  induction messages generalizing sequence with
  | nil => rfl
  | cons message rest ih => simp [stamp, ih]

theorem stamp_append (sequence : UInt64) (first rest : List (Message Fl)) :
    stamp sequence (first ++ rest) =
      stamp sequence first ++ stamp (sequence + UInt64.ofNat first.length) rest := by
  induction first generalizing sequence with
  | nil => simp [stamp]
  | cons message first ih =>
    rw [List.cons_append, stamp, stamp, ih, List.cons_append, List.length_cons, UInt64.ofNat_add,
      UInt64.add_assoc, UInt64.add_comm (UInt64.ofNat first.length)]
    rfl

/-- The events carry consecutive numbers. -/
theorem getElem?_stamp (sequence : UInt64) (messages : List (Message Fl)) (i : Nat) :
    (stamp sequence messages)[i]? =
      messages[i]?.map fun message => ⟨sequence + UInt64.ofNat (i + 1), message⟩ := by
  induction messages generalizing sequence i with
  | nil => rfl
  | cons message rest ih =>
    cases i with
    | zero => rfl
    | succ i =>
      rw [stamp, List.getElem?_cons_succ, List.getElem?_cons_succ, ih, UInt64.add_assoc,
        UInt64.ofNat_add (i + 1), UInt64.add_comm (UInt64.ofNat (i + 1))]
      rfl

@[simp] theorem length_stamp (sequence : UInt64) (messages : List (Message Fl)) :
    (stamp sequence messages).length = messages.length := by
  rw [← List.length_map Event.response, stamp_response]

/-- As long as the counter has not wrapped around, the number of an event is its position,
counted from one. -/
theorem sequence_of_stamp {messages : List (Message Fl)} (hrange : messages.length < 2 ^ 64) {i : Nat}
    {e : Event (Message Fl)} (he : (stamp 0 messages)[i]? = some e) : e.sequence.toNat = i + 1 := by
  rw [getElem?_stamp, Option.map_eq_some_iff] at he
  obtain ⟨message, hmessage, rfl⟩ := he
  have hlt : i < messages.length := (List.getElem?_eq_some_iff.mp hmessage).1
  rw [UInt64.zero_add, UInt64.toNat_ofNat']
  exact Nat.mod_eq_of_lt (by omega)

/-- Replace the locked value and send nothing. -/
def commit (c : StateCache Fl) (inner : Inner Fl) : StateCache Fl := { c with inner }

@[simp] theorem commit_inner (c : StateCache Fl) (inner : Inner Fl) :
    (c.commit inner).inner = inner := rfl

@[simp] theorem commit_sent (c : StateCache Fl) (inner : Inner Fl) :
    (c.commit inner).sent = c.sent := rfl

/-! ## 2. What the two helpers announce -/

/-- What `emit_if_changed` announces about `id`, whose joined view was `before` and is `now`. -/
def changed (id : GroupId) (before now : Option (Proto.Group Fl)) : List (Message Fl) :=
  if now = before then []
  else [.group (match now with
    | some group => groupUpserted group
    | none => groupRemoved id.str)]

/-- What `replace_group_fields` announces: a removal, if the stored group had another side. -/
def sideRemoval (previous : Option (Proto.Group Fl)) (group : Proto.Group Fl) :
    List (Message Fl) :=
  if (previous.map fun existing => existing.side).any fun side => side ≠ group.side then
    [.group (groupRemoved group.id)]
  else []

theorem emitIfChanged_eq (c : StateCache Fl) (id : GroupId) (before : Option (Proto.Group Fl)) :
    c.emitIfChanged id before = c.sendAll (changed id before (c.inner.joinedGroup id)) := by
  unfold emitIfChanged changed
  dsimp only
  split <;> rfl

theorem replaceGroupFields_eq (c : StateCache Fl) (id : GroupId) (group : Proto.Group Fl) :
    c.replaceGroupFields id group =
      (c.commit { c.inner with groups := c.inner.groups.insert id group }).sendAll
        (sideRemoval c.inner.groups[id]? group) := by
  unfold replaceGroupFields sideRemoval
  dsimp only
  split <;> rfl

/-- A loop of `emit_if_changed` calls: no call disturbs what the next one compares. -/
theorem foldl_emitIfChanged (befores : List (GroupId × Option (Proto.Group Fl)))
    (c : StateCache Fl) :
    befores.foldl (fun c (id, before) => c.emitIfChanged id before) c =
      c.sendAll (befores.flatMap fun (id, before) =>
        changed id before (c.inner.joinedGroup id)) := by
  induction befores generalizing c with
  | nil => rfl
  | cons head rest ih =>
    obtain ⟨id, before⟩ := head
    rw [List.foldl_cons]
    dsimp only
    rw [ih, emitIfChanged_eq, List.flatMap_cons, sendAll_append]
    simp only [sendAll_joinedGroup]

end StateCache

/-! ## 3. The commits -/

namespace Inner

/-- The group `upsert_unit` takes the unit out of, if it moves it. -/
def movedFrom (inner : Inner Fl) (unit : Proto.Unit Fl) : Option GroupId :=
  (inner.units[unitKey unit]?.map groupOf).filter fun old => old ≠ groupOf unit

/-- The maps after `upsert_unit`. -/
def placeUnit (inner : Inner Fl) (unit : Proto.Unit Fl) : Inner Fl :=
  let detached := match inner.movedFrom unit with
    | some old => inner.unlinkMember old (unitKey unit)
    | none => inner
  { detached with
    members := link detached.members (groupOf unit) (unitKey unit)
    units := detached.units.insert (unitKey unit) unit }

/-- The maps after `remove_unit`. -/
def dropUnit (inner : Inner Fl) (id : UnitId) : Inner Fl :=
  match inner.units[id]? with
  | some unit => { inner with
      units := inner.units.erase id
      members := unlink inner.members (groupOf unit) id }
  | none => inner

/-- The maps after `upsert_group`. -/
def placeGroup (inner : Inner Fl) (group : Proto.Group Fl) : Inner Fl :=
  { inner with groups := inner.groups.insert (groupKey group) (bare group) }

/-- `inner` without the members of `g` that are not in `newIds`. -/
def dropUnlisted (inner : Inner Fl) (g : GroupId) (newIds : BTreeSet UnitId) : Inner Fl :=
  { inner with
    units := ((inner.members[g]?.getD ∅).toList.filter (· ∉ newIds)).foldl
      (fun units id => units.erase id) inner.units }

/-- The units and the index once `listed`, which already names `g`, is the membership of `g`. -/
def relist (inner : Inner Fl) (g : GroupId) (listed : List (Proto.Unit Fl)) : Inner Fl :=
  let newIds : BTreeSet UnitId := .ofList (listed.map unitKey)
  let detached := StateCache.detachListed (inner.dropUnlisted g newIds) g listed
  { detached with
    members := detached.members.insert g newIds
    units := listed.foldl (fun m unit => m.insert (unitKey unit) unit) detached.units }

/-- The maps after `upsert_group_with_units`. -/
def pushGroup (inner : Inner Fl) (group : Proto.Group Fl) (units : List (Proto.Unit Fl)) :
    Inner Fl :=
  (inner.relist (groupKey group) (units.map (assign (groupKey group)))).placeGroup group

/-- The maps after `remove_group` of a group that is cached. -/
def takeGroup (inner : Inner Fl) (id : GroupId) : Inner Fl :=
  match inner.members[id]? with
  | some members => { inner with
      groups := inner.groups.erase id
      members := inner.members.erase id
      units := members.toList.foldl (fun units unitId => units.erase unitId) inner.units }
  | none => { inner with groups := inner.groups.erase id }

end Inner

namespace StateCache

/-- Detaching units moves index entries only. -/
theorem detachListed_frame (inner : Inner Fl) (g : GroupId) (units : List (Proto.Unit Fl)) :
    detachListed inner g units =
      { inner with members := (detachListed inner g units).members } := by
  induction units generalizing inner with
  | nil => rfl
  | cons unit rest ih =>
    simp only [detachListed, List.foldl_cons]
    split
    · split
      · exact ih (inner.unlinkMember _ _)
      · exact ih inner
    · exact ih inner

@[simp] theorem detachListed_units (inner : Inner Fl) (g : GroupId)
    (units : List (Proto.Unit Fl)) : (detachListed inner g units).units = inner.units := by
  rw [detachListed_frame]

@[simp] theorem detachListed_groups (inner : Inner Fl) (g : GroupId)
    (units : List (Proto.Unit Fl)) : (detachListed inner g units).groups = inner.groups := by
  rw [detachListed_frame]

@[simp] theorem relist_groups (inner : Inner Fl) (g : GroupId) (listed : List (Proto.Unit Fl)) :
    (inner.relist g listed).groups = inner.groups := by
  simp [Inner.relist, Inner.dropUnlisted]

/-! ## 4. The writes -/

theorem upsertUnit_eq (c : StateCache Fl) (unit : Proto.Unit Fl) :
    c.upsertUnit unit =
      (c.commit (c.inner.placeUnit unit)).sendAll
        ((groupOf unit :: (c.inner.movedFrom unit).toList).flatMap fun id =>
          changed id (c.inner.joinedGroup id) ((c.inner.placeUnit unit).joinedGroup id)) := by
  unfold upsertUnit
  dsimp only
  cases hold : c.inner.movedFrom unit with
  | none =>
    unfold Inner.movedFrom at hold
    simp only [hold, Option.map_none, emitIfChanged_eq, Option.toList_none, List.flatMap_cons,
      List.flatMap_nil, List.append_nil, Inner.placeUnit, Inner.movedFrom]
    rfl
  | some old =>
    unfold Inner.movedFrom at hold
    simp only [hold, Option.map_some, emitIfChanged_eq, Option.toList_some, List.flatMap_cons,
      List.flatMap_nil, List.append_nil, sendAll_append, sendAll_joinedGroup, Inner.placeUnit,
      Inner.movedFrom]
    rfl

theorem removeUnit_eq (c : StateCache Fl) (id : UnitId) :
    c.removeUnit id =
      ((c.commit (c.inner.dropUnit id)).sendAll
        ((c.inner.units[id]?.map groupOf).toList.flatMap fun g =>
          changed g (c.inner.joinedGroup g) ((c.inner.dropUnit id).joinedGroup g)),
        c.inner.units[id]?) := by
  unfold removeUnit Inner.dropUnit
  cases hunit : c.inner.units[id]? with
  | none =>
    simp only [Option.map_none, Option.toList_none, List.flatMap_nil, sendAll_nil,
      erase_eq_self hunit]
    rfl
  | some unit =>
    simp only [Option.map_some, Option.bind_some, emitIfChanged_eq, Option.toList_some,
      List.flatMap_cons, List.flatMap_nil, List.append_nil]
    rfl

theorem upsertGroup_eq (c : StateCache Fl) (group : Proto.Group Fl) :
    c.upsertGroup group =
      (c.commit (c.inner.placeGroup group)).sendAll
        (sideRemoval c.inner.groups[groupKey group]? (bare group) ++
          changed (groupKey group) (c.inner.joinedGroup (groupKey group))
            ((c.inner.placeGroup group).joinedGroup (groupKey group))) := by
  simp only [upsertGroup, emitIfChanged_eq, replaceGroupFields_eq, sendAll_joinedGroup,
    sendAll_append]
  rfl

/-- Some listed unit is cached in the group `id`. -/
def TakesFrom (inner : Inner Fl) (units : List (Proto.Unit Fl)) (id : GroupId) : Prop :=
  ∃ unit ∈ units, ∃ existing, inner.units[unitKey unit]? = some existing ∧
    groupOf existing = id

theorem takesFrom_concat {inner : Inner Fl} {units : List (Proto.Unit Fl)}
    {unit : Proto.Unit Fl} {id : GroupId} :
    TakesFrom inner (units ++ [unit]) id ↔
      TakesFrom inner units id ∨ inner.units[unitKey unit]?.map groupOf = some id := by
  simp [TakesFrom, or_and_right, exists_or]

theorem otherBefore_concat (inner : Inner Fl) (g : GroupId) (units : List (Proto.Unit Fl))
    (unit : Proto.Unit Fl) :
    otherBefore inner g (units ++ [unit]) =
      match inner.units[unitKey unit]? with
      | some existing =>
        if groupOf existing ≠ g then
          (otherBefore inner g units).insertIfNew (groupOf existing)
            (inner.joinedGroup (groupOf existing))
        else otherBefore inner g units
      | none => otherBefore inner g units := by
  rw [otherBefore, List.foldl_append]
  rfl

/-- `other_before` mentions exactly the other groups that listed units are cached in. -/
theorem mem_otherBefore {inner : Inner Fl} {g : GroupId} {units : List (Proto.Unit Fl)}
    {id : GroupId} :
    id ∈ otherBefore inner g units ↔ id ≠ g ∧ TakesFrom inner units id := by
  induction units using List.reverseRecOn with
  | nil => simp [otherBefore, TakesFrom]
  | append_singleton units unit ih =>
    rw [otherBefore_concat, takesFrom_concat]
    cases hunit : inner.units[unitKey unit]? with
    | none => simp [ih]
    | some existing =>
      simp only [Option.map_some, Option.some.injEq]
      by_cases hg : groupOf existing = g
      · rw [if_neg (by simp [hg]), ih, hg]
        constructor
        · rintro ⟨hid, htake⟩
          exact ⟨hid, Or.inl htake⟩
        · rintro ⟨hid, htake | rfl⟩
          · exact ⟨hid, htake⟩
          · exact absurd rfl hid
      · rw [if_pos hg, Std.ExtTreeMap.mem_insertIfNew, Std.LawfulEqOrd.compare_eq_iff_eq, ih]
        constructor
        · rintro (rfl | ⟨hid, htake⟩)
          · exact ⟨hg, Or.inr rfl⟩
          · exact ⟨hid, Or.inl htake⟩
        · rintro ⟨hid, htake | rfl⟩
          · exact Or.inr ⟨hid, htake⟩
          · exact Or.inl rfl

/-- What `other_before` holds of a group is its joined view before the write. -/
theorem otherBefore_value {inner : Inner Fl} {g : GroupId} {units : List (Proto.Unit Fl)}
    {id : GroupId} {before : Option (Proto.Group Fl)}
    (h : (otherBefore inner g units)[id]? = some before) : before = inner.joinedGroup id := by
  induction units using List.reverseRecOn with
  | nil => simp [otherBefore] at h
  | append_singleton units unit ih =>
    rw [otherBefore_concat] at h
    split at h
    · split at h
      · rw [Std.ExtTreeMap.getElem?_insertIfNew] at h
        split at h
        · rename_i hkey
          rw [← Option.some.inj h, Std.LawfulEqOrd.eq_of_compare hkey.1]
        · exact ih h
      · exact ih h
    · exact ih h

/-- The other groups a push takes units from, in the order it announces them. -/
def losers (order : IterOrder GroupId) (inner : Inner Fl) (g : GroupId)
    (units : List (Proto.Unit Fl)) : List GroupId :=
  order.arrange (otherBefore inner g units).keys

theorem mem_losers {order : IterOrder GroupId} {inner : Inner Fl} {g : GroupId}
    {units : List (Proto.Unit Fl)} {id : GroupId} :
    id ∈ losers order inner g units ↔ id ≠ g ∧ TakesFrom inner units id := by
  rw [losers, (order.arrange_perm _).mem_iff, Std.ExtTreeMap.mem_keys, mem_otherBefore]

theorem nodup_losers (order : IterOrder GroupId) (inner : Inner Fl) (g : GroupId)
    (units : List (Proto.Unit Fl)) : (losers order inner g units).Nodup :=
  (order.arrange_perm _).nodup_iff.mpr Std.ExtTreeMap.nodup_keys

theorem entries_otherBefore (order : IterOrder GroupId) (inner : Inner Fl) (g : GroupId)
    (units : List (Proto.Unit Fl)) :
    entries order (otherBefore inner g units) =
      (losers order inner g units).map fun id => (id, inner.joinedGroup id) := by
  rw [losers, ← map_fst_entries, List.map_map]
  refine (List.map_id _).symm.trans (List.map_congr_left ?_)
  rintro ⟨id, before⟩ h
  simp only [id_eq, Function.comp_apply, Prod.mk.injEq, true_and]
  exact otherBefore_value (mem_entries.mp h)

theorem upsertGroupWithUnits_eq (order : IterOrder GroupId) (c : StateCache Fl)
    (group : Proto.Group Fl) (units : List (Proto.Unit Fl)) :
    c.upsertGroupWithUnits order group units =
      (c.commit (c.inner.pushGroup group units)).sendAll
        (sideRemoval c.inner.groups[groupKey group]? (bare group) ++
          (groupKey group ::
            losers order c.inner (groupKey group) (units.map (assign (groupKey group)))).flatMap
            fun id =>
              changed id (c.inner.joinedGroup id)
                ((c.inner.pushGroup group units).joinedGroup id)) := by
  set g := groupKey group
  set listed := units.map (assign g)
  have hdef : c.upsertGroupWithUnits order group units =
      (entries order (otherBefore c.inner g listed)).foldl
        (fun c (id, before) => c.emitIfChanged id before)
        (((c.commit (c.inner.relist g listed)).replaceGroupFields g (bare group)).emitIfChanged g
          (c.inner.joinedGroup g)) := rfl
  have hfields : (c.commit (c.inner.relist g listed)).replaceGroupFields g (bare group) =
      (c.commit (c.inner.pushGroup group units)).sendAll
        (sideRemoval c.inner.groups[g]? (bare group)) := by
    have h := replaceGroupFields_eq (c.commit (c.inner.relist g listed)) g (bare group)
    rw [show (c.commit (c.inner.relist g listed)).inner.groups[g]? = c.inner.groups[g]? by
      rw [commit_inner, relist_groups]] at h
    exact h
  rw [hdef, foldl_emitIfChanged, emitIfChanged_eq, hfields, entries_otherBefore,
    List.flatMap_map]
  simp only [sendAll_joinedGroup, commit_inner, sendAll_append, List.flatMap_cons]

theorem removeGroup_eq_of_cached (c : StateCache Fl) {id : GroupId} (h : id ∈ c.inner.groups) :
    c.removeGroup id =
      ((c.commit (c.inner.takeGroup id)).sendAll [.group (groupRemoved id.str)],
        c.inner.joinedGroup id) := by
  rw [removeGroup, if_neg (not_not.mpr h)]
  dsimp only
  rw [sendAll_singleton, Inner.takeGroup]
  cases c.inner.members[id]? <;> rfl

theorem removeGroup_eq_of_absent (c : StateCache Fl) {id : GroupId} (h : id ∉ c.inner.groups) :
    c.removeGroup id = (c, none) := by
  rw [removeGroup, if_pos h]

theorem setSimulationState_eq (c : StateCache Fl) (state : Proto.SimulationStateUpdate Fl) :
    c.setSimulationState state =
      (c.commit { c.inner with simulationState := some state }).sendAll
        [.simulation ⟨some state⟩] := rfl

theorem clear_eq (order : IterOrder GroupId) (c : StateCache Fl) :
    c.clear order =
      (c.commit { sequence := c.inner.sequence }).sendAll
        ((order.arrange c.inner.groups.keys).map (fun id => .group (groupRemoved id.str)) ++
          [.simulation ⟨none⟩]) := by
  rw [sendAll_append, sendAll_singleton, clear, ← map_fst_entries]
  simp only [sendAll, List.map_map, List.foldl_map]
  rfl

end StateCache

/-! ## 5. One equation for all of them -/

namespace Write

/-- The locked value a write commits, its counter not yet advanced. -/
def commit : Write Fl → Inner Fl → Inner Fl
  | .upsertUnit unit, inner => inner.placeUnit unit
  | .removeUnit id, inner => inner.dropUnit id
  | .upsertGroup group, inner => inner.placeGroup group
  | .upsertGroupWithUnits _ group units, inner => inner.pushGroup group units
  | .removeGroup id, inner => if id ∈ inner.groups then inner.takeGroup id else inner
  | .setSimulationInfo info, inner => { inner with simulationInfo := some info }
  | .setSimulationState state, inner => { inner with simulationState := some state }
  | .setLocations locations, inner => { inner with locations }
  | .clear _, inner => { sequence := inner.sequence }

/-- The groups a write compares and announces if they changed, in that order. -/
def compared : Write Fl → Inner Fl → List GroupId
  | .upsertUnit unit, inner => groupOf unit :: (inner.movedFrom unit).toList
  | .removeUnit id, inner => (inner.units[id]?.map groupOf).toList
  | .upsertGroup group, _ => [groupKey group]
  | .upsertGroupWithUnits order group units, inner =>
    groupKey group ::
      StateCache.losers order inner (groupKey group) (units.map (assign (groupKey group)))
  | .removeGroup _, _ => []
  | .setSimulationInfo _, _ => []
  | .setSimulationState _, _ => []
  | .setLocations _, _ => []
  | .clear _, _ => []

/-- What a write announces before it compares anything. -/
def announcedFirst : Write Fl → Inner Fl → List (Message Fl)
  | .upsertUnit _, _ => []
  | .removeUnit _, _ => []
  | .upsertGroup group, inner =>
    StateCache.sideRemoval inner.groups[groupKey group]? (bare group)
  | .upsertGroupWithUnits _ group _, inner =>
    StateCache.sideRemoval inner.groups[groupKey group]? (bare group)
  | .removeGroup id, inner => if id ∈ inner.groups then [.group (groupRemoved id.str)] else []
  | .setSimulationInfo _, _ => []
  | .setSimulationState state, _ => [.simulation ⟨some state⟩]
  | .setLocations _, _ => []
  | .clear order, inner =>
    (order.arrange inner.groups.keys).map (fun id => .group (groupRemoved id.str)) ++
      [.simulation ⟨none⟩]

/-- Everything a write announces. -/
def messages (w : Write Fl) (inner : Inner Fl) : List (Message Fl) :=
  w.announcedFirst inner ++ (w.compared inner).flatMap fun id =>
    StateCache.changed id (inner.joinedGroup id) ((w.commit inner).joinedGroup id)

/-- The counter is advanced by sending alone. -/
@[simp] theorem commit_sequence (w : Write Fl) (inner : Inner Fl) :
    (w.commit inner).sequence = inner.sequence := by
  cases w with
  | upsertUnit unit =>
    simp only [commit, Inner.placeUnit]
    split <;> rfl
  | removeUnit id =>
    simp only [commit, Inner.dropUnit]
    split <;> rfl
  | upsertGroup group => rfl
  | upsertGroupWithUnits order group units =>
    simp only [commit, Inner.pushGroup, Inner.placeGroup, Inner.relist]
    rw [StateCache.detachListed_frame, Inner.dropUnlisted]
  | removeGroup id =>
    simp only [commit, Inner.takeGroup]
    split
    · split <;> rfl
    · rfl
  | setSimulationInfo info => rfl
  | setSimulationState state => rfl
  | setLocations locations => rfl
  | clear order => rfl

end Write

/-- **Every write is its commit, and then its messages.** -/
theorem StateCache.write_eq (c : StateCache Fl) (w : Write Fl) :
    c.write w = (c.commit (w.commit c.inner)).sendAll (w.messages c.inner) := by
  cases w with
  | upsertUnit unit => exact upsertUnit_eq c unit
  | removeUnit id => exact congrArg Prod.fst (removeUnit_eq c id)
  | upsertGroup group =>
    simp only [write, upsertGroup_eq, Write.messages, Write.announcedFirst, Write.compared,
      List.flatMap_cons, List.flatMap_nil, List.append_nil]
    rfl
  | upsertGroupWithUnits order group units => exact upsertGroupWithUnits_eq order c group units
  | removeGroup id =>
    by_cases hid : id ∈ c.inner.groups
    · simp only [write, removeGroup_eq_of_cached c hid, Write.messages, Write.commit,
        Write.announcedFirst, Write.compared, if_pos hid, List.flatMap_nil, List.append_nil]
    · simp only [write, removeGroup_eq_of_absent c hid, Write.messages, Write.commit,
        Write.announcedFirst, Write.compared, if_neg hid, List.flatMap_nil, List.append_nil]
      rfl
  | setSimulationInfo info => rfl
  | setSimulationState state => exact setSimulationState_eq c state
  | setLocations locations => rfl
  | clear order =>
    simp only [write, clear_eq, Write.messages, Write.announcedFirst, Write.compared,
      List.flatMap_nil, List.append_nil]
    rfl

end MinervaServer
