/-
# Which writes leave an empty member set behind

`unlink_member` drops a group's member set once it is empty, "so an emptied-out group doesn't
leak a forever-empty entry".  It is the only place that does.  Of the writes that fill the
index directly, `upsert_unit` always files something, and `remove_group` erases the entry; but
`upsert_group_with_units` inserts the set of the listed ids as it is, also when the list is
empty (`members_pushGroup`), and no later write is sure to come along and remove it.

So the index is pruned in every state of a run exactly if no push in it lists no units
(`member_sets_nonempty_iff`).
-/
import MinervaServer.Writes

namespace MinervaServer

open Lib

variable {Fl : Floats}

/-! ## 1. Each commit -/

theorem Inner.pruned_placeUnit {inner : Inner Fl} (h : Pruned inner.members)
    (unit : Proto.Unit Fl) : Pruned (inner.placeUnit unit).members := by
  unfold Inner.placeUnit
  cases inner.movedFrom unit with
  | none => exact h.link _ _
  | some old => exact (h.unlink old _).link _ _

theorem Inner.pruned_dropUnit {inner : Inner Fl} (h : Pruned inner.members) (id : UnitId) :
    Pruned (inner.dropUnit id).members := by
  unfold Inner.dropUnit
  cases inner.units[id]? with
  | none => exact h
  | some unit => exact h.unlink _ _

/-- Detaching units prunes: each goes through `unlink_member`. -/
theorem Inner.pruned_detachListed {inner : Inner Fl} (h : Pruned inner.members) (g : GroupId)
    (listed : List (Proto.Unit Fl)) : Pruned (StateCache.detachListed inner g listed).members := by
  induction listed generalizing inner with
  | nil => exact h
  | cons unit rest ih =>
    have hcons : StateCache.detachListed inner g (unit :: rest) =
        StateCache.detachListed (StateCache.detachListed inner g [unit]) g rest := rfl
    rw [hcons]
    refine ih ?_
    simp only [StateCache.detachListed, List.foldl_cons, List.foldl_nil]
    cases inner.units[unitKey unit]? with
    | none => exact h
    | some existing =>
      dsimp only
      split
      · exact h.unlink _ _
      · exact h

/-- A push files the set of the listed ids under the group, whatever the set. -/
theorem Inner.members_pushGroup (inner : Inner Fl) (group : Proto.Group Fl)
    (units : List (Proto.Unit Fl)) :
    let g := groupKey group
    let newIds : BTreeSet UnitId := .ofList (units.map unitKey)
    (inner.pushGroup group units).members =
      (StateCache.detachListed (inner.dropUnlisted g newIds) g (units.map (assign g))).members.insert
        g newIds := by
  have hids : (units.map (assign (groupKey group))).map unitKey = units.map unitKey := by
    rw [List.map_map]
    rfl
  simp only [Inner.pushGroup, Inner.placeGroup, Inner.relist, hids]

theorem Inner.pruned_pushGroup {inner : Inner Fl} (h : Pruned inner.members)
    (group : Proto.Group Fl) {units : List (Proto.Unit Fl)} (hunits : units ≠ []) :
    Pruned (inner.pushGroup group units).members := by
  rw [Inner.members_pushGroup]
  have hdropped : Pruned (inner.dropUnlisted (groupKey group)
      (.ofList (units.map unitKey))).members := h
  refine (Inner.pruned_detachListed hdropped _ _).insert _ ?_
  obtain ⟨unit, rest, rfl⟩ := List.exists_cons_of_ne_nil hunits
  intro hempty
  have hmem : unitKey unit ∈ (.ofList ((unit :: rest).map unitKey) : BTreeSet UnitId) := by
    rw [Inner.mem_newIds]
    exact List.mem_cons_self
  rw [hempty] at hmem
  exact Std.ExtTreeSet.not_mem_empty hmem

theorem Inner.pruned_takeGroup {inner : Inner Fl} (h : Pruned inner.members) (g : GroupId) :
    Pruned (inner.takeGroup g).members := by
  unfold Inner.takeGroup
  split
  · exact h.erase g
  · exact h

/-! ## 2. Every write of every run -/

namespace StateCache

/-- Every write keeps the index pruned, but for a push that lists no units. -/
theorem pruned_write {c : StateCache Fl} (h : Pruned c.inner.members) {w : Write Fl}
    (hw : ∀ order group, w ≠ .upsertGroupWithUnits order group []) :
    Pruned (c.write w).inner.members := by
  rw [write_inner]
  cases w with
  | upsertUnit unit => exact Inner.pruned_placeUnit h unit
  | removeUnit id => exact Inner.pruned_dropUnit h id
  | upsertGroup group => exact h
  | upsertGroupWithUnits order group units =>
    refine Inner.pruned_pushGroup h group ?_
    rintro rfl
    exact hw order group rfl
  | removeGroup id =>
    simp only [Write.commit]
    split
    · exact Inner.pruned_takeGroup h id
    · exact h
  | setSimulationInfo info => exact h
  | setSimulationState state => exact h
  | setLocations locations => exact h
  | clear order => exact pruned_empty

/-- A push that lists no units leaves the group an empty set. -/
theorem members_write_push_nil (c : StateCache Fl) (order : IterOrder GroupId)
    (group : Proto.Group Fl) :
    (c.write (.upsertGroupWithUnits order group [])).inner.members[groupKey group]? = some ∅ := by
  rw [write_inner]
  simp only [Write.commit, Inner.members_pushGroup, Std.ExtTreeMap.getElem?_insert_self]
  rfl

theorem pruned_after {writes : List (Write Fl)}
    (hwrites : ∀ order group, Write.upsertGroupWithUnits order group [] ∉ writes) :
    Pruned (after writes).inner.members := by
  induction writes using List.reverseRecOn with
  | nil => exact pruned_empty
  | append_singleton writes w ih =>
    rw [after_concat]
    refine pruned_write (ih fun order group hmem => ?_) fun order group heq => ?_
    · exact hwrites order group (List.mem_append_left _ hmem)
    · exact hwrites order group (by simp [heq])

/-- **When no empty member set is kept.**  Every state along a run has a pruned index exactly if
no write of the run is an `upsert_group_with_units` with an empty list of units. -/
theorem member_sets_nonempty_iff (writes : List (Write Fl)) :
    (∀ first rest, writes = first ++ rest → ∀ (g : GroupId) (members : BTreeSet UnitId),
        (after first).inner.members[g]? = some members → members ≠ ∅) ↔
      ∀ order group, Write.upsertGroupWithUnits order group [] ∉ writes := by
  constructor
  · intro h order group hmem
    obtain ⟨first, rest, rfl⟩ := List.append_of_mem hmem
    refine h (first ++ [.upsertGroupWithUnits order group []]) rest (by simp) (groupKey group) ∅ ?_ rfl
    rw [after_concat]
    exact members_write_push_nil _ order group
  · rintro h first rest rfl
    exact pruned_after fun order group hmem => h order group (List.mem_append_left _ hmem)

/-- A group that is pushed without units: the index keeps an empty set for it. -/
theorem empty_member_set_kept :
    ¬ ∀ (writes : List (Write Floats.bits)) (g : GroupId) (members : BTreeSet UnitId),
      (after writes).inner.members[g]? = some members → members ≠ ∅ := by
  intro h
  exact h [.upsertGroupWithUnits .ascending (.sample "A" .blufor) []] (.ofStr "A") ∅
    (members_write_push_nil new .ascending (.sample "A" .blufor)) rfl

end StateCache

end MinervaServer
