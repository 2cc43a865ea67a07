/-
# The writes keep the index right and have their effect on the registry

`Inner::members` is derived from `units`' `group_id` field and is never rebuilt: every write
maintains it by hand.  `Inner.Consistent` says it is right, and that every entry is stored under
its own id.

* `StateCache.write_consistent`: every write keeps that, whatever its arguments;
* `StateCache.registry_write`: on the registry a consistent cache stands for, every write has
  exactly the effect `Write.effect` states;
* `membership_index`: so the index is right in every reachable state.

One lemma for each commit carries all three: it says which index entries the commit leaves
(`linked_placeUnit`, `linked_dropUnit`, `linked_relist`, `linked_takeGroup`), and the rest
follows from the table.
-/
import MinervaServer.Commit

namespace MinervaServer

open Lib

variable {Fl : Floats}

namespace Inner

/-! ## 1. The invariant -/

/-- The index says of every group and every unit exactly what `units` says, every entry is
stored under its own id, and no stored group carries units. -/
structure Consistent (inner : Inner Fl) : Prop where
  indexed : Indexes groupOf inner.units inner.members
  units_keyed : Keyed unitKey inner.units
  groups_keyed : Keyed groupKey inner.groups
  groups_bare : ∀ (id : GroupId) (group : Proto.Group Fl),
    inner.groups[id]? = some group → group.units = []

theorem consistent_empty (sequence : UInt64) :
    ({ sequence := sequence } : Inner Fl).Consistent where
  indexed := indexes_empty groupOf
  units_keyed := keyed_empty unitKey
  groups_keyed := keyed_empty groupKey
  groups_bare := by simp

/-- The invariant reads the three maps and nothing else. -/
theorem Consistent.of_maps {inner inner' : Inner Fl} (h : inner.Consistent)
    (hunits : inner'.units = inner.units) (hgroups : inner'.groups = inner.groups)
    (hmembers : inner'.members = inner.members) : inner'.Consistent := by
  refine ⟨?_, ?_, ?_, ?_⟩
  · rw [hunits, hmembers]; exact h.indexed
  · rw [hunits]; exact h.units_keyed
  · rw [hgroups]; exact h.groups_keyed
  · rw [hgroups]; exact h.groups_bare

/-- The registry a consistent cache stands for: forget the index. -/
def registry (inner : Inner Fl) (h : inner.Consistent) : Registry Fl where
  units id := inner.units[id]?
  groups id := inner.groups[id]?
  units_keyed := h.units_keyed
  groups_keyed := h.groups_keyed
  groups_bare := h.groups_bare

theorem registry_empty (sequence : UInt64) :
    Inner.registry { sequence := sequence } (consistent_empty sequence) =
      (.empty : Registry Fl) := by
  refine Registry.ext (funext fun id => ?_) (funext fun id => ?_)
  · exact Std.ExtTreeMap.getElem?_empty
  · exact Std.ExtTreeMap.getElem?_empty

/-! ## 2. Placing and dropping one unit -/

theorem movedFrom_eq_some {inner : Inner Fl} {unit : Proto.Unit Fl} {old : GroupId} :
    inner.movedFrom unit = some old ↔
      old ≠ groupOf unit ∧
        ∃ existing, inner.units[unitKey unit]? = some existing ∧ groupOf existing = old := by
  simp only [movedFrom, Option.filter_eq_some_iff, Option.map_eq_some_iff, decide_eq_true_eq]
  exact and_comm

/-- A placed unit is filed under its group alone; every other unit stays where it was. -/
theorem linked_placeUnit {inner : Inner Fl} (h : Indexes groupOf inner.units inner.members)
    (unit : Proto.Unit Fl) (g : GroupId) (id : UnitId) :
    Linked (inner.placeUnit unit).members g id ↔
      (id = unitKey unit ∧ g = groupOf unit) ∨ (id ≠ unitKey unit ∧ Linked inner.members g id) := by
  -- where the unit was filed before, if it was
  have hwas : Linked inner.members g (unitKey unit) →
      g = groupOf unit ∨ inner.movedFrom unit = some g := by
    intro hg
    by_cases heq : g = groupOf unit
    · exact Or.inl heq
    · exact Or.inr (movedFrom_eq_some.mpr ⟨heq, (h g _).mp hg⟩)
  cases hold : inner.movedFrom unit with
  | none =>
    rw [hold] at hwas
    simp only [placeUnit, hold, linked_link]
    by_cases hid : id = unitKey unit
    · subst hid
      simp only [and_true, true_and, ne_eq, not_true_eq_false, false_and, or_false]
      exact ⟨fun hg => hg.elim Eq.symm fun hg => (hwas hg).resolve_right (by simp),
        fun hg => Or.inl hg.symm⟩
    · simp [hid, Ne.symm hid]
  | some old =>
    rw [hold] at hwas
    simp only [placeUnit, hold, unlinkMember, linked_link, linked_unlink]
    by_cases hid : id = unitKey unit
    · subst hid
      simp only [and_true, true_and, ne_eq, not_true_eq_false, false_and, or_false]
      constructor
      · rintro (hg | ⟨hg, hne⟩)
        · exact hg.symm
        · exact (hwas hg).resolve_right (by simpa using hne)
      · exact fun hg => Or.inl hg.symm
    · simp [hid, Ne.symm hid]

theorem placeUnit_units (inner : Inner Fl) (unit : Proto.Unit Fl) :
    (inner.placeUnit unit).units = inner.units.insert (unitKey unit) unit := by
  unfold placeUnit
  split <;> rfl

theorem placeUnit_groups (inner : Inner Fl) (unit : Proto.Unit Fl) :
    (inner.placeUnit unit).groups = inner.groups := by
  unfold placeUnit
  split <;> rfl

theorem Consistent.placeUnit {inner : Inner Fl} (h : inner.Consistent) (unit : Proto.Unit Fl) :
    (inner.placeUnit unit).Consistent := by
  refine ⟨?_, ?_, ?_, ?_⟩
  · rw [placeUnit_units]
    exact h.indexed.insert (linked_placeUnit h.indexed unit)
  · rw [placeUnit_units]
    exact h.units_keyed.insert unit
  · rw [placeUnit_groups]
    exact h.groups_keyed
  · rw [placeUnit_groups]
    exact h.groups_bare

theorem registry_placeUnit {inner : Inner Fl} (h : inner.Consistent) (unit : Proto.Unit Fl) :
    (inner.placeUnit unit).registry (h.placeUnit unit) = (inner.registry h).putUnit unit := by
  refine Registry.ext ?_ ?_
  · simp only [registry, placeUnit_units, Registry.putUnit_units]
    exact getElem?_insert_eq_update _ _ _
  · simp only [registry, placeUnit_groups, Registry.putUnit_groups]

theorem dropUnit_units (inner : Inner Fl) (id : UnitId) :
    (inner.dropUnit id).units = inner.units.erase id := by
  unfold dropUnit
  cases hunit : inner.units[id]? with
  | none => exact (erase_eq_self hunit).symm
  | some unit => rfl

theorem dropUnit_groups (inner : Inner Fl) (id : UnitId) :
    (inner.dropUnit id).groups = inner.groups := by
  unfold dropUnit
  split <;> rfl

/-- A dropped unit is filed nowhere; every other unit stays where it was. -/
theorem linked_dropUnit {inner : Inner Fl} (h : Indexes groupOf inner.units inner.members)
    (id : UnitId) (g : GroupId) (other : UnitId) :
    Linked (inner.dropUnit id).members g other ↔ other ≠ id ∧ Linked inner.members g other := by
  have hwas : Linked inner.members g id → inner.units[id]?.map groupOf = some g := by
    intro hg
    obtain ⟨unit, hunit, rfl⟩ := (h g id).mp hg
    simp [hunit]
  unfold dropUnit
  cases hunit : inner.units[id]? with
  | none =>
    rw [hunit] at hwas
    refine ⟨fun hg => ⟨?_, hg⟩, fun hg => hg.2⟩
    rintro rfl
    simpa using hwas hg
  | some unit =>
    rw [hunit] at hwas
    simp only [linked_unlink]
    constructor
    · rintro ⟨hg, hne⟩
      refine ⟨?_, hg⟩
      rintro rfl
      exact hne ⟨by simpa using hwas hg, rfl⟩
    · rintro ⟨hne, hg⟩
      exact ⟨hg, fun hid => hne hid.2.symm⟩

theorem Consistent.dropUnit {inner : Inner Fl} (h : inner.Consistent) (id : UnitId) :
    (inner.dropUnit id).Consistent := by
  refine ⟨?_, ?_, ?_, ?_⟩
  · rw [dropUnit_units]
    exact h.indexed.erase (linked_dropUnit h.indexed id)
  · rw [dropUnit_units]
    exact h.units_keyed.erase id
  · rw [dropUnit_groups]
    exact h.groups_keyed
  · rw [dropUnit_groups]
    exact h.groups_bare

theorem registry_dropUnit {inner : Inner Fl} (h : inner.Consistent) (id : UnitId) :
    (inner.dropUnit id).registry (h.dropUnit id) = (inner.registry h).dropUnit id := by
  refine Registry.ext ?_ ?_
  · simp only [registry, dropUnit_units, Registry.dropUnit]
    exact getElem?_erase_eq_update _ _
  · simp only [registry, dropUnit_groups, Registry.dropUnit]

/-! ## 3. Placing a group's own fields -/

theorem Consistent.placeGroup {inner : Inner Fl} (h : inner.Consistent) (group : Proto.Group Fl) :
    (inner.placeGroup group).Consistent := by
  refine ⟨h.indexed, h.units_keyed, h.groups_keyed.insert (bare group), ?_⟩
  intro id other hother
  simp only [Inner.placeGroup, Std.ExtTreeMap.getElem?_insert] at hother
  split at hother
  · rw [← Option.some.inj hother, bare]
  · exact h.groups_bare id other hother

theorem registry_placeGroup {inner : Inner Fl} (h : inner.Consistent) (group : Proto.Group Fl) :
    (inner.placeGroup group).registry (h.placeGroup group) =
      (inner.registry h).putGroup group := by
  refine Registry.ext rfl ?_
  exact getElem?_insert_eq_update _ _ _

/-! ## 4. Replacing a membership -/

/-- Detaching the listed units takes each out of the group it is cached in, unless that is the
group being pushed. -/
theorem linked_detachListed (inner : Inner Fl) (g : GroupId) (listed : List (Proto.Unit Fl))
    (h : GroupId) (id : UnitId) :
    Linked (StateCache.detachListed inner g listed).members h id ↔
      Linked inner.members h id ∧
        ¬ (h ≠ g ∧ id ∈ listed.map unitKey ∧ inner.units[id]?.map groupOf = some h) := by
  induction listed generalizing inner with
  | nil => simp [StateCache.detachListed]
  | cons unit rest ih =>
    -- one listed unit: what detaching it does to the index
    have hcons : StateCache.detachListed inner g (unit :: rest) =
        StateCache.detachListed (StateCache.detachListed inner g [unit]) g rest := rfl
    have hone : Linked (StateCache.detachListed inner g [unit]).members h id ↔
        Linked inner.members h id ∧
          ¬ (h ≠ g ∧ id = unitKey unit ∧ inner.units[id]?.map groupOf = some h) := by
      simp only [StateCache.detachListed, List.foldl_cons, List.foldl_nil]
      cases hunit : inner.units[unitKey unit]? with
      | none =>
        refine ⟨fun hl => ⟨hl, ?_⟩, fun hl => hl.1⟩
        rintro ⟨_, rfl, hg⟩
        simp [hunit] at hg
      | some existing =>
        dsimp only
        split
        · rename_i hne
          rw [unlinkMember, linked_unlink]
          refine and_congr_right fun _ => not_congr ⟨?_, ?_⟩
          · rintro ⟨rfl, rfl⟩
            exact ⟨hne, rfl, by rw [hunit]; rfl⟩
          · rintro ⟨_, rfl, hg⟩
            rw [hunit] at hg
            exact ⟨Option.some.inj hg, rfl⟩
        · rename_i heq
          refine ⟨fun hl => ⟨hl, ?_⟩, fun hl => hl.1⟩
          rintro ⟨hne, rfl, hg⟩
          rw [hunit] at hg
          exact heq (by rw [Option.some.inj hg]; exact hne)
    rw [hcons, ih, hone, StateCache.detachListed_units, List.map_cons, List.mem_cons]
    tauto

/-- The members of `g` that are not listed are gone; no other unit is touched. -/
theorem getElem?_dropUnlisted {inner : Inner Fl} (h : Indexes groupOf inner.units inner.members)
    (g : GroupId) (newIds : BTreeSet UnitId) (id : UnitId) :
    (inner.dropUnlisted g newIds).units[id]? =
      if id ∈ newIds then inner.units[id]?
      else inner.units[id]?.filter fun unit => groupOf unit ≠ g := by
  rw [dropUnlisted, getElem?_foldl_erase]
  simp only [List.mem_filter, Std.ExtTreeSet.mem_toList, mem_getD_iff_linked, h g id,
    decide_eq_true_eq]
  by_cases hnew : id ∈ newIds
  · simp [hnew]
  · cases hunit : inner.units[id]? with
    | none => simp [hnew]
    | some unit => by_cases hg : groupOf unit = g <;> simp [hnew, hg, Option.filter_some]

theorem mem_newIds {listed : List (Proto.Unit Fl)} {id : UnitId} :
    id ∈ (.ofList (listed.map unitKey) : BTreeSet UnitId) ↔ id ∈ listed.map unitKey := by
  rw [Std.ExtTreeSet.mem_ofList, List.contains_iff_mem]

theorem lastKeyed_unit_eq_none {listed : List (Proto.Unit Fl)} {id : UnitId} :
    lastKeyed unitKey listed id = none ↔ id ∉ listed.map unitKey := by
  simp [lastKeyed_eq_none]

theorem getElem?_relist {inner : Inner Fl} (h : Indexes groupOf inner.units inner.members)
    (g : GroupId) (listed : List (Proto.Unit Fl)) (id : UnitId) :
    (inner.relist g listed).units[id]? =
      (lastKeyed unitKey listed id).or (inner.units[id]?.filter fun unit => groupOf unit ≠ g) := by
  simp only [relist, getElem?_foldl_insert, StateCache.detachListed_units,
    getElem?_dropUnlisted h, mem_newIds]
  cases hlast : lastKeyed unitKey listed id with
  | some unit => rfl
  | none => rw [if_neg (lastKeyed_unit_eq_none.mp hlast)]

/-- After a push the group's index entry is the list, and no other group keeps a listed unit. -/
theorem linked_relist {inner : Inner Fl} (h : Indexes groupOf inner.units inner.members)
    (g : GroupId) (listed : List (Proto.Unit Fl)) (other : GroupId) (id : UnitId) :
    Linked (inner.relist g listed).members other id ↔
      if g = other then id ∈ listed.map unitKey
      else Linked inner.members other id ∧ id ∉ listed.map unitKey := by
  simp only [relist, linked_insert, mem_newIds]
  by_cases hother : g = other
  · simp [hother]
  · rw [if_neg hother, if_neg hother, linked_detachListed, getElem?_dropUnlisted h]
    simp only [mem_newIds]
    refine and_congr_right fun hlinked => ?_
    -- a linked unit is cached in `other`, so listing it detaches it
    obtain ⟨unit, hunit, hg⟩ := (h other id).mp hlinked
    by_cases hid : id ∈ listed.map unitKey
    · simp [hid, hunit, hg, Ne.symm hother]
    · simp [hid]

theorem Consistent.relist {inner : Inner Fl} (h : inner.Consistent) (g : GroupId)
    {listed : List (Proto.Unit Fl)} (hlisted : ∀ unit ∈ listed, groupOf unit = g) :
    (inner.relist g listed).Consistent := by
  refine ⟨?_, ?_, ?_, ?_⟩
  · intro other id
    rw [linked_relist h.indexed, getElem?_relist h.indexed]
    cases hlast : lastKeyed unitKey listed id with
    | some unit =>
      have hin : id ∈ listed.map unitKey := by
        rw [← not_not (a := id ∈ _), ← lastKeyed_unit_eq_none, hlast]
        simp
      simp [hin, hlisted unit (mem_of_lastKeyed hlast).1]
    | none =>
      have hout := lastKeyed_unit_eq_none.mp hlast
      simp only [hout, not_false_eq_true, and_true, Option.none_or, Option.filter_eq_some_iff,
        h.indexed other id, decide_eq_true_eq]
      split
      · rename_i heq
        simp only [false_iff, not_exists, not_and]
        rintro unit ⟨_, hne⟩ hg
        exact hne (hg.trans heq.symm)
      · rename_i hne
        constructor
        · rintro ⟨unit, hunit, rfl⟩
          exact ⟨unit, ⟨hunit, Ne.symm hne⟩, rfl⟩
        · rintro ⟨unit, ⟨hunit, _⟩, hg⟩
          exact ⟨unit, hunit, hg⟩
  · intro id unit hunit
    rw [getElem?_relist h.indexed, Option.or_eq_some_iff] at hunit
    rcases hunit with hlast | ⟨_, hold⟩
    · exact (mem_of_lastKeyed hlast).2
    · exact h.units_keyed id unit (Option.filter_eq_some_iff.mp hold).1
  · rw [StateCache.relist_groups]
    exact h.groups_keyed
  · rw [StateCache.relist_groups]
    exact h.groups_bare

theorem Consistent.pushGroup {inner : Inner Fl} (h : inner.Consistent) (group : Proto.Group Fl)
    (units : List (Proto.Unit Fl)) : (inner.pushGroup group units).Consistent := by
  refine (h.relist (groupKey group) ?_).placeGroup group
  intro unit hunit
  obtain ⟨u, _, rfl⟩ := List.mem_map.mp hunit
  exact groupOf_assign _ u

theorem getElem?_pushGroup {inner : Inner Fl} (h : Indexes groupOf inner.units inner.members)
    (group : Proto.Group Fl) (units : List (Proto.Unit Fl)) (id : UnitId) :
    (inner.pushGroup group units).units[id]? =
      Registry.pushUnits (fun id => inner.units[id]?) (groupKey group) units id := by
  have hrelist := getElem?_relist h (groupKey group) (units.map (assign (groupKey group))) id
  rw [lastKeyed_map (unitKey_assign _)] at hrelist
  refine hrelist.trans ?_
  unfold Registry.pushUnits
  cases lastKeyed unitKey units id <;> rfl

theorem registry_pushGroup {inner : Inner Fl} (h : inner.Consistent) (group : Proto.Group Fl)
    (units : List (Proto.Unit Fl)) :
    (inner.pushGroup group units).registry (h.pushGroup group units) =
      (inner.registry h).push group units := by
  refine Registry.ext (funext (getElem?_pushGroup h.indexed group units)) ?_
  simp only [registry, pushGroup, placeGroup, StateCache.relist_groups, Registry.push_groups]
  exact getElem?_insert_eq_update _ _ _

/-! ## 5. Taking a group -/

theorem takeGroup_groups (inner : Inner Fl) (g : GroupId) :
    (inner.takeGroup g).groups = inner.groups.erase g := by
  unfold takeGroup
  split <;> rfl

theorem linked_takeGroup (inner : Inner Fl) (g other : GroupId) (id : UnitId) :
    Linked (inner.takeGroup g).members other id ↔ g ≠ other ∧ Linked inner.members other id := by
  unfold takeGroup
  split
  · exact linked_erase
  · rename_i hnone
    refine ⟨fun hl => ⟨?_, hl⟩, fun hl => hl.2⟩
    rintro rfl
    obtain ⟨s, hs, _⟩ := hl
    simp [hnone] at hs

/-- Deleting through the index deletes exactly the units that name the group. -/
theorem getElem?_takeGroup {inner : Inner Fl} (h : Indexes groupOf inner.units inner.members)
    (g : GroupId) (id : UnitId) :
    (inner.takeGroup g).units[id]? = inner.units[id]?.filter fun unit => groupOf unit ≠ g := by
  have hunits : (inner.takeGroup g).units[id]? =
      if id ∈ inner.members[g]?.getD ∅ then none else inner.units[id]? := by
    unfold takeGroup
    cases hs : inner.members[g]? with
    | none => simp
    | some s => simp [getElem?_foldl_erase]
  rw [hunits]
  simp only [mem_getD_iff_linked, h g id]
  cases hunit : inner.units[id]? with
  | none => simp
  | some unit => by_cases hg : groupOf unit = g <;> simp [hg, Option.filter_some]

theorem Consistent.takeGroup {inner : Inner Fl} (h : inner.Consistent) (g : GroupId) :
    (inner.takeGroup g).Consistent := by
  refine ⟨?_, ?_, ?_, ?_⟩
  · intro other id
    rw [linked_takeGroup, getElem?_takeGroup h.indexed, h.indexed other id]
    simp only [Option.filter_eq_some_iff, decide_eq_true_eq]
    constructor
    · rintro ⟨hne, unit, hunit, rfl⟩
      exact ⟨unit, ⟨hunit, Ne.symm hne⟩, rfl⟩
    · rintro ⟨unit, ⟨hunit, hne⟩, rfl⟩
      exact ⟨Ne.symm hne, unit, hunit, rfl⟩
  · intro id unit hunit
    rw [getElem?_takeGroup h.indexed] at hunit
    exact h.units_keyed id unit (Option.filter_eq_some_iff.mp hunit).1
  · rw [takeGroup_groups]
    exact h.groups_keyed.erase g
  · intro id group hgroup
    rw [takeGroup_groups, Std.ExtTreeMap.getElem?_erase] at hgroup
    split at hgroup
    · simp at hgroup
    · exact h.groups_bare id group hgroup

theorem registry_takeGroup {inner : Inner Fl} (h : inner.Consistent) {g : GroupId}
    (hcached : g ∈ inner.groups) :
    (inner.takeGroup g).registry (h.takeGroup g) = (inner.registry h).takeGroup g := by
  have hsome : (inner.groups[g]?).isSome := Std.ExtTreeMap.mem_iff_isSome_getElem?.mp hcached
  refine Registry.ext (funext fun id => ?_) ?_
  · simp only [registry, Registry.takeGroup, hsome, if_true]
    exact getElem?_takeGroup h.indexed g id
  · simp only [registry, takeGroup_groups, Registry.takeGroup]
    exact getElem?_erase_eq_update _ _

/-! ## 6. Every write -/

/-- Every commit keeps the invariant. -/
theorem Consistent.commit {inner : Inner Fl} (h : inner.Consistent) (w : Write Fl) :
    (w.commit inner).Consistent := by
  cases w with
  | upsertUnit unit => exact h.placeUnit unit
  | removeUnit id => exact h.dropUnit id
  | upsertGroup group => exact h.placeGroup group
  | upsertGroupWithUnits order group units => exact h.pushGroup group units
  | removeGroup id =>
    simp only [Write.commit]
    split
    · exact h.takeGroup id
    · exact h
  | setSimulationInfo info => exact h.of_maps rfl rfl rfl
  | setSimulationState state => exact h.of_maps rfl rfl rfl
  | setLocations locations => exact h.of_maps rfl rfl rfl
  | clear order => exact consistent_empty _

/-- On the registry every commit has the effect of its write. -/
theorem registry_commit {inner : Inner Fl} (h : inner.Consistent) (w : Write Fl) :
    (w.commit inner).registry (h.commit w) = w.effect (inner.registry h) := by
  cases w with
  | upsertUnit unit => exact registry_placeUnit h unit
  | removeUnit id => exact registry_dropUnit h id
  | upsertGroup group => exact registry_placeGroup h group
  | upsertGroupWithUnits order group units => exact registry_pushGroup h group units
  | removeGroup id =>
    by_cases hid : id ∈ inner.groups
    · simp only [Write.commit, if_pos hid, Write.effect]
      exact registry_takeGroup h hid
    · have hnone : inner.groups[id]? = none := Std.ExtTreeMap.getElem?_eq_none hid
      simp only [Write.commit, if_neg hid, Write.effect]
      refine Registry.ext ?_ ?_
      · simp [registry, Registry.takeGroup, hnone]
      · simp only [registry, Registry.takeGroup]
        exact (Function.update_eq_self_iff.mpr hnone.symm).symm
  | setSimulationInfo info => rfl
  | setSimulationState state => rfl
  | setLocations locations => rfl
  | clear order => exact registry_empty _

end Inner

namespace StateCache

/-- A write leaves the maps of its commit. -/
theorem write_inner (c : StateCache Fl) (w : Write Fl) :
    (c.write w).inner = { w.commit c.inner with
      sequence := c.inner.sequence + UInt64.ofNat (w.messages c.inner).length } := by
  rw [write_eq, sendAll_inner, commit_inner, Write.commit_sequence]

theorem write_consistent {c : StateCache Fl} (h : c.inner.Consistent) (w : Write Fl) :
    (c.write w).inner.Consistent := by
  rw [write_inner]
  exact (h.commit w).of_maps rfl rfl rfl

theorem registry_write {c : StateCache Fl} (h : c.inner.Consistent) (w : Write Fl) :
    (c.write w).inner.registry (write_consistent h w) = w.effect (c.inner.registry h) := by
  rw [← Inner.registry_commit h w]
  simp only [Inner.registry, write_inner]

/-- The units after a write, one by one. -/
theorem write_units {c : StateCache Fl} (h : c.inner.Consistent) (w : Write Fl) (id : UnitId) :
    (c.write w).inner.units[id]? = (w.effect (c.inner.registry h)).units id :=
  congrFun (congrArg Registry.units (registry_write h w)) id

/-- The stored groups after a write, one by one. -/
theorem write_groups {c : StateCache Fl} (h : c.inner.Consistent) (w : Write Fl) (g : GroupId) :
    (c.write w).inner.groups[g]? = (w.effect (c.inner.registry h)).groups g :=
  congrFun (congrArg Registry.groups (registry_write h w)) g

/-! ## 7. Every run -/

theorem after_concat (writes : List (Write Fl)) (w : Write Fl) :
    after (writes ++ [w]) = (after writes).write w := by
  rw [after, List.foldl_append]
  rfl

theorem after_consistent (writes : List (Write Fl)) : (after writes).inner.Consistent := by
  induction writes using List.reverseRecOn with
  | nil => exact Inner.consistent_empty 0
  | append_singleton writes w ih =>
    rw [after_concat]
    exact write_consistent ih w

/-- **The cache refines the registry.**  After any run of writes, the two tables are what the
effects of the writes make of the empty registry. -/
theorem registry_after (writes : List (Write Fl)) :
    (after writes).inner.registry (after_consistent writes) =
      writes.foldl (fun r w => w.effect r) .empty := by
  induction writes using List.reverseRecOn with
  | nil => exact Inner.registry_empty 0
  | append_singleton writes w ih =>
    rw [List.foldl_append, List.foldl_cons, List.foldl_nil, ← ih,
      ← registry_write (after_consistent writes) w]
    simp only [Inner.registry, after_concat]

/-- **The membership index.**  In every reachable state the index files a unit under exactly
the group its `group_id` names, hence under one group at most; units and groups sit under their
own ids; and stored groups carry no units. -/
theorem membership_index (writes : List (Write Fl)) :
    let inner := (after writes).inner
    (∀ (g : GroupId) (u : UnitId), Linked inner.members g u ↔
      ∃ unit : Proto.Unit Fl, inner.units[u]? = some unit ∧ GroupId.ofStr unit.groupId = g) ∧
    (∀ (u : UnitId) (unit : Proto.Unit Fl), inner.units[u]? = some unit → unit.id = u.str) ∧
    (∀ (g : GroupId) (group : Proto.Group Fl), inner.groups[g]? = some group →
      group.id = g.str ∧ group.units = []) ∧
    (∀ (g h : GroupId) (u : UnitId), Linked inner.members g u → Linked inner.members h u → g = h) := by
  have hc := after_consistent writes
  refine ⟨hc.indexed, ?_, ?_, ?_⟩
  · intro u unit hunit
    rw [← hc.units_keyed u unit hunit]
    rfl
  · intro g group hgroup
    refine ⟨?_, hc.groups_bare g group hgroup⟩
    rw [← hc.groups_keyed g group hgroup]
    rfl
  · intro g h u hg hh
    exact hc.indexed.unique hg hh

end StateCache

end MinervaServer
