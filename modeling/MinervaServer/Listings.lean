/-
# The list of units and the list of groups

Two reads answer the question which units there are.  `list_units` SCANS: it walks the units,
compares each one's `group_id` with the filter and looks up the side of the group it names.
`list_groups` JOINS: it walks the groups, checks each one's side and follows the index to its
members.  They meet only in the invariant that ties the index to the units.

Both are described by membership (`mem_listUnits`, `mem_units_of_groups`) and neither repeats
an id (`nodup_listUnits`, `nodup_units_of_groups`), so they list the same units wherever the
descriptions coincide.  They part over the units whose group is not cached, which only
`list_units` without a side filter shows (`orphans`).
-/
import MinervaServer.Views

namespace MinervaServer

open Lib

variable {Fl : Floats}

/-! ## 1. Sides -/

theorem matchesSide_some {side : Proto.Side} {raw : Int32} :
    StateCache.matchesSide (some side) raw = true ↔ Proto.Side.tryFrom raw = some side := by
  simp [StateCache.matchesSide]

theorem unitSide_eq_some {inner : Inner Fl} {unit : Proto.Unit Fl} {side : Proto.Side} :
    StateCache.unitSide inner unit = some side ↔
      ∃ stored, inner.groups[groupOf unit]? = some stored ∧
        Proto.Side.tryFrom stored.side = some side := by
  rw [StateCache.unitSide, Option.bind_eq_some_iff]

namespace StateCache

/-! ## 2. The scan -/

theorem mem_units_entries {inner : Inner Fl} {order : IterOrder UnitId} {unit : Proto.Unit Fl} :
    unit ∈ (entries order inner.units).map Prod.snd ↔ ∃ id : UnitId, inner.units[id]? = some unit := by
  simp only [List.mem_map, Prod.exists, mem_entries, exists_eq_right]

theorem mem_listUnits {c : StateCache Fl} {order : IterOrder UnitId} {side : Option Proto.Side}
    {g : Option GroupId} {unit : Proto.Unit Fl} :
    unit ∈ c.listUnits order side g ↔ (∃ id : UnitId, c.inner.units[id]? = some unit) ∧
      (∀ id, g = some id → groupOf unit = id) ∧
      ∀ s, side = some s → unitSide c.inner unit = some s := by
  have hgroup : ∀ id : GroupId, unit.groupId = id.str ↔ groupOf unit = id := fun id =>
    ⟨fun h => congrArg GroupId.ofStr h, fun h => congrArg GroupId.str h⟩
  rw [listUnits, List.mem_filter, List.mem_filter, mem_units_entries]
  simp only [Option.all_eq_true, decide_eq_true_eq, hgroup, and_assoc]

/-- Walking the units visits every id once. -/
theorem nodup_units_entries {inner : Inner Fl} (h : inner.Consistent) (order : IterOrder UnitId) :
    (((entries order inner.units).map Prod.snd).map unitKey).Nodup := by
  have hkeys : ((entries order inner.units).map Prod.snd).map unitKey =
      (entries order inner.units).map Prod.fst := by
    rw [List.map_map]
    refine List.map_congr_left ?_
    rintro ⟨id, unit⟩ hentry
    exact h.units_keyed id unit (mem_entries.mp hentry)
  rw [hkeys]
  exact nodup_entries order inner.units

theorem nodup_listUnits {c : StateCache Fl} (h : c.inner.Consistent) (order : IterOrder UnitId)
    (side : Option Proto.Side) (g : Option GroupId) :
    ((c.listUnits order side g).map unitKey).Nodup := by
  refine (nodup_units_entries h order).sublist (List.Sublist.map _ ?_)
  exact List.filter_sublist.trans List.filter_sublist

/-- The cached units whose group is not cached. -/
def orphans (order : IterOrder UnitId) (inner : Inner Fl) : List (Proto.Unit Fl) :=
  ((entries order inner.units).map Prod.snd).filter fun unit => groupOf unit ∉ inner.groups

theorem mem_orphans {inner : Inner Fl} {order : IterOrder UnitId} {unit : Proto.Unit Fl} :
    unit ∈ orphans order inner ↔
      (∃ id : UnitId, inner.units[id]? = some unit) ∧ groupOf unit ∉ inner.groups := by
  rw [orphans, List.mem_filter, mem_units_entries, decide_eq_true_eq]

/-! ## 3. The join -/

/-- The units of the listed groups: those whose group is cached on a side that matches. -/
theorem mem_units_of_groups {inner : Inner Fl} (h : inner.Consistent) {order : IterOrder GroupId}
    {side : Option Proto.Side} {unit : Proto.Unit Fl} :
    unit ∈ (matchingGroups order inner side).flatMap Proto.Group.units ↔
      (∃ id : UnitId, inner.units[id]? = some unit) ∧
        ∃ stored, inner.groups[groupOf unit]? = some stored ∧ matchesSide side stored.side := by
  rw [List.mem_flatMap]
  constructor
  · rintro ⟨group, hgroup, hunit⟩
    obtain ⟨g, hview, hside⟩ := mem_matchingGroups.mp hgroup
    rw [Inner.units_of_joinedGroup hview, Inner.mem_memberUnits h] at hunit
    obtain ⟨hcached, rfl⟩ := hunit
    exact ⟨⟨_, hcached⟩, bare group, Inner.stored_of_joinedGroup h hview, hside⟩
  · rintro ⟨hunit, stored, hstored, hside⟩
    have hview : inner.joinedGroup (groupOf unit) =
        some { stored with units := inner.memberUnits (groupOf unit) } := by
      rw [Inner.joinedGroup, hstored]
      rfl
    refine ⟨_, mem_matchingGroups.mpr ⟨_, hview, hside⟩, ?_⟩
    exact (Inner.mem_memberUnits h).mpr ⟨(Inner.stored_iff h).mp hunit, rfl⟩

/-- No id is listed twice, neither in one group nor in two. -/
theorem nodup_units_of_groups {inner : Inner Fl} (h : inner.Consistent) {order : IterOrder GroupId}
    {side : Option Proto.Side} {groups : List (Proto.Group Fl)}
    (hsub : groups.Sublist (matchingGroups order inner side)) :
    ((groups.flatMap Proto.Group.units).map unitKey).Nodup := by
  rw [List.map_flatMap, List.nodup_flatMap]
  refine ⟨fun group hgroup => ?_, ((disjoint_matchingGroups h order side).sublist hsub).imp ?_⟩
  · obtain ⟨g, hview, _⟩ := mem_matchingGroups.mp (hsub.mem hgroup)
    rw [Inner.units_of_joinedGroup hview]
    exact Inner.nodup_memberUnits h g
  · intro group group' hdisjoint id hid hid'
    obtain ⟨unit, hunit, rfl⟩ := List.mem_map.mp hid
    obtain ⟨unit', hunit', hkey⟩ := List.mem_map.mp hid'
    exact hdisjoint unit hunit unit' hunit' (congrArg UnitId.str hkey.symm)

/-- A unit of a listed group names it. -/
theorem id_of_member {inner : Inner Fl} (h : inner.Consistent) {order : IterOrder GroupId}
    {side : Option Proto.Side} {group : Proto.Group Fl} {unit : Proto.Unit Fl}
    (hgroup : group ∈ matchingGroups order inner side) (hunit : unit ∈ group.units) :
    group.id = unit.groupId := by
  obtain ⟨g, hview, _⟩ := mem_matchingGroups.mp hgroup
  exact (((Inner.complete_of_joinedGroup h hview).mem_units unit).mp hunit).2.symm

/-- A group whose stored side is outside the enum is listed for no side. -/
theorem id_ne_of_side_none {inner : Inner Fl} (h : inner.Consistent) {order : IterOrder GroupId}
    {s : Proto.Side} {g : GroupId} {stored view : Proto.Group Fl}
    (hstored : inner.groups[g]? = some stored) (hside : Proto.Side.tryFrom stored.side = none)
    (hview : view ∈ matchingGroups order inner (some s)) : view.id ≠ g.str := by
  intro hid
  obtain ⟨g', hjoined, hmatch⟩ := mem_matchingGroups.mp hview
  obtain rfl : g' = g :=
    (Inner.groupKey_of_joinedGroup h hjoined).symm.trans (congrArg GroupId.ofStr hid)
  obtain rfl := Option.some.inj (hstored.symm.trans (Inner.stored_of_joinedGroup h hjoined))
  rw [matchesSide_some, show Proto.Side.tryFrom view.side = none from hside] at hmatch
  cases hmatch

/-- The units of one of the listed groups are those that name it. -/
theorem mem_units_of_group {inner : Inner Fl} (h : inner.Consistent) {order : IterOrder GroupId}
    {side : Option Proto.Side} {g : GroupId} {unit : Proto.Unit Fl} :
    unit ∈ ((matchingGroups order inner side).filter fun group => group.id = g.str).flatMap
        Proto.Group.units ↔
      unit ∈ (matchingGroups order inner side).flatMap Proto.Group.units ∧ groupOf unit = g := by
  simp only [List.mem_flatMap, List.mem_filter, decide_eq_true_eq]
  constructor
  · rintro ⟨group, ⟨hgroup, hid⟩, hunit⟩
    have hname := id_of_member h hgroup hunit
    exact ⟨⟨group, hgroup, hunit⟩, congrArg GroupId.ofStr (hname.symm.trans hid)⟩
  · rintro ⟨⟨group, hgroup, hunit⟩, rfl⟩
    exact ⟨group, ⟨hgroup, id_of_member h hgroup hunit⟩, hunit⟩

/-- No id is both in a listed group and an orphan's. -/
theorem nodup_units_of_groups_append {inner : Inner Fl} (h : inner.Consistent)
    (orderG : IterOrder GroupId) (orderU : IterOrder UnitId) (side : Option Proto.Side) :
    (((matchingGroups orderG inner side).flatMap Proto.Group.units ++
      orphans orderU inner).map unitKey).Nodup := by
  rw [List.map_append]
  refine List.Nodup.append (nodup_units_of_groups h (List.Sublist.refl _))
    ((nodup_units_entries h orderU).sublist (List.Sublist.map _ List.filter_sublist)) ?_
  intro id hid hid'
  obtain ⟨unit, hunit, rfl⟩ := List.mem_map.mp hid
  obtain ⟨unit', hunit', hkey⟩ := List.mem_map.mp hid'
  obtain ⟨hstoredAt, stored, hstored, _⟩ := (mem_units_of_groups h).mp hunit
  obtain ⟨hstoredAt', huncached⟩ := mem_orphans.mp hunit'
  -- one id, one unit
  rw [Inner.stored_iff h] at hstoredAt hstoredAt'
  rw [hkey, hstoredAt] at hstoredAt'
  rw [← Option.some.inj hstoredAt'] at huncached
  exact huncached (Std.ExtTreeMap.mem_iff_isSome_getElem?.mpr (by simp [hstored]))

/-! ## 4. They agree -/

/-- Two lists that repeat no id and have the same members are one list up to order. -/
theorem perm_of_mem_iff {l l' : List (Proto.Unit Fl)} (h : (l.map unitKey).Nodup)
    (h' : (l'.map unitKey).Nodup) (hmem : ∀ unit, unit ∈ l ↔ unit ∈ l') : l.Perm l' :=
  (List.perm_ext_iff_of_nodup h.of_map h'.of_map).mpr hmem

/-- **Unit listing agrees with group listing**, in every reachable state and whatever order
either takes.  With a side, the units are those of the groups on that side; with a group as
well, those of that group among them; with a group alone, those of the group as it is read,
if it is cached; with no filter, those of all groups and the units whose group is not cached.
A stored side outside the enum is on nobody's list. -/
theorem unit_listing_agrees (writes : List (Write Fl)) (orderU : IterOrder UnitId)
    (orderG : IterOrder GroupId) :
    let c := after writes
    (∀ s, (c.listUnits orderU (some s) none).Perm
        ((c.listGroups orderG (some s)).flatMap Proto.Group.units) ∧
      ((c.listUnits orderU (some s) none).map Proto.Unit.id).Nodup) ∧
    (∀ s g, (c.listUnits orderU (some s) (some g)).Perm
      (((c.listGroups orderG (some s)).filter fun group => group.id = g.str).flatMap
        Proto.Group.units)) ∧
    (∀ g view, c.getGroup g = some view → (c.listUnits orderU none (some g)).Perm view.units) ∧
    ((c.listUnits orderU none none).Perm
        ((c.listGroups orderG none).flatMap Proto.Group.units ++ orphans orderU c.inner) ∧
      ((c.listUnits orderU none none).map Proto.Unit.id).Nodup) ∧
    (∀ (g : GroupId) stored, c.inner.groups[g]? = some stored →
      Proto.Side.tryFrom stored.side = none → ∀ s,
        (∀ view ∈ c.listGroups orderG (some s), view.id ≠ g.str) ∧
          ∀ unit ∈ c.listUnits orderU (some s) none, unit.groupId ≠ g.str) := by
  intro c
  have hc : c.inner.Consistent := after_consistent writes
  have hids : ∀ side g, ((c.listUnits orderU side g).map Proto.Unit.id).Nodup := by
    intro side g
    refine List.Nodup.of_map UnitId.ofStr ?_
    rw [List.map_map]
    exact nodup_listUnits hc orderU side g
  have hlisted : ∀ s unit, unit ∈ c.listUnits orderU (some s) none ↔
      unit ∈ (c.listGroups orderG (some s)).flatMap Proto.Group.units := by
    intro s unit
    rw [mem_listUnits, listGroups, mem_units_of_groups hc]
    simp [unitSide_eq_some, matchesSide_some]
  refine ⟨fun s => ⟨?_, hids _ _⟩, ?_, ?_, ⟨?_, hids _ _⟩, ?_⟩
  · exact perm_of_mem_iff (nodup_listUnits hc _ _ _)
      (nodup_units_of_groups hc (List.Sublist.refl _)) (hlisted s)
  · intro s g
    refine perm_of_mem_iff (nodup_listUnits hc _ _ _)
      (nodup_units_of_groups hc List.filter_sublist) fun unit => ?_
    rw [listGroups, mem_units_of_group hc]
    refine Iff.trans ?_ (and_congr_left fun _ => hlisted s unit)
    rw [mem_listUnits, mem_listUnits]
    simp only [Option.some.injEq, forall_eq', reduceCtorEq, false_implies, implies_true, true_and]
    tauto
  · intro g view hview
    have hnodup := Inner.nodup_memberUnits hc g
    rw [← Inner.units_of_joinedGroup hview] at hnodup
    refine perm_of_mem_iff (nodup_listUnits hc _ _ _) hnodup fun unit => ?_
    rw [mem_listUnits, Inner.units_of_joinedGroup hview, Inner.mem_memberUnits hc,
      Inner.stored_iff hc]
    simp only [Option.some.injEq, forall_eq', reduceCtorEq, false_implies, implies_true, and_true]
  · refine perm_of_mem_iff (nodup_listUnits hc _ _ _)
      (nodup_units_of_groups_append hc orderG orderU none) fun unit => ?_
    rw [mem_listUnits, List.mem_append, listGroups, mem_units_of_groups hc, mem_orphans]
    have hcached : groupOf unit ∈ c.inner.groups ↔
        ∃ stored, c.inner.groups[groupOf unit]? = some stored := by
      rw [Std.ExtTreeMap.mem_iff_isSome_getElem?, Option.isSome_iff_exists]
    simp only [reduceCtorEq, false_implies, implies_true, and_true, matchesSide, Option.all_none,
      ← hcached]
    tauto
  · intro g stored hstored hside s
    have hviews : ∀ view ∈ c.listGroups orderG (some s), view.id ≠ g.str := fun view hview =>
      id_ne_of_side_none hc hstored hside hview
    refine ⟨hviews, fun unit hunit hid => ?_⟩
    -- a unit that is listed is one of a listed view
    obtain ⟨view, hview, hmember⟩ := List.mem_flatMap.mp ((hlisted s unit).mp hunit)
    exact hviews view hview ((id_of_member hc hview hmember).trans hid)

end StateCache

end MinervaServer
