/-
# Joined views

What the cache publishes is never a stored group but its JOINED VIEW: the stored fields with
the current members filled in through the index.  On a consistent cache the join is a scan of
the units (`joinedGroup_eq_scan`), so

* a view lists exactly the units that name its group, in ascending order of their ids
  (`complete_of_joinedGroup`);
* a view depends on one group and the units that name it, and on nothing else of the cache
  (`joinedGroup_congr`): in particular caches with one registry have the same views, whatever
  their indexes look like inside.
-/
import MinervaServer.Writes

namespace MinervaServer

open Lib

variable {Fl : Floats}

/-! ## 1. What a view depends on -/

/-- The two registries agree about the group `g`: its stored fields and the units naming it. -/
def Registry.SameAt (r r' : Registry Fl) (g : GroupId) : Prop :=
  r.groups g = r'.groups g ∧
    ∀ id unit, groupOf unit = g → (r.units id = some unit ↔ r'.units id = some unit)

namespace Inner

theorem joinedGroup_eq_scan {inner : Inner Fl} (h : inner.Consistent) (g : GroupId) :
    inner.joinedGroup g =
      inner.groups[g]?.map fun group => { group with units := scan groupOf inner.units g } := by
  simp only [joinedGroup, memberUnits, join_eq_scan h.indexed]

/-- A unit that is stored is stored under its own id. -/
theorem stored_iff {inner : Inner Fl} (h : inner.Consistent) {unit : Proto.Unit Fl} :
    (∃ id : UnitId, inner.units[id]? = some unit) ↔ inner.units[unitKey unit]? = some unit := by
  constructor
  · rintro ⟨id, hunit⟩
    rwa [h.units_keyed id unit hunit]
  · exact fun hunit => ⟨unitKey unit, hunit⟩

theorem mem_memberUnits {inner : Inner Fl} (h : inner.Consistent) {g : GroupId}
    {unit : Proto.Unit Fl} :
    unit ∈ inner.memberUnits g ↔ inner.units[unitKey unit]? = some unit ∧ groupOf unit = g := by
  rw [memberUnits, join_eq_scan h.indexed, mem_scan, exists_and_right, stored_iff h]

/-- A join lists every id once. -/
theorem nodup_memberUnits {inner : Inner Fl} (h : inner.Consistent) (g : GroupId) :
    ((inner.memberUnits g).map unitKey).Nodup := by
  rw [memberUnits, join_eq_scan h.indexed, List.nodup_iff_pairwise_ne, List.pairwise_map]
  refine (ordered_scan h.units_keyed g).imp ?_
  intro unit unit' hlt heq
  rw [heq] at hlt
  simp at hlt

/-- **A view is local.**  Two caches that agree about a group publish the same view of it. -/
theorem joinedGroup_congr {inner inner' : Inner Fl} (h : inner.Consistent) (h' : inner'.Consistent)
    {g : GroupId} (hsame : (inner.registry h).SameAt (inner'.registry h') g) :
    inner.joinedGroup g = inner'.joinedGroup g := by
  have hgroups : inner.groups[g]? = inner'.groups[g]? := hsame.1
  have hunits : scan groupOf inner.units g = scan groupOf inner'.units g :=
    scan_congr fun id unit hunit => hsame.2 id unit hunit
  rw [joinedGroup_eq_scan h, joinedGroup_eq_scan h', hgroups, hunits]

/-- A view is filed under the id it carries. -/
theorem groupKey_of_joinedGroup {inner : Inner Fl} (h : inner.Consistent) {g : GroupId}
    {group : Proto.Group Fl} (hview : inner.joinedGroup g = some group) : groupKey group = g := by
  obtain ⟨stored, hstored, rfl⟩ := Option.map_eq_some_iff.mp hview
  exact h.groups_keyed g stored hstored

/-- The fields of a view are the ones stored. -/
theorem stored_of_joinedGroup {inner : Inner Fl} (h : inner.Consistent) {g : GroupId}
    {group : Proto.Group Fl} (hview : inner.joinedGroup g = some group) :
    inner.groups[g]? = some (bare group) := by
  obtain ⟨stored, hstored, rfl⟩ := Option.map_eq_some_iff.mp hview
  have hnone := h.groups_bare g stored hstored
  rw [hstored]
  cases stored
  exact congrArg _ (congrArg _ hnone)

/-- The units of a view are the members. -/
theorem units_of_joinedGroup {inner : Inner Fl} {g : GroupId} {group : Proto.Group Fl}
    (hview : inner.joinedGroup g = some group) : group.units = inner.memberUnits g := by
  obtain ⟨stored, _, rfl⟩ := Option.map_eq_some_iff.mp hview
  rfl

/-- There is a view exactly of the groups that are cached. -/
theorem isSome_joinedGroup (inner : Inner Fl) (g : GroupId) :
    (inner.joinedGroup g).isSome ↔ g ∈ inner.groups := by
  rw [joinedGroup, Option.isSome_map, Std.ExtTreeMap.mem_iff_isSome_getElem?]

/-- The side of a view is the side that is stored. -/
theorem side_joinedGroup (inner : Inner Fl) (g : GroupId) :
    (inner.joinedGroup g).map Proto.Group.side = inner.groups[g]?.map Proto.Group.side := by
  rw [joinedGroup, Option.map_map]
  rfl

/-! ## 2. Complete groups -/

/-- The group's `units` are exactly the cached units that name it, each once and in strictly
ascending order of their ids. -/
structure Complete (inner : Inner Fl) (group : Proto.Group Fl) : Prop where
  mem_units : ∀ unit, unit ∈ group.units ↔
    (∃ id : UnitId, inner.units[id]? = some unit) ∧ unit.groupId = group.id
  ascending : group.units.Pairwise fun unit unit' => unit.id < unit'.id

/-- The join of a stored group is complete. -/
theorem complete_join {inner : Inner Fl} (h : inner.Consistent) {g : GroupId}
    {group : Proto.Group Fl} (hgroup : inner.groups[g]? = some group) :
    inner.Complete { group with units := inner.memberUnits g } := by
  have hkey : groupKey group = g := h.groups_keyed g group hgroup
  have hunits : inner.memberUnits g = scan groupOf inner.units g := join_eq_scan h.indexed g
  refine ⟨fun unit => ?_, ?_⟩
  · dsimp only
    rw [hunits, mem_scan, exists_and_right, ← hkey]
    exact and_congr_right fun _ => ⟨congrArg GroupId.str, congrArg GroupId.ofStr⟩
  · dsimp only
    rw [hunits]
    exact (ordered_scan h.units_keyed g).imp UnitId.compare_lt.mp

/-- **Every view is complete.** -/
theorem complete_of_joinedGroup {inner : Inner Fl} (h : inner.Consistent) {g : GroupId}
    {group : Proto.Group Fl} (hview : inner.joinedGroup g = some group) :
    inner.Complete group := by
  obtain ⟨stored, hstored, rfl⟩ := Option.map_eq_some_iff.mp hview
  exact complete_join h hstored

end Inner

/-! ## 3. Lists of groups -/

namespace StateCache

/-- A list of groups, and a snapshot, is made of views. -/
theorem mem_matchingGroups {order : IterOrder GroupId} {inner : Inner Fl}
    {side : Option Proto.Side} {group : Proto.Group Fl} :
    group ∈ matchingGroups order inner side ↔
      ∃ g, inner.joinedGroup g = some group ∧ matchesSide side group.side := by
  simp only [matchingGroups, List.mem_map, List.mem_filter, Prod.exists, mem_entries,
    Inner.joinedGroup, Option.map_eq_some_iff]
  constructor
  · rintro ⟨g, stored, ⟨hstored, hside⟩, rfl⟩
    exact ⟨g, ⟨stored, hstored, rfl⟩, hside⟩
  · rintro ⟨g, ⟨stored, hstored, rfl⟩, hside⟩
    exact ⟨g, stored, ⟨hstored, hside⟩, rfl⟩

/-- A list of groups names each group once. -/
theorem pairwise_matchingGroups {inner : Inner Fl} (h : inner.Consistent)
    (order : IterOrder GroupId) (side : Option Proto.Side) :
    (matchingGroups order inner side).Pairwise fun group group' => group.id ≠ group'.id := by
  rw [matchingGroups, List.pairwise_map]
  have hkeys := List.pairwise_map.mp (nodup_entries order inner.groups)
  refine (hkeys.filter _).imp_of_mem ?_
  rintro ⟨g, stored⟩ ⟨g', stored'⟩ hmem hmem' hne hid
  have hg := h.groups_keyed g stored (mem_entries.mp (List.mem_of_mem_filter hmem))
  have hg' := h.groups_keyed g' stored' (mem_entries.mp (List.mem_of_mem_filter hmem'))
  exact hne (hg.symm.trans ((congrArg GroupId.ofStr hid).trans hg'))

/-- No unit is listed by two groups of one list. -/
theorem disjoint_matchingGroups {inner : Inner Fl} (h : inner.Consistent)
    (order : IterOrder GroupId) (side : Option Proto.Side) :
    (matchingGroups order inner side).Pairwise fun group group' =>
      ∀ unit ∈ group.units, ∀ unit' ∈ group'.units, unit.id ≠ unit'.id := by
  refine (pairwise_matchingGroups h order side).imp_of_mem ?_
  intro group group' hmem hmem' hne unit hunit unit' hunit' hid
  obtain ⟨g, hview, _⟩ := mem_matchingGroups.mp hmem
  obtain ⟨g', hview', _⟩ := mem_matchingGroups.mp hmem'
  obtain ⟨⟨k, hk⟩, hg⟩ := ((Inner.complete_of_joinedGroup h hview).mem_units unit).mp hunit
  obtain ⟨⟨k', hk'⟩, hg'⟩ := ((Inner.complete_of_joinedGroup h hview').mem_units unit').mp hunit'
  -- one id, one entry of `units`, one group
  have hkey : k = k' := (h.units_keyed k unit hk).symm.trans
    ((congrArg UnitId.ofStr hid).trans (h.units_keyed k' unit' hk'))
  rw [hkey] at hk
  have hsame : unit = unit' := Option.some.inj (hk.symm.trans hk')
  exact hne (by rw [← hg, ← hg', hsame])

end StateCache

/-! ## 4. Caches with one registry -/

section SameRegistry

variable {inner inner' : Inner Fl} {h : inner.Consistent} {h' : inner'.Consistent}

theorem Inner.units_eq_of_registry (heq : inner.registry h = inner'.registry h') :
    inner.units = inner'.units :=
  Std.ExtTreeMap.ext_getElem? fun id => congrFun (congrArg Registry.units heq) id

theorem Inner.groups_eq_of_registry (heq : inner.registry h = inner'.registry h') :
    inner.groups = inner'.groups :=
  Std.ExtTreeMap.ext_getElem? fun g => congrFun (congrArg Registry.groups heq) g

/-- One registry, one membership relation. -/
theorem Inner.linked_of_registry (heq : inner.registry h = inner'.registry h') (g : GroupId)
    (id : UnitId) : Linked inner.members g id ↔ Linked inner'.members g id := by
  rw [h.indexed g id, h'.indexed g id, units_eq_of_registry heq]

/-- One registry, one join of every group. -/
theorem Inner.memberUnits_of_registry (heq : inner.registry h = inner'.registry h') :
    inner.memberUnits = inner'.memberUnits := by
  funext g
  rw [memberUnits, memberUnits, join_eq_scan h.indexed, join_eq_scan h'.indexed,
    units_eq_of_registry heq]

theorem Inner.joinedGroup_of_registry (heq : inner.registry h = inner'.registry h') :
    inner.joinedGroup = inner'.joinedGroup := by
  funext g
  rw [joinedGroup, joinedGroup, groups_eq_of_registry heq, memberUnits_of_registry heq]

/-- **One registry, one answer** to every read, up to the order of the two unsorted lists. -/
theorem StateCache.reads_of_registry {c c' : StateCache Fl} {h : c.inner.Consistent}
    {h' : c'.inner.Consistent} (heq : c.inner.registry h = c'.inner.registry h') :
    (∀ id, c.getUnit id = c'.getUnit id) ∧ (∀ g, c.getGroup g = c'.getGroup g) ∧
    (∀ order order' side g, (c.listUnits order side g).Perm (c'.listUnits order' side g)) ∧
    (∀ order order' side, (c.listGroups order side).Perm (c'.listGroups order' side)) := by
  have hunits := Inner.units_eq_of_registry heq
  have hgroups := Inner.groups_eq_of_registry heq
  refine ⟨fun id => ?_, fun g => ?_, fun order order' side g => ?_, fun order order' side => ?_⟩
  · rw [getUnit, getUnit, hunits]
  · rw [getGroup, getGroup, Inner.joinedGroup_of_registry heq]
  · have hside : unitSide c.inner = unitSide c'.inner := by
      funext unit
      rw [unitSide, unitSide, hgroups]
    rw [listUnits, listUnits, hside, hunits]
    exact (((entries_perm order order' _).map _).filter _).filter _
  · rw [listGroups, listGroups, matchingGroups, matchingGroups, hgroups,
      Inner.memberUnits_of_registry heq]
    exact ((entries_perm order order' _).filter _).map _

end SameRegistry

end MinervaServer
