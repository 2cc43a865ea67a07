/-
# Pushing a group: against the single-unit writes, and in any order

`upsert_group_with_units` does in one call what the incremental writes do one unit or one group
at a time, and the engine calls it once for every group in a tick.  Two facts about it, both
read off the registry:

* `incremental_agrees_with_bulk`: an incremental write of a cached group and the push of the
  membership it results in leave the same cache and announce the same events in the same order;
* `tick_order_irrelevant`: pushes of different groups that list different units may be applied
  in any order.  `tickUnits` and `tickGroups` say what the tables hold afterwards; neither
  mentions an order, which is the whole argument.
-/
import MinervaServer.Broadcasts

namespace MinervaServer

open Lib

variable {Fl : Floats}

/-! ## 1. Two writes with one effect -/

namespace StateCache

/-- The two caches hold the same units, groups and membership relation, stand at the same
sequence number and have broadcast the same events. -/
structure Agree (c c' : StateCache Fl) : Prop where
  units : c.inner.units = c'.inner.units
  groups : c.inner.groups = c'.inner.groups
  members : ∀ (g : GroupId) (id : UnitId),
    Linked c.inner.members g id ↔ Linked c'.inner.members g id
  sequence : c.inner.sequence = c'.inner.sequence
  sent : c.sent = c'.sent

/-- Writes with one effect on the registry that announce the same first and compare the same
groups cannot be told apart. -/
theorem agree_of_effect {c : StateCache Fl} (h : c.inner.Consistent) {w w' : Write Fl}
    (heffect : w.effect (c.inner.registry h) = w'.effect (c.inner.registry h))
    (hfirst : w.announcedFirst c.inner = w'.announcedFirst c.inner)
    (hcompared : w.compared c.inner = w'.compared c.inner) :
    Agree (c.write w) (c.write w') := by
  have hregistry : (c.write w).inner.registry (write_consistent h w) =
      (c.write w').inner.registry (write_consistent h w') := by
    rw [registry_write h, registry_write h, heffect]
  have hmessages : w.messages c.inner = w'.messages c.inner := by
    rw [Write.messages, Write.messages, hfirst, hcompared, ← write_joinedGroup,
      ← write_joinedGroup, Inner.joinedGroup_of_registry hregistry]
  refine ⟨Inner.units_eq_of_registry hregistry, Inner.groups_eq_of_registry hregistry,
    Inner.linked_of_registry hregistry, ?_, ?_⟩
  · rw [write_inner, write_inner, hmessages]
  · rw [write_sent, write_sent, hmessages]

end StateCache

/-! ## 2. The incremental writes as pushes -/

theorem eq_toList_of_nodup {A : Type} {l : List A} (hl : l.Nodup) {o : Option A}
    (hmem : ∀ a, a ∈ l ↔ o = some a) : l = o.toList := by
  have hperm : l.Perm o.toList := by
    refine (List.perm_ext_iff_of_nodup hl (by cases o <;> simp)).mpr fun a => ?_
    rw [hmem a, Option.mem_toList]
  cases o with
  | none => exact hperm.eq_nil
  | some a => exact List.perm_singleton.mp hperm

namespace Registry

/-- The table a push leaves, recognised: its members of `g` are the list, and elsewhere it
keeps what is not listed. -/
theorem pushUnits_eq_of {units units' : UnitId → Option (Proto.Unit Fl)} {g : GroupId}
    {listed : List (Proto.Unit Fl)} (hkeyed : ∀ id unit, units' id = some unit → unitKey unit = id)
    (hnodup : (listed.map unitKey).Nodup)
    (hin : ∀ unit, unit ∈ listed ↔ units' (unitKey unit) = some unit ∧ groupOf unit = g)
    (hout : ∀ id unit, groupOf unit ≠ g →
      (units' id = some unit ↔ id ∉ listed.map unitKey ∧ units id = some unit)) :
    pushUnits units g listed = units' := by
  have hself : ∀ unit ∈ listed, assign g unit = unit := by
    intro unit hunit
    rw [← ((hin unit).mp hunit).2]
    rfl
  funext id
  refine Option.ext fun unit => ?_
  rw [pushUnits_eq_some, Inner.lastKeyed_unit_eq_none]
  simp only [lastKeyed_of_nodup hnodup]
  by_cases hg : groupOf unit = g
  · constructor
    · rintro (⟨u, ⟨hu, rfl⟩, rfl⟩ | ⟨_, _, hne⟩)
      · rw [hself u hu]
        exact ((hin u).mp hu).1
      · exact absurd hg hne
    · intro hunit
      obtain rfl := hkeyed id unit hunit
      have hu := (hin unit).mpr ⟨hunit, hg⟩
      exact Or.inl ⟨unit, ⟨hu, rfl⟩, (hself unit hu).symm⟩
  · rw [hout id unit hg]
    constructor
    · rintro (⟨u, _, rfl⟩ | ⟨hid, hunit, _⟩)
      · exact absurd (groupOf_assign g u) hg
      · exact ⟨hid, hunit⟩
    · rintro ⟨hid, hunit⟩
      exact Or.inr ⟨hid, hunit, hg⟩

/-- Storing the fields that are stored already. -/
theorem push_groups_self {r : Registry Fl} {group : Proto.Group Fl}
    (hcached : r.groups (groupKey group) = some group) (listed : List (Proto.Unit Fl)) :
    (r.push group listed).groups = r.groups := by
  have hbare : bare group = group := by
    have hunits := r.groups_bare _ group hcached
    cases group
    exact congrArg _ hunits.symm
  rw [push_groups, hbare, ← hcached, Function.update_eq_self]

end Registry

namespace StateCache

variable {c : StateCache Fl} {group : Proto.Group Fl} {listed : List (Proto.Unit Fl)}

theorem id_ne_iff (unit unit' : Proto.Unit Fl) : unit.id ≠ unit'.id ↔ unitKey unit ≠ unitKey unit' :=
  not_congr ⟨congrArg UnitId.ofStr, congrArg UnitId.str⟩

/-- A unit that belongs to another group is not listed by a push of members alone. -/
theorem not_listed_of_members {inner : Inner Fl} (h : inner.Consistent) {g : GroupId}
    (hlisted : ∀ unit ∈ listed, unit ∈ inner.memberUnits g) {id : UnitId} {unit : Proto.Unit Fl}
    (hunit : inner.units[id]? = some unit) (hg : groupOf unit ≠ g) : id ∉ listed.map unitKey := by
  intro hid
  obtain ⟨m, hm, rfl⟩ := List.mem_map.mp hid
  obtain ⟨hcached, hmg⟩ := (Inner.mem_memberUnits h).mp (hlisted m hm)
  rw [hcached] at hunit
  exact hg (by rw [← Option.some.inj hunit, hmg])

/-- A push of members of the group itself takes units from no other group. -/
theorem losers_of_members {inner : Inner Fl} (h : inner.Consistent) (order : IterOrder GroupId)
    {g : GroupId} (hlisted : ∀ unit ∈ listed, unit ∈ inner.memberUnits g) :
    losers order inner g (listed.map (assign g)) = [] := by
  refine List.eq_nil_iff_forall_not_mem.mpr fun id hid => ?_
  obtain ⟨hne, unit, hunit, existing, hexisting, rfl⟩ := mem_losers.mp hid
  refine not_listed_of_members h hlisted hexisting hne ?_
  obtain ⟨u, hu, rfl⟩ := List.mem_map.mp hunit
  exact List.mem_map.mpr ⟨u, hu, rfl⟩

/-- A push that leaves the group's fields as they are announces no side change. -/
theorem sideRemoval_self (hcached : c.inner.groups[groupKey group]? = some group) :
    sideRemoval c.inner.groups[groupKey group]? (bare group) = [] := by
  rw [hcached]
  simp [sideRemoval, bare]

/-- (c) `upsert_group` is the push of the current members. -/
theorem upsertGroup_agrees (h : c.inner.Consistent) (order : IterOrder GroupId)
    (hperm : listed.Perm (c.inner.memberUnits (groupKey group))) :
    Agree (c.upsertGroup group) (c.upsertGroupWithUnits order group listed) := by
  have hlisted : ∀ unit ∈ listed, unit ∈ c.inner.memberUnits (groupKey group) :=
    fun unit hunit => hperm.mem_iff.mp hunit
  have hnodup : (listed.map unitKey).Nodup :=
    (hperm.map unitKey).nodup_iff.mpr (Inner.nodup_memberUnits h _)
  change Agree (c.write (.upsertGroup group)) (c.write (.upsertGroupWithUnits order group listed))
  refine agree_of_effect h ?_ rfl ?_
  · refine Registry.ext (Registry.pushUnits_eq_of
      (c.inner.registry h).units_keyed hnodup (fun unit => ?_) (fun id unit hg => ?_)).symm rfl
    · rw [hperm.mem_iff, Inner.mem_memberUnits h]
      rfl
    · exact ⟨fun hunit => ⟨not_listed_of_members h hlisted hunit hg, hunit⟩, And.right⟩
  · rw [Write.compared, Write.compared, losers_of_members h order hlisted]

/-- (b) `remove_unit` of a member is the push of the others. -/
theorem removeUnit_agrees (h : c.inner.Consistent)
    (hcached : c.inner.groups[groupKey group]? = some group) (order : IterOrder GroupId)
    {unit : Proto.Unit Fl} (hunit : unit ∈ c.inner.memberUnits (groupKey group))
    (hperm : listed.Perm
      ((c.inner.memberUnits (groupKey group)).filter fun m => m.id ≠ unit.id)) :
    Agree (c.removeUnit (unitKey unit)).1 (c.upsertGroupWithUnits order group listed) := by
  obtain ⟨hcachedUnit, hg⟩ := (Inner.mem_memberUnits h).mp hunit
  have hmem : ∀ m, m ∈ listed ↔
      m ∈ c.inner.memberUnits (groupKey group) ∧ unitKey m ≠ unitKey unit := by
    intro m
    rw [hperm.mem_iff, List.mem_filter, decide_eq_true_eq, id_ne_iff]
  have hlisted : ∀ m ∈ listed, m ∈ c.inner.memberUnits (groupKey group) :=
    fun m hm => ((hmem m).mp hm).1
  have hnodup : (listed.map unitKey).Nodup :=
    (hperm.map unitKey).nodup_iff.mpr
      ((Inner.nodup_memberUnits h _).sublist (List.filter_sublist.map unitKey))
  change Agree (c.write (.removeUnit (unitKey unit)))
    (c.write (.upsertGroupWithUnits order group listed))
  refine agree_of_effect h ?_ ?_ ?_
  · refine Registry.ext (Registry.pushUnits_eq_of
      ((c.inner.registry h).dropUnit (unitKey unit)).units_keyed hnodup (fun m => ?_)
      (fun id m hne => ?_)).symm (Registry.push_groups_self hcached listed).symm
    · rw [hmem, Inner.mem_memberUnits h, Registry.dropUnit_units, Function.update_apply]
      by_cases hm : unitKey m = unitKey unit
      · simp [hm]
      · rw [if_neg hm]
        exact ⟨fun hmg => hmg.1, fun hmg => ⟨hmg, hm⟩⟩
    · rw [Registry.dropUnit_units, Function.update_apply]
      by_cases hid : id = unitKey unit
      · subst hid
        rw [if_pos rfl]
        refine ⟨fun hnone => by simp at hnone, fun hold => ?_⟩
        have hsame : unit = m := Option.some.inj (hcachedUnit.symm.trans hold.2)
        exact absurd (hsame ▸ hg) hne
      · rw [if_neg hid]
        exact ⟨fun hm => ⟨not_listed_of_members h hlisted hm hne, hm⟩, And.right⟩
  · exact (sideRemoval_self hcached).symm
  · rw [Write.compared, Write.compared, losers_of_members h order hlisted, hcachedUnit,
      Option.map_some, Option.toList_some, hg]

section

/-! The members of a cached group with one unit among them. -/

variable {unit : Proto.Unit Fl} (hperm : listed.Perm
  (unit :: (c.inner.memberUnits (groupKey group)).filter fun m => m.id ≠ unit.id))
include hperm

theorem mem_members_with (m : Proto.Unit Fl) : m ∈ listed ↔
    m = unit ∨ (m ∈ c.inner.memberUnits (groupKey group) ∧ unitKey m ≠ unitKey unit) := by
  rw [hperm.mem_iff, List.mem_cons, List.mem_filter, decide_eq_true_eq, id_ne_iff]

theorem nodup_members_with (h : c.inner.Consistent) : (listed.map unitKey).Nodup := by
  rw [(hperm.map unitKey).nodup_iff, List.map_cons, List.nodup_cons]
  refine ⟨fun hin => ?_, (Inner.nodup_memberUnits h _).sublist (List.filter_sublist.map unitKey)⟩
  obtain ⟨m, hm, heq⟩ := List.mem_map.mp hin
  exact (id_ne_iff m unit).mp (by simpa using (List.mem_filter.mp hm).2) heq

/-- The only id on the list that may be another group's is that of the unit: the others are
members already. -/
theorem key_of_members_with (h : c.inner.Consistent) {id : UnitId} {m : Proto.Unit Fl}
    (hm : c.inner.units[id]? = some m)
    (hne : groupOf m ≠ groupKey group) (hid : id ∈ listed.map unitKey) : id = unitKey unit := by
  obtain ⟨m', hm', rfl⟩ := List.mem_map.mp hid
  rcases (mem_members_with hperm m').mp hm' with rfl | ⟨hmember, _⟩
  · rfl
  · exact absurd (List.mem_map_of_mem hmember)
      (not_listed_of_members h (fun _ hu => hu) hm hne)

/-- Pushing them is placing the unit. -/
theorem putUnit_eq_push (h : c.inner.Consistent)
    (hcached : c.inner.groups[groupKey group]? = some group) (hunit : groupOf unit = groupKey group) :
    (c.inner.registry h).putUnit unit = (c.inner.registry h).push group listed := by
  have hmem := mem_members_with hperm
  refine Registry.ext (Registry.pushUnits_eq_of
    ((c.inner.registry h).putUnit unit).units_keyed (nodup_members_with hperm h) (fun m => ?_)
    (fun id m hne => ?_)).symm (Registry.push_groups_self hcached listed).symm
  · rw [hmem, Inner.mem_memberUnits h, Registry.putUnit_units, Function.update_apply]
    by_cases hm : unitKey m = unitKey unit
    · rw [if_pos hm]
      constructor
      · rintro (rfl | ⟨_, hne⟩)
        · exact ⟨rfl, hunit⟩
        · exact absurd hm hne
      · rintro ⟨heq, _⟩
        exact Or.inl (Option.some.inj heq).symm
    · rw [if_neg hm]
      constructor
      · rintro (rfl | ⟨hmg, _⟩)
        · exact absurd rfl hm
        · exact hmg
      · exact fun hmg => Or.inr ⟨hmg, hm⟩
  · rw [Registry.putUnit_units, Function.update_apply]
    by_cases hid : id = unitKey unit
    · subst hid
      rw [if_pos rfl]
      constructor
      · intro heq
        exact absurd hunit (by rw [Option.some.inj heq]; exact hne)
      · rintro ⟨hnot, _⟩
        exact absurd (List.mem_map_of_mem ((hmem unit).mpr (Or.inl rfl))) hnot
    · rw [if_neg hid]
      exact ⟨fun hm => ⟨fun hin => hid (key_of_members_with hperm h hm hne hin), hm⟩, And.right⟩

/-- They are taken from the group the unit was in, if that is another one. -/
theorem losers_of_members_with (h : c.inner.Consistent) (order : IterOrder GroupId)
    (hunit : groupOf unit = groupKey group) :
    losers order c.inner (groupKey group) (listed.map (assign (groupKey group))) =
      (c.inner.movedFrom unit).toList := by
  refine eq_toList_of_nodup (nodup_losers _ _ _ _) fun old => ?_
  rw [mem_losers, Inner.movedFrom_eq_some, hunit]
  refine and_congr_right fun hne => ⟨?_, ?_⟩
  · rintro ⟨_, hin, existing, hexisting, rfl⟩
    obtain ⟨u, hu, rfl⟩ := List.mem_map.mp hin
    refine ⟨existing, ?_, rfl⟩
    rw [← key_of_members_with hperm h hexisting hne (List.mem_map.mpr ⟨u, hu, rfl⟩)]
    exact hexisting
  · rintro ⟨existing, hexisting, rfl⟩
    exact ⟨assign _ unit, List.mem_map_of_mem ((mem_members_with hperm unit).mpr (Or.inl rfl)),
      existing, hexisting, rfl⟩

end

/-- (a) `upsert_unit` into a cached group is the push of its members with that unit among
them, wherever the unit came from. -/
theorem upsertUnit_agrees (h : c.inner.Consistent)
    (hcached : c.inner.groups[groupKey group]? = some group) (order : IterOrder GroupId)
    {unit : Proto.Unit Fl} (hunit : groupOf unit = groupKey group)
    (hperm : listed.Perm
      (unit :: (c.inner.memberUnits (groupKey group)).filter fun m => m.id ≠ unit.id)) :
    Agree (c.upsertUnit unit) (c.upsertGroupWithUnits order group listed) := by
  change Agree (c.write (.upsertUnit unit)) (c.write (.upsertGroupWithUnits order group listed))
  refine agree_of_effect h (putUnit_eq_push hperm h hcached hunit)
    (sideRemoval_self hcached).symm ?_
  rw [Write.compared, Write.compared, hunit, losers_of_members_with hperm h order hunit]

/-- **The incremental write paths agree with the bulk path.**  For every reachable cache and
every cached group with stored fields `fields` and members `members`, in whatever order the
push lists them. -/
theorem incremental_agrees_with_bulk (writes : List (Write Fl)) (g : GroupId)
    (fields : Proto.Group Fl) (order : IterOrder GroupId)
    (hcached : (after writes).inner.groups[g]? = some fields) :
    let c := after writes
    let members := c.inner.memberUnits g
    (∀ u : Proto.Unit Fl, u.groupId = g.str →
      ∀ listed, listed.Perm (u :: members.filter fun m => m.id ≠ u.id) →
        Agree (c.upsertUnit u) (c.upsertGroupWithUnits order fields listed)) ∧
    (∀ u ∈ members, ∀ listed, listed.Perm (members.filter fun m => m.id ≠ u.id) →
      Agree (c.removeUnit (.ofStr u.id)).1 (c.upsertGroupWithUnits order fields listed)) ∧
    (∀ fields' : Proto.Group Fl, fields'.id = g.str →
      ∀ listed, listed.Perm members →
        Agree (c.upsertGroup fields') (c.upsertGroupWithUnits order fields' listed)) := by
  have hc := after_consistent writes
  obtain rfl := hc.groups_keyed g fields hcached
  refine ⟨fun u hu listed hperm => ?_, fun u hu listed hperm => ?_, fun fields' hid listed hperm => ?_⟩
  · exact upsertUnit_agrees hc hcached order (congrArg GroupId.ofStr hu) hperm
  · exact removeUnit_agrees hc hcached order hu hperm
  · have hkey : groupKey fields' = groupKey fields := congrArg GroupId.ofStr hid
    exact upsertGroup_agrees hc order (hkey ▸ hperm)

/-- Unit `u1` comes from the group `B` into the cached group `A`, which has the member `u0`:
pushing `A` with both does the same. -/
theorem incremental_agrees_with_bulk_sample :
    let c := after [.upsertUnit (.sample "u1" "B"),
      .upsertGroupWithUnits .ascending (.sample "A" .blufor) [.sample "u0" "A"]]
    Agree (c.upsertUnit (.sample "u1" "A"))
      (c.upsertGroupWithUnits .descending (.sample "A" .blufor)
        [.sample "u0" "A", .sample "u1" "A"]) :=
  (incremental_agrees_with_bulk _ (.ofStr "A") (.sample "A" .blufor) .descending (by rfl)).1
    (.sample "u1" "A") rfl _ (List.Perm.swap _ _ _)

end StateCache

/-! ## 3. A tick of pushes -/

/-- One group the engine pushes: the arguments of `upsert_group_with_units`. -/
structure GroupPush (Fl : Floats) where
  group : Proto.Group Fl
  units : List (Proto.Unit Fl)

/-- Push the groups one after another, each call with the iteration order it happens to take. -/
def StateCache.pushOneTick (c : StateCache Fl) (pushes : List (IterOrder GroupId × GroupPush Fl)) :
    StateCache Fl :=
  pushes.foldl (fun c (order, push) => c.upsertGroupWithUnits order push.group push.units) c

/-- The pushes of one tick: no group is pushed twice and no unit is listed by two groups. -/
structure DisjointPushes (pushes : List (GroupPush Fl)) : Prop where
  groups : pushes.Pairwise fun p q => p.group.id ≠ q.group.id
  units : pushes.Pairwise fun p q => ∀ u ∈ p.units, ∀ v ∈ q.units, u.id ≠ v.id

namespace Registry

/-- Push the groups one after another. -/
def pushOneTick (r : Registry Fl) (pushes : List (GroupPush Fl)) : Registry Fl :=
  pushes.foldl (fun r p => r.push p.group p.units) r

/-- The units after a tick: a pushed unit (its last occurrence) belongs to the group that
pushed it, and an old unit stays unless it was pushed or its group was. -/
def TickUnits (r : Registry Fl) (pushes : List (GroupPush Fl)) (id : UnitId)
    (unit : Proto.Unit Fl) : Prop :=
  (∃ p ∈ pushes, ∃ u, lastKeyed unitKey p.units id = some u ∧ unit = assign (groupKey p.group) u) ∨
  ((∀ p ∈ pushes, id ∉ p.units.map unitKey) ∧ r.units id = some unit ∧
    ∀ p ∈ pushes, groupOf unit ≠ groupKey p.group)

/-- The stored groups after a tick. -/
def TickGroups (r : Registry Fl) (pushes : List (GroupPush Fl)) (id : GroupId)
    (group : Proto.Group Fl) : Prop :=
  (∃ p ∈ pushes, groupKey p.group = id ∧ group = bare p.group) ∨
  ((∀ p ∈ pushes, groupKey p.group ≠ id) ∧ r.groups id = some group)

/-- By induction on the pushes: what the first one lists, the others neither list nor drop. -/
theorem pushOneTick_units {r : Registry Fl} {pushes : List (GroupPush Fl)} (h : DisjointPushes pushes)
    (id : UnitId) (unit : Proto.Unit Fl) :
    (r.pushOneTick pushes).units id = some unit ↔ r.TickUnits pushes id unit := by
  induction pushes generalizing r with
  | nil => simp [pushOneTick, TickUnits]
  | cons p pushes ih =>
    obtain ⟨hgroup, hgroups⟩ := List.pairwise_cons.mp h.groups
    obtain ⟨hunit, hunits⟩ := List.pairwise_cons.mp h.units
    have hkey : ∀ q ∈ pushes, groupKey p.group ≠ groupKey q.group :=
      fun q hq heq => hgroup q hq (congrArg GroupId.str heq)
    have hlisted : ∀ u, lastKeyed unitKey p.units id = some u →
        ∀ q ∈ pushes, id ∉ q.units.map unitKey := by
      intro u hu q hq hin
      obtain ⟨hup, rfl⟩ := mem_of_lastKeyed hu
      obtain ⟨v, hv, heq⟩ := List.mem_map.mp hin
      exact hunit q hq u hup v hv (congrArg UnitId.str heq).symm
    have hcons : r.pushOneTick (p :: pushes) = (r.push p.group p.units).pushOneTick pushes := rfl
    rw [hcons, ih ⟨hgroups, hunits⟩]
    simp only [TickUnits, push_units, pushUnits_eq_some, Inner.lastKeyed_unit_eq_none,
      List.exists_mem_cons_iff, List.forall_mem_cons]
    constructor
    · rintro (hlater | ⟨hnot, ⟨u, hu, rfl⟩ | ⟨hfirst, hold, hne⟩, hother⟩)
      · exact Or.inl (Or.inr hlater)
      · exact Or.inl (Or.inl ⟨u, hu, rfl⟩)
      · exact Or.inr ⟨⟨hfirst, hnot⟩, hold, hne, hother⟩
    · rintro ((⟨u, hu, rfl⟩ | hlater) | ⟨⟨hfirst, hnot⟩, hold, hne, hother⟩)
      · exact Or.inr ⟨hlisted u hu, Or.inl ⟨u, hu, rfl⟩, hkey⟩
      · exact Or.inl hlater
      · exact Or.inr ⟨hnot, Or.inr ⟨hfirst, hold, hne⟩, hother⟩

theorem pushOneTick_groups {r : Registry Fl} {pushes : List (GroupPush Fl)}
    (h : pushes.Pairwise fun p q => p.group.id ≠ q.group.id) (id : GroupId)
    (group : Proto.Group Fl) :
    (r.pushOneTick pushes).groups id = some group ↔ r.TickGroups pushes id group := by
  induction pushes generalizing r with
  | nil => simp [pushOneTick, TickGroups]
  | cons p pushes ih =>
    obtain ⟨hgroup, hgroups⟩ := List.pairwise_cons.mp h
    have hkey : ∀ q ∈ pushes, groupKey q.group ≠ groupKey p.group :=
      fun q hq heq => hgroup q hq (congrArg GroupId.str heq).symm
    have hcons : r.pushOneTick (p :: pushes) = (r.push p.group p.units).pushOneTick pushes := rfl
    rw [hcons, ih hgroups]
    simp only [TickGroups, push_groups, Function.update_apply, List.exists_mem_cons_iff,
      List.forall_mem_cons]
    by_cases hid : groupKey p.group = id
    · subst hid
      simp only [if_true, Option.some.injEq, true_and, ne_eq, not_true_eq_false, false_and,
        or_false]
      constructor
      · rintro (hlater | ⟨_, rfl⟩)
        · exact Or.inr hlater
        · exact Or.inl rfl
      · rintro (rfl | hlater)
        · exact Or.inr ⟨hkey, rfl⟩
        · exact Or.inl hlater
    · simp [hid, Ne.symm hid]

/-- **The tick does not depend on its order.** -/
theorem pushOneTick_perm {r : Registry Fl} {pushes pushes' : List (GroupPush Fl)}
    (h : DisjointPushes pushes) (hperm : pushes'.Perm pushes) :
    r.pushOneTick pushes' = r.pushOneTick pushes := by
  have h' : DisjointPushes pushes' := by
    refine ⟨?_, ?_⟩
    · exact (hperm.pairwise_iff fun hne => Ne.symm hne).mpr h.groups
    · exact (hperm.pairwise_iff fun hne u hu v hv => Ne.symm (hne v hv u hu)).mpr h.units
  refine Registry.ext (funext fun id => Option.ext fun unit => ?_)
    (funext fun id => Option.ext fun group => ?_)
  · rw [pushOneTick_units h', pushOneTick_units h]
    simp only [TickUnits, hperm.mem_iff]
  · rw [pushOneTick_groups h'.groups, pushOneTick_groups h.groups]
    simp only [TickGroups, hperm.mem_iff]

end Registry

namespace StateCache

theorem pushOneTick_consistent {c : StateCache Fl} (h : c.inner.Consistent)
    (pushes : List (IterOrder GroupId × GroupPush Fl)) :
    (c.pushOneTick pushes).inner.Consistent := by
  induction pushes generalizing c with
  | nil => exact h
  | cons push pushes ih =>
    exact ih (write_consistent h (.upsertGroupWithUnits push.1 push.2.group push.2.units))

/-- The cache's tick refines the registry's, whatever orders its calls take. -/
theorem registry_pushOneTick {c : StateCache Fl} (h : c.inner.Consistent)
    (pushes : List (IterOrder GroupId × GroupPush Fl)) :
    (c.pushOneTick pushes).inner.registry (pushOneTick_consistent h pushes) =
      (c.inner.registry h).pushOneTick (pushes.map Prod.snd) := by
  induction pushes generalizing c with
  | nil => rfl
  | cons push pushes ih =>
    let first : Write Fl := .upsertGroupWithUnits push.1 push.2.group push.2.units
    refine (ih (write_consistent h first)).trans ?_
    rw [registry_write h first]
    rfl

/-- **A tick of group pushes does not depend on its order.**  For pushes of different groups
with disjoint lists, applied to a reachable cache in two orders, every read answers alike, and
the units are those of `TickUnits`. -/
theorem tick_order_irrelevant (writes : List (Write Fl))
    (pushes pushes' : List (IterOrder GroupId × GroupPush Fl))
    (hdisjoint : DisjointPushes (pushes.map Prod.snd))
    (hperm : (pushes'.map Prod.snd).Perm (pushes.map Prod.snd)) :
    let before := after writes
    let c := before.pushOneTick pushes
    let c' := before.pushOneTick pushes'
    ((∀ id, c'.getUnit id = c.getUnit id) ∧ (∀ g, c'.getGroup g = c.getGroup g) ∧
      (∀ order order' side g, (c'.listUnits order side g).Perm (c.listUnits order' side g)) ∧
      (∀ order order' side, (c'.listGroups order side).Perm (c.listGroups order' side))) ∧
    ∀ id unit, c.getUnit id = some unit ↔
      (∃ p ∈ pushes.map Prod.snd, ∃ u, lastKeyed unitKey p.units id = some u ∧
        unit = { u with groupId := p.group.id }) ∨
      ((∀ p ∈ pushes.map Prod.snd, id ∉ p.units.map unitKey) ∧ before.getUnit id = some unit ∧
        ∀ p ∈ pushes.map Prod.snd, unit.groupId ≠ p.group.id) := by
  have hc := after_consistent writes
  have hregistry : ((after writes).pushOneTick pushes').inner.registry
        (pushOneTick_consistent hc pushes') =
      ((after writes).pushOneTick pushes).inner.registry (pushOneTick_consistent hc pushes) := by
    rw [registry_pushOneTick hc, registry_pushOneTick hc, Registry.pushOneTick_perm hdisjoint hperm]
  refine ⟨reads_of_registry hregistry, fun id unit => ?_⟩
  have hunits := Registry.pushOneTick_units (r := (after writes).inner.registry hc) hdisjoint id unit
  rw [← registry_pushOneTick hc] at hunits
  refine hunits.trans (or_congr Iff.rfl (and_congr_right fun _ => and_congr_right fun _ => ?_))
  exact forall₂_congr fun p _ => not_congr ⟨congrArg GroupId.str, congrArg GroupId.ofStr⟩

/-- A unit that moves from `A` to `B` within one tick: in one order it is dropped by `A` and
then created by `B`, in the other it is moved. -/
theorem tick_order_irrelevant_sample :
    let a : IterOrder GroupId × GroupPush Floats.bits := (.ascending, ⟨.sample "A" .blufor, []⟩)
    let b : IterOrder GroupId × GroupPush Floats.bits :=
      (.descending, ⟨.sample "B" .blufor, [.sample "u1" "A"]⟩)
    let before := after [.upsertUnit (.sample "u1" "A")]
    (before.pushOneTick [b, a]).getUnit (.ofStr "u1") =
      (before.pushOneTick [a, b]).getUnit (.ofStr "u1") :=
  (tick_order_irrelevant [.upsertUnit (.sample "u1" "A")]
    [(.ascending, ⟨.sample "A" .blufor, []⟩),
      (.descending, ⟨.sample "B" .blufor, [.sample "u1" "A"]⟩)]
    [(.descending, ⟨.sample "B" .blufor, [.sample "u1" "A"]⟩),
      (.ascending, ⟨.sample "A" .blufor, []⟩)]
    ⟨by simp [Proto.Group.sample], by simp⟩ (List.Perm.swap _ _ _)).1.1 _

end StateCache

end MinervaServer
