/-
# What one call does, exactly

`Writes.lean` gives every write one effect on the registry, and `Views.lean` says that the
registry decides every read.  So what a call does to the cache, and what it does not do, is
read off two functions:

* `upsertGroupWithUnits_exact`: the four passes of a bulk push, unit by unit and view by view;
* `repeated_writes_are_noops`: a write whose effect leaves the registry as it is announces
  nothing and changes no answer (`unchanged_of_effect`), and every effect done twice is the
  effect done once (`Write.effect_effect`);
* `removeGroup_exact`: a removal takes one group with the units that name it, and pushing back
  what it returned undoes it.  Pushing a view onto any registry that agrees with the cache
  about the other groups gives the cache's registry (`Inner.push_view`), which is also why
  writing back a view does nothing.
-/
import MinervaServer.Pushes

namespace MinervaServer

open Lib

variable {Fl : Floats}

/-! ## 1. Reads -/

/-- The writes of units and groups: all but those of the simulation and `clear`. -/
def Write.ofGroups : Write Fl → Bool
  | .upsertUnit _ => true
  | .removeUnit _ => true
  | .upsertGroup _ => true
  | .upsertGroupWithUnits _ _ _ => true
  | .removeGroup _ => true
  | .setSimulationInfo _ => false
  | .setSimulationState _ => false
  | .setLocations _ => false
  | .clear _ => false

/-- A write of units or groups replaces the maps and nothing else. -/
theorem Write.commit_frame {w : Write Fl} (h : w.ofGroups) (inner : Inner Fl) :
    w.commit inner = { inner with
      units := (w.commit inner).units
      groups := (w.commit inner).groups
      members := (w.commit inner).members } := by
  cases w with
  | upsertUnit unit =>
    simp only [commit, Inner.placeUnit]
    split <;> rfl
  | removeUnit id =>
    simp only [commit, Inner.dropUnit]
    split <;> rfl
  | upsertGroup group => rfl
  | upsertGroupWithUnits order group units =>
    simp only [commit, Inner.pushGroup, Inner.placeGroup, Inner.relist]
    rw [StateCache.detachListed_frame, Inner.dropUnlisted]
  | removeGroup id =>
    simp only [commit, Inner.takeGroup]
    split
    · split <;> rfl
    · rfl
  | setSimulationInfo info => cases h
  | setSimulationState state => cases h
  | setLocations locations => cases h
  | clear order => cases h

namespace StateCache

theorem write_simulation (c : StateCache Fl) {w : Write Fl} (h : w.ofGroups) :
    (c.write w).simulationInfo = c.simulationInfo ∧
      (c.write w).simulationState = c.simulationState ∧
      (c.write w).inner.locations = c.inner.locations := by
  rw [simulationInfo, simulationState, write_inner, Write.commit_frame h]
  exact ⟨rfl, rfl, rfl⟩

/-- The two caches answer every read alike, up to the order of the two unsorted lists. -/
structure SameReads (c c' : StateCache Fl) : Prop where
  getUnit : ∀ id, c.getUnit id = c'.getUnit id
  getGroup : ∀ g, c.getGroup g = c'.getGroup g
  listUnits : ∀ order order' side g, (c.listUnits order side g).Perm (c'.listUnits order' side g)
  listGroups : ∀ order order' side, (c.listGroups order side).Perm (c'.listGroups order' side)
  listLocations : ∀ side, c.listLocations side = c'.listLocations side
  simulationInfo : c.simulationInfo = c'.simulationInfo
  simulationState : c.simulationState = c'.simulationState

/-- Nothing has happened that anyone could see: the same units and groups, the same answers, the
same counter, and no event. -/
structure Unchanged (c c' : StateCache Fl) : Prop extends SameReads c c' where
  units : c.inner.units = c'.inner.units
  groups : c.inner.groups = c'.inner.groups
  sequence : c.inner.sequence = c'.inner.sequence
  sent : c.sent = c'.sent

theorem sameReads_of_registry {c c' : StateCache Fl} {h : c.inner.Consistent}
    {h' : c'.inner.Consistent} (heq : c.inner.registry h = c'.inner.registry h')
    (hinfo : c.simulationInfo = c'.simulationInfo) (hstate : c.simulationState = c'.simulationState)
    (hlocations : c.inner.locations = c'.inner.locations) : SameReads c c' := by
  obtain ⟨hunit, hgroup, hunits, hgroups⟩ := reads_of_registry heq
  refine ⟨hunit, hgroup, hunits, hgroups, fun side => ?_, hinfo, hstate⟩
  rw [listLocations, listLocations, hlocations]

/-- **A write that leaves the registry as it is leaves everything as it is**, unless it
announces something before it compares. -/
theorem unchanged_of_effect {c : StateCache Fl} (h : c.inner.Consistent) {w : Write Fl}
    (hgroups : w.ofGroups) (heffect : w.effect (c.inner.registry h) = c.inner.registry h)
    (hfirst : w.announcedFirst c.inner = []) : Unchanged c (c.write w) := by
  have hregistry : c.inner.registry h = (c.write w).inner.registry (write_consistent h w) := by
    rw [registry_write h, heffect]
  -- every group it compares has the view it had
  have hsilent : w.messages c.inner = [] := by
    rw [Write.messages, hfirst, List.nil_append, List.flatMap_eq_nil_iff, ← write_joinedGroup,
      ← Inner.joinedGroup_of_registry hregistry]
    intro id _
    exact if_pos rfl
  obtain ⟨hinfo, hstate, hlocations⟩ := c.write_simulation hgroups
  refine ⟨sameReads_of_registry hregistry hinfo.symm hstate.symm hlocations.symm,
    Inner.units_eq_of_registry hregistry, Inner.groups_eq_of_registry hregistry, ?_, ?_⟩
  · rw [write_inner, hsilent]
    simp
  · rw [write_sent, hsilent, stamp, List.append_nil]

end StateCache

/-! ## 2. A bulk push, unit by unit and view by view -/

namespace Inner

/-- A push takes the listed units out of the other views and does nothing else to them. -/
theorem memberUnits_pushGroup {inner : Inner Fl} (h : inner.Consistent) (group : Proto.Group Fl)
    (units : List (Proto.Unit Fl)) {other : GroupId} (hother : other ≠ groupKey group) :
    (inner.pushGroup group units).memberUnits other =
      (inner.memberUnits other).filter fun unit => unitKey unit ∉ units.map unitKey := by
  rw [memberUnits, memberUnits, join_eq_scan (h.pushGroup group units).indexed,
    join_eq_scan h.indexed]
  refine scan_filter fun id unit hunit => ?_
  rw [getElem?_pushGroup h.indexed, Registry.pushUnits_eq_some, lastKeyed_unit_eq_none,
    decide_eq_true_eq]
  constructor
  · rintro (⟨u, _, rfl⟩ | ⟨hid, hold, _⟩)
    · exact absurd hunit.symm hother
    · exact ⟨hold, by rwa [h.units_keyed id unit hold]⟩
  · rintro ⟨hold, hid⟩
    rw [h.units_keyed id unit hold] at hid
    exact Or.inr ⟨hid, hold, by rw [hunit]; exact hother⟩

/-- The members of the pushed group are the listed ids. -/
theorem mem_memberUnits_pushGroup {inner : Inner Fl} (h : inner.Consistent)
    (group : Proto.Group Fl) (units : List (Proto.Unit Fl)) (id : UnitId) :
    id ∈ ((inner.pushGroup group units).memberUnits (groupKey group)).map unitKey ↔
      id ∈ units.map unitKey := by
  have hnew : ∀ unit, unit ∈ (inner.pushGroup group units).memberUnits (groupKey group) ↔
      Registry.pushUnits (fun id => inner.units[id]?) (groupKey group) units (unitKey unit) =
        some unit ∧ groupOf unit = groupKey group := fun unit => by
    rw [mem_memberUnits (h.pushGroup group units), getElem?_pushGroup h.indexed]
  rw [List.mem_map]
  constructor
  · rintro ⟨unit, hunit, rfl⟩
    obtain ⟨hpush, hg⟩ := (hnew unit).mp hunit
    rcases Registry.pushUnits_eq_some.mp hpush with ⟨u, hu, _⟩ | ⟨_, _, hne⟩
    · obtain ⟨hmem, hkey⟩ := mem_of_lastKeyed hu
      exact List.mem_map.mpr ⟨u, hmem, hkey⟩
    · exact absurd hg hne
  · intro hid
    obtain ⟨v, hv, hkey⟩ := List.mem_map.mp hid
    obtain ⟨u, hu⟩ := Option.isSome_iff_exists.mp (isSome_lastKeyed.mpr ⟨v, hv, hkey⟩)
    have hukey : unitKey u = id := (mem_of_lastKeyed hu).2
    refine ⟨assign (groupKey group) u, (hnew _).mpr ⟨?_, groupOf_assign _ u⟩, hukey⟩
    rw [unitKey_assign, hukey]
    exact Registry.pushUnits_eq_some.mpr (Or.inl ⟨u, hu, rfl⟩)

end Inner

namespace StateCache

/-- **The exact effect of `upsert_group_with_units`**, in every reachable state and for every
list: what becomes of each unit, of each stored group, of each view, and of the rest. -/
theorem upsertGroupWithUnits_exact (writes : List (Write Fl)) (order : IterOrder GroupId)
    (group : Proto.Group Fl) (units : List (Proto.Unit Fl)) :
    let c := after writes
    let g := groupKey group
    let c' := c.upsertGroupWithUnits order group units
    ((∀ (k : UnitId) unit, lastKeyed unitKey units k = some unit →
        c'.inner.units[k]? = some { unit with groupId := g.str }) ∧
      (∀ k : UnitId, k ∉ units.map unitKey → ∀ old, c.inner.units[k]? = some old →
        groupOf old = g → c'.inner.units[k]? = none) ∧
      (∀ k : UnitId, k ∉ units.map unitKey →
        (∀ old, c.inner.units[k]? = some old → groupOf old ≠ g) →
        c'.inner.units[k]? = c.inner.units[k]?)) ∧
    (c'.inner.groups[g]? = some { group with units := [] } ∧
      ∀ h : GroupId, h ≠ g → c'.inner.groups[h]? = c.inner.groups[h]?) ∧
    (∀ (h : GroupId) view, h ≠ g → c.getGroup h = some view →
      c'.getGroup h = some
        { view with units := view.units.filter fun unit => unitKey unit ∉ units.map unitKey }) ∧
    (∃ view, c'.getGroup g = some view ∧ bare view = bare group ∧
      (∀ k : UnitId, k ∈ view.units.map unitKey ↔ k ∈ units.map unitKey) ∧
      view.units.Pairwise fun unit unit' => unit.id < unit'.id) ∧
    c'.simulationInfo = c.simulationInfo ∧ c'.simulationState = c.simulationState ∧
      c'.inner.locations = c.inner.locations := by
  intro c g c'
  have hc : c.inner.Consistent := after_consistent writes
  have hunits : ∀ k : UnitId, c'.inner.units[k]? =
      Registry.pushUnits (fun id => c.inner.units[id]?) g units k :=
    write_units hc (.upsertGroupWithUnits order group units)
  have hgroups : ∀ h : GroupId, c'.inner.groups[h]? =
      Function.update (fun id => c.inner.groups[id]?) g (some (bare group)) h :=
    write_groups hc (.upsertGroupWithUnits order group units)
  have hbare : c'.inner.groups[g]? = some (bare group) := by
    rw [hgroups, Function.update_self]
  have hothers : ∀ h : GroupId, h ≠ g → c'.inner.groups[h]? = c.inner.groups[h]? := by
    intro h hne
    rw [hgroups, Function.update_of_ne hne]
  have hview : ∀ h, c'.getGroup h = c'.inner.groups[h]?.map fun stored =>
      { stored with units := (c.inner.pushGroup group units).memberUnits h } := by
    intro h
    have hmembers : c'.inner.memberUnits = (c.inner.pushGroup group units).memberUnits := by
      funext h
      exact congrArg (fun inner => inner.memberUnits h)
        (write_inner c (.upsertGroupWithUnits order group units))
    rw [getGroup, Inner.joinedGroup, hmembers]
  refine ⟨⟨?_, ?_, ?_⟩, ⟨hbare, hothers⟩, ?_, ?_, ?_⟩
  · intro k unit hlast
    rw [hunits]
    exact Registry.pushUnits_eq_some.mpr (Or.inl ⟨unit, hlast, rfl⟩)
  · intro k hk old hold hg
    rw [hunits, Registry.pushUnits, Inner.lastKeyed_unit_eq_none.mpr hk]
    dsimp only
    rw [hold, Option.filter_some, if_neg (by simpa using hg)]
  · intro k hk hout
    rw [hunits, Registry.pushUnits, Inner.lastKeyed_unit_eq_none.mpr hk]
    dsimp only
    cases hold : c.inner.units[k]? with
    | none => rfl
    | some old => rw [Option.filter_some, if_pos (by simpa using hout old hold)]
  · intro h view hne hold
    rw [hview, hothers h hne, Inner.stored_of_joinedGroup hc hold, Option.map_some,
      Inner.memberUnits_pushGroup hc group units hne, ← Inner.units_of_joinedGroup hold]
    rfl
  · have hjoined := hview g
    rw [hbare, Option.map_some] at hjoined
    have hc' : c'.inner.Consistent :=
      write_consistent hc (.upsertGroupWithUnits order group units)
    exact ⟨_, hjoined, rfl, Inner.mem_memberUnits_pushGroup hc group units,
      (Inner.complete_of_joinedGroup hc' hjoined).ascending⟩
  · exact c.write_simulation (w := .upsertGroupWithUnits order group units) rfl

/-! ## 3. Writing back, and writing twice -/

end StateCache

/-- **Pushing a view restores it.**  A registry that agrees with the cache about the other groups
becomes the cache's registry when the view of `g` is pushed onto it. -/
theorem Inner.push_view {inner : Inner Fl} (h : inner.Consistent) {g : GroupId}
    {view : Proto.Group Fl} (hview : inner.joinedGroup g = some view) {r : Registry Fl}
    (hunits : ∀ id unit, groupOf unit ≠ g →
      (r.units id = some unit ↔ inner.units[id]? = some unit))
    (hgroups : ∀ other, other ≠ g → r.groups other = inner.groups[other]?) :
    r.push view view.units = inner.registry h := by
  refine Registry.ext ?_ (funext fun other => ?_)
  · rw [Registry.push_units, groupKey_of_joinedGroup h hview, units_of_joinedGroup hview]
    refine Registry.pushUnits_eq_of h.units_keyed (nodup_memberUnits h g)
      (fun unit => mem_memberUnits h) fun id unit hg => ?_
    rw [hunits id unit hg]
    constructor
    · intro hunit
      exact ⟨StateCache.not_listed_of_members h (fun _ hm => hm) hunit hg, hunit⟩
    · exact And.right
  · rw [Registry.push_groups, groupKey_of_joinedGroup h hview, Function.update_apply]
    split
    · rename_i heq
      rw [heq]
      exact (stored_of_joinedGroup h hview).symm
    · rename_i hne
      exact hgroups other hne

namespace StateCache

/-- A group that is stored already does not change its side. -/
theorem sideRemoval_bare (group : Proto.Group Fl) :
    sideRemoval (some (bare group)) (bare group) = [] := by
  simp [sideRemoval]

/-- A write of units or groups that is done a second time, whatever order either iterates in. -/
theorem unchanged_of_repeated {c : StateCache Fl} (h : c.inner.Consistent) {w v : Write Fl}
    (hgroups : v.ofGroups) (hsame : ∀ r : Registry Fl, v.effect r = w.effect r)
    (hfirst : v.announcedFirst (c.write w).inner = []) :
    Unchanged (c.write w) ((c.write w).write v) := by
  refine unchanged_of_effect (write_consistent h w) hgroups ?_ hfirst
  rw [hsame, registry_write h, Write.effect_effect]

/-- **Writing back and writing twice are no-ops.**  In every reachable state (a) pushing a group
as it was read, with its units, changes nothing; and (b) neither does repeating the write just
made, if it is one of units or groups. -/
theorem repeated_writes_are_noops (writes : List (Write Fl)) :
    let c := after writes
    (∀ order g view, c.getGroup g = some view →
      Unchanged c (c.upsertGroupWithUnits order view view.units)) ∧
    (∀ unit, Unchanged (c.upsertUnit unit) ((c.upsertUnit unit).upsertUnit unit)) ∧
    (∀ group, Unchanged (c.upsertGroup group) ((c.upsertGroup group).upsertGroup group)) ∧
    (∀ order order' group units, Unchanged (c.upsertGroupWithUnits order group units)
      ((c.upsertGroupWithUnits order group units).upsertGroupWithUnits order' group units)) ∧
    (∀ id, Unchanged (c.removeUnit id).1 ((c.removeUnit id).1.removeUnit id).1) ∧
    (∀ g, Unchanged (c.removeGroup g).1 ((c.removeGroup g).1.removeGroup g).1) := by
  intro c
  have hc : c.inner.Consistent := after_consistent writes
  refine ⟨?_, ?_, ?_, ?_, ?_, ?_⟩
  · intro order g view hview
    refine unchanged_of_effect (w := .upsertGroupWithUnits order view view.units) hc rfl ?_ ?_
    · exact Inner.push_view hc hview (fun _ _ _ => Iff.rfl) fun _ _ => rfl
    · -- the side that is pushed is the side that is stored
      rw [Write.announcedFirst, Inner.groupKey_of_joinedGroup hc hview,
        Inner.stored_of_joinedGroup hc hview]
      exact sideRemoval_bare view
  · intro unit
    exact unchanged_of_repeated (w := .upsertUnit unit) (v := .upsertUnit unit) hc rfl
      (fun _ => rfl) rfl
  · intro group
    refine unchanged_of_repeated (w := .upsertGroup group) (v := .upsertGroup group) hc rfl
      (fun _ => rfl) ?_
    have hstored : (c.write (.upsertGroup group)).inner.groups[groupKey group]? =
        some (bare group) := (write_groups hc _ _).trans (Function.update_self _ _ _)
    rw [Write.announcedFirst, hstored, sideRemoval_bare]
  · intro order order' group units
    refine unchanged_of_repeated (w := .upsertGroupWithUnits order group units)
      (v := .upsertGroupWithUnits order' group units) hc rfl (fun _ => rfl) ?_
    have hstored : (c.write (.upsertGroupWithUnits order group units)).inner.groups[groupKey group]? =
        some (bare group) := (write_groups hc _ _).trans (Function.update_self _ _ _)
    rw [Write.announcedFirst, hstored, sideRemoval_bare]
  · intro id
    exact unchanged_of_repeated (w := .removeUnit id) (v := .removeUnit id) hc rfl
      (fun _ => rfl) rfl
  · intro g
    refine unchanged_of_repeated (w := .removeGroup g) (v := .removeGroup g) hc rfl
      (fun _ => rfl) ?_
    have hgone : g ∉ (c.write (.removeGroup g)).inner.groups := by
      rw [Std.ExtTreeMap.mem_iff_isSome_getElem?, write_groups hc]
      simp [Write.effect, Registry.takeGroup]
    rw [Write.announcedFirst, if_neg hgone]

/-! ## 4. Taking a group, and giving it back -/

/-- **`remove_group` takes exactly one group, and what it returns restores it.**  In every
reachable state: of a group that is not cached it returns `none` and touches nothing, whatever
units name it; of one that is, it returns the view, which lists every unit that names the group,
and these are gone afterwards, every other unit and view is where it was, one removal is
announced, and pushing the returned group back restores the units, the groups and every read. -/
theorem removeGroup_exact (writes : List (Write Fl)) (g : GroupId) :
    let c := after writes
    let c' := (c.removeGroup g).1
    (g ∉ c.inner.groups → c.removeGroup g = (c, none)) ∧
    (g ∈ c.inner.groups → ∃ removed, (c.removeGroup g).2 = some removed ∧
      c.getGroup g = some removed ∧
      (∀ unit, unit ∈ removed.units ↔
        (∃ id : UnitId, c.inner.units[id]? = some unit) ∧ groupOf unit = g) ∧
      (∀ (id : UnitId) unit, c'.inner.units[id]? = some unit ↔
        c.inner.units[id]? = some unit ∧ groupOf unit ≠ g) ∧
      (c'.getGroup g = none ∧ ∀ h, h ≠ g → c'.getGroup h = c.getGroup h) ∧
      c'.sent = c.sent ++ [⟨c.inner.sequence + 1, .group (groupRemoved g.str)⟩] ∧
      ∀ order, let restored := c'.upsertGroupWithUnits order removed removed.units
        restored.inner.units = c.inner.units ∧ restored.inner.groups = c.inner.groups ∧
          SameReads restored c) := by
  intro c c'
  have hc : c.inner.Consistent := after_consistent writes
  have hc' : c'.inner.Consistent := write_consistent hc (.removeGroup g)
  refine ⟨c.removeGroup_eq_of_absent, fun hcached => ?_⟩
  have hsome : (c.inner.groups[g]?).isSome := Std.ExtTreeMap.mem_iff_isSome_getElem?.mp hcached
  obtain ⟨removed, hview⟩ := Option.isSome_iff_exists.mp ((c.inner.isSome_joinedGroup g).mpr hcached)
  have hreturned : (c.removeGroup g).2 = some removed := by
    rw [c.removeGroup_eq_of_cached hcached]
    exact hview
  have hunits : ∀ (id : UnitId) unit, c'.inner.units[id]? = some unit ↔
      c.inner.units[id]? = some unit ∧ groupOf unit ≠ g := by
    intro id unit
    rw [show c'.inner.units[id]? = _ from write_units hc (.removeGroup g) id]
    simp only [Write.effect, Registry.takeGroup, Inner.registry, hsome, if_true,
      Option.filter_eq_some_iff, decide_eq_true_eq]
  have hgroups : ∀ h, h ≠ g → c'.inner.groups[h]? = c.inner.groups[h]? := fun h hne =>
    (write_groups hc (.removeGroup g) h).trans (Function.update_of_ne hne _ _)
  have hgone : c'.inner.groups[g]? = none :=
    (write_groups hc (.removeGroup g) g).trans (Function.update_self _ _ _)
  refine ⟨removed, hreturned, hview, ?_, hunits, ⟨?_, ?_⟩, ?_, ?_⟩
  · intro unit
    rw [Inner.units_of_joinedGroup hview, Inner.mem_memberUnits hc, Inner.stored_iff hc]
  · rw [getGroup, Inner.joinedGroup, hgone]
    rfl
  · intro h hne
    refine Inner.joinedGroup_congr hc' hc ⟨hgroups h hne, fun id unit hunit => ?_⟩
    rw [show (c'.inner.registry hc').units id = some unit ↔ _ from hunits id unit]
    exact and_iff_left (by rw [hunit]; exact hne)
  · rw [show c'.sent = _ from write_sent c (.removeGroup g), Write.messages, Write.announcedFirst,
      if_pos hcached, Write.compared, List.flatMap_nil, List.append_nil]
    rfl
  · intro order restored
    have hregistry : restored.inner.registry
        (write_consistent hc' (.upsertGroupWithUnits order removed removed.units)) =
          c.inner.registry hc := by
      refine (registry_write hc' (.upsertGroupWithUnits order removed removed.units)).trans ?_
      refine Inner.push_view hc hview (fun id unit hg => ?_) hgroups
      exact (hunits id unit).trans (and_iff_left hg)
    obtain ⟨hinfo, hstate, hlocations⟩ := c.write_simulation (w := .removeGroup g) rfl
    obtain ⟨hinfo', hstate', hlocations'⟩ :=
      c'.write_simulation (w := .upsertGroupWithUnits order removed removed.units) rfl
    exact ⟨Inner.units_eq_of_registry hregistry, Inner.groups_eq_of_registry hregistry,
      sameReads_of_registry hregistry (hinfo'.trans hinfo) (hstate'.trans hstate)
        (hlocations'.trans hlocations)⟩

end StateCache

end MinervaServer
