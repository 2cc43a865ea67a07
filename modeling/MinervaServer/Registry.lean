/-
# What the cache is for: a registry of units and groups

The abstract level.  A `Registry` is two tables, the units and the groups' own fields, and
nothing else: which group a unit belongs to is a field of the unit, so there is no membership
to keep consistent and no index that could be wrong.  Its values are well formed by
construction: a unit sits under its own id, a group under its own id and without units.

Each write of the cache has one EFFECT on the registry, stated here outright.  `Writes.lean`
proves that the code's writes, which also maintain the derived index by hand, have exactly
these effects.
-/
import MinervaServer.State

namespace MinervaServer

open Lib

variable {Fl : Floats}

/-- A group's own fields, as they are stored. -/
def bare (group : Proto.Group Fl) : Proto.Group Fl := { group with units := [] }

/-- A unit as the group `g` lists it: whatever group it arrived with, it names `g`. -/
def assign (g : GroupId) (unit : Proto.Unit Fl) : Proto.Unit Fl := { unit with groupId := g.str }

@[simp] theorem groupKey_bare (group : Proto.Group Fl) : groupKey (bare group) = groupKey group := rfl

@[simp] theorem unitKey_assign (g : GroupId) (unit : Proto.Unit Fl) :
    unitKey (assign g unit) = unitKey unit := rfl

@[simp] theorem groupOf_assign (g : GroupId) (unit : Proto.Unit Fl) :
    groupOf (assign g unit) = g := rfl

/-- What holds of every entry of a table holds after an update, if it holds of the new entry. -/
theorem forall_update {A B : Type} [DecidableEq A] {P : A → B → Prop} {f : A → Option B} {a : A}
    {new : Option B} (hf : ∀ x y, f x = some y → P x y) (hnew : ∀ y, new = some y → P a y)
    (x : A) (y : B) (h : Function.update f a new x = some y) : P x y := by
  by_cases hx : x = a
  · subst hx
    rw [Function.update_self] at h
    exact hnew y h
  · rw [Function.update_of_ne hx] at h
    exact hf x y h

@[ext]
structure Registry (Fl : Floats) where
  units : UnitId → Option (Proto.Unit Fl)
  groups : GroupId → Option (Proto.Group Fl)
  units_keyed : ∀ id unit, units id = some unit → unitKey unit = id
  groups_keyed : ∀ id group, groups id = some group → groupKey group = id
  groups_bare : ∀ id group, groups id = some group → group.units = []

namespace Registry

/-- The registry of nothing. -/
def empty : Registry Fl where
  units := fun _ => none
  groups := fun _ => none
  units_keyed := by simp
  groups_keyed := by simp
  groups_bare := by simp

/-- Store one unit. -/
def putUnit (r : Registry Fl) (unit : Proto.Unit Fl) : Registry Fl :=
  { r with
    units := Function.update r.units (unitKey unit) (some unit)
    units_keyed := forall_update r.units_keyed fun _ h => by rw [← Option.some.inj h] }

/-- Forget one unit. -/
def dropUnit (r : Registry Fl) (id : UnitId) : Registry Fl :=
  { r with
    units := Function.update r.units id none
    units_keyed := forall_update r.units_keyed (by simp) }

/-- Store one group's own fields. -/
def putGroup (r : Registry Fl) (group : Proto.Group Fl) : Registry Fl :=
  { r with
    groups := Function.update r.groups (groupKey group) (some (bare group))
    groups_keyed := forall_update r.groups_keyed fun _ h => by
      rw [← Option.some.inj h, groupKey_bare]
    groups_bare := forall_update r.groups_bare fun _ h => by rw [← Option.some.inj h, bare] }

/-- Make `listed` the members of `g`: a listed unit is stored with `g` for its group (the last
of its id, if the list repeats it), an unlisted member of `g` is forgotten, and every other
unit stays. -/
def pushUnits (units : UnitId → Option (Proto.Unit Fl)) (g : GroupId)
    (listed : List (Proto.Unit Fl)) (id : UnitId) : Option (Proto.Unit Fl) :=
  match lastKeyed unitKey listed id with
  | some unit => some (assign g unit)
  | none => (units id).filter fun unit => groupOf unit ≠ g

theorem pushUnits_eq_some {units : UnitId → Option (Proto.Unit Fl)} {g : GroupId}
    {listed : List (Proto.Unit Fl)} {id : UnitId} {unit : Proto.Unit Fl} :
    pushUnits units g listed id = some unit ↔
      (∃ u, lastKeyed unitKey listed id = some u ∧ unit = assign g u) ∨
      (lastKeyed unitKey listed id = none ∧ units id = some unit ∧ groupOf unit ≠ g) := by
  unfold pushUnits
  cases lastKeyed unitKey listed id with
  | some u => simp [eq_comm]
  | none => simp [Option.filter_eq_some_iff]

/-- Replace a group and its membership together. -/
def push (r : Registry Fl) (group : Proto.Group Fl) (listed : List (Proto.Unit Fl)) :
    Registry Fl :=
  { r.putGroup group with
    units := pushUnits r.units (groupKey group) listed
    units_keyed := by
      intro id unit h
      rcases pushUnits_eq_some.mp h with ⟨u, hu, rfl⟩ | ⟨_, hu, _⟩
      · exact (mem_of_lastKeyed hu).2
      · exact r.units_keyed id unit hu }

/-- Forget a group and every unit that names it.  An unknown group is left alone, and so are
the units that name it. -/
def takeGroup (r : Registry Fl) (g : GroupId) : Registry Fl :=
  { r with
    units := fun id =>
      if (r.groups g).isSome then (r.units id).filter fun unit => groupOf unit ≠ g
      else r.units id
    groups := Function.update r.groups g none
    units_keyed := by
      intro id unit h
      split at h
      · exact r.units_keyed id unit (Option.filter_eq_some_iff.mp h).1
      · exact r.units_keyed id unit h
    groups_keyed := forall_update r.groups_keyed (by simp)
    groups_bare := forall_update r.groups_bare (by simp) }

@[simp] theorem putUnit_units (r : Registry Fl) (unit : Proto.Unit Fl) :
    (r.putUnit unit).units = Function.update r.units (unitKey unit) (some unit) := rfl

@[simp] theorem putUnit_groups (r : Registry Fl) (unit : Proto.Unit Fl) :
    (r.putUnit unit).groups = r.groups := rfl

@[simp] theorem dropUnit_units (r : Registry Fl) (id : UnitId) :
    (r.dropUnit id).units = Function.update r.units id none := rfl

@[simp] theorem push_units (r : Registry Fl) (group : Proto.Group Fl)
    (listed : List (Proto.Unit Fl)) :
    (r.push group listed).units = pushUnits r.units (groupKey group) listed := rfl

@[simp] theorem push_groups (r : Registry Fl) (group : Proto.Group Fl)
    (listed : List (Proto.Unit Fl)) :
    (r.push group listed).groups =
      Function.update r.groups (groupKey group) (some (bare group)) := rfl

end Registry

/-- What one write does to the registry.  The order a hash map is iterated in plays no part. -/
def Write.effect : Write Fl → Registry Fl → Registry Fl
  | .upsertUnit unit, r => r.putUnit unit
  | .removeUnit id, r => r.dropUnit id
  | .upsertGroup group, r => r.putGroup group
  | .upsertGroupWithUnits _ group units, r => r.push group units
  | .removeGroup id, r => r.takeGroup id
  | .setSimulationInfo _, r => r
  | .setSimulationState _, r => r
  | .setLocations _, r => r
  | .clear _, _ => .empty

/-- **Doing a write twice does it once.** -/
theorem Write.effect_effect (w : Write Fl) (r : Registry Fl) :
    w.effect (w.effect r) = w.effect r := by
  cases w with
  | upsertUnit unit => exact Registry.ext (Function.update_idem _ _ _) rfl
  | removeUnit id => exact Registry.ext (Function.update_idem _ _ _) rfl
  | upsertGroup group => exact Registry.ext rfl (Function.update_idem _ _ _)
  | upsertGroupWithUnits order group units =>
    refine Registry.ext (funext fun id => ?_) (Function.update_idem _ _ _)
    simp only [effect, Registry.push_units, Registry.pushUnits]
    cases lastKeyed unitKey units id with
    | some unit => rfl
    | none => exact Option.filter_filter.trans (by simp)
  | removeGroup g =>
    refine Registry.ext (funext fun id => ?_) (Function.update_idem _ _ _)
    simp [effect, Registry.takeGroup]
  | setSimulationInfo info => rfl
  | setSimulationState state => rfl
  | setLocations locations => rfl
  | clear order => rfl

end MinervaServer
