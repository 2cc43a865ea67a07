/-
# The broadcasts are exactly the changes of the joined views

A write has to guess which groups it will affect, remember their views, and compare when it is
done.  This file proves that it guesses right: about every group, a write broadcasts what
`announce` says of the group's view before and after it, and nothing else (`messages_about`).
So a missed event and a spurious one are both impossible, and so is an event that carries a
view from the middle of a write.

The proof goes one group at a time.  About a group that the write compares, the messages say
so by definition; about every other group, the effect of the write leaves the view alone
(`sameAt_putUnit` and its siblings), so there is nothing to say.
-/
import MinervaServer.Views
import MinervaServer.Lib.Changelog

namespace MinervaServer

open Lib

variable {Fl : Floats}

/-! ## 1. What a response is about -/

/-- The group a response of the group stream is about. -/
def about (response : Proto.SubscribeGroupUpdatesResponse Fl) : Option GroupId :=
  response.event.map fun
    | .upserted group => groupKey group
    | .removedId id => .ofStr id

/-- What a client holds for that group once it has read the response. -/
def tracked (response : Proto.SubscribeGroupUpdatesResponse Fl) : Option (Proto.Group Fl) :=
  match response.event with
  | some (.upserted group) => some group
  | _ => none

@[simp] theorem about_groupUpserted (group : Proto.Group Fl) :
    about (groupUpserted group) = some (groupKey group) := rfl

@[simp] theorem about_groupRemoved (id : String) :
    about (groupRemoved id : Proto.SubscribeGroupUpdatesResponse Fl) = some (.ofStr id) := rfl

@[simp] theorem tracked_groupUpserted (group : Proto.Group Fl) :
    tracked (groupUpserted group) = some group := rfl

@[simp] theorem tracked_groupRemoved (id : String) :
    tracked (groupRemoved id : Proto.SubscribeGroupUpdatesResponse Fl) = none := rfl

/-- The responses on the group channel. -/
def groupResponses (messages : List (Message Fl)) :
    List (Proto.SubscribeGroupUpdatesResponse Fl) :=
  messages.filterMap Message.asGroup

theorem groupResponses_append (first rest : List (Message Fl)) :
    groupResponses (first ++ rest) = groupResponses first ++ groupResponses rest :=
  List.filterMap_append

theorem groupResponses_flatMap {A : Type} (keys : List A) (entry : A → List (Message Fl)) :
    groupResponses (keys.flatMap entry) = keys.flatMap fun a => groupResponses (entry a) := by
  induction keys with
  | nil => rfl
  | cons a keys ih => rw [List.flatMap_cons, groupResponses_append, ih, List.flatMap_cons]

theorem groupUpdates_append (first rest : List (Event (Message Fl))) :
    StateCache.groupUpdates (first ++ rest) =
      StateCache.groupUpdates first ++ StateCache.groupUpdates rest :=
  List.filterMap_append

theorem responses_channel {M : Type} (part : Message Fl → Option M)
    (sent : List (Event (Message Fl))) :
    (channel part sent).map Event.response = (sent.map Event.response).filterMap part := by
  rw [channel, List.map_filterMap, List.filterMap_map]
  refine List.filterMap_congr fun e _ => ?_
  rw [Option.map_map, Function.comp_apply]
  exact Option.map_id'

theorem responses_groupUpdates (sent : List (Event (Message Fl))) :
    (StateCache.groupUpdates sent).map Event.response =
      groupResponses (sent.map Event.response) :=
  responses_channel Message.asGroup sent

/-! ## 2. What ought to be announced -/

/-- What a subscriber must be told about the group `id` when its view goes from `before` to
`now`: nothing if it is unchanged, a removal if it is gone, the view if there is one, and first
a removal if it changed sides. -/
def announce (id : GroupId) (before now : Option (Proto.Group Fl)) :
    List (Proto.SubscribeGroupUpdatesResponse Fl) :=
  if now = before then []
  else match before, now with
    | some old, some new =>
      if old.side ≠ new.side then [groupRemoved id.str, groupUpserted new] else [groupUpserted new]
    | none, some new => [groupUpserted new]
    | _, none => [groupRemoved id.str]

theorem announce_self (id : GroupId) (view : Option (Proto.Group Fl)) :
    announce id view view = [] :=
  if_pos rfl

/-- `emit_if_changed` announces all there is to announce, unless the side changed. -/
theorem announce_of_same_side {id : GroupId} {before now : Option (Proto.Group Fl)}
    (h : before.map Proto.Group.side = now.map Proto.Group.side) :
    groupResponses (StateCache.changed id before now) = announce id before now := by
  unfold StateCache.changed announce
  by_cases hnow : now = before
  · rw [if_pos hnow, if_pos hnow]
    rfl
  · rw [if_neg hnow, if_neg hnow]
    cases before with
    | none => cases now <;> rfl
    | some old =>
      cases now with
      | none => rfl
      | some new =>
        have hside : old.side = new.side := Option.some.inj h
        simp [groupResponses, hside]

/-- `replace_group_fields` and `emit_if_changed` together announce a group whose fields were
replaced. -/
theorem announce_of_placed {id : GroupId} {previous : Option (Proto.Group Fl)}
    {group new : Proto.Group Fl} {before : Option (Proto.Group Fl)} (hid : group.id = id.str)
    (hbefore : before.map Proto.Group.side = previous.map Proto.Group.side)
    (hnew : new.side = group.side) :
    groupResponses (StateCache.sideRemoval previous group) ++
        groupResponses (StateCache.changed id before (some new)) =
      announce id before (some new) := by
  have hremoval : StateCache.sideRemoval previous group =
      if (before.map Proto.Group.side).any fun side => side ≠ new.side then
        [.group (groupRemoved id.str)] else [] := by
    rw [StateCache.sideRemoval, hbefore, hnew, hid]
  rw [hremoval]
  cases before with
  | none => simp [StateCache.changed, announce, groupResponses]
  | some old =>
    by_cases hside : old.side = new.side
    · rw [if_neg (by simp [hside])]
      exact announce_of_same_side (congrArg some hside)
    · have hne : new ≠ old := fun h => hside (by rw [h])
      simp [StateCache.changed, announce, groupResponses, hside, hne]

/-! ## 3. Each effect leaves the other views alone -/

namespace Registry

theorem SameAt.refl (r : Registry Fl) (g : GroupId) : r.SameAt r g :=
  ⟨rfl, fun _ _ _ => Iff.rfl⟩

/-- Storing a unit touches the group it joins and the group it leaves. -/
theorem sameAt_putUnit {r : Registry Fl} {unit : Proto.Unit Fl} {g : GroupId}
    (hnew : groupOf unit ≠ g)
    (hold : ∀ existing, r.units (unitKey unit) = some existing → groupOf existing ≠ g) :
    r.SameAt (r.putUnit unit) g := by
  refine ⟨rfl, fun id other hother => ?_⟩
  rw [putUnit_units, Function.update_apply]
  split
  · rename_i hid
    subst hid
    constructor
    · intro h
      exact absurd hother (hold other h)
    · intro h
      exact absurd hother (by rw [← Option.some.inj h]; exact hnew)
  · rfl

/-- Forgetting a unit touches the group it was in. -/
theorem sameAt_dropUnit {r : Registry Fl} {id : UnitId} {g : GroupId}
    (hold : ∀ existing, r.units id = some existing → groupOf existing ≠ g) :
    r.SameAt (r.dropUnit id) g := by
  refine ⟨rfl, fun id' other hother => ?_⟩
  simp only [dropUnit, Function.update_apply]
  split
  · rename_i hid
    subst hid
    exact ⟨fun h => absurd hother (hold other h), fun h => by simp at h⟩
  · rfl

theorem sameAt_putGroup {r : Registry Fl} {group : Proto.Group Fl} {g : GroupId}
    (h : groupKey group ≠ g) : r.SameAt (r.putGroup group) g :=
  ⟨(Function.update_of_ne (Ne.symm h) _ _).symm, fun _ _ _ => Iff.rfl⟩

/-- A push touches the pushed group and the groups it takes units from. -/
theorem sameAt_push {r : Registry Fl} {group : Proto.Group Fl} {listed : List (Proto.Unit Fl)}
    {g : GroupId} (hg : groupKey group ≠ g)
    (hold : ∀ unit ∈ listed, ∀ existing, r.units (unitKey unit) = some existing →
      groupOf existing ≠ g) :
    r.SameAt (r.push group listed) g := by
  refine ⟨(Function.update_of_ne (Ne.symm hg) _ _).symm, fun id other hother => ?_⟩
  rw [push_units, pushUnits_eq_some]
  constructor
  · intro h
    refine Or.inr ⟨?_, h, fun heq => hg (heq.symm.trans hother)⟩
    rw [lastKeyed_eq_none]
    rintro unit hunit rfl
    exact hold unit hunit other h hother
  · rintro (⟨u, _, rfl⟩ | ⟨_, h, _⟩)
    · exact absurd hother hg
    · exact h

/-- Forgetting a group touches no other group. -/
theorem sameAt_takeGroup {r : Registry Fl} {id g : GroupId} (h : id ≠ g) :
    r.SameAt (r.takeGroup id) g := by
  refine ⟨(Function.update_of_ne (Ne.symm h) _ _).symm, fun id' unit hunit => ?_⟩
  simp only [takeGroup]
  split
  · rw [Option.filter_eq_some_iff]
    simp [hunit, Ne.symm h]
  · rfl

end Registry

/-! ## 4. What a write announces about one group -/

namespace Write

theorem nodup_compared (w : Write Fl) (inner : Inner Fl) : (w.compared inner).Nodup := by
  cases w with
  | upsertUnit unit =>
    cases hold : inner.movedFrom unit with
    | none => simp [compared, hold]
    | some old => simp [compared, hold, Ne.symm (Inner.movedFrom_eq_some.mp hold).1]
  | removeUnit id => cases h : inner.units[id]? <;> simp [compared, h]
  | upsertGroupWithUnits order group units =>
    refine List.nodup_cons.mpr ⟨?_, StateCache.nodup_losers _ _ _ _⟩
    exact fun h => (StateCache.mem_losers.mp h).1 rfl
  | _ => simp [compared]

/-- An announcement of `emit_if_changed` is about the group it compared. -/
theorem about_changed {inner : Inner Fl} (h : inner.Consistent) {id : GroupId}
    {before : Option (Proto.Group Fl)} {response : Proto.SubscribeGroupUpdatesResponse Fl}
    (hmem : response ∈ groupResponses (StateCache.changed id before (inner.joinedGroup id))) :
    about response = some id := by
  unfold StateCache.changed at hmem
  split at hmem
  · simp [groupResponses] at hmem
  · cases hview : inner.joinedGroup id with
    | none =>
      rw [hview] at hmem
      rw [List.mem_singleton.mp hmem]
      rfl
    | some group =>
      rw [hview] at hmem
      rw [List.mem_singleton.mp hmem, about_groupUpserted,
        Inner.groupKey_of_joinedGroup h hview]

/-- The messages about one group: what was announced first, and the comparison if there was
one. -/
theorem concerning_messages {inner : Inner Fl} (h : inner.Consistent) (w : Write Fl)
    (g : GroupId) :
    concerning about g (groupResponses (w.messages inner)) =
      concerning about g (groupResponses (w.announcedFirst inner)) ++
        if g ∈ w.compared inner then
          groupResponses (StateCache.changed g (inner.joinedGroup g)
            ((w.commit inner).joinedGroup g))
        else [] := by
  rw [messages, groupResponses_append, concerning_append, groupResponses_flatMap,
    concerning_flatMap (nodup_compared w inner) fun id r hr => about_changed (h.commit w) hr]

/-- A side-change removal is about the group whose fields are replaced. -/
theorem concerning_sideRemoval (previous : Option (Proto.Group Fl)) (group : Proto.Group Fl)
    (g : GroupId) :
    concerning about g (groupResponses (StateCache.sideRemoval previous (bare group))) =
      if groupKey group = g then groupResponses (StateCache.sideRemoval previous (bare group))
      else [] := by
  have habout : ∀ r ∈ groupResponses (StateCache.sideRemoval previous (bare group)),
      about r = some (groupKey group) := by
    intro r hr
    unfold StateCache.sideRemoval at hr
    split at hr
    · rw [List.mem_singleton.mp hr]
      rfl
    · simp [groupResponses] at hr
  split
  · rename_i hg
    exact concerning_of_forall fun r hr => by rw [habout r hr, hg]
  · rename_i hg
    exact concerning_eq_nil fun r hr heq => hg (Option.some.inj ((habout r hr).symm.trans heq))

/-- A commit keeps the views its effect leaves alone. -/
theorem joinedGroup_commit {inner : Inner Fl} (h : inner.Consistent) {w : Write Fl} {g : GroupId}
    (hsame : (inner.registry h).SameAt (w.effect (inner.registry h)) g) :
    (w.commit inner).joinedGroup g = inner.joinedGroup g := by
  rw [← Inner.registry_commit h w] at hsame
  exact (Inner.joinedGroup_congr h (h.commit w) hsame).symm

/-- A group the write neither names nor compares: its view is unchanged. -/
theorem messages_about_of_untouched {inner : Inner Fl} (h : inner.Consistent) {w : Write Fl}
    {g : GroupId} (hfirst : concerning about g (groupResponses (w.announcedFirst inner)) = [])
    (hnot : g ∉ w.compared inner)
    (hsame : (inner.registry h).SameAt (w.effect (inner.registry h)) g) :
    concerning about g (groupResponses (w.messages inner)) =
      announce g (inner.joinedGroup g) ((w.commit inner).joinedGroup g) := by
  rw [concerning_messages h, hfirst, if_neg hnot, joinedGroup_commit h hsame, announce_self]
  rfl

/-- A group whose members the write changes, and not its fields: the comparison says it all. -/
theorem messages_about_of_compared {inner : Inner Fl} (h : inner.Consistent) {w : Write Fl}
    {g : GroupId} (hfirst : concerning about g (groupResponses (w.announcedFirst inner)) = [])
    (hin : g ∈ w.compared inner) (hgroups : (w.commit inner).groups[g]? = inner.groups[g]?) :
    concerning about g (groupResponses (w.messages inner)) =
      announce g (inner.joinedGroup g) ((w.commit inner).joinedGroup g) := by
  rw [concerning_messages h, hfirst, if_pos hin, List.nil_append]
  refine announce_of_same_side ?_
  rw [Inner.side_joinedGroup, Inner.side_joinedGroup, hgroups]

/-- The group whose fields a write replaces. -/
theorem messages_about_of_placed {inner : Inner Fl} (h : inner.Consistent) {w : Write Fl}
    {group : Proto.Group Fl}
    (hfirst : w.announcedFirst inner =
      StateCache.sideRemoval inner.groups[groupKey group]? (bare group))
    (hin : groupKey group ∈ w.compared inner)
    (hgroups : (w.commit inner).groups[groupKey group]? = some (bare group)) :
    concerning about (groupKey group) (groupResponses (w.messages inner)) =
      announce (groupKey group) (inner.joinedGroup (groupKey group))
        ((w.commit inner).joinedGroup (groupKey group)) := by
  have hnew : (w.commit inner).joinedGroup (groupKey group) =
      some { bare group with units := (w.commit inner).memberUnits (groupKey group) } := by
    rw [Inner.joinedGroup, hgroups]
    rfl
  rw [concerning_messages h, hfirst, concerning_sideRemoval, if_pos rfl, if_pos hin, hnew]
  exact announce_of_placed rfl (Inner.side_joinedGroup inner _) rfl

/-- **About every group a write announces exactly the change of its view.** -/
theorem messages_about {inner : Inner Fl} (h : inner.Consistent) (w : Write Fl) (g : GroupId) :
    concerning about g (groupResponses (w.messages inner)) =
      announce g (inner.joinedGroup g) ((w.commit inner).joinedGroup g) := by
  cases w with
  | upsertUnit unit =>
    by_cases hin : g ∈ (Write.upsertUnit unit).compared inner
    · exact messages_about_of_compared h rfl hin (by rw [commit, Inner.placeUnit_groups])
    · refine messages_about_of_untouched h rfl hin ?_
      simp only [compared, List.mem_cons, Option.mem_toList, not_or] at hin
      refine Registry.sameAt_putUnit (Ne.symm hin.1) ?_
      rintro existing hexisting rfl
      exact hin.2 (Inner.movedFrom_eq_some.mpr ⟨hin.1, existing, hexisting, rfl⟩)
  | removeUnit id =>
    by_cases hin : g ∈ (Write.removeUnit id).compared inner
    · exact messages_about_of_compared h rfl hin (by rw [commit, Inner.dropUnit_groups])
    · refine messages_about_of_untouched h rfl hin ?_
      refine Registry.sameAt_dropUnit ?_
      rintro existing hexisting rfl
      refine hin ?_
      rw [compared, show inner.units[id]? = some existing from hexisting]
      exact List.mem_singleton_self _
  | upsertGroup group =>
    by_cases hg : groupKey group = g
    · subst hg
      refine messages_about_of_placed h rfl (List.mem_singleton_self _) ?_
      simp [commit, Inner.placeGroup]
    · refine messages_about_of_untouched h ?_ ?_ (Registry.sameAt_putGroup hg)
      · rw [announcedFirst, concerning_sideRemoval, if_neg hg]
      · simpa [compared] using Ne.symm hg
  | upsertGroupWithUnits order group units =>
    by_cases hg : groupKey group = g
    · subst hg
      refine messages_about_of_placed h rfl List.mem_cons_self ?_
      simp [commit, Inner.pushGroup, Inner.placeGroup]
    · have hfirst : concerning about g
          (groupResponses ((Write.upsertGroupWithUnits order group units).announcedFirst inner)) =
          [] := by
        rw [announcedFirst, concerning_sideRemoval, if_neg hg]
      by_cases hin : g ∈ (Write.upsertGroupWithUnits order group units).compared inner
      · refine messages_about_of_compared h hfirst hin ?_
        simp [commit, Inner.pushGroup, Inner.placeGroup, Std.ExtTreeMap.getElem?_insert, hg]
      · refine messages_about_of_untouched h hfirst hin (Registry.sameAt_push hg ?_)
        rintro unit hunit existing hexisting rfl
        refine hin (List.mem_cons_of_mem _ (StateCache.mem_losers.mpr ⟨Ne.symm hg, ?_⟩))
        exact ⟨assign _ unit, List.mem_map_of_mem hunit, existing, hexisting, rfl⟩
  | removeGroup id =>
    by_cases hcached : id ∈ inner.groups
    · by_cases hg : id = g
      · subst hg
        have hnone : ((Write.removeGroup id).commit inner).joinedGroup id = none := by
          simp [commit, if_pos hcached, Inner.joinedGroup, Inner.takeGroup_groups]
        obtain ⟨view, hview⟩ := Option.isSome_iff_exists.mp
          ((Inner.isSome_joinedGroup inner id).mpr hcached)
        rw [concerning_messages h, announcedFirst, if_pos hcached, hnone, hview]
        simp [compared, groupResponses, announce, concerning]
      · refine messages_about_of_untouched h ?_ List.not_mem_nil (Registry.sameAt_takeGroup hg)
        rw [announcedFirst, if_pos hcached]
        simp [groupResponses, concerning, hg]
    · have hcommit : (Write.removeGroup id).commit inner = inner := if_neg hcached
      rw [hcommit, announce_self, concerning_messages h, announcedFirst, if_neg hcached]
      rfl
  | setSimulationInfo info => exact (announce_self g _).symm
  | setSimulationState state => exact (announce_self g _).symm
  | setLocations locations => exact (announce_self g _).symm
  | clear order =>
    have hnone : ((Write.clear order).commit inner).joinedGroup g = none := by
      simp [commit, Inner.joinedGroup]
    have hfirst : groupResponses ((Write.clear order).announcedFirst inner) =
        (order.arrange inner.groups.keys).flatMap fun id => [groupRemoved id.str] := by
      rw [announcedFirst, groupResponses_append, List.map_eq_flatMap, groupResponses_flatMap]
      exact List.append_nil _
    have hnodup : (order.arrange inner.groups.keys).Nodup :=
      (order.arrange_perm _).nodup_iff.mpr Std.ExtTreeMap.nodup_keys
    have hkeys : g ∈ order.arrange inner.groups.keys ↔ (inner.joinedGroup g).isSome := by
      rw [(order.arrange_perm _).mem_iff, Std.ExtTreeMap.mem_keys, Inner.isSome_joinedGroup]
    rw [concerning_messages h, hfirst, concerning_flatMap hnodup (by simp), hnone,
      compared, if_neg List.not_mem_nil, List.append_nil]
    cases hview : inner.joinedGroup g with
    | none => rw [if_neg (by simp [hkeys, hview]), announce_self]
    | some view => rw [if_pos (by simp [hkeys, hview])]; rfl

/-- Every response is about some group. -/
theorem isSome_about {inner : Inner Fl} (h : inner.Consistent) (w : Write Fl)
    {response : Proto.SubscribeGroupUpdatesResponse Fl}
    (hmem : response ∈ groupResponses (w.messages inner)) : (about response).isSome := by
  rw [messages, groupResponses_append, List.mem_append, groupResponses_flatMap,
    List.mem_flatMap] at hmem
  rcases hmem with hfirst | ⟨id, _, hchanged⟩
  · have hremoved : ∃ id : String, response = groupRemoved id := by
      cases w with
      | upsertGroup group =>
        simp only [announcedFirst, StateCache.sideRemoval] at hfirst
        split at hfirst
        · exact ⟨_, List.mem_singleton.mp hfirst⟩
        · simp [groupResponses] at hfirst
      | upsertGroupWithUnits order group units =>
        simp only [announcedFirst, StateCache.sideRemoval] at hfirst
        split at hfirst
        · exact ⟨_, List.mem_singleton.mp hfirst⟩
        · simp [groupResponses] at hfirst
      | removeGroup id =>
        simp only [announcedFirst] at hfirst
        split at hfirst
        · exact ⟨_, List.mem_singleton.mp hfirst⟩
        · simp [groupResponses] at hfirst
      | clear order =>
        simp only [announcedFirst, groupResponses, List.filterMap_append, List.filterMap_map,
          List.mem_append, List.mem_filterMap, Function.comp_apply] at hfirst
        rcases hfirst with ⟨id, _, heq⟩ | hnil
        · exact ⟨id.str, (Option.some.inj heq).symm⟩
        · simp at hnil
      | _ => simp [announcedFirst, groupResponses] at hfirst
    obtain ⟨id, rfl⟩ := hremoved
    rfl
  · rw [about_changed (h.commit w) hchanged]
    rfl

/-- An upserted group is the view the write leaves, never an intermediate one. -/
theorem joinedGroup_of_upserted {inner : Inner Fl} (h : inner.Consistent) {w : Write Fl}
    {group : Proto.Group Fl} (hmem : groupUpserted group ∈ groupResponses (w.messages inner)) :
    (w.commit inner).joinedGroup (groupKey group) = some group := by
  have hin : groupUpserted group ∈
      concerning about (groupKey group) (groupResponses (w.messages inner)) :=
    List.mem_filter.mpr ⟨hmem, by simp⟩
  rw [messages_about h] at hin
  have hne : ∀ id : String, groupUpserted group ≠ (groupRemoved id) := by
    intro id heq
    cases heq
  unfold announce at hin
  generalize inner.joinedGroup (groupKey group) = before at hin
  generalize (w.commit inner).joinedGroup (groupKey group) = now at hin ⊢
  split at hin
  · simp at hin
  · split at hin
    · rename_i new _
      have heq : groupUpserted group = groupUpserted new := by
        split at hin
        · rcases List.mem_cons.mp hin with heq | hlast
          · exact absurd heq (hne _)
          · exact List.mem_singleton.mp hlast
        · exact List.mem_singleton.mp hin
      cases heq
      rfl
    · cases List.mem_singleton.mp hin
      rfl
    · exact absurd (List.mem_singleton.mp hin) (hne _)

end Write

/-! ## 5. Every write of every run -/

namespace StateCache

/-- What one write adds to the broadcasts. -/
theorem write_sent (c : StateCache Fl) (w : Write Fl) :
    (c.write w).sent = c.sent ++ stamp c.inner.sequence (w.messages c.inner) := by
  rw [write_eq, sendAll_sent, commit_inner, commit_sent, Write.commit_sequence]

/-- The views after a write are those of its commit. -/
theorem write_joinedGroup (c : StateCache Fl) (w : Write Fl) :
    (c.write w).inner.joinedGroup = (w.commit c.inner).joinedGroup := by
  rw [write_eq, sendAll_joinedGroup, commit_inner]

/-- **Broadcasts are exactly the changed groups.**  In every reachable state and for every
write, the group events it emits are each about some group, and those about the group `h`
announce the change of `h`'s joined view from before the write to after it. -/
theorem broadcasts_exact (writes : List (Write Fl)) (w : Write Fl) :
    let before := after writes
    let now := before.write w
    ∃ emitted, now.sent = before.sent ++ emitted ∧
      (∀ e ∈ groupUpdates emitted, (about e.response).isSome) ∧
      ∀ h : GroupId, concerning about h ((groupUpdates emitted).map Event.response) =
        announce h (before.getGroup h) (now.getGroup h) := by
  have hc := after_consistent writes
  refine ⟨_, write_sent _ w, ?_, ?_⟩
  · intro e he
    refine Write.isSome_about hc w ?_
    rw [← stamp_response (after writes).inner.sequence (w.messages _), ← responses_groupUpdates]
    exact List.mem_map_of_mem he
  · intro h
    rw [responses_groupUpdates, stamp_response, Write.messages_about hc, getGroup, getGroup,
      write_joinedGroup]

/-- **Every published group is complete**, at every point where a group leaves the cache with
its units, and no list or snapshot lists a unit twice. -/
theorem published_groups_complete (writes : List (Write Fl)) :
    let c := after writes
    (∀ g group, c.getGroup g = some group → c.inner.Complete group) ∧
    (∀ order side, (∀ group ∈ c.listGroups order side, c.inner.Complete group) ∧
      (c.listGroups order side).Pairwise fun group group' =>
        ∀ unit ∈ group.units, ∀ unit' ∈ group'.units, unit.id ≠ unit'.id) ∧
    (∀ order side, (∀ group ∈ (subscribeGroupUpdates order c.inner side).1,
        c.inner.Complete group) ∧
      (subscribeGroupUpdates order c.inner side).1.Pairwise fun group group' =>
        ∀ unit ∈ group.units, ∀ unit' ∈ group'.units, unit.id ≠ unit'.id) ∧
    (∀ g group, (c.removeGroup g).2 = some group → c.inner.Complete group) ∧
    (∀ w, ∃ emitted, (c.write w).sent = c.sent ++ emitted ∧
      ∀ e ∈ groupUpdates emitted, ∀ group, e.response.event = some (.upserted group) →
        (c.write w).inner.Complete group) := by
  have hc := after_consistent writes
  have hlist : ∀ order side, ∀ group ∈ matchingGroups order (after writes).inner side,
      (after writes).inner.Complete group := by
    intro order side group hgroup
    obtain ⟨g, hview, _⟩ := mem_matchingGroups.mp hgroup
    exact Inner.complete_of_joinedGroup hc hview
  refine ⟨fun g group => Inner.complete_of_joinedGroup hc, fun order side =>
    ⟨hlist order side, disjoint_matchingGroups hc order side⟩, fun order side =>
    ⟨hlist order side, disjoint_matchingGroups hc order side⟩, ?_, ?_⟩
  · intro g group hremoved
    by_cases hg : g ∈ (after writes).inner.groups
    · rw [removeGroup_eq_of_cached _ hg] at hremoved
      exact Inner.complete_of_joinedGroup hc hremoved
    · rw [removeGroup_eq_of_absent _ hg] at hremoved
      simp at hremoved
  · intro w
    refine ⟨_, write_sent _ w, ?_⟩
    intro e he group hevent
    have hresponse : e.response = groupUpserted group := by
      rcases e with ⟨sequence, ⟨event⟩⟩
      obtain rfl : event = some (.upserted group) := hevent
      rfl
    have hmem : groupUpserted group ∈ groupResponses (w.messages (after writes).inner) := by
      rw [← stamp_response (after writes).inner.sequence (w.messages _), ← responses_groupUpdates,
        ← hresponse]
      exact List.mem_map_of_mem he
    have hview := Write.joinedGroup_of_upserted hc hmem
    rw [← write_joinedGroup] at hview
    exact Inner.complete_of_joinedGroup (write_consistent hc w) hview

end StateCache

end MinervaServer
