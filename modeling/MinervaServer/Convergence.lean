/-
# A subscriber converges to the cache

What a client makes of the group stream.  It keeps a table of groups, sets an entry on every
upsert and erases one on every removal (`clientGroups`).  When the task has sent its snapshot
and all that was broadcast since, and no write is in progress, that table is exactly the list
of groups that match its filter (`group_subscriber_converges`).

The invariant is about what the client is GOING to hold: replaying the snapshot and then
everything the writes have broadcast since, filtered, gives the filtered views of the cache as
it is now (`Tracks`).  A write keeps it because about every group it announces the change of
its view (`Write.messages_about`), and filtering an announcement announces the change of the
filtered view (`replay_announce`).  That the client holds all of it in the end is the ledger.
-/
import MinervaServer.Delivery

namespace MinervaServer

open Lib

variable {Fl : Floats}

/-! ## 1. Replaying announcements -/

/-- The view of a group, if it matches the filter. -/
def filteredView (side : Option Proto.Side) (inner : Inner Fl) (g : GroupId) :
    Option (Proto.Group Fl) :=
  (inner.joinedGroup g).filter fun group => StateCache.matchesSide side group.side

/-- The table of a client that has replayed `responses` from nothing. -/
def replayed (responses : List (Proto.SubscribeGroupUpdatesResponse Fl)) :
    GroupId → Option (Proto.Group Fl) :=
  replay about tracked (fun _ => none) responses

/-- Whoever holds the filtered view and reads the filtered announcement of a change holds the
filtered view after it. -/
theorem replay_announce (side : Option Proto.Side) (g : GroupId)
    (before now : Option (Proto.Group Fl)) :
    ((announce g before now).filter (matchesUpdate side)).getLast?.elim
        (before.filter fun group => StateCache.matchesSide side group.side) tracked =
      now.filter fun group => StateCache.matchesSide side group.side := by
  by_cases hnow : now = before
  · rw [hnow, announce_self]
    rfl
  · unfold announce
    rw [if_neg hnow]
    cases now with
    | none => cases before <;> rfl
    | some new =>
      cases before with
      | none =>
        cases hmatch : StateCache.matchesSide side new.side <;>
          simp [Option.filter_some, hmatch]
      | some old =>
        -- an old view on another side is removed first, one on the same side matched alike
        by_cases hside : old.side = new.side
        · cases hmatch : StateCache.matchesSide side new.side <;>
            simp [Option.filter_some, hside, hmatch]
        · cases hmatch : StateCache.matchesSide side new.side <;>
            simp [List.filter_cons, Option.filter_some, hside, hmatch]

/-- **A write carries the filtered views along.** -/
theorem replay_write {inner : Inner Fl} (h : inner.Consistent) (side : Option Proto.Side)
    (w : Write Fl) :
    replay about tracked (filteredView side inner)
        ((groupResponses (w.messages inner)).filter (matchesUpdate side)) =
      filteredView side (w.commit inner) := by
  funext g
  rw [replay_apply, concerning_filter, Write.messages_about h]
  exact replay_announce side g _ _

theorem replayed_write {inner : Inner Fl} (h : inner.Consistent) (side : Option Proto.Side)
    (w : Write Fl) {responses : List (Proto.SubscribeGroupUpdatesResponse Fl)}
    (hholds : replayed responses = filteredView side inner) :
    replayed (responses ++ (groupResponses (w.messages inner)).filter (matchesUpdate side)) =
      filteredView side (w.commit inner) := by
  rw [← replay_write h, ← hholds, replayed, replay_append]
  rfl

theorem filteredView_eq_some {side : Option Proto.Side} {inner : Inner Fl} (h : inner.Consistent)
    (order : IterOrder GroupId) {g : GroupId} {group : Proto.Group Fl} :
    filteredView side inner g = some group ↔
      group ∈ StateCache.matchingGroups order inner side ∧ groupKey group = g := by
  rw [filteredView, Option.filter_eq_some_iff, StateCache.mem_matchingGroups]
  constructor
  · rintro ⟨hview, hside⟩
    exact ⟨⟨g, hview, hside⟩, Inner.groupKey_of_joinedGroup h hview⟩
  · rintro ⟨⟨g', hview, hside⟩, hkey⟩
    rw [Inner.groupKey_of_joinedGroup h hview] at hkey
    exact ⟨hkey ▸ hview, hside⟩

/-- A snapshot gives the filtered views, whatever order it lists them in. -/
theorem replayed_snapshot {inner : Inner Fl} (h : inner.Consistent) (order : IterOrder GroupId)
    (side : Option Proto.Side) :
    replayed ((StateCache.matchingGroups order inner side).map groupUpserted) =
      filteredView side inner := by
  have hdistinct : ((StateCache.matchingGroups order inner side).map groupUpserted).Pairwise
      fun r r' => about r ≠ about r' := by
    rw [List.pairwise_map]
    refine (StateCache.pairwise_matchingGroups h order side).imp fun hne heq => hne ?_
    exact congrArg GroupId.str (Option.some.inj heq)
  funext g
  rw [replayed, replay_apply]
  cases hview : filteredView side inner g with
  | some group =>
    obtain ⟨hmem, hkey⟩ := (filteredView_eq_some h order).mp hview
    rw [concerning_of_distinct hdistinct (List.mem_map_of_mem hmem) (congrArg some hkey)]
    rfl
  | none =>
    rw [concerning_eq_nil]
    · rfl
    · intro r hr habout
      obtain ⟨group, hmem, rfl⟩ := List.mem_map.mp hr
      rw [(filteredView_eq_some h order).mpr ⟨hmem, Option.some.inj habout⟩] at hview
      cases hview

/-! ## 2. What the client is going to hold -/

namespace System

open Forwarder

section Describes

variable {stream : Stream Fl} {Holds : List stream.M → Inner Fl → Prop}

/-- Everything the client has been sent or is due, its snapshot first, holds of the locked
value. -/
def Describes (Holds : List stream.M → Inner Fl → Prop) (s : System stream) : Prop :=
  ∀ readAt snapshot f, s.client = .forwarding readAt snapshot f →
    readAt ≤ s.emitted.length ∧
      Holds (snapshot ++ due stream.forwards (log stream (s.events.drop readAt))) s.inner

theorem Describes.step {s s' : System stream} {a : Action Fl} (h : s.Describes Holds)
    (hsnapshot : ∀ {inner : Inner Fl}, inner.Consistent → ∀ order,
      Holds (stream.snapshot order inner).1 inner)
    (hwrite : ∀ {inner : Inner Fl} {responses}, inner.Consistent → ∀ w, Holds responses inner →
      Holds (responses ++ ((w.messages inner).filterMap stream.part).filter stream.forwards)
        ((⟨inner, []⟩ : StateCache Fl).write w).inner)
    (hstamped : s.Stamped) (hstep : step s a = some s') : s'.Describes Holds := by
  rcases step_cases hstep with ⟨w, _, hidle, rfl⟩ | ⟨event, rest, _, hemitting, rfl⟩ |
    ⟨_, _, rfl⟩ | ⟨order, updates, _, hclient, hidle, rfl⟩ | ⟨readAt, snapshot, f, _, hclient, rfl⟩ |
    ⟨readAt, snapshot, f, _, hclient, rfl⟩
  · intro readAt snapshot f hclient
    obtain ⟨hle, hholds⟩ := h readAt snapshot f hclient
    refine ⟨hle, ?_⟩
    have hevents : s.events = s.emitted := by rw [events, hidle, List.append_nil]
    rw [hevents] at hholds
    -- the events of the write come after all the others
    have hdue : due stream.forwards (log stream (StateCache.stamp s.inner.sequence
        (w.messages s.inner))) =
        ((w.messages s.inner).filterMap stream.part).filter stream.forwards := by
      rw [due, log, responses_channel, StateCache.stamp_response]
    simp only [events, events_write]
    rw [List.drop_append_of_le_length hle, log_append, due_append, ← List.append_assoc, hdue]
    exact hwrite hstamped.consistent w hholds
  · intro readAt snapshot f hclient
    obtain ⟨hle, hholds⟩ := h readAt snapshot f hclient
    refine ⟨by rw [List.length_append]; omega, ?_⟩
    simp only [events, hemitting] at hholds
    simp only [events, List.append_assoc, List.singleton_append]
    exact hholds
  · intro readAt snapshot f hforwarding
    cases hforwarding
  · intro readAt' snapshot' f' hforwarding
    obtain ⟨rfl, rfl, rfl⟩ := Client.forwarding.inj hforwarding
    refine ⟨le_refl _, ?_⟩
    simp only [events, hidle, List.append_nil, List.drop_length]
    have hnothing : due stream.forwards (log stream []) = [] := rfl
    rw [hnothing, List.append_nil]
    exact hsnapshot hstamped.consistent order
  · intro readAt' snapshot' f' hforwarding
    obtain ⟨rfl, rfl, rfl⟩ := Client.forwarding.inj hforwarding
    exact h _ _ _ hclient
  · intro readAt' snapshot' f' hforwarding
    obtain ⟨rfl, rfl, rfl⟩ := Client.forwarding.inj hforwarding
    exact h _ _ _ hclient

/-- **What holds of a snapshot, and what a write's announcements carry along, holds in the end.** -/
theorem Reaches.describes {s : System stream} (h : s.Reaches)
    (hsnapshot : ∀ {inner : Inner Fl}, inner.Consistent → ∀ order,
      Holds (stream.snapshot order inner).1 inner)
    (hwrite : ∀ {inner : Inner Fl} {responses}, inner.Consistent → ∀ w, Holds responses inner →
      Holds (responses ++ ((w.messages inner).filterMap stream.part).filter stream.forwards)
        ((⟨inner, []⟩ : StateCache Fl).write w).inner) : s.Describes Holds := by
  obtain ⟨actions, hrun⟩ := h
  have hboth : s.Stamped ∧ s.Describes Holds :=
    run_invariant (P := fun s => s.Stamped ∧ s.Describes Holds)
      (fun _ _ _ hstep hs => ⟨hs.1.step hstep, hs.2.step hsnapshot hwrite hs.1 hstep⟩) hrun
      ⟨stamped_init, fun _ _ _ hclient => by cases hclient⟩
  exact hboth.2

end Describes

variable {side : Option Proto.Side}

/-- Once the client has replayed its snapshot and all that is due to it, it will hold the
filtered views of the cache. -/
def Tracks (s : System (groupStream side : Stream Fl)) : Prop :=
  ∀ readAt (snapshot : List (Proto.SubscribeGroupUpdatesResponse Fl)) f,
    s.client = .forwarding readAt snapshot f →
      readAt ≤ s.emitted.length ∧
        replayed (snapshot ++
            due (matchesUpdate side) (StateCache.groupUpdates (s.events.drop readAt))) =
          filteredView side s.inner

theorem Reaches.tracks {s : System (groupStream side : Stream Fl)} (h : s.Reaches) : s.Tracks := by
  have hdescribes : s.Describes fun responses inner => replayed responses = filteredView side inner := by
    refine h.describes (fun hc order => replayed_snapshot hc order side) fun hc w hholds => ?_
    rw [StateCache.write_inner]
    exact replayed_write hc side w hholds
  exact hdescribes

/-! ## 3. Convergence -/

/-- Nothing is under way: no write is in progress, and the subscriber's task has sent its whole
snapshot, has read every event there is, waits for the next one and has not aborted. -/
structure Quiet {stream : Stream Fl} (s : System stream) (snapshot : List stream.M)
    (f : Forwarder stream.M) : Prop where
  client : ∃ readAt, s.client = .forwarding readAt snapshot f
  idle : s.emitting = []
  awaiting : f.phase = .awaiting
  consumed : f.updates.next = (log stream s.emitted).length

/-- A task that has nothing left to do has sent the snapshot and all that is due. -/
theorem Quiet.sent_eq {stream : Stream Fl} {s : System stream} {snapshot : List stream.M}
    {f : Forwarder stream.M} (h : s.Quiet snapshot f) (hreaches : s.Reaches) (hrange : s.InRange) :
    ∃ readAt, s.client = .forwarding readAt snapshot f ∧
      f.sent =
        (snapshot ++ due stream.forwards (log stream (s.events.drop readAt))).map .ok := by
  obtain ⟨readAt, hclient⟩ := h.client
  obtain ⟨_, _, haccounts⟩ := (hreaches.served hrange).forwarding readAt snapshot f hclient
  refine ⟨readAt, hclient, ?_⟩
  have hsent := haccounts.serving (by simp [h.awaiting]) (by simp [h.awaiting])
  have hevents : s.events = s.emitted := by rw [events, h.idle, List.append_nil]
  have hread : (log stream (s.emitted.drop readAt)).length ≤
      f.updates.next - (log stream (s.emitted.take readAt)).length := by
    rw [h.consumed, log_cut s.emitted readAt, List.length_append]
    omega
  rw [owed, List.take_of_length_le hread] at hsent
  rw [hevents, ← hsent]
  simp [inHand, h.awaiting]

/-- The responses among the items of a stream. -/
def received {M : Type} (items : List (Except Status M)) : List M := items.filterMap Except.toOption

theorem received_map_ok {M : Type} (responses : List M) :
    received (responses.map .ok) = responses := by
  rw [received, List.filterMap_map]
  exact List.filterMap_some

/-- The table of a client that has read the items of the group stream. -/
def clientGroups (items : List (Except Status (Proto.SubscribeGroupUpdatesResponse Fl))) :
    GroupId → Option (Proto.Group Fl) :=
  replayed (received items)

/-- **A group subscriber converges.**  In every run that broadcasts fewer than 2^64 events,
whenever nothing is under way the client's table is exactly the groups that match its filter,
joined with their units, and holds no other id. -/
theorem group_subscriber_converges (side : Option Proto.Side) (actions : List (Action Fl))
    (s : System (groupStream side)) (hrun : after (groupStream side) actions = some s)
    (hrange : s.InRange) (snapshot : List (Proto.SubscribeGroupUpdatesResponse Fl))
    (f : Forwarder (Proto.SubscribeGroupUpdatesResponse Fl)) (hquiet : s.Quiet snapshot f)
    (order : IterOrder GroupId) (g : GroupId) (group : Proto.Group Fl) :
    clientGroups f.sent g = some group ↔
      group ∈ (⟨s.inner, s.emitted⟩ : StateCache Fl).listGroups order side ∧
        GroupId.ofStr group.id = g := by
  have hreaches : s.Reaches := ⟨actions, hrun⟩
  obtain ⟨readAt, hclient, hsent⟩ := hquiet.sent_eq hreaches hrange
  obtain ⟨_, htracks⟩ := hreaches.tracks readAt snapshot f hclient
  have hitems : f.sent = (snapshot ++
      due (matchesUpdate side) (StateCache.groupUpdates (s.events.drop readAt))).map .ok := hsent
  rw [clientGroups, hitems, received_map_ok, htracks]
  exact filteredView_eq_some hreaches.stamped.consistent order

/-- A group that is stored between the receiver and the snapshot, and one that is stored after
it. -/
def converging : List (Action Floats.bits) :=
  [.subscribe, .write (.upsertGroup (.sample "A" .blufor)), .send, .readSnapshot .ascending,
    .write (.upsertGroup (.sample "B" .opfor)), .send,
    .forward, .forward, .forward, .forward, .forward]

theorem group_subscriber_converges_sample :
    ∃ s snapshot f, after (groupStream none) converging = some s ∧ s.Quiet snapshot f ∧
      ∀ g group, clientGroups f.sent g = some group ↔
        group ∈ (⟨s.inner, s.emitted⟩ : StateCache Floats.bits).listGroups .descending none ∧
          GroupId.ofStr group.id = g := by
  refine ⟨_, _, _, rfl, ⟨⟨_, rfl⟩, rfl, rfl, rfl⟩, fun g group => ?_⟩
  exact group_subscriber_converges none converging _ rfl (by decide) _ _ ⟨⟨_, rfl⟩, rfl, rfl, rfl⟩
    .descending g group

/-- **Convergence fails when the counter wraps around.**  The client still holds a group that
the cache has not had for some time, and nothing is under way. -/
theorem convergence_fails_on_wraparound :
    ∃ s snapshot f, after (groupStream none) wrapping = some s ∧ s.Quiet snapshot f ∧
      ¬ ∀ g group, clientGroups f.sent g = some group ↔
        group ∈ (⟨s.inner, s.emitted⟩ : StateCache Floats.bits).listGroups .ascending none ∧
          GroupId.ofStr group.id = g := by
  obtain ⟨state, emitted, hrun, hlength⟩ := after_wrapping
  refine ⟨_, _, _, hrun, ⟨⟨_, rfl⟩, rfl, rfl, hlength.symm⟩, fun hconverged => ?_⟩
  have hlisted := ((hconverged (.ofStr "A") passingGroup).mp (by decide)).1
  obtain ⟨g, hview, _⟩ := StateCache.mem_matchingGroups.mp hlisted
  simp [Inner.joinedGroup] at hview

end System

end MinervaServer
