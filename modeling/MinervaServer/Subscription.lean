/-
# A subscriber, the cache and everything that can happen between them

The system of one subscriber of either stream.  The engine thread performs writes; a write
holds the lock, and its broadcasts go out one by one while it does.  The subscriber's call
creates its receiver WITHOUT the lock, so possibly between two broadcasts of one write, and
then reads its snapshot under the lock, so only when no write is in progress.  After that its
forwarding task runs, at its own pace.

`System.step` performs one action of either party.  A run is any list of actions, so every
statement about runs is about every interleaving.

Section 2 has the one fact about sequence numbers that everything rests on: as long as fewer
than 2^64 events have been broadcast, the numbers are the positions of the events, so comparing
them with the snapshot's number tells the events before the snapshot from the events after it.
-/
import MinervaServer.Broadcasts
import MinervaServer.Forwarder
import MinervaServer.Lib.Runs

namespace MinervaServer

open Lib

variable {Fl : Floats}

/-! ## 1. The system -/

/-- What tells the two subscriptions apart: the channel, the snapshot and the task, which is
one task but for its filter. -/
structure Stream (Fl : Floats) where
  M : Type
  part : Message Fl → Option M
  snapshot : IterOrder GroupId → Inner Fl → List M × UInt64
  forwards : M → Bool
  forward : List (Event M) → Forwarder M → Forwarder M
  snapshot_sequence : ∀ order inner, (snapshot order inner).2 = inner.sequence
  forward_eq : ∀ log f, forward log f = f.step forwards log

/-- `subscribe_group_updates` and `forward_group_updates`. -/
def groupStream (side : Option Proto.Side) : Stream Fl where
  M := Proto.SubscribeGroupUpdatesResponse Fl
  part := Message.asGroup
  snapshot order inner :=
    let (groups, sequence) := StateCache.subscribeGroupUpdates order inner side
    (groups.map groupUpserted, sequence)
  forwards := matchesUpdate side
  forward := forwardGroupUpdates side
  snapshot_sequence _ _ := rfl
  forward_eq _ _ := rfl

/-- `subscribe_simulation_updates` and `forward_simulation_updates`. -/
def simulationStream : Stream Fl where
  M := Proto.SubscribeSimulationUpdatesResponse Fl
  part := Message.asSimulation
  snapshot _ inner :=
    let (state, sequence) := StateCache.subscribeSimulationUpdates inner
    (state.toList.map fun state => ⟨some state⟩, sequence)
  forwards := fun _ => true
  forward := forwardSimulationUpdates
  snapshot_sequence _ _ := rfl
  forward_eq _ _ := rfl

/-- The subscriber: not there yet, holding a receiver but no snapshot yet, or served by a task.
The task comes with a record of its snapshot and of how many events had been broadcast when the
snapshot was read. -/
inductive Client (M : Type) where
  | absent
  | subscribed (updates : Receiver)
  | forwarding (readAt : Nat) (snapshot : List M) (forwarder : Forwarder M)

/-- `emitted` is everything broadcast so far on either channel, in the order it was sent;
`emitting` is what the write in progress has still to broadcast, empty if there is none. -/
structure System (stream : Stream Fl) where
  inner : Inner Fl := {}
  emitted : List (Event (Message Fl)) := []
  emitting : List (Event (Message Fl)) := []
  client : Client stream.M := .absent

/-- One action of the engine thread, of the subscribing call, of the task or of its client. -/
inductive Action (Fl : Floats) where
  | write (w : Write Fl)
  | send
  | subscribe
  | readSnapshot (order : IterOrder GroupId)
  | forward
  | hangUp

namespace System

variable {stream : Stream Fl}

/-- Everything broadcast so far on the stream's channel. -/
def log (stream : Stream Fl) (emitted : List (Event (Message Fl))) : List (Event stream.M) :=
  channel stream.part emitted

/-- One action.  `none`: the action is not possible now. -/
def step (s : System stream) : Action Fl → Option (System stream)
  | .write w =>
    match s.emitting with
    | [] =>
      -- the maps are nobody's to see before the last broadcast is out and the lock released
      let c := (⟨s.inner, []⟩ : StateCache Fl).write w
      some { s with inner := c.inner, emitting := c.sent }
    | _ :: _ => none
  | .send =>
    match s.emitting with
    | [] => none
    | event :: rest => some { s with emitted := s.emitted ++ [event], emitting := rest }
  | .subscribe =>
    match s.client with
    | .absent => some { s with client := .subscribed (.subscribe (log stream s.emitted)) }
    | _ => none
  | .readSnapshot order =>
    match s.client, s.emitting with
    | .subscribed updates, [] =>
      let (snapshot, snapshotSequence) := stream.snapshot order s.inner
      let task := ⟨snapshotSequence, updates, .snapshot snapshot, []⟩
      some { s with client := .forwarding s.emitted.length snapshot task }
    | _, _ => none
  | .forward =>
    match s.client with
    | .forwarding readAt snapshot f =>
      some { s with
        client := .forwarding readAt snapshot (stream.forward (log stream s.emitted) f) }
    | _ => none
  | .hangUp =>
    match s.client with
    | .forwarding readAt snapshot f => some { s with client := .forwarding readAt snapshot f.hangUp }
    | _ => none

/-- The run of `actions` from `StateCache::new()`. -/
abbrev after (stream : Stream Fl) (actions : List (Action Fl)) : Option (System stream) :=
  run step {} actions

/-- The states of all runs. -/
def Reaches (s : System stream) : Prop := ∃ actions, after stream actions = some s

/-- All that the writes so far broadcast, sent or about to be. -/
def events (s : System stream) : List (Event (Message Fl)) := s.emitted ++ s.emitting

@[simp] theorem log_nil : log stream [] = [] := rfl

theorem log_append (first rest : List (Event (Message Fl))) :
    log stream (first ++ rest) = log stream first ++ log stream rest :=
  List.filterMap_append

/-- **What a step can do.** -/
theorem step_cases {s s' : System stream} {a : Action Fl} (h : step s a = some s') :
    (∃ w, a = .write w ∧ s.emitting = [] ∧
      s' = { s with
        inner := ((⟨s.inner, []⟩ : StateCache Fl).write w).inner
        emitting := ((⟨s.inner, []⟩ : StateCache Fl).write w).sent }) ∨
    (∃ event rest, a = .send ∧ s.emitting = event :: rest ∧
      s' = { s with emitted := s.emitted ++ [event], emitting := rest }) ∨
    (a = .subscribe ∧ s.client = .absent ∧
      s' = { s with client := .subscribed (.subscribe (log stream s.emitted)) }) ∨
    (∃ order updates, a = .readSnapshot order ∧ s.client = .subscribed updates ∧ s.emitting = [] ∧
      s' = { s with
        client := .forwarding s.emitted.length (stream.snapshot order s.inner).1
          ⟨s.inner.sequence, updates, .snapshot (stream.snapshot order s.inner).1, []⟩ }) ∨
    (∃ readAt snapshot f, a = .forward ∧ s.client = .forwarding readAt snapshot f ∧
      s' = { s with
        client := .forwarding readAt snapshot
          (f.step stream.forwards (log stream s.emitted)) }) ∨
    (∃ readAt snapshot f, a = .hangUp ∧ s.client = .forwarding readAt snapshot f ∧
      s' = { s with client := .forwarding readAt snapshot f.hangUp }) := by
  cases a with
  | write w =>
    cases hemitting : s.emitting with
    | nil =>
      simp only [step, hemitting, Option.some.injEq] at h
      exact Or.inl ⟨w, rfl, rfl, h.symm⟩
    | cons event rest => simp [step, hemitting] at h
  | send =>
    cases hemitting : s.emitting with
    | nil => simp [step, hemitting] at h
    | cons event rest =>
      simp only [step, hemitting, Option.some.injEq] at h
      exact Or.inr (Or.inl ⟨event, rest, rfl, rfl, h.symm⟩)
  | subscribe =>
    cases hclient : s.client with
    | absent =>
      simp only [step, hclient, Option.some.injEq] at h
      exact Or.inr (Or.inr (Or.inl ⟨rfl, rfl, h.symm⟩))
    | subscribed updates => simp [step, hclient] at h
    | forwarding readAt snapshot f => simp [step, hclient] at h
  | readSnapshot order =>
    cases hclient : s.client with
    | absent => simp [step, hclient] at h
    | subscribed updates =>
      cases hemitting : s.emitting with
      | nil =>
        simp only [step, hclient, hemitting, stream.snapshot_sequence, Option.some.injEq] at h
        exact Or.inr (Or.inr (Or.inr (Or.inl ⟨order, updates, rfl, rfl, rfl, h.symm⟩)))
      | cons event rest => simp [step, hclient, hemitting] at h
    | forwarding readAt snapshot f => simp [step, hclient] at h
  | forward =>
    cases hclient : s.client with
    | forwarding readAt snapshot f =>
      simp only [step, hclient, stream.forward_eq, Option.some.injEq] at h
      exact Or.inr (Or.inr (Or.inr (Or.inr (Or.inl ⟨readAt, snapshot, f, rfl, rfl, h.symm⟩))))
    | absent => simp [step, hclient] at h
    | subscribed updates => simp [step, hclient] at h
  | hangUp =>
    cases hclient : s.client with
    | forwarding readAt snapshot f =>
      simp only [step, hclient, Option.some.injEq] at h
      exact Or.inr (Or.inr (Or.inr (Or.inr (Or.inr ⟨readAt, snapshot, f, rfl, rfl, h.symm⟩))))
    | absent => simp [step, hclient] at h
    | subscribed updates => simp [step, hclient] at h

/-! ## 2. The sequence numbers are the positions -/

/-- The events of the run carry consecutive numbers from one on, the counter stands at the
last, and the maps are consistent. -/
structure Stamped (s : System stream) : Prop where
  events : s.events = StateCache.stamp 0 (s.events.map Event.response)
  sequence : s.inner.sequence = UInt64.ofNat s.events.length
  consistent : s.inner.Consistent

theorem stamped_init : Stamped ({} : System stream) :=
  ⟨rfl, rfl, Inner.consistent_empty 0⟩

/-- What a write adds to the events. -/
theorem events_write (s : System stream) (w : Write Fl) :
    ((⟨s.inner, []⟩ : StateCache Fl).write w).sent =
      StateCache.stamp s.inner.sequence (w.messages s.inner) := by
  rw [StateCache.write_sent, List.nil_append]

theorem Stamped.step {s s' : System stream} {a : Action Fl} (h : s.Stamped)
    (hstep : step s a = some s') : s'.Stamped := by
  rcases step_cases hstep with ⟨w, _, hidle, rfl⟩ | ⟨event, rest, _, hemitting, rfl⟩ |
    ⟨_, _, rfl⟩ | ⟨order, updates, _, _, _, rfl⟩ | ⟨readAt, snapshot, f, _, _, rfl⟩ |
    ⟨readAt, snapshot, f, _, _, rfl⟩
  · have hevents : s.events = s.emitted := by rw [System.events, hidle, List.append_nil]
    have hstamp := h.events
    have hsequence := h.sequence
    rw [hevents] at hstamp hsequence
    refine ⟨?_, ?_, StateCache.write_consistent h.consistent w⟩
    · simp only [System.events, events_write, List.map_append, StateCache.stamp_append,
        StateCache.stamp_response, List.length_map, UInt64.zero_add]
      rw [← hstamp, hsequence]
    · simp only [System.events, events_write, StateCache.write_inner, List.length_append,
        UInt64.ofNat_add, hsequence, StateCache.length_stamp]
  · have hevents : System.events { s with emitted := s.emitted ++ [event], emitting := rest } =
        s.events := by
      simp [System.events, hemitting]
    exact ⟨by rw [hevents]; exact h.events, by rw [hevents]; exact h.sequence, h.consistent⟩
  · exact ⟨h.events, h.sequence, h.consistent⟩
  · exact ⟨h.events, h.sequence, h.consistent⟩
  · exact ⟨h.events, h.sequence, h.consistent⟩
  · exact ⟨h.events, h.sequence, h.consistent⟩

theorem Reaches.stamped {s : System stream} (h : s.Reaches) : s.Stamped := by
  obtain ⟨actions, hrun⟩ := h
  exact run_invariant (P := Stamped) (fun _ _ _ hstep hs => hs.step hstep) hrun stamped_init

/-- Fewer than 2^64 events: the counter has not wrapped around. -/
def InRange (s : System stream) : Prop := s.events.length < 2 ^ 64

instance (s : System stream) : Decidable s.InRange := inferInstanceAs (Decidable (_ < _))

/-- The number of an event is its position, counted from one. -/
theorem Stamped.sequence_toNat {s : System stream} (h : s.Stamped) (hrange : s.InRange) {i : Nat}
    {e : Event (Message Fl)} (he : s.events[i]? = some e) : e.sequence.toNat = i + 1 := by
  rw [h.events] at he
  refine StateCache.sequence_of_stamp ?_ he
  rw [List.length_map]
  exact hrange

theorem events_of_emitted {s : System stream} {i : Nat} {e : Event (Message Fl)}
    (he : s.emitted[i]? = some e) : s.events[i]? = some e := by
  rw [events, List.getElem?_append_left (List.getElem?_eq_some_iff.mp he).1]
  exact he

/-- **Before the snapshot**: what was broadcast by then is numbered up to the snapshot. -/
theorem Stamped.old {s : System stream} (h : s.Stamped) (hrange : s.InRange) {readAt : Nat}
    {e : Event stream.M} (he : e ∈ log stream (s.emitted.take readAt)) :
    e.sequence.toNat ≤ readAt := by
  obtain ⟨e', he', hpart⟩ := List.mem_filterMap.mp he
  obtain ⟨message, _, rfl⟩ := Option.map_eq_some_iff.mp hpart
  obtain ⟨i, hi, rfl⟩ := List.mem_take_iff_getElem.mp he'
  have hget := h.sequence_toNat hrange
    (events_of_emitted (List.getElem?_eq_getElem (lt_of_lt_of_le hi (min_le_right _ _))))
  have hle := min_le_left readAt s.emitted.length
  dsimp only
  omega

/-- **After the snapshot**: what was broadcast since is numbered above it. -/
theorem Stamped.fresh {s : System stream} (h : s.Stamped) (hrange : s.InRange) {readAt : Nat}
    {e : Event stream.M} (he : e ∈ log stream (s.emitted.drop readAt)) :
    readAt < e.sequence.toNat := by
  obtain ⟨e', he', hpart⟩ := List.mem_filterMap.mp he
  obtain ⟨message, _, rfl⟩ := Option.map_eq_some_iff.mp hpart
  obtain ⟨i, hi, rfl⟩ := List.mem_drop_iff_getElem.mp he'
  have hget := h.sequence_toNat hrange
    (events_of_emitted (List.getElem?_eq_getElem (i := readAt + i) (by omega)))
  dsimp only
  omega

end System

end MinervaServer
