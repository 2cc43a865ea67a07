/-
# A subscriber of the simulation state converges to the cache

The simulation stream is the simpler of the two: there is one value, and each response replaces
what the client shows.  What is not simple is the snapshot.  An absent state sends nothing at
all, while a reset sends an explicit `none`; and the number that tells old events from new ones
is moved by every group event too.

The proof is the one of `Convergence.lean` with another reading of the responses (`shown`): the
snapshot shows the state the cache has (`shown_snapshot`), and the responses of a write take
what is shown along to the state the write leaves (`shown_write`).
-/
import MinervaServer.Convergence
import MinervaServer.Effects

namespace MinervaServer

open Lib

variable {Fl : Floats}

/-! ## 1. What a client shows -/

/-- The state a client shows that showed none and has read `responses`. -/
def shown (responses : List (Proto.SubscribeSimulationUpdatesResponse Fl)) :
    Option (Proto.SimulationStateUpdate Fl) :=
  responses.foldl (fun _ response => response.state) none

/-- The responses on the simulation channel. -/
def simulationResponses (messages : List (Message Fl)) :
    List (Proto.SubscribeSimulationUpdatesResponse Fl) :=
  messages.filterMap Message.asSimulation

theorem simulationResponses_append (first rest : List (Message Fl)) :
    simulationResponses (first ++ rest) = simulationResponses first ++ simulationResponses rest :=
  List.filterMap_append

theorem simulationResponses_changed (id : GroupId) (before now : Option (Proto.Group Fl)) :
    simulationResponses (StateCache.changed id before now) = [] := by
  unfold StateCache.changed
  split <;> rfl

theorem simulationResponses_sideRemoval (previous : Option (Proto.Group Fl))
    (group : Proto.Group Fl) : simulationResponses (StateCache.sideRemoval previous group) = [] := by
  unfold StateCache.sideRemoval
  split <;> rfl

/-- Comparing groups announces nothing about the simulation. -/
theorem simulationResponses_messages (w : Write Fl) (inner : Inner Fl) :
    simulationResponses (w.messages inner) = simulationResponses (w.announcedFirst inner) := by
  have hcompared : simulationResponses ((w.compared inner).flatMap fun id =>
      StateCache.changed id (inner.joinedGroup id) ((w.commit inner).joinedGroup id)) = [] := by
    rw [simulationResponses, List.filterMap_eq_nil_iff]
    intro message hmessage
    obtain ⟨id, _, hchanged⟩ := List.mem_flatMap.mp hmessage
    exact List.filterMap_eq_nil_iff.mp (simulationResponses_changed id _ _) message hchanged
  rw [Write.messages, simulationResponses_append, hcompared, List.append_nil]

/-- The snapshot shows the state there is, by sending nothing if there is none. -/
theorem shown_snapshot (state : Option (Proto.SimulationStateUpdate Fl)) :
    shown (state.toList.map fun state => ⟨some state⟩) = state := by
  cases state <;> rfl

/-- **A write carries the shown state along.**  Whoever shows the state before a write and reads
what it announces shows the state after it: of the writes that announce something only
`set_simulation_state` and `clear` change it. -/
theorem shown_write {inner : Inner Fl} (w : Write Fl)
    {responses : List (Proto.SubscribeSimulationUpdatesResponse Fl)}
    (hshown : shown responses = inner.simulationState) :
    shown (responses ++ simulationResponses (w.messages inner)) =
      (w.commit inner).simulationState := by
  rw [shown] at hshown
  rw [shown, List.foldl_append, hshown, simulationResponses_messages]
  cases w with
  | upsertUnit unit => rw [Write.commit_frame rfl]; rfl
  | removeUnit id => rw [Write.commit_frame rfl]; rfl
  | upsertGroup group => rw [Write.announcedFirst, simulationResponses_sideRemoval]; rfl
  | upsertGroupWithUnits order group units =>
    rw [Write.announcedFirst, simulationResponses_sideRemoval, Write.commit_frame rfl]
    rfl
  | removeGroup id =>
    rw [Write.announcedFirst, Write.commit_frame rfl]
    split <;> rfl
  | setSimulationInfo info => rfl
  | setSimulationState state => rfl
  | setLocations locations => rfl
  | clear order =>
    have hgroups : simulationResponses ((order.arrange inner.groups.keys).map fun id =>
        (.group (groupRemoved id.str) : Message Fl)) = [] := by
      rw [simulationResponses, List.filterMap_map, List.filterMap_eq_nil_iff]
      intro id _
      rfl
    rw [Write.announcedFirst, simulationResponses_append, hgroups]
    rfl

/-! ## 2. Convergence -/

namespace System

/-- The state a client shows that has read the items of the simulation stream. -/
def clientState (items : List (Except Status (Proto.SubscribeSimulationUpdatesResponse Fl))) :
    Option (Proto.SimulationStateUpdate Fl) :=
  shown (received items)

theorem Reaches.shows {s : System (simulationStream : Stream Fl)} (h : s.Reaches) :
    s.Describes fun responses inner => shown responses = inner.simulationState := by
  refine h.describes (fun {inner} _ _ => shown_snapshot inner.simulationState)
    fun {inner responses} _ w hshown => ?_
  have hall : ((w.messages inner).filterMap Message.asSimulation).filter (fun _ => true) =
      simulationResponses (w.messages inner) := List.filter_eq_self.mpr fun _ _ => rfl
  rw [StateCache.write_inner]
  exact (congrArg shown (congrArg (List.append responses) hall)).trans (shown_write w hshown)

/-- **A simulation subscriber converges.**  In every run that broadcasts fewer than 2^64 events,
on either channel, whenever nothing is under way the client shows the cache's simulation state,
which may be none. -/
theorem simulation_subscriber_converges (actions : List (Action Fl)) (s : System simulationStream)
    (hrun : after simulationStream actions = some s) (hrange : s.InRange)
    (snapshot : List (Proto.SubscribeSimulationUpdatesResponse Fl))
    (f : Forwarder (Proto.SubscribeSimulationUpdatesResponse Fl)) (hquiet : s.Quiet snapshot f) :
    clientState f.sent = (⟨s.inner, s.emitted⟩ : StateCache Fl).simulationState := by
  have hreaches : s.Reaches := ⟨actions, hrun⟩
  obtain ⟨readAt, hclient, hsent⟩ := hquiet.sent_eq hreaches hrange
  obtain ⟨_, hshown⟩ := hreaches.shows readAt snapshot f hclient
  have hitems : f.sent = (snapshot ++ Forwarder.due (fun _ => true)
      (StateCache.simulationUpdates (s.events.drop readAt))).map .ok := hsent
  rw [clientState, hitems, received_map_ok]
  exact hshown

/-- A reset between the receiver and the snapshot, then a group and a new state. -/
def resetting : List (Action Floats.bits) :=
  [.write (.setSimulationState (.sample 1)), .send, .subscribe, .write (.clear .ascending), .send,
    .readSnapshot .ascending, .forward, .write (.upsertGroup (.sample "A" .blufor)), .send,
    .write (.setSimulationState (.sample 2)), .send, .forward, .forward, .forward]

theorem simulation_subscriber_converges_sample :
    ∃ s snapshot f, after simulationStream resetting = some s ∧ s.Quiet snapshot f ∧
      clientState f.sent = (⟨s.inner, s.emitted⟩ : StateCache Floats.bits).simulationState := by
  refine ⟨_, _, _, rfl, ⟨⟨_, rfl⟩, rfl, rfl, rfl⟩, ?_⟩
  exact simulation_subscriber_converges resetting _ rfl (by decide) _ _
    ⟨⟨_, rfl⟩, rfl, rfl, rfl⟩

/-! ## 3. When the counter wraps around -/

/-- 2^64 - 2 events and a reset, the event with the last sequence number there is; then a
subscriber comes and reads its snapshot, which is empty; the state is set, with the number 0;
and the task reads that event. -/
def outdating : List (Action Floats.bits) :=
  busy (2 ^ 64 - 2) ++ [.write (.clear .ascending), .send, .subscribe, .readSnapshot .ascending,
    .write (.setSimulationState (.sample 0)), .send, .forward, .forward]

/-- A task at the end of its channel discards an event numbered 0. -/
theorem forward_discards {M : Type} (log : List (Event M)) (message : M) (sequence : UInt64) :
    let log' : List (Event M) := log ++ [⟨0, message⟩]
    (⟨sequence, ⟨log.length⟩, .awaiting, []⟩ : Forwarder M).step (fun _ => true) log' =
      ⟨sequence, ⟨log'.length⟩, .awaiting, []⟩ := by
  intro log'
  have hfits : ¬ Receiver.Overrun broadcastCapacity log' ⟨log.length⟩ := by
    simp [log', Receiver.Overrun, broadcastCapacity]
  have hrecv : (⟨log.length⟩ : Receiver).recv broadcastCapacity log' =
      (.ok ⟨0, message⟩, ⟨log'.length⟩) := by
    rw [Receiver.recv, if_neg hfits]
    simp [log']
  simp [Forwarder.step, hrecv]

/-- Where that run ends: the task has read all there is and has sent nothing. -/
theorem after_outdating : ∃ emitted readAt, after simulationStream outdating =
    some ⟨{ simulationState := some (.sample 0), sequence := 0 }, emitted, [],
      .forwarding readAt [] ⟨18446744073709551615, ⟨(log simulationStream emitted).length⟩,
        .awaiting, []⟩⟩ := by
  obtain ⟨state, emitted, -, -, -, hbusy⟩ := run_busy simulationStream (2 ^ 64 - 2) none 0 [] .absent
  let reset : Event (Message Floats.bits) := ⟨18446744073709551615, .simulation ⟨none⟩⟩
  let wrapped : Event (Message Floats.bits) := ⟨0, .simulation ⟨some (.sample 0)⟩⟩
  have hlog : log simulationStream (emitted ++ [reset] ++ [wrapped]) =
      log simulationStream (emitted ++ [reset]) ++ [⟨0, ⟨some (.sample 0)⟩⟩] := by
    rw [log_append]
    rfl
  refine ⟨emitted ++ [reset] ++ [wrapped], (emitted ++ [reset]).length,
    run_append.mpr ⟨_, hbusy, ?_⟩⟩
  rw [show (0 : UInt64) + UInt64.ofNat (2 ^ 64 - 2) = 18446744073709551614 by decide]
  have hreset : step (⟨{ simulationState := state, sequence := 18446744073709551614 }, emitted, [],
        .absent⟩ : System simulationStream) (.write (.clear .ascending)) =
      some ⟨{ sequence := 18446744073709551615 }, emitted, [reset], .absent⟩ := rfl
  have hforward : ∀ f, step (⟨{ simulationState := some (.sample 0), sequence := 0 },
        emitted ++ [reset] ++ [wrapped], [], .forwarding (emitted ++ [reset]).length [] f⟩ :
          System simulationStream) .forward =
      some ⟨{ simulationState := some (.sample 0), sequence := 0 }, emitted ++ [reset] ++ [wrapped],
        [], .forwarding (emitted ++ [reset]).length [] (f.step (fun _ => true)
          (log simulationStream (emitted ++ [reset]) ++ [⟨0, ⟨some (.sample 0)⟩⟩]))⟩ := by
    intro f
    rw [← hlog]
    rfl
  -- the task that is spawned with the empty snapshot
  let spawned : Forwarder (simulationStream : Stream Floats.bits).M :=
    ⟨18446744073709551615, ⟨(log simulationStream (emitted ++ [reset])).length⟩, .snapshot [], []⟩
  have hspawned : run step (⟨{ sequence := 18446744073709551615 }, emitted, [reset], .absent⟩ :
        System simulationStream) [.send, .subscribe, .readSnapshot .ascending] =
      some ⟨{ sequence := 18446744073709551615 }, emitted ++ [reset], [],
        .forwarding (emitted ++ [reset]).length [] spawned⟩ := rfl
  have hset : ∀ sequence, run step (⟨{ sequence }, emitted ++ [reset], [],
        .forwarding (emitted ++ [reset]).length [] spawned⟩ : System simulationStream)
        [.write (.setSimulationState (.sample 0)), .send] =
      some ⟨{ simulationState := some (.sample 0), sequence := sequence + 1 },
        emitted ++ [reset] ++ [⟨sequence + 1, .simulation ⟨some (.sample 0)⟩⟩], [],
        .forwarding (emitted ++ [reset]).length [] spawned⟩ := fun _ => rfl
  have hset := hset 18446744073709551615
  rw [show (18446744073709551615 : UInt64) + 1 = 0 by decide] at hset
  rw [run_cons, hreset, Option.bind_some]
  refine run_append.mpr ⟨_, hspawned, run_append.mpr ⟨_, hset, ?_⟩⟩
  rw [run_cons, hforward, Option.bind_some, run_cons, hforward, Option.bind_some, run_nil, hlog]
  exact congrArg (fun f => some (System.mk _ _ _ (.forwarding _ _ f))) (forward_discards _ _ _)

/-- **Convergence fails when the counter wraps around.**  The client shows no state, the cache
has one, and nothing is under way. -/
theorem simulation_convergence_fails_on_wraparound :
    ∃ s snapshot f, after simulationStream outdating = some s ∧ s.Quiet snapshot f ∧
      clientState f.sent ≠ (⟨s.inner, s.emitted⟩ : StateCache Floats.bits).simulationState := by
  obtain ⟨emitted, readAt, hrun⟩ := after_outdating
  refine ⟨_, _, _, hrun, ⟨⟨_, rfl⟩, rfl, rfl, rfl⟩, ?_⟩
  intro hshown
  cases hshown

end System

end MinervaServer
