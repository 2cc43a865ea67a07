/-
# The two forwarding tasks

`src/services/group.rs` and `src/services/simulation.rs`: `forward_group_updates` and
`forward_simulation_updates`.  Each serves one subscriber.  It sends the snapshot item by item,
then loops: receive an event from the broadcast channel, discard it if the snapshot already
reflects it, and send it on; a receiver that lagged makes it send one aborted status and return.

The two are the same task but for the filter (`forwards`), so they are one `Forwarder` and two
instances.  A task runs from one `await` to the next, and a `Phase` is an `await` it is parked
at.  `tx.send` may wait as long as it likes for room in the client's channel, so sending is a
phase of its own; what the client does with the items is not the task's business.

`Accounts` is the ledger of a task: what it has sent and what it holds in its hands are the
snapshot and the events it has read since, with none missing and none repeated.
-/
import MinervaServer.State
import MinervaServer.Lib.Broadcast

namespace MinervaServer

open Lib

/-! ## 1. The task -/

/-- The codes of `tonic::Status` that the services return. -/
inductive Code where
  | invalidArgument
  | notFound
  | aborted
  | unavailable
  deriving DecidableEq, Repr

structure Status where
  code : Code
  message : String
  deriving DecidableEq, Repr

/-- The status a lagged subscriber is sent. -/
def Status.lagged : Status := ⟨.aborted, "subscriber lagged; resubscribe"⟩

/-- Where a task waits: sending the rest of the snapshot, at the `select!`, sending an event,
sending the aborted status, or no more. -/
inductive Phase (M : Type) where
  | snapshot (rest : List M)
  | awaiting
  | sending (message : M)
  | aborting
  | returned
  deriving DecidableEq

/-- A forwarding task: its arguments, its receiver, where it waits, and what it has sent. -/
structure Forwarder (M : Type) where
  snapshotSequence : UInt64
  updates : Receiver
  phase : Phase M
  sent : List (Except Status M) := []

namespace Forwarder

variable {M : Type}

/-- One step of the task, to its next `await`.  `log` is everything broadcast on its channel. -/
def step (forwards : M → Bool) (log : List (Event M)) (f : Forwarder M) : Forwarder M :=
  match f.phase with
  | .snapshot [] => { f with phase := .awaiting }
  | .snapshot (message :: rest) =>
    { f with sent := f.sent ++ [.ok message], phase := .snapshot rest }
  | .awaiting =>
    match f.updates.recv broadcastCapacity log with
    | (.ok event, updates) =>
      -- already reflected in the snapshot, or not for this subscriber: `continue`
      if event.sequence ≤ f.snapshotSequence then { f with updates }
      else if forwards event.response then { f with updates, phase := .sending event.response }
      else { f with updates }
    | (.lagged _, updates) => { f with updates, phase := .aborting }
    | (.empty, _) => f
  | .sending message => { f with sent := f.sent ++ [.ok message], phase := .awaiting }
  | .aborting => { f with sent := f.sent ++ [.error .lagged], phase := .returned }
  | .returned => f

/-- The task returns without sending anything more: its client went away (`tx.closed()`, or a
`tx.send` that fails), or the cache was dropped (`RecvError::Closed`). -/
def hangUp (f : Forwarder M) : Forwarder M := { f with phase := .returned }

end Forwarder

variable {Fl : Floats}

/-- The filter of `forward_group_updates`: a removal can't carry a side, so it is forwarded
unconditionally. -/
def matchesUpdate (side : Option Proto.Side)
    (update : Proto.SubscribeGroupUpdatesResponse Fl) : Bool :=
  match update.event with
  | some (.upserted group) => StateCache.matchesSide side group.side
  | some (.removedId _) => true
  | none => true

@[simp] theorem matchesUpdate_groupUpserted (side : Option Proto.Side) (group : Proto.Group Fl) :
    matchesUpdate side (groupUpserted group) = StateCache.matchesSide side group.side := rfl

@[simp] theorem matchesUpdate_groupRemoved (side : Option Proto.Side) (id : String) :
    matchesUpdate side (groupRemoved id : Proto.SubscribeGroupUpdatesResponse Fl) = true := rfl

/-- `forward_group_updates`. -/
def forwardGroupUpdates (side : Option Proto.Side) (log : List (GroupEvent Fl)) :
    Forwarder (Proto.SubscribeGroupUpdatesResponse Fl) →
      Forwarder (Proto.SubscribeGroupUpdatesResponse Fl) :=
  Forwarder.step (matchesUpdate side) log

/-- `forward_simulation_updates`: every event is forwarded. -/
def forwardSimulationUpdates (log : List (SimulationEvent Fl)) :
    Forwarder (Proto.SubscribeSimulationUpdatesResponse Fl) →
      Forwarder (Proto.SubscribeSimulationUpdatesResponse Fl) :=
  Forwarder.step (fun _ => true) log

/-! ## 2. The ledger -/

namespace Forwarder

variable {M : Type}

/-- What the task has taken and not yet sent. -/
def inHand (f : Forwarder M) : List M :=
  match f.phase with
  | .snapshot rest => rest
  | .sending message => [message]
  | _ => []

/-- The responses a subscriber is due for `events`: those that pass the filter. -/
def due (forwards : M → Bool) (events : List (Event M)) : List M :=
  (events.map Event.response).filter forwards

theorem due_append (forwards : M → Bool) (first rest : List (Event M)) :
    due forwards (first ++ rest) = due forwards first ++ due forwards rest := by
  simp [due]

/-- What a subscriber has been owed by the time the task has read `n` of the events `post`. -/
def owed (forwards : M → Bool) (post : List (Event M)) (snapshot : List M) (n : Nat) :
    List (Except Status M) :=
  (snapshot ++ due forwards (post.take n)).map .ok

/-- **The ledger of a task.**  `pre` is what its channel carried before the snapshot was read,
`post` what it carried since. -/
structure Accounts (forwards : M → Bool) (pre post : List (Event M)) (snapshot : List M)
    (f : Forwarder M) : Prop where
  next_le : f.updates.next ≤ pre.length + post.length
  /-- Sent and in hand make up what is owed, up to the event the receiver is at. -/
  serving : f.phase ≠ .aborting → f.phase ≠ .returned →
    f.sent ++ f.inHand.map .ok = owed forwards post snapshot (f.updates.next - pre.length)
  aborting : f.phase = .aborting →
    ∃ n ≤ post.length, f.sent = owed forwards post snapshot n
  returned : f.phase = .returned → ∃ n ≤ post.length,
    f.sent <+: owed forwards post snapshot n ∨
    f.sent = owed forwards post snapshot n ++ [.error .lagged]

variable {forwards : M → Bool} {pre post : List (Event M)} {snapshot : List M} {f : Forwarder M}

/-- A task never changes the sequence number of its snapshot. -/
theorem step_snapshotSequence (log : List (Event M)) (f : Forwarder M) :
    (f.step forwards log).snapshotSequence = f.snapshotSequence := by
  unfold Forwarder.step
  split
  · rfl
  · rfl
  · split
    · split
      · rfl
      · split <;> rfl
    · rfl
    · rfl
  · rfl
  · rfl
  · rfl

theorem owed_succ {n : Nat} {event : Event M} (h : post[n]? = some event) :
    owed forwards post snapshot (n + 1) =
      owed forwards post snapshot n ++ ([event.response].filter forwards).map .ok := by
  have htake : post.take (n + 1) = post.take n ++ [event] := by
    rw [List.take_add_one, h]
    rfl
  simp [owed, htake, due]

/-- Events broadcast later do not change what was owed. -/
theorem owed_append {n : Nat} (h : n ≤ post.length) (more : List (Event M)) :
    owed forwards (post ++ more) snapshot n = owed forwards post snapshot n := by
  rw [owed, owed, List.take_append_of_le_length h]

theorem Accounts.append (h : Accounts forwards pre post snapshot f) (more : List (Event M)) :
    Accounts forwards pre (post ++ more) snapshot f := by
  have hle : post.length ≤ (post ++ more).length := by simp
  refine ⟨?_, fun ha hr => ?_, fun ha => ?_, fun hr => ?_⟩
  · exact h.next_le.trans (Nat.add_le_add_left hle _)
  · rw [owed_append (by have := h.next_le; omega)]
    exact h.serving ha hr
  · obtain ⟨n, hn, hsent⟩ := h.aborting ha
    exact ⟨n, hn.trans hle, by rw [owed_append hn]; exact hsent⟩
  · obtain ⟨n, hn, hsent⟩ := h.returned hr
    exact ⟨n, hn.trans hle, by rw [owed_append hn]; exact hsent⟩

theorem Accounts.hangUp (h : Accounts forwards pre post snapshot f) :
    Accounts forwards pre post snapshot f.hangUp := by
  refine ⟨h.next_le, fun _ hr => absurd rfl hr, nofun, fun _ => ?_⟩
  by_cases hr : f.phase = .returned
  · exact h.returned hr
  · by_cases ha : f.phase = .aborting
    · obtain ⟨n, hn, hsent⟩ := h.aborting ha
      exact ⟨n, hn, Or.inl (hsent ▸ List.prefix_refl _)⟩
    · have hserving := h.serving ha hr
      exact ⟨_, by have := h.next_le; omega, Or.inl ⟨_, hserving⟩⟩

/-- **A step keeps the ledger**, as long as the sequence numbers tell `pre` from `post`. -/
theorem Accounts.step (h : Accounts forwards pre post snapshot f)
    (hold : ∀ e ∈ pre, e.sequence ≤ f.snapshotSequence)
    (hnew : ∀ e ∈ post, ¬ e.sequence ≤ f.snapshotSequence) :
    Accounts forwards pre post snapshot (f.step forwards (pre ++ post)) := by
  have hnext := h.next_le
  have hserving := h.serving
  unfold Forwarder.step
  cases hphase : f.phase with
  | snapshot rest =>
    simp only [hphase, inHand, ne_eq, reduceCtorEq, not_false_eq_true, forall_const] at hserving
    cases rest with
    | nil => exact ⟨hnext, fun _ _ => hserving, nofun, nofun⟩
    | cons message rest =>
      refine ⟨hnext, fun _ _ => ?_, nofun, nofun⟩
      simpa [inHand] using hserving
  | awaiting =>
    simp only [hphase, inHand, ne_eq, reduceCtorEq, not_false_eq_true, forall_const, List.map_nil,
      List.append_nil] at hserving
    dsimp only
    rcases Receiver.recv_cases broadcastCapacity (pre ++ post) f.updates with
      ⟨_, missed, hrecv⟩ | ⟨event, hevent, hrecv⟩ | ⟨_, hrecv⟩
    · rw [hrecv]
      refine ⟨?_, fun ha => absurd rfl ha, fun _ => ?_, nofun⟩
      · simp only [List.length_append]
        omega
      · exact ⟨f.updates.next - pre.length, by omega, hserving⟩
    · rw [hrecv]
      have hlt : f.updates.next < pre.length + post.length := by
        have hlt := (List.getElem?_eq_some_iff.mp hevent).1
        rwa [List.length_append] at hlt
      by_cases hpre : f.updates.next < pre.length
      · -- an event from before the snapshot was read
        rw [List.getElem?_append_left hpre] at hevent
        simp only [if_pos (hold event (List.mem_of_getElem? hevent))]
        refine ⟨hlt, fun _ _ => ?_, nofun, nofun⟩
        have hread : f.updates.next + 1 - pre.length = f.updates.next - pre.length := by omega
        simpa only [inHand, List.map_nil, List.append_nil, hread] using hserving
      · -- an event from after it
        rw [List.getElem?_append_right (by omega)] at hevent
        simp only [if_neg (hnew event (List.mem_of_getElem? hevent))]
        have hread : f.updates.next + 1 - pre.length = f.updates.next - pre.length + 1 := by omega
        have howed : owed forwards post snapshot _ = _ := owed_succ hevent
        split
        · rename_i hforward
          refine ⟨hlt, fun _ _ => ?_, nofun, nofun⟩
          simp only [inHand, hread, howed, List.filter_cons_of_pos hforward, List.filter_nil,
            hserving]
        · rename_i hforward
          refine ⟨hlt, fun _ _ => ?_, nofun, nofun⟩
          simp only [inHand, hread, howed, List.filter_cons_of_neg hforward, List.filter_nil,
            hserving]
    · rw [hrecv]
      exact h
  | sending message =>
    simp only [hphase, inHand, ne_eq, reduceCtorEq, not_false_eq_true, forall_const] at hserving
    refine ⟨hnext, fun _ _ => ?_, nofun, nofun⟩
    simpa [inHand] using hserving
  | aborting =>
    obtain ⟨n, hn, hsent⟩ := h.aborting hphase
    exact ⟨hnext, fun _ hr => absurd rfl hr, nofun,
      fun _ => ⟨n, hn, Or.inr (by rw [hsent])⟩⟩
  | returned => exact h

/-- **What the ledger says of the items sent after the snapshot**: a prefix of what is due,
followed at most by the aborted status. -/
theorem Accounts.sent_after_snapshot (h : Accounts forwards pre post snapshot f) :
    ∃ p, p <+: due forwards post ∧
      (f.sent.drop snapshot.length = p.map .ok ∨
        f.sent.drop snapshot.length = p.map .ok ++ [.error .lagged]) := by
  have hdrop : ∀ n, (owed forwards post snapshot n).drop snapshot.length =
      (due forwards (post.take n)).map .ok := by
    intro n
    rw [owed, List.map_append, List.drop_left' (List.length_map _)]
  have hdue : ∀ n, due forwards (post.take n) <+: due forwards post := by
    intro n
    refine ⟨due forwards (post.drop n), ?_⟩
    rw [← due_append, List.take_append_drop]
  -- a prefix of what is owed, past the snapshot
  have hprefix : ∀ n, f.sent <+: owed forwards post snapshot n →
      ∃ p, p <+: due forwards post ∧ f.sent.drop snapshot.length = p.map .ok := by
    intro n hsent
    have hsent := hsent.drop snapshot.length
    rw [hdrop] at hsent
    obtain ⟨p, hp, heq⟩ := List.prefix_map_iff.mp hsent
    exact ⟨p, hp.trans (hdue n), heq⟩
  by_cases hr : f.phase = .returned
  · obtain ⟨n, _, hsent | hsent⟩ := h.returned hr
    · obtain ⟨p, hp, heq⟩ := hprefix n hsent
      exact ⟨p, hp, Or.inl heq⟩
    · refine ⟨_, hdue n, Or.inr ?_⟩
      rw [hsent, List.drop_append_of_le_length, hdrop]
      simp [owed]
  · have hsent : ∃ n, f.sent <+: owed forwards post snapshot n := by
      by_cases ha : f.phase = .aborting
      · obtain ⟨n, _, hsent⟩ := h.aborting ha
        exact ⟨n, hsent ▸ List.prefix_refl _⟩
      · exact ⟨_, _, h.serving ha hr⟩
    obtain ⟨n, hsent⟩ := hsent
    obtain ⟨p, hp, heq⟩ := hprefix n hsent
    exact ⟨p, hp, Or.inl heq⟩

/-! ## 3. After an overrun -/

/-- The task is going to send `final`, and less only if it is hung up: what it holds, and then the
aborted status. -/
structure Doomed (log : List (Event M)) (final : List (Except Status M)) (f : Forwarder M) :
    Prop where
  serving : f.phase ≠ .aborting → f.phase ≠ .returned →
    f.updates.Overrun broadcastCapacity log ∧ f.sent ++ f.inHand.map .ok ++ [.error .lagged] = final
  aborting : f.phase = .aborting → f.sent ++ [.error .lagged] = final
  returned : f.phase = .returned → f.sent <+: final

variable {log : List (Event M)} {final : List (Except Status M)}

theorem Doomed.append (h : Doomed log final f) (more : List (Event M)) :
    Doomed (log ++ more) final f :=
  ⟨fun ha hr => ⟨(h.serving ha hr).1.append more, (h.serving ha hr).2⟩, h.aborting, h.returned⟩

/-- Whatever a doomed task has sent is the beginning of `final`. -/
theorem Doomed.sent_prefix (h : Doomed log final f) : f.sent <+: final := by
  by_cases hr : f.phase = .returned
  · exact h.returned hr
  · by_cases ha : f.phase = .aborting
    · exact ⟨_, h.aborting ha⟩
    · obtain ⟨_, hfinal⟩ := h.serving ha hr
      rw [List.append_assoc] at hfinal
      exact ⟨_, hfinal⟩

theorem Doomed.hangUp (h : Doomed log final f) : Doomed log final f.hangUp :=
  ⟨fun _ hr => absurd rfl hr, nofun, fun _ => h.sent_prefix⟩

theorem Doomed.step (h : Doomed log final f) : Doomed log final (f.step forwards log) := by
  have hserving := h.serving
  unfold Forwarder.step
  cases hphase : f.phase with
  | snapshot rest =>
    simp only [hphase, inHand, ne_eq, reduceCtorEq, not_false_eq_true, forall_const] at hserving
    cases rest with
    | nil => exact ⟨fun _ _ => hserving, nofun, nofun⟩
    | cons message rest =>
      refine ⟨fun _ _ => ⟨hserving.1, ?_⟩, nofun, nofun⟩
      simpa [inHand] using hserving.2
  | awaiting =>
    simp only [hphase, inHand, ne_eq, reduceCtorEq, not_false_eq_true, forall_const, List.map_nil,
      List.append_nil] at hserving
    dsimp only
    rw [Receiver.recv_of_overrun hserving.1]
    exact ⟨fun ha => absurd rfl ha, fun _ => hserving.2, nofun⟩
  | sending message =>
    simp only [hphase, inHand, ne_eq, reduceCtorEq, not_false_eq_true, forall_const] at hserving
    refine ⟨fun _ _ => ⟨hserving.1, ?_⟩, nofun, nofun⟩
    simpa [inHand] using hserving.2
  | aborting =>
    refine ⟨fun _ hr => absurd rfl hr, nofun, fun _ => ?_⟩
    rw [← h.aborting hphase]
  | returned => exact h

/-- A doomed task that comes to its end by itself has sent all of `final`. -/
theorem Doomed.sent_of_step (h : Doomed log final f) (hended : f.phase = .returned → f.sent = final)
    (hreturned : (f.step forwards log).phase = .returned) :
    (f.step forwards log).sent = final := by
  unfold Forwarder.step at hreturned ⊢
  cases hphase : f.phase with
  | snapshot rest => cases rest <;> simp [hphase] at hreturned
  | awaiting =>
    obtain ⟨hoverrun, -⟩ := h.serving (by simp [hphase]) (by simp [hphase])
    simp [hphase, Receiver.recv_of_overrun hoverrun] at hreturned
  | sending message => simp [hphase] at hreturned
  | aborting => exact h.aborting hphase
  | returned => exact hended hphase

/-- The steps a doomed task has to go. -/
def stepsToEnd (f : Forwarder M) : Nat :=
  match f.phase with
  | .snapshot rest => rest.length + 3
  | .awaiting => 2
  | .sending _ => 3
  | .aborting => 1
  | .returned => 0

theorem stepsToEnd_le (f : Forwarder M) : f.stepsToEnd ≤ f.inHand.length + 3 := by
  unfold stepsToEnd inHand
  cases f.phase <;> simp

theorem returned_of_stepsToEnd (h : f.stepsToEnd = 0) : f.phase = .returned := by
  unfold stepsToEnd at h
  cases hphase : f.phase <;> simp [hphase] at h ⊢

theorem Doomed.stepsToEnd_step (h : Doomed log final f) :
    (f.step forwards log).stepsToEnd = f.stepsToEnd - 1 := by
  unfold Forwarder.step
  cases hphase : f.phase with
  | snapshot rest => cases rest <;> simp [stepsToEnd, hphase]
  | awaiting =>
    obtain ⟨hoverrun, -⟩ := h.serving (by simp [hphase]) (by simp [hphase])
    simp [stepsToEnd, hphase, Receiver.recv_of_overrun hoverrun]
  | sending message => simp [stepsToEnd, hphase]
  | aborting => simp [stepsToEnd, hphase]
  | returned => simp [stepsToEnd, hphase]

/-- **A doomed task returns** after so many steps, and has then sent `final`. -/
theorem Doomed.returns (h : Doomed log final f) (hended : f.phase = .returned → f.sent = final) :
    ((Forwarder.step forwards log)^[f.stepsToEnd] f).phase = .returned ∧
      ((Forwarder.step forwards log)^[f.stepsToEnd] f).sent = final := by
  induction hsteps : f.stepsToEnd generalizing f with
  | zero => exact ⟨returned_of_stepsToEnd hsteps, hended (returned_of_stepsToEnd hsteps)⟩
  | succ n ih =>
    rw [Function.iterate_succ_apply]
    refine ih h.step (fun hreturned => h.sent_of_step hended hreturned) ?_
    rw [h.stepsToEnd_step, hsteps, Nat.add_sub_cancel]

/-- A task turns to aborting when its receiver is overrun, and not otherwise. -/
theorem step_aborted
    (h : (f.step forwards log).phase = .aborting ∨ .error .lagged ∈ (f.step forwards log).sent) :
    (f.phase = .aborting ∨ .error .lagged ∈ f.sent) ∨
      f.updates.Overrun broadcastCapacity log := by
  unfold Forwarder.step at h
  cases hphase : f.phase with
  | snapshot rest => cases rest <;> simp_all
  | awaiting =>
    simp only [hphase] at h
    rcases Receiver.recv_cases broadcastCapacity log f.updates with
      ⟨hoverrun, _⟩ | ⟨event, _, hrecv⟩ | ⟨_, hrecv⟩
    · exact Or.inr hoverrun
    · rw [hrecv] at h
      refine Or.inl (Or.inr ?_)
      dsimp only at h
      split at h
      · simpa [hphase] using h
      · split at h <;> simpa [hphase] using h
    · rw [hrecv] at h
      exact Or.inl (Or.inr (by simpa [hphase] using h))
  | sending message => simp_all
  | aborting => exact Or.inl (Or.inl rfl)
  | returned => simp_all

end Forwarder

end MinervaServer
