/-
# Exact delivery, or an abort

What one subscriber is sent, over every run of the system.

* `exact_delivery_or_abort`: after the snapshot come the events broadcast since it was read, in
  order, none missing, none repeated and none from before, as far as the task has got; and once
  the buffer has dropped an event the receiver had not read, the task sends what it holds, then
  the aborted status, and nothing after it: never more than that, and all of it unless it is
  hung up on the way.

Both rest on the ledger of the task (`Forwarder.Accounts`, `Forwarder.Doomed`); this file keeps
it through the steps of everybody else.  The first holds as long as the sequence counter has not
wrapped around, and `delivery_fails_on_wraparound` is a run that shows it must not.
-/
import MinervaServer.Subscription

namespace MinervaServer.System

open Lib Forwarder

variable {Fl : Floats} {stream : Stream Fl}

/-! ## 1. The ledger over a run -/

/-- Events are never taken back, so a counter in range now was in range before. -/
theorem inRange_of_step {s s' : System stream} {a : Action Fl} (hstep : step s a = some s')
    (h : s'.InRange) : s.InRange := by
  unfold InRange at *
  refine lt_of_le_of_lt ?_ h
  rcases step_cases hstep with ⟨w, _, hidle, rfl⟩ | ⟨event, rest, _, hemitting, rfl⟩ |
    ⟨_, _, rfl⟩ | ⟨order, updates, _, _, _, rfl⟩ | ⟨readAt, snapshot, f, _, _, rfl⟩ |
    ⟨readAt, snapshot, f, _, _, rfl⟩
  · simp [events, hidle]
  · simp [events, hemitting]
  all_goals exact le_refl _

/-- A subscriber's books: its receiver is not ahead of the channel, its snapshot's number counts
the events before the snapshot, and its task's ledger is right. -/
structure Served (s : System stream) : Prop where
  subscribed : ∀ updates, s.client = .subscribed updates →
    updates.next ≤ (log stream s.emitted).length
  forwarding : ∀ readAt snapshot f, s.client = .forwarding readAt snapshot f →
    readAt ≤ s.emitted.length ∧ f.snapshotSequence = UInt64.ofNat readAt ∧
      Accounts stream.forwards (log stream (s.emitted.take readAt))
        (log stream (s.emitted.drop readAt)) snapshot f

theorem served_init : Served ({} : System stream) := ⟨nofun, nofun⟩

/-- The channel, cut where the snapshot was read. -/
theorem log_cut (emitted : List (Event (Message Fl))) (readAt : Nat) :
    log stream emitted = log stream (emitted.take readAt) ++ log stream (emitted.drop readAt) := by
  rw [← log_append, List.take_append_drop]

theorem Served.step {s s' : System stream} {a : Action Fl} (h : s.Served) (hstamped : s.Stamped)
    (hrange : s.InRange) (hstep : step s a = some s') : s'.Served := by
  rcases step_cases hstep with ⟨w, _, hidle, rfl⟩ | ⟨event, rest, _, hemitting, rfl⟩ |
    ⟨_, _, rfl⟩ | ⟨order, updates, _, hclient, hidle, rfl⟩ | ⟨readAt, snapshot, f, _, hclient, rfl⟩ |
    ⟨readAt, snapshot, f, _, hclient, rfl⟩
  · exact ⟨h.subscribed, h.forwarding⟩
  · refine ⟨fun updates hclient => ?_, fun readAt snapshot f hclient => ?_⟩
    · have hle := h.subscribed updates hclient
      rw [log_append, List.length_append]
      omega
    · obtain ⟨hle, hsequence, haccounts⟩ := h.forwarding readAt snapshot f hclient
      refine ⟨by rw [List.length_append]; omega, hsequence, ?_⟩
      rw [List.take_append_of_le_length hle, List.drop_append_of_le_length hle, log_append]
      exact haccounts.append _
  · refine ⟨fun updates hclient => ?_, by simp⟩
    obtain rfl := Client.subscribed.inj hclient
    exact le_refl _
  · refine ⟨by simp, fun readAt snapshot f hforwarding => ?_⟩
    obtain ⟨rfl, rfl, rfl⟩ := Client.forwarding.inj hforwarding
    have hevents : s.events = s.emitted := by rw [events, hidle, List.append_nil]
    have hnext := h.subscribed updates hclient
    refine ⟨le_refl _, by rw [hstamped.sequence, hevents], ?_⟩
    rw [List.take_length, List.drop_length]
    refine ⟨hnext, fun _ _ => ?_, by simp, by simp⟩
    simp [inHand, owed, due]
  · refine ⟨by simp, fun readAt' snapshot' f' hforwarding => ?_⟩
    obtain ⟨rfl, rfl, rfl⟩ := Client.forwarding.inj hforwarding
    obtain ⟨hle, hsequence, haccounts⟩ := h.forwarding _ _ _ hclient
    have hnumber : f.snapshotSequence.toNat = readAt := by
      rw [hsequence, UInt64.toNat_ofNat']
      refine Nat.mod_eq_of_lt (lt_of_le_of_lt hle (lt_of_le_of_lt ?_ hrange))
      simp [events]
    refine ⟨hle, by rw [step_snapshotSequence]; exact hsequence, ?_⟩
    rw [log_cut s.emitted readAt]
    refine haccounts.step (fun e he => ?_) (fun e he => ?_)
    · rw [UInt64.le_iff_toNat_le, hnumber]
      exact hstamped.old hrange he
    · rw [UInt64.le_iff_toNat_le, hnumber, not_le]
      exact hstamped.fresh hrange he
  · refine ⟨by simp, fun readAt' snapshot' f' hforwarding => ?_⟩
    obtain ⟨rfl, rfl, rfl⟩ := Client.forwarding.inj hforwarding
    obtain ⟨hle, hsequence, haccounts⟩ := h.forwarding _ _ _ hclient
    exact ⟨hle, hsequence, haccounts.hangUp⟩

theorem Reaches.served {s : System stream} (h : s.Reaches) (hrange : s.InRange) : s.Served := by
  obtain ⟨actions, hrun⟩ := h
  have hboth : s.Stamped ∧ (s.InRange → s.Served) := by
    refine run_invariant (P := fun s => s.Stamped ∧ (s.InRange → s.Served)) ?_ hrun
      ⟨stamped_init, fun _ => served_init⟩
    rintro s a s' hstep ⟨hstamped, hserved⟩
    refine ⟨hstamped.step hstep, fun hrange => ?_⟩
    have hrange := inRange_of_step hstep hrange
    exact (hserved hrange).step hstamped hrange hstep
  exact hboth.2 hrange

/-! ## 2. Overruns -/

/-- The subscriber's receiver, once it has one. -/
def receiver (s : System stream) : Option Receiver :=
  match s.client with
  | .absent => none
  | .subscribed updates => some updates
  | .forwarding _ _ f => some f.updates

/-- The buffer has dropped an event that the receiver has not read. -/
def Overrun (s : System stream) : Prop :=
  ∃ updates, s.receiver = some updates ∧
    updates.Overrun broadcastCapacity (log stream s.emitted)

/-- All that a subscriber is sent in the end after an overrun: what its task has sent and holds,
or the snapshot it is going to hold, and the aborted status. -/
def final (s : System stream) (snapshot : List stream.M) : List (Except Status stream.M) :=
  match s.client with
  | .forwarding _ _ f => f.sent ++ f.inHand.map .ok ++ [.error .lagged]
  | _ => snapshot.map .ok ++ [.error .lagged]

/-- The subscriber is going to be sent `final`, and less only if its task is hung up. -/
def Doomed (final : List stream.M → List (Except Status stream.M)) (s : System stream) : Prop :=
  match s.client with
  | .absent => False
  | .subscribed updates => updates.Overrun broadcastCapacity (log stream s.emitted) ∧
      ∀ snapshot, final snapshot = snapshot.map .ok ++ [.error .lagged]
  | .forwarding _ snapshot f => Forwarder.Doomed (log stream s.emitted) (final snapshot) f

theorem Overrun.doomed {s : System stream} (h : s.Overrun) : s.Doomed s.final := by
  obtain ⟨updates, hreceiver, hoverrun⟩ := h
  unfold Doomed final
  cases hclient : s.client with
  | absent => simp [receiver, hclient] at hreceiver
  | subscribed r =>
    simp only [receiver, hclient, Option.some.injEq] at hreceiver
    exact ⟨hreceiver ▸ hoverrun, fun _ => rfl⟩
  | forwarding readAt snapshot f =>
    simp only [receiver, hclient, Option.some.injEq] at hreceiver
    refine ⟨fun _ _ => ⟨hreceiver ▸ hoverrun, rfl⟩, fun ha => ?_, fun _ => ?_⟩
    · simp [inHand, ha]
    · exact ⟨f.inHand.map .ok ++ [.error .lagged], by simp⟩

theorem Doomed.step {final : List stream.M → List (Except Status stream.M)}
    {s s' : System stream} {a : Action Fl} (h : s.Doomed final) (hstep : step s a = some s') :
    s'.Doomed final := by
  unfold Doomed at h
  rcases step_cases hstep with ⟨w, _, hidle, rfl⟩ | ⟨event, rest, _, hemitting, rfl⟩ |
    ⟨_, hclient, rfl⟩ | ⟨order, updates, _, hclient, hidle, rfl⟩ |
    ⟨readAt, snapshot, f, _, hclient, rfl⟩ | ⟨readAt, snapshot, f, _, hclient, rfl⟩
  · exact h
  · unfold Doomed
    cases hclient : s.client with
    | absent => simp [hclient] at h
    | subscribed updates =>
      rw [hclient] at h
      exact ⟨log_append s.emitted [event] ▸ h.1.append _, h.2⟩
    | forwarding readAt snapshot f =>
      rw [hclient] at h
      exact log_append s.emitted [event] ▸ Forwarder.Doomed.append h _
  · simp [hclient] at h
  · rw [hclient] at h
    refine ⟨fun _ _ => ⟨h.1, ?_⟩, nofun, nofun⟩
    rw [h.2]
    rfl
  · rw [hclient] at h
    exact Forwarder.Doomed.step h
  · rw [hclient] at h
    exact Forwarder.Doomed.hangUp h

/-- The subscriber's task, if there is one by now, has not returned. -/
def Serving (s : System stream) : Prop :=
  ∀ readAt snapshot f, s.client = .forwarding readAt snapshot f → f.phase ≠ .returned

/-- If the subscriber's task has returned, the subscriber was sent `final`. -/
def Ended (final : List stream.M → List (Except Status stream.M)) (s : System stream) : Prop :=
  ∀ readAt snapshot f, s.client = .forwarding readAt snapshot f → f.phase = .returned →
    f.sent = final snapshot

theorem Ended.step {final : List stream.M → List (Except Status stream.M)}
    {s s' : System stream} {a : Action Fl} (h : s.Ended final) (hdoomed : s.Doomed final)
    (hstep : step s a = some s') (hup : a ≠ .hangUp) : s'.Ended final := by
  intro readAt' snapshot' f' hclient' hreturned
  rcases step_cases hstep with ⟨w, _, hidle, rfl⟩ | ⟨event, rest, _, hemitting, rfl⟩ |
    ⟨_, hclient, rfl⟩ | ⟨order, updates, _, hclient, hidle, rfl⟩ |
    ⟨readAt, snapshot, f, _, hclient, rfl⟩ | ⟨readAt, snapshot, f, rfl, hclient, rfl⟩
  · exact h _ _ _ hclient' hreturned
  · exact h _ _ _ hclient' hreturned
  · cases hclient'
  · obtain ⟨_, _, rfl⟩ := Client.forwarding.inj hclient'
    cases hreturned
  · obtain ⟨_, rfl, rfl⟩ := Client.forwarding.inj hclient'
    rw [Doomed, hclient] at hdoomed
    exact hdoomed.sent_of_step (h _ _ _ hclient) hreturned
  · exact absurd rfl hup

/-- `n` steps of the task, with nobody else doing anything. -/
theorem run_forward (n : Nat) {s : System stream} {readAt : Nat} {snapshot : List stream.M}
    {f : Forwarder stream.M} (hclient : s.client = .forwarding readAt snapshot f) :
    run step s (List.replicate n .forward) =
      some { s with
        client := .forwarding readAt snapshot
          ((Forwarder.step stream.forwards (log stream s.emitted))^[n] f) } := by
  induction n generalizing s f with
  | zero => simp [← hclient]
  | succ n ih =>
    rw [List.replicate_succ, run_cons]
    simp only [step, hclient, stream.forward_eq, Option.bind_some]
    rw [ih rfl, Function.iterate_succ_apply]

/-- A task that has sent the aborted status, or is about to. -/
def Aborted (s : System stream) : Prop :=
  ∃ readAt snapshot f, s.client = .forwarding readAt snapshot f ∧
    (f.phase = .aborting ∨ .error .lagged ∈ f.sent)

/-- A task turns to aborting when its receiver is overrun, and not otherwise. -/
theorem aborted_of_step {s s' : System stream} {a : Action Fl} (hstep : step s a = some s')
    (h : s'.Aborted) : s.Aborted ∨ s.Overrun := by
  obtain ⟨readAt', snapshot', f', hclient', haborted⟩ := h
  rcases step_cases hstep with ⟨w, _, hidle, rfl⟩ | ⟨event, rest, _, hemitting, rfl⟩ |
    ⟨_, hclient, rfl⟩ | ⟨order, updates, _, hclient, hidle, rfl⟩ |
    ⟨readAt, snapshot, f, _, hclient, rfl⟩ | ⟨readAt, snapshot, f, _, hclient, rfl⟩
  · exact Or.inl ⟨readAt', snapshot', f', hclient', haborted⟩
  · exact Or.inl ⟨readAt', snapshot', f', hclient', haborted⟩
  · cases hclient'
  · obtain ⟨_, _, rfl⟩ := Client.forwarding.inj hclient'
    simp at haborted
  · obtain ⟨_, _, rfl⟩ := Client.forwarding.inj hclient'
    rcases step_aborted haborted with hbefore | hoverrun
    · exact Or.inl ⟨readAt, snapshot, f, hclient, hbefore⟩
    · exact Or.inr ⟨f.updates, by simp [receiver, hclient], hoverrun⟩
  · obtain ⟨_, _, rfl⟩ := Client.forwarding.inj hclient'
    refine Or.inl ⟨readAt, snapshot, f, hclient, Or.inr ?_⟩
    simpa [hangUp] using haborted

/-- So a run that ends with an aborted task went through an overrun. -/
theorem overrun_of_aborted {actions : List (Action Fl)} {s : System stream}
    (hrun : after stream actions = some s) (h : s.Aborted) :
    ∃ first rest t, actions = first ++ rest ∧ after stream first = some t ∧ t.Overrun := by
  induction actions using List.reverseRecOn generalizing s with
  | nil =>
    obtain ⟨_, _, _, hclient, _⟩ := h
    obtain rfl : {} = s := Option.some.inj hrun
    cases hclient
  | append_singleton actions a ih =>
    obtain ⟨t, ht, hlast⟩ := run_append.mp hrun
    have hstep : step t a = some s := by simpa using hlast
    rcases aborted_of_step hstep h with haborted | hoverrun
    · obtain ⟨first, rest, u, rfl, hu, hoverrun⟩ := ih ht haborted
      exact ⟨first, rest ++ [a], u, List.append_assoc _ _ _, hu, hoverrun⟩
    · exact ⟨actions, [a], t, rfl, ht, hoverrun⟩

/-! ## 3. A busy cache -/

/-- A run in which the simulation state is set `n` times. -/
def busy : Nat → List (Action Floats.bits)
  | 0 => []
  | n + 1 => .write (.setSimulationState (.sample 0)) :: .send :: busy n

/-- It broadcasts `n` simulation events, advances the counter by `n`, and leaves the group channel
and the subscriber as they were. -/
theorem run_busy (stream : Stream Floats.bits) (n : Nat) (state : Option _) (sequence : UInt64)
    (emitted : List (Event (Message Floats.bits))) (client : Client stream.M) :
    ∃ state' emitted', StateCache.groupUpdates emitted' = StateCache.groupUpdates emitted ∧
      (StateCache.simulationUpdates emitted').length =
        (StateCache.simulationUpdates emitted).length + n ∧
      emitted'.length = emitted.length + n ∧
      run step (⟨{ simulationState := state, sequence }, emitted, [], client⟩ : System stream)
          (busy n) =
        some ⟨{ simulationState := state', sequence := sequence + UInt64.ofNat n }, emitted', [],
          client⟩ := by
  induction n generalizing state sequence emitted with
  | zero => exact ⟨state, emitted, rfl, rfl, rfl, by simp [busy]⟩
  | succ n ih =>
    let event : Event (Message Floats.bits) := ⟨sequence + 1, .simulation ⟨some (.sample 0)⟩⟩
    obtain ⟨state', emitted', hgroups, hsimulation, hlength, hrun⟩ :=
      ih (some (.sample 0)) (sequence + 1) (emitted ++ [event])
    have hevent : StateCache.groupUpdates (emitted ++ [event]) = StateCache.groupUpdates emitted := by
      rw [groupUpdates_append]
      exact List.append_nil _
    have hsent : StateCache.simulationUpdates (emitted ++ [event]) =
        StateCache.simulationUpdates emitted ++ [⟨sequence + 1, ⟨some (.sample 0)⟩⟩] :=
      List.filterMap_append
    refine ⟨state', emitted', hgroups.trans hevent, ?_, ?_, ?_⟩
    · rw [hsimulation, hsent, List.length_append, List.length_singleton]
      omega
    · rw [hlength, List.length_append, List.length_singleton]
      omega
    · have hnumber : sequence + UInt64.ofNat (n + 1) = sequence + 1 + UInt64.ofNat n := by
        rw [UInt64.ofNat_add, UInt64.add_assoc, UInt64.add_comm (UInt64.ofNat n)]
        rfl
      rw [hnumber, ← hrun]
      rfl

/-- The cache is busy between a subscriber's receiver and its snapshot. -/
theorem after_busy (n : Nat) :
    ∃ t : System (simulationStream : Stream Floats.bits),
      after simulationStream (.subscribe :: busy n) = some t ∧ t.client = .subscribed ⟨0⟩ ∧
        t.emitting = [] ∧ t.emitted.length = n ∧ (log simulationStream t.emitted).length = n := by
  obtain ⟨state, emitted, -, hlog, hlength, hbusy⟩ :=
    run_busy simulationStream n none 0 [] (.subscribed ⟨0⟩)
  refine ⟨_, hbusy, rfl, rfl, ?_, ?_⟩
  · simpa using hlength
  · exact hlog.trans (Nat.zero_add n)

/-! ## 4. What a subscriber is sent -/

section AfterOverrun

variable {first rest : List (Action Fl)} {s t : System stream}

theorem doomed_of_overrun (hrun : after stream (first ++ rest) = some s)
    (ht : after stream first = some t) (hoverrun : t.Overrun) : s.Doomed t.final := by
  obtain ⟨t', ht', hrest⟩ := run_append.mp hrun
  obtain rfl := Option.some.inj (ht.symm.trans ht')
  exact run_invariant (P := fun u => u.Doomed t.final) (fun _ _ _ hstep hu => hu.step hstep) hrest
    hoverrun.doomed

/-- A task that is not hung up after an overrun has sent all it was going to when it returns. -/
theorem ended_of_overrun (hrun : after stream (first ++ rest) = some s)
    (ht : after stream first = some t) (hoverrun : t.Overrun) (hserving : t.Serving)
    (hup : .hangUp ∉ rest) : s.Ended t.final := by
  obtain ⟨t', ht', hrest⟩ := run_append.mp hrun
  obtain rfl := Option.some.inj (ht.symm.trans ht')
  have hboth : s.Doomed t.final ∧ s.Ended t.final := by
    refine run_invariant_mem (P := fun u => u.Doomed t.final ∧ u.Ended t.final) ?_ hrest
      ⟨hoverrun.doomed, fun _ _ _ hclient hreturned => absurd hreturned (hserving _ _ _ hclient)⟩
    rintro a ha u u' hstep ⟨hdoomed, hended⟩
    exact ⟨hdoomed.step hstep, hended.step hdoomed hstep (ne_of_mem_of_not_mem ha hup)⟩
  exact hboth.2

end AfterOverrun

/-- **Exact delivery relative to the snapshot, or an abort**, on either stream, in every run
that broadcasts fewer than 2^64 events.

What the task sent after the snapshot is a prefix of the events broadcast since the snapshot
was read, those that pass the filter; the aborted status may follow, if the buffer has dropped
an event the receiver had not read.  From any state `t` of the run in which it has, the
subscriber is sent at most what its task held there and then the aborted status.  And that is
what it is sent: a task that had not returned in `t` and is not hung up since has sent all of
it when it has returned, and returns after a few steps of its own. -/
theorem exact_delivery_or_abort (actions : List (Action Fl)) (s : System stream)
    (hrun : after stream actions = some s) (hrange : s.InRange) :
    (∀ readAt snapshot f, s.client = .forwarding readAt snapshot f →
      ∃ p, p <+: due stream.forwards (log stream (s.emitted.drop readAt)) ∧
        (f.sent.drop snapshot.length = p.map .ok ∨
          f.sent.drop snapshot.length = p.map .ok ++ [.error .lagged] ∧
            ∃ first rest t, actions = first ++ rest ∧ after stream first = some t ∧ t.Overrun)) ∧
    (∀ first rest t, actions = first ++ rest → after stream first = some t → t.Overrun →
      ∀ readAt snapshot f, s.client = .forwarding readAt snapshot f →
        f.sent <+: t.final snapshot) ∧
    (∀ first rest t, actions = first ++ rest → after stream first = some t → t.Overrun →
      t.Serving → .hangUp ∉ rest →
      ∀ readAt snapshot f, s.client = .forwarding readAt snapshot f →
        (f.phase = .returned → f.sent = t.final snapshot) ∧
        ∃ n ≤ f.inHand.length + 3, ∃ s' f', run step s (List.replicate n .forward) = some s' ∧
          s'.client = .forwarding readAt snapshot f' ∧ f'.phase = .returned ∧
          f'.sent = t.final snapshot) := by
  refine ⟨fun readAt snapshot f hclient => ?_, ?_, ?_⟩
  · have hserved := Reaches.served ⟨actions, hrun⟩ hrange
    obtain ⟨_, _, haccounts⟩ := hserved.forwarding readAt snapshot f hclient
    obtain ⟨p, hp, hsent | hsent⟩ := haccounts.sent_after_snapshot
    · exact ⟨p, hp, Or.inl hsent⟩
    · refine ⟨p, hp, Or.inr ⟨hsent, overrun_of_aborted hrun ⟨readAt, snapshot, f, hclient, ?_⟩⟩⟩
      refine Or.inr (List.mem_of_mem_drop (i := snapshot.length) ?_)
      rw [hsent]
      simp
  · rintro first rest t rfl ht hoverrun readAt snapshot f hclient
    have hdoomed := doomed_of_overrun hrun ht hoverrun
    rw [Doomed, hclient] at hdoomed
    exact hdoomed.sent_prefix
  · rintro first rest t rfl ht hoverrun hserving hup readAt snapshot f hclient
    have hdoomed := doomed_of_overrun hrun ht hoverrun
    have hended := ended_of_overrun hrun ht hoverrun hserving hup
    rw [Doomed, hclient] at hdoomed
    refine ⟨hended _ _ _ hclient, f.stepsToEnd, f.stepsToEnd_le, _, _, run_forward _ hclient, rfl,
      hdoomed.returns (hended _ _ _ hclient)⟩

/-- A subscriber of groups that is between its receiver and its snapshot when a group changes
(the event is in its buffer and in its snapshot, and is not sent a second time); and one of the
simulation state that has read its snapshot, and one whose receiver is overrun before it has. -/
theorem exact_delivery_or_abort_sample :
    (let actions : List (Action Floats.bits) :=
      [.subscribe, .write (.upsertGroup (.sample "A" .blufor)), .send, .readSnapshot .ascending,
        .forward, .forward, .forward]
    ∃ s, after (groupStream none) actions = some s ∧
      ∀ readAt snapshot f, s.client = .forwarding readAt snapshot f →
        ∃ p, p <+: due (groupStream none).forwards (log (groupStream none) (s.emitted.drop readAt)) ∧
          (f.sent.drop snapshot.length = p.map .ok ∨
            f.sent.drop snapshot.length = p.map .ok ++ [.error .lagged] ∧
              ∃ first rest t, actions = first ++ rest ∧ after (groupStream none) first = some t ∧
                t.Overrun)) ∧
    (let actions : List (Action Floats.bits) :=
      [.subscribe, .readSnapshot .ascending, .write (.setSimulationState (.sample 0)), .send,
        .forward, .forward]
    ∃ s, after simulationStream actions = some s ∧
      ∀ readAt snapshot f, s.client = .forwarding readAt snapshot f →
        ∃ p, p <+: due simulationStream.forwards (log simulationStream (s.emitted.drop readAt)) ∧
          (f.sent.drop snapshot.length = p.map .ok ∨
            f.sent.drop snapshot.length = p.map .ok ++ [.error .lagged] ∧
              ∃ first rest t, actions = first ++ rest ∧ after simulationStream first = some t ∧
                t.Overrun)) ∧
    (let first : List (Action Floats.bits) := .subscribe :: busy 257
    ∃ t s readAt snapshot f, after simulationStream first = some t ∧ t.Overrun ∧
      after simulationStream (first ++ [.readSnapshot .ascending]) = some s ∧
      s.client = .forwarding readAt snapshot f ∧ f.sent = [] ∧
      ∃ n ≤ f.inHand.length + 3, ∃ s' f', run step s (List.replicate n .forward) = some s' ∧
        s'.client = .forwarding readAt snapshot f' ∧ f'.phase = .returned ∧
        f'.sent = snapshot.map .ok ++ [.error .lagged]) := by
  refine ⟨⟨_, rfl, (exact_delivery_or_abort _ _ rfl (by decide)).1⟩,
    ⟨_, rfl, (exact_delivery_or_abort _ _ rfl (by decide)).1⟩, ?_⟩
  obtain ⟨t, hfirst, hclient, hidle, hlength, hlog⟩ := after_busy 257
  have hoverrun : t.Overrun := by
    refine ⟨⟨0⟩, by rw [receiver, hclient], ?_⟩
    rw [Receiver.Overrun, hlog]
    decide
  let snapshot : List (simulationStream : Stream Floats.bits).M :=
    (simulationStream.snapshot .ascending t.inner).1
  let f : Forwarder (simulationStream : Stream Floats.bits).M :=
    ⟨t.inner.sequence, ⟨0⟩, .snapshot snapshot, []⟩
  let s : System (simulationStream : Stream Floats.bits) :=
    { t with emitting := [], client := .forwarding t.emitted.length snapshot f }
  have hread : run step t [.readSnapshot .ascending] = some s := by
    simp only [run_cons, step, hclient, hidle]
    rfl
  have hlast := run_append.mpr ⟨t, hfirst, hread⟩
  have hrange : s.InRange := by
    have hevents : s.events = t.emitted := List.append_nil _
    rw [InRange, hevents, hlength]
    decide
  have hfinal : t.final snapshot = snapshot.map .ok ++ [.error .lagged] := by rw [final, hclient]
  have hserving : t.Serving := fun _ _ _ hforwarding => by cases hclient.symm.trans hforwarding
  refine ⟨t, s, _, snapshot, f, hfirst, hoverrun, hlast, rfl, rfl, ?_⟩
  rw [← hfinal]
  exact ((exact_delivery_or_abort _ s hlast hrange).2.2 _ _ t rfl hfirst hoverrun hserving
    (by simp) _ _ f rfl).2

/-! ## 5. When the counter wraps around -/

/-- A group that comes and goes while a subscriber waits for its snapshot. -/
def passingGroup : Proto.Group Floats.bits := .sample "A" .blufor

/-- 2^64 - 2 events; then the subscriber creates its receiver; the group is stored, with the
last sequence number there is, and removed, with the number 0; the snapshot is read; and the
task forwards all there is. -/
def wrapping : List (Action Floats.bits) :=
  busy (2 ^ 64 - 2) ++ [.subscribe, .write (.upsertGroup passingGroup), .send,
    .write (.removeGroup (.ofStr "A")), .send, .readSnapshot .ascending,
    .forward, .forward, .forward, .forward]

section Wrapping

variable (state : Option (Proto.SimulationStateUpdate Floats.bits)) (sequence : UInt64)

/-- The maps with the group in them. -/
def passingInner : Inner Floats.bits :=
  { simulationState := state, sequence
    groups := (∅ : HashMap GroupId _).insert (.ofStr "A") passingGroup }

theorem write_passing :
    (⟨{ simulationState := state, sequence }, []⟩ : StateCache Floats.bits).write
        (.upsertGroup passingGroup) =
      ⟨passingInner state (sequence + 1), [⟨sequence + 1, .group (groupUpserted passingGroup)⟩]⟩ := by
  rw [StateCache.write_eq]
  simp [Write.commit, Write.messages, Write.announcedFirst, Write.compared, passingInner,
    StateCache.sideRemoval, StateCache.changed, Inner.joinedGroup, Inner.placeGroup,
    Inner.memberUnits, join, keysOf, StateCache.sendAll, StateCache.send, Inner.nextSequence]
  exact ⟨rfl, rfl⟩

theorem write_passed :
    (⟨passingInner state sequence, []⟩ : StateCache Floats.bits).write
        (.removeGroup (.ofStr "A")) =
      ⟨{ simulationState := state, sequence := sequence + 1 },
        [⟨sequence + 1, .group (groupRemoved "A")⟩]⟩ := by
  have herase : ((∅ : HashMap GroupId _).insert (.ofStr "A") passingGroup).erase (.ofStr "A") = ∅ :=
    Std.ExtTreeMap.ext_getElem? fun id => by simp
  rw [StateCache.write_eq]
  simp [Write.commit, Write.messages, Write.announcedFirst, Write.compared, Inner.takeGroup,
    passingInner, herase, StateCache.sendAll, StateCache.send, Inner.nextSequence]

/-- Where that run ends: the task has read all there is, and has sent the group that is gone. -/
theorem after_wrapping :
    ∃ state emitted, after (groupStream none) wrapping =
      some ⟨{ simulationState := state, sequence := 0 }, emitted, [],
        .forwarding emitted.length []
          ⟨0, ⟨2⟩, .awaiting, [.ok (groupUpserted passingGroup)]⟩⟩ ∧
      (log (groupStream none) emitted).length = 2 := by
  obtain ⟨state, emitted, hgroups, -, -, hbusy⟩ :=
    run_busy (groupStream none) (2 ^ 64 - 2) none 0 [] .absent
  have hempty : log (groupStream none) emitted = [] := hgroups
  let last : Event (Message Floats.bits) :=
    ⟨18446744073709551615, .group (groupUpserted passingGroup)⟩
  let wrapped : Event (Message Floats.bits) := ⟨0, .group (groupRemoved "A")⟩
  have hlog : log (groupStream none) (emitted ++ [last] ++ [wrapped]) =
      [⟨18446744073709551615, groupUpserted passingGroup⟩, ⟨0, groupRemoved "A"⟩] := by
    rw [log_append, log_append, hempty]
    rfl
  refine ⟨state, emitted ++ [last] ++ [wrapped], run_append.mpr ⟨_, hbusy, ?_⟩, by rw [hlog]; rfl⟩
  rw [show (0 : UInt64) + UInt64.ofNat (2 ^ 64 - 2) = 18446744073709551614 by decide]
  -- the receiver is created, the group comes and goes
  have hcomes : run step (⟨{ simulationState := state, sequence := 18446744073709551614 }, emitted,
        [], .absent⟩ : System (groupStream none))
        [.subscribe, .write (.upsertGroup passingGroup), .send] =
      some ⟨passingInner state 18446744073709551615, emitted ++ [last], [], .subscribed ⟨0⟩⟩ := by
    simp only [run_cons, step, hempty, Option.bind_some, write_passing]
    rfl
  have hgoes : run step (⟨passingInner state 18446744073709551615, emitted ++ [last], [],
        .subscribed ⟨0⟩⟩ : System (groupStream none))
        [.write (.removeGroup (.ofStr "A")), .send, .readSnapshot .ascending] =
      some ⟨{ simulationState := state, sequence := 0 }, emitted ++ [last] ++ [wrapped], [],
        .forwarding (emitted ++ [last] ++ [wrapped]).length [] ⟨0, ⟨0⟩, .snapshot [], []⟩⟩ := by
    simp only [run_cons, step, Option.bind_some, write_passed]
    rfl
  -- the snapshot is empty, and the task reads two events
  have hforward : ∀ f : Forwarder (groupStream none : Stream Floats.bits).M,
      step (⟨{ simulationState := state, sequence := 0 }, emitted ++ [last] ++ [wrapped], [],
        .forwarding (emitted ++ [last] ++ [wrapped]).length [] f⟩ : System (groupStream none))
        .forward =
      some ⟨{ simulationState := state, sequence := 0 }, emitted ++ [last] ++ [wrapped], [],
        .forwarding (emitted ++ [last] ++ [wrapped]).length [] (f.step (matchesUpdate none)
          [⟨18446744073709551615, groupUpserted passingGroup⟩, ⟨0, groupRemoved "A"⟩])⟩ := by
    intro f
    simp only [step, hlog]
    rfl
  refine run_append.mpr ⟨_, hcomes, run_append.mpr ⟨_, hgoes, ?_⟩⟩
  rw [run_cons, hforward, Option.bind_some, run_cons, hforward, Option.bind_some, run_cons,
    hforward, Option.bind_some, run_cons, hforward, Option.bind_some]
  rfl

end Wrapping

/-- **Delivery fails when the counter wraps around.**  The subscriber is sent an event from
before its snapshot, whose number exceeds that of the snapshot. -/
theorem delivery_fails_on_wraparound :
    ∃ s, after (groupStream none) wrapping = some s ∧
      ∃ readAt snapshot f, s.client = .forwarding readAt snapshot f ∧
        ¬ ∃ p, p <+: due (groupStream none).forwards (log (groupStream none) (s.emitted.drop readAt)) ∧
          (f.sent.drop snapshot.length = p.map .ok ∨
            f.sent.drop snapshot.length = p.map .ok ++ [.error .lagged]) := by
  obtain ⟨state, emitted, hrun, _⟩ := after_wrapping
  refine ⟨_, hrun, _, _, _, rfl, ?_⟩
  rintro ⟨p, hp, hsent⟩
  rw [List.drop_length] at hp
  obtain rfl : p = [] := List.prefix_nil.mp hp
  rcases hsent with hsent | hsent
  · cases hsent
  · cases hsent

end MinervaServer.System
