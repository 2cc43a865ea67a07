/-
# What the clients read

The streams of `Sessions.lean` as their clients see them, in every run of the engine, the tasks and
any number of clients.

* `sessions_deliver`: the items a client has taken are a snapshot of one moment and then the events
  since, in order, none missing and none repeated; the aborted status ends them after an overrun.
* `sessions_settle`: when nothing is left to do for a session, its client has what the cache has, or
  was told that it lagged, or has left; and then its task has returned.
* `session_work_bounded`: and it does not take long.  A session has no more steps to take than its
  snapshot and the events broadcast for it call for; and until it has returned, the task of a
  client that left is never left waiting for another event.

The first two come from the one-subscriber theorems by `Sessions.reaches`; what is new is the
channel between the task and the client (`Session.Wired`).  The third is a potential argument.
-/
import MinervaServer.Sessions

namespace MinervaServer

open Lib

variable {Fl : Floats}

/-! ## 1. The task and its channel -/

namespace Forwarder

variable {M : Type} {forwards : M → Bool} {log : List (Event M)} {f : Forwarder M}

/-- A step sends what the task was about to send. -/
theorem step_sent (forwards : M → Bool) (log : List (Event M)) (f : Forwarder M) :
    (f.step forwards log).sent = f.sent ++ f.outgoing.toList := by
  unfold step outgoing
  cases hphase : f.phase with
  | snapshot rest => cases rest <;> simp
  | awaiting =>
    dsimp only
    rcases Receiver.recv_cases broadcastCapacity log f.updates with
      ⟨_, missed, hrecv⟩ | ⟨event, _, hrecv⟩ | ⟨_, hrecv⟩
    · simp [hrecv]
    · rw [hrecv]
      dsimp only
      split
      · simp
      · split <;> simp
    · simp [hrecv]
  | sending message => simp
  | aborting => simp
  | returned => simp

/-- A task returns by itself only after the aborted status. -/
theorem step_returned (h : (f.step forwards log).phase = .returned) (hphase : f.phase ≠ .returned) :
    f.outgoing = some (.error .lagged) := by
  unfold step at h
  unfold outgoing
  cases hf : f.phase with
  | snapshot rest => cases rest <;> simp [hf] at h
  | awaiting =>
    simp only [hf] at h
    rcases Receiver.recv_cases broadcastCapacity log f.updates with
      ⟨_, missed, hrecv⟩ | ⟨event, _, hrecv⟩ | ⟨_, hrecv⟩
    · simp [hrecv] at h
    · rw [hrecv] at h
      dsimp only at h
      split at h
      · simp at h
      · split at h
        · simp at h
        · simp at h
    · simp [hrecv, hf] at h
  | sending message => simp [hf] at h
  | aborting => rfl
  | returned => exact absurd hf hphase

end Forwarder

/-- The channel carries what the task has sent, and a task that has returned while its client is
there has told it so. -/
structure Session.Wired (session : Session Fl) : Prop where
  unspawned : (∀ readAt snapshot f, session.client ≠ .forwarding readAt snapshot f) →
    session.channel.sent = []
  sent : ∀ readAt snapshot f, session.client = .forwarding readAt snapshot f →
    session.channel.sent = f.sent
  returned : ∀ readAt snapshot f, session.client = .forwarding readAt snapshot f →
    f.phase = .returned → session.channel.closed = false →
      f.sent.getLast? = some (.error .lagged)

theorem Session.Wired.step {emitted : List (Event (Message Fl))} {session session' : Session Fl}
    {a : Session.Action} (h : session.Wired) (hmoves : session.Moves emitted a session') :
    session'.Wired := by
  cases hmoves with
  | @sends readAt snapshot f item channel hclient hitem hoffer =>
    obtain ⟨hopen, hsent, -, -⟩ := Mpsc.offer_eq_sent hoffer
    have hstep := Forwarder.step_sent session.subscription.stream.forwards
      (System.log session.subscription.stream emitted) f
    rw [hitem] at hstep
    refine ⟨fun hnone => absurd rfl (hnone _ _ _), ?_, ?_⟩
    · rintro _ _ _ hforwarding
      obtain ⟨-, -, rfl⟩ := Client.forwarding.inj hforwarding
      rw [hstep]
      exact hsent.trans (congrArg (· ++ [item]) (h.sent _ _ _ hclient))
    · rintro _ _ _ hforwarding hreturned -
      obtain ⟨-, -, rfl⟩ := Client.forwarding.inj hforwarding
      have hphase : f.phase ≠ .returned := fun hphase => by
        simp [Forwarder.outgoing, hphase] at hitem
      rw [Forwarder.step_returned hreturned hphase] at hitem
      rw [hstep, ← Option.some.inj hitem]
      simp
  | @advances readAt snapshot f hclient hitem hready =>
    have hstep := Forwarder.step_sent session.subscription.stream.forwards
      (System.log session.subscription.stream emitted) f
    rw [hitem] at hstep
    refine ⟨fun hnone => absurd rfl (hnone _ _ _), ?_, ?_⟩
    · rintro _ _ _ hforwarding
      obtain ⟨-, -, rfl⟩ := Client.forwarding.inj hforwarding
      rw [hstep]
      exact (h.sent _ _ _ hclient).trans (List.append_nil _).symm
    · rintro _ _ _ hforwarding hreturned -
      obtain ⟨-, -, rfl⟩ := Client.forwarding.inj hforwarding
      have hphase : f.phase ≠ .returned := fun hphase => by
        simp [Forwarder.ready, hphase] at hready
      rw [Forwarder.step_returned hreturned hphase] at hitem
      cases hitem
  | fails hclient _ hclosed | notices hclient _ hclosed =>
    have hsent := h.sent _ _ _ hclient
    refine ⟨fun hnone => absurd rfl (hnone _ _ _), ?_, ?_⟩
    · rintro _ _ _ hforwarding
      obtain ⟨-, -, rfl⟩ := Client.forwarding.inj hforwarding
      exact hsent
    · intro _ _ _ _ _ hopen
      have hopen : session.channel.closed = false := hopen
      rw [hopen] at hclosed
      cases hclosed
  | @receives channel htake =>
    obtain ⟨hsent, -, hclosed, -⟩ := Mpsc.take_eq_some htake
    exact ⟨fun hnone => hsent.trans (h.unspawned hnone),
      fun _ _ _ hclient => hsent.trans (h.sent _ _ _ hclient),
      fun _ _ _ hclient hphase hopen => h.returned _ _ _ hclient hphase (hclosed ▸ hopen)⟩
  | disconnects hclient =>
    exact ⟨h.unspawned, h.sent, fun _ _ _ _ _ hopen => by cases hopen⟩

/-! ## 2. Where a session comes from -/

namespace Sessions

/-- What a session was before a step. -/
theorem session_cases {s s' : Sessions Fl} {a : Action Fl} (hstep : step s a = some s') {k : CallId}
    {session' : Session Fl} (hsession' : s'.session k = some session') :
    s.session k = some session' ∨
    (∃ updates, session'.client = .subscribed updates ∧ session'.channel = {}) ∨
    (∃ order session updates, a = .readSnapshot k order ∧ s.session k = some session ∧
      session.client = .subscribed updates ∧ s.emitting = [] ∧ session' = { session with
        client := .forwarding s.emitted.length
          (session.subscription.stream.snapshot order s.inner).1
          ⟨s.inner.sequence, updates,
            .snapshot (session.subscription.stream.snapshot order s.inner).1, []⟩ }) ∨
    (∃ b session, a = .session k b ∧ s.session k = some session ∧
      session.Moves s.emitted b session') := by
  -- a step replaces one session
  have hset : ∀ {j : CallId} {session : Session Fl}, (s.set j session).session k = some session' →
      s.session k = some session' ∨ (k = j ∧ session = session') := by
    intro j session h
    by_cases hk : k = j
    · subst hk
      exact Or.inr ⟨rfl, by simpa [set] using h⟩
    · exact Or.inl (by simpa [set, Function.update_of_ne hk] using h)
  cases moves_of_step hstep with
  | write | send | refuses => exact Or.inl hsession'
  | subscribes =>
    rcases hset hsession' with h | ⟨rfl, rfl⟩
    · exact Or.inl h
    · exact Or.inr (Or.inl ⟨_, rfl, rfl⟩)
  | readSnapshot order hsession hclient hidle =>
    rcases hset hsession' with h | ⟨rfl, rfl⟩
    · exact Or.inl h
    · exact Or.inr (Or.inr (Or.inl ⟨order, _, _, rfl, hsession, hclient, hidle, rfl⟩))
  | session hsession hlocal =>
    rcases hset hsession' with h | ⟨rfl, rfl⟩
    · exact Or.inl h
    · exact Or.inr (Or.inr (Or.inr ⟨_, _, rfl, hsession, Session.moves_of_step hlocal⟩))

theorem wired {actions : List (Action Fl)} {s : Sessions Fl} (hrun : after actions = some s)
    {k : CallId} {session : Session Fl} (hsession : s.session k = some session) :
    session.Wired := by
  refine run_invariant (P := fun s : Sessions Fl => ∀ k session, s.session k = some session →
    session.Wired) ?_ hrun nofun k session hsession
  intro s a s' hstep h k session' hsession'
  rcases session_cases hstep hsession' with hsame | ⟨updates, hclient, hchannel⟩ |
    ⟨order, session, updates, _, hsession, hclient, _, rfl⟩ | ⟨b, session, _, hsession, hmoves⟩
  · exact h k session' hsame
  · refine ⟨fun _ => by rw [hchannel], fun _ _ _ h => ?_, fun _ _ _ h => ?_⟩ <;>
      rw [hclient] at h <;> cases h
  · have hempty := (h k session hsession).unspawned fun _ _ _ h => by rw [hclient] at h; cases h
    refine ⟨fun hnone => absurd rfl (hnone _ _ _), fun _ _ _ hforwarding => ?_,
      fun _ _ _ hforwarding hphase => ?_⟩
    · obtain ⟨-, -, rfl⟩ := Client.forwarding.inj hforwarding
      exact hempty
    · obtain ⟨-, -, rfl⟩ := Client.forwarding.inj hforwarding
      cases hphase
  · exact (h k session hsession).step hmoves

/-- The snapshot was read in the run, `readAt` events after its start. -/
def Taken (actions : List (Action Fl)) (k : CallId) (subscription : Subscription) (readAt : Nat)
    (snapshot : List (subscription.stream : Stream Fl).M) : Prop :=
  ∃ first order rest m, actions = first ++ .readSnapshot k order :: rest ∧ after first = some m ∧
    m.emitting = [] ∧ readAt = m.emitted.length ∧
      snapshot = (subscription.stream.snapshot order m.inner).1

theorem Taken.append {actions : List (Action Fl)} {k : CallId} {subscription : Subscription}
    {readAt : Nat} {snapshot : List (subscription.stream : Stream Fl).M}
    (h : Taken actions k subscription readAt snapshot) (more : List (Action Fl)) :
    Taken (actions ++ more) k subscription readAt snapshot := by
  obtain ⟨first, order, rest, m, rfl, hm⟩ := h
  exact ⟨first, order, rest ++ more, m, List.append_assoc _ _ _, hm⟩

/-- Where the snapshot of a session comes from. -/
theorem snapshot_taken {actions : List (Action Fl)} {s : Sessions Fl} (hrun : after actions = some s)
    {k : CallId} {session : Session Fl} (hsession : s.session k = some session) {readAt snapshot f}
    (hclient : session.client = .forwarding readAt snapshot f) :
    Taken actions k session.subscription readAt snapshot := by
  induction actions using List.reverseRecOn generalizing s session f with
  | nil =>
    obtain rfl : {} = s := Option.some.inj hrun
    cases hsession
  | append_singleton actions a ih =>
    obtain ⟨t, ht, hlast⟩ := run_append.mp hrun
    have hstep : step t a = some s := by simpa using hlast
    rcases session_cases hstep hsession with hsame | ⟨updates, hsubscribed, _⟩ |
      ⟨order, session', updates, rfl, hsession', hsubscribed, hidle, rfl⟩ |
      ⟨b, session', rfl, hsession', hmoves⟩
    · exact (ih ht hsame hclient).append _
    · rw [hsubscribed] at hclient
      cases hclient
    · obtain ⟨rfl, rfl, -⟩ := Client.forwarding.inj hclient
      exact ⟨actions, order, [], t, rfl, ht, hidle, rfl, rfl⟩
    · cases hmoves with
      | sends hbefore | advances hbefore | fails hbefore | notices hbefore =>
        obtain ⟨rfl, rfl, -⟩ := Client.forwarding.inj hclient
        exact (ih ht hsession' hbefore).append _
      | receives | disconnects =>
        have hbefore := hclient
        exact (ih ht hsession' hbefore).append _

/-! ## 3. What a client receives -/

/-- Fewer than 2^64 events: the counter has not wrapped around. -/
def InRange (s : Sessions Fl) : Prop := (s.emitted ++ s.emitting).length < 2 ^ 64

instance (s : Sessions Fl) : Decidable s.InRange := inferInstanceAs (Decidable (_ < _))

/-- A session turns to aborting when its receiver is overrun, and not otherwise. -/
theorem aborted_of_moves {s : Sessions Fl} {session session' : Session Fl} {a : Session.Action}
    (hmoves : session.Moves s.emitted a session') (h : (s.system session').Aborted) :
    (s.system session).Aborted ∨ (s.system session).Overrun := by
  cases hmoves with
  | sends hclient | advances hclient =>
    refine System.aborted_of_step (a := .forward) ?_ h
    simp only [System.step, system, hclient, Stream.forward_eq]
  | fails hclient | notices hclient =>
    refine System.aborted_of_step (a := .hangUp) ?_ h
    simp only [System.step, system, hclient]
  | receives | disconnects => exact Or.inl h

/-- So a session that has aborted was overrun at some state of the run. -/
theorem overrun_of_aborted {actions : List (Action Fl)} {s : Sessions Fl}
    (hrun : after actions = some s) {k : CallId} {session : Session Fl}
    (hsession : s.session k = some session) (h : (s.system session).Aborted) :
    ∃ first rest t session₀, actions = first ++ rest ∧ after first = some t ∧
      t.session k = some session₀ ∧ (t.system session₀).Overrun := by
  induction actions using List.reverseRecOn generalizing s session with
  | nil =>
    obtain rfl : {} = s := Option.some.inj hrun
    cases hsession
  | append_singleton actions a ih =>
    obtain ⟨t, ht, hlast⟩ := run_append.mp hrun
    have hstep : step t a = some s := by simpa using hlast
    -- it aborted before the last step, or it is overrun now
    have hearlier : ∀ {session₀ : Session Fl}, t.session k = some session₀ →
        (t.system session₀).Aborted ∨ (t.system session₀).Overrun →
        ∃ first rest u session₁, actions ++ [a] = first ++ rest ∧ after first = some u ∧
          u.session k = some session₁ ∧ (u.system session₁).Overrun := by
      rintro session₀ hsession₀ (haborted | hoverrun)
      · obtain ⟨first, rest, u, session₁, rfl, hu⟩ := ih ht hsession₀ haborted
        exact ⟨first, rest ++ [a], u, session₁, List.append_assoc _ _ _, hu⟩
      · exact ⟨actions, [a], t, session₀, rfl, ht, hsession₀, hoverrun⟩
    rcases session_cases hstep hsession with hsame | ⟨updates, hsubscribed, _⟩ |
      ⟨order, session₀, updates, rfl, hsession₀, hsubscribed, hidle, rfl⟩ |
      ⟨b, session₀, rfl, hsession₀, hmoves⟩
    · exact hearlier hsame (Or.inl h)
    · obtain ⟨_, _, _, hclient, _⟩ := h
      cases hsubscribed.symm.trans hclient
    · obtain ⟨_, _, f, hclient, haborted⟩ := h
      obtain ⟨-, -, rfl⟩ := Client.forwarding.inj hclient
      simp at haborted
    · refine hearlier hsession₀ (aborted_of_moves (s := t) hmoves ?_)
      exact h

end Sessions

namespace Forwarder

/-- What the ledger says of all that a task has sent. -/
theorem Accounts.sent_cases {M : Type} {forwards : M → Bool} {pre post : List (Event M)}
    {snapshot : List M} {f : Forwarder M} (h : Accounts forwards pre post snapshot f) :
    ∃ n, f.sent <+: owed forwards post snapshot n ∨
      f.sent = owed forwards post snapshot n ++ [.error .lagged] := by
  by_cases hr : f.phase = .returned
  · obtain ⟨n, _, hsent⟩ := h.returned hr
    exact ⟨n, hsent⟩
  · by_cases ha : f.phase = .aborting
    · obtain ⟨n, _, hsent⟩ := h.aborting ha
      exact ⟨n, Or.inl (hsent ▸ List.prefix_refl _)⟩
    · exact ⟨_, Or.inl ⟨_, h.serving ha hr⟩⟩

theorem due_take_prefix {M : Type} (forwards : M → Bool) (post : List (Event M)) (n : Nat) :
    due forwards (post.take n) <+: due forwards post := by
  refine ⟨due forwards (post.drop n), ?_⟩
  rw [← due_append, List.take_append_drop]

end Forwarder

namespace Sessions

open Forwarder

/-- **What a client receives**, whatever the engine, the tasks, and the other clients do, in every
run that broadcasts fewer than 2^64 events.

Its snapshot is the state of the cache at one moment, at which no write was in progress.  What it
has taken from its stream and the 16 items at most that wait for it in its channel are what its task
has sent, in order.  And what it has taken is the snapshot, item by item, and then the events since
that moment that are for it, none missing and none repeated, as far as it has read; or the whole
snapshot, some of the events, and the aborted status as the last item, and this only if its receiver
was overrun. -/
theorem sessions_deliver {actions : List (Action Fl)} {s : Sessions Fl}
    (hrun : after actions = some s) (hrange : s.InRange) {k : CallId} {session : Session Fl}
    (hsession : s.session k = some session) {readAt snapshot f}
    (hclient : session.client = .forwarding readAt snapshot f) :
    Taken actions k session.subscription readAt snapshot ∧
    session.channel.received ++ session.channel.queue = f.sent ∧
    session.channel.queue.length ≤ 16 ∧
    ∃ p, p <+: snapshot ++ due session.subscription.stream.forwards
        (System.log session.subscription.stream (s.emitted.drop readAt)) ∧
      (session.channel.received = p.map .ok ∨
        snapshot <+: p ∧ session.channel.received = p.map .ok ++ [.error .lagged] ∧
          ∃ first rest t session₀, actions = first ++ rest ∧ after first = some t ∧
            t.session k = some session₀ ∧ (t.system session₀).Overrun) := by
  have hsent : session.channel.received ++ session.channel.queue = f.sent := by
    rw [Mpsc.received_append_queue]
    exact (wired hrun hsession).sent _ _ _ hclient
  refine ⟨snapshot_taken hrun hsession hclient, hsent, Mpsc.length_queue_le _, ?_⟩
  obtain ⟨_, _, haccounts⟩ :=
    ((reaches hrun hsession).served hrange).forwarding readAt snapshot f hclient
  obtain ⟨n, howed⟩ := haccounts.sent_cases
  have hdue := due_take_prefix session.subscription.stream.forwards
    (System.log session.subscription.stream (s.emitted.drop readAt)) n
  -- a part of what is owed
  have hpart : session.channel.received <+: owed session.subscription.stream.forwards
      (System.log session.subscription.stream (s.emitted.drop readAt)) snapshot n →
      ∃ p, p <+: snapshot ++ due session.subscription.stream.forwards
        (System.log session.subscription.stream (s.emitted.drop readAt)) ∧
        session.channel.received = p.map .ok := by
    intro hreceived
    obtain ⟨p, hp, heq⟩ := List.prefix_map_iff.mp hreceived
    exact ⟨p, hp.trans ((List.prefix_append_right_inj _).mpr hdue), heq⟩
  have hreceived : session.channel.received <+: f.sent := ⟨_, hsent⟩
  rcases howed with howed | howed
  · obtain ⟨p, hp, heq⟩ := hpart (hreceived.trans howed)
    exact ⟨p, hp, Or.inl heq⟩
  · rw [howed] at hreceived
    rcases List.prefix_concat_iff.mp hreceived with hall | hsome
    · refine ⟨_, (List.prefix_append_right_inj _).mpr hdue, Or.inr ⟨List.prefix_append _ _, hall, ?_⟩⟩
      refine overrun_of_aborted hrun hsession ⟨readAt, snapshot, f, hclient, Or.inr ?_⟩
      rw [howed]
      simp
    · obtain ⟨p, hp, heq⟩ := hpart hsome
      exact ⟨p, hp, Or.inl heq⟩

theorem sessions_deliver_sample :
    ∃ s, after mingling = some s ∧ ∃ session, s.session 0 = some session ∧
      ∃ readAt snapshot f, session.client = .forwarding readAt snapshot f ∧
        Taken mingling 0 session.subscription readAt snapshot ∧
        session.channel.received ++ session.channel.queue = f.sent ∧
        session.channel.queue.length ≤ 16 :=
  have h := sessions_deliver (show after mingling = some _ from rfl) (by decide) (k := 0) rfl rfl
  ⟨_, rfl, _, rfl, _, _, _, rfl, h.1, h.2.1, h.2.2.1⟩

/-! ## 4. When nothing is left to do -/

/-- What a client makes of the items it has received is what the cache has. -/
def Current (inner : Inner Fl) : (subscription : Subscription) →
    List (Except Status (subscription.stream : Stream Fl).M) → Prop
  | .groups side, items => ∀ order g group, System.clientGroups items g = some group ↔
      group ∈ StateCache.matchingGroups order inner side ∧ GroupId.ofStr group.id = g
  | .simulation, items => System.clientState items = inner.simulationState

/-- A subscriber with nothing under way is current. -/
theorem current_of_quiet {s : Sessions Fl} {session : Session Fl}
    (hreaches : (s.system session).Reaches) (hrange : s.InRange) {f}
    (snapshot : List (session.subscription.stream : Stream Fl).M)
    (hquiet : (s.system session).Quiet snapshot f) : Current s.inner session.subscription f.sent := by
  obtain ⟨readAt, hclient, hsent⟩ := hquiet.sent_eq hreaches hrange
  obtain ⟨subscription, client, channel⟩ := session
  cases subscription with
  | groups side =>
    intro order g group
    obtain ⟨_, htracks⟩ := System.Reaches.tracks hreaches readAt snapshot f hclient
    have hreceived := (congrArg System.received hsent).trans (System.received_map_ok _)
    have htable : System.clientGroups f.sent = filteredView side s.inner :=
      (congrArg replayed hreceived).trans htracks
    rw [htable]
    exact filteredView_eq_some hreaches.stamped.consistent order
  | simulation =>
    obtain ⟨_, hshown⟩ := System.Reaches.shows hreaches readAt snapshot f hclient
    have hreceived := (congrArg System.received hsent).trans (System.received_map_ok _)
    exact (congrArg shown hreceived).trans hshown

end Sessions

namespace Session

variable {emitted : List (Event (Message Fl))} {session : Session Fl} {readAt : Nat}
  {snapshot : List (session.subscription.stream : Stream Fl).M}
  {f : Forwarder (session.subscription.stream : Stream Fl).M}

/-- Neither the task nor a client that reads can do anything. -/
structure Settled (emitted : List (Event (Message Fl))) (session : Session Fl) : Prop where
  forward : session.forward emitted = none
  notice : session.notice = none
  receive : session.receive = none

/-- Only a full channel keeps a task from sending. -/
theorem offer_of_forward (hclient : session.client = .forwarding readAt snapshot f)
    (h : session.forward emitted = none) {item} (hitem : f.outgoing = some item) :
    session.channel.offer item = .full := by
  unfold forward at h
  simp only [hclient, hitem] at h
  split at h
  · cases h
  · next hfull => exact hfull
  · cases h

/-- And only an event that is not there yet, or its end, keeps it from reading. -/
theorem not_ready_of_forward (hclient : session.client = .forwarding readAt snapshot f)
    (h : session.forward emitted = none) (hitem : f.outgoing = none) :
    f.ready (System.log session.subscription.stream emitted) = false := by
  unfold forward at h
  simp only [hclient, hitem] at h
  split at h
  · cases h
  · next hready => exact eq_false_of_ne_true hready

/-- A task that can't go on and has nothing to send waits for an event, or has returned. -/
theorem waits_of_forward (hclient : session.client = .forwarding readAt snapshot f)
    (h : session.forward emitted = none) (hitem : f.outgoing = none) :
    f.phase = .awaiting ∧ (System.log session.subscription.stream emitted).length ≤ f.updates.next ∨
      f.phase = .returned := by
  have hready := not_ready_of_forward hclient h hitem
  unfold Forwarder.outgoing at hitem
  unfold Forwarder.ready at hready
  cases hphase : f.phase with
  | snapshot rest =>
    cases rest with
    | nil => simp [hphase] at hready
    | cons message rest => simp [hphase] at hitem
  | awaiting => exact Or.inl ⟨rfl, by simpa [hphase] using hready⟩
  | sending message => simp [hphase] at hitem
  | aborting => simp [hphase] at hitem
  | returned => exact Or.inr rfl

/-- The task of a client that left can't go on only if it has returned: a `tx.send` fails, and at the
`select!` there is `tx.closed()`. -/
theorem returned_of_closed (hclient : session.client = .forwarding readAt snapshot f)
    (hclosed : session.channel.closed) (hforward : session.forward emitted = none)
    (hnotice : session.notice = none) : f.phase = .returned := by
  cases hitem : f.outgoing with
  | some item =>
    have hfull := offer_of_forward hclient hforward hitem
    rw [Mpsc.offer_eq_closed.mpr hclosed] at hfull
    cases hfull
  | none =>
    rcases waits_of_forward hclient hforward hitem with ⟨hawaiting, _⟩ | hreturned
    · simp [Session.notice, hclient, hawaiting, hclosed] at hnotice
    · exact hreturned

/-- A client that is there has taken everything. -/
theorem Settled.queue_eq (h : session.Settled emitted) (hopen : session.channel.closed = false) :
    session.channel.queue = [] :=
  (Mpsc.take_eq_none hopen).mp (Option.map_eq_none_iff.mp h.receive)

theorem Settled.outgoing_eq (h : session.Settled emitted)
    (hclient : session.client = .forwarding readAt snapshot f)
    (hopen : session.channel.closed = false) : f.outgoing = none := by
  cases hitem : f.outgoing with
  | none => rfl
  | some item =>
    have hfull := offer_of_forward hclient h.forward hitem
    exact absurd (h.queue_eq hopen) (Mpsc.queue_ne_nil_of_full (by decide) hfull)

end Session

namespace Sessions

/-- **Where a session comes to rest.**  In every run that broadcasts fewer than 2^64 events, once no
write is in progress and neither the task of a session nor a client that reads can do anything
more: if the client has left, its task has returned; and if it has not, either the last item it
received is the aborted status, or what it has made of the items is what the cache has. -/
theorem sessions_settle {actions : List (Action Fl)} {s : Sessions Fl}
    (hrun : after actions = some s) (hrange : s.InRange) (hidle : s.emitting = []) {k : CallId}
    {session : Session Fl} (hsession : s.session k = some session) {readAt snapshot f}
    (hclient : session.client = .forwarding readAt snapshot f)
    (hsettled : session.Settled s.emitted) :
    (session.channel.closed = true → f.phase = .returned) ∧
    (session.channel.closed = false →
      session.channel.received.getLast? = some (.error .lagged) ∨
      Current s.inner session.subscription session.channel.received) := by
  refine ⟨fun hclosed => Session.returned_of_closed hclient hclosed hsettled.forward
    hsettled.notice, fun hopen => ?_⟩
  have hwired := wired hrun hsession
  have hreceived : session.channel.received = f.sent := by
    have hall := session.channel.received_append_queue
    rw [hsettled.queue_eq hopen, List.append_nil] at hall
    exact hall.trans (hwired.sent _ _ _ hclient)
  rw [hreceived]
  have hreaches := reaches hrun hsession
  rcases Session.waits_of_forward hclient hsettled.forward (hsettled.outgoing_eq hclient hopen) with
    ⟨hawaiting, hread⟩ | hreturned
  · refine Or.inr (current_of_quiet hreaches hrange snapshot
      ⟨⟨readAt, hclient⟩, hidle, hawaiting, ?_⟩)
    obtain ⟨_, _, haccounts⟩ := (hreaches.served hrange).forwarding readAt snapshot f hclient
    refine le_antisymm ?_ hread
    rw [System.log_cut (s.system session).emitted readAt, List.length_append]
    exact haccounts.next_le
  · exact Or.inl (hwired.returned _ _ _ hclient hreturned hopen)

/-- The subscriber of groups reads to the end. -/
def settling : List (Action Floats.bits) := mingling ++ [.session 0 .forward, .session 0 .forward]

theorem sessions_settle_sample :
    ∃ s, after settling = some s ∧
      (∃ session readAt snapshot f, s.session 0 = some session ∧
        session.client = .forwarding readAt snapshot f ∧
        (session.channel.received.getLast? = some (.error .lagged) ∨
          Current s.inner session.subscription session.channel.received)) ∧
      (∃ session readAt snapshot f, s.session 2 = some session ∧
        session.client = .forwarding readAt snapshot f ∧ f.phase = .returned) := by
  have hrun : after settling = some _ := rfl
  have hreads := sessions_settle hrun (by decide) rfl (k := 0) rfl rfl ⟨rfl, rfl, rfl⟩
  have hleft := sessions_settle hrun (by decide) rfl (k := 2) rfl rfl ⟨rfl, rfl, rfl⟩
  exact ⟨_, rfl, ⟨_, _, _, _, rfl, rfl, hreads.2 rfl⟩, ⟨_, _, _, _, rfl, rfl, hleft.1 rfl⟩⟩

end Sessions

/-! ## 5. How long that takes -/

/-- The steps a task and its client need for all there is now, at most: two for an item, which the
task sends and the client takes, one for an event to be read, and one to leave the snapshot or the
`select!`. -/
def Forwarder.work {M : Type} (log : List (Event M)) (f : Forwarder M) : Nat :=
  let unread := log.length - f.updates.next
  match f.phase with
  | .snapshot rest => 2 * rest.length + 1 + (3 * unread + 1)
  | .awaiting => 3 * unread + 1
  | .sending _ => 2 + (3 * unread + 1)
  | .aborting => 2
  | .returned => 0

/-- A step of the task is a step less to go, and an item that it sends has still to be taken. -/
theorem Forwarder.work_step {M : Type} (forwards : M → Bool) (log : List (Event M))
    {f : Forwarder M} (h : f.outgoing ≠ none ∨ f.ready log) :
    (f.step forwards log).work log + f.outgoing.toList.length < f.work log := by
  unfold outgoing ready at h
  unfold work step outgoing
  cases hphase : f.phase with
  | snapshot rest =>
    cases rest with
    | nil => simp
    | cons message rest =>
      simp
      omega
  | awaiting =>
    simp only [hphase, ne_eq, not_true_eq_false, false_or, decide_eq_true_eq] at h
    rcases Receiver.recv_cases broadcastCapacity log f.updates with
      ⟨_, missed, hrecv⟩ | ⟨event, _, hrecv⟩ | ⟨hread, _⟩
    · simp only [hrecv]
      simp
      omega
    · simp only [hrecv]
      by_cases hold : event.sequence ≤ f.snapshotSequence
      · simp [hold]
        omega
      · by_cases hforward : forwards event.response
        · simp [hold, hforward]
          omega
        · simp [hold, hforward]
          omega
    · omega
  | sending message => simp; omega
  | aborting => simp
  | returned => simp [hphase] at h

/-- Every further event is one to read and at most one item. -/
theorem Forwarder.work_append {M : Type} (log more : List (Event M)) (f : Forwarder M) :
    f.work (log ++ more) ≤ f.work log + 3 * more.length := by
  unfold work
  rw [List.length_append]
  dsimp only
  split <;> omega

/-- A task that has not returned has something to do. -/
theorem Forwarder.work_pos {M : Type} (log : List (Event M)) {f : Forwarder M}
    (h : f.phase ≠ .returned) : 0 < f.work log := by
  unfold work
  dsimp only
  split <;> first | omega | contradiction

def Client.work {M : Type} (log : List (Event M)) : Client M → Nat
  | .forwarding _ _ f => f.work log
  | _ => 0

namespace Session

variable {emitted : List (Event (Message Fl))} {session session' : Session Fl}

/-- What the task and its client have still to do. -/
def work (emitted : List (Event (Message Fl))) (session : Session Fl) : Nat :=
  session.channel.queue.length +
    session.client.work (System.log session.subscription.stream emitted)

/-- Leaving is not work: a client may do it at any time. -/
def Action.works : Action → Bool
  | .forward | .notice | .receive => true
  | .disconnect => false

theorem work_of_moves {a : Action} (hmoves : session.Moves emitted a session') :
    (if a.works then 1 else 0) + session'.work emitted ≤ session.work emitted := by
  cases hmoves with
  | @sends readAt snapshot f item channel hclient hitem hoffer =>
    obtain ⟨-, hsent, htaken, -⟩ := Mpsc.offer_eq_sent hoffer
    have hstep := Forwarder.work_step session.subscription.stream.forwards
      (System.log session.subscription.stream emitted) (f := f) (Or.inl (by simp [hitem]))
    have hqueue : channel.queue.length ≤ session.channel.queue.length + 1 := by
      simp only [Mpsc.queue, hsent, htaken, List.length_drop, List.length_append]
      simp
      omega
    simp only [work, hclient, Client.work, Action.works, if_true]
    simp only [hitem, Option.toList_some, List.length_singleton] at hstep
    omega
  | @advances readAt snapshot f hclient hitem hready =>
    have hstep := Forwarder.work_step session.subscription.stream.forwards _ (Or.inr hready)
    simp only [work, hclient, Client.work, Action.works, if_true]
    omega
  | @fails readAt snapshot f item hclient hitem hclosed =>
    have hwork := Forwarder.work_pos (System.log session.subscription.stream emitted) (f := f)
      (fun hphase => by simp [Forwarder.outgoing, hphase] at hitem)
    simp only [work, hclient, Client.work, Action.works, if_true]
    have hreturned : f.hangUp.work (System.log session.subscription.stream emitted) = 0 := rfl
    omega
  | @notices readAt snapshot f hclient hphase hclosed =>
    have hwork := Forwarder.work_pos (System.log session.subscription.stream emitted) (f := f)
      (by simp [hphase])
    simp only [work, hclient, Client.work, Action.works, if_true]
    have hreturned : f.hangUp.work (System.log session.subscription.stream emitted) = 0 := rfl
    omega
  | @receives channel htake =>
    obtain ⟨hsent, htaken, -, -⟩ := Mpsc.take_eq_some htake
    have hle := channel.taken_le
    have hqueue : channel.queue.length + 1 = session.channel.queue.length := by
      simp only [Mpsc.queue, List.length_drop]
      rw [hsent, htaken] at *
      omega
    simp only [work, Action.works, if_true]
    omega
  | disconnects hclient =>
    simp only [Action.works, work]
    exact le_of_eq (Nat.zero_add _)

/-- There is a task, or there was one. -/
def Spawned (session : Session Fl) : Prop :=
  ∃ readAt snapshot f, session.client = .forwarding readAt snapshot f

theorem subscription_of_moves {a : Action} (hmoves : session.Moves emitted a session') :
    session'.subscription = session.subscription := by
  cases hmoves <;> rfl

theorem Spawned.of_moves {a : Action} (h : session.Spawned)
    (hmoves : session.Moves emitted a session') : session'.Spawned := by
  cases hmoves with
  | sends | advances | fails | notices => exact ⟨_, _, _, rfl⟩
  | receives | disconnects => exact h

theorem work_append (emitted more : List (Event (Message Fl))) (session : Session Fl) :
    session.work (emitted ++ more) ≤ session.work emitted +
      3 * (System.log (session.subscription.stream : Stream Fl) more).length := by
  unfold work
  rw [System.log_append]
  cases hclient : session.client with
  | forwarding readAt snapshot f =>
    have hwork := f.work_append (System.log session.subscription.stream emitted)
      (System.log session.subscription.stream more)
    simp only [Client.work]
    omega
  | absent => exact Nat.le_add_right _ _
  | subscribed updates => exact Nat.le_add_right _ _

end Session

namespace Sessions

/-- The task or the client of the session `k` does something other than leaving. -/
def Action.worksOn (k : CallId) : Action Fl → Bool
  | .session j a => j = k ∧ a.works
  | _ => false

/-- What the session `k` has still to do. -/
def work (k : CallId) (s : Sessions Fl) : Nat := (s.session k).elim 0 (·.work s.emitted)

/-- How many events there have been for a subscription. -/
def eventsFor (subscription : Subscription) (s : Sessions Fl) : Nat :=
  (System.log (subscription.stream : Stream Fl) s.emitted).length

theorem work_eq {s : Sessions Fl} {k : CallId} {session : Session Fl}
    (hsession : s.session k = some session) : s.work k = session.work s.emitted := by
  rw [work, hsession]
  rfl

/-- The session `k` has come to its task, for this subscription. -/
def Serves (k : CallId) (subscription : Subscription) (s : Sessions Fl) : Prop :=
  ∃ session, s.session k = some session ∧ session.subscription = subscription ∧ session.Spawned

/-- **Steps on a session are paid for** by what it had to do and the new events on its channel. -/
theorem work_of_step {s s' : Sessions Fl} {a : Action Fl} (hstep : step s a = some s') {k : CallId}
    {session : Session Fl} (hsession : s.session k = some session) (hspawned : session.Spawned) :
    ∃ session', s'.session k = some session' ∧ session'.subscription = session.subscription ∧
      session'.Spawned ∧
      (if a.worksOn k then 1 else 0) + session'.work s'.emitted +
          3 * s.eventsFor session.subscription ≤
        session.work s.emitted + 3 * s'.eventsFor session.subscription := by
  have hclient : ∀ updates, session.client ≠ .subscribed updates := by
    intro updates h
    obtain ⟨_, _, _, hspawned⟩ := hspawned
    cases h.symm.trans hspawned
  -- a step on another session leaves this one alone
  have hother : ∀ {j : CallId} (other : Session Fl), k ≠ j →
      (s.set j other).session k = some session :=
    fun other hj => (Function.update_of_ne hj _ _).trans hsession
  cases moves_of_step hstep with
  | write w hidle => exact ⟨session, hsession, rfl, hspawned, by simp [Action.worksOn, eventsFor]⟩
  | @send event rest hemitting =>
    refine ⟨session, hsession, rfl, hspawned, ?_⟩
    have hwork := session.work_append s.emitted [event]
    simp only [Action.worksOn, eventsFor, System.log_append, List.length_append]
    simp only [Bool.false_eq_true, if_false]
    omega
  | @subscribes j request subscription hnew haccept =>
    have hj : k ≠ j := fun hj => by simp [← hj, hsession] at hnew
    exact ⟨session, hother _ hj, rfl, hspawned, by simp [Action.worksOn, eventsFor, set]⟩
  | refuses => exact ⟨session, hsession, rfl, hspawned, by simp [Action.worksOn]⟩
  | @readSnapshot j session₀ updates order hsession₀ hsubscribed hidle =>
    have hj : k ≠ j := by
      rintro rfl
      obtain rfl := Option.some.inj (hsession.symm.trans hsession₀)
      exact hclient updates hsubscribed
    exact ⟨session, hother _ hj, rfl, hspawned, by simp [Action.worksOn, eventsFor, set]⟩
  | @session j session₀ a session' hsession₀ hlocal =>
    by_cases hj : k = j
    · subst hj
      obtain rfl := Option.some.inj (hsession.symm.trans hsession₀)
      have hmoves := Session.moves_of_step hlocal
      have hpaid := Session.work_of_moves hmoves
      refine ⟨session', Function.update_self _ _ _, Session.subscription_of_moves hmoves,
        hspawned.of_moves hmoves, ?_⟩
      simp only [Action.worksOn, eventsFor, set, true_and, Bool.decide_eq_true]
      omega
    · have hcounts : (Action.session j a : Action Fl).worksOn k = false := by
        simp [Action.worksOn, Ne.symm hj]
      exact ⟨session, hother _ hj, rfl, hspawned, by simp [hcounts, eventsFor, set]⟩

/-- **A session never has more to do than there is for it.**  From any state, in every run, whatever
the others do: the steps that the task of a session takes, with those in which its client takes an
item, are at most what they had to do at the start and three for each event that has been broadcast
on its channel since.  So a session comes to rest once the events do.  And in the state reached the
task of a client that has left can take a step, unless it has returned: it returns without waiting
for another event. -/
theorem session_work_bounded {s s' : Sessions Fl} {actions : List (Action Fl)}
    (hrun : run step s actions = some s') {k : CallId} {session : Session Fl}
    (hsession : s.session k = some session) {readAt snapshot f}
    (hclient : session.client = .forwarding readAt snapshot f) :
    ∃ session', s'.session k = some session' ∧ session'.subscription = session.subscription ∧
      actions.countP (·.worksOn k) + session'.work s'.emitted +
          3 * s.eventsFor session.subscription ≤
        session.work s.emitted + 3 * s'.eventsFor session.subscription ∧
      ∃ readAt' snapshot' f', session'.client = .forwarding readAt' snapshot' f' ∧
        (session'.channel.closed → f'.phase ≠ .returned →
          (step s' (.session k .forward)).isSome ∨ (step s' (.session k .notice)).isSome) := by
  have hstep : ∀ (t : Sessions Fl) a t', step t a = some t' → t.Serves k session.subscription →
      t'.Serves k session.subscription ∧
        (if a.worksOn k then 1 else 0) + t'.work k + 3 * t.eventsFor session.subscription ≤
          t.work k + 3 * t'.eventsFor session.subscription := by
    rintro t a t' hstep ⟨session₁, hsession₁, hsubscription₁, hspawned₁⟩
    obtain ⟨session₂, hsession₂, hsubscription₂, hspawned₂, hpaid⟩ :=
      work_of_step hstep hsession₁ hspawned₁
    refine ⟨⟨session₂, hsession₂, hsubscription₂.trans hsubscription₁, hspawned₂⟩, ?_⟩
    rw [work_eq hsession₁, work_eq hsession₂, ← hsubscription₁]
    exact hpaid
  obtain ⟨⟨session', hsession', hsubscription', readAt', snapshot', f', hclient'⟩, hpaid⟩ :=
    run_pays hstep hrun ⟨session, hsession, rfl, _, _, _, hclient⟩
  rw [work_eq hsession, work_eq hsession'] at hpaid
  refine ⟨session', hsession', hsubscription', hpaid, readAt', snapshot', f', hclient', ?_⟩
  intro hclosed hphase
  by_contra hstuck
  simp only [step, hsession', Option.bind_some, Option.isSome_map, Session.step, not_or,
    Option.not_isSome_iff_eq_none] at hstuck
  exact hphase (Session.returned_of_closed hclient' hclosed hstuck.1 hstuck.2)

/-- The last client leaves while its task is at the `select!`, where there is no event. -/
theorem session_work_bounded_sample :
    let leaving := (mingling.drop 8).take 3
    ∃ s s' session, after (mingling.take 8) = some s ∧ run step s leaving = some s' ∧
      s.session 2 = some session ∧
      ∃ session', s'.session 2 = some session' ∧ session'.subscription = session.subscription ∧
        leaving.countP (·.worksOn 2) + session'.work s'.emitted +
            3 * s.eventsFor session.subscription ≤
          session.work s.emitted + 3 * s'.eventsFor session.subscription ∧
        ∃ readAt' snapshot' f', session'.client = .forwarding readAt' snapshot' f' ∧
          (session'.channel.closed → f'.phase ≠ .returned →
            (step s' (.session 2 .forward)).isSome ∨ (step s' (.session 2 .notice)).isSome) :=
  ⟨_, _, _, rfl, rfl, rfl, session_work_bounded rfl rfl rfl⟩

end Sessions

end MinervaServer
