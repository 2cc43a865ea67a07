/-
# Many subscribers, each with its channel

`subscribe_group_updates` and `subscribe_simulation_updates` of the two services, and what becomes
of their streams: any number of sessions on one cache.  A session is one call.  It checks its
request, creates its receiver, reads its snapshot and spawns its forwarding task; and between the
task and the client there is a bounded channel, so that a client that does not read makes its task
wait, and a client that went away makes it return.

`Subscription.lean` has one subscriber and lets its task send whenever it likes.  Here a task sends
when there is room.  Still each session by itself is a run of that system (`Sessions.reaches`), so
what is proved there of one subscriber holds of every one of many.
-/
import MinervaServer.SimulationConvergence
import MinervaServer.Services
import MinervaServer.Lib.Mpsc

namespace MinervaServer

open Lib

variable {Fl : Floats}

/-! ## 1. What a task waits for -/

namespace Forwarder

variable {M : Type}

/-- What the task is about to send. -/
def outgoing (f : Forwarder M) : Option (Except Status M) :=
  match f.phase with
  | .snapshot (message :: _) | .sending message => some (.ok message)
  | .aborting => some (.error .lagged)
  | .snapshot [] | .awaiting | .returned => none

/-- The task has something to do other than sending: it comes to its loop, or `updates.recv()` is
ready. -/
def ready (log : List (Event M)) (f : Forwarder M) : Bool :=
  match f.phase with
  | .snapshot [] => true
  | .awaiting => f.updates.next < log.length
  | .snapshot (_ :: _) | .sending _ | .aborting | .returned => false

end Forwarder

/-! ## 2. A session -/

/-- `SUBSCRIBER_CHANNEL_CAPACITY`, of either service. -/
def subscriberChannelCapacity : Nat := 16

/-- What a session is subscribed to. -/
inductive Subscription where
  | groups (side : Option Proto.Side)
  | simulation
  deriving DecidableEq, Repr

def Subscription.stream : Subscription → Stream Fl
  | groups side => groupStream side
  | simulation => simulationStream

/-- What a client asks for. -/
inductive SubscribeRequest where
  | groups (request : Proto.SubscribeGroupUpdatesRequest)
  | simulation

/-- `subscribe_group_updates` and `subscribe_simulation_updates`, before they touch the cache. -/
def SubscribeRequest.subscription : SubscribeRequest → Except Status Subscription
  | groups request => do
    let side ← parseSide request.side
    return .groups side
  | simulation => .ok .simulation

/-- A session: what it is subscribed to, how far it is, and the channel to its client. -/
structure Session (Fl : Floats) where
  subscription : Subscription
  client : Client (subscription.stream : Stream Fl).M
  channel : Mpsc subscriberChannelCapacity (Except Status (subscription.stream : Stream Fl).M) := {}

namespace Session

/-- The task takes a step, from one `await` to the next: it sends, if there is room, or takes the
`updates.recv()` branch of its `select!`.  `none`: it waits, or there is no task. -/
def forward (emitted : List (Event (Message Fl))) (session : Session Fl) : Option (Session Fl) :=
  match session.client with
  | .forwarding readAt snapshot f =>
    let log := System.log session.subscription.stream emitted
    let next := session.subscription.stream.forward log f
    match f.outgoing with
    | some item =>
      match session.channel.offer item with
      | .sent channel => some { session with client := .forwarding readAt snapshot next, channel }
      | .full => none
      -- `tx.send` fails
      | .closed => some { session with client := .forwarding readAt snapshot f.hangUp }
    | none =>
      if f.ready log then some { session with client := .forwarding readAt snapshot next }
      else none
  | _ => none

/-- The task takes the `tx.closed()` branch of its `select!`. -/
def notice (session : Session Fl) : Option (Session Fl) :=
  match session.client with
  | .forwarding readAt snapshot f =>
    match f.phase, session.channel.closed with
    | .awaiting, true => some { session with client := .forwarding readAt snapshot f.hangUp }
    | _, _ => none
  | _ => none

/-- The client takes the next item of its stream. -/
def receive (session : Session Fl) : Option (Session Fl) :=
  session.channel.take.map fun channel => { session with channel }

/-- The client drops its stream. -/
def disconnect (session : Session Fl) : Option (Session Fl) :=
  match session.client with
  | .forwarding _ _ _ => some { session with channel := session.channel.close }
  | _ => none

inductive Action where
  | forward
  | notice
  | receive
  | disconnect
  deriving DecidableEq, Repr

/-- What the task or the client of the session does. -/
def step (emitted : List (Event (Message Fl))) (session : Session Fl) :
    Action → Option (Session Fl)
  | .forward => session.forward emitted
  | .notice => session.notice
  | .receive => session.receive
  | .disconnect => session.disconnect

end Session

/-! ## 3. All of them -/

/-- What the transport tells the calls apart by. -/
abbrev CallId := Nat

/-- The cache as in `System`, and the sessions. -/
structure Sessions (Fl : Floats) where
  inner : Inner Fl := {}
  emitted : List (Event (Message Fl)) := []
  emitting : List (Event (Message Fl)) := []
  session : CallId → Option (Session Fl) := fun _ => none

namespace Sessions

inductive Action (Fl : Floats) where
  | write (w : Write Fl)
  /-- The write in progress sends its next broadcast. -/
  | send
  | subscribe (k : CallId) (request : SubscribeRequest)
  | readSnapshot (k : CallId) (order : IterOrder GroupId)
  /-- The task or the client of the session `k` does something. -/
  | session (k : CallId) (a : Session.Action)

def set (s : Sessions Fl) (k : CallId) (session : Session Fl) : Sessions Fl :=
  { s with session := Function.update s.session k (some session) }

/-- One action.  `none`: it is not possible now. -/
def step (s : Sessions Fl) : Action Fl → Option (Sessions Fl)
  | .write w =>
    match s.emitting with
    | [] =>
      let c := (⟨s.inner, []⟩ : StateCache Fl).write w
      some { s with inner := c.inner, emitting := c.sent }
    | _ :: _ => none
  | .send =>
    match s.emitting with
    | [] => none
    | event :: rest => some { s with emitted := s.emitted ++ [event], emitting := rest }
  | .subscribe k request =>
    match s.session k with
    | some _ => none
    | none =>
      match request.subscription with
      | .ok subscription =>
        let updates := Receiver.subscribe (System.log (subscription.stream : Stream Fl) s.emitted)
        some (s.set k { subscription, client := .subscribed updates })
      -- refused with a status, and nothing has been touched
      | .error _ => some s
  | .readSnapshot k order =>
    (s.session k).bind fun session =>
      match session.client, s.emitting with
      | .subscribed updates, [] =>
        let (snapshot, snapshotSequence) := session.subscription.stream.snapshot order s.inner
        let task := ⟨snapshotSequence, updates, .snapshot snapshot, []⟩
        some (s.set k { session with client := .forwarding s.emitted.length snapshot task })
      | _, _ => none
  | .session k a => (s.session k).bind fun session => (session.step s.emitted a).map (s.set k)

/-- The run of `actions` from a new cache. -/
abbrev after (actions : List (Action Fl)) : Option (Sessions Fl) := run step {} actions

/-- The system of one of the sessions. -/
def system (s : Sessions Fl) (session : Session Fl) : System (session.subscription.stream : Stream Fl) where
  inner := s.inner
  emitted := s.emitted
  emitting := s.emitting
  client := session.client

end Sessions

/-! ## 4. Steps -/

/-- What a session can do, each with what it takes. -/
inductive Session.Moves (emitted : List (Event (Message Fl))) (session : Session Fl) :
    Session.Action → Session Fl → Prop where
  | sends {readAt snapshot f item channel} (hclient : session.client = .forwarding readAt snapshot f)
      (hitem : f.outgoing = some item) (hoffer : session.channel.offer item = .sent channel) :
      Moves emitted session .forward { session with
        client := .forwarding readAt snapshot (f.step session.subscription.stream.forwards
          (System.log session.subscription.stream emitted))
        channel }
  | advances {readAt snapshot f} (hclient : session.client = .forwarding readAt snapshot f)
      (hitem : f.outgoing = none)
      (hready : f.ready (System.log session.subscription.stream emitted)) :
      Moves emitted session .forward { session with
        client := .forwarding readAt snapshot (f.step session.subscription.stream.forwards
          (System.log session.subscription.stream emitted)) }
  | fails {readAt snapshot f item} (hclient : session.client = .forwarding readAt snapshot f)
      (hitem : f.outgoing = some item) (hclosed : session.channel.closed) :
      Moves emitted session .forward
        { session with client := .forwarding readAt snapshot f.hangUp }
  | notices {readAt snapshot f} (hclient : session.client = .forwarding readAt snapshot f)
      (hphase : f.phase = .awaiting) (hclosed : session.channel.closed) :
      Moves emitted session .notice
        { session with client := .forwarding readAt snapshot f.hangUp }
  | receives {channel} (htake : session.channel.take = some channel) :
      Moves emitted session .receive { session with channel }
  | disconnects {readAt snapshot f} (hclient : session.client = .forwarding readAt snapshot f) :
      Moves emitted session .disconnect { session with channel := session.channel.close }

theorem Session.moves_of_step {emitted : List (Event (Message Fl))} {session session' : Session Fl}
    {a : Session.Action} (h : session.step emitted a = some session') :
    session.Moves emitted a session' := by
  cases a with
  | forward =>
    unfold step forward at h
    cases hclient : session.client with
    | forwarding readAt snapshot f =>
      simp only [hclient] at h
      cases hitem : f.outgoing with
      | some item =>
        simp only [hitem] at h
        cases hoffer : session.channel.offer item with
        | sent channel =>
          simp only [hoffer, Stream.forward_eq, Option.some.injEq] at h
          exact h ▸ .sends hclient hitem hoffer
        | full => simp [hoffer] at h
        | closed =>
          simp only [hoffer, Option.some.injEq] at h
          exact h ▸ .fails hclient hitem (Mpsc.offer_eq_closed.mp hoffer)
      | none =>
        simp only [hitem, Stream.forward_eq] at h
        obtain ⟨hready, h⟩ := Option.ite_none_right_eq_some.mp h
        obtain rfl := Option.some.inj h
        exact .advances hclient hitem hready
    | absent => simp [hclient] at h
    | subscribed updates => simp [hclient] at h
  | notice =>
    unfold step notice at h
    cases hclient : session.client with
    | forwarding readAt snapshot f =>
      simp only [hclient] at h
      split at h
      · next hphase hclosed =>
        obtain rfl := Option.some.inj h
        exact .notices hclient hphase hclosed
      · cases h
    | absent => simp [hclient] at h
    | subscribed updates => simp [hclient] at h
  | receive =>
    obtain ⟨channel, htake, rfl⟩ := Option.map_eq_some_iff.mp h
    exact .receives htake
  | disconnect =>
    simp only [step, disconnect] at h
    split at h
    · next hclient =>
      obtain rfl := Option.some.inj h
      exact .disconnects hclient
    · cases h

/-- What can happen. -/
inductive Sessions.Moves (s : Sessions Fl) : Sessions.Action Fl → Sessions Fl → Prop where
  | write (w : Write Fl) (hidle : s.emitting = []) : Moves s (.write w) { s with
      inner := ((⟨s.inner, []⟩ : StateCache Fl).write w).inner
      emitting := ((⟨s.inner, []⟩ : StateCache Fl).write w).sent }
  | send {event rest} (hemitting : s.emitting = event :: rest) :
      Moves s .send { s with emitted := s.emitted ++ [event], emitting := rest }
  | subscribes {k request subscription} (hnew : s.session k = none)
      (haccept : request.subscription = .ok subscription) :
      Moves s (.subscribe k request) (s.set k {
        subscription
        client := .subscribed (.subscribe (System.log subscription.stream s.emitted)) })
  | refuses {k request status} (hnew : s.session k = none)
      (hrefuse : request.subscription = .error status) : Moves s (.subscribe k request) s
  | readSnapshot {k session updates} (order : IterOrder GroupId)
      (hsession : s.session k = some session) (hclient : session.client = .subscribed updates)
      (hidle : s.emitting = []) : Moves s (.readSnapshot k order) (s.set k { session with
        client := .forwarding s.emitted.length
          (session.subscription.stream.snapshot order s.inner).1
          ⟨s.inner.sequence, updates,
            .snapshot (session.subscription.stream.snapshot order s.inner).1, []⟩ })
  | session {k session a session'} (hsession : s.session k = some session)
      (hlocal : session.step s.emitted a = some session') :
      Moves s (.session k a) (s.set k session')

theorem Sessions.moves_of_step {s s' : Sessions Fl} {a : Sessions.Action Fl}
    (h : step s a = some s') : Moves s a s' := by
  cases a with
  | write w =>
    simp only [step] at h
    split at h
    · next hidle =>
      obtain rfl := Option.some.inj h
      exact .write w hidle
    · cases h
  | send =>
    simp only [step] at h
    split at h
    · cases h
    · next hemitting =>
      obtain rfl := Option.some.inj h
      exact .send hemitting
  | subscribe k request =>
    simp only [step] at h
    split at h
    · cases h
    · next hnew =>
      split at h
      · next haccept =>
        obtain rfl := Option.some.inj h
        exact .subscribes hnew haccept
      · next hrefuse =>
        obtain rfl := Option.some.inj h
        exact .refuses hnew hrefuse
  | readSnapshot k order =>
    obtain ⟨session, hsession, h⟩ := Option.bind_eq_some_iff.mp h
    split at h
    · next hclient hidle =>
      simp only [Stream.snapshot_sequence, Option.some.injEq] at h
      obtain rfl := h
      exact .readSnapshot order hsession hclient hidle
    · cases h
  | session k a =>
    obtain ⟨session, hsession, h⟩ := Option.bind_eq_some_iff.mp h
    obtain ⟨session', hstep, rfl⟩ := Option.map_eq_some_iff.mp h
    exact .session hsession hstep

/-! ## 5. One session by itself -/

theorem System.Reaches.step {stream : Stream Fl} {s s' : System stream} {a : MinervaServer.Action Fl}
    (h : s.Reaches) (hstep : s.step a = some s') : s'.Reaches := by
  obtain ⟨actions, hrun⟩ := h
  exact ⟨actions ++ [a], run_append.mpr ⟨s, hrun, by rw [run_cons, hstep]; rfl⟩⟩

namespace Sessions

/-- Before there is a session, and for every session there is, the one-subscriber system comes to
this state. -/
structure Refines (s : Sessions Fl) : Prop where
  absent : ∀ stream, (⟨s.inner, s.emitted, s.emitting, .absent⟩ : System stream).Reaches
  session : ∀ k session, s.session k = some session → (s.system session).Reaches

theorem refines_init : Refines ({} : Sessions Fl) := ⟨fun _ => ⟨[], rfl⟩, nofun⟩

/-- A session that is replaced, and the others. -/
theorem Refines.set {s : Sessions Fl} (h : s.Refines) {k : CallId} {session : Session Fl}
    (hsession : (s.system session).Reaches) : (s.set k session).Refines := by
  refine ⟨h.absent, fun j session' hsession' => ?_⟩
  by_cases hj : j = k
  · subst hj
    obtain rfl : session = session' := by simpa [Sessions.set] using hsession'
    exact hsession
  · refine h.session j session' ?_
    simpa [Sessions.set, Function.update_of_ne hj] using hsession'

/-- What a session does is what its task or its client may do in the one-subscriber system, if
anything. -/
theorem reaches_of_moves {s : Sessions Fl} {session session' : Session Fl} {a : Session.Action}
    (hreaches : (s.system session).Reaches) (hmoves : session.Moves s.emitted a session') :
    (s.system session').Reaches := by
  cases hmoves with
  | sends hclient | advances hclient =>
    refine hreaches.step (a := .forward) ?_
    simp only [System.step, system, hclient, Stream.forward_eq]
  | fails hclient | notices hclient =>
    refine hreaches.step (a := .hangUp) ?_
    simp only [System.step, system, hclient]
  | receives => exact hreaches
  | disconnects => exact hreaches

theorem Refines.step {s s' : Sessions Fl} {a : Action Fl} (h : s.Refines)
    (hstep : step s a = some s') : s'.Refines := by
  cases moves_of_step hstep with
  | write w hidle =>
    refine ⟨fun stream => ?_, fun k session hsession => ?_⟩
    · refine (h.absent stream).step (a := .write w) ?_
      simp only [System.step, hidle]
    · refine (h.session k session hsession).step (a := .write w) ?_
      simp only [System.step, system, hidle]
  | send hemitting =>
    refine ⟨fun stream => ?_, fun k session hsession => ?_⟩
    · refine (h.absent stream).step (a := .send) ?_
      simp only [System.step, hemitting]
    · refine (h.session k session hsession).step (a := .send) ?_
      simp only [System.step, system, hemitting]
  | subscribes => exact h.set ((h.absent _).step (a := .subscribe) rfl)
  | refuses => exact h
  | readSnapshot order hsession hclient hidle =>
    refine h.set ((h.session _ _ hsession).step (a := .readSnapshot order) ?_)
    simp only [System.step, system, hclient, hidle, Stream.snapshot_sequence]
  | session hsession hlocal =>
    exact h.set (reaches_of_moves (h.session _ _ hsession) (Session.moves_of_step hlocal))

/-- **One session of many is a subscriber by itself.** -/
theorem reaches {actions : List (Action Fl)} {s : Sessions Fl} (hrun : after actions = some s)
    {k : CallId} {session : Session Fl} (hsession : s.session k = some session) :
    (s.system session).Reaches :=
  (run_invariant (P := Refines) (fun _ _ _ hstep h => h.step hstep) hrun refines_init).session k
    session hsession

/-! ## 6. The others -/

/-- The engine's own actions, and those of the session `k`. -/
def Action.concerns (k : CallId) : Action Fl → Bool
  | .write _ | .send => true
  | .subscribe j _ | .readSnapshot j _ | .session j _ => j = k

/-- The same cache, and the same session `k`. -/
structure SameFor (k : CallId) (s s' : Sessions Fl) : Prop where
  inner : s'.inner = s.inner
  emitted : s'.emitted = s.emitted
  emitting : s'.emitting = s.emitting
  session : s'.session k = s.session k

theorem SameFor.set {k : CallId} {s t : Sessions Fl} (h : SameFor k s t) (session : Session Fl) :
    SameFor k (s.set k session) (t.set k session) :=
  ⟨h.inner, h.emitted, h.emitting, by simp [Sessions.set]⟩

/-- An action of the engine or of the session `k` does not look at the others. -/
theorem SameFor.step {k : CallId} {s t s' : Sessions Fl} {a : Action Fl} (h : SameFor k s t)
    (hstep : step s a = some s') (ha : a.concerns k) :
    ∃ t', step t a = some t' ∧ SameFor k s' t' := by
  cases moves_of_step hstep with
  | write w hidle =>
    refine ⟨{ t with inner := _, emitting := _ }, ?_, ⟨rfl, h.emitted, rfl, h.session⟩⟩
    simp only [Sessions.step, h.emitting, hidle, h.inner]
  | @send event rest hemitting =>
    refine ⟨{ t with emitted := s.emitted ++ [event], emitting := rest }, ?_,
      ⟨h.inner, rfl, rfl, h.session⟩⟩
    simp only [Sessions.step, h.emitting, hemitting, h.emitted]
  | @subscribes j request subscription hnew haccept =>
    obtain rfl : j = k := of_decide_eq_true ha
    refine ⟨t.set j _, ?_, h.set _⟩
    simp only [Sessions.step, h.session, hnew, haccept, h.emitted]
  | @refuses j request status hnew hrefuse =>
    obtain rfl : j = k := of_decide_eq_true ha
    refine ⟨t, ?_, h⟩
    simp only [Sessions.step, h.session, hnew, hrefuse]
  | @readSnapshot j session updates order hsession hclient hidle =>
    obtain rfl : j = k := of_decide_eq_true ha
    refine ⟨t.set j _, ?_, h.set _⟩
    simp only [Sessions.step, h.session, hsession, Option.bind_some, hclient, h.emitting, hidle,
      h.inner, h.emitted, Stream.snapshot_sequence]
  | @session j session a session' hsession hlocal =>
    obtain rfl : j = k := of_decide_eq_true ha
    refine ⟨t.set j session', ?_, h.set _⟩
    simp only [Sessions.step, h.session, hsession, Option.bind_some, h.emitted, hlocal,
      Option.map_some]

/-- An action of another session does nothing to these. -/
theorem SameFor.skip {k : CallId} {s t s' : Sessions Fl} {a : Action Fl} (h : SameFor k s t)
    (hstep : Sessions.step s a = some s') (ha : ¬ a.concerns k) : SameFor k s' t := by
  have hset : ∀ {j : CallId}, j ≠ k → ∀ session, SameFor k (s.set j session) t := fun hj session =>
    ⟨h.inner, h.emitted, h.emitting, h.session.trans (Function.update_of_ne (Ne.symm hj) _ _).symm⟩
  cases moves_of_step hstep with
  | write => exact absurd rfl ha
  | send => exact absurd rfl ha
  | refuses => exact h
  | subscribes | readSnapshot | session => exact hset (by simpa [Action.concerns] using ha) _

/-- **Sessions do not touch each other.**  Whatever the other clients do, connect, ask for sides that
do not exist, read fast, slowly or not at all, leave: take all of it out of the run, and the cache,
its broadcasts and the session `k` are what they were. -/
theorem sessions_isolated {actions : List (Action Fl)} {s : Sessions Fl}
    (hrun : after actions = some s) (k : CallId) :
    ∃ s', after (actions.filter (·.concerns k)) = some s' ∧ SameFor k s s' := by
  refine run_filter (R := SameFor k) ?_ ?_ hrun ⟨rfl, rfl, rfl, rfl⟩
  · exact fun _ _ _ _ hstep ha h => h.step hstep ha
  · exact fun _ _ _ _ hstep ha h => h.skip hstep ha

/-- Two subscribers, one of which leaves, and a third who is refused. -/
def mingling : List (Action Floats.bits) :=
  [.subscribe 0 (.groups ⟨none⟩), .subscribe 1 (.groups ⟨some 99⟩),
    .write (.upsertGroup (.sample "A" .blufor)), .subscribe 2 .simulation, .send,
    .readSnapshot 2 .ascending, .readSnapshot 0 .descending, .session 2 .forward,
    .session 0 .forward, .session 2 .disconnect, .session 0 .receive, .session 2 .notice]

theorem sessions_isolated_sample :
    ∃ s s', after mingling = some s ∧ after (mingling.filter (·.concerns 0)) = some s' ∧
      SameFor 0 s s' := by
  obtain ⟨s', hrun, hsame⟩ := sessions_isolated (show after mingling = some _ from rfl) 0
  exact ⟨_, s', rfl, hrun, hsame⟩

end Sessions

end MinervaServer
