/-
# The command dispatcher

`src/commands.rs`: `Dispatcher`, the futures of its `send` calls, `complete`, `cancel_all` and
the `RemovePending` guard.

The lock around `pending` is reentrant and `send` holds it across the call to the engine's
`dispatch`.  So to other threads `send`'s critical section is one step, but on the thread that
holds the lock anything may happen inside `dispatch`: acknowledgements, cancellations, further
sends, dropped futures, a panic.  The model keeps the two apart.  What runs between taking and
releasing the lock WITHOUT calling foreign code is one function here (`insertPending`,
`complete`, `cancelAll`, `removePending`); a `send` goes through the STAGES between them; and
`mayLock` says who can take the lock: everybody if it is free, and otherwise the thread that
holds it, while it is inside the `dispatch` of its innermost `send`.  (Using a sender only
schedules the task that waits, and runs no foreign code.)

Every call of `send` has an entry in `sends`, in the order of their ids, and the sender halves
that `pending` holds are the positions of those entries.  `trace` records what the engine and
the callers got to see.
-/
import MinervaServer.Proto
import MinervaServer.Lib.Oneshot
import MinervaServer.Lib.Runs

namespace MinervaServer

open Lib

variable {Fl : Floats}

/-! ## 1. Commands and outcomes -/

/-- Domain form of `SendCommandRequest`. -/
inductive Command (Fl : Floats) where
  | move (groupId : GroupId) (position : Proto.CommandTarget Fl)
  | searchAndDestroy (groupId : GroupId) (position : Proto.CommandTarget Fl)
  | defendZone (groupId : GroupId) (zoneId : String) (position : Option (Proto.CommandTarget Fl))
  | patrol (groupId : GroupId) (waypoints : List (Proto.CommandTarget Fl)) (loop : Bool)
  | support (supporterGroupId supportedGroupId : GroupId) (supportType : String)
  deriving DecidableEq

/-- A command, for runs that are evaluated. -/
def Command.sample : Command Floats.bits := .move (.ofStr "g1") ⟨(0 : UInt64), (0 : UInt64), none⟩

/-- Outcome of a dispatched command. -/
inductive CommandOutcome where
  | success
  | failure (reason : String)
  deriving DecidableEq, Repr

/-- The outcome of a command that `cancel_all` drained. -/
def CommandOutcome.cancelled : CommandOutcome := .failure "cancelled"

/-- The outcome of a command that was not acknowledged in time. -/
def CommandOutcome.timeout : CommandOutcome := .failure "timeout"

/-- The three arms of the `match` on `timeout(self.timeout, rx).await`. -/
inductive Arm where
  | delivered (outcome : CommandOutcome)
  | senderDropped
  | elapsed
  deriving DecidableEq, Repr

/-- What `send` returns in each arm. -/
def Arm.outcome : Arm → CommandOutcome
  | .delivered outcome => outcome
  | .senderDropped => .failure "cancelled"
  | .elapsed => .failure "timeout"

/-! ## 2. The state -/

/-- Where a call of `send` is: its id is allocated; its entry is inserted; it is inside
`sink.dispatch`; its future waits; the await has resolved and the guard is about to be dropped;
the guard is about to be dropped by a panic, or because the future is dropped; and the three
ways it can have ended. -/
inductive Stage where
  | allocated
  | inserted
  | dispatching
  | awaiting
  | resolved (arm : Arm)
  | unwinding
  | dropping
  | returned (arm : Arm)
  | panicked
  | dropped
  deriving DecidableEq, Repr

/-- One call of `send`. -/
structure SendFuture (Fl : Floats) where
  id : CommandId
  command : Command Fl
  channel : Oneshot CommandOutcome := {}
  /-- The timeout has passed. -/
  expired : Bool := false
  stage : Stage := .allocated
  deriving DecidableEq

namespace SendFuture

/-- What the call asks for, under the id it was given. -/
def request (send : SendFuture Fl) : CommandId × Command Fl := (send.id, send.command)

/-- The sender half of the call's channel is used. -/
def deliver (send : SendFuture Fl) (outcome : CommandOutcome) : SendFuture Fl :=
  { send with channel := send.channel.send outcome }

/-- The sender half of the call's channel is dropped. -/
def dropSender (send : SendFuture Fl) : SendFuture Fl :=
  { send with channel := send.channel.dropSender }

/-- The receiver is dropped, with the await that held it. -/
def dropReceiver (send : SendFuture Fl) : SendFuture Fl :=
  { send with channel := send.channel.dropReceiver }

def enter (send : SendFuture Fl) (stage : Stage) : SendFuture Fl := { send with stage }

def expire (send : SendFuture Fl) : SendFuture Fl := { send with expired := true }

/-- What polling does to a call that waits: `timeout` reads the channel and then, if there is
nothing in it, the timer; when the await resolves the receiver is dropped.  Nothing happens between
the two reads.  That is an assumption, and `Polling.lean` does without it. -/
def poll (send : SendFuture Fl) : SendFuture Fl :=
  match send.channel.poll with
  | .ready outcome => send.dropReceiver.enter (.resolved (.delivered outcome))
  | .closed => send.dropReceiver.enter (.resolved .senderDropped)
  | .pending => if send.expired then send.dropReceiver.enter (.resolved .elapsed) else send

theorem poll_request (send : SendFuture Fl) : send.poll.request = send.request := by
  unfold poll
  split
  · rfl
  · rfl
  · split <;> rfl

@[simp] theorem poll_id (send : SendFuture Fl) : send.poll.id = send.id :=
  congrArg Prod.fst send.poll_request

end SendFuture

/-- The stage a call goes to when its guard has been dropped. -/
def Stage.ended : Stage → Option Stage
  | .resolved arm => some (.returned arm)
  | .unwinding => some .panicked
  | .dropping => some .dropped
  | _ => none

/-- The call has inserted its entry and is not over. -/
def Stage.live : Stage → Bool
  | .inserted | .dispatching | .awaiting | .resolved _ | .unwinding | .dropping => true
  | .allocated | .returned _ | .panicked | .dropped => false

/-- The call has returned, has panicked, or was dropped. -/
def Stage.over : Stage → Bool
  | .returned _ | .panicked | .dropped => true
  | .allocated | .inserted | .dispatching | .awaiting | .resolved _ | .unwinding | .dropping =>
    false

/-- What the caller of a `send` that has ended this way gets. -/
def Stage.result : Stage → Option CommandOutcome
  | .returned arm => some arm.outcome
  | _ => none

/-- What the engine and the callers get to see. -/
inductive Observation (Fl : Floats) where
  /-- `send` inserted the entry of this id. -/
  | inserted (id : CommandId)
  /-- The engine was handed a command. -/
  | dispatched (id : CommandId) (command : Command Fl)
  /-- `complete(id, outcome)` returned. -/
  | completed (id : CommandId) (outcome : CommandOutcome) (acknowledged : Bool)
  /-- `cancel_all` drained these ids. -/
  | cancelledAll (drained : List CommandId)
  /-- The guard of this id was dropped, and it did or did not find the entry. -/
  | cleaned (id : CommandId) (found : Bool)
  /-- `send` returned to its caller. -/
  | returned (id : CommandId) (outcome : CommandOutcome)
  deriving DecidableEq

abbrev ThreadId := Nat

structure Dispatcher (Fl : Floats) where
  ids : CommandIdAllocator := {}
  sends : List (SendFuture Fl) := []
  /-- The position in `sends` stands for the sender half of that call's channel. -/
  pending : HashMap CommandId Nat := ∅
  /-- The sends whose critical section is open, innermost first; all on the thread `holder`. -/
  frames : List Nat := []
  holder : ThreadId := 0
  trace : List (Observation Fl) := []

namespace Dispatcher

def stageOf (d : Dispatcher Fl) (k : Nat) : Option Stage := d.sends[k]?.map SendFuture.stage

/-- The thread `t` can take the lock now. -/
def mayLock (d : Dispatcher Fl) (t : ThreadId) : Bool :=
  match d.frames with
  | [] => true
  | k :: _ => d.holder = t && d.stageOf k = some .dispatching

/-- Change one call. -/
def modifySend (d : Dispatcher Fl) (k : Nat) (f : SendFuture Fl → SendFuture Fl) :
    Dispatcher Fl :=
  { d with sends := d.sends.modify k f }

def observe (d : Dispatcher Fl) (o : Observation Fl) : Dispatcher Fl :=
  { d with trace := d.trace ++ [o] }

/-! ## 3. The critical sections -/

/-- The entry that was there, if any, is dropped, and its sender half with it. -/
def dropEntry (d : Dispatcher Fl) (id : CommandId) : Dispatcher Fl :=
  match d.pending[id]? with
  | some j => { d.modifySend j SendFuture.dropSender with pending := d.pending.erase id }
  | none => d

/-- `pending.borrow_mut().insert(id, tx)`. -/
def insertPending (d : Dispatcher Fl) (id : CommandId) (k : Nat) : Dispatcher Fl :=
  let d := d.dropEntry id
  { d with pending := d.pending.insert id k }

/-- `Drop for RemovePending`: whether there was an entry to remove is for the trace. -/
def removePending (d : Dispatcher Fl) (id : CommandId) : Dispatcher Fl × Bool :=
  (d.dropEntry id, d.pending.contains id)

/-- `Dispatcher::complete`. -/
def complete (d : Dispatcher Fl) (id : CommandId) (outcome : CommandOutcome) :
    Dispatcher Fl × Bool :=
  match d.pending[id]? with
  | some j =>
    ({ d.modifySend j (·.deliver outcome) with pending := d.pending.erase id }, true)
  | none => (d, false)

/-- `Dispatcher::cancel_all`, in the order its `drain` iterates. -/
def cancelAll (order : IterOrder CommandId) (d : Dispatcher Fl) :
    Dispatcher Fl × List CommandId :=
  let drained := entries order d.pending
  ({ d with
      sends := drained.foldl (fun sends (_, j) => sends.modify j (·.deliver .cancelled)) d.sends
      pending := ∅ },
    drained.map Prod.fst)

/-! ## 4. Steps -/

/-- One step of anybody. -/
inductive Action (Fl : Floats) where
  /-- A new call of `send`: it allocates its id and makes its channel. -/
  | allocate (command : Command Fl)
  /-- The call `k` takes the lock on thread `t` and inserts its entry. -/
  | enter (t : ThreadId) (k : Nat)
  /-- The call `k` enters `sink.dispatch`. -/
  | dispatch (k : Nat)
  /-- `sink.dispatch` returns: the lock is released and the future waits. -/
  | dispatchReturns (k : Nat)
  /-- `sink.dispatch` panics: the lock is released and the frame unwinds. -/
  | dispatchPanics (k : Nat)
  | timerExpires (k : Nat)
  /-- The future of the call `k` is polled. -/
  | poll (k : Nat)
  /-- The future of the call `k` is dropped at its await. -/
  | dropFuture (k : Nat)
  /-- The guard of the call `k` is dropped on thread `t`. -/
  | dropGuard (t : ThreadId) (k : Nat)
  | complete (t : ThreadId) (id : CommandId) (outcome : CommandOutcome)
  | cancelAll (t : ThreadId) (order : IterOrder CommandId)

/-- The steps that end the call `k`, or bring it towards its end. -/
def Action.ends (k : Nat) : Action Fl → Bool
  | .dispatchPanics j | .poll j | .dropFuture j | .dropGuard _ j => j = k
  | _ => false

/-- `let id = self.ids.next(); let (tx, rx) = oneshot::channel();` -/
def allocate (d : Dispatcher Fl) (command : Command Fl) : Dispatcher Fl :=
  let (id, ids) := d.ids.next
  { d with ids, sends := d.sends ++ [{ id, command }] }

/-- The call `k` opens its critical section. -/
def enter (d : Dispatcher Fl) (t : ThreadId) (k : Nat) (id : CommandId) : Dispatcher Fl :=
  { (d.insertPending id k).modifySend k (·.enter .inserted) with
    frames := k :: d.frames
    holder := t
    trace := d.trace ++ [.inserted id] }

/-- The call `k` enters `sink.dispatch(id, &command)`. -/
def dispatch (d : Dispatcher Fl) (k : Nat) (send : SendFuture Fl) : Dispatcher Fl :=
  { d.modifySend k (·.enter .dispatching) with
    trace := d.trace ++ [.dispatched send.id send.command] }

/-- The call `k` releases the lock and goes to `stage`. -/
def leave (d : Dispatcher Fl) (k : Nat) (stage : Stage) : Dispatcher Fl :=
  { d.modifySend k (·.enter stage) with frames := d.frames.tail }

/-- The call `k` drops its guard and is over; `send` returns if its await had resolved. -/
def cleanUp (d : Dispatcher Fl) (k : Nat) (id : CommandId) (ended : Stage) : Dispatcher Fl :=
  let (cleaned, found) := d.removePending id
  { cleaned.modifySend k (·.enter ended) with
    trace := d.trace ++ .cleaned id found :: (ended.result.map (.returned id)).toList }

/-- One step; `none`: it is not possible now. -/
def step (d : Dispatcher Fl) : Action Fl → Option (Dispatcher Fl)
  | .allocate command => some (d.allocate command)
  | .enter t k =>
    d.sends[k]?.bind fun send =>
      if send.stage = .allocated ∧ d.mayLock t then some (d.enter t k send.id) else none
  | .dispatch k =>
    d.sends[k]?.bind fun send =>
      if send.stage = .inserted ∧ d.frames.head? = some k then some (d.dispatch k send) else none
  | .dispatchReturns k =>
    d.sends[k]?.bind fun send =>
      if send.stage = .dispatching ∧ d.frames.head? = some k then some (d.leave k .awaiting)
      else none
  | .dispatchPanics k =>
    d.sends[k]?.bind fun send =>
      if send.stage = .dispatching ∧ d.frames.head? = some k then some (d.leave k .unwinding)
      else none
  | .timerExpires k =>
    d.sends[k]?.bind fun send =>
      if send.stage = .awaiting then some (d.modifySend k SendFuture.expire) else none
  | .poll k =>
    d.sends[k]?.bind fun send =>
      if send.stage = .awaiting then some (d.modifySend k SendFuture.poll) else none
  | .dropFuture k =>
    d.sends[k]?.bind fun send =>
      -- the receiver goes first, then the guard
      if send.stage = .awaiting then
        some (d.modifySend k fun send => send.dropReceiver.enter .dropping)
      else none
  | .dropGuard t k =>
    d.sends[k]?.bind fun send =>
      send.stage.ended.bind fun ended =>
        if d.mayLock t then some (d.cleanUp k send.id ended) else none
  | .complete t id outcome =>
    if d.mayLock t then
      let (d, acknowledged) := d.complete id outcome
      some (d.observe (.completed id outcome acknowledged))
    else none
  | .cancelAll t order =>
    if d.mayLock t then
      let (d, drained) := d.cancelAll order
      some (d.observe (.cancelledAll drained))
    else none

/-- The run of `actions` on a new dispatcher. -/
abbrev after (actions : List (Action Fl)) : Option (Dispatcher Fl) := run step {} actions

/-- What a step can do, each with what it takes. -/
inductive Moves (d : Dispatcher Fl) : Action Fl → Dispatcher Fl → Prop where
  | allocate (command : Command Fl) : Moves d (.allocate command) (d.allocate command)
  | enter {t : ThreadId} {k : Nat} {send : SendFuture Fl} (hsend : d.sends[k]? = some send)
      (hstage : send.stage = .allocated) (hlock : d.mayLock t) :
      Moves d (.enter t k) (d.enter t k send.id)
  | dispatch {k : Nat} {send : SendFuture Fl} (hsend : d.sends[k]? = some send)
      (hstage : send.stage = .inserted) (htop : d.frames.head? = some k) :
      Moves d (.dispatch k) (d.dispatch k send)
  | dispatchReturns {k : Nat} {send : SendFuture Fl} (hsend : d.sends[k]? = some send)
      (hstage : send.stage = .dispatching) (htop : d.frames.head? = some k) :
      Moves d (.dispatchReturns k) (d.leave k .awaiting)
  | dispatchPanics {k : Nat} {send : SendFuture Fl} (hsend : d.sends[k]? = some send)
      (hstage : send.stage = .dispatching) (htop : d.frames.head? = some k) :
      Moves d (.dispatchPanics k) (d.leave k .unwinding)
  | timerExpires {k : Nat} {send : SendFuture Fl} (hsend : d.sends[k]? = some send)
      (hstage : send.stage = .awaiting) :
      Moves d (.timerExpires k) (d.modifySend k SendFuture.expire)
  | poll {k : Nat} {send : SendFuture Fl} (hsend : d.sends[k]? = some send)
      (hstage : send.stage = .awaiting) : Moves d (.poll k) (d.modifySend k SendFuture.poll)
  | dropFuture {k : Nat} {send : SendFuture Fl} (hsend : d.sends[k]? = some send)
      (hstage : send.stage = .awaiting) :
      Moves d (.dropFuture k) (d.modifySend k fun send => send.dropReceiver.enter .dropping)
  | dropGuard {t : ThreadId} {k : Nat} {send : SendFuture Fl} {ended : Stage}
      (hsend : d.sends[k]? = some send) (hended : send.stage.ended = some ended)
      (hlock : d.mayLock t) : Moves d (.dropGuard t k) (d.cleanUp k send.id ended)
  | complete {t : ThreadId} {id : CommandId} {outcome : CommandOutcome} (hlock : d.mayLock t) :
      Moves d (.complete t id outcome)
        ((d.complete id outcome).1.observe (.completed id outcome (d.complete id outcome).2))
  | cancelAll {t : ThreadId} {order : IterOrder CommandId} (hlock : d.mayLock t) :
      Moves d (.cancelAll t order)
        ((d.cancelAll order).1.observe (.cancelledAll (d.cancelAll order).2))

/-- **What a step can do.** -/
theorem moves_of_step {d d' : Dispatcher Fl} {a : Action Fl} (h : step d a = some d') :
    Moves d a d' := by
  cases a with
  | allocate command =>
    obtain rfl := Option.some.inj h
    exact .allocate command
  | complete t id outcome =>
    obtain ⟨hlock, h⟩ := Option.ite_none_right_eq_some.mp h
    obtain rfl := Option.some.inj h
    exact .complete hlock
  | cancelAll t order =>
    obtain ⟨hlock, h⟩ := Option.ite_none_right_eq_some.mp h
    obtain rfl := Option.some.inj h
    exact .cancelAll hlock
  | dropGuard t k =>
    obtain ⟨send, hsend, h⟩ := Option.bind_eq_some_iff.mp h
    obtain ⟨ended, hended, h⟩ := Option.bind_eq_some_iff.mp h
    obtain ⟨hlock, h⟩ := Option.ite_none_right_eq_some.mp h
    obtain rfl := Option.some.inj h
    exact .dropGuard hsend hended hlock
  | enter t k =>
    obtain ⟨send, hsend, h⟩ := Option.bind_eq_some_iff.mp h
    obtain ⟨⟨hstage, hlock⟩, h⟩ := Option.ite_none_right_eq_some.mp h
    obtain rfl := Option.some.inj h
    exact .enter hsend hstage hlock
  | dispatch k =>
    obtain ⟨send, hsend, h⟩ := Option.bind_eq_some_iff.mp h
    obtain ⟨⟨hstage, htop⟩, h⟩ := Option.ite_none_right_eq_some.mp h
    obtain rfl := Option.some.inj h
    exact .dispatch hsend hstage htop
  | dispatchReturns k =>
    obtain ⟨send, hsend, h⟩ := Option.bind_eq_some_iff.mp h
    obtain ⟨⟨hstage, htop⟩, h⟩ := Option.ite_none_right_eq_some.mp h
    obtain rfl := Option.some.inj h
    exact .dispatchReturns hsend hstage htop
  | dispatchPanics k =>
    obtain ⟨send, hsend, h⟩ := Option.bind_eq_some_iff.mp h
    obtain ⟨⟨hstage, htop⟩, h⟩ := Option.ite_none_right_eq_some.mp h
    obtain rfl := Option.some.inj h
    exact .dispatchPanics hsend hstage htop
  | timerExpires k =>
    obtain ⟨send, hsend, h⟩ := Option.bind_eq_some_iff.mp h
    obtain ⟨hstage, h⟩ := Option.ite_none_right_eq_some.mp h
    obtain rfl := Option.some.inj h
    exact .timerExpires hsend hstage
  | poll k =>
    obtain ⟨send, hsend, h⟩ := Option.bind_eq_some_iff.mp h
    obtain ⟨hstage, h⟩ := Option.ite_none_right_eq_some.mp h
    obtain rfl := Option.some.inj h
    exact .poll hsend hstage
  | dropFuture k =>
    obtain ⟨send, hsend, h⟩ := Option.bind_eq_some_iff.mp h
    obtain ⟨hstage, h⟩ := Option.ite_none_right_eq_some.mp h
    obtain rfl := Option.some.inj h
    exact .dropFuture hsend hstage

/-! ## 5. Nothing reads the trace -/

/-- The same dispatcher, with another past. -/
def withTrace (d : Dispatcher Fl) (trace : List (Observation Fl)) : Dispatcher Fl :=
  { d with trace }

theorem dropEntry_withTrace (d : Dispatcher Fl) (trace : List (Observation Fl))
    (id : CommandId) : (d.withTrace trace).dropEntry id = (d.dropEntry id).withTrace trace := by
  have hpending : (d.withTrace trace).pending = d.pending := rfl
  rw [dropEntry, dropEntry, hpending]
  cases d.pending[id]? <;> rfl

theorem complete_withTrace (d : Dispatcher Fl) (trace : List (Observation Fl))
    (id : CommandId) (outcome : CommandOutcome) : (d.withTrace trace).complete id outcome =
      ((d.complete id outcome).1.withTrace trace, (d.complete id outcome).2) := by
  have hpending : (d.withTrace trace).pending = d.pending := rfl
  rw [complete, complete, hpending]
  cases d.pending[id]? <;> rfl

/-- **A step does not depend on the past** that was observed. -/
theorem step_withTrace {d d' : Dispatcher Fl} {a : Action Fl} (h : step d a = some d')
    (trace : List (Observation Fl)) :
    ∃ trace', step (d.withTrace trace) a = some (d'.withTrace trace') := by
  -- what a step asks about the dispatcher it asks in the same words with the other trace
  have hsends : (d.withTrace trace).sends = d.sends := rfl
  have hmayLock : ∀ t, (d.withTrace trace).mayLock t = d.mayLock t := fun _ => rfl
  cases moves_of_step h with
  | allocate => exact ⟨trace, rfl⟩
  | @enter t k send hsend hstage hlock =>
    refine ⟨trace ++ [.inserted send.id], ?_⟩
    rw [step, hsends, hsend, Option.bind_some, if_pos ⟨hstage, hlock⟩, enter, insertPending,
      dropEntry_withTrace]
    rfl
  | @dispatch k send hsend hstage htop =>
    refine ⟨trace ++ [.dispatched send.id send.command], ?_⟩
    rw [step, hsends, hsend, Option.bind_some, if_pos ⟨hstage, htop⟩]
    rfl
  | dispatchReturns hsend hstage htop | dispatchPanics hsend hstage htop =>
    refine ⟨trace, ?_⟩
    rw [step, hsends, hsend, Option.bind_some, if_pos ⟨hstage, htop⟩]
    rfl
  | timerExpires hsend hstage | poll hsend hstage | dropFuture hsend hstage =>
    refine ⟨trace, ?_⟩
    rw [step, hsends, hsend, Option.bind_some, if_pos hstage]
    rfl
  | @dropGuard t k send ended hsend hended hlock =>
    refine ⟨trace ++ .cleaned send.id (d.pending.contains send.id) ::
      (ended.result.map (.returned send.id)).toList, ?_⟩
    rw [step, hsends, hsend, Option.bind_some, hended, Option.bind_some, hmayLock, if_pos hlock,
      cleanUp, removePending, dropEntry_withTrace]
    rfl
  | @complete t id outcome hlock =>
    refine ⟨trace ++ [.completed id outcome (d.complete id outcome).2], ?_⟩
    rw [step, hmayLock, if_pos hlock, complete_withTrace]
    rfl
  | @cancelAll t order hlock =>
    refine ⟨trace ++ [.cancelledAll (d.cancelAll order).2], ?_⟩
    rw [step, hmayLock, if_pos hlock]
    rfl

/-- A run does not depend on what was observed before it. -/
theorem run_withTrace {d d' : Dispatcher Fl} {actions : List (Action Fl)}
    (h : run step d actions = some d') (trace : List (Observation Fl)) :
    ∃ trace', run step (d.withTrace trace) actions = some (d'.withTrace trace') := by
  induction actions generalizing d trace with
  | nil =>
    rw [run_nil] at h
    exact ⟨trace, by rw [run_nil, Option.some.inj h]⟩
  | cons a actions ih =>
    rw [run_cons, Option.bind_eq_some_iff] at h
    obtain ⟨m, hm, h⟩ := h
    obtain ⟨between, hbetween⟩ := step_withTrace hm trace
    obtain ⟨trace', htrace'⟩ := ih h between
    exact ⟨trace', by rw [run_cons, hbetween, Option.bind_some, htrace']⟩

end Dispatcher

end MinervaServer
