/-
# The server on its thread

`ServerHandle` of `server.rs`: `spawn`, `shutdown` and `drop`, the thread that `spawn` starts, and
the futures that decide when it ends.  They only meet in channels: the thread reports on `ready`
whether it could bind, the handle asks on `shutdown` for the end, and a task passes that on to both
the graceful drain and the timer that bounds it.  The clients connect, call and leave as they like,
the clock runs, and who takes the next step is open.

The runtime, the network and tonic are not in the repository.  What the model takes from their
documentation it assumes:

* spawning a thread, building a runtime and binding a socket return, with an error or without one;
* a server of tonic takes connections until it drains.  Then it closes every connection of which no
  call is in flight, and returns when none is open.  Before, or while a call is in flight, it closes
  none;
* a task leaves its worker soon, but for one place: `Dispatcher::send` holds the lock of the
  dispatcher while it calls `sink.dispatch`, and when that returns is up to the engine.  As long as
  it does not, the worker that is in it, and those that wait for the lock, are held up
  (`dispatching`), and nothing is said of when the other tasks and timers get their turn;
* a runtime that is dropped waits for its workers, and then closes what is left.

What holds in every reachable state is said by what the thread has told its caller so far
(`Server.Inv`).  The results are in `Shutdown.lean`.
-/
import MinervaServer.Lib.Runs
import MinervaServer.Lib.Oneshot

namespace MinervaServer

open Lib

/-! ## 1. The caller and the thread -/

/-- `SHUTDOWN_GRACE_PERIOD`, in milliseconds. -/
def shutdownGracePeriod : Nat := 2000

/-- The `anyhow::Error` of a failed `spawn`. -/
inductive StartError (Err : Type) where
  /-- Of the operating system, the runtime or the network. -/
  | foreign (err : Err)
  /-- `anyhow::bail!`. -/
  | bail (message : String)
  deriving DecidableEq, Repr

/-- `ServerHandle`, of which the sender and the join handle may have been taken.  The state and the
dispatcher that it gives out are those of the other modules. -/
structure Handle (Addr : Type) where
  localAddr : Addr
  shutdownTx : Bool := true
  thread : Bool := true
  deriving DecidableEq, Repr

/-- Where the caller of `spawn` is, who then owns the handle. -/
inductive Caller (Addr Err : Type) where
  /-- In `spawn`, before there is a thread. -/
  | calling
  /-- In `ready_rx.recv()`. -/
  | receiving
  /-- `spawn` has returned an error. -/
  | failed (error : StartError Err)
  /-- `spawn` has returned the handle, and none of its methods is running. -/
  | holding (handle : Handle Addr)
  /-- In `thread.join()`, called by `shutdown` itself or by `drop`. -/
  | joining (handle : Handle Addr) (dropping : Bool)
  /-- The handle is gone. -/
  | dropped
  deriving DecidableEq, Repr

/-- The handle that `spawn` returned. -/
def Caller.handle {Addr Err : Type} : Caller Addr Err → Option (Handle Addr)
  | .holding handle | .joining handle _ => some handle
  | .calling | .receiving | .failed _ | .dropped => none

/-- The `forced` future. -/
inductive Forced where
  | waiting
  /-- In `sleep`, until the clock shows `deadline`. -/
  | sleeping (deadline : Nat)
  deriving DecidableEq, Repr

/-- The `select!` of the thread: what `fired` shows, and how far its two futures are. -/
structure Serving where
  fired : Bool := false
  /-- The `graceful` future has resolved: the server takes no more connections. -/
  graceful : Bool := false
  forced : Forced := .waiting
  deriving DecidableEq, Repr

/-- Why the thread ended. -/
inductive Exit (Err : Type) where
  | runtimeFailed (err : Err)
  | bindFailed (err : Err)
  | callerGone
  /-- `serve_on` returned. -/
  | drained
  | serveFailed (err : Err)
  /-- The grace period elapsed. -/
  | forced
  | panicked
  deriving DecidableEq, Repr

inductive Thread (Addr Err : Type) where
  | absent
  /-- Before the runtime is built. -/
  | starting
  /-- In `TcpListener::bind`. -/
  | binding
  /-- The socket is bound. -/
  | announcing (addr : Addr)
  | serving (addr : Addr) (state : Serving)
  /-- The future has ended, and the runtime is being dropped. -/
  | stopping (exit : Exit Err)
  | exited (exit : Exit Err)
  deriving DecidableEq, Repr

/-- The thread is in its future, or on the way to it. -/
def Thread.running {Addr Err : Type} : Thread Addr Err → Bool
  | .starting | .binding | .announcing _ | .serving _ _ => true
  | .absent | .stopping _ | .exited _ => false

/-- There is a runtime, so there may be tasks. -/
def Thread.hosting {Addr Err : Type} : Thread Addr Err → Bool
  | .serving _ _ | .stopping _ => true
  | .absent | .starting | .binding | .announcing _ | .exited _ => false

/-- tonic is told to end, by `graceful` or because its future is gone. -/
def Thread.draining {Addr Err : Type} : Thread Addr Err → Bool
  | .serving _ state => state.graceful
  | .stopping _ => true
  | .absent | .starting | .binding | .announcing _ | .exited _ => false

/-- The caller, the thread, and what is between them. -/
structure Server (Addr Err : Type) where
  /-- The clock, in milliseconds. -/
  now : Nat := 0
  caller : Caller Addr Err := .calling
  thread : Thread Addr Err := .absent
  /-- What has been sent to `ready_rx` and not received. -/
  ready : List (Except (StartError Err) Addr) := []
  readyTx : Bool := true
  readyRx : Bool := true
  shutdown : Oneshot Unit := {}
  /-- The connections that are open. -/
  connections : List Nat := []
  /-- The connections of the calls in flight, one for each call. -/
  calls : List Nat := []
  /-- How many workers are held up in the dispatcher: in the engine's `dispatch`, or waiting for the
  lock while somebody is. -/
  dispatching : Nat := 0
  deriving DecidableEq

variable {Addr Err : Type}

namespace Server

/-- `ready_tx.send`, which fails if there is nobody to receive. -/
def sendReady (s : Server Addr Err) (result : Except (StartError Err) Addr) :
    Option (Server Addr Err) :=
  if s.readyRx then some { s with ready := s.ready ++ [result] } else none

/-- The thread leaves its future, which owns `ready_tx`. -/
def finish (s : Server Addr Err) (exit : Exit Err) : Server Addr Err :=
  { s with thread := .stopping exit, readyTx := false }

/-- `let _ = ready_tx.send(Err(err.into())); return`. -/
def giveUp (s : Server Addr Err) (err : Err) (exit : Exit Err) : Server Addr Err :=
  ((s.sendReady (.error (.foreign err))).getD s).finish exit

/-- `spawn` returns, and drops `ready_rx`; of an error also what would have made the handle. -/
def returnFromSpawn (s : Server Addr Err) : Except (StartError Err) Addr → Server Addr Err
  | .ok localAddr => { s with caller := .holding { localAddr }, readyRx := false }
  | .error error =>
    { s with caller := .failed error, readyRx := false, shutdown := s.shutdown.dropSender }

/-- The thread could not be spawned: its closure is dropped unused. -/
def spawnFails (s : Server Addr Err) (err : Err) : Server Addr Err :=
  { s with readyTx := false, shutdown := s.shutdown.dropReceiver }.returnFromSpawn
    (.error (.foreign err))

/-- `shutdown` returns, to its caller or to `drop`. -/
def returnFromShutdown (s : Server Addr Err) (handle : Handle Addr) (dropping : Bool) :
    Server Addr Err :=
  { s with caller := if dropping then .dropped else .holding handle }

/-- `ServerHandle::shutdown`, as far as `thread.join()`. -/
def beginShutdown (s : Server Addr Err) (handle : Handle Addr) (dropping : Bool) :
    Server Addr Err :=
  let shutdown := if handle.shutdownTx then s.shutdown.send () else s.shutdown
  let taken := { handle with shutdownTx := false, thread := false }
  if handle.thread then { s with shutdown, caller := .joining taken dropping }
  else { s with shutdown }.returnFromShutdown taken dropping

@[simp] theorem finish_thread (s : Server Addr Err) (exit : Exit Err) :
    (s.finish exit).thread = .stopping exit := rfl

@[simp] theorem finish_caller (s : Server Addr Err) (exit : Exit Err) :
    (s.finish exit).caller = s.caller := rfl

@[simp] theorem finish_connections (s : Server Addr Err) (exit : Exit Err) :
    (s.finish exit).connections = s.connections := rfl

@[simp] theorem finish_calls (s : Server Addr Err) (exit : Exit Err) :
    (s.finish exit).calls = s.calls := rfl

@[simp] theorem giveUp_thread (s : Server Addr Err) (err : Err) (exit : Exit Err) :
    (s.giveUp err exit).thread = .stopping exit := rfl

@[simp] theorem giveUp_caller (s : Server Addr Err) (err : Err) (exit : Exit Err) :
    (s.giveUp err exit).caller = s.caller := by
  unfold giveUp sendReady
  split <;> rfl

@[simp] theorem giveUp_connections (s : Server Addr Err) (err : Err) (exit : Exit Err) :
    (s.giveUp err exit).connections = s.connections := by
  unfold giveUp sendReady
  split <;> rfl

@[simp] theorem giveUp_calls (s : Server Addr Err) (err : Err) (exit : Exit Err) :
    (s.giveUp err exit).calls = s.calls := by
  unfold giveUp sendReady
  split <;> rfl

@[simp] theorem returnFromSpawn_thread (s : Server Addr Err)
    (result : Except (StartError Err) Addr) : (s.returnFromSpawn result).thread = s.thread := by
  cases result <;> rfl

@[simp] theorem returnFromSpawn_now (s : Server Addr Err)
    (result : Except (StartError Err) Addr) : (s.returnFromSpawn result).now = s.now := by
  cases result <;> rfl

@[simp] theorem returnFromSpawn_connections (s : Server Addr Err)
    (result : Except (StartError Err) Addr) :
    (s.returnFromSpawn result).connections = s.connections := by
  cases result <;> rfl

@[simp] theorem returnFromSpawn_calls (s : Server Addr Err)
    (result : Except (StartError Err) Addr) : (s.returnFromSpawn result).calls = s.calls := by
  cases result <;> rfl

@[simp] theorem spawnFails_thread (s : Server Addr Err) (err : Err) :
    (s.spawnFails err).thread = s.thread := rfl

@[simp] theorem spawnFails_connections (s : Server Addr Err) (err : Err) :
    (s.spawnFails err).connections = s.connections := rfl

@[simp] theorem spawnFails_calls (s : Server Addr Err) (err : Err) :
    (s.spawnFails err).calls = s.calls := rfl

@[simp] theorem returnFromShutdown_connections (s : Server Addr Err) (handle : Handle Addr)
    (dropping : Bool) : (s.returnFromShutdown handle dropping).connections = s.connections := rfl

@[simp] theorem returnFromShutdown_calls (s : Server Addr Err) (handle : Handle Addr)
    (dropping : Bool) : (s.returnFromShutdown handle dropping).calls = s.calls := rfl

@[simp] theorem returnFromShutdown_thread (s : Server Addr Err) (handle : Handle Addr)
    (dropping : Bool) : (s.returnFromShutdown handle dropping).thread = s.thread := rfl

@[simp] theorem beginShutdown_thread (s : Server Addr Err) (handle : Handle Addr)
    (dropping : Bool) : (s.beginShutdown handle dropping).thread = s.thread := by
  by_cases hheld : handle.thread = true <;> simp [beginShutdown, hheld]

@[simp] theorem beginShutdown_now (s : Server Addr Err) (handle : Handle Addr)
    (dropping : Bool) : (s.beginShutdown handle dropping).now = s.now := by
  by_cases hheld : handle.thread = true <;> simp [beginShutdown, returnFromShutdown, hheld]

@[simp] theorem beginShutdown_connections (s : Server Addr Err) (handle : Handle Addr)
    (dropping : Bool) : (s.beginShutdown handle dropping).connections = s.connections := by
  by_cases hheld : handle.thread = true <;> simp [beginShutdown, returnFromShutdown, hheld]

@[simp] theorem beginShutdown_calls (s : Server Addr Err) (handle : Handle Addr)
    (dropping : Bool) : (s.beginShutdown handle dropping).calls = s.calls := by
  by_cases hheld : handle.thread = true <;> simp [beginShutdown, returnFromShutdown, hheld]

/-- While the thread is there `shutdown` waits for it; otherwise it has returned. -/
theorem beginShutdown_caller (s : Server Addr Err) (handle : Handle Addr) (dropping : Bool) :
    (s.beginShutdown handle dropping).caller =
      if handle.thread then .joining ⟨handle.localAddr, false, false⟩ dropping
      else if dropping then .dropped else .holding ⟨handle.localAddr, false, false⟩ := by
  by_cases hheld : handle.thread = true <;> simp [beginShutdown, returnFromShutdown, hheld]

inductive Action (Addr Err : Type) where
  /-- `std::thread::Builder::spawn`. -/
  | spawnThread (error : Option Err)
  /-- `ready_rx.recv()` returns. -/
  | recv
  /-- The owner of the handle calls `shutdown`. -/
  | shutdown
  /-- The owner drops the handle. -/
  | drop
  /-- `thread.join()` returns. -/
  | join
  /-- The runtime is built. -/
  | build (error : Option Err)
  /-- `TcpListener::bind` and `local_addr`. -/
  | bind (result : Except Err Addr)
  /-- `ready_tx.send(Ok(local_addr))`. -/
  | announce
  /-- The task that waits for `shutdown_rx` sets `fired`. -/
  | fire
  /-- `graceful` sees it. -/
  | graceful
  /-- `forced` sees it, and goes to sleep. -/
  | force
  /-- tonic closes a connection, which has no call in flight. -/
  | closeIdle (connection : Nat)
  /-- `serve_on` returns: the connections are closed. -/
  | drained
  /-- `forced` wakes up. -/
  | elapsed
  /-- The runtime has been dropped, and the thread ends. -/
  | exit
  /-- `serve_on` returns an error. -/
  | serveFails (err : Err)
  /-- Something on the thread panics. -/
  | panic
  | connect (connection : Nat)
  /-- The client closes a connection, or it breaks; the calls on it are over. -/
  | disconnect (connection : Nat)
  | beginCall (connection : Nat)
  | endCall (connection : Nat)
  /-- A worker enters the engine's `dispatch` or begins to wait for the lock, or is through. -/
  | beginDispatch
  | endDispatch
  | tick
  deriving DecidableEq, Repr

/-- One step; `none` when it is not possible. -/
def step (s : Server Addr Err) : Action Addr Err → Option (Server Addr Err)
  | .spawnThread error =>
    match s.caller with
    | .calling =>
      match error with
      | none => some { s with caller := .receiving, thread := .starting }
      | some err => some (s.spawnFails err)
    | _ => none
  | .recv =>
    match s.caller with
    | .receiving =>
      match s.ready with
      | result :: rest => some ({ s with ready := rest }.returnFromSpawn result)
      | [] =>
        if s.readyTx then none
        else some (s.returnFromSpawn
          (.error (.bail "minerva-server: server thread exited before it was ready")))
    | _ => none
  | .shutdown =>
    match s.caller with
    | .holding handle => some (s.beginShutdown handle false)
    | _ => none
  | .drop =>
    match s.caller with
    | .holding handle => some (s.beginShutdown handle true)
    | _ => none
  | .join =>
    match s.caller, s.thread with
    | .joining handle dropping, .exited _ => some (s.returnFromShutdown handle dropping)
    | _, _ => none
  | .build error =>
    match s.thread with
    | .starting =>
      match error with
      | none => some { s with thread := .binding }
      | some err => some (s.giveUp err (.runtimeFailed err))
    | _ => none
  | .bind result =>
    match s.thread with
    | .binding =>
      match result with
      | .ok addr => some { s with thread := .announcing addr }
      | .error err => some (s.giveUp err (.bindFailed err))
    | _ => none
  | .announce =>
    match s.thread with
    | .announcing addr =>
      match s.sendReady (.ok addr) with
      | some sent => some { sent with thread := .serving addr {} }
      | none => some (s.finish .callerGone)
    | _ => none
  | .fire =>
    match s.thread with
    | .serving addr state =>
      -- the task is done once it has set `fired`
      if state.fired || s.shutdown.poll = .pending then none
      else some { s with thread := .serving addr { state with fired := true } }
    | _ => none
  | .graceful =>
    match s.thread with
    | .serving addr state =>
      if state.fired && !state.graceful then
        some { s with thread := .serving addr { state with graceful := true } }
      else none
    | _ => none
  | .force =>
    match s.thread with
    | .serving addr state =>
      if state.fired && state.forced = .waiting then
        let forced := .sleeping (s.now + shutdownGracePeriod)
        some { s with thread := .serving addr { state with forced } }
      else none
    | _ => none
  | .closeIdle connection =>
    if s.thread.draining && connection ∈ s.connections && connection ∉ s.calls then
      some { s with connections := s.connections.erase connection }
    else none
  | .drained =>
    match s.thread with
    | .serving _ state =>
      if state.graceful && s.connections = [] then some (s.finish .drained) else none
    | _ => none
  | .elapsed =>
    match s.thread with
    | .serving _ ⟨_, _, .sleeping deadline⟩ =>
      if deadline ≤ s.now then some (s.finish .forced) else none
    | _ => none
  | .exit =>
    match s.thread with
    | .stopping exit =>
      if s.dispatching = 0 then
        let shutdown := s.shutdown.dropReceiver
        some { s with thread := .exited exit, shutdown, connections := [], calls := [] }
      else none
    | _ => none
  | .serveFails err =>
    match s.thread with
    | .serving _ _ => some (s.finish (.serveFailed err))
    | _ => none
  | .panic => if s.thread.running then some (s.finish .panicked) else none
  | .connect connection =>
    match s.thread with
    | .serving _ state =>
      if state.graceful || connection ∈ s.connections then none
      else some { s with connections := s.connections ++ [connection] }
    | _ => none
  | .disconnect connection =>
    if connection ∈ s.connections then
      some { s with
        connections := s.connections.erase connection
        calls := s.calls.filter (· ≠ connection) }
    else none
  | .beginCall connection =>
    if connection ∈ s.connections then some { s with calls := s.calls ++ [connection] } else none
  | .endCall connection =>
    if connection ∈ s.calls then some { s with calls := s.calls.erase connection } else none
  | .beginDispatch =>
    if s.thread.hosting then some { s with dispatching := s.dispatching + 1 } else none
  | .endDispatch =>
    match s.dispatching with
    | 0 => none
    | dispatching + 1 => some { s with dispatching }
  | .tick => some { s with now := s.now + 1 }

/-- From the call of `spawn` on. -/
def after (actions : List (Action Addr Err)) : Option (Server Addr Err) := run step {} actions

/-! ## 2. What a step does -/

/-- The steps of `step`, one for each of its branches. -/
inductive Moves (s : Server Addr Err) : Action Addr Err → Server Addr Err → Prop where
  | spawns (hcaller : s.caller = .calling) :
      s.Moves (.spawnThread none) { s with caller := .receiving, thread := .starting }
  | spawnFails {err : Err} (hcaller : s.caller = .calling) :
      s.Moves (.spawnThread (some err)) (s.spawnFails err)
  | receives {result rest} (hcaller : s.caller = .receiving) (hready : s.ready = result :: rest) :
      s.Moves .recv ({ s with ready := rest }.returnFromSpawn result)
  | hangsUp (hcaller : s.caller = .receiving) (hready : s.ready = []) (hgone : s.readyTx = false) :
      s.Moves .recv (s.returnFromSpawn
        (.error (.bail "minerva-server: server thread exited before it was ready")))
  | shutdown {handle} (hcaller : s.caller = .holding handle) :
      s.Moves .shutdown (s.beginShutdown handle false)
  | drop {handle} (hcaller : s.caller = .holding handle) :
      s.Moves .drop (s.beginShutdown handle true)
  | join {handle dropping exit} (hcaller : s.caller = .joining handle dropping)
      (hthread : s.thread = .exited exit) : s.Moves .join (s.returnFromShutdown handle dropping)
  | builds (hthread : s.thread = .starting) : s.Moves (.build none) { s with thread := .binding }
  | buildFails {err : Err} (hthread : s.thread = .starting) :
      s.Moves (.build (some err)) (s.giveUp err (.runtimeFailed err))
  | binds {addr : Addr} (hthread : s.thread = .binding) :
      s.Moves (.bind (.ok addr)) { s with thread := .announcing addr }
  | bindFails {err : Err} (hthread : s.thread = .binding) :
      s.Moves (.bind (.error err)) (s.giveUp err (.bindFailed err))
  | announces {addr : Addr} (hthread : s.thread = .announcing addr) (hrx : s.readyRx = true) :
      s.Moves .announce { s with ready := s.ready ++ [.ok addr], thread := .serving addr {} }
  | announceFails {addr : Addr} (hthread : s.thread = .announcing addr)
      (hrx : s.readyRx = false) : s.Moves .announce (s.finish .callerGone)
  | fires {addr : Addr} {state : Serving} (hthread : s.thread = .serving addr state)
      (hfired : state.fired = false) (hasked : s.shutdown.poll ≠ .pending) :
      s.Moves .fire { s with thread := .serving addr { state with fired := true } }
  | drains {addr : Addr} {state : Serving} (hthread : s.thread = .serving addr state)
      (hfired : state.fired = true) (hgraceful : state.graceful = false) :
      s.Moves .graceful { s with thread := .serving addr { state with graceful := true } }
  | sleeps {addr : Addr} {state : Serving} (hthread : s.thread = .serving addr state)
      (hfired : state.fired = true) (hforced : state.forced = .waiting) :
      s.Moves .force { s with
        thread := .serving addr { state with forced := .sleeping (s.now + shutdownGracePeriod) } }
  | closesIdle {connection : Nat} (hdraining : s.thread.draining = true)
      (hopen : connection ∈ s.connections) (hidle : connection ∉ s.calls) :
      s.Moves (.closeIdle connection) { s with connections := s.connections.erase connection }
  | drained {addr : Addr} {state : Serving} (hthread : s.thread = .serving addr state)
      (hgraceful : state.graceful = true) (hclosed : s.connections = []) :
      s.Moves .drained (s.finish .drained)
  | elapsed {addr : Addr} {state : Serving} {deadline : Nat}
      (hthread : s.thread = .serving addr state) (hforced : state.forced = .sleeping deadline)
      (hdeadline : deadline ≤ s.now) : s.Moves .elapsed (s.finish .forced)
  | exits {exit : Exit Err} (hthread : s.thread = .stopping exit) (hidle : s.dispatching = 0) :
      s.Moves .exit { s with
        thread := .exited exit, shutdown := s.shutdown.dropReceiver, connections := [], calls := [] }
  | serveFails {addr : Addr} {state : Serving} {err : Err}
      (hthread : s.thread = .serving addr state) :
      s.Moves (.serveFails err) (s.finish (.serveFailed err))
  | panics (hthread : s.thread.running = true) : s.Moves .panic (s.finish .panicked)
  | connects {addr : Addr} {state : Serving} {connection : Nat}
      (hthread : s.thread = .serving addr state) (hgraceful : state.graceful = false)
      (hnew : connection ∉ s.connections) :
      s.Moves (.connect connection) { s with connections := s.connections ++ [connection] }
  | disconnects {connection : Nat} (hopen : connection ∈ s.connections) :
      s.Moves (.disconnect connection) { s with
        connections := s.connections.erase connection
        calls := s.calls.filter (· ≠ connection) }
  | beginsCall {connection : Nat} (hopen : connection ∈ s.connections) :
      s.Moves (.beginCall connection) { s with calls := s.calls ++ [connection] }
  | endsCall {connection : Nat} (hcall : connection ∈ s.calls) :
      s.Moves (.endCall connection) { s with calls := s.calls.erase connection }
  | beginsDispatch (hhosting : s.thread.hosting = true) :
      s.Moves .beginDispatch { s with dispatching := s.dispatching + 1 }
  | endsDispatch {dispatching : Nat} (hdispatching : s.dispatching = dispatching + 1) :
      s.Moves .endDispatch { s with dispatching }
  | ticks : s.Moves .tick { s with now := s.now + 1 }

theorem moves_of_step {s s' : Server Addr Err} {a : Action Addr Err} (h : step s a = some s') :
    s.Moves a s' := by
  cases a with
  | spawnThread error =>
    cases error <;> simp only [step] at h <;> split at h <;> cases h
    · next hcaller => exact .spawns hcaller
    · next hcaller => exact .spawnFails hcaller
  | recv =>
    simp only [step] at h
    split at h
    · next hcaller =>
      split at h
      · next hready =>
        cases h
        exact .receives hcaller hready
      · next hready =>
        split at h
        · cases h
        · next htx =>
          cases h
          exact .hangsUp hcaller hready (Bool.eq_false_iff.mpr htx)
    · cases h
  | shutdown =>
    simp only [step] at h
    split at h <;> cases h
    next hcaller => exact .shutdown hcaller
  | drop =>
    simp only [step] at h
    split at h <;> cases h
    next hcaller => exact .drop hcaller
  | join =>
    simp only [step] at h
    split at h <;> cases h
    next hcaller hthread => exact .join hcaller hthread
  | build error =>
    cases error <;> simp only [step] at h <;> split at h <;> cases h
    · next hthread => exact .builds hthread
    · next hthread => exact .buildFails hthread
  | bind result =>
    cases result <;> simp only [step] at h <;> split at h <;> cases h
    · next hthread => exact .bindFails hthread
    · next hthread => exact .binds hthread
  | announce =>
    simp only [step, sendReady] at h
    split at h
    · next hthread =>
      by_cases hrx : s.readyRx = true
      · rw [if_pos hrx] at h
        cases h
        exact .announces hthread hrx
      · rw [if_neg hrx] at h
        cases h
        exact .announceFails hthread (Bool.eq_false_iff.mpr hrx)
    · cases h
  | fire =>
    simp only [step] at h
    split at h
    · next hthread =>
      split at h <;> cases h
      next hready =>
        simp only [Bool.or_eq_true, decide_eq_true_eq, not_or, Bool.not_eq_true] at hready
        exact .fires hthread hready.1 hready.2
    · cases h
  | graceful =>
    simp only [step] at h
    split at h
    · next hthread =>
      split at h <;> cases h
      next hready =>
        simp only [Bool.and_eq_true, Bool.not_eq_true'] at hready
        exact .drains hthread hready.1 hready.2
    · cases h
  | force =>
    simp only [step] at h
    split at h
    · next hthread =>
      split at h <;> cases h
      next hready =>
        simp only [Bool.and_eq_true, decide_eq_true_eq] at hready
        exact .sleeps hthread hready.1 hready.2
    · cases h
  | drained =>
    simp only [step] at h
    split at h
    · next hthread =>
      split at h <;> cases h
      next hready =>
        simp only [Bool.and_eq_true, decide_eq_true_eq] at hready
        exact .drained hthread hready.1 hready.2
    · cases h
  | elapsed =>
    simp only [step] at h
    split at h
    · next hthread =>
      split at h <;> cases h
      next hdeadline => exact .elapsed hthread rfl hdeadline
    · cases h
  | closeIdle connection =>
    simp only [step] at h
    split at h <;> cases h
    next hready =>
      simp only [Bool.and_eq_true, decide_eq_true_eq] at hready
      exact .closesIdle hready.1.1 hready.1.2 hready.2
  | exit =>
    simp only [step] at h
    split at h
    · next hthread =>
      split at h <;> cases h
      next hidle => exact .exits hthread hidle
    · cases h
  | serveFails err =>
    simp only [step] at h
    split at h <;> cases h
    next hthread => exact .serveFails hthread
  | panic =>
    simp only [step] at h
    split at h <;> cases h
    next hrunning => exact .panics hrunning
  | connect connection =>
    simp only [step] at h
    split at h
    · next hthread =>
      split at h <;> cases h
      next hready =>
        simp only [Bool.or_eq_true, decide_eq_true_eq, not_or, Bool.not_eq_true] at hready
        exact .connects hthread hready.1 hready.2
    · cases h
  | disconnect connection =>
    simp only [step] at h
    split at h <;> cases h
    next hopen => exact .disconnects hopen
  | beginCall connection =>
    simp only [step] at h
    split at h <;> cases h
    next hopen => exact .beginsCall hopen
  | endCall connection =>
    simp only [step] at h
    split at h <;> cases h
    next hcall => exact .endsCall hcall
  | beginDispatch =>
    simp only [step] at h
    split at h <;> cases h
    next hhosting => exact .beginsDispatch hhosting
  | endDispatch =>
    simp only [step] at h
    split at h <;> cases h
    next hdispatching => exact .endsDispatch hdispatching
  | tick =>
    cases h
    exact .ticks

end Server

/-! ## 3. What the thread has told the caller -/

/-- Serving failed, or something panicked. -/
def Exit.crash : Exit Err → Bool
  | .serveFailed _ | .panicked => true
  | .runtimeFailed _ | .bindFailed _ | .callerGone | .drained | .forced => false

/-- What a thread that ended so has sent to `ready_rx`. -/
def Exit.Told (told : List (Except (StartError Err) Addr)) : Exit Err → Prop
  | .runtimeFailed err | .bindFailed err => told = [.error (.foreign err)]
  | .callerGone => False
  | .drained | .serveFailed _ | .forced => ∃ addr, told = [.ok addr]
  | .panicked => told = [] ∨ ∃ addr, told = [.ok addr]

/-- And a thread that is there. -/
def Thread.Told (told : List (Except (StartError Err) Addr)) : Thread Addr Err → Prop
  | .absent | .starting | .binding | .announcing _ => told = []
  | .serving addr _ => told = [.ok addr]
  | .stopping exit | .exited exit => exit.Told told

/-- The thread has learned that it is to end, or has ended for that. -/
def Thread.asked : Thread Addr Err → Bool
  | .serving _ state => state.fired
  | .stopping .drained | .stopping .forced | .exited .drained | .exited .forced => true
  | .absent | .starting | .binding | .announcing _ | .stopping _ | .exited _ => false

theorem Thread.Told.cases {thread : Thread Addr Err} {told : List (Except (StartError Err) Addr)}
    (h : thread.Told told) : told = [] ∨ (∃ addr, told = [.ok addr]) ∨
      thread.running = false ∧ ∃ err, told = [.error (.foreign err)] := by
  cases thread with
  | absent | starting | binding | announcing addr => exact Or.inl h
  | serving addr state => exact Or.inr (Or.inl ⟨addr, h⟩)
  | stopping exit | exited exit =>
    cases exit with
    | runtimeFailed err | bindFailed err => exact Or.inr (Or.inr ⟨rfl, err, h⟩)
    | callerGone => exact h.elim
    | drained | serveFailed err | forced => exact Or.inr (Or.inl h)
    | panicked => exact h.imp id Or.inl

/-- What the caller has made of it, and of the other channel. -/
def Caller.Heard (s : Server Addr Err) (told : List (Except (StartError Err) Addr)) :
    Caller Addr Err → Prop
  | .calling => s.thread = .absent ∧ s.ready = told ∧ s.readyTx = true ∧ s.readyRx = true ∧
    s.shutdown.poll = .pending
  | .receiving =>
    s.thread ≠ .absent ∧ s.ready = told ∧ s.readyRx = true ∧ s.shutdown.poll = .pending
  | .failed _ => s.thread.running = false ∧ ∀ addr, told ≠ [.ok addr]
  | .holding handle => told = [.ok handle.localAddr] ∧ handle.shutdownTx = handle.thread ∧
    if handle.thread then s.shutdown.poll = .pending else ∃ exit, s.thread = .exited exit
  | .joining handle _ => told = [.ok handle.localAddr] ∧ handle.shutdownTx = false ∧
    handle.thread = false ∧ s.shutdown.poll ≠ .pending
  | .dropped => (∃ addr, told = [.ok addr]) ∧ ∃ exit, s.thread = .exited exit

/-- The state, given what the thread has told so far. -/
structure Server.Inv (told : List (Except (StartError Err) Addr)) (s : Server Addr Err) : Prop where
  thread : s.thread.Told told
  heard : s.caller.Heard s told
  /-- There are connections only from when the thread serves. -/
  announced : s.connections ≠ [] → ∃ addr, told = [.ok addr]
  /-- A call in flight is on an open connection. -/
  calls : ∀ connection ∈ s.calls, connection ∈ s.connections
  closed : ∀ exit, s.thread = .exited exit → s.connections = [] ∧ s.dispatching = 0
  readyTx : s.readyTx = false → s.thread.running = false
  hungUp : ∀ exit, s.thread = .stopping exit ∨ s.thread = .exited exit → s.readyTx = false
  /-- `fired` is set after the handle asked for the end. -/
  asked : s.thread.asked = true → s.shutdown.poll ≠ .pending
  serving : ∀ addr state, s.thread = .serving addr state →
    (state.graceful = true → state.fired = true) ∧
    ∀ deadline, state.forced = .sleeping deadline →
      state.fired = true ∧ deadline ≤ s.now + shutdownGracePeriod

theorem Server.inv_new : ({} : Server Addr Err).Inv [] where
  thread := rfl
  heard := ⟨rfl, rfl, rfl, rfl, rfl⟩
  announced h := absurd rfl h
  calls := nofun
  closed _ _ := ⟨rfl, rfl⟩
  readyTx h := by cases h
  hungUp _ h := by rcases h with h | h <;> cases h
  asked h := by cases h
  serving _ _ h := by cases h

/-- What a step of the thread leaves of what the caller knows. -/
theorem Caller.Heard.of_thread {s s' : Server Addr Err} {told sent : List (Except (StartError Err) Addr)}
    (h : s.caller.Heard s told) (hlive : s.thread.running = true ∨ ∃ exit, s.thread = .stopping exit)
    (hcaller : s'.caller = s.caller) (hrx : s'.readyRx = s.readyRx)
    (hpoll : s'.shutdown.poll = s.shutdown.poll) (hthread : s'.thread ≠ .absent)
    (hrunning : s'.thread.running = true → s.thread.running = true)
    (hready : s'.ready = s.ready ++ sent)
    (hsent : sent ≠ [] → told = [] ∧ s.thread.running = true) :
    s'.caller.Heard s' (told ++ sent) := by
  have hnotAbsent : s.thread ≠ .absent := by
    rintro habsent
    rcases hlive with hlive | ⟨exit, hlive⟩ <;> rw [habsent] at hlive <;> cases hlive
  have hnotExited : ∀ exit, s.thread ≠ .exited exit := by
    rintro exit hexited
    rcases hlive with hlive | ⟨exit', hlive⟩ <;> rw [hexited] at hlive <;> cases hlive
  have hnothing : told ≠ [] → sent = [] := fun htold =>
    by_contra fun hne => htold (hsent hne).1
  rw [hcaller]
  cases hc : s.caller with
  | calling =>
    rw [hc] at h
    exact absurd h.1 hnotAbsent
  | receiving =>
    rw [hc] at h
    obtain ⟨-, htold, hrx', hpoll'⟩ := h
    exact ⟨hthread, by rw [hready, htold], hrx.trans hrx', hpoll.trans hpoll'⟩
  | failed error =>
    rw [hc] at h
    obtain ⟨hover, htold⟩ := h
    have hnone : sent = [] := by_contra fun hne => by simp [(hsent hne).2] at hover
    rw [hnone, List.append_nil]
    exact ⟨Bool.eq_false_iff.mpr fun hrun => by simp [hrunning hrun] at hover, htold⟩
  | holding handle =>
    rw [hc] at h
    obtain ⟨htold, htaken, hrest⟩ := h
    rw [hnothing (by simp [htold]), List.append_nil]
    refine ⟨htold, htaken, ?_⟩
    split
    · next hheld => exact hpoll.trans (by simpa [hheld] using hrest)
    · next hheld =>
      obtain ⟨exit, hexited⟩ : ∃ exit, s.thread = .exited exit := by simpa [hheld] using hrest
      exact absurd hexited (hnotExited exit)
  | joining handle dropping =>
    rw [hc] at h
    obtain ⟨htold, htx, htaken, hasked⟩ := h
    rw [hnothing (by simp [htold]), List.append_nil]
    exact ⟨htold, htx, htaken, hpoll ▸ hasked⟩
  | dropped =>
    rw [hc] at h
    obtain ⟨-, exit, hexited⟩ := h
    exact absurd hexited (hnotExited exit)

namespace Server

/-- A step that leaves the future. -/
theorem Inv.finish {s : Server Addr Err} {told sent : List (Except (StartError Err) Addr)}
    (h : s.Inv told) (hrunning : s.thread.running = true) {exit : Exit Err}
    (hexit : exit.Told (told ++ sent))
    (hasked : (Thread.stopping exit : Thread Addr Err).asked = true → s.thread.asked = true)
    (hsent : sent ≠ [] → told = []) :
    (Server.finish { s with ready := s.ready ++ sent } exit).Inv (told ++ sent) where
  thread := hexit
  heard := h.heard.of_thread (Or.inl hrunning) rfl rfl rfl nofun nofun rfl
    fun hne => ⟨hsent hne, hrunning⟩
  announced hne := by
    obtain ⟨addr, haddr⟩ := h.announced hne
    have hnone : sent = [] := by_contra fun hsome => by simp [hsent hsome] at haddr
    exact ⟨addr, by rw [hnone, List.append_nil, haddr]⟩
  calls := h.calls
  closed := nofun
  readyTx _ := rfl
  hungUp _ _ := rfl
  asked hfired := h.asked (hasked hfired)
  serving := nofun

/-- As long as the thread has told nothing the caller is waiting for it. -/
theorem Inv.receiving {s : Server Addr Err} (h : s.Inv []) (hrunning : s.thread.running = true) :
    s.caller = .receiving ∧ s.ready = [] ∧ s.readyRx = true := by
  have heard := h.heard
  cases hcaller : s.caller with
  | calling =>
    rw [hcaller] at heard
    simp [heard.1, Thread.running] at hrunning
  | receiving =>
    rw [hcaller] at heard
    exact ⟨rfl, heard.2.1, heard.2.2.1⟩
  | failed error =>
    rw [hcaller] at heard
    simp [heard.1] at hrunning
  | holding handle =>
    rw [hcaller] at heard
    cases heard.1
  | joining handle dropping =>
    rw [hcaller] at heard
    cases heard.1
  | dropped =>
    rw [hcaller] at heard
    obtain ⟨⟨addr, haddr⟩, -⟩ := heard
    cases haddr

theorem Inv.giveUp {s : Server Addr Err} (h : s.Inv []) (hrunning : s.thread.running = true)
    {err : Err} {exit : Exit Err} (hexit : exit = .runtimeFailed err ∨ exit = .bindFailed err) :
    (s.giveUp err exit).Inv [.error (.foreign err)] := by
  have hsent : s.giveUp err exit =
      Server.finish { s with ready := s.ready ++ [.error (.foreign err)] } exit := by
    rw [Server.giveUp, sendReady, if_pos (h.receiving hrunning).2.2]
    rfl
  rw [hsent]
  refine h.finish hrunning ?_ (fun hasked => ?_) fun _ => rfl
  · rcases hexit with rfl | rfl <;> exact rfl
  · rcases hexit with rfl | rfl <;> cases hasked

/-- A step of the `select!` that does not leave it. -/
theorem Inv.select {s : Server Addr Err} {told : List (Except (StartError Err) Addr)}
    (h : s.Inv told) {addr : Addr} {state state' : Serving}
    (hthread : s.thread = .serving addr state)
    (hasked : state'.fired = true → s.shutdown.poll ≠ .pending)
    (hserving : (state'.graceful = true → state'.fired = true) ∧
      ∀ deadline, state'.forced = .sleeping deadline →
        state'.fired = true ∧ deadline ≤ s.now + shutdownGracePeriod) :
    { s with thread := .serving addr state' }.Inv told where
  thread := by
    have htold := h.thread
    rw [hthread] at htold
    exact htold
  heard := by
    have hrunning : s.thread.running = true := by rw [hthread]; rfl
    have heard : s.caller.Heard { s with thread := .serving addr state' } (told ++ []) :=
      h.heard.of_thread (Or.inl hrunning) rfl rfl rfl nofun (fun _ => hrunning)
        (List.append_nil _).symm fun hne => absurd rfl hne
    rwa [List.append_nil] at heard
  announced := h.announced
  calls := h.calls
  closed := nofun
  readyTx hgone := by
    have hover := h.readyTx hgone
    rw [hthread] at hover
    cases hover
  hungUp _ h := by rcases h with h | h <;> cases h
  asked := hasked
  serving := by
    rintro _ _ ⟨⟩
    exact hserving

/-- `spawn` returns what the thread told it. -/
theorem Inv.returnFromSpawn {s : Server Addr Err} {told : List (Except (StartError Err) Addr)}
    (h : s.Inv told) {result : Except (StartError Err) Addr} {rest}
    (hpending : s.shutdown.poll = .pending)
    (hresult : (∃ addr, result = .ok addr ∧ told = [.ok addr]) ∨
      ∃ error, result = .error error ∧ s.thread.running = false ∧ ∀ addr, told ≠ [.ok addr]) :
    ({ s with ready := rest }.returnFromSpawn result).Inv told := by
  rcases hresult with ⟨addr, rfl, htold⟩ | ⟨error, rfl, hover, htold⟩
  · exact
      { h with
        heard := ⟨htold, rfl, hpending⟩ }
  · exact
      { h with
        heard := ⟨hover, htold⟩
        asked := fun _ => s.shutdown.poll_dropSender }

/-- `shutdown` returns, when the thread has ended. -/
theorem Inv.returnFromShutdown {s : Server Addr Err} {told : List (Except (StartError Err) Addr)}
    (h : s.Inv told) (handle : Handle Addr) {exit : Exit Err}
    (htold : told = [.ok handle.localAddr]) (htx : handle.shutdownTx = false)
    (htaken : handle.thread = false) (hthread : s.thread = .exited exit) (dropping : Bool) :
    (s.returnFromShutdown handle dropping).Inv told := by
  refine { h with heard := ?_ }
  cases dropping with
  | false => exact ⟨htold, htx.trans htaken.symm, by rw [htaken]; exact ⟨exit, hthread⟩⟩
  | true => exact ⟨⟨_, htold⟩, exit, hthread⟩

theorem Inv.beginShutdown {s : Server Addr Err} {told : List (Except (StartError Err) Addr)}
    (h : s.Inv told) {handle : Handle Addr} (hcaller : s.caller = .holding handle)
    (dropping : Bool) : (s.beginShutdown handle dropping).Inv told := by
  have heard := h.heard
  rw [hcaller] at heard
  obtain ⟨htold, htaken, hrest⟩ := heard
  unfold Server.beginShutdown
  cases hheld : handle.thread with
  | true =>
    rw [hheld] at htaken
    exact
      { h with
        heard := ⟨htold, rfl, rfl, by rw [htaken]; exact s.shutdown.poll_send ()⟩
        asked := fun _ => by rw [htaken]; exact s.shutdown.poll_send () }
  | false =>
    rw [hheld] at htaken hrest
    obtain ⟨exit, hexited⟩ := hrest
    rw [htaken]
    exact h.returnFromShutdown ⟨handle.localAddr, false, false⟩ htold rfl rfl hexited dropping

/-- What a step may tell. -/
def Tells (s : Server Addr Err) (a : Action Addr Err) : Except (StartError Err) Addr → Prop
  | .ok addr => s.thread = .announcing addr
  | .error (.foreign err) => a = .build (some err) ∨ a = .bind (.error err)
  | .error (.bail _) => False

/-- A thread goes on that has told nothing, and tells nothing. -/
theorem Inv.startUp {s : Server Addr Err} (h : s.Inv []) (hrunning : s.thread.running = true)
    {thread : Thread Addr Err} (hthread : thread = .binding ∨ ∃ addr, thread = .announcing addr) :
    { s with thread }.Inv [] where
  thread := by rcases hthread with rfl | ⟨addr, rfl⟩ <;> exact rfl
  heard :=
    h.heard.of_thread (Or.inl hrunning) rfl rfl rfl
      (by rcases hthread with rfl | ⟨addr, rfl⟩ <;> nofun) (fun _ => hrunning)
      (List.append_nil _).symm fun hne => absurd rfl hne
  announced := h.announced
  calls := h.calls
  closed := by rcases hthread with rfl | ⟨addr, rfl⟩ <;> nofun
  readyTx hgone := absurd hrunning (by simp [h.readyTx hgone])
  hungUp _ h := by rcases hthread with rfl | ⟨addr, rfl⟩ <;> rcases h with h | h <;> cases h
  asked := by rcases hthread with rfl | ⟨addr, rfl⟩ <;> nofun
  serving := by rcases hthread with rfl | ⟨addr, rfl⟩ <;> nofun

/-- What the thread has told by the time it serves. -/
theorem Inv.told_of_serving {s : Server Addr Err} {told : List (Except (StartError Err) Addr)}
    (h : s.Inv told) {addr : Addr} {state : Serving} (hserving : s.thread = .serving addr state) :
    s.thread.running = true ∧ told = [.ok addr] := by
  have hthread := h.thread
  rw [hserving] at hthread ⊢
  exact ⟨rfl, hthread⟩

theorem Inv.step {s s' : Server Addr Err} {a : Action Addr Err}
    {told : List (Except (StartError Err) Addr)} (hstep : step s a = some s') (h : s.Inv told) :
    ∃ sent, s'.Inv (told ++ sent) ∧ ∀ result ∈ sent, s.Tells a result := by
  -- most steps tell nothing
  have hnothing : s'.Inv told → ∃ sent, s'.Inv (told ++ sent) ∧ ∀ result ∈ sent, s.Tells a result :=
    fun h' => ⟨[], by rwa [List.append_nil], by simp⟩
  have hleaves : ∀ exit, s.thread.running = true → exit.Told told →
      ((Thread.stopping exit : Thread Addr Err).asked = true → s.thread.asked = true) →
      (s.finish exit).Inv told := fun exit hrunning hexit hasked => by
    have h' := h.finish hrunning (by rwa [List.append_nil]) hasked fun hne => absurd rfl hne
    rwa [List.append_nil, List.append_nil] at h'
  have heard := h.heard
  have hthread := h.thread
  cases moves_of_step hstep with
  | spawns hcaller =>
    rw [hcaller] at heard
    obtain ⟨habsent, hready, htx, hrx, hpending⟩ := heard
    rw [habsent] at hthread
    exact hnothing
      { thread := hthread
        heard := ⟨nofun, hready, hrx, hpending⟩
        announced := h.announced
        calls := h.calls
        closed := nofun
        readyTx := fun hgone => absurd htx (by rw [hgone]; nofun)
        hungUp := fun _ h => by rcases h with h | h <;> cases h
        asked := nofun
        serving := nofun }
  | spawnFails hcaller =>
    rw [hcaller] at heard
    obtain ⟨habsent, -, -, -, -⟩ := heard
    rw [habsent] at hthread
    have htold : told = [] := hthread
    have hover : s.thread.running = false := by rw [habsent]; rfl
    exact hnothing
      { h with
        heard := ⟨hover, by simp [htold]⟩
        readyTx := fun _ => hover
        hungUp := fun _ _ => rfl
        asked := fun _ => s.shutdown.dropReceiver.poll_dropSender }
  | @receives result rest hcaller hready =>
    rw [hcaller] at heard
    obtain ⟨-, hall, -, hpending⟩ := heard
    refine hnothing (h.returnFromSpawn hpending ?_)
    rcases h.thread.cases with htold | ⟨addr, htold⟩ | ⟨hover, err, htold⟩
    · rw [hall, htold] at hready
      cases hready
    · rw [hall, htold] at hready
      obtain ⟨rfl, rfl⟩ := List.cons.inj hready
      exact Or.inl ⟨addr, rfl, htold⟩
    · rw [hall, htold] at hready
      obtain ⟨rfl, rfl⟩ := List.cons.inj hready
      exact Or.inr ⟨_, rfl, hover, by simp [htold]⟩
  | hangsUp hcaller hready hgone =>
    rw [hcaller] at heard
    obtain ⟨-, hall, -, hpending⟩ := heard
    have htold : told = [] := hall.symm.trans hready
    exact hnothing (h.returnFromSpawn hpending
      (Or.inr ⟨_, rfl, h.readyTx hgone, by simp [htold]⟩))
  | shutdown hcaller => exact hnothing (h.beginShutdown hcaller false)
  | drop hcaller => exact hnothing (h.beginShutdown hcaller true)
  | join hcaller hexited =>
    rw [hcaller] at heard
    obtain ⟨htold, htx, htaken, -⟩ := heard
    exact hnothing (h.returnFromShutdown _ htold htx htaken hexited _)
  | builds hstarting =>
    have hrunning : s.thread.running = true := by rw [hstarting]; rfl
    rw [hstarting] at hthread
    obtain rfl : told = [] := hthread
    exact hnothing (h.startUp hrunning (Or.inl rfl))
  | @buildFails err hstarting =>
    have hrunning : s.thread.running = true := by rw [hstarting]; rfl
    rw [hstarting] at hthread
    obtain rfl : told = [] := hthread
    exact ⟨[.error (.foreign err)], h.giveUp hrunning (Or.inl rfl), by simp [Tells]⟩
  | @binds addr hbinding =>
    have hrunning : s.thread.running = true := by rw [hbinding]; rfl
    rw [hbinding] at hthread
    obtain rfl : told = [] := hthread
    exact hnothing (h.startUp hrunning (Or.inr ⟨addr, rfl⟩))
  | @bindFails err hbinding =>
    have hrunning : s.thread.running = true := by rw [hbinding]; rfl
    rw [hbinding] at hthread
    obtain rfl : told = [] := hthread
    exact ⟨[.error (.foreign err)], h.giveUp hrunning (Or.inr rfl), by simp [Tells]⟩
  | @announces addr hannouncing hrx =>
    have hrunning : s.thread.running = true := by rw [hannouncing]; rfl
    rw [hannouncing] at hthread
    obtain rfl : told = [] := hthread
    refine ⟨[.ok addr], ?_, by simpa [Tells] using hannouncing⟩
    exact
      { thread := rfl
        heard := h.heard.of_thread (Or.inl hrunning) rfl rfl rfl nofun (fun _ => hrunning) rfl
          fun _ => ⟨rfl, hrunning⟩
        announced := fun _ => ⟨addr, rfl⟩
        calls := h.calls
        closed := nofun
        readyTx := fun hgone => absurd hrunning (by simp [h.readyTx hgone])
        hungUp := fun _ h => by rcases h with h | h <;> cases h
        asked := nofun
        serving := by
          rintro _ _ ⟨⟩
          exact ⟨nofun, nofun⟩ }
  | announceFails hannouncing hrx =>
    have hrunning : s.thread.running = true := by rw [hannouncing]; rfl
    rw [hannouncing] at hthread
    obtain rfl : told = [] := hthread
    have hheard := (h.receiving hrunning).2.2
    rw [hrx] at hheard
    cases hheard
  | @fires addr state hserving hfired hasked =>
    refine hnothing (h.select hserving (fun _ => hasked) ⟨fun _ => rfl, fun deadline hsleeping => ?_⟩)
    exact ⟨rfl, ((h.serving _ _ hserving).2 deadline hsleeping).2⟩
  | @drains addr state hserving hfired hgraceful =>
    refine hnothing (h.select hserving (fun _ => h.asked ?_) ⟨fun _ => hfired, ?_⟩)
    · rw [hserving]
      exact hfired
    · exact (h.serving _ _ hserving).2
  | @sleeps addr state hserving hfired hforced =>
    refine hnothing (h.select hserving (fun _ => h.asked ?_) ⟨fun _ => hfired, ?_⟩)
    · rw [hserving]
      exact hfired
    · rintro _ ⟨⟩
      exact ⟨hfired, le_rfl⟩
  | @drained addr state hserving hgraceful hclosed =>
    obtain ⟨hrunning, htold⟩ := h.told_of_serving hserving
    refine hnothing (hleaves _ hrunning ⟨addr, htold⟩ fun _ => ?_)
    rw [hserving]
    exact (h.serving _ _ hserving).1 hgraceful
  | @elapsed addr state deadline hserving hforced hdeadline =>
    obtain ⟨hrunning, htold⟩ := h.told_of_serving hserving
    refine hnothing (hleaves _ hrunning ⟨addr, htold⟩ fun _ => ?_)
    rw [hserving]
    exact ((h.serving _ _ hserving).2 deadline hforced).1
  | @exits exit hstopping hidle =>
    rw [hstopping] at hthread
    refine hnothing
      { thread := hthread
        heard := ?_
        announced := fun hne => absurd rfl hne
        calls := nofun
        closed := fun _ _ => ⟨rfl, hidle⟩
        readyTx := fun _ => rfl
        hungUp := fun _ _ => h.hungUp exit (Or.inl hstopping)
        asked := fun hasked => ?_
        serving := nofun }
    · have heard : s.caller.Heard { s with
          thread := .exited exit, shutdown := s.shutdown.dropReceiver, connections := [], calls := [] }
          (told ++ []) :=
        h.heard.of_thread (Or.inr ⟨exit, hstopping⟩) rfl rfl rfl nofun nofun
          (List.append_nil _).symm fun hne => absurd rfl hne
      rwa [List.append_nil] at heard
    · refine h.asked ?_
      rw [hstopping]
      cases exit <;> exact hasked
  | @serveFails addr state err hserving =>
    obtain ⟨hrunning, htold⟩ := h.told_of_serving hserving
    exact hnothing (hleaves _ hrunning ⟨addr, htold⟩ nofun)
  | panics hrunning =>
    refine hnothing (hleaves _ hrunning ?_ nofun)
    rcases h.thread.cases with htold | htold | ⟨hover, -⟩
    · exact Or.inl htold
    · exact Or.inr htold
    · simp [hover] at hrunning
  | closesIdle hdraining hopen hidle =>
    exact hnothing
      { h with
        announced := fun _ => h.announced (List.ne_nil_of_mem hopen)
        calls := fun other hcall =>
          (List.mem_erase_of_ne (ne_of_mem_of_not_mem hcall hidle)).mpr (h.calls other hcall)
        closed := fun exit hexited => by simp [h.closed exit hexited] at hopen }
  | @connects addr state connection hserving hgraceful hnew =>
    obtain ⟨-, htold⟩ := h.told_of_serving hserving
    exact hnothing
      { h with
        announced := fun _ => ⟨addr, htold⟩
        calls := fun other hcall => List.mem_append_left _ (h.calls other hcall)
        closed := fun exit hexited => by rw [hserving] at hexited; cases hexited }
  | @disconnects connection hopen =>
    refine hnothing
      { h with
        announced := fun _ => h.announced (List.ne_nil_of_mem hopen)
        calls := fun other hcall => ?_
        closed := fun exit hexited => by simp [h.closed exit hexited] at hopen }
    obtain ⟨hcall, hother⟩ := List.mem_filter.mp hcall
    exact (List.mem_erase_of_ne (of_decide_eq_true hother)).mpr (h.calls other hcall)
  | @beginsCall connection hopen =>
    refine hnothing { h with calls := fun other hcall => ?_ }
    rcases List.mem_append.mp hcall with hcall | hcall
    · exact h.calls other hcall
    · exact List.mem_singleton.mp hcall ▸ hopen
  | endsCall =>
    exact hnothing { h with calls := fun other hcall => h.calls other (List.mem_of_mem_erase hcall) }
  | beginsDispatch hhosting =>
    refine hnothing { h with closed := fun exit hexited => ?_ }
    have hexited : s.thread = .exited exit := hexited
    simp [hexited, Thread.hosting] at hhosting
  | endsDispatch hdispatching =>
    refine hnothing { h with closed := fun exit hexited => ?_ }
    simp [(h.closed exit hexited).2] at hdispatching
  | ticks =>
    refine hnothing { h with serving := fun addr state hserving => ?_ }
    obtain ⟨hgraceful, hsleeping⟩ := h.serving addr state hserving
    refine ⟨hgraceful, fun deadline hforced => ?_⟩
    obtain ⟨hfired, hle⟩ := hsleeping deadline hforced
    exact ⟨hfired, hle.trans (by simp)⟩

end Server

end MinervaServer
