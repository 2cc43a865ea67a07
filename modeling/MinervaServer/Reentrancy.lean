/-
# Reentrant sinks

`Dispatcher` keeps `pending` in a `RefCell` behind a reentrant lock.  A sink may call the dispatcher
again from inside its `dispatch`, on the thread that holds the lock, and nothing but the extent of
each borrow keeps a `borrow_mut` from finding another one alive.

This is the thread's own view of that: the methods of `Dispatcher` as programs that lock, borrow and
release where the source does, around the functions of `MinervaServer.Dispatcher`; and the engine
as a TREE of the calls that it makes (`Sink`), each with what it does next for every answer.
`dispatch` panics are part of the tree, and so is what the frames of the sink do while they unwind:
these are the calls in front of its `panics`.

No tree comes to a `BorrowMutError` (`reentrant_sinks_never_trip`), and what it does to the
dispatcher is a run of `Dispatcher.step`, which takes every critical section as one step and does
not speak of borrows.
-/
import MinervaServer.Calls
import MinervaServer.Lib.RefCell

namespace MinervaServer

open Lib

variable {Fl : Floats}

/-! ## 1. The methods, with their locks and borrows -/

/-- How a call of `sink.dispatch` ended. -/
inductive Ended where
  | returned
  | panicked
  deriving DecidableEq, Repr

/-- What a sink gets from the future of a `send` that it polls: the outcome; the future, which
waits; or a panic. -/
inductive Reply where
  | ready (outcome : CommandOutcome)
  | pending (k : Nat)
  | panicked
  deriving DecidableEq, Repr

/-- A call that waits is polled, perhaps after its timeout. -/
def SendFuture.pollAt (expired : Bool) (send : SendFuture Fl) : SendFuture Fl :=
  (if expired then send.expire else send).poll

theorem SendFuture.pollAt_id (expired : Bool) (send : SendFuture Fl) :
    (send.pollAt expired).id = send.id := by
  cases expired <;> exact SendFuture.poll_id _

/-- A program on the thread that may take the lock of the dispatcher. -/
abbrev Call (Fl : Floats) (A : Type) := CellM (Dispatcher Fl) A

namespace Call

/-- `Dispatcher::complete`: the `RefMut` is a temporary of the `match`, and alive while the sender
is used. -/
def complete (id : CommandId) (outcome : CommandOutcome) : Call Fl Bool :=
  CellM.statement fun d =>
    let (d, acknowledged) := d.complete id outcome
    (d.observe (.completed id outcome acknowledged), acknowledged)

/-- `Dispatcher::cancel_all`: the `RefMut` is a temporary of the `for`, and alive while the senders
are used. -/
def cancelAll (order : IterOrder CommandId) : Call Fl PUnit :=
  CellM.statement fun d =>
    let (d, drained) := d.cancelAll order
    (d.observe (.cancelledAll drained), ())

/-- `Drop for RemovePending`, of the guard of the call `k`. -/
def dropGuard (k : Nat) (id : CommandId) (ended : Stage) : Call Fl PUnit :=
  CellM.statement fun d => (d.cleanUp k id ended, ())

/-- The future of the call `k` is polled at its await, perhaps after its timeout. -/
def poll (k : Nat) (expired : Bool) : Call Fl Reply := do
  match (← CellM.data).sends[k]? with
  | none => return .panicked
  | some send =>
    if send.stage = .awaiting then
      CellM.update fun d => (d.modifySend k (·.pollAt expired), ())
      match (send.pollAt expired).stage with
      | .resolved arm =>
        dropGuard k send.id (.returned arm)
        return .ready arm.outcome
      | _ => return .pending k
    else
      -- "`async fn` resumed after completion"
      return .panicked

/-- The future of the call `k` is dropped at its await. -/
def dropFuture (k : Nat) : Call Fl PUnit := do
  match (← CellM.data).sends[k]? with
  | none => return
  | some send =>
    if send.stage = .awaiting then
      CellM.update fun d => (d.modifySend k fun send => send.dropReceiver.enter .dropping, ())
      dropGuard k send.id .dropped

/-- The critical section of the call `k` of `send`: the borrow ends with the statement that inserts
the entry, and the lock is held on across `dispatch`. -/
def criticalSection (t : ThreadId) (k : Nat) (id : CommandId) (command : Command Fl)
    (dispatch : CommandId → Call Fl Ended) : Call Fl Ended := do
  CellM.lock
  CellM.borrowMut
  CellM.update fun d => (d.enter t k id, ())
  CellM.release
  CellM.update fun d => (d.dispatch k { id, command }, ())
  let ended ← dispatch id
  CellM.update fun d => (d.leave k (if ended = .returned then .awaiting else .unwinding), ())
  CellM.unlock
  return ended

/-- `Dispatcher::send`, from its first poll to where it waits or ends. -/
def send (t : ThreadId) (command : Command Fl) (expired : Bool)
    (dispatch : CommandId → Call Fl Ended) : Call Fl Reply := do
  let (k, id) ← CellM.update fun d => (d.allocate command, d.sends.length, d.ids.next.1)
  match ← criticalSection t k id command dispatch with
  | .returned => poll k expired
  | .panicked =>
    dropGuard k id .panicked
    return .panicked

end Call

/-! ## 2. Sinks -/

/-- What an engine does in its `dispatch`: it returns or panics, or calls the dispatcher and goes
on with the answer. -/
inductive Sink (Fl : Floats) where
  | returns
  | panics
  | complete (id : CommandId) (outcome : CommandOutcome) (next : Bool → Sink Fl)
  | cancelAll (order : IterOrder CommandId) (next : Sink Fl)
  /-- It starts a `send` and polls it once; `dispatch` is what the engine does in the `dispatch` of
  that one. -/
  | send (command : Command Fl) (dispatch : CommandId → Sink Fl) (expired : Bool)
    (next : Reply → Sink Fl)
  /-- It polls the future of the call `k`. -/
  | poll (k : Nat) (expired : Bool) (next : Reply → Sink Fl)
  /-- It drops the future of the call `k`. -/
  | dropFuture (k : Nat) (next : Sink Fl)

/-- The sink on the thread `t`. -/
def Sink.exec (t : ThreadId) : Sink Fl → Call Fl Ended
  | returns => return .returned
  | panics => return .panicked
  | complete id outcome next => do exec t (next (← Call.complete id outcome))
  | cancelAll order next => do
    Call.cancelAll order
    exec t next
  | send command dispatch expired next => do
    exec t (next (← Call.send t command expired fun id => exec t (dispatch id)))
  | poll k expired next => do exec t (next (← Call.poll k expired))
  | dropFuture k next => do
    Call.dropFuture k
    exec t next

namespace Dispatcher

/-! ## 3. What a sink leaves behind -/

theorem mayLock_iff {d : Dispatcher Fl} {t : ThreadId} : d.mayLock t ↔
    ∀ k, d.frames.head? = some k → d.holder = t ∧ d.stageOf k = some .dispatching := by
  unfold mayLock
  cases d.frames with
  | nil => simp
  | cons k frames => simp

/-- What a call of the dispatcher may do between two points of the thread that holds the lock:
steps, after which the same critical sections are open, each in its `dispatch`. -/
structure Resumes (d d' : Dispatcher Fl) : Prop where
  steps : ∃ actions, run step d actions = some d'
  frames : d'.frames = d.frames
  holder : d.frames ≠ [] → d'.holder = d.holder
  dispatching : ∀ k, d.stageOf k = some .dispatching → d'.stageOf k = some .dispatching

theorem Resumes.refl (d : Dispatcher Fl) : Resumes d d :=
  ⟨⟨[], rfl⟩, rfl, fun _ => rfl, fun _ h => h⟩

theorem Resumes.trans {d d' d'' : Dispatcher Fl} (h : Resumes d d') (h' : Resumes d' d'') :
    Resumes d d'' where
  steps := by
    obtain ⟨first, hfirst⟩ := h.steps
    obtain ⟨rest, hrest⟩ := h'.steps
    exact ⟨first ++ rest, run_append.mpr ⟨d', hfirst, hrest⟩⟩
  frames := h'.frames.trans h.frames
  holder hframes := (h'.holder (h.frames ▸ hframes)).trans (h.holder hframes)
  dispatching k hk := h'.dispatching k (h.dispatching k hk)

theorem Resumes.mayLock {d d' : Dispatcher Fl} (h : Resumes d d') {t : ThreadId}
    (hlock : d.mayLock t) : d'.mayLock t := by
  refine mayLock_iff.mpr fun k hk => ?_
  rw [h.frames] at hk
  obtain ⟨hholder, hstage⟩ := mayLock_iff.mp hlock k hk
  have hframes : d.frames ≠ [] := by
    rintro hnil
    rw [hnil] at hk
    cases hk
  exact ⟨(h.holder hframes).trans hholder, h.dispatching k hstage⟩

/-- A step outside of the critical sections, or in one that it opens and closes. -/
theorem Resumes.step {d d' : Dispatcher Fl} {a : Action Fl} (hstep : step d a = some d')
    (hframes : d'.frames = d.frames) (hholder : d'.holder = d.holder)
    (hdispatching : ∀ k, d.stageOf k = some .dispatching → d'.stageOf k = some .dispatching) :
    Resumes d d' :=
  ⟨⟨[a], by rw [run_cons, hstep, Option.bind_some, run_nil]⟩, hframes, fun _ => hholder,
    hdispatching⟩

/-- A change of one call that is not in its `dispatch`. -/
theorem dispatching_modifySend {d : Dispatcher Fl} {k : Nat} {send : SendFuture Fl}
    (hsend : d.sends[k]? = some send) (hstage : send.stage ≠ .dispatching)
    (f : SendFuture Fl → SendFuture Fl) {j : Nat} (hj : d.stageOf j = some .dispatching) :
    (d.modifySend k f).stageOf j = some .dispatching := by
  have hne : k ≠ j := by
    rintro rfl
    rw [stageOf, hsend, Option.map_some] at hj
    exact hstage (Option.some.inj hj)
  rw [stageOf_modifySend_ne d hne, hj]

theorem sends_allocate (d : Dispatcher Fl) (command : Command Fl) :
    (d.allocate command).sends[d.sends.length]? = some { id := d.ids.next.1, command } :=
  List.getElem?_concat_length

theorem resumes_allocate (d : Dispatcher Fl) (command : Command Fl) :
    Resumes d (d.allocate command) := by
  refine .step (a := .allocate command) rfl rfl rfl fun k hk => ?_
  obtain ⟨send, hsend, hstage⟩ := Option.map_eq_some_iff.mp hk
  have hlt := (List.getElem?_eq_some_iff.mp hsend).1
  rw [stageOf, allocate, List.getElem?_append_left hlt, hsend, Option.map_some, hstage]

theorem resumes_complete {d : Dispatcher Fl} {t : ThreadId} (hlock : d.mayLock t)
    (id : CommandId) (outcome : CommandOutcome) : Resumes d
      ((d.complete id outcome).1.observe (.completed id outcome (d.complete id outcome).2)) := by
  have hkeeps : (d.complete id outcome).1.frames = d.frames ∧
      (d.complete id outcome).1.holder = d.holder := by
    unfold complete
    cases d.pending[id]? <;> exact ⟨rfl, rfl⟩
  refine .step (a := .complete t id outcome) (if_pos hlock) hkeeps.1 hkeeps.2 fun k hk => ?_
  exact (stageOf_congr (map_complete (by intros; rfl) d id outcome) k).trans hk

theorem resumes_cancelAll {d : Dispatcher Fl} {t : ThreadId} (hlock : d.mayLock t)
    (order : IterOrder CommandId) : Resumes d
      ((d.cancelAll order).1.observe (.cancelledAll (d.cancelAll order).2)) := by
  refine .step (a := .cancelAll t order) (if_pos hlock) rfl rfl fun k hk => ?_
  exact (stageOf_congr (map_cancelAll (by intros; rfl) order d) k).trans hk

theorem frames_dropEntry (d : Dispatcher Fl) (id : CommandId) :
    (d.dropEntry id).frames = d.frames ∧ (d.dropEntry id).holder = d.holder := by
  unfold dropEntry
  cases d.pending[id]? <;> exact ⟨rfl, rfl⟩

theorem resumes_cleanUp {d : Dispatcher Fl} {t : ThreadId} (hlock : d.mayLock t) {k : Nat}
    {send : SendFuture Fl} (hsend : d.sends[k]? = some send) {ended : Stage}
    (hended : send.stage.ended = some ended) : Resumes d (d.cleanUp k send.id ended) := by
  have hstep : step d (.dropGuard t k) = some (d.cleanUp k send.id ended) := by
    rw [step, hsend, Option.bind_some, hended, Option.bind_some, if_pos hlock]
  have hkeeps := frames_dropEntry d send.id
  refine .step hstep hkeeps.1 hkeeps.2 fun j hj => ?_
  have hne : k ≠ j := by
    rintro rfl
    rw [stageOf, hsend, Option.map_some, Option.some.injEq] at hj
    rw [hj] at hended
    cases hended
  exact (stageOf_modifySend_ne (d.dropEntry send.id) hne _).trans
    ((stageOf_dropEntry d send.id j).trans hj)

end Dispatcher

/-! ## 4. Every call, and every tree of calls -/

section Tree

variable {t : ThreadId}

/-- A program that runs without a `BorrowMutError` wherever the thread `t` may take the lock, and
only does what a call may do. -/
def Safe {A : Type} (t : ThreadId) (program : Call Fl A) : Prop :=
  ∀ d : Dispatcher Fl, d.mayLock t → CellM.KeepsAt Dispatcher.Resumes d program

theorem safe_pure {A : Type} (a : A) : Safe t (pure a : Call Fl A) :=
  fun d _ => .pure (.refl d) a

theorem Safe.bind {A B : Type} {program : Call Fl A} {next : A → Call Fl B}
    (h : Safe t program) (hnext : ∀ a, Safe t (next a)) : Safe t (program >>= next) :=
  fun d hlock => (h d hlock).bind (fun _ _ _ => .trans) fun a d' hresumes =>
    hnext a d' (hresumes.mayLock hlock)

theorem safe_complete (id : CommandId) (outcome : CommandOutcome) :
    Safe t (Call.complete id outcome : Call Fl Bool) :=
  fun _ hlock => .statement (Dispatcher.resumes_complete hlock id outcome)

theorem safe_cancelAll (order : IterOrder CommandId) :
    Safe t (Call.cancelAll order : Call Fl PUnit) :=
  fun _ hlock => .statement (Dispatcher.resumes_cancelAll hlock order)

/-- A future that waits is polled. -/
theorem resumes_poll {d : Dispatcher Fl} {k : Nat} {send : SendFuture Fl}
    (hsend : d.sends[k]? = some send) (hstage : send.stage = .awaiting) (expired : Bool) :
    d.Resumes (d.modifySend k (·.pollAt expired)) := by
  have hne : send.stage ≠ .dispatching := by rw [hstage]; decide
  refine ⟨?_, rfl, fun _ => rfl, fun j hj => Dispatcher.dispatching_modifySend hsend hne _ hj⟩
  cases expired with
  | false =>
    have hpoll : Dispatcher.step d (.poll k) = some (d.modifySend k SendFuture.poll) := by
      rw [Dispatcher.step, hsend, Option.bind_some, if_pos hstage]
    exact ⟨[.poll k], by rw [run_cons, hpoll]; rfl⟩
  | true =>
    have hexpire : Dispatcher.step d (.timerExpires k) =
        some (d.modifySend k SendFuture.expire) := by
      rw [Dispatcher.step, hsend, Option.bind_some, if_pos hstage]
    have hexpired := Dispatcher.getElem?_modifySend_self hsend SendFuture.expire
    have hpoll : Dispatcher.step (d.modifySend k SendFuture.expire) (.poll k) =
        some ((d.modifySend k SendFuture.expire).modifySend k SendFuture.poll) := by
      rw [Dispatcher.step, hexpired, Option.bind_some]
      exact if_pos hstage
    refine ⟨[.timerExpires k, .poll k], ?_⟩
    rw [run_cons, hexpire, Option.bind_some, run_cons, hpoll]
    simp [Dispatcher.modifySend, List.modify_modify_eq, Function.comp_def, SendFuture.pollAt]

theorem safe_poll (k : Nat) (expired : Bool) : Safe t (Call.poll k expired : Call Fl Reply) := by
  refine fun d hlock => .data ?_
  cases hsend : d.sends[k]? with
  | none => exact .pure (.refl d) _
  | some send =>
    by_cases hstage : send.stage = .awaiting
    · simp only [hstage, if_true]
      have hresumes := resumes_poll hsend hstage expired
      refine .update (fun _ _ _ => .trans) hresumes ?_
      have hpolled := Dispatcher.getElem?_modifySend_self hsend
        (·.pollAt expired)
      cases hafter : (send.pollAt expired).stage with
      | resolved arm =>
        have hended : (send.pollAt expired).stage.ended = some (.returned arm) := by
          rw [hafter]
          rfl
        have hclean := Dispatcher.resumes_cleanUp (hresumes.mayLock hlock) hpolled hended
        rw [SendFuture.pollAt_id] at hclean
        exact (CellM.KeepsAt.statement hclean).bind (fun _ _ _ => .trans) fun _ d' _ =>
          .pure (.refl d') _
      | _ => exact .pure (.refl _) _
    · simp only [hstage, if_false]
      exact .pure (.refl d) _

theorem safe_dropFuture (k : Nat) : Safe t (Call.dropFuture k : Call Fl PUnit) := by
  refine fun d hlock => .data ?_
  cases hsend : d.sends[k]? with
  | none => exact .pure (.refl d) _
  | some send =>
    by_cases hstage : send.stage = .awaiting
    · simp only [hstage, if_true]
      have hne : send.stage ≠ .dispatching := by rw [hstage]; decide
      have hstep : Dispatcher.step d (.dropFuture k) =
          some (d.modifySend k fun send => send.dropReceiver.enter .dropping) := by
        rw [Dispatcher.step, hsend, Option.bind_some, if_pos hstage]
      have hresumes : d.Resumes (d.modifySend k fun send => send.dropReceiver.enter .dropping) :=
        .step hstep rfl rfl fun j hj => Dispatcher.dispatching_modifySend hsend hne _ hj
      refine .update (fun _ _ _ => .trans) hresumes (.statement ?_)
      have hdropping := Dispatcher.getElem?_modifySend_self hsend
        fun send => send.dropReceiver.enter .dropping
      exact Dispatcher.resumes_cleanUp (hresumes.mayLock hlock) hdropping rfl
    · simp only [hstage, if_false]
      exact .pure (.refl d) _

end Tree

namespace Dispatcher

/-- `d'` is `d` with one more critical section open: the one of the call `k` on the thread `t`, which
is in its `dispatch` with this request. -/
structure Opens (t : ThreadId) (k : Nat) (request : CommandId × Command Fl)
    (d d' : Dispatcher Fl) : Prop where
  steps : ∃ actions, run step d actions = some d'
  frames : d'.frames = k :: d.frames
  holder : d'.holder = t
  sent : ∃ send, d'.sends[k]? = some send ∧ send.request = request ∧ send.stage = .dispatching
  dispatching : ∀ j, d.stageOf j = some .dispatching → k ≠ j ∧ d'.stageOf j = some .dispatching

variable {t : ThreadId} {k : Nat} {request : CommandId × Command Fl} {d d' : Dispatcher Fl}

theorem Opens.stageOf (h : Opens t k request d d') : d'.stageOf k = some .dispatching := by
  obtain ⟨send, hsend, -, hstage⟩ := h.sent
  rw [Dispatcher.stageOf, hsend, Option.map_some, hstage]

theorem Opens.mayLock (h : Opens t k request d d') : d'.mayLock t := by
  refine mayLock_iff.mpr fun j hj => ?_
  rw [h.frames] at hj
  obtain rfl := Option.some.inj hj
  exact ⟨h.holder, h.stageOf⟩

/-- The call `k` inserts its entry and enters `dispatch`. -/
theorem run_told {send : SendFuture Fl} (hlock : d.mayLock t) (hsend : d.sends[k]? = some send)
    (hstage : send.stage = .allocated) : run step d [.enter t k, .dispatch k] =
      some ((d.enter t k send.id).dispatch k { id := send.id, command := send.command }) := by
  let entered := d.enter t k send.id
  have henter : step d (.enter t k) = some entered := by
    rw [step, hsend, Option.bind_some, if_pos ⟨hstage, hlock⟩]
  obtain ⟨found, hfound, hrequest⟩ :=
    exists_of_map (map_dropEntry (g := SendFuture.request) (by intros; rfl) d send.id) hsend
  have hinserted : entered.sends[k]? = some (found.enter .inserted) :=
    getElem?_modifySend_self hfound _
  have htell : step entered (.dispatch k) =
      some (entered.dispatch k { id := send.id, command := send.command }) := by
    obtain ⟨hid, hcommand⟩ := Prod.mk.inj hrequest
    rw [step, hinserted, Option.bind_some, if_pos ⟨rfl, rfl⟩]
    simp [dispatch, SendFuture.enter, hid, hcommand]
  rw [run_cons, henter, Option.bind_some, run_cons, htell]
  rfl

theorem opens_of_allocated {send : SendFuture Fl} (hlock : d.mayLock t)
    (hsend : d.sends[k]? = some send) (hstage : send.stage = .allocated) :
    Opens t k send.request d
      ((d.enter t k send.id).dispatch k { id := send.id, command := send.command }) := by
  obtain ⟨found, hfound, hrequest⟩ :=
    exists_of_map (map_dropEntry (g := SendFuture.request) (by intros; rfl) d send.id) hsend
  have hinserted : (d.enter t k send.id).sends[k]? = some (found.enter .inserted) :=
    getElem?_modifySend_self hfound _
  refine ⟨⟨_, run_told hlock hsend hstage⟩, rfl, rfl,
    ⟨_, getElem?_modifySend_self hinserted _, hrequest, rfl⟩, fun j hj => ?_⟩
  have hne : k ≠ j := by
    rintro rfl
    rw [Dispatcher.stageOf, hsend, Option.map_some, hstage] at hj
    cases hj
  -- both changes are of the call `k`
  have hentered : (d.enter t k send.id).stageOf j = d.stageOf j :=
    (stageOf_modifySend_ne _ hne _).trans (stageOf_dropEntry d send.id j)
  exact ⟨hne, (stageOf_modifySend_ne _ hne _).trans (hentered.trans hj)⟩

/-- What a call does inside of it leaves the critical section open. -/
theorem Opens.resumes (h : Opens t k request d d') {d'' : Dispatcher Fl} (h' : Resumes d' d'') :
    Opens t k request d d'' where
  steps := by
    obtain ⟨first, hfirst⟩ := h.steps
    obtain ⟨rest, hrest⟩ := h'.steps
    exact ⟨first ++ rest, run_append.mpr ⟨d', hfirst, hrest⟩⟩
  frames := h'.frames.trans h.frames
  holder := (h'.holder (by simp [h.frames])).trans h.holder
  sent := by
    obtain ⟨send, hsend, hrequest, -⟩ := h.sent
    obtain ⟨rest, hrest⟩ := h'.steps
    obtain ⟨last, hlast, hkept⟩ := exists_of_requests (requests_of_run hrest) hsend
    have hstage := h'.dispatching k h.stageOf
    rw [Dispatcher.stageOf, hlast, Option.map_some, Option.some.injEq] at hstage
    exact ⟨last, hlast, hkept.trans hrequest, hstage⟩
  dispatching j hj := ⟨(h.dispatching j hj).1, h'.dispatching j (h.dispatching j hj).2⟩

/-- The critical section is closed again. -/
theorem Opens.leave (h : Opens t k request d d') (hlock : d.mayLock t) {a : Action Fl}
    {stage : Stage} (hleave : step d' a = some (d'.leave k stage)) :
    Resumes d (d'.leave k stage) where
  steps := by
    obtain ⟨first, hfirst⟩ := h.steps
    refine ⟨first ++ [a], run_append.mpr ⟨d', hfirst, ?_⟩⟩
    rw [run_cons, hleave]
    rfl
  frames := by
    change d'.frames.tail = d.frames
    rw [h.frames, List.tail_cons]
  holder hopen := by
    obtain ⟨top, htop⟩ := Option.isSome_iff_exists.mp (List.isSome_head?.mpr hopen)
    exact h.holder.trans (mayLock_iff.mp hlock top htop).1.symm
  dispatching j hj := (stageOf_modifySend_ne d' (h.dispatching j hj).1 _).trans
    (h.dispatching j hj).2

end Dispatcher

section Tree

variable {t : ThreadId}

/-- **The critical section.**  Its own borrow is over before `dispatch` is called, so it runs to its
end with nothing borrowed if `dispatch` does, and then the call waits or unwinds. -/
theorem criticalSection_keeps {d : Dispatcher Fl} (hlock : d.mayLock t) {k : Nat}
    {send : SendFuture Fl} (hsend : d.sends[k]? = some send) (hstage : send.stage = .allocated)
    (dispatch : CommandId → Call Fl Ended) (hdispatch : Safe t (dispatch send.id)) (depth : Nat) :
    ∃ ended d', Call.criticalSection t k send.id send.command dispatch ⟨d, depth, 0⟩ =
        .ok (ended, ⟨d', depth, 0⟩) ∧
      d.Resumes d' ∧
      ∃ send', d'.sends[k]? = some send' ∧ send'.id = send.id ∧
        send'.stage = if ended = .returned then .awaiting else .unwinding := by
  have hopens := Dispatcher.opens_of_allocated hlock hsend hstage
  obtain ⟨ended, last, hrun, hresumes⟩ := hdispatch _ hopens.mayLock (depth + 1)
  have hlast := hopens.resumes hresumes
  obtain ⟨send', hsend', hrequest, hstage'⟩ := hlast.sent
  have htop : last.frames.head? = some k := by
    rw [hlast.frames, List.head?_cons]
  let stage : Stage := if ended = .returned then .awaiting else .unwinding
  have hleave : ∃ a, Dispatcher.step last a = some (last.leave k stage) := by
    cases ended with
    | returned =>
      exact ⟨.dispatchReturns k, by
        rw [Dispatcher.step, hsend', Option.bind_some, if_pos ⟨hstage', htop⟩]; rfl⟩
    | panicked =>
      exact ⟨.dispatchPanics k, by
        rw [Dispatcher.step, hsend', Option.bind_some, if_pos ⟨hstage', htop⟩]; rfl⟩
  obtain ⟨a, hleave⟩ := hleave
  refine ⟨ended, last.leave k stage, ?_, hlast.leave hlock hleave, _,
    Dispatcher.getElem?_modifySend_self hsend' _, congrArg Prod.fst hrequest, rfl⟩
  change (dispatch send.id ⟨_, depth + 1, 0⟩).bind _ = _
  rw [hrun]
  rfl

theorem safe_send (command : Command Fl) (expired : Bool) {dispatch : CommandId → Call Fl Ended}
    (hdispatch : ∀ id, Safe t (dispatch id)) : Safe t (Call.send t command expired dispatch) := by
  intro d hlock
  have hallocate := Dispatcher.resumes_allocate d command
  refine .update (fun _ _ _ => .trans) hallocate fun depth => ?_
  have hallocated := hallocate.mayLock hlock
  obtain ⟨ended, d', hsection, hresumes, send', hsend', hid, hstage'⟩ :=
    criticalSection_keeps hallocated (Dispatcher.sends_allocate d command) rfl dispatch
      (hdispatch _) depth
  -- what follows the critical section
  let rest : Ended → Call Fl Reply
    | .returned => Call.poll d.sends.length expired
    | .panicked => do
      Call.dropGuard d.sends.length d.ids.next.1 .panicked
      return .panicked
  have hrest : CellM.KeepsAt Dispatcher.Resumes d' (rest ended) := by
    cases ended with
    | returned => exact safe_poll _ expired d' (hresumes.mayLock hallocated)
    | panicked =>
      have hclean := Dispatcher.resumes_cleanUp (hresumes.mayLock hallocated) hsend'
        (show send'.stage.ended = some .panicked by rw [hstage']; rfl)
      rw [hid] at hclean
      exact (CellM.KeepsAt.statement hclean).bind (fun _ _ _ => .trans) fun _ d'' _ =>
        .pure (.refl d'') _
  obtain ⟨reply, d'', hrun, hresumes'⟩ := hrest depth
  refine ⟨reply, d'', ?_, hresumes.trans hresumes'⟩
  change (Call.criticalSection t d.sends.length d.ids.next.1 command dispatch
    ⟨d.allocate command, depth, 0⟩).bind _ = _
  rw [hsection]
  cases ended <;> exact hrun

/-- **Every tree of calls** runs to its end, or to its panic, without a `BorrowMutError`. -/
theorem Sink.safe (sink : Sink Fl) : Safe t (sink.exec t) := by
  induction sink with
  | returns => exact safe_pure _
  | panics => exact safe_pure _
  | complete id outcome next ih => exact (safe_complete id outcome).bind ih
  | cancelAll order next ih => exact (safe_cancelAll order).bind fun _ => ih
  | send command dispatch expired next ihdispatch ihnext =>
    exact (safe_send command expired ihdispatch).bind ihnext
  | poll k expired next ih => exact (safe_poll k expired).bind ih
  | dropFuture k next ih => exact (safe_dropFuture k).bind fun _ => ih

/-- A sink that is called under a borrow panics with its first acknowledgement. -/
theorem Sink.trips_of_borrowed (t : ThreadId) {cell : LockedCell (Dispatcher Fl)}
    (h : cell.borrows ≠ 0) (id : CommandId) (outcome : CommandOutcome) (next : Bool → Sink Fl) :
    (Sink.complete id outcome next).exec t cell = .error .alreadyBorrowed := by
  change (Call.complete id outcome cell).bind _ = _
  rw [Call.complete, CellM.statement_of_borrowed _ h]
  rfl

end Tree

/-! ## 5. Every run -/

namespace Dispatcher

/-- **Reentrant sinks never trip the `RefCell`.**  From every reachable dispatcher, on every thread
that may take the lock there, and with every tree of calls that the engine makes in its `dispatch`:
the critical section of `send` ends without a `BorrowMutError`, with nothing borrowed and the lock
held once for each critical section that is still open; so does `send` itself, where it waits or is
over; and the dispatcher has got there by its steps. -/
theorem reentrant_sinks_never_trip {actions : List (Action Fl)} {d : Dispatcher Fl}
    (hrun : after actions = some d) {t : ThreadId} (hlock : d.mayLock t) (command : Command Fl)
    (expired : Bool) (dispatch : CommandId → Sink Fl) :
    (∃ ended d', Call.criticalSection t d.sends.length d.ids.next.1 command
        (fun id => (dispatch id).exec t) ⟨d.allocate command, d.frames.length, 0⟩ =
          .ok (ended, ⟨d', d'.frames.length, 0⟩) ∧
      d'.frames = d.frames ∧ ∃ more, after (actions ++ more) = some d') ∧
    ∃ reply d', Call.send t command expired (fun id => (dispatch id).exec t)
        ⟨d, d.frames.length, 0⟩ = .ok (reply, ⟨d', d'.frames.length, 0⟩) ∧
      d'.frames = d.frames ∧ ∃ more, after (actions ++ more) = some d' := by
  have hreached : ∀ {d' : Dispatcher Fl}, Resumes d d' →
      d'.frames = d.frames ∧ ∃ more, after (actions ++ more) = some d' := by
    intro d' h
    obtain ⟨more, hmore⟩ := h.steps
    exact ⟨h.frames, more, run_append.mpr ⟨d, hrun, hmore⟩⟩
  have hallocate := resumes_allocate d command
  have hdispatch : ∀ id, Safe t ((dispatch id).exec t) := fun id => (dispatch id).safe
  constructor
  · obtain ⟨ended, d', hsection, hresumes, -⟩ := criticalSection_keeps (hallocate.mayLock hlock)
      (sends_allocate d command) rfl (fun id => (dispatch id).exec t) (hdispatch _) d.frames.length
    have hd' := hallocate.trans hresumes
    exact ⟨ended, d', by rw [hd'.frames]; exact hsection, hreached hd'⟩
  · obtain ⟨reply, d', hsend, hresumes⟩ := safe_send command expired hdispatch d hlock
      d.frames.length
    exact ⟨reply, d', by rw [hresumes.frames]; exact hsend, hreached hresumes⟩

/-- An engine that acknowledges in its `dispatch`, starts another `send` there, whose `dispatch`
cancels everything and panics, and panics itself. -/
theorem reentrant_sinks_never_trip_sample :
    let dispatch : CommandId → Sink Floats.bits := fun id =>
      .complete id .success fun _ =>
        .send .sample (fun _ => .cancelAll .ascending .panics) false fun _ => .panics
    ∃ reply d', Call.send 0 .sample false (fun id => (dispatch id).exec 0)
        ⟨({} : Dispatcher Floats.bits), 0, 0⟩ = .ok (reply, ⟨d', d'.frames.length, 0⟩) ∧
      d'.frames = [] ∧ ∃ more, after more = some d' := by
  intro dispatch
  have hrun : after [] = some ({} : Dispatcher Floats.bits) := rfl
  exact (reentrant_sinks_never_trip hrun (t := 0) rfl .sample false dispatch).2

end Dispatcher

end MinervaServer
