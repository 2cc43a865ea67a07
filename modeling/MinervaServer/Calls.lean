/-
# The calls of the dispatcher

What a step of the dispatcher leaves alone and what it does, seen from one call of `send`.  A
critical section works on channels and on `pending`; it leaves the calls their ids, their commands
and their stages.  So a call keeps its REQUEST over every run (`requests_of_run`), the engine is
told nothing but what a call asks for (`told_after`), and the STAGE of a call goes one way, past the
engine once (`advances_of_moves`).

None of this depends on the ids: it holds after 2^64 sends as well.
-/
import MinervaServer.Dispatcher

namespace MinervaServer

open Lib

variable {Fl : Floats}

/-- Changing one element in a way that `g` does not see. -/
theorem map_modify_of {A B : Type} {f : A → A} {g : A → B} (h : ∀ a, g (f a) = g a) (l : List A)
    (k : Nat) : (l.modify k f).map g = l.map g := by
  refine List.ext_getElem? fun i => ?_
  rw [List.getElem?_map, List.getElem?_map, List.getElem?_modify]
  cases l[i]? with
  | none => rfl
  | some a => by_cases hi : k = i <;> simp [hi, h]

namespace Dispatcher

/-! ## 1. What the critical sections leave alone

They work on the channels.  `g` stands for what is looked at in a call, and it does not look at its
channel. -/

section Frame

variable {A : Type} {g : SendFuture Fl → A}

theorem map_modifySend (d : Dispatcher Fl) (k : Nat) {f : SendFuture Fl → SendFuture Fl}
    (h : ∀ send, g (f send) = g send) : (d.modifySend k f).sends.map g = d.sends.map g :=
  map_modify_of h d.sends k

theorem map_dropEntry (hg : ∀ send channel, g { send with channel } = g send) (d : Dispatcher Fl)
    (id : CommandId) : (d.dropEntry id).sends.map g = d.sends.map g := by
  unfold dropEntry
  cases d.pending[id]? with
  | none => rfl
  | some j => exact map_modifySend d j fun send => hg send _

theorem map_complete (hg : ∀ send channel, g { send with channel } = g send) (d : Dispatcher Fl)
    (id : CommandId) (outcome : CommandOutcome) :
    (d.complete id outcome).1.sends.map g = d.sends.map g := by
  unfold complete
  cases d.pending[id]? with
  | none => rfl
  | some j => exact map_modifySend d j fun send => hg send _

theorem map_cancelAll (hg : ∀ send channel, g { send with channel } = g send)
    (order : IterOrder CommandId) (d : Dispatcher Fl) :
    (d.cancelAll order).1.sends.map g = d.sends.map g := by
  have hfold : ∀ (drained : List (CommandId × Nat)) (sends : List (SendFuture Fl)),
      (drained.foldl (fun sends entry => sends.modify entry.2 (·.deliver .cancelled)) sends).map g =
        sends.map g := by
    intro drained
    induction drained with
    | nil => exact fun _ => rfl
    | cons entry rest ih =>
      intro sends
      rw [List.foldl_cons, ih]
      exact map_modify_of (fun send => hg send _) sends entry.2
  exact hfold _ d.sends

theorem exists_of_map {A : Type} {g : SendFuture Fl → A} {d d' : Dispatcher Fl}
    (h : d'.sends.map g = d.sends.map g) {k : Nat} {send : SendFuture Fl}
    (hsend : d.sends[k]? = some send) : ∃ send', d'.sends[k]? = some send' ∧ g send' = g send := by
  have hk : (d'.sends.map g)[k]? = some (g send) := by
    rw [h, List.getElem?_map, hsend, Option.map_some]
  rw [List.getElem?_map] at hk
  exact Option.map_eq_some_iff.mp hk

end Frame

theorem stageOf_eq (d : Dispatcher Fl) (k : Nat) :
    d.stageOf k = (d.sends.map SendFuture.stage)[k]? := List.getElem?_map.symm

theorem stageOf_congr {d d' : Dispatcher Fl}
    (h : d'.sends.map SendFuture.stage = d.sends.map SendFuture.stage) (k : Nat) :
    d'.stageOf k = d.stageOf k := by rw [stageOf_eq, stageOf_eq, h]

theorem stageOf_modifySend_ne (d : Dispatcher Fl) {j k : Nat} (h : k ≠ j)
    (f : SendFuture Fl → SendFuture Fl) : (d.modifySend k f).stageOf j = d.stageOf j := by
  have hsend : (d.modifySend k f).sends[j]? = d.sends[j]? := List.getElem?_modify_ne f d.sends h
  rw [stageOf, hsend, stageOf]

theorem getElem?_modifySend_self {d : Dispatcher Fl} {k : Nat} {send : SendFuture Fl}
    (hsend : d.sends[k]? = some send) (f : SendFuture Fl → SendFuture Fl) :
    (d.modifySend k f).sends[k]? = some (f send) := by
  rw [modifySend, List.getElem?_modify_eq, hsend]
  rfl

theorem stageOf_dropEntry (d : Dispatcher Fl) (id : CommandId) (k : Nat) :
    (d.dropEntry id).stageOf k = d.stageOf k :=
  stageOf_congr (map_dropEntry (by intros; rfl) d id) k

/-! ## 2. What the engine is told -/

/-- What the calls so far asked for. -/
def requests (d : Dispatcher Fl) : List (CommandId × Command Fl) := d.sends.map SendFuture.request

theorem trace_complete (d : Dispatcher Fl) (id : CommandId) (outcome : CommandOutcome) :
    (d.complete id outcome).1.trace = d.trace := by
  unfold complete
  cases d.pending[id]? <;> rfl

/-- A call keeps its id and its command. -/
theorem requests_of_moves {d d' : Dispatcher Fl} {a : Action Fl} (hm : Moves d a d') :
    d.requests <+: d'.requests := by
  have hsame : d'.requests = d.requests → d.requests <+: d'.requests := fun h => h ▸ List.prefix_rfl
  cases hm with
  | allocate command => simp [allocate, requests]
  | @enter t k send hsend hstage hlock =>
    refine hsame ((map_modifySend _ k (by intro send; rfl)).trans ?_)
    exact map_dropEntry (by intros; rfl) d send.id
  | @dispatch k send hsend hstage htop =>
    exact hsame (map_modifySend d k (by intro send; rfl))
  | @dispatchReturns k | @dispatchPanics k | @timerExpires k | @dropFuture k =>
    exact hsame (map_modifySend d k (by intro send; rfl))
  | @poll k => exact hsame (map_modifySend d k SendFuture.poll_request)
  | @dropGuard t k send ended hsend hended hlock =>
    refine hsame ((map_modifySend _ k (by intro send; rfl)).trans ?_)
    exact map_dropEntry (by intros; rfl) d send.id
  | @complete t id outcome hlock => exact hsame (map_complete (by intros; rfl) d id outcome)
  | @cancelAll t order hlock => exact hsame (map_cancelAll (by intros; rfl) order d)

theorem requests_of_run {d d' : Dispatcher Fl} {actions : List (Action Fl)}
    (h : run step d actions = some d') : d.requests <+: d'.requests :=
  run_invariant (P := fun s => d.requests <+: s.requests)
    (fun _ _ _ hstep hs => hs.trans (requests_of_moves (moves_of_step hstep))) h List.prefix_rfl

/-- A call is still there after a run, with its request. -/
theorem exists_of_requests {d d' : Dispatcher Fl} (h : d.requests <+: d'.requests) {k : Nat}
    {send : SendFuture Fl} (hsend : d.sends[k]? = some send) :
    ∃ send', d'.sends[k]? = some send' ∧ send'.request = send.request := by
  have hbefore : d.requests[k]? = some send.request := by
    rw [requests, List.getElem?_map, hsend, Option.map_some]
  obtain ⟨more, hmore⟩ := h
  have hafter : d'.requests[k]? = some send.request := by
    rw [← hmore, List.getElem?_append_left (List.getElem?_eq_some_iff.mp hbefore).1, hbefore]
  rw [requests, List.getElem?_map] at hafter
  exact Option.map_eq_some_iff.mp hafter

/-- **The engine is told nothing but what a call asks for**, under the id of that call. -/
def Told (d : Dispatcher Fl) : Prop :=
  ∀ id command, .dispatched id command ∈ d.trace → (id, command) ∈ d.requests

theorem Told.step {d d' : Dispatcher Fl} {a : Action Fl} (h : d.Told) (hm : Moves d a d') :
    d'.Told := by
  intro id command hdispatched
  refine (requests_of_moves hm).subset ?_
  have hold : .dispatched id command ∈ d.trace → (id, command) ∈ d.requests := h id command
  cases hm with
  | allocate => exact hold hdispatched
  | dispatchReturns | dispatchPanics | timerExpires | poll | dropFuture => exact hold hdispatched
  | enter => exact hold (by simpa [enter] using hdispatched)
  | @dispatch k send hsend hstage htop =>
    rcases List.mem_append.mp hdispatched with hdispatched | hdispatched
    · exact hold hdispatched
    · obtain ⟨rfl, rfl⟩ := Observation.dispatched.inj (List.mem_singleton.mp hdispatched)
      exact List.mem_map.mpr ⟨send, List.mem_of_getElem? hsend, rfl⟩
  | @dropGuard t k send ended hsend hended hlock =>
    rcases List.mem_append.mp hdispatched with hdispatched | hdispatched
    · exact hold hdispatched
    · cases hresult : ended.result <;> simp [hresult] at hdispatched
  | complete => exact hold (by simpa [observe, trace_complete] using hdispatched)
  | cancelAll => exact hold (by simpa [observe, cancelAll] using hdispatched)

theorem told_after {actions : List (Action Fl)} {d : Dispatcher Fl} (hrun : after actions = some d) :
    d.Told := by
  refine run_invariant (P := Told) (fun _ _ _ hstep h => h.step (moves_of_step hstep)) hrun ?_
  intro id command h
  cases h

end Dispatcher

/-! ## 3. The way of one call -/

/-- The engine has been called for the call. -/
def Stage.told : Stage → Bool
  | .allocated | .inserted => false
  | .dispatching | .awaiting | .resolved _ | .unwinding | .dropping | .returned _ | .panicked
  | .dropped => true

theorem Stage.over_of_result {stage : Stage} {outcome : CommandOutcome}
    (h : stage.result = some outcome) : stage.over := by
  cases stage <;> first | rfl | cases h

theorem Stage.told_of_ended {stage ended : Stage} (h : stage.ended = some ended) :
    stage.told ∧ stage.over = false ∧ ended.told := by
  cases stage <;> simp [Stage.ended] at h <;> subst h <;> exact ⟨rfl, rfl, rfl⟩

theorem SendFuture.told_poll {send : SendFuture Fl} (h : send.stage = .awaiting) :
    send.poll.stage.told := by
  unfold SendFuture.poll
  split
  · rfl
  · rfl
  · split
    · rfl
    · rw [h]
      rfl

namespace Dispatcher

/-- What a step can do to the stage of the call `k`: nothing; or take it one stage on, towards the
engine, to the engine by this very step, or from there to its end. -/
inductive Advances (k : Nat) : Action Fl → Option Stage → Option Stage → Prop where
  | same {a : Action Fl} {stage : Option Stage} (ha : ∀ j, a = .dispatch j → j ≠ k) :
      Advances k a stage stage
  | allocate {command : Command Fl} : Advances k (.allocate command) none (some .allocated)
  | enter {t : ThreadId} : Advances k (.enter t k) (some .allocated) (some .inserted)
  | dispatch : Advances k (.dispatch k) (some .inserted) (some .dispatching)
  | onwards {a : Action Fl} {stage stage' : Stage} (ha : ∀ j, a ≠ .dispatch j)
      (htold : stage.told) (hover : stage.over = false) (htold' : stage'.told) :
      Advances k a (some stage) (some stage')

theorem Advances.modifySend {d : Dispatcher Fl} {a : Action Fl} {j k : Nat}
    {send : SendFuture Fl} (hsend : d.sends[j]? = some send) {f : SendFuture Fl → SendFuture Fl}
    (hself : Advances j a (some send.stage) (some (f send).stage))
    (hother : ∀ i, a = .dispatch i → i = j) :
    Advances k a (d.stageOf k) ((d.modifySend j f).stageOf k) := by
  by_cases hjk : j = k
  · subst hjk
    rw [stageOf, stageOf, getElem?_modifySend_self hsend, hsend]
    exact hself
  · rw [stageOf_modifySend_ne d hjk]
    exact .same fun i hi => hother i hi ▸ hjk

/-- **What a step does to a call.** -/
theorem advances_of_moves {d d' : Dispatcher Fl} {a : Action Fl} (hm : Moves d a d') (k : Nat) :
    Advances k a (d.stageOf k) (d'.stageOf k) := by
  cases hm with
  | allocate command =>
    rcases lt_trichotomy k d.sends.length with hlt | rfl | hgt
    · have hk : (d.allocate command).stageOf k = d.stageOf k := by
        rw [stageOf, stageOf, allocate, List.getElem?_append_left hlt]
      rw [hk]
      exact .same (by simp)
    · rw [stageOf, stageOf, allocate, List.getElem?_eq_none le_rfl, List.getElem?_concat_length]
      exact .allocate
    · rw [stageOf, stageOf, allocate, List.getElem?_eq_none hgt.le,
        List.getElem?_eq_none (by simpa using hgt)]
      exact .same (by simp)
  | @enter t j send hsend hstage hlock =>
    obtain ⟨found, hfound, hkept⟩ :=
      exists_of_map (map_dropEntry (g := SendFuture.stage) (by intros; rfl) d send.id) hsend
    rw [← stageOf_dropEntry d send.id]
    refine Advances.modifySend (d := d.dropEntry send.id) hfound ?_ (by simp)
    rw [hkept, hstage]
    exact .enter
  | @dispatch j send hsend hstage htop =>
    refine Advances.modifySend hsend ?_ (by simp [eq_comm])
    rw [hstage]
    exact .dispatch
  | @dispatchReturns j send hsend hstage htop | @dispatchPanics j send hsend hstage htop =>
    refine .modifySend hsend (.onwards (by simp) ?_ ?_ rfl) (by simp) <;> rw [hstage] <;> rfl
  | @timerExpires j send hsend hstage =>
    exact .modifySend hsend (.same (by simp)) (by simp)
  | @poll j send hsend hstage =>
    refine .modifySend hsend (.onwards (by simp) ?_ ?_ (SendFuture.told_poll hstage)) (by simp) <;>
      rw [hstage] <;> rfl
  | @dropFuture j send hsend hstage =>
    refine .modifySend hsend (.onwards (by simp) ?_ ?_ rfl) (by simp) <;> rw [hstage] <;> rfl
  | @dropGuard t j send ended hsend hended hlock =>
    obtain ⟨found, hfound, hkept⟩ :=
      exists_of_map (map_dropEntry (g := SendFuture.stage) (by intros; rfl) d send.id) hsend
    obtain ⟨htold, hover, htold'⟩ := Stage.told_of_ended hended
    rw [← stageOf_dropEntry d send.id]
    refine Advances.modifySend (d := d.dropEntry send.id) hfound ?_ (by simp)
    rw [hkept]
    exact .onwards (by simp) htold hover htold'
  | @complete t id outcome hlock =>
    have hsame := stageOf_congr
      (map_complete (g := SendFuture.stage) (by intros; rfl) d id outcome) k
    rw [← hsame]
    exact .same (by simp)
  | @cancelAll t order hlock =>
    have hsame := stageOf_congr
      (map_cancelAll (g := SendFuture.stage) (by intros; rfl) order d) k
    rw [← hsame]
    exact .same (by simp)

theorem Advances.dispatched {k : Nat} {stage stage' : Option Stage}
    (h : Advances k (.dispatch k : Action Fl) stage stage') :
    stage = some .inserted ∧ stage' = some .dispatching := by
  cases h with
  | same ha => exact absurd rfl (ha k rfl)
  | dispatch => exact ⟨rfl, rfl⟩
  | onwards ha => exact absurd rfl (ha k)

/-- No other step takes a call to the engine, or back. -/
theorem Advances.told_eq {k : Nat} {a : Action Fl} {stage stage' : Option Stage}
    (h : Advances k a stage stage') (ha : a ≠ .dispatch k) :
    stage'.any Stage.told = stage.any Stage.told := by
  cases h with
  | same => rfl
  | allocate => rfl
  | enter => rfl
  | dispatch => exact absurd rfl ha
  | onwards _ htold _ htold' => rw [Option.any_some, Option.any_some, htold, htold']

/-- What a call that is over returned, it has returned. -/
theorem Advances.result {k : Nat} {a : Action Fl} {stage stage' : Option Stage}
    (h : Advances k a stage stage') {outcome : CommandOutcome}
    (hresult : stage.bind Stage.result = some outcome) :
    stage'.bind Stage.result = some outcome := by
  cases h with
  | same => exact hresult
  | allocate | enter | dispatch => cases hresult
  | onwards _ _ hover _ =>
    have hover' := Stage.over_of_result hresult
    rw [hover] at hover'
    cases hover'

/-- The command of the call `k`. -/
def commandOf (d : Dispatcher Fl) (k : Nat) : Option (Command Fl) :=
  d.sends[k]?.map SendFuture.command

/-- A call keeps its command. -/
theorem commandOf_of_moves {d d' : Dispatcher Fl} {a : Action Fl} (hm : Moves d a d') {k : Nat}
    {command : Command Fl} (h : d.commandOf k = some command) : d'.commandOf k = some command := by
  obtain ⟨send, hsend, rfl⟩ := Option.map_eq_some_iff.mp h
  obtain ⟨send', hsend', hrequest⟩ := exists_of_requests (requests_of_moves hm) hsend
  rw [commandOf, hsend', Option.map_some]
  exact congrArg (some ∘ Prod.snd) hrequest

theorem exists_commandOf {d : Dispatcher Fl} {k : Nat} {stage : Stage}
    (h : d.stageOf k = some stage) : ∃ command, d.commandOf k = some command := by
  obtain ⟨send, hsend, -⟩ := Option.map_eq_some_iff.mp h
  exact ⟨send.command, by rw [commandOf, hsend, Option.map_some]⟩

/-- What the engine was handed for the call `k`: its command, once it was called. -/
def toldOf (d : Dispatcher Fl) (k : Nat) : List (Command Fl) :=
  if (d.stageOf k).any Stage.told then (d.commandOf k).toList else []

theorem toldOf_cases {d : Dispatcher Fl} {k : Nat} {command : Command Fl}
    (hcommand : d.commandOf k = some command) : d.toldOf k = [] ∨ d.toldOf k = [command] := by
  rw [toldOf, hcommand]
  split
  · exact Or.inr rfl
  · exact Or.inl rfl

theorem toldOf_of_stage {d : Dispatcher Fl} {k : Nat} {command : Command Fl} {stage : Stage}
    (hcommand : d.commandOf k = some command) (hstage : d.stageOf k = some stage)
    (htold : stage.told) : d.toldOf k = [command] := by
  rw [toldOf, hstage, Option.any_some, if_pos htold, hcommand]
  rfl

theorem toldOf_of_returned {d : Dispatcher Fl} {k : Nat} {command : Command Fl}
    {outcome : CommandOutcome} (hcommand : d.commandOf k = some command)
    (hreturned : (d.stageOf k).bind Stage.result = some outcome) : d.toldOf k = [command] := by
  obtain ⟨stage, hstage, hresult⟩ := Option.bind_eq_some_iff.mp hreturned
  exact toldOf_of_stage hcommand hstage (by cases stage <;> first | rfl | cases hresult)

end Dispatcher

end MinervaServer
