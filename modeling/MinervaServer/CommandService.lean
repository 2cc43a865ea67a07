/-
# The command service

`src/services/command.rs`: `CommandServiceImpl::send_command`.  A call checks its request and looks
its group up in the cache; then it answers, or it sends the command and answers with the outcome.

The checks, the lookup and the way of the command to the engine happen in one poll of the call, but
other threads go on meanwhile: the cache may change after the lookup, and the dispatcher before and
after.  So the service is a system of three parts, the cache, the dispatcher and the calls; a call
takes its steps one by one, between any writes and any steps of the dispatcher; and what belongs to
a call at the dispatcher is the `send` that it started.

`handed` records what the engine was handed, and for which `send`.  A call hands over nothing
unless its request is well formed and its group was cached when it looked, and then the one command
that is written as its request, once (`send_command_exact`).
-/
import MinervaServer.Requests
import MinervaServer.Reentrancy

namespace MinervaServer

open Lib

variable {Fl : Floats}

/-! ## 1. The code of a call -/

/-- `send_command` before it sends: it answers, or goes on with the command. -/
def accept (cache : StateCache Fl) (request : Proto.SendCommandRequest Fl) :
    Except (Except Status Proto.SendCommandResponse) (Command Fl) :=
  match Command.fromProto request with
  | .error status => .error (.error status)
  | .ok command =>
    if (cache.getGroup command.groupId).isNone then
      .error (.ok {
        result := Proto.CommandResult.failure.toI32
        reason := "unknown group " ++ command.groupId.str })
    else .ok command

/-- `send_command` after it has sent. -/
def respond (outcome : CommandOutcome) : Proto.SendCommandResponse :=
  let (result, reason) : Proto.CommandResult × String :=
    match outcome with
    | .success => (.success, "")
    | .failure reason => (.failure, reason)
  { result := result.toI32, reason }

theorem respond_eq_success {outcome : CommandOutcome} :
    respond outcome = { result := Proto.CommandResult.success.toI32, reason := "" } ↔
      outcome = .success := by
  cases outcome with
  | success => simp [respond]
  | failure reason => simp [respond, Proto.CommandResult.toI32]

/-- The phases of a call: it came; it found its group; it awaits its `send`, which is the call `k`
of the dispatcher; and it has answered, with a `send` or without. -/
inductive CallPhase (Fl : Floats) where
  | received
  | admitted (command : Command Fl)
  | sending (k : Nat)
  | answered (send : Option Nat) (response : Except Status Proto.SendCommandResponse)

/-- The call was admitted. -/
def CallPhase.goes : CallPhase Fl → Bool
  | .received | .answered none _ => false
  | .admitted _ | .sending _ | .answered (some _) _ => true

/-- A call of `send_command`. -/
structure CommandCall (Fl : Floats) where
  request : Proto.SendCommandRequest Fl
  phase : CallPhase Fl := .received

namespace CommandCall

/-- The `send` that it started. -/
def send (call : CommandCall Fl) : Option Nat :=
  match call.phase with
  | .received | .admitted _ => none
  | .sending k => some k
  | .answered k _ => k

/-- What it answered. -/
def response (call : CommandCall Fl) : Option (Except Status Proto.SendCommandResponse) :=
  match call.phase with
  | .answered _ response => some response
  | _ => none

end CommandCall

/-! ## 2. The system -/

structure CommandService (Fl : Floats) where
  cache : StateCache Fl := .new
  dispatcher : Dispatcher Fl := {}
  calls : List (CommandCall Fl) := []
  /-- What the engine was handed, each with the `send` it was for. -/
  handed : List (Nat × Command Fl) := []

namespace CommandService

inductive Action (Fl : Floats) where
  | write (w : Write Fl)
  /-- A step of the dispatcher: of the `send` of a call, or of anybody. -/
  | dispatcher (a : Dispatcher.Action Fl)
  /-- A request comes. -/
  | request (request : Proto.SendCommandRequest Fl)
  /-- The call `i` checks its request and looks its group up. -/
  | lookup (i : Nat)
  /-- The call `i` starts its `send`. -/
  | send (i : Nat)
  /-- The `send` of the call `i` has returned, and the call answers. -/
  | answer (i : Nat)

def setPhase (s : CommandService Fl) (i : Nat) (phase : CallPhase Fl) : CommandService Fl :=
  { s with calls := s.calls.modify i fun call => { call with phase } }

/-- What the engine is handed in a step of the dispatcher. -/
def handedBy (d : Dispatcher Fl) : Dispatcher.Action Fl → List (Nat × Command Fl)
  | .dispatch k => (d.sends[k]?.map fun send => (k, send.command)).toList
  | _ => []

def step (s : CommandService Fl) : Action Fl → Option (CommandService Fl)
  | .write w => some { s with cache := s.cache.write w }
  | .dispatcher a =>
    (s.dispatcher.step a).map fun dispatcher =>
      { s with dispatcher, handed := s.handed ++ handedBy s.dispatcher a }
  | .request request => some { s with calls := s.calls ++ [{ request }] }
  | .lookup i =>
    s.calls[i]?.bind fun call =>
      match call.phase with
      | .received =>
        match accept s.cache call.request with
        | .ok command => some (s.setPhase i (.admitted command))
        | .error response => some (s.setPhase i (.answered none response))
      | _ => none
  | .send i =>
    s.calls[i]?.bind fun call =>
      match call.phase with
      | .admitted command =>
        some { s.setPhase i (.sending s.dispatcher.sends.length) with
          dispatcher := s.dispatcher.allocate command }
      | _ => none
  | .answer i =>
    s.calls[i]?.bind fun call =>
      match call.phase with
      | .sending k =>
        ((s.dispatcher.stageOf k).bind Stage.result).map fun outcome =>
          s.setPhase i (.answered (some k) (.ok (respond outcome)))
      | _ => none

abbrev after (actions : List (Action Fl)) : Option (CommandService Fl) := run step {} actions

/-- What the engine was handed for the `send` `k`. -/
def handedFor (s : CommandService Fl) (k : Nat) : List (Command Fl) :=
  (s.handed.filter (·.1 = k)).map Prod.snd

/-- The `send` of the call `i`. -/
def sendOf (s : CommandService Fl) (i : Nat) : Option Nat := s.calls[i]?.bind CommandCall.send

/-- What the call `i` handed to the engine. -/
def handedTo (s : CommandService Fl) (i : Nat) : List (Command Fl) :=
  (s.sendOf i).toList.flatMap s.handedFor

/-- What the call `i` answered. -/
def responseOf (s : CommandService Fl) (i : Nat) :
    Option (Except Status Proto.SendCommandResponse) := s.calls[i]?.bind CommandCall.response

/-- The outcome that the `send` of the call `i` returned. -/
def outcomeOf (s : CommandService Fl) (i : Nat) : Option CommandOutcome :=
  (s.sendOf i).bind fun k => (s.dispatcher.stageOf k).bind Stage.result

end CommandService

/-! ## 3. What the engine is handed -/

/-- The command that the engine is handed. -/
def Observation.command : Observation Fl → Option (Command Fl)
  | .dispatched _ command => some command
  | _ => none

namespace Dispatcher

theorem Opens.toldOf {t : ThreadId} {k : Nat} {request : CommandId × Command Fl}
    {d d' : Dispatcher Fl} (h : Opens t k request d d') : d'.toldOf k = [request.2] := by
  obtain ⟨send, hsend, rfl, -⟩ := h.sent
  exact toldOf_of_stage (by rw [commandOf, hsend, Option.map_some]; rfl) h.stageOf rfl

end Dispatcher

namespace CommandService

theorem handedBy_other {d : Dispatcher Fl} {a : Dispatcher.Action Fl} {k : Nat}
    (ha : a ≠ .dispatch k) : (handedBy d a).filter (·.1 = k) = [] := by
  cases a with
  | dispatch j =>
    have hne : j ≠ k := fun h => ha (h ▸ rfl)
    cases hsend : d.sends[j]? <;> simp [handedBy, hsend, hne]
  | _ => rfl

/-- What the engine saw of a step is what it was handed. -/
theorem dispatches_of_moves {d d' : Dispatcher Fl} {a : Dispatcher.Action Fl}
    (hm : Dispatcher.Moves d a d') : d'.trace.filterMap Observation.command =
      d.trace.filterMap Observation.command ++ (handedBy d a).map Prod.snd := by
  cases hm with
  | @dispatch k send hsend hstage htop =>
    simp [Dispatcher.dispatch, handedBy, hsend, Observation.command]
  | @dropGuard t k send ended hsend hended hlock =>
    cases hresult : ended.result <;>
      simp [Dispatcher.cleanUp, handedBy, hresult, Observation.command]
  | enter => simp [Dispatcher.enter, handedBy, Observation.command]
  | complete =>
    simp [Dispatcher.observe, Dispatcher.trace_complete, handedBy, Observation.command]
  | cancelAll => simp [Dispatcher.observe, Dispatcher.cancelAll, handedBy, Observation.command]
  | _ => exact (List.append_nil _).symm

/-- The engine is handed the command of a call in the step in which it is called for it. -/
theorem toldOf_of_moves {d d' : Dispatcher Fl} {a : Dispatcher.Action Fl}
    (hm : Dispatcher.Moves d a d') (k : Nat) :
    d'.toldOf k = d.toldOf k ++ ((handedBy d a).filter (·.1 = k)).map Prod.snd := by
  have hadvances := Dispatcher.advances_of_moves hm k
  by_cases ha : a = .dispatch k
  · subst ha
    obtain ⟨hbefore, hafter⟩ := hadvances.dispatched
    obtain ⟨command, hcommand⟩ := Dispatcher.exists_commandOf hbefore
    have hby : handedBy d (.dispatch k) = [(k, command)] := by
      obtain ⟨send, hsend, rfl⟩ := Option.map_eq_some_iff.mp hcommand
      rw [handedBy, hsend]
      rfl
    rw [Dispatcher.toldOf, Dispatcher.toldOf, hbefore, hafter,
      Dispatcher.commandOf_of_moves hm hcommand, hby]
    simp [Stage.told]
  · rw [handedBy_other ha, List.map_nil, List.append_nil, Dispatcher.toldOf, Dispatcher.toldOf,
      hadvances.told_eq ha]
    split
    · next htold =>
      obtain ⟨stage, hstage, -⟩ := (Option.any_eq_true _ _).mp htold
      obtain ⟨command, hcommand⟩ := Dispatcher.exists_commandOf hstage
      rw [hcommand, Dispatcher.commandOf_of_moves hm hcommand]
    · rfl

/-! ## 4. Steps -/

/-- What a step can do, each with what it takes. -/
inductive Moves (s : CommandService Fl) : Action Fl → CommandService Fl → Prop where
  | write (w : Write Fl) : Moves s (.write w) { s with cache := s.cache.write w }
  | dispatcher {a : Dispatcher.Action Fl} {d : Dispatcher Fl}
      (hm : Dispatcher.Moves s.dispatcher a d) : Moves s (.dispatcher a)
        { s with dispatcher := d, handed := s.handed ++ handedBy s.dispatcher a }
  | request (request : Proto.SendCommandRequest Fl) :
      Moves s (.request request) { s with calls := s.calls ++ [{ request }] }
  | admitted {i : Nat} {call : CommandCall Fl} {command : Command Fl}
      (hcall : s.calls[i]? = some call) (hphase : call.phase = .received)
      (haccept : accept s.cache call.request = .ok command) :
      Moves s (.lookup i) (s.setPhase i (.admitted command))
  | refused {i : Nat} {call : CommandCall Fl} {response : Except Status Proto.SendCommandResponse}
      (hcall : s.calls[i]? = some call) (hphase : call.phase = .received)
      (haccept : accept s.cache call.request = .error response) :
      Moves s (.lookup i) (s.setPhase i (.answered none response))
  | send {i : Nat} {call : CommandCall Fl} {command : Command Fl}
      (hcall : s.calls[i]? = some call) (hphase : call.phase = .admitted command) :
      Moves s (.send i) { s.setPhase i (.sending s.dispatcher.sends.length) with
        dispatcher := s.dispatcher.allocate command }
  | answer {i k : Nat} {call : CommandCall Fl} {outcome : CommandOutcome}
      (hcall : s.calls[i]? = some call) (hphase : call.phase = .sending k)
      (hreturned : (s.dispatcher.stageOf k).bind Stage.result = some outcome) :
      Moves s (.answer i) (s.setPhase i (.answered (some k) (.ok (respond outcome))))

theorem moves_of_step {s s' : CommandService Fl} {a : Action Fl} (h : step s a = some s') :
    Moves s a s' := by
  cases a with
  | write w =>
    obtain rfl := Option.some.inj h
    exact .write w
  | request request =>
    obtain rfl := Option.some.inj h
    exact .request request
  | dispatcher a =>
    obtain ⟨d, hd, rfl⟩ := Option.map_eq_some_iff.mp h
    exact .dispatcher (Dispatcher.moves_of_step hd)
  | lookup i =>
    obtain ⟨call, hcall, h⟩ := Option.bind_eq_some_iff.mp h
    cases hphase : call.phase with
    | received =>
      simp only [hphase] at h
      cases haccept : accept s.cache call.request with
      | ok command =>
        simp only [haccept, Option.some.injEq] at h
        exact h ▸ .admitted hcall hphase haccept
      | error response =>
        simp only [haccept, Option.some.injEq] at h
        exact h ▸ .refused hcall hphase haccept
    | _ => simp [hphase] at h
  | send i =>
    obtain ⟨call, hcall, h⟩ := Option.bind_eq_some_iff.mp h
    cases hphase : call.phase with
    | admitted command =>
      simp only [hphase, Option.some.injEq] at h
      exact h ▸ .send hcall hphase
    | _ => simp [hphase] at h
  | answer i =>
    obtain ⟨call, hcall, h⟩ := Option.bind_eq_some_iff.mp h
    cases hphase : call.phase with
    | sending k =>
      simp only [hphase] at h
      obtain ⟨outcome, hreturned, rfl⟩ := Option.map_eq_some_iff.mp h
      exact .answer hcall hphase hreturned
    | _ => simp [hphase] at h

/-- The calls of the dispatcher go on. -/
structure Continues (d d' : Dispatcher Fl) : Prop where
  command : ∀ {k command}, d.commandOf k = some command → d'.commandOf k = some command
  returned : ∀ {k outcome}, (d.stageOf k).bind Stage.result = some outcome →
    (d'.stageOf k).bind Stage.result = some outcome

theorem continues_of_dispatcher {d d' : Dispatcher Fl} {a : Dispatcher.Action Fl}
    (hm : Dispatcher.Moves d a d') : Continues d d' where
  command h := Dispatcher.commandOf_of_moves hm h
  returned h := (Dispatcher.advances_of_moves hm _).result h

theorem Moves.continues {s s' : CommandService Fl} {a : Action Fl} (hm : Moves s a s') :
    Continues s.dispatcher s'.dispatcher := by
  cases hm with
  | dispatcher hm => exact continues_of_dispatcher hm
  | send => exact continues_of_dispatcher (.allocate _)
  | _ => exact ⟨id, id⟩

end CommandService

/-! ## 5. The invariant -/

/-- What a call asked for, and what it knows of its `send`, is so at the dispatcher. -/
def CommandCall.Sound (d : Dispatcher Fl) (call : CommandCall Fl) : Prop :=
  match call.phase with
  | .received | .answered none _ => True
  | .admitted command => Command.fromProto call.request = .ok command
  | .sending k => ∃ command, d.commandOf k = some command ∧
      Command.fromProto call.request = .ok command
  | .answered (some k) response => ∃ command outcome, d.commandOf k = some command ∧
      Command.fromProto call.request = .ok command ∧
      (d.stageOf k).bind Stage.result = some outcome ∧ response = .ok (respond outcome)

theorem CommandCall.Sound.mono {d d' : Dispatcher Fl} {call : CommandCall Fl} (h : call.Sound d)
    (hc : CommandService.Continues d d') : call.Sound d' := by
  unfold CommandCall.Sound at h ⊢
  split at h
  · exact h
  · exact h
  · exact h
  · obtain ⟨command, hcommand, hproto⟩ := h
    exact ⟨command, hc.command hcommand, hproto⟩
  · obtain ⟨command, outcome, hcommand, hproto, hreturned, hresponse⟩ := h
    exact ⟨command, outcome, hc.command hcommand, hproto, hc.returned hreturned, hresponse⟩

theorem CommandCall.Sound.commandOf {d : Dispatcher Fl} {call : CommandCall Fl} (h : call.Sound d)
    {k : Nat} (hk : call.send = some k) : ∃ command, d.commandOf k = some command ∧
      Command.fromProto call.request = .ok command := by
  unfold CommandCall.Sound at h
  unfold CommandCall.send at hk
  split at h
  · next hphase =>
    rw [hphase] at hk
    cases hk
  · next hphase =>
    rw [hphase] at hk
    cases hk
  · next hphase =>
    rw [hphase] at hk
    cases hk
  · next hphase =>
    rw [hphase] at hk
    obtain rfl := Option.some.inj hk
    exact h
  · next hphase =>
    rw [hphase] at hk
    obtain rfl := Option.some.inj hk
    obtain ⟨command, -, hcommand, hproto, -⟩ := h
    exact ⟨command, hcommand, hproto⟩

theorem proto_of_accept {cache : StateCache Fl} {request : Proto.SendCommandRequest Fl}
    {command : Command Fl} (h : accept cache request = .ok command) :
    Command.fromProto request = .ok command := by
  unfold accept at h
  split at h
  · cases h
  · next found hfound =>
    split at h
    · cases h
    · rw [hfound, Except.ok.inj h]

namespace CommandService

/-- What holds of the service at any time: its calls fit with the dispatcher; what the engine was
handed for a `send` is the command of it, if that has got there; no two calls have one `send`; and
`handed` is what the engine saw. -/
structure Inv (s : CommandService Fl) : Prop where
  sound : ∀ (i : Nat) (call : CommandCall Fl), s.calls[i]? = some call → call.Sound s.dispatcher
  handed : ∀ k, s.handedFor k = s.dispatcher.toldOf k
  own : ∀ i j k, s.sendOf i = some k → s.sendOf j = some k → i = j
  seen : s.handed.map Prod.snd = s.dispatcher.trace.filterMap Observation.command

theorem getElem?_setPhase (s : CommandService Fl) (i j : Nat) (phase : CallPhase Fl) :
    (s.setPhase i phase).calls[j]? =
      s.calls[j]?.map fun call => if i = j then { call with phase } else call := by
  rw [setPhase, List.getElem?_modify]
  split <;> simp

theorem inv_new : Inv ({} : CommandService Fl) where
  sound i call h := by simp at h
  handed k := by simp [handedFor, Dispatcher.toldOf, Dispatcher.stageOf]
  own i j k h := by simp [sendOf] at h
  seen := rfl

/-- A call goes on to a phase that fits. -/
theorem sound_setPhase {s : CommandService Fl} {d : Dispatcher Fl}
    (h : ∀ (j : Nat) (call : CommandCall Fl), s.calls[j]? = some call → call.Sound d) {i : Nat}
    {call : CommandCall Fl} (hcall : s.calls[i]? = some call) {phase : CallPhase Fl}
    (hnew : ({ call with phase } : CommandCall Fl).Sound d) :
    ∀ (j : Nat) (call' : CommandCall Fl), (s.setPhase i phase).calls[j]? = some call' →
      call'.Sound d := by
  intro j call' hcall'
  rw [getElem?_setPhase, Option.map_eq_some_iff] at hcall'
  obtain ⟨old, hold, rfl⟩ := hcall'
  split
  · next hij =>
    subst hij
    rw [hcall, Option.some.injEq] at hold
    exact hold ▸ hnew
  · exact h j old hold

theorem sendOf_setPhase {s : CommandService Fl} {i : Nat} {call : CommandCall Fl}
    (hcall : s.calls[i]? = some call) (phase : CallPhase Fl) (j : Nat) :
    (s.setPhase i phase).sendOf j =
      if i = j then ({ call with phase } : CommandCall Fl).send else s.sendOf j := by
  rw [sendOf, getElem?_setPhase, sendOf]
  split
  · next hij =>
    subst hij
    rw [hcall]
    rfl
  · rw [Option.map_id']

/-- A phase without a `send`, or with the one that was there. -/
theorem sendOf_setPhase_same {s : CommandService Fl} {i : Nat} {call : CommandCall Fl}
    (hcall : s.calls[i]? = some call) (phase : CallPhase Fl)
    (h : ({ call with phase } : CommandCall Fl).send = call.send) (j : Nat) :
    (s.setPhase i phase).sendOf j = s.sendOf j := by
  rw [sendOf_setPhase hcall, h]
  split
  · next hij => rw [← hij, sendOf, hcall, Option.bind_some]
  · rfl

theorem handedFor_append (s : CommandService Fl) (more : List (Nat × Command Fl)) (k : Nat) :
    ({ s with handed := s.handed ++ more } : CommandService Fl).handedFor k =
      s.handedFor k ++ (more.filter (·.1 = k)).map Prod.snd := by
  simp [handedFor]

/-- The new call of the dispatcher is nobody's yet. -/
theorem Inv.sendOf_lt {s : CommandService Fl} (h : Inv s) {i k : Nat} (hk : s.sendOf i = some k) :
    k < s.dispatcher.sends.length := by
  obtain ⟨call, hcall, hsend⟩ := Option.bind_eq_some_iff.mp hk
  obtain ⟨command, hcommand, -⟩ := (h.sound i call hcall).commandOf hsend
  obtain ⟨send, hsend, -⟩ := Option.map_eq_some_iff.mp hcommand
  exact (List.getElem?_eq_some_iff.mp hsend).1

/-- A call that has just come has not done anything. -/
theorem calls_request {calls : List (CommandCall Fl)} {request : Proto.SendCommandRequest Fl}
    {i : Nat} {call : CommandCall Fl} (h : (calls ++ [{ request := request }])[i]? = some call) :
    calls[i]? = some call ∨ call.phase = .received := by
  rcases lt_or_ge i calls.length with hlt | hge
  · exact Or.inl (by rwa [List.getElem?_append_left hlt] at h)
  · rw [List.getElem?_append_right hge] at h
    obtain rfl := List.mem_singleton.mp (List.mem_of_getElem? h)
    exact Or.inr rfl

theorem sendOf_request {s : CommandService Fl} {request : Proto.SendCommandRequest Fl} {i k : Nat}
    (h : ({ s with calls := s.calls ++ [{ request := request }] } : CommandService Fl).sendOf i =
      some k) : s.sendOf i = some k := by
  obtain ⟨call, hcall, hk⟩ := Option.bind_eq_some_iff.mp h
  rcases calls_request hcall with hcall | hphase
  · rw [sendOf, hcall, Option.bind_some, hk]
  · rw [CommandCall.send, hphase] at hk
    cases hk

/-- The `send` that a call starts is its own. -/
theorem Inv.own_sending {s : CommandService Fl} (h : Inv s) {i : Nat} {call : CommandCall Fl}
    (hcall : s.calls[i]? = some call) (j j' k : Nat)
    (hj : (s.setPhase i (.sending s.dispatcher.sends.length)).sendOf j = some k)
    (hj' : (s.setPhase i (.sending s.dispatcher.sends.length)).sendOf j' = some k) : j = j' := by
  rw [sendOf_setPhase hcall] at hj hj'
  split at hj <;> split at hj'
  · next hij hij' => rw [← hij, ← hij']
  · next hij hij' =>
    obtain rfl := Option.some.inj hj
    exact absurd (h.sendOf_lt hj') (lt_irrefl _)
  · next hij hij' =>
    obtain rfl := Option.some.inj hj'
    exact absurd (h.sendOf_lt hj) (lt_irrefl _)
  · exact h.own j j' k hj hj'

theorem Inv.step {s s' : CommandService Fl} {a : Action Fl} (h : Inv s) (hm : Moves s a s') :
    Inv s' := by
  have hsound : ∀ (i : Nat) (call : CommandCall Fl), s.calls[i]? = some call →
    call.Sound s'.dispatcher := fun i call hcall => (h.sound i call hcall).mono hm.continues
  cases hm with
  | write w => exact ⟨h.sound, h.handed, h.own, h.seen⟩
  | @dispatcher a d hm =>
    refine ⟨hsound, fun k => ?_, h.own, ?_⟩
    · rw [toldOf_of_moves hm, ← h.handed k]
      exact handedFor_append _ _ _
    · rw [dispatches_of_moves hm, ← h.seen, List.map_append]
  | request request =>
    refine ⟨fun i call hcall => ?_, h.handed,
      fun i j k hi hj => h.own i j k (sendOf_request hi) (sendOf_request hj), h.seen⟩
    rcases calls_request hcall with hcall | hphase
    · exact h.sound i call hcall
    · rw [CommandCall.Sound, hphase]
      trivial
  | @admitted i call command hcall hphase haccept =>
    have hsame := sendOf_setPhase_same hcall (.admitted command)
      (by simp [CommandCall.send, hphase])
    refine ⟨sound_setPhase h.sound hcall (proto_of_accept haccept), h.handed, ?_, h.seen⟩
    exact fun i j k hi hj => h.own i j k (hsame i ▸ hi) (hsame j ▸ hj)
  | @refused i call response hcall hphase haccept =>
    have hsame := sendOf_setPhase_same hcall (.answered none response)
      (by simp [CommandCall.send, hphase])
    refine ⟨sound_setPhase h.sound hcall trivial, h.handed, ?_, h.seen⟩
    exact fun i j k hi hj => h.own i j k (hsame i ▸ hi) (hsame j ▸ hj)
  | @send i call command hcall hphase =>
    have hold := h.sound i call hcall
    rw [CommandCall.Sound, hphase] at hold
    have hcommand : (s.dispatcher.allocate command).commandOf s.dispatcher.sends.length =
        some command := by
      rw [Dispatcher.commandOf, Dispatcher.sends_allocate, Option.map_some]
    refine ⟨sound_setPhase hsound hcall ⟨command, hcommand, hold⟩, fun k => ?_,
      h.own_sending hcall, h.seen⟩
    rw [toldOf_of_moves (.allocate command), ← h.handed k]
    exact (List.append_nil _).symm
  | @answer i k call outcome hcall hphase hreturned =>
    have hold := h.sound i call hcall
    rw [CommandCall.Sound, hphase] at hold
    obtain ⟨command, hcommand, hproto⟩ := hold
    have hsame := sendOf_setPhase_same hcall (.answered (some k) (.ok (respond outcome)))
      (by simp [CommandCall.send, hphase])
    refine ⟨sound_setPhase h.sound hcall ⟨command, outcome, hcommand, hproto, hreturned, rfl⟩,
      h.handed, ?_, h.seen⟩
    exact fun i j k hi hj => h.own i j k (hsame i ▸ hi) (hsame j ▸ hj)

theorem inv_after {actions : List (Action Fl)} {s : CommandService Fl}
    (hrun : after actions = some s) : Inv s :=
  run_invariant (P := Inv) (fun _ _ _ hstep h => h.step (moves_of_step hstep)) hrun inv_new

/-! ## 6. The way of one call -/

/-- The phases of a call follow each other. -/
inductive Follows : CallPhase Fl → CallPhase Fl → Prop where
  | same {phase : CallPhase Fl} : Follows phase phase
  | admitted {command : Command Fl} : Follows .received (.admitted command)
  | refused {response : Except Status Proto.SendCommandResponse} :
      Follows .received (.answered none response)
  | send {command : Command Fl} {k : Nat} : Follows (.admitted command) (.sending k)
  | answer {k : Nat} {response : Except Status Proto.SendCommandResponse} :
      Follows (.sending k) (.answered (some k) response)

/-- An answer is the last that a call does. -/
theorem Follows.of_answered {k : Option Nat} {response : Except Status Proto.SendCommandResponse}
    {phase : CallPhase Fl} (h : Follows (.answered k response) phase) :
    phase = .answered k response := by
  cases h
  rfl

theorem Follows.goes {phase phase' : CallPhase Fl} (h : Follows phase phase')
    (hgoes : phase.goes) : phase'.goes := by
  cases h with
  | same => exact hgoes
  | admitted | send | answer => rfl
  | refused => cases hgoes

theorem follows_setPhase {s : CommandService Fl} {i j : Nat} {call call' : CommandCall Fl}
    (hi : s.calls[i]? = some call) (hj : s.calls[j]? = some call') {phase : CallPhase Fl}
    (h : Follows call.phase phase) : ∃ next, (s.setPhase i phase).calls[j]? = some next ∧
      next.request = call'.request ∧ Follows call'.phase next.phase := by
  rw [getElem?_setPhase, hj, Option.map_some]
  refine ⟨_, rfl, ?_⟩
  split
  · next hij =>
    subst hij
    rw [hi, Option.some.injEq] at hj
    exact ⟨rfl, hj ▸ h⟩
  · exact ⟨rfl, .same⟩

theorem follows_of_moves {s s' : CommandService Fl} {a : Action Fl} (hm : Moves s a s') {j : Nat}
    {call : CommandCall Fl} (hj : s.calls[j]? = some call) : ∃ next, s'.calls[j]? = some next ∧
      next.request = call.request ∧ Follows call.phase next.phase := by
  cases hm with
  | write | dispatcher => exact ⟨call, hj, rfl, .same⟩
  | request request =>
    have hlt := (List.getElem?_eq_some_iff.mp hj).1
    exact ⟨call, by rwa [List.getElem?_append_left hlt], rfl, .same⟩
  | admitted hcall hphase => exact follows_setPhase hcall hj (hphase ▸ .admitted)
  | refused hcall hphase => exact follows_setPhase hcall hj (hphase ▸ .refused)
  | send hcall hphase => exact follows_setPhase hcall hj (hphase ▸ .send)
  | answer hcall hphase => exact follows_setPhase hcall hj (hphase ▸ .answer)

/-- The call has been refused, with this answer. -/
def Refused (i : Nat) (response : Except Status Proto.SendCommandResponse)
    (s : CommandService Fl) : Prop :=
  ∃ call, s.calls[i]? = some call ∧ call.phase = .answered none response

theorem refused_of_run {s s' : CommandService Fl} {actions : List (Action Fl)} {i : Nat}
    {response : Except Status Proto.SendCommandResponse} (hrun : run step s actions = some s')
    (h : Refused i response s) : Refused i response s' := by
  refine run_invariant (P := Refused i response) (fun s a s' hstep h => ?_) hrun h
  obtain ⟨call, hcall, hphase⟩ := h
  obtain ⟨next, hnext, -, hfollows⟩ := follows_of_moves (moves_of_step hstep) hcall
  exact ⟨next, hnext, (hphase ▸ hfollows).of_answered⟩

/-- The call for this request has been admitted. -/
def Admitted (i : Nat) (request : Proto.SendCommandRequest Fl) (s : CommandService Fl) : Prop :=
  ∃ call, s.calls[i]? = some call ∧ call.request = request ∧ call.phase.goes

theorem admitted_of_run {s s' : CommandService Fl} {actions : List (Action Fl)} {i : Nat}
    {request : Proto.SendCommandRequest Fl} (hrun : run step s actions = some s')
    (h : Admitted i request s) : Admitted i request s' := by
  refine run_invariant (P := Admitted i request) (fun s a s' hstep h => ?_) hrun h
  obtain ⟨call, hcall, hrequest, hgoes⟩ := h
  obtain ⟨next, hnext, hsame, hfollows⟩ := follows_of_moves (moves_of_step hstep) hcall
  exact ⟨next, hnext, hsame.trans hrequest, hfollows.goes hgoes⟩

theorem handedTo_of_call {s : CommandService Fl} (h : Inv s) {i : Nat} {call : CommandCall Fl}
    (hcall : s.calls[i]? = some call) :
    s.handedTo i = call.send.toList.flatMap s.dispatcher.toldOf := by
  rw [handedTo, sendOf, hcall, Option.bind_some]
  exact List.flatMap_congr fun k _ => h.handed k

/-- **What an admitted call has done.**  It hands over its command or has not yet, and it has when
it answers. -/
theorem Inv.admitted {s : CommandService Fl} (h : Inv s) {i : Nat}
    {request : Proto.SendCommandRequest Fl} {command : Command Fl}
    (hproto : Command.fromProto request = .ok command) (hadmitted : Admitted i request s) :
    (s.handedTo i = [] ∨ s.handedTo i = [command]) ∧
    ∀ response, s.responseOf i = some response → s.handedTo i = [command] ∧
      ∃ outcome, s.outcomeOf i = some outcome ∧ response = .ok (respond outcome) := by
  obtain ⟨call, hcall, rfl, hgoes⟩ := hadmitted
  have hsound := h.sound i call hcall
  rw [handedTo_of_call h hcall, responseOf, outcomeOf, sendOf, hcall, Option.bind_some,
    Option.bind_some]
  cases hphase : call.phase with
  | received => rw [hphase] at hgoes; cases hgoes
  | admitted found => simp [CommandCall.send, CommandCall.response, hphase]
  | sending k =>
    have hsend : call.send = some k := by rw [CommandCall.send, hphase]
    have hnone : call.response = none := by rw [CommandCall.response, hphase]
    obtain ⟨found, hfound, hsame⟩ := hsound.commandOf hsend
    obtain rfl := Except.ok.inj (hsame.symm.trans hproto)
    rw [hsend, hnone]
    simpa using Dispatcher.toldOf_cases hfound
  | answered k response =>
    cases k with
    | none => rw [hphase] at hgoes; cases hgoes
    | some k =>
      have hsend : call.send = some k := by rw [CommandCall.send, hphase]
      have hsome : call.response = some response := by rw [CommandCall.response, hphase]
      rw [CommandCall.Sound, hphase] at hsound
      obtain ⟨found, outcome, hfound, hsame, hreturned, hresponse⟩ := hsound
      obtain rfl := Except.ok.inj (hsame.symm.trans hproto)
      have htold : (some k).toList.flatMap s.dispatcher.toldOf = [found] := by
        simp [Dispatcher.toldOf_of_returned hfound hreturned]
      rw [hsend, hsome, htold]
      refine ⟨Or.inr rfl, fun answer hanswer => ⟨rfl, outcome, hreturned, ?_⟩⟩
      rw [← Option.some.inj hanswer, hresponse]

theorem lookup_eq {s : CommandService Fl} {i : Nat} {call : CommandCall Fl}
    (hcall : s.calls[i]? = some call) (hphase : call.phase = .received) :
    step s (.lookup i) = some (s.setPhase i (match accept s.cache call.request with
      | .ok command => .admitted command
      | .error response => .answered none response)) := by
  rw [step, hcall, Option.bind_some]
  simp only [hphase]
  cases accept s.cache call.request <;> rfl

theorem phase_setPhase {s : CommandService Fl} {i : Nat} {call : CommandCall Fl}
    (hcall : s.calls[i]? = some call) (phase : CallPhase Fl) :
    (s.setPhase i phase).calls[i]? = some { call with phase } := by
  rw [getElem?_setPhase, hcall, Option.map_some, if_pos rfl]

/-- A run of the dispatcher is one of the service. -/
theorem run_dispatcher {s : CommandService Fl} {actions : List (Dispatcher.Action Fl)}
    {d : Dispatcher Fl} (h : run Dispatcher.step s.dispatcher actions = some d) :
    ∃ handed, run step s (actions.map .dispatcher) = some { s with dispatcher := d, handed } := by
  induction actions generalizing s with
  | nil =>
    rw [run_nil] at h
    exact ⟨s.handed, by rw [← Option.some.inj h]; rfl⟩
  | cons a actions ih =>
    rw [run_cons, Option.bind_eq_some_iff] at h
    obtain ⟨next, hnext, h⟩ := h
    have hstep : step s (.dispatcher a) = some
        { s with dispatcher := next, handed := s.handed ++ handedBy s.dispatcher a } := by
      rw [step, hnext, Option.map_some]
    obtain ⟨handed, hrun⟩ := ih (s := { s with
      dispatcher := next, handed := s.handed ++ handedBy s.dispatcher a }) h
    exact ⟨handed, by rw [List.map_cons, run_cons, hstep, Option.bind_some, hrun]⟩

/-- What an admitted call does by itself, on a thread that may take the lock: it gets to the
engine. -/
theorem run_to_engine {first : List (Action Fl)} {m : CommandService Fl}
    (hfirst : after first = some m) {i : Nat} {call : CommandCall Fl} {command : Command Fl}
    (hcall : m.calls[i]? = some call) (hphase : call.phase = .received)
    (haccept : accept m.cache call.request = .ok command) {t : ThreadId}
    (hlock : m.dispatcher.mayLock t) :
    ∃ s, run step m ([.lookup i, .send i] ++ [Dispatcher.Action.enter t m.dispatcher.sends.length,
        .dispatch m.dispatcher.sends.length].map .dispatcher) = some s ∧
      s.handedTo i = [command] := by
  let k := m.dispatcher.sends.length
  have hlookup := lookup_eq hcall hphase
  simp only [haccept] at hlookup
  -- the call is admitted, and starts its `send`
  have hfound := phase_setPhase hcall (.admitted command)
  let sending : CommandService Fl := { (m.setPhase i (.admitted command)).setPhase i (.sending k) with
    dispatcher := m.dispatcher.allocate command }
  have hsending : run step m [.lookup i, .send i] = some sending := by
    rw [run_cons, hlookup, Option.bind_some, run_cons, step, hfound]
    rfl
  -- which gets to the engine
  have hmayLock := (Dispatcher.resumes_allocate m.dispatcher command).mayLock hlock
  have hallocated := Dispatcher.sends_allocate m.dispatcher command
  obtain ⟨handed, htold⟩ :=
    run_dispatcher (s := sending) (Dispatcher.run_told hmayLock hallocated rfl)
  have htoldOf := (Dispatcher.opens_of_allocated hmayLock hallocated rfl).toldOf
  have hrun := run_append.mpr ⟨sending, hsending, htold⟩
  have hinv := inv_after (run_append.mpr ⟨m, hfirst, hrun⟩)
  refine ⟨_, hrun, ?_⟩
  rw [handedTo_of_call hinv (phase_setPhase hfound (.sending k))]
  exact (List.flatMap_singleton _ k).trans htoldOf

/-! ## 7. Every run -/

/-- **What was handed is what the engine saw**: the commands, in the order of its `dispatch`
calls. -/
theorem handed_eq_dispatched {actions : List (Action Fl)} {s : CommandService Fl}
    (hrun : after actions = some s) :
    s.handed.map Prod.snd = s.dispatcher.trace.filterMap Observation.command :=
  (inv_after hrun).seen

/-- The call `i` is refused in its lookup: nothing but the call has changed, it hands nothing to the
engine then or later, and this is its answer. -/
structure Refuses (m s : CommandService Fl) (i : Nat)
    (response : Except Status Proto.SendCommandResponse) : Prop where
  untouched : ∃ m', step m (.lookup i) = some m' ∧ m'.dispatcher = m.dispatcher ∧
    m'.handed = m.handed
  handed : s.handedTo i = []
  answered : s.responseOf i = some response

/-- The call `i` is admitted in its lookup: with a `send` of its own it hands this command to the
engine once, or has not got there; it has when it answers, and answers with the outcome; and nothing
but the lock can keep it from getting there. -/
structure Forwards (m s : CommandService Fl) (i : Nat) (command : Command Fl) : Prop where
  own : ∀ j k, s.sendOf i = some k → s.sendOf j = some k → i = j
  handed : s.handedTo i = [] ∨ s.handedTo i = [command]
  answered : ∀ response, s.responseOf i = some response → s.handedTo i = [command] ∧
    ∃ outcome, s.outcomeOf i = some outcome ∧ response = .ok (respond outcome) ∧
      (response = .ok { result := Proto.CommandResult.success.toI32, reason := "" } ↔
        outcome = .success)
  reaches : ∀ t, m.dispatcher.mayLock t → ∃ s', run step m ([.lookup i, .send i] ++
      [Dispatcher.Action.enter t m.dispatcher.sends.length,
        .dispatch m.dispatcher.sends.length].map .dispatcher) = some s' ∧
    s'.handedTo i = [command]

theorem refuses_of_accept {m s : CommandService Fl} {rest : List (Action Fl)} {i : Nat}
    {call : CommandCall Fl} {response : Except Status Proto.SendCommandResponse}
    (hcall : m.calls[i]? = some call) (hphase : call.phase = .received)
    (haccept : accept m.cache call.request = .error response)
    (hrun : run step m (.lookup i :: rest) = some s) : Refuses m s i response := by
  have hlookup := lookup_eq hcall hphase
  simp only [haccept] at hlookup
  rw [run_cons, hlookup, Option.bind_some] at hrun
  obtain ⟨last, hlast, hanswered⟩ :=
    refused_of_run hrun ⟨_, phase_setPhase hcall (.answered none response), rfl⟩
  refine ⟨⟨_, hlookup, rfl, rfl⟩, ?_, ?_⟩
  · simp [handedTo, sendOf, hlast, CommandCall.send, hanswered]
  · simp [responseOf, hlast, CommandCall.response, hanswered]

theorem forwards_of_accept {first rest : List (Action Fl)} {m s : CommandService Fl} {i : Nat}
    {call : CommandCall Fl} {command : Command Fl} (hfirst : after first = some m)
    (hcall : m.calls[i]? = some call) (hphase : call.phase = .received)
    (haccept : accept m.cache call.request = .ok command)
    (hrun : run step m (.lookup i :: rest) = some s) : Forwards m s i command := by
  have hinv := inv_after (run_append.mpr ⟨m, hfirst, hrun⟩)
  have hlookup := lookup_eq hcall hphase
  simp only [haccept] at hlookup
  rw [run_cons, hlookup, Option.bind_some] at hrun
  have hadmitted := admitted_of_run hrun
    ⟨_, phase_setPhase hcall (.admitted command), rfl, rfl⟩
  obtain ⟨hhanded, hanswered⟩ := hinv.admitted (proto_of_accept haccept) hadmitted
  refine ⟨fun j k => hinv.own i j k, hhanded, fun response hresponse => ?_, fun t hlock =>
    run_to_engine hfirst hcall hphase haccept hlock⟩
  obtain ⟨hcommand, outcome, houtcome, rfl⟩ := hanswered response hresponse
  refine ⟨hcommand, outcome, houtcome, rfl, ?_⟩
  rw [Except.ok.injEq, respond_eq_success]

/-- **`send_command` checks exactly, forwards faithfully and leaves no trace when it refuses.**
Whatever the cache and the dispatcher are when a call looks its group up, and whatever happens
before and after: a malformed request is refused as an invalid argument, and a well-formed one for
a group that is not cached with a failure; and any other hands over the one command that is written
as the request. -/
theorem send_command_exact {first rest : List (Action Fl)} {m s : CommandService Fl} {i : Nat}
    {call : CommandCall Fl} (hfirst : after first = some m) (hcall : m.calls[i]? = some call)
    (hrun : run step m (.lookup i :: rest) = some s) :
    (¬ call.request.WellFormed →
      ∃ status, status.code = .invalidArgument ∧ Refuses m s i (.error status)) ∧
    (call.request.WellFormed → ∃ group, call.request.receiver = some group ∧
      (m.cache.getGroup group = none → Refuses m s i (.ok {
        result := Proto.CommandResult.failure.toI32
        reason := "unknown group " ++ group.str })) ∧
      ((m.cache.getGroup group).isSome → ∃ command : Command Fl,
        command.toProto = call.request ∧ Forwards m s i command)) := by
  have hphase : call.phase = .received := by
    obtain ⟨m', hlookup, -⟩ := Option.bind_eq_some_iff.mp (run_cons m _ rest ▸ hrun)
    cases moves_of_step hlookup with
    | admitted hcall' hphase | refused hcall' hphase =>
      obtain rfl := Option.some.inj (hcall'.symm.trans hcall)
      exact hphase
  constructor
  · intro hmalformed
    cases hproto : Command.fromProto call.request with
    | ok command => exact absurd (Command.fromProto_eq_ok.mp hproto).2 hmalformed
    | error status =>
      have haccept : accept m.cache call.request = .error (.error status) := by
        rw [accept, hproto]
      refine ⟨status, ?_, refuses_of_accept hcall hphase haccept hrun⟩
      obtain ⟨message, -, rfl⟩ :=
        Option.map_eq_some_iff.mp (Command.fromProto_eq_error.mp hproto)
      rfl
  · intro hwell
    obtain ⟨command, hproto⟩ := Command.fromProto_isOk.mpr hwell
    have hwritten := (Command.fromProto_eq_ok.mp hproto).1
    refine ⟨command.groupId, hwritten ▸ command.receiver_toProto, fun hgone => ?_, fun hcached => ?_⟩
    · refine refuses_of_accept hcall hphase ?_ hrun
      rw [accept, hproto]
      simp only [hgone, Option.isNone_none, if_true]
    · refine ⟨command, hwritten, forwards_of_accept hfirst hcall hphase ?_ hrun⟩
      rw [accept, hproto]
      simp only [Option.isNone_eq_false_iff.mpr hcached, Bool.false_eq_true, if_false]

/-- A move order for a cached group, acknowledged by the engine; and one that names no group. -/
theorem send_command_exact_sample :
    let request : Proto.SendCommandRequest Floats.bits := Command.sample.toProto
    let malformed : Proto.SendCommandRequest Floats.bits := ⟨some (.move ⟨none, ""⟩)⟩
    let first : List (Action Floats.bits) :=
      [.write (.upsertGroup (.sample "g1" .blufor)), .request malformed, .request request,
        .lookup 0]
    let rest : List (Action Floats.bits) :=
      [.send 1, .dispatcher (.enter 0 0), .dispatcher (.dispatch 0),
        .dispatcher (.complete 0 ⟨0⟩ .success), .dispatcher (.dispatchReturns 0),
        .dispatcher (.poll 0), .dispatcher (.dropGuard 0 0), .answer 1]
    ∃ m s, after first = some m ∧ run step m (.lookup 1 :: rest) = some s ∧
      Forwards m s 1 .sample ∧ s.responseOf 1 = some (.ok { result := 1, reason := "" }) := by
  intro request malformed first rest
  have hfirst : after first = some _ := rfl
  have hall : after (first ++ .lookup 1 :: rest) = some _ := rfl
  obtain ⟨m, hm, hrun⟩ := run_append.mp hall
  obtain rfl := Option.some.inj (hfirst.symm.trans hm)
  have hexact := send_command_exact hfirst (i := 1) rfl hrun
  obtain ⟨group, hgroup, -, hforwards⟩ := hexact.2 ⟨by decide, rfl⟩
  obtain rfl : GroupId.ofStr "g1" = group := Option.some.inj hgroup
  obtain ⟨command, hwritten, hforwards⟩ := hforwards (by decide)
  have hproto := Command.fromProto_eq_ok.mpr ⟨hwritten, (⟨by decide, rfl⟩ : request.WellFormed)⟩
  obtain rfl : Command.sample = command := Except.ok.inj hproto
  exact ⟨_, _, hfirst, hrun, hforwards, rfl⟩

end CommandService

end MinervaServer
