/-
# The cache behind its lock

Every method of `StateCache` takes the lock once, `write()` or `read()`, and keeps it until it
returns; the engine and the services call them from as many threads as they like.  The other modules
have each method as one step on the cache.  Here the steps of one method come between those of the
others, and `concurrent_calls_linearize` says that nobody can tell: each call has the answer it
would have had after the writes that were let in before it, made one after another.

What the methods do under the lock is not fixed further than that it comes, undisturbed, to what
`StateCache.serve` says.  `sections` is the way of `Subscription.lean`, the maps first and then the
broadcasts.

The lock is `parking_lot`'s `RwLock`, which is not in the repository.  `Lib/RwLock.lean` stands for
it, and what it says of who is let in is assumed: any number of readers or one writer, and somebody
if the lock is free.  Of fairness nothing is.
-/
import MinervaServer.Broadcasts
import MinervaServer.Lib.RwLock

namespace MinervaServer

open Lib

variable {Fl : Floats}

/-- A call of a method of the cache. -/
inductive Request (Fl : Floats) where
  | write (w : Write Fl)
  | getUnit (id : UnitId)
  | listUnits (order : IterOrder UnitId) (side : Option Proto.Side) (groupId : Option GroupId)
  | getGroup (id : GroupId)
  | listGroups (order : IterOrder GroupId) (side : Option Proto.Side)
  | simulationInfo
  | simulationState
  | listLocations (side : Option Proto.Side)
  /-- The part of `subscribe_group_updates` that is under the lock. -/
  | subscribeGroupUpdates (order : IterOrder GroupId) (side : Option Proto.Side)
  /-- And of `subscribe_simulation_updates`. -/
  | subscribeSimulationUpdates

/-- What it returns. -/
inductive Response (Fl : Floats) where
  | done
  | unit (unit : Option (Proto.Unit Fl))
  | units (units : List (Proto.Unit Fl))
  | group (group : Option (Proto.Group Fl))
  | groups (groups : List (Proto.Group Fl))
  | simulationInfo (info : Option (Proto.SimulationInfo Fl))
  | simulationState (state : Option (Proto.SimulationStateUpdate Fl))
  | locations (locations : List (Proto.Location Fl))
  | groupSnapshot (groups : List (Proto.Group Fl)) (sequence : UInt64)
  | simulationSnapshot (state : Option (Proto.SimulationStateUpdate Fl)) (sequence : UInt64)

/-- The calls that take the lock with `write()`. -/
def Request.asWrite : Request Fl → Option (Write Fl)
  | .write w => some w
  | .getUnit _ | .listUnits _ _ _ | .getGroup _ | .listGroups _ _ | .simulationInfo
  | .simulationState | .listLocations _ | .subscribeGroupUpdates _ _
  | .subscribeSimulationUpdates => none

namespace StateCache

/-- What a write returns. -/
def written (c : StateCache Fl) : Write Fl → Response Fl
  | .removeUnit id => .unit (c.removeUnit id).2
  | .removeGroup id => .group (c.removeGroup id).2
  | .upsertUnit _ | .upsertGroup _ | .upsertGroupWithUnits _ _ _ | .setSimulationInfo _
  | .setSimulationState _ | .setLocations _ | .clear _ => .done

/-- A call with nobody else about. -/
def serve (c : StateCache Fl) : Request Fl → StateCache Fl × Response Fl
  | .write w => (c.write w, c.written w)
  | .getUnit id => (c, .unit (c.getUnit id))
  | .listUnits order side groupId => (c, .units (c.listUnits order side groupId))
  | .getGroup id => (c, .group (c.getGroup id))
  | .listGroups order side => (c, .groups (c.listGroups order side))
  | .simulationInfo => (c, .simulationInfo c.simulationInfo)
  | .simulationState => (c, .simulationState c.simulationState)
  | .listLocations side => (c, .locations (c.listLocations side))
  | .subscribeGroupUpdates order side =>
    let (groups, sequence) := subscribeGroupUpdates order c.inner side
    (c, .groupSnapshot groups sequence)
  | .subscribeSimulationUpdates =>
    let (state, sequence) := subscribeSimulationUpdates c.inner
    (c, .simulationSnapshot state sequence)

/-- Only writes change the cache. -/
theorem serve_fst (c : StateCache Fl) (request : Request Fl) :
    (c.serve request).1 = request.asWrite.toList.foldl write c := by
  cases request <;> rfl

/-- Calls one after another leave what their writes leave. -/
theorem serial_serve (log : List (Write Fl)) (requests : List (Request Fl)) :
    RwLock.serial serve (after log) requests = after (log ++ requests.filterMap Request.asWrite) := by
  induction requests generalizing log with
  | nil => rw [List.filterMap_nil, List.append_nil]; rfl
  | cons request requests ih =>
    have hfirst : ((after log).serve request).1 = after (log ++ request.asWrite.toList) := by
      rw [serve_fst, after, after, List.foldl_append]
    rw [RwLock.serial, List.foldl_cons, hfirst]
    refine (ih _).trans ?_
    cases hwrite : request.asWrite <;> simp [hwrite]

/-- **Concurrent calls linearize.**  Let the methods do under the lock whatever comes, undisturbed,
to what `serve` says, and let them be called at any time, from any number of threads.  A call that
has returned has the answer of the cache after the writes that were let in before it, one after
another; whenever no write is in progress the cache, with all it has broadcast, is what those writes
leave; a call that has returned comes, in that order, before every call that is made later; and as
long as a call has not returned there is one that can go on. -/
theorem concurrent_calls_linearize {L : Type}
    {code : Request Fl → CriticalSection (StateCache Fl) L (Response Fl)}
    (hcode : RwLock.Implements code serve) {actions : List (RwLock.Action (Request Fl))}
    {s : RwLock (Request Fl) (StateCache Fl) L (Response Fl)}
    (hrun : run (RwLock.step code) ⟨new, []⟩ actions = some s) :
    let order := RwLock.acquired actions
    (∀ k request response, s.calls[k]? = some ⟨request, .returned response⟩ →
      response = ((after ((s.served (RwLock.before order k)).filterMap Request.asWrite)).serve
        request).2) ∧
    ((∀ (k : Nat) (call : RwLock.Call (Request Fl) (StateCache Fl) L (Response Fl)),
        s.calls[k]? = some call → call.holds = true → (code call.request).exclusive = false) →
      s.data = after ((s.served order).filterMap Request.asWrite)) ∧
    (∀ first rest m, actions = first ++ rest →
      run (RwLock.step code) ⟨new, []⟩ first = some m →
      ∀ j k request response, m.calls[k]? = some ⟨request, .returned response⟩ →
        m.calls.length ≤ j → k ∈ RwLock.before order j) ∧
    ∀ (k : Nat) (call : RwLock.Call (Request Fl) (StateCache Fl) L (Response Fl)),
      s.calls[k]? = some call → (∀ response, call.stage ≠ .returned response) →
        ∃ a, (∀ request, a ≠ .call request) ∧ (RwLock.step code s a).isSome = true := by
  intro order
  obtain ⟨hreturned, hdata, htime⟩ := RwLock.linearizable hcode hrun
  have hserial : ∀ requests, RwLock.serial serve (new : StateCache Fl) requests =
      after (requests.filterMap Request.asWrite) := fun requests => serial_serve [] requests
  refine ⟨fun k request response hcall => ?_, fun hreaders => ?_, htime,
    fun k call hcall hpending => RwLock.exists_step hcall hpending⟩
  · rw [← hserial]
    exact hreturned k request response hcall
  · rw [← hserial]
    exact hdata hreaders

/-- One way to do it: a write changes the maps, then it broadcasts; a read is one step. -/
def sections (request : Request Fl) :
    CriticalSection (StateCache Fl) (Response Fl × List (Event (Message Fl))) (Response Fl) where
  exclusive := request.asWrite.isSome
  init := (.done, [])
  steps :=
    match request.asWrite with
    | some w =>
      [fun x => (⟨(x.1.write w).inner, x.1.sent⟩, x.1.written w,
          ((⟨x.1.inner, []⟩ : StateCache Fl).write w).sent),
        fun x => (⟨x.1.inner, x.1.sent ++ x.2.2⟩, x.2)]
    | none => [fun x => (x.1, (x.1.serve request).2, [])]
  result := Prod.fst
  reads h f hf x := by
    rw [Option.isSome_eq_false_iff, Option.isNone_iff_eq_none] at h
    rw [h, List.mem_singleton] at hf
    rw [hf]

theorem sections_implement : RwLock.Implements (sections : Request Fl → _) serve := by
  intro request c
  cases request with
  | write w =>
    have hsent : (c.write w).sent = c.sent ++ ((⟨c.inner, []⟩ : StateCache Fl).write w).sent := by
      rw [write_sent, write_sent, List.nil_append]
    have hwrite : c.write w = ⟨(c.write w).inner, (c.write w).sent⟩ := rfl
    rw [serve, hwrite, hsent]
    rfl
  | _ => rfl

/-- A read that is made while a write is in progress. -/
def overlapping : List (RwLock.Action (Request Floats.bits)) :=
  [.call (.write (.setSimulationState (.sample 1))), .acquire 0, .advance 0, .call .simulationState,
    .advance 0, .release 0, .acquire 1, .advance 1, .release 1]

theorem concurrent_calls_linearize_sample :
    ∃ s response, run (RwLock.step sections) ⟨new, []⟩ overlapping = some s ∧
      s.calls[1]? = some ⟨.simulationState, .returned response⟩ ∧
      response = ((after ((s.served (RwLock.before (RwLock.acquired overlapping) 1)).filterMap
        Request.asWrite)).serve .simulationState).2 :=
  have hrun : run (RwLock.step sections) ⟨new, []⟩ overlapping = some _ := rfl
  ⟨_, _, hrun, rfl, (concurrent_calls_linearize sections_implement hrun).1 1 _ _ rfl⟩

end StateCache

end MinervaServer
