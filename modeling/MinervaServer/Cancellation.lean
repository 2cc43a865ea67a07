/-
# Cancellation is ordered with dispatch

`send` inserts its entry and calls the engine in one critical section, and `cancel_all` drains
`pending` in another.  So whatever a drain finds, the engine has been told about; whatever is
inserted afterwards, the drain has not touched; and an id that was drained is not there for any
later `complete` to find.  The lock is reentrant, so "afterwards" includes what a sink does inside
its own `dispatch`.

All three are about the ORDER of observations, and the order of what was observed of one id is
known: it is inserted, handed to the engine, taken, returned, in that order and each at most once
(`Inv.history_prefix`).  A drain is one of the ways to be taken, so everything else stands before
it or behind it (`Inv.drained`).

Ids come from a wrapping counter.  With 2^64 sends an id is handed out twice, and a `complete` for
the second call answers `true` after the first was drained (`drained_id_completes_on_wraparound`).
-/
import MinervaServer.Outcomes
import MinervaServer.Calls

namespace MinervaServer

open Lib

variable {Fl : Floats}

/-! ## 1. The order of what is observed of one id -/

theorem dispatched_mem {trace : List (Observation Fl)} {id : CommandId} :
    .dispatched ∈ history trace id ↔ ∃ command, .dispatched id command ∈ trace := by
  rw [history, List.mem_filterMap]
  constructor
  · rintro ⟨o, ho, hm⟩
    cases o <;> simp_all [Observation.moment]
    exact ⟨_, ho⟩
  · rintro ⟨command, h⟩
    exact ⟨_, h, by simp [Observation.moment]⟩

theorem inserted_mem {trace : List (Observation Fl)} {id : CommandId} :
    .inserted ∈ history trace id ↔ .inserted id ∈ trace := by
  rw [history, List.mem_filterMap]
  constructor
  · rintro ⟨o, ho, hm⟩
    cases o <;> simp_all [Observation.moment]
  · intro h
    exact ⟨_, h, by simp [Observation.moment]⟩

/-- The four moments of a life, in order and each once, as far as it has got. -/
theorem Life.Sound.history_prefix {l : Life Fl} (h : l.Sound) : ∃ taken outcome,
    l.history <+: [.inserted, .dispatched, .taken taken, .returned outcome] := by
  rcases h.phases with ⟨_, _, hhistory⟩ | ⟨_, _, hhistory⟩ | ⟨_, _, hhistory⟩ |
    ⟨_, taken, _, _, _, hhistory⟩ | ⟨_, taken, _, hhistory⟩ <;> rw [hhistory]
  · exact ⟨.cleaned, .timeout, List.nil_prefix⟩
  · exact ⟨.cleaned, .timeout, by simp⟩
  · exact ⟨.cleaned, .timeout, by simp⟩
  · exact ⟨taken, .timeout, by simp⟩
  · cases l.send.stage.result with
    | none => exact ⟨taken, .timeout, by simp⟩
    | some outcome => exact ⟨taken, outcome, by simp⟩

namespace Dispatcher

theorem Inv.history_prefix {d : Dispatcher Fl} (h : Inv d) (id : CommandId) : ∃ taken outcome,
    history d.trace id <+: [.inserted, .dispatched, .taken taken, .returned outcome] := by
  rcases h.known_or id with ⟨send, hmem, rfl⟩ | ⟨_, hnone⟩
  · obtain ⟨k, hk, hsound⟩ := h.sound_of_mem hmem
    exact hsound.history_prefix
  · exact ⟨.cleaned, .timeout, hnone ▸ List.nil_prefix⟩

/-- **Around a drain.**  Of an id that it drained, exactly the insertion and the dispatch were
observed before, and at most the return of its call after. -/
theorem Inv.drained {d : Dispatcher Fl} (h : Inv d) {before rest : List (Observation Fl)}
    {drained : List CommandId} (htrace : d.trace = before ++ .cancelledAll drained :: rest)
    {id : CommandId} (hid : id ∈ drained) :
    history before id = [.inserted, .dispatched] ∧
      ∃ outcome, history rest id <+: [.returned outcome] := by
  obtain ⟨taken, outcome, hstart⟩ := h.history_prefix id
  have hdrain : history (.cancelledAll drained :: rest : List (Observation Fl)) id =
      .taken .cancelled :: history rest id := by
    simp [history, Observation.moment, hid]
  rw [htrace, history_append, hdrain] at hstart
  -- the take stands third
  rcases hb : history before id with _ | ⟨first, _ | ⟨second, _ | ⟨third, _ | ⟨fourth, more⟩⟩⟩⟩ <;>
    rw [hb] at hstart <;> simp at hstart
  exact ⟨by rw [hstart.1, hstart.2.1], outcome, hstart.2.2.2⟩

/-- An id that is inserted after a drain was not there to be drained. -/
theorem Inv.inserted_after {d : Dispatcher Fl} (h : Inv d) {before rest : List (Observation Fl)}
    {drained : List CommandId} (htrace : d.trace = before ++ .cancelledAll drained :: rest)
    {id : CommandId} (hid : .inserted id ∈ rest) :
    id ∉ drained ∧ history d.trace id = history rest id := by
  have hrest : .inserted ∈ history rest id := inserted_mem.mpr hid
  have hout : id ∉ drained := by
    intro hmem
    obtain ⟨_, outcome, hstart⟩ := h.drained htrace hmem
    simpa using hstart.subset hrest
  refine ⟨hout, ?_⟩
  obtain ⟨taken, outcome, hstart⟩ := h.history_prefix id
  have hdrain : history (.cancelledAll drained :: rest : List (Observation Fl)) id =
      history rest id := by
    simp [history, Observation.moment, hout]
  rw [htrace, history_append, hdrain] at hstart ⊢
  cases hb : history before id with
  | nil => rfl
  | cons first more =>
    -- an insertion is the first thing that is observed of an id
    rw [hb, List.cons_append, List.cons_prefix_cons] at hstart
    have hlate := hstart.2.subset (List.mem_append_right more hrest)
    simp at hlate

/-! ## 2. Every run -/

/-- **Cancellation is ordered with dispatch.**  In every run with fewer than 2^64 sends: every id
that a `cancel_all` drains was handed to the engine before, with the command of its call, and no
later `complete` for it answers `true`; an entry that is inserted after a drain is not among
those drained, and is there until something else takes it; and a call that returned "cancelled"
either was completed with that outcome by the engine itself, or was drained by a `cancel_all`
after the engine was told about it and returned after that. -/
theorem cancellation_ordered {actions : List (Action Fl)} {d : Dispatcher Fl}
    (hrun : after actions = some d) (hfew : d.sends.length < 2 ^ 64) :
    (∀ (before : List (Observation Fl)) drained (rest : List (Observation Fl)),
      d.trace = before ++ .cancelledAll drained :: rest →
      (∀ id ∈ drained,
        (∃ send ∈ d.sends, send.id = id ∧ .dispatched id send.command ∈ before) ∧
        ∀ outcome acknowledged, .completed id outcome acknowledged ∈ rest →
          acknowledged = false) ∧
      ∀ id, .inserted id ∈ rest → id ∉ drained ∧
        (id ∈ d.pending ↔ takes (history rest id) = [])) ∧
    ∀ id, .returned id .cancelled ∈ d.trace →
      .completed id .cancelled true ∈ d.trace ∨
      ∃ (before : List (Observation Fl)) (drained : List CommandId) (rest : List (Observation Fl)),
        d.trace = before ++ .cancelledAll drained :: rest ∧ id ∈ drained ∧
        (∃ send ∈ d.sends, send.id = id ∧ .dispatched id send.command ∈ before) ∧
        .returned id .cancelled ∈ rest := by
  have hinv := inv_after hrun hfew
  have htold : ∀ (before : List (Observation Fl)) drained (rest : List (Observation Fl)),
      d.trace = before ++ .cancelledAll drained :: rest → ∀ id ∈ drained,
      ∃ send ∈ d.sends, send.id = id ∧ .dispatched id send.command ∈ before := by
    intro before drained rest htrace id hid
    have hbefore : .dispatched ∈ history before id := by
      rw [(hinv.drained htrace hid).1]
      simp
    obtain ⟨command, hdispatched⟩ := dispatched_mem.mp hbefore
    have hrequest := told_after hrun id command (htrace ▸ List.mem_append_left _ hdispatched)
    obtain ⟨send, hsend, heq⟩ := List.mem_map.mp hrequest
    obtain ⟨rfl, rfl⟩ := Prod.mk.inj heq
    exact ⟨send, hsend, rfl, hdispatched⟩
  refine ⟨fun before drained rest htrace => ⟨fun id hid => ⟨htold _ _ _ htrace id hid, ?_⟩, ?_⟩, ?_⟩
  · intro outcome acknowledged hcompleted
    cases acknowledged with
    | false => rfl
    | true =>
      obtain ⟨returned, hstart⟩ := (hinv.drained htrace hid).2
      simpa using hstart.subset (taken_completed_mem.mpr hcompleted)
  · intro id hid
    obtain ⟨hout, hhistory⟩ := hinv.inserted_after htrace hid
    refine ⟨hout, ?_⟩
    rw [hinv.pending_iff hfew, hhistory]
    exact and_iff_right (inserted_mem.mpr hid)
  · intro id hreturned
    obtain ⟨_, _, _, arm, taken, _, harm, hhistory, hfrom⟩ := hinv.returned hreturned
    have htaken : taken.outcome = some .cancelled := by
      refine hfrom.resolve_left ?_
      rintro rfl
      exact absurd harm (by decide)
    rcases Take.outcome_eq_some.mp htaken with rfl | ⟨rfl, _⟩
    · exact Or.inl (taken_completed_mem.mp (by simp [hhistory]))
    · obtain ⟨drained, hdrained, hid⟩ := taken_cancelled_mem.mp
        (show .taken .cancelled ∈ history d.trace id by simp [hhistory])
      obtain ⟨before, rest, htrace⟩ := List.append_of_mem hdrained
      refine Or.inr ⟨before, drained, rest, htrace, hid, htold _ _ _ htrace id hid, ?_⟩
      -- the return is not among what was seen before
      rw [htrace, List.mem_append, List.mem_cons] at hreturned
      rcases hreturned with hbefore | hdrain | hrest
      · have hmem := returned_mem.mpr hbefore
        rw [(hinv.drained htrace hid).1] at hmem
        simp at hmem
      · cases hdrain
      · exact hrest

/-- A sink that cancels everything inside its `dispatch`, and another command after that. -/
theorem cancellation_ordered_sample :
    let actions : List (Action Floats.bits) :=
      [.allocate .sample, .enter 0 0, .dispatch 0, .cancelAll 0 .ascending, .dispatchReturns 0,
        .poll 0, .dropGuard 0 0, .allocate .sample, .enter 0 1]
    ∃ d, after actions = some d ∧
      (∀ (before : List (Observation Floats.bits)) drained (rest : List (Observation Floats.bits)),
        d.trace = before ++ .cancelledAll drained :: rest →
        ∀ id, .inserted id ∈ rest → id ∉ drained) ∧
      (.completed ⟨0⟩ .cancelled true ∈ d.trace ∨
        ∃ (before : List (Observation Floats.bits)) (drained : List CommandId)
          (rest : List (Observation Floats.bits)),
          d.trace = before ++ .cancelledAll drained :: rest ∧ ⟨0⟩ ∈ drained ∧
          (∃ send ∈ d.sends, send.id = ⟨0⟩ ∧ .dispatched ⟨0⟩ send.command ∈ before) ∧
          .returned ⟨0⟩ .cancelled ∈ rest) := by
  intro actions
  have hrun : after actions = some _ := rfl
  have hordered := cancellation_ordered hrun (by decide)
  exact ⟨_, hrun, fun before drained rest htrace id hid =>
    ((hordered.1 before drained rest htrace).2 id hid).1, hordered.2 ⟨0⟩ (by decide)⟩

/-! ## 3. When the ids wrap around -/

/-- A command that is drained; 2^64 - 1 sends that get no further than their id; and one more,
which gets the first id again and is acknowledged. -/
def reusing : List (Action Floats.bits) :=
  let drained : List (Action Floats.bits) :=
    [.allocate .sample, .enter 0 0, .dispatch 0, .dispatchReturns 0, .cancelAll 0 .ascending]
  let last : List (Action Floats.bits) :=
    [.allocate .sample, .enter 0 (2 ^ 64), .dispatch (2 ^ 64), .complete 0 ⟨0⟩ .success]
  drained ++ (List.replicate (2 ^ 64 - 1) (.allocate .sample) ++ last)

/-- Sends that get no further than their id. -/
theorem run_allocating (command : Command Fl) (n : Nat) (d : Dispatcher Fl) :
    ∃ more : List (SendFuture Fl), more.length = n ∧
      run step d (List.replicate n (.allocate command)) =
        some { d with
          ids := ⟨d.ids.counter + UInt64.ofNat n⟩
          sends := d.sends ++ more } := by
  induction n generalizing d with
  | zero => exact ⟨[], rfl, by simp⟩
  | succ n ih =>
    obtain ⟨more, hlength, hrun⟩ := ih (d.allocate command)
    refine ⟨⟨d.ids.next.1, command, {}, false, .allocated⟩ :: more, by simp [hlength], ?_⟩
    have hnumber : d.ids.counter + UInt64.ofNat (n + 1) = d.ids.counter + 1 + UInt64.ofNat n := by
      rw [UInt64.ofNat_add, UInt64.add_assoc, UInt64.add_comm (UInt64.ofNat n)]
      rfl
    have hstep : step d (.allocate command) = some (d.allocate command) := rfl
    rw [List.replicate_succ, run_cons, hstep, Option.bind_some, hrun, hnumber]
    simp [allocate, CommandIdAllocator.next]

/-- The call with the last place, when nothing is pending, is sent and acknowledged. -/
theorem run_acknowledged (ids : CommandIdAllocator) (sends : List (SendFuture Fl))
    (send : SendFuture Fl) (hstage : send.stage = .allocated) (trace : List (Observation Fl)) :
    ∃ d, run step ⟨ids, sends ++ [send], ∅, [], 0, trace⟩
        [.enter 0 sends.length, .dispatch sends.length, .complete 0 send.id .success] = some d ∧
      d.trace = trace ++ [.inserted send.id, .dispatched send.id send.command,
        .completed send.id .success true] := by
  let pending : HashMap CommandId Nat := (∅ : HashMap CommandId Nat).insert send.id sends.length
  have hlast : ∀ s : SendFuture Fl, (sends ++ [s])[sends.length]? = some s := fun s =>
    List.getElem?_concat_length
  have hset : ∀ s s' : SendFuture Fl, (sends ++ [s]).set sends.length s' = sends ++ [s'] := by
    simp
  -- it is inserted, dispatched and acknowledged
  have henter : step ⟨ids, sends ++ [send], ∅, [], 0, trace⟩ (.enter 0 sends.length) =
      some ⟨ids, sends ++ [send.enter .inserted], pending, [sends.length], 0,
        trace ++ [.inserted send.id]⟩ := by
    rw [step, hlast, Option.bind_some, if_pos ⟨hstage, rfl⟩, enter_eq (hlast send) (by simp), hset]
  let told : Dispatcher Fl := ⟨ids, sends ++ [send.enter .dispatching], pending, [sends.length], 0,
    trace ++ [.inserted send.id] ++ [.dispatched send.id send.command]⟩
  have hdispatch : step ⟨ids, sends ++ [send.enter .inserted], pending, [sends.length], 0,
      trace ++ [.inserted send.id]⟩ (.dispatch sends.length) = some told := by
    rw [step, hlast, Option.bind_some, if_pos ⟨rfl, rfl⟩, dispatch, modifySend_of (hlast _), hset]
    rfl
  have hentry : told.pending[send.id]? = some sends.length := Std.ExtTreeMap.getElem?_insert_self
  have htold : told.sends[sends.length]? = some (send.enter .dispatching) := hlast _
  have hfound : (told.complete send.id .success).2 = true :=
    congrArg Prod.snd (complete_eq htold hentry .success)
  have hlock : told.mayLock 0 := by simp [told, mayLock, stageOf, SendFuture.enter]
  have hcomplete : step told (.complete 0 send.id .success) =
      some ((told.complete send.id .success).1.observe (.completed send.id .success true)) := by
    rw [step, if_pos hlock, ← hfound]
  refine ⟨_, by rw [run_cons, henter, Option.bind_some, run_cons, hdispatch, Option.bind_some,
    run_cons, hcomplete, Option.bind_some, run_nil], ?_⟩
  simp [observe, trace_complete, told]

/-- **An id that was drained is completed when the ids wrap around.** -/
theorem drained_id_completes_on_wraparound :
    ∃ d, after reusing = some d ∧ ∃ (before : List (Observation Floats.bits))
      (drained : List CommandId) (rest : List (Observation Floats.bits)) (id : CommandId)
      (outcome : CommandOutcome), d.trace = before ++ .cancelledAll drained :: rest ∧
        id ∈ drained ∧ .completed id outcome true ∈ rest := by
  let first : SendFuture Floats.bits :=
    (⟨⟨0⟩, .sample, {}, false, .awaiting⟩ : SendFuture Floats.bits).deliver .cancelled
  let trace : List (Observation Floats.bits) :=
    [.inserted ⟨0⟩, .dispatched ⟨0⟩ .sample, .cancelledAll [⟨0⟩]]
  have hdrained : after [.allocate .sample, .enter 0 0, .dispatch 0, .dispatchReturns 0,
      .cancelAll 0 .ascending] = some (⟨⟨1⟩, [first], ∅, [], 0, trace⟩ : Dispatcher Floats.bits) :=
    rfl
  obtain ⟨more, hlength, hallocating⟩ := run_allocating .sample (2 ^ 64 - 1)
    (⟨⟨1⟩, [first], ∅, [], 0, trace⟩ : Dispatcher Floats.bits)
  have hplace : (first :: more).length = 2 ^ 64 := by rw [List.length_cons, hlength]; rfl
  obtain ⟨d, hacknowledged, htrace⟩ := run_acknowledged ⟨1⟩ (first :: more)
    (⟨⟨0⟩, .sample, {}, false, .allocated⟩ : SendFuture Floats.bits) rfl trace
  rw [hplace] at hacknowledged
  refine ⟨d, run_append.mpr ⟨_, hdrained, run_append.mpr ⟨_, hallocating, ?_⟩⟩, ?_⟩
  · rw [show (1 : UInt64) + UInt64.ofNat (2 ^ 64 - 1) = 0 by decide, run_cons]
    exact hacknowledged
  · exact ⟨[.inserted ⟨0⟩, .dispatched ⟨0⟩ .sample], [⟨0⟩],
      [.inserted ⟨0⟩, .dispatched ⟨0⟩ .sample, .completed ⟨0⟩ .success true], ⟨0⟩, .success,
      htrace, by decide, by simp⟩

end Dispatcher

end MinervaServer
