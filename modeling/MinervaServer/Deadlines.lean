/-
# The timeout of a command

`send` waits for the engine "up to the configured timeout", which `Dispatcher::new` is given.  In
`Dispatcher` a timer goes off whenever it likes, so what is proved there holds for every timeout.
Here the runtime has a clock.  A call that begins to wait sets its timer to `timeout` from then, and
the timer goes off at that deadline or later, as late as the scheduler pleases.

* `timeouts_on_time`: no call is reported as timed out before it has waited for `timeout`; and when
  the dispatcher can do nothing by itself, all calls are over but those that still have time.

Every timed run is a run of the dispatcher (`dispatcher_of_run`), so what is new is the clock: when
a timer may go off (`Timely`), and who waits when nobody holds the lock (`Settled`).

As in `Dispatcher`, a poll reads the channel and the timer in one step.  That is an assumption: the
two are read one after the other, with no lock held.  `Polling.lean` takes them apart.
-/
import MinervaServer.Draining
import MinervaServer.Lifecycle

namespace MinervaServer

open Lib

variable {Fl : Floats}

/-! ## 1. The clock and the timers -/

/-- A dispatcher, with the clock its timers run by. -/
structure TimedDispatcher (Fl : Floats) where
  dispatcher : Dispatcher Fl := {}
  /-- The clock, in milliseconds. -/
  now : Nat := 0
  /-- When the timers of the calls go off, for those that have set theirs. -/
  deadlines : HashMap Nat Nat := ∅

namespace TimedDispatcher

inductive Action (Fl : Floats) where
  | tick
  /-- The call `k`, which has released the lock, makes its `timeout(self.timeout, rx)`. -/
  | setTimer (k : Nat)
  | act (a : Dispatcher.Action Fl)

def Action.isTick : Action Fl → Bool
  | .tick => true
  | .setTimer _ | .act _ => false

/-- The timer of the call `k` may go off. -/
def due (s : TimedDispatcher Fl) (k : Nat) : Bool := s.deadlines[k]?.any fun deadline =>
  deadline ≤ s.now

/-- What a step of the dispatcher has to wait for: a timer for its deadline, and a call at its await
for having a timer at all. -/
def permits (s : TimedDispatcher Fl) : Dispatcher.Action Fl → Bool
  | .timerExpires k => s.due k
  | .poll k | .dropFuture k => s.deadlines[k]?.isSome
  | .allocate _ | .enter _ _ | .dispatch _ | .dispatchReturns _ | .dispatchPanics _
  | .dropGuard _ _ | .complete _ _ _ | .cancelAll _ _ => true

/-- One step; `none`: it is not possible now. -/
def step (timeout : Nat) (s : TimedDispatcher Fl) : Action Fl → Option (TimedDispatcher Fl)
  | .tick => some { s with now := s.now + 1 }
  | .setTimer k =>
    if s.dispatcher.stageOf k = some .awaiting ∧ s.deadlines[k]? = none then
      some { s with deadlines := s.deadlines.insert k (s.now + timeout) }
    else none
  | .act a =>
    if s.permits a then
      (s.dispatcher.step a).map fun dispatcher => { s with dispatcher }
    else none

/-- The run of `actions` on a new dispatcher. -/
abbrev after (timeout : Nat) (actions : List (Action Fl)) : Option (TimedDispatcher Fl) :=
  run (step timeout) {} actions

/-- What can happen by itself, if it moves something: no call begins, and no engine and no caller
does anything. -/
def unaided (s : TimedDispatcher Fl) : Action Fl → Bool
  | .tick | .setTimer _ => true
  | .act a => s.dispatcher.unaided a

/-- Until the clock goes on, nothing more happens by itself. -/
def Settled (timeout : Nat) (s : TimedDispatcher Fl) : Prop :=
  ∀ a, s.unaided a → a.isTick = false → step timeout s a = none

/-- What a step can do, each with what it takes. -/
inductive Moves (timeout : Nat) (s : TimedDispatcher Fl) :
    Action Fl → TimedDispatcher Fl → Prop where
  | tick : Moves timeout s .tick { s with now := s.now + 1 }
  | setTimer {k : Nat} (hstage : s.dispatcher.stageOf k = some .awaiting)
      (hnew : s.deadlines[k]? = none) :
      Moves timeout s (.setTimer k) { s with deadlines := s.deadlines.insert k (s.now + timeout) }
  | act {a : Dispatcher.Action Fl} {dispatcher : Dispatcher Fl} (hpermits : s.permits a)
      (hstep : s.dispatcher.step a = some dispatcher) :
      Moves timeout s (.act a) { s with dispatcher }

variable {timeout : Nat}

/-- **What a step can do.** -/
theorem moves_of_step {s s' : TimedDispatcher Fl} {a : Action Fl}
    (h : step timeout s a = some s') : Moves timeout s a s' := by
  cases a with
  | tick =>
    obtain rfl := Option.some.inj h
    exact .tick
  | setTimer k =>
    obtain ⟨⟨hstage, hnew⟩, h⟩ := Option.ite_none_right_eq_some.mp h
    obtain rfl := Option.some.inj h
    exact .setTimer hstage hnew
  | act a =>
    obtain ⟨hpermits, h⟩ := Option.ite_none_right_eq_some.mp h
    obtain ⟨dispatcher, hstep, rfl⟩ := Option.map_eq_some_iff.mp h
    exact .act hpermits hstep

/-- **The refinement.**  Every timed run is a run of the dispatcher. -/
theorem dispatcher_of_run {s s' : TimedDispatcher Fl} {actions : List (Action Fl)}
    (hrun : run (step timeout) s actions = some s') :
    ∃ steps, run Dispatcher.step s.dispatcher steps = some s'.dispatcher := by
  refine run_invariant
    (P := fun s' => ∃ steps, run Dispatcher.step s.dispatcher steps = some s'.dispatcher)
    ?_ hrun ⟨[], rfl⟩
  rintro m a m' hm ⟨steps, hsteps⟩
  cases moves_of_step hm with
  | tick => exact ⟨steps, hsteps⟩
  | setTimer => exact ⟨steps, hsteps⟩
  | @act a dispatcher hpermits hstep =>
    refine ⟨steps ++ [a], run_append.mpr ⟨m.dispatcher, hsteps, ?_⟩⟩
    rw [run_cons, hstep]
    rfl

/-- A timer is set once. -/
theorem deadline_of_moves {s s' : TimedDispatcher Fl} {a : Action Fl} (hm : Moves timeout s a s')
    {k deadline : Nat} (h : s'.deadlines[k]? = some deadline) :
    s.deadlines[k]? = some deadline ∨ s.deadlines[k]? = none ∧ deadline = s.now + timeout := by
  cases hm with
  | tick => exact Or.inl h
  | act => exact Or.inl h
  | @setTimer j hstage hnew =>
    have hinsert : (s.deadlines.insert j (s.now + timeout))[k]? = some deadline := h
    rw [Std.ExtTreeMap.getElem?_insert] at hinsert
    split at hinsert
    · next heq =>
      obtain rfl : j = k := by simpa using heq
      exact Or.inr ⟨hnew, (Option.some.inj hinsert).symm⟩
    · exact Or.inl hinsert

/-- And stays. -/
theorem deadline_stays {s s' : TimedDispatcher Fl} {a : Action Fl} (hm : Moves timeout s a s')
    {k deadline : Nat} (h : s.deadlines[k]? = some deadline) :
    s'.deadlines[k]? = some deadline := by
  cases hm with
  | tick => exact h
  | act => exact h
  | @setTimer j hstage hnew =>
    have hne : j ≠ k := by
      rintro rfl
      cases hnew.symm.trans h
    have hinsert : (s.deadlines.insert j (s.now + timeout))[k]? = s.deadlines[k]? := by
      rw [Std.ExtTreeMap.getElem?_insert]
      exact if_neg (by simpa using hne)
    exact hinsert.trans h

theorem now_le_of_moves {s s' : TimedDispatcher Fl} {a : Action Fl} (hm : Moves timeout s a s') :
    s.now ≤ s'.now := by
  cases hm with
  | tick => exact Nat.le_succ s.now
  | setTimer => exact Nat.le_refl s.now
  | act => exact Nat.le_refl s.now

theorem due_iff {s : TimedDispatcher Fl} {k : Nat} :
    s.due k ↔ ∃ deadline, s.deadlines[k]? = some deadline ∧ deadline ≤ s.now := by
  unfold due
  cases s.deadlines[k]? <;> simp

/-- What was due stays due. -/
theorem due_stays {s s' : TimedDispatcher Fl} {a : Action Fl} (hm : Moves timeout s a s')
    {k : Nat} (h : s.due k) : s'.due k := by
  obtain ⟨deadline, hdeadline, hle⟩ := due_iff.mp h
  exact due_iff.mpr ⟨deadline, deadline_stays hm hdeadline, hle.trans (now_le_of_moves hm)⟩

end TimedDispatcher

/-! ## 2. No timer goes off early -/

/-- The timer of the call has gone off, or it has run out of time. -/
def View.timedOut (v : View) : Bool :=
  v.expired || v.stage = .resolved .elapsed || v.stage = .returned .elapsed

theorem Dispatcher.stageOf_of_send {d : Dispatcher Fl} {k : Nat} {send : SendFuture Fl}
    (hsend : d.sends[k]? = some send) : d.stageOf k = some send.stage := by
  rw [stageOf, hsend, Option.map_some]

/-- Only its timer makes a call run out of time. -/
theorem Dispatcher.Forward.timedOut {d : Dispatcher Fl} {k : Nat} {a : Dispatcher.Action Fl}
    {v v' : View} {frames : List Nat} (h : d.Forward k a v v' frames) (hout : v'.timedOut) :
    v.timedOut ∨ a = .timerExpires k := by
  cases h with
  | expires => exact Or.inr rfl
  | @resolves id expired arm helapsed =>
    refine Or.inl ?_
    cases arm <;> simp_all [View.timedOut]
  | @dropGuard t id stage ended expired hended =>
    refine Or.inl ?_
    cases stage <;> simp [Stage.ended] at hended <;> subst hended <;>
      simpa [View.timedOut] using hout
  | _ => exact Or.inl (by simpa [View.timedOut] using hout)

namespace TimedDispatcher

/-- What holds of the timers in every run. -/
structure Timely (timeout : Nat) (s : TimedDispatcher Fl) : Prop where
  /-- No timer runs for longer than the timeout. -/
  bounded : ∀ (k deadline : Nat), s.deadlines[k]? = some deadline → deadline ≤ s.now + timeout
  /-- None has gone off before its deadline. -/
  punctual : ∀ k v, s.dispatcher.views[k]? = some v → v.timedOut → s.due k

theorem timely_new : Timely timeout ({} : TimedDispatcher Fl) where
  bounded := by simp
  punctual := by simp [Dispatcher.views]

theorem Timely.step {s s' : TimedDispatcher Fl} {a : Action Fl} (h : s.Timely timeout)
    (hstep : TimedDispatcher.step timeout s a = some s') : s'.Timely timeout := by
  have hm := moves_of_step hstep
  refine ⟨fun k deadline hdeadline => ?_, ?_⟩
  · have hnow := now_le_of_moves hm
    rcases deadline_of_moves hm hdeadline with hbefore | ⟨-, rfl⟩
    · have hle := h.bounded k deadline hbefore
      omega
    · omega
  · intro k v hv hout
    have hbefore : ∀ v, s.dispatcher.views[k]? = some v → v.timedOut → s'.due k :=
      fun v hv hout => due_stays hm (h.punctual k v hv hout)
    cases hm with
    | tick => exact hbefore v hv hout
    | setTimer => exact hbefore v hv hout
    | @act a dispatcher hpermits hact =>
      rcases Dispatcher.views_of_moves (Dispatcher.moves_of_step hact) with ⟨_, -, -, hviews⟩ |
        ⟨j, w, w', hw, hforward, hviews⟩ | ⟨-, -, hviews⟩
      · rw [hviews, List.getElem?_append] at hv
        split at hv
        · exact hbefore v hv hout
        · obtain rfl := List.mem_singleton.mp (List.mem_of_getElem? hv)
          cases hout
      · rw [hviews] at hv
        by_cases hj : j = k
        · subst hj
          rw [List.getElem?_set_self (List.getElem?_eq_some_iff.mp hw).1] at hv
          obtain rfl := Option.some.inj hv
          rcases hforward.timedOut hout with hout | rfl
          · exact hbefore w hw hout
          · exact hpermits
        · rw [List.getElem?_set_ne hj] at hv
          exact hbefore v hv hout
      · exact hbefore v (hviews ▸ hv) hout

theorem timely_after {actions : List (Action Fl)} {s : TimedDispatcher Fl}
    (hrun : after timeout actions = some s) : s.Timely timeout :=
  run_invariant (fun _ _ _ hstep h => h.step hstep) hrun timely_new

/-- A call that has run out of time had a timer, and it was due. -/
theorem Timely.due_of_elapsed {s : TimedDispatcher Fl} (h : s.Timely timeout) {k : Nat}
    {send : SendFuture Fl} (hsend : s.dispatcher.sends[k]? = some send)
    (helapsed : send.stage = .resolved .elapsed ∨ send.stage = .returned .elapsed) : s.due k := by
  refine h.punctual k _ (Dispatcher.getElem?_views hsend) ?_
  rcases helapsed with hs | hs <;> simp [View.timedOut, SendFuture.view, hs]

/-! ## 3. When the dispatcher has settled -/

theorem framed_after {actions : List (Action Fl)} {s : TimedDispatcher Fl}
    (hrun : after timeout actions = some s) : s.dispatcher.Framed := by
  obtain ⟨steps, hsteps⟩ := dispatcher_of_run hrun
  exact Dispatcher.framed_after hsteps

/-- When the dispatcher has settled the lock is free, and a call that is not over waits for the
engine and still has time. -/
theorem Settled.waiting {s : TimedDispatcher Fl} (h : s.Settled timeout)
    (hframed : s.dispatcher.Framed) : s.dispatcher.frames = [] ∧
      ∀ (k : Nat) (send : SendFuture Fl), s.dispatcher.sends[k]? = some send → send.stage.over ∨
        send.stage = .awaiting ∧ send.channel.poll = .pending ∧
          ∃ deadline, s.deadlines[k]? = some deadline ∧ s.now < deadline := by
  have hidle : ∀ a, s.dispatcher.unaided a → s.permits a → s.dispatcher.step a = none := by
    intro a ha hpermits
    have hstep := h (.act a) ha rfl
    rwa [step, if_pos hpermits, Option.map_eq_none_iff] at hstep
  have hnone : ¬ ∃ a, s.dispatcher.unaided a ∧ a.atAwait = false ∧
      (s.dispatcher.step a).isSome := by
    rintro ⟨a, ha, hawait, hstep⟩
    have hpermits : s.permits a := by cases a <;> first | rfl | cases hawait
    simp [hidle a ha hpermits] at hstep
  have hfree : s.dispatcher.frames = [] := by
    cases hframes : s.dispatcher.frames with
    | nil => rfl
    | cons k _ =>
      exact absurd (Dispatcher.exists_step_of_top hframed (k := k) (by rw [hframes]; rfl)) hnone
  refine ⟨hfree, fun k send hsend => ?_⟩
  by_cases hwaits : send.stage = .awaiting
  · obtain ⟨hpoll, hexpires⟩ := Dispatcher.step_of_awaiting hsend hwaits
    cases hdeadline : s.deadlines[k]? with
    | none =>
      have hstage := Dispatcher.stageOf_of_send hsend
      rw [hwaits] at hstage
      have hset := h (.setTimer k) rfl rfl
      rw [step, if_pos ⟨hstage, hdeadline⟩] at hset
      cases hset
    | some deadline =>
      have hpolled : s.dispatcher.unaided (.poll k) = false := by
        refine eq_false_of_ne_true fun ha => ?_
        have hpermits : s.permits (.poll k) := by rw [permits, hdeadline]; rfl
        cases hpoll.symm.trans (hidle _ ha hpermits)
      have hrings : s.dispatcher.unaided (.timerExpires k) → s.permits (.timerExpires k) = false :=
        fun ha => eq_false_of_ne_true fun hpermits => by
          cases hexpires.symm.trans (hidle _ ha hpermits)
      simp only [Dispatcher.unaided, hsend, Option.any_some, Bool.or_eq_false_iff] at hpolled
      obtain ⟨hexpired, hpending⟩ := hpolled
      have hnotdue := hrings (by simp [Dispatcher.unaided, hsend, hexpired])
      rw [permits, due, hdeadline, Option.any_some] at hnotdue
      exact Or.inr ⟨hwaits, by simpa using hpending, deadline, rfl, by simpa using hnotdue⟩
  · cases hover : send.stage.over with
    | true => exact Or.inl rfl
    | false =>
      exact absurd (Dispatcher.exists_step_of_free hframed hfree hsend hover hwaits) hnone

/-! ## 4. Timed out in time -/

/-- A call that is over stays over. -/
theorem over_of_run {s s' : TimedDispatcher Fl} {actions : List (Action Fl)}
    (hrun : run (step timeout) s actions = some s') {k : Nat} {stage : Stage}
    (hstage : s.dispatcher.stageOf k = some stage) (hover : stage.over) :
    ∃ stage', s'.dispatcher.stageOf k = some stage' ∧ stage'.over := by
  obtain ⟨steps, hsteps⟩ := dispatcher_of_run hrun
  refine run_invariant (P := fun d => ∃ stage', d.stageOf k = some stage' ∧ stage'.over) ?_ hsteps
    ⟨stage, hstage, hover⟩
  rintro d a d' hstep ⟨stage, hstage, hover⟩
  have hadvances := Dispatcher.advances_of_moves (Dispatcher.moves_of_step hstep) k
  rw [hstage] at hadvances
  generalize hafter : d'.stageOf k = after at hadvances
  cases hadvances with
  | same => exact ⟨stage, rfl, hover⟩
  | enter | dispatch => cases hover
  | onwards _ _ hnot _ => cases hover.symm.trans hnot

/-- A timer that is set between two states goes off no sooner than `timeout` after the first. -/
theorem deadline_of_run {s s' : TimedDispatcher Fl} {actions : List (Action Fl)}
    (hrun : run (step timeout) s actions = some s') {k deadline : Nat}
    (hunset : s.deadlines[k]? = none) (h : s'.deadlines[k]? = some deadline) :
    s.now + timeout ≤ deadline := by
  refine (run_invariant (P := fun s' => s.now ≤ s'.now ∧
    ∀ deadline, s'.deadlines[k]? = some deadline → s.now + timeout ≤ deadline) ?_ hrun
    ⟨Nat.le_refl _, by simp [hunset]⟩).2 deadline h
  rintro m a m' hstep ⟨hnow, hset⟩
  have hm := moves_of_step hstep
  refine ⟨hnow.trans (now_le_of_moves hm), fun deadline hdeadline => ?_⟩
  rcases deadline_of_moves hm hdeadline with hbefore | ⟨-, rfl⟩
  · exact hset deadline hbefore
  · exact Nat.add_le_add_right hnow timeout

/-- The calls that have not set their timers. -/
def timersLeft (s : TimedDispatcher Fl) : Finset Nat :=
  (Finset.range s.dispatcher.sends.length).filter fun k => s.deadlines[k]? = none

/-- How many steps there are left for the calls there are. -/
def stepsLeft (s : TimedDispatcher Fl) : Nat := s.dispatcher.stepsLeft + s.timersLeft.card

theorem stepsLeft_le (s : TimedDispatcher Fl) :
    s.stepsLeft ≤ 7 * s.dispatcher.sends.length := by
  have hsteps := s.dispatcher.stepsLeft_le
  have htimers : s.timersLeft.card ≤ s.dispatcher.sends.length :=
    (Finset.card_filter_le _ _).trans_eq (Finset.card_range _)
  unfold stepsLeft
  omega

/-- **A step the dispatcher takes by itself is one step less**, whatever the clock does. -/
theorem stepsLeft_of_unaided {s s' : TimedDispatcher Fl} {a : Action Fl}
    (hstep : step timeout s a = some s') (ha : s.unaided a) :
    (if !a.isTick then 1 else 0) + s'.stepsLeft ≤ s.stepsLeft := by
  cases moves_of_step hstep with
  | tick => exact (Nat.zero_add _).le
  | @setTimer k hstage hnew =>
    have hmem : k ∈ s.timersLeft := by
      obtain ⟨send, hsend, -⟩ := Option.map_eq_some_iff.mp hstage
      exact Finset.mem_filter.mpr
        ⟨Finset.mem_range.mpr (List.getElem?_eq_some_iff.mp hsend).1, hnew⟩
    have hset : timersLeft { s with deadlines := s.deadlines.insert k (s.now + timeout) } =
        s.timersLeft.erase k := by
      ext j
      simp only [timersLeft, Finset.mem_filter, Finset.mem_erase, Std.ExtTreeMap.getElem?_insert,
        compare_eq_iff_eq]
      by_cases hj : k = j
      · simp [hj]
      · simp [hj, Ne.symm hj]
    have hless := Finset.card_erase_lt_of_mem hmem
    simp only [Action.isTick, stepsLeft, hset, Bool.not_false, if_true]
    omega
  | @act a d hpermits hact =>
    have hless := Dispatcher.stepsLeft_of_unaided hact ha
    have hlength : d.sends.length = s.dispatcher.sends.length := by
      have hviews : d.views.length = s.dispatcher.views.length := by
        rcases Dispatcher.views_of_moves (Dispatcher.moves_of_step hact) with ⟨_, rfl, _⟩ |
          ⟨_, _, _, _, _, hviews⟩ | ⟨_, _, hviews⟩
        · cases ha
        · rw [hviews, List.length_set]
        · rw [hviews]
      simpa [Dispatcher.views] using hviews
    simp only [Action.isTick, stepsLeft, timersLeft, hlength, Bool.not_false, if_true]
    omega

/-- **On time.**  Let a run go on from `m` to `s`.  A call that had not set its timer in `m` and has
run out of time in `s` has waited for the whole timeout between them.  If the dispatcher has
settled in `s`, a call that is not over waits for the engine and its time runs out at most `timeout`
from then; so if it had settled in `m` too, at least `timeout` earlier, all calls of `m` are over.
And if nothing was done from outside, it took at most seven steps a call between them, whatever the
clock did. -/
theorem timeouts_on_time {first rest : List (Action Fl)} {m s : TimedDispatcher Fl}
    (hfirst : after timeout first = some m) (hrest : run (step timeout) m rest = some s) :
    (∀ k stage, s.dispatcher.stageOf k = some stage → m.deadlines[k]? = none →
      stage = .resolved .elapsed ∨ stage = .returned .elapsed → m.now + timeout ≤ s.now) ∧
    (s.Settled timeout → s.dispatcher.frames = [] ∧
      (∀ (k : Nat) (send : SendFuture Fl), s.dispatcher.sends[k]? = some send →
        send.stage.over ∨ send.stage = .awaiting ∧ send.channel.poll = .pending ∧
          ∃ deadline, s.deadlines[k]? = some deadline ∧ s.now < deadline ∧
            deadline ≤ s.now + timeout) ∧
      (m.Settled timeout → m.now + timeout ≤ s.now → ∀ k < m.dispatcher.sends.length,
        ∃ stage, s.dispatcher.stageOf k = some stage ∧ stage.over)) ∧
    (guarded (step timeout) unaided m rest →
      rest.countP (fun a => !a.isTick) ≤ 7 * m.dispatcher.sends.length) := by
  have hall : after timeout (first ++ rest) = some s := run_append.mpr ⟨m, hfirst, hrest⟩
  have htimely := timely_after hall
  refine ⟨fun k stage hstage hunset helapsed => ?_, fun hsettled => ?_, fun hunaided => ?_⟩
  · obtain ⟨send, hsend, rfl⟩ := Option.map_eq_some_iff.mp hstage
    obtain ⟨deadline, hdeadline, hle⟩ := due_iff.mp (htimely.due_of_elapsed hsend helapsed)
    exact (deadline_of_run hrest hunset hdeadline).trans hle
  · obtain ⟨hfree, hwaiting⟩ := hsettled.waiting (framed_after hall)
    refine ⟨hfree, fun k send hsend => ?_, fun hsettledm hpassed k hk => ?_⟩
    · refine (hwaiting k send hsend).imp_right ?_
      rintro ⟨hs, hpending, deadline, hdeadline, hlt⟩
      exact ⟨hs, hpending, deadline, hdeadline, hlt, htimely.bounded k deadline hdeadline⟩
    · have hsend := List.getElem?_eq_getElem hk
      rcases (hsettledm.waiting (framed_after hfirst)).2 k _ hsend with hover |
        ⟨-, -, deadline, hset, -⟩
      · exact over_of_run hrest (Dispatcher.stageOf_of_send hsend) hover
      · -- its timer was set, and has gone off since
        have hstill : s.deadlines[k]? = some deadline :=
          run_invariant (P := fun s => s.deadlines[k]? = some deadline)
            (fun _ _ _ hstep h => deadline_stays (moves_of_step hstep) h) hrest hset
        have hbound := (timely_after hfirst).bounded k deadline hset
        obtain ⟨later, hlater⟩ := dispatcher_of_run hrest
        have hlast := List.getElem?_eq_getElem (hk.trans_le (Dispatcher.length_le_of_run hlater))
        rcases hwaiting k _ hlast with hover | ⟨-, -, deadline', hset', hlt⟩
        · exact ⟨_, Dispatcher.stageOf_of_send hlast, hover⟩
        · obtain rfl := Option.some.inj (hstill.symm.trans hset')
          omega
  · have hcount : rest.countP (fun a => !a.isTick) + s.stepsLeft ≤ m.stepsLeft :=
      guarded_pays (fun _ _ _ hstep ha => stepsLeft_of_unaided hstep ha) hrest hunaided
    have hle := m.stepsLeft_le
    omega

/-- The engine does not answer. -/
theorem timeouts_on_time_sample :
    let first : List (Action Floats.bits) :=
      [.tick, .act (.allocate .sample), .act (.enter 0 0), .act (.dispatch 0), .tick,
        .act (.dispatchReturns 0)]
    let rest : List (Action Floats.bits) :=
      [.setTimer 0, .tick, .tick, .act (.timerExpires 0), .tick, .act (.poll 0),
        .act (.dropGuard 0 0)]
    ∃ m s, after 2 first = some m ∧ run (step 2) m rest = some s ∧
      s.dispatcher.stageOf 0 = some (.returned .elapsed) ∧ m.now + 2 ≤ s.now ∧
      rest.countP (fun a => !a.isTick) ≤ 7 * m.dispatcher.sends.length := by
  intro first rest
  have hfirst : after 2 first = some ((after 2 first).get rfl) := rfl
  have hrest : run (step 2) ((after 2 first).get rfl) rest = some _ := rfl
  have h := timeouts_on_time hfirst hrest
  exact ⟨_, _, hfirst, hrest, rfl, h.1 0 _ rfl rfl (Or.inr rfl), h.2.2 rfl⟩

end TimedDispatcher

end MinervaServer
