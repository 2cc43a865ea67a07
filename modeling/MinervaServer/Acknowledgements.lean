/-
# Acknowledged in time

`complete` answers `true` when it takes an entry, and then the caller has the outcome, unless its
time has run out (`Outcomes`).  When does an acknowledgement come in time?

* `acknowledged_in_time`: before the deadline of its call, and not between the two reads of a poll.
  Then it is never lost, whatever happens afterwards.
* `lost_between_reads`: between the two reads it may be, however early it comes.

So the window in which the answer `true` means nothing opens at the deadline, or with a poll that
goes on to read the timer after it.  The first result is proved of the dispatcher whose polls are
one step (`Life.Kept`), and carried over by `Polling.answers`.
-/
import MinervaServer.Outcomes
import MinervaServer.Polling
import MinervaServer.Reentrancy

namespace MinervaServer

open Lib

variable {Fl : Floats}

/-! ## 1. The life of a call that was acknowledged in time -/

namespace Life

/-- Nothing that was observed is forgotten. -/
theorem Step.mem_history {k : Nat} {l l' : Life Fl} {a : Dispatcher.Action Fl}
    (h : l.Step k a l') {moment : Moment} (hmem : moment ∈ l.history) : moment ∈ l'.history := by
  cases h with
  | enter | dispatch | complete | cancelAll => exact List.mem_append_left _ hmem
  | dropGuard => exact List.mem_append_left _ (List.mem_append_left _ hmem)
  | dispatchReturns | dispatchPanics | timerExpires | poll | dropFuture => exact hmem

/-- The call was acknowledged with this outcome, and its time had not run out. -/
def Kept (outcome : CommandOutcome) (l : Life Fl) : Prop :=
  .taken (.completed outcome) ∈ l.history ∧ l.Agrees

/-- An acknowledgement that came in time stays so: there is no entry left for a late one. -/
theorem Kept.step {outcome : CommandOutcome} {k : Nat} {l l' : Life Fl}
    {a : Dispatcher.Action Fl} (h : l.Kept outcome) (hsound : l.Sound) (hstep : l.Step k a l') :
    l'.Kept outcome := by
  obtain ⟨htaken, hagrees⟩ := h
  have hgone : l.held ≠ true := by
    intro hheld
    have htakes := (hsound.held_iff.mp hheld).2
    rw [takes, List.filterMap_eq_nil_iff] at htakes
    cases htakes _ htaken
  exact ⟨hstep.mem_history htaken,
    hagrees.step hsound hstep fun _ _ _ _ hheld => absurd hheld hgone⟩

/-- What becomes of a call that was acknowledged in time. -/
theorem Kept.stage {outcome : CommandOutcome} {l : Life Fl} (h : l.Kept outcome)
    (hsound : l.Sound) :
    (∀ outcome', .returned outcome' ∈ l.history → outcome' = outcome) ∧
    l.send.stage ≠ .resolved .elapsed ∧ l.send.stage ≠ .returned .elapsed ∧
    (l.send.stage = .awaiting → l.send.channel.poll = .ready outcome) ∧
    (l.send.stage.over → l.send.stage = .returned (.delivered outcome) ∨
      l.send.stage = .panicked ∨ l.send.stage = .dropped) := by
  obtain ⟨htaken, hagrees⟩ := h
  have hsame : ∀ {taken rest}, l.Taken taken rest → (∀ t, Moment.taken t ∉ rest) →
      taken = .completed outcome := by
    rintro taken rest ⟨-, hhistory⟩ hrest
    rw [hhistory] at htaken
    simpa [hrest, eq_comm] using htaken
  have hresolved : l.send.stage ≠ .resolved .elapsed := fun hs => hagrees (Or.inl hs) _ htaken
  have hreturned : l.send.stage ≠ .returned .elapsed := fun hs => hagrees (Or.inr hs) _ htaken
  refine ⟨fun outcome' hmem => ?_, hresolved, hreturned, fun hs => ?_, fun hover => ?_⟩
  · obtain ⟨arm, taken, hstage, -, hhistory, hfrom⟩ := hsound.of_returned hmem
    rw [hhistory] at htaken
    obtain rfl : taken = .completed outcome := by simpa [eq_comm] using htaken
    rcases hfrom with rfl | houtcome
    · exact absurd hstage hreturned
    · exact (Option.some.inj houtcome).symm
  · simp only [Sound, hs] at hsound
    rcases hsound with ⟨⟨-, hhistory⟩, -⟩ | ⟨taken, delivered, houtcome, hlife, hchannel⟩
    · simp [hhistory] at htaken
    · obtain rfl := hsame hlife (by simp)
      obtain rfl := Option.some.inj houtcome
      rw [hchannel]
      rfl
  · cases hs : l.send.stage with
    | returned arm =>
      cases arm with
      | delivered delivered =>
        simp only [Sound, hs] at hsound
        obtain ⟨taken, houtcome, hlife⟩ := hsound
        obtain rfl := hsame hlife (by simp)
        obtain rfl := Option.some.inj houtcome
        exact Or.inl rfl
      | senderDropped => simp only [Sound, hs] at hsound
      | elapsed => exact absurd hs hreturned
    | panicked => exact Or.inr (Or.inl rfl)
    | dropped => exact Or.inr (Or.inr rfl)
    | _ => simp [hs, Stage.over] at hover

end Life

namespace Dispatcher

/-- **A life over a run.**  What every step of a life preserves, every run preserves of it. -/
theorem life_of_run {P : Life Fl → Prop}
    (hP : ∀ k l l' a, P l → l.Sound → l.Step k a l' → P l') {d d' : Dispatcher Fl}
    {actions : List (Action Fl)} (hrun : run step d actions = some d') (h : Inv d)
    (hfew : d'.sends.length < 2 ^ 64) {k : Nat} {l : Life Fl} (hl : d.life k = some l) (hp : P l) :
    ∃ l', d'.life k = some l' ∧ l'.send.id = l.send.id ∧ P l' := by
  refine (run_invariant
    (P := fun d => d.sends.length < 2 ^ 64 →
      Inv d ∧ ∃ l', d.life k = some l' ∧ l'.send.id = l.send.id ∧ P l')
    ?_ hrun (fun _ => ⟨h, l, hl, rfl, hp⟩) hfew).2
  intro d a d' hstep h hfew
  have hm := moves_of_step hstep
  obtain ⟨hinv, l, hl, hid, hp⟩ := h ((length_le_of_moves hm).trans_lt hfew)
  obtain ⟨l', hl', hlife⟩ := life_step hinv hfew hm hl
  refine ⟨hinv.step hfew hm, l', hl', ?_⟩
  rcases hlife with rfl | hlife
  · exact ⟨hid, hp⟩
  · exact ⟨hlife.id_eq.trans hid, hP _ _ _ _ hp (hinv.sound k l hl) hlife⟩

/-- A `complete` that answers `true` takes the entry of the call with that id. -/
theorem life_of_complete {d d' : Dispatcher Fl} {t : ThreadId} {id : CommandId}
    {outcome : CommandOutcome} (h : Inv d) (hfew : d.sends.length < 2 ^ 64)
    (hanswer : (d.complete id outcome).2 = true) (hm : Moves d (.complete t id outcome) d') :
    ∃ k send, d.sends[k]? = some send ∧ send.id = id ∧
      d'.life k = some ((d.lifeOf k send).take (.completed outcome) outcome) := by
  rcases moves_one h hfew hm with ⟨_, ha⟩ | ⟨_, _, ha⟩ | ⟨_, _, _, ha, hnone⟩ |
    ⟨k, send, l, hsend, honly, hlife⟩
  · cases ha
  · cases ha
  · cases ha
    rw [complete, hnone] at hanswer
    cases hanswer
  · cases hlife with
    | complete => exact ⟨k, send, hsend, rfl, honly.here⟩

/-- And what becomes of that call, if its time had not run out. -/
theorem kept_of_complete {d d' e : Dispatcher Fl} {t : ThreadId} {id : CommandId}
    {outcome : CommandOutcome} {later : List (Action Fl)} (h : Inv d)
    (hm : Moves d (.complete t id outcome) d') (hlater : run step d' later = some e)
    (hfew : e.sends.length < 2 ^ 64) (hanswer : (d.complete id outcome).2 = true) :
    ∃ k send, d.sends[k]? = some send ∧ send.id = id ∧
      (send.stage ≠ .resolved .elapsed → send.stage ≠ .returned .elapsed →
        ∃ l, e.life k = some l ∧ l.send.id = id ∧ l.Kept outcome ∧ l.Sound) := by
  have hfew' := (length_le_of_run hlater).trans_lt hfew
  obtain ⟨k, send, hsend, rfl, hl⟩ :=
    life_of_complete h ((length_le_of_moves hm).trans_lt hfew') hanswer hm
  refine ⟨k, send, hsend, rfl, fun hresolved hreturned => ?_⟩
  have hkept : ((d.lifeOf k send).take (.completed outcome) outcome).Kept outcome :=
    ⟨by simp [Life.take], fun helapsed => absurd helapsed (not_or.mpr ⟨hresolved, hreturned⟩)⟩
  have hinv := h.step hfew' hm
  obtain ⟨l, hl, hid, hkept⟩ := life_of_run (P := Life.Kept outcome)
    (fun _ _ _ _ hp hsound hstep => hp.step hsound hstep) hlater hinv hfew hl hkept
  exact ⟨l, hl, hid, hkept, (inv_of_run hlater (fun _ => hinv) hfew).sound k l hl⟩

end Dispatcher

namespace Polling

/-! ## 2. Acknowledged in time -/

variable {timeout : Nat}

/-- An acknowledgement is one in the dispatcher with polls of one step. -/
theorem answer_complete {m m' : Polling Fl} {t : ThreadId} {id : CommandId}
    {outcome : CommandOutcome} {rest : List (Action Fl)} {d : Dispatcher Fl}
    (hstep : step timeout m (.act (.act (.complete t id outcome))) = some m')
    (h : Dispatcher.Alike (Doomed timeout (.act (.act (.complete t id outcome)) :: rest) m)
      m.dispatcher d) :
    ∃ d', Dispatcher.Moves d (.complete t id outcome) d' ∧
      Dispatcher.Alike (Doomed timeout rest m') m'.dispatcher d' := by
  cases moves_of_step hstep with
  | act hallows htimed =>
    cases TimedDispatcher.moves_of_step htimed with
    | act hpermits hact =>
      rcases h.step (Dispatcher.moves_of_step hact) nofun nofun with ⟨d', hd', hafter⟩ | ⟨k, hk, -⟩
      · exact ⟨d', Dispatcher.moves_of_step hd',
          hafter.congr fun _ => doomed_cons hstep nofun Iff.rfl⟩
      · cases hk

/-- A call whose timer is not due, and which no poll is about to end, has not run out of time. -/
theorem agrees_of_intime {actions rest : List (Action Fl)} {m : Polling Fl} {d : Dispatcher Fl}
    (hrun : after timeout actions = some m)
    (h : Dispatcher.Alike (Doomed timeout rest m) m.dispatcher d) {k : Nat} {send : SendFuture Fl}
    (hsend : d.sends[k]? = some send) (hdue : m.timed.due k = false) (hreading : k ∉ m.reading) :
    send.stage ≠ .resolved .elapsed ∧ send.stage ≠ .returned .elapsed := by
  have hstage := h.stageOf_eq fun hdoomed : Doomed timeout rest m k => hreading hdoomed.1
  rw [Dispatcher.stageOf_of_send hsend] at hstage
  obtain ⟨sent, hsent, hsame⟩ := Option.map_eq_some_iff.mp hstage.symm
  rw [← hsame, ← not_or]
  intro helapsed
  cases hdue.symm.trans ((timely_after hrun).due_of_elapsed hsent helapsed)

/-- **In time is in time.**  Let `complete` answer `true` for an id at a moment when the timer of
its call was not due, and no poll of the call was between its two reads.  Whatever happens
afterwards, the call returns nothing but that outcome, and does not run out of time; and when the
dispatcher has settled, it has returned the outcome, unless it panicked or was dropped. -/
theorem acknowledged_in_time {first rest : List (Action Fl)} {m s : Polling Fl}
    {t : ThreadId} {id : CommandId} {outcome : CommandOutcome}
    (hfirst : after timeout first = some m)
    (hrun : after timeout (first ++ .act (.act (.complete t id outcome)) :: rest) = some s)
    (hfew : s.dispatcher.sends.length < 2 ^ 64)
    (hanswer : (m.dispatcher.complete id outcome).2 = true)
    (hintime : ∀ k send, m.dispatcher.sends[k]? = some send → send.id = id →
      m.timed.due k = false ∧ k ∉ m.reading) :
    (∀ outcome', .returned id outcome' ∈ s.dispatcher.trace → outcome' = outcome) ∧
    ∃ send ∈ s.dispatcher.sends, send.id = id ∧
      send.stage ≠ .resolved .elapsed ∧ send.stage ≠ .returned .elapsed ∧
      (s.Settled timeout → send.stage = .returned (.delivered outcome) ∨
        send.stage = .panicked ∨ send.stage = .dropped) := by
  have hframed := framed_after hrun
  obtain ⟨m₁, hm₁, hrun⟩ := run_append.mp hrun
  obtain rfl := Option.some.inj (hfirst.symm.trans hm₁)
  rw [run_cons, Option.bind_eq_some_iff] at hrun
  obtain ⟨m', hm', hrest⟩ := hrun
  -- the dispatcher with polls of one step, at the acknowledgement, after it and at the end
  obtain ⟨before, d, hbefore, hd⟩ :=
    answers hfirst (alike_new (first ++ .act (.act (.complete t id outcome)) :: (rest ++ [])))
  obtain ⟨d', hmoves, hd'⟩ := answer_complete hm' hd
  obtain ⟨later, e, hlater, he⟩ := answers hrest hd'
  rw [← he.sends.length_eq] at hfew
  have hfewd := (Dispatcher.length_le_of_moves hmoves).trans_lt
    ((Dispatcher.length_le_of_run hlater).trans_lt hfew)
  rw [← (hd.complete id outcome).2] at hanswer
  obtain ⟨k, send, hsend, rfl, hkept⟩ := Dispatcher.kept_of_complete
    (Dispatcher.inv_after hbefore hfewd) hmoves hlater hfew hanswer
  obtain ⟨sent, hsent, hsame⟩ := hd.sends.of_some_right hsend
  obtain ⟨hdue, hreading⟩ := hintime k sent hsent hsame.id_eq.symm
  obtain ⟨hresolved, hreturned⟩ := agrees_of_intime hfirst hd hsend hdue hreading
  obtain ⟨l, hl, hid, hkept, hsound⟩ := hkept hresolved hreturned
  obtain ⟨there, hthere, rfl⟩ := Option.map_eq_some_iff.mp hl
  obtain ⟨hreturned, hresolved, helapsed, hwaits, hover⟩ := hkept.stage hsound
  -- and where it is, the call is in the run with two reads
  obtain ⟨last, hlast, halike⟩ := he.sends.of_some_right hthere
  have hstage := halike.stage_eq (not_doomed_nil s k)
  have hid : last.id = send.id := halike.id_eq.symm.trans hid
  rw [← hid]
  refine ⟨fun outcome' hmem => hreturned outcome' (returned_mem.mpr ?_), last,
    List.mem_of_getElem? hlast, rfl, hstage ▸ hresolved, hstage ▸ helapsed, fun hsettled => ?_⟩
  · rw [he.trace]
    exact halike.id_eq ▸ hmem
  · rw [← hstage]
    apply hover
    rcases (hsettled.timed.waiting hframed).2 k last hlast with hover | ⟨hs, hpending, -⟩
    · exact hstage ▸ hover
    · obtain ⟨-, rfl⟩ := halike.eq_of_stage (fun hdoomed => absurd hdoomed (not_doomed_nil s k))
        (by simp [hs]) (by simp [hs])
      cases hpending.symm.trans (hwaits hs)

/-- The engine acknowledges when a poll has read the channel and the timer, and has waited on; the
next poll is one after the timer has gone off. -/
theorem acknowledged_in_time_sample :
    let first : List (Action Floats.bits) :=
      [.act (.act (.allocate .sample)), .act (.act (.enter 0 0)), .act (.act (.dispatch 0)),
        .act (.act (.dispatchReturns 0)), .act (.setTimer 0), .readReceiver 0, .readTimer 0,
        .act .tick]
    let rest : List (Action Floats.bits) :=
      [.act .tick, .act (.act (.timerExpires 0)), .readReceiver 0, .act (.act (.dropGuard 1 0))]
    ∃ s, after 2 (first ++ .act (.act (.complete 1 ⟨0⟩ .success)) :: rest) = some s ∧
      .returned ⟨0⟩ .success ∈ s.dispatcher.trace ∧
      ∀ outcome', .returned ⟨0⟩ outcome' ∈ s.dispatcher.trace → outcome' = .success := by
  intro first rest
  have hfirst : after 2 first = some _ := rfl
  have hrun : after 2 (first ++ .act (.act (.complete 1 ⟨0⟩ .success)) :: rest) = some _ := rfl
  refine ⟨_, hrun, by decide, (acknowledged_in_time hfirst hrun (by decide) rfl ?_).1⟩
  intro k send hsend hid
  cases k with
  | zero => exact ⟨rfl, by decide⟩
  | succ k => cases hsend

/-! ## 3. Acknowledged between the reads -/

/-- The calls that are being polled wait, and have a timer. -/
def Waiting (s : Polling Fl) : Prop :=
  ∀ k ∈ s.reading, s.dispatcher.stageOf k = some .awaiting ∧ s.timed.deadlines[k]?.isSome

theorem Waiting.step {s s' : Polling Fl} {a : Action Fl} (h : s.Waiting)
    (hstep : Polling.step timeout s a = some s') : s'.Waiting := by
  cases moves_of_step hstep with
  | @act a timed hallows htimed =>
    intro k hk
    obtain ⟨hstage, hdeadline⟩ := h k hk
    have hm := TimedDispatcher.moves_of_step htimed
    obtain ⟨deadline, hdeadline⟩ := Option.isSome_iff_exists.mp hdeadline
    have hstays := TimedDispatcher.deadline_stays hm hdeadline
    refine ⟨?_, Option.isSome_iff_exists.mpr ⟨deadline, hstays⟩⟩
    cases hm with
    | tick | setTimer => exact hstage
    | @act a d hpermits hact =>
      refine Dispatcher.awaiting_stays (Dispatcher.moves_of_step hact) hstage ?_ ?_
      · rintro rfl
        cases hallows
      · rintro rfl
        have hk : k ∈ s.reading := hk
        simp [allows, hk] at hallows
  | @reads k send hsend hstage htimer hnew hpending =>
    intro j hj
    rcases Finset.mem_insert.mp hj with rfl | hj
    · exact ⟨(Dispatcher.stageOf_of_send hsend).trans (congrArg some hstage), htimer⟩
    · exact h j hj
  | @resolves k send hsend hstage htimer hnew hready =>
    intro j hj
    have hne : k ≠ j := fun heq => hnew (heq ▸ hj)
    exact ⟨(Dispatcher.stageOf_modifySend_ne s.dispatcher hne _).trans (h j hj).1, (h j hj).2⟩
  | @elapses k hreading hexpired =>
    intro j hj
    obtain ⟨hne, hj⟩ := Finset.mem_erase.mp hj
    exact ⟨(Dispatcher.stageOf_modifySend_ne s.dispatcher hne.symm _).trans (h j hj).1, (h j hj).2⟩
  | waits => exact fun j hj => h j (Finset.mem_of_mem_erase hj)

theorem waiting_after {actions : List (Action Fl)} {s : Polling Fl}
    (hrun : after timeout actions = some s) : s.Waiting :=
  run_invariant (fun _ _ _ hstep h => Waiting.step h hstep) hrun (by simp [Waiting])

theorem run_ticks (s : Polling Fl) (n : Nat) :
    run (step timeout) s (List.replicate n (.act .tick)) =
      some { s with timed := { s.timed with now := s.timed.now + n } } := by
  induction n generalizing s with
  | zero => rfl
  | succ n ih =>
    have htick : step timeout s (.act .tick) =
        some { s with timed := { s.timed with now := s.timed.now + 1 } } := rfl
    rw [List.replicate_succ, run_cons, htick, Option.bind_some, ih]
    simp only [Nat.add_assoc, Nat.add_comm 1]

theorem step_act {s : Polling Fl} {a : Dispatcher.Action Fl} {d : Dispatcher Fl}
    (hallows : s.allows (.act a)) (hpermits : s.timed.permits a)
    (hact : s.dispatcher.step a = some d) :
    step timeout s (.act (.act a)) =
      some { s with timed := { s.timed with dispatcher := d } } := by
  rw [step, if_pos hallows, TimedDispatcher.step, if_pos hpermits, hact]
  rfl

/-- A poll between its reads ends the wait, if its timer goes off before the second. -/
theorem run_elapses {s : Polling Fl} {k : Nat} {send : SendFuture Fl}
    (hsend : s.dispatcher.sends[k]? = some send) (hstage : send.stage = .awaiting)
    (hdue : s.timed.due k) (hreading : k ∈ s.reading) :
    run (step timeout) s [.act (.act (.timerExpires k)), .readTimer k] =
      some (modifySend { s with reading := s.reading.erase k } k
        (SendFuture.elapse ∘ SendFuture.expire)) := by
  have hexpires : step timeout s (.act (.act (.timerExpires k))) =
      some (s.modifySend k SendFuture.expire) :=
    step_act rfl hdue (by rw [Dispatcher.step, hsend, Option.bind_some, if_pos hstage])
  have hexpired : (s.modifySend k SendFuture.expire).expired k = true :=
    expired_iff.mpr ⟨_, Dispatcher.getElem?_modifySend_self hsend _, rfl⟩
  have hread : step timeout (s.modifySend k SendFuture.expire) (.readTimer k) =
      some (modifySend { s.modifySend k SendFuture.expire with reading := s.reading.erase k } k
        SendFuture.elapse) := by
    have hreading : k ∈ (s.modifySend k SendFuture.expire).reading := hreading
    rw [step, if_pos hreading]
    exact congrArg some (if_pos hexpired)
  rw [run_cons, hexpires, Option.bind_some, run_cons, hread, Option.bind_some, run_nil]
  simp only [modifySend, dispatcher, Dispatcher.modifySend_modifySend]

/-- And the call returns a timeout, on every thread that may take the lock. -/
theorem run_returns {s : Polling Fl} {k : Nat} {send : SendFuture Fl} {t : ThreadId}
    (hsend : s.dispatcher.sends[k]? = some send) (hstage : send.stage = .awaiting)
    (hdue : s.timed.due k) (hreading : k ∈ s.reading) (hlock : s.dispatcher.mayLock t) :
    ∃ rest s', run (step timeout) s rest = some s' ∧
      .returned send.id .timeout ∈ s'.dispatcher.trace := by
  have helapsed := Dispatcher.getElem?_modifySend_self hsend (SendFuture.elapse ∘ SendFuture.expire)
  -- the calls in their critical sections are others
  have hfree : (s.dispatcher.modifySend k (SendFuture.elapse ∘ SendFuture.expire)).mayLock t :=
    Dispatcher.mayLock_iff.mpr fun j hj =>
      (Dispatcher.mayLock_iff.mp hlock j hj).imp id
        (Dispatcher.dispatching_modifySend hsend (by simp [hstage]) _)
  have hdrop : Dispatcher.step
      (s.dispatcher.modifySend k (SendFuture.elapse ∘ SendFuture.expire)) (.dropGuard t k) =
      some ((s.dispatcher.modifySend k (SendFuture.elapse ∘ SendFuture.expire)).cleanUp k send.id
        (.returned .elapsed)) := by
    rw [Dispatcher.step, helapsed, Option.bind_some]
    exact if_pos hfree
  obtain ⟨s', hs', htrace⟩ : ∃ s', step timeout (modifySend { s with
      reading := s.reading.erase k } k (SendFuture.elapse ∘ SendFuture.expire))
        (.act (.act (.dropGuard t k))) = some s' ∧
      .returned send.id .timeout ∈ s'.dispatcher.trace :=
    ⟨_, step_act rfl rfl hdrop, by simp [Dispatcher.cleanUp, Stage.result, Arm.outcome,
      CommandOutcome.timeout]⟩
  refine ⟨[.act (.act (.timerExpires k)), .readTimer k] ++ [.act (.act (.dropGuard t k))], s',
    run_append.mpr ⟨_, run_elapses hsend hstage hdue hreading, ?_⟩, htrace⟩
  rw [run_cons, hs', Option.bind_some, run_nil]

/-- **In time, and lost.**  An acknowledgement that comes between the two reads of a poll of its
call may be lost, however early it comes: the run can go on such that the call returns a timeout. -/
theorem lost_between_reads {first : List (Action Fl)} {m m' : Polling Fl} {t : ThreadId} {k : Nat}
    {send : SendFuture Fl} {outcome : CommandOutcome} (hfirst : after timeout first = some m)
    (hstep : step timeout m (.act (.act (.complete t send.id outcome))) = some m')
    (hsend : m.dispatcher.sends[k]? = some send) (hreading : k ∈ m.reading) :
    ∃ rest s, run (step timeout) m' rest = some s ∧
      .returned send.id .timeout ∈ s.dispatcher.trace := by
  have hcompleted : m'.reading = m.reading ∧ m.dispatcher.Resumes m'.dispatcher ∧
      m.dispatcher.mayLock t ∧
      m'.dispatcher.sends.map SendFuture.id = m.dispatcher.sends.map SendFuture.id := by
    cases moves_of_step hstep with
    | act hallows htimed =>
      cases TimedDispatcher.moves_of_step htimed with
      | act hpermits hact =>
        cases Dispatcher.moves_of_step hact with
        | complete hlock =>
          exact ⟨rfl, Dispatcher.resumes_complete hlock _ _, hlock,
            Dispatcher.map_complete (by intros; rfl) _ _ _⟩
  obtain ⟨hreading', hresumes, hlock, hids⟩ := hcompleted
  obtain ⟨sent, hsent, hid⟩ := Dispatcher.exists_of_map hids hsend
  obtain ⟨hstage, hdeadline⟩ := (waiting_after hfirst).step hstep k (hreading' ▸ hreading)
  obtain ⟨deadline, hdeadline⟩ := Option.isSome_iff_exists.mp hdeadline
  rw [Dispatcher.stageOf_of_send hsent] at hstage
  -- wait for the deadline
  obtain ⟨rest, s, hrest, hreturned⟩ := run_returns
    (s := { m' with timed := { m'.timed with now := m'.timed.now + deadline } }) hsent
    (Option.some.inj hstage)
    (TimedDispatcher.due_iff.mpr ⟨deadline, hdeadline, Nat.le_add_left _ _⟩)
    (hreading' ▸ hreading) (hresumes.mayLock hlock)
  exact ⟨_, s, run_append.mpr ⟨_, run_ticks m' deadline, hrest⟩, hid ▸ hreturned⟩

/-- Such as an acknowledgement at the first poll, with all of the timeout still to go. -/
example :
    let first : List (Action Floats.bits) :=
      [.act (.act (.allocate .sample)), .act (.act (.enter 0 0)), .act (.act (.dispatch 0)),
        .act (.act (.dispatchReturns 0)), .act (.setTimer 0), .readReceiver 0]
    ∃ m, after 2 first = some m ∧ 0 ∈ m.reading ∧ m.timed.due 0 = false ∧
      (m.dispatcher.complete ⟨0⟩ .success).2 = true :=
  ⟨_, rfl, by decide, rfl, rfl⟩

end Polling

end MinervaServer
