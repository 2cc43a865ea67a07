/-
# A poll reads twice

`timeout(self.timeout, rx)` is polled in two reads: the channel, and if there is nothing in it the
timer.  No lock is held between them, so an acknowledgement may come in between.  In `Dispatcher` a
poll is one step.  Here it is two.

* `dispatcher_of_run`: to the engine and to the callers that makes no difference.  Every run is one
  of the dispatcher's, with the same trace, the same entries and the calls at the same stages; a
  poll that ends the wait is one step there, at the moment at which it reads the channel.
* `run_of_timed`: and the other way round, every timed run is a run with the two reads one after
  the other.

What becomes of a poll is decided by its second read, which is still to come when it makes its
first.  So the first result looks ahead (`Doomed`, `run_foresight`).
-/
import MinervaServer.Deadlines

namespace MinervaServer

open Lib

variable {Fl : Floats}

/-! ## 1. The two reads -/

/-- A timed dispatcher, with the polls that are under way. -/
structure Polling (Fl : Floats) where
  timed : TimedDispatcher Fl := {}
  /-- The calls of which a poll has found the channel empty and has not read the timer. -/
  reading : Finset Nat := ∅

/-- The await resolves because the time has run out. -/
def SendFuture.elapse (send : SendFuture Fl) : SendFuture Fl :=
  send.dropReceiver.enter (.resolved .elapsed)

namespace Polling

abbrev dispatcher (s : Polling Fl) : Dispatcher Fl := s.timed.dispatcher

inductive Action (Fl : Floats) where
  | act (a : TimedDispatcher.Action Fl)
  /-- A poll of the call `k` begins, and reads the channel. -/
  | readReceiver (k : Nat)
  /-- It has found nothing there, and reads the timer. -/
  | readTimer (k : Nat)

/-- A future is not dropped while it is polled, and a poll is not one step. -/
def allows (s : Polling Fl) : TimedDispatcher.Action Fl → Bool
  | .act (.poll _) => false
  | .act (.dropFuture k) => k ∉ s.reading
  | _ => true

/-- The timer of the call `k` has gone off. -/
def expired (s : Polling Fl) (k : Nat) : Bool := s.dispatcher.sends[k]?.any SendFuture.expired

def modifySend (s : Polling Fl) (k : Nat) (f : SendFuture Fl → SendFuture Fl) : Polling Fl :=
  { s with timed := { s.timed with dispatcher := s.dispatcher.modifySend k f } }

/-- One step; `none`: it is not possible now. -/
def step (timeout : Nat) (s : Polling Fl) : Action Fl → Option (Polling Fl)
  | .act a =>
    if s.allows a then (TimedDispatcher.step timeout s.timed a).map fun timed => { s with timed }
    else none
  | .readReceiver k =>
    s.dispatcher.sends[k]?.bind fun send =>
      if send.stage = .awaiting ∧ s.timed.deadlines[k]?.isSome ∧ k ∉ s.reading then
        if send.channel.poll = .pending then some { s with reading := insert k s.reading }
        else some (s.modifySend k SendFuture.poll)
      else none
  | .readTimer k =>
    if k ∈ s.reading then
      let read := { s with reading := s.reading.erase k }
      some (if s.expired k then read.modifySend k SendFuture.elapse else read)
    else none

/-- The run of `actions` on a new dispatcher. -/
abbrev after (timeout : Nat) (actions : List (Action Fl)) : Option (Polling Fl) :=
  run (step timeout) {} actions

/-- What a step can do, each with what it takes. -/
inductive Moves (timeout : Nat) (s : Polling Fl) : Action Fl → Polling Fl → Prop where
  | act {a : TimedDispatcher.Action Fl} {timed : TimedDispatcher Fl} (hallows : s.allows a)
      (hstep : TimedDispatcher.step timeout s.timed a = some timed) :
      Moves timeout s (.act a) { s with timed }
  | reads {k : Nat} {send : SendFuture Fl} (hsend : s.dispatcher.sends[k]? = some send)
      (hstage : send.stage = .awaiting) (htimer : s.timed.deadlines[k]?.isSome)
      (hnew : k ∉ s.reading) (hpending : send.channel.poll = .pending) :
      Moves timeout s (.readReceiver k) { s with reading := insert k s.reading }
  | resolves {k : Nat} {send : SendFuture Fl} (hsend : s.dispatcher.sends[k]? = some send)
      (hstage : send.stage = .awaiting) (htimer : s.timed.deadlines[k]?.isSome)
      (hnew : k ∉ s.reading) (hready : send.channel.poll ≠ .pending) :
      Moves timeout s (.readReceiver k) (s.modifySend k SendFuture.poll)
  | elapses {k : Nat} (hreading : k ∈ s.reading) (hexpired : s.expired k = true) :
      Moves timeout s (.readTimer k)
        (modifySend { s with reading := s.reading.erase k } k SendFuture.elapse)
  | waits {k : Nat} (hreading : k ∈ s.reading) (hexpired : s.expired k = false) :
      Moves timeout s (.readTimer k) { s with reading := s.reading.erase k }

variable {timeout : Nat}

theorem expired_iff {s : Polling Fl} {k : Nat} :
    s.expired k = true ↔ ∃ send, s.dispatcher.sends[k]? = some send ∧ send.expired = true := by
  unfold expired
  cases s.dispatcher.sends[k]? <;> simp

/-- **What a step can do.** -/
theorem moves_of_step {s s' : Polling Fl} {a : Action Fl} (h : step timeout s a = some s') :
    Moves timeout s a s' := by
  cases a with
  | act a =>
    obtain ⟨hallows, h⟩ := Option.ite_none_right_eq_some.mp h
    obtain ⟨timed, hstep, rfl⟩ := Option.map_eq_some_iff.mp h
    exact .act hallows hstep
  | readReceiver k =>
    obtain ⟨send, hsend, h⟩ := Option.bind_eq_some_iff.mp h
    obtain ⟨⟨hstage, htimer, hnew⟩, h⟩ := Option.ite_none_right_eq_some.mp h
    split at h
    · next hpending =>
      obtain rfl := Option.some.inj h
      exact .reads hsend hstage htimer hnew hpending
    · next hready =>
      obtain rfl := Option.some.inj h
      exact .resolves hsend hstage htimer hnew hready
  | readTimer k =>
    obtain ⟨hreading, h⟩ := Option.ite_none_right_eq_some.mp h
    obtain rfl := Option.some.inj h
    cases hexpired : s.expired k with
    | true => exact .elapses hreading hexpired
    | false => exact .waits hreading hexpired

end Polling

/-! ## 2. The calls of a dispatcher whose polls are one step -/

/-- What the one-step dispatcher has in the place of a call: the same; or, if a poll is under way
that is going to find that time has run out, the call that has been told so.  What is in the channel
of such a call, and its timer, matter no more. -/
inductive SendFuture.Alike (doomed : Prop) : SendFuture Fl → SendFuture Fl → Prop
  | same {send : SendFuture Fl} (hnot : ¬ doomed) : Alike doomed send send
  | doomed {send : SendFuture Fl} {channel : Oneshot CommandOutcome} {expired : Bool}
      (hdoomed : doomed) (hstage : send.stage = .awaiting) :
      Alike doomed send { send with channel, expired, stage := .resolved .elapsed }
  | late {send : SendFuture Fl} {channel : Oneshot CommandOutcome} {expired : Bool}
      (hnot : ¬ doomed)
      (hstage : send.stage = .resolved .elapsed ∨ send.stage = .returned .elapsed) :
      Alike doomed send { send with channel, expired }

namespace SendFuture.Alike

variable {doomed : Prop} {send send' : SendFuture Fl}

theorem id_eq (h : Alike doomed send send') : send'.id = send.id := by
  cases h <;> rfl

theorem stage_eq (h : Alike doomed send send') (hnot : ¬ doomed) : send'.stage = send.stage := by
  cases h with
  | same | late => rfl
  | doomed hdoomed => exact absurd hdoomed hnot

/-- A call that waits, or has not come to that, is the same. -/
theorem eq_of_stage (h : Alike doomed send send') (hnot : doomed → send.stage ≠ .awaiting)
    (hresolved : send.stage ≠ .resolved .elapsed) (hreturned : send.stage ≠ .returned .elapsed) :
    ¬ doomed ∧ send' = send := by
  cases h with
  | same hdoomed => exact ⟨hdoomed, rfl⟩
  | doomed hdoomed hstage => exact absurd hstage (hnot hdoomed)
  | late _ hstage => rcases hstage with hstage | hstage <;> contradiction

/-- Whatever is done to the channel. -/
theorem withChannel (h : Alike doomed send send')
    (f : Oneshot CommandOutcome → Oneshot CommandOutcome) :
    Alike doomed { send with channel := f send.channel }
      { send' with channel := f send'.channel } := by
  cases h with
  | same hnot => exact .same hnot
  | doomed hdoomed hstage => exact .doomed hdoomed hstage
  | late hnot hstage => exact .late hnot hstage

end SendFuture.Alike

namespace Dispatcher

@[simp] theorem modifySend_id (d : Dispatcher Fl) (k : Nat) : d.modifySend k id = d := by
  simp [modifySend]

theorem modifySend_modifySend (d : Dispatcher Fl) (k : Nat) (f g : SendFuture Fl → SendFuture Fl) :
    (d.modifySend k f).modifySend k g = d.modifySend k (g ∘ f) := by
  simp [modifySend, List.modify_modify_eq]

/-- The calls, place by place. -/
def SendsAlike (doomed : Nat → Prop) (sends sends' : List (SendFuture Fl)) : Prop :=
  ∀ k, Option.Rel (SendFuture.Alike (doomed k)) sends[k]? sends'[k]?

/-- The dispatcher `d'`, with polls of one step, is where `d` is. -/
structure Alike (doomed : Nat → Prop) (d d' : Dispatcher Fl) : Prop where
  ids : d'.ids = d.ids
  pending : d'.pending = d.pending
  frames : d'.frames = d.frames
  holder : d'.holder = d.holder
  trace : d'.trace = d.trace
  sends : SendsAlike doomed d.sends d'.sends
  present : ∀ k, doomed k → k < d.sends.length

variable {doomed doomed' : Nat → Prop} {sends sends' : List (SendFuture Fl)}
  {d d' : Dispatcher Fl}

theorem SendsAlike.of_some (h : SendsAlike doomed sends sends') {k : Nat} {send : SendFuture Fl}
    (hsend : sends[k]? = some send) :
    ∃ send', sends'[k]? = some send' ∧ SendFuture.Alike (doomed k) send send' := by
  have hk := h k
  rw [hsend] at hk
  generalize sends'[k]? = found at hk ⊢
  cases hk with
  | some halike => exact ⟨_, rfl, halike⟩

theorem SendsAlike.of_some_right (h : SendsAlike doomed sends sends') {k : Nat}
    {send' : SendFuture Fl} (hsend' : sends'[k]? = some send') :
    ∃ send, sends[k]? = some send ∧ SendFuture.Alike (doomed k) send send' := by
  have hk := h k
  rw [hsend'] at hk
  generalize sends[k]? = found at hk ⊢
  cases hk with
  | some halike => exact ⟨_, rfl, halike⟩

theorem SendsAlike.length_eq (h : SendsAlike doomed sends sends') :
    sends'.length = sends.length := by
  have hnone : ∀ k, sends'.length ≤ k ↔ sends.length ≤ k := fun k => by
    have hk := h k
    rw [← List.getElem?_eq_none_iff, ← List.getElem?_eq_none_iff]
    generalize sends[k]? = send, sends'[k]? = send' at hk
    cases hk <;> simp
  exact le_antisymm ((hnone _).mpr le_rfl) ((hnone _).mp le_rfl)

/-- One call changes in either, and so may what is going to become of it. -/
theorem SendsAlike.replace (h : SendsAlike doomed sends sends') {k : Nat}
    {f g : SendFuture Fl → SendFuture Fl} (hothers : ∀ j, j ≠ k → (doomed' j ↔ doomed j))
    (hfg : ∀ send send', sends[k]? = some send → SendFuture.Alike (doomed k) send send' →
      SendFuture.Alike (doomed' k) (f send) (g send')) :
    SendsAlike doomed' (sends.modify k f) (sends'.modify k g) := by
  intro j
  have hj := h j
  rw [List.getElem?_modify, List.getElem?_modify]
  cases hsend : sends[j]? with
  | none =>
    rw [hsend] at hj
    cases hsend' : sends'[j]? with
    | none => exact .none
    | some send' =>
      rw [hsend'] at hj
      cases hj
  | some send =>
    obtain ⟨send', hsend', halike⟩ := h.of_some hsend
    rw [hsend']
    by_cases hk : k = j
    · subst hk
      simpa using Option.Rel.some (hfg send send' hsend halike)
    · rw [← hothers j (Ne.symm hk)] at halike
      simpa [hk] using Option.Rel.some halike

theorem SendsAlike.withChannel (h : SendsAlike doomed sends sends') (k : Nat)
    (f : Oneshot CommandOutcome → Oneshot CommandOutcome) :
    SendsAlike doomed (sends.modify k fun send => { send with channel := f send.channel })
      (sends'.modify k fun send => { send with channel := f send.channel }) :=
  h.replace (fun _ _ => Iff.rfl) fun _ _ _ halike => halike.withChannel f

namespace Alike

theorem congr (h : Alike doomed d d') (hsame : ∀ k, doomed' k ↔ doomed k) :
    Alike doomed' d d' := by
  obtain rfl : doomed' = doomed := funext fun k => propext (hsame k)
  exact h

theorem stageOf_eq (h : Alike doomed d d') {k : Nat} (hnot : ¬ doomed k) :
    d'.stageOf k = d.stageOf k := by
  have hk := h.sends k
  unfold stageOf
  generalize d.sends[k]? = send, d'.sends[k]? = send' at hk
  cases hk with
  | none => rfl
  | some halike => exact congrArg some (halike.stage_eq hnot)

/-- A call that is doomed waits in the one and is resolved in the other. -/
theorem stageOf_of_doomed (h : Alike doomed d d') {k : Nat} (hdoomed : doomed k) :
    d.stageOf k = some .awaiting ∧ d'.stageOf k = some (.resolved .elapsed) := by
  have hsend := List.getElem?_eq_getElem (h.present k hdoomed)
  obtain ⟨send', hsend', halike⟩ := h.sends.of_some hsend
  unfold stageOf
  rw [hsend, hsend']
  cases halike with
  | doomed _ hstage => exact ⟨congrArg some hstage, rfl⟩
  | same hnot | late hnot => exact absurd hdoomed hnot

theorem mayLock_eq (h : Alike doomed d d') (t : ThreadId) : d'.mayLock t = d.mayLock t := by
  unfold mayLock
  rw [h.frames, h.holder]
  cases d.frames with
  | nil => rfl
  | cons k _ =>
    by_cases hdoomed : doomed k
    · simp [h.stageOf_of_doomed hdoomed]
    · simp only [h.stageOf_eq hdoomed]

/-- The call `k` changes in either. -/
theorem replace (h : Alike doomed d d') {k : Nat} {f g : SendFuture Fl → SendFuture Fl}
    (hothers : ∀ j, j ≠ k → (doomed' j ↔ doomed j)) (hpresent : doomed' k → k < d.sends.length)
    (hfg : ∀ send send', d.sends[k]? = some send → SendFuture.Alike (doomed k) send send' →
      SendFuture.Alike (doomed' k) (f send) (g send')) :
    Alike doomed' (d.modifySend k f) (d'.modifySend k g) :=
  { h with
    sends := h.sends.replace hothers hfg
    present := fun j hj => by
      rw [Dispatcher.modifySend, List.length_modify]
      by_cases hk : j = k
      · subst hk
        exact hpresent hj
      · exact h.present j ((hothers j hk).mp hj) }

theorem modifySend (h : Alike doomed d d') {k : Nat} {f g : SendFuture Fl → SendFuture Fl}
    (hfg : ∀ send send', d.sends[k]? = some send → SendFuture.Alike (doomed k) send send' →
      SendFuture.Alike (doomed k) (f send) (g send')) :
    Alike doomed (d.modifySend k f) (d'.modifySend k g) :=
  h.replace (fun _ _ => Iff.rfl) (h.present k) hfg

theorem withChannel (h : Alike doomed d d') (k : Nat)
    (f : Oneshot CommandOutcome → Oneshot CommandOutcome) :
    Alike doomed (d.modifySend k fun send => { send with channel := f send.channel })
      (d'.modifySend k fun send => { send with channel := f send.channel }) :=
  h.modifySend fun _ _ _ halike => halike.withChannel f

theorem observe (h : Alike doomed d d') (o : Observation Fl) :
    Alike doomed (d.observe o) (d'.observe o) :=
  { h with trace := by simp only [Dispatcher.observe, h.trace] }

theorem dropEntry (h : Alike doomed d d') (id : CommandId) :
    Alike doomed (d.dropEntry id) (d'.dropEntry id) := by
  unfold Dispatcher.dropEntry
  rw [h.pending]
  cases d.pending[id]? with
  | none => exact h
  | some j => exact { h.withChannel j Oneshot.dropSender with pending := rfl }

theorem complete (h : Alike doomed d d') (id : CommandId) (outcome : CommandOutcome) :
    Alike doomed (d.complete id outcome).1 (d'.complete id outcome).1 ∧
      (d'.complete id outcome).2 = (d.complete id outcome).2 := by
  unfold Dispatcher.complete
  rw [h.pending]
  cases d.pending[id]? with
  | none => exact ⟨h, rfl⟩
  | some j => exact ⟨{ h.withChannel j (·.send outcome) with pending := rfl }, rfl⟩

theorem cancelAll (h : Alike doomed d d') (order : IterOrder CommandId) :
    Alike doomed (d.cancelAll order).1 (d'.cancelAll order).1 ∧
      (d'.cancelAll order).2 = (d.cancelAll order).2 := by
  have hlength : (d.cancelAll order).1.sends.length = d.sends.length := by
    simpa using congrArg List.length
      (map_cancelAll (g := SendFuture.stage) (fun _ _ => rfl) order d)
  have hfold : ∀ (drained : List (CommandId × Nat)) (sends sends' : List (SendFuture Fl)),
      SendsAlike doomed sends sends' →
      SendsAlike doomed
        (drained.foldl (fun sends entry => sends.modify entry.2 (·.deliver .cancelled)) sends)
        (drained.foldl (fun sends entry => sends.modify entry.2 (·.deliver .cancelled)) sends') := by
    intro drained
    induction drained with
    | nil => exact fun _ _ hsends => hsends
    | cons entry rest ih =>
      intro sends sends' hsends
      exact ih _ _ (hsends.withChannel entry.2 (·.send .cancelled))
  have hpresent : ∀ k, doomed k → k < (d.cancelAll order).1.sends.length := fun k hdoomed =>
    hlength ▸ h.present k hdoomed
  unfold Dispatcher.cancelAll at hpresent ⊢
  rw [h.pending]
  exact ⟨{ h with pending := rfl, sends := hfold _ _ _ h.sends, present := hpresent }, rfl⟩

/-- A call that waits and is not doomed, or has not come to that, is the same in both. -/
theorem sends_eq (h : Alike doomed d d') {k : Nat} {send : SendFuture Fl}
    (hsend : d.sends[k]? = some send) (hnot : doomed k → send.stage ≠ .awaiting)
    (hresolved : send.stage ≠ .resolved .elapsed) (hreturned : send.stage ≠ .returned .elapsed) :
    ¬ doomed k ∧ d'.sends[k]? = some send := by
  obtain ⟨send', hsend', halike⟩ := h.sends.of_some hsend
  obtain ⟨hlives, heq⟩ := halike.eq_of_stage hnot hresolved hreturned
  exact ⟨hlives, heq ▸ hsend'⟩

/-- And what is done to it is done in both. -/
theorem onCall (h : Alike doomed d d') {k : Nat} {stage : Stage} (hstage : d.stageOf k = some stage)
    (hnot : doomed k → stage ≠ .awaiting) (hresolved : stage ≠ .resolved .elapsed)
    (hreturned : stage ≠ .returned .elapsed) (f : SendFuture Fl → SendFuture Fl) :
    Alike doomed (d.modifySend k f) (d'.modifySend k f) := by
  refine h.modifySend fun send send' hsend halike => ?_
  rw [stageOf_of_send hsend] at hstage
  obtain rfl := Option.some.inj hstage
  obtain ⟨hlives, rfl⟩ := halike.eq_of_stage hnot hresolved hreturned
  exact .same hlives

/-- A call leaves its critical section. -/
theorem leave (h : Alike doomed d d') {k : Nat} {send : SendFuture Fl}
    (hsend : d.sends[k]? = some send) (hstage : send.stage = .dispatching) (stage : Stage) :
    Alike doomed (d.leave k stage) (d'.leave k stage) := by
  have hentered := h.onCall (stageOf_of_send hsend) (by simp [hstage]) (by simp [hstage])
    (by simp [hstage]) (·.enter stage)
  exact { hentered with frames := by simp only [Dispatcher.leave, h.frames] }

theorem allocate (h : Alike doomed d d') (command : Command Fl) :
    Alike doomed (d.allocate command) (d'.allocate command) := by
  have hlength := h.sends.length_eq
  unfold Dispatcher.allocate
  rw [h.ids]
  refine { h with ids := rfl, sends := fun k => ?_, present := fun k hdoomed => ?_ }
  · rw [List.getElem?_append, List.getElem?_append, hlength]
    by_cases hk : k < d.sends.length
    · rw [if_pos hk, if_pos hk]
      exact h.sends k
    · rw [if_neg hk, if_neg hk]
      cases k - d.sends.length with
      | zero => exact .some (.same fun hdoomed => hk (h.present k hdoomed))
      | succ n => exact .none
  · rw [List.length_append]
    exact (h.present k hdoomed).trans_le (Nat.le_add_right _ _)

/-- A guard is dropped: its call may be one that has run out of time. -/
theorem cleanUp (h : Alike doomed d d') {k : Nat} {send : SendFuture Fl}
    (hsend : d.sends[k]? = some send) {ended : Stage} (hended : send.stage.ended = some ended) :
    ¬ doomed k ∧ ∃ send', d'.sends[k]? = some send' ∧ send'.id = send.id ∧
      send'.stage = send.stage ∧ Alike doomed (d.cleanUp k send.id ended)
        (d'.cleanUp k send.id ended) := by
  obtain ⟨send', hsend', halike⟩ := h.sends.of_some hsend
  have hlives : ¬ doomed k := fun hdoomed => by
    have hstage := (h.stageOf_of_doomed hdoomed).1
    rw [stageOf_of_send hsend] at hstage
    rw [Option.some.inj hstage] at hended
    cases hended
  refine ⟨hlives, send', hsend', halike.id_eq, halike.stage_eq hlives, ?_⟩
  have hmodified := (h.dropEntry send.id).modifySend (k := k) (f := (·.enter ended))
    (g := (·.enter ended)) fun found found' hfound halike => by
      have hstage : found.stage = send.stage := by
        have hsame := stageOf_dropEntry d send.id k
        rw [stageOf_of_send hfound, stageOf_of_send hsend] at hsame
        exact Option.some.inj hsame
      cases halike with
      | same => exact .same hlives
      | doomed hdoomed => exact absurd hdoomed hlives
      | late _ hlate =>
        refine .late hlives (Or.inr ?_)
        rw [← hstage] at hended
        rcases hlate with hlate | hlate
        · rw [hlate] at hended
          exact (Option.some.inj hended).symm
        · rw [hlate] at hended
          cases hended
  have hfound : d'.pending.contains send.id = d.pending.contains send.id := by rw [h.pending]
  unfold Dispatcher.cleanUp removePending
  exact { hmodified with trace := by rw [h.trace, hfound] }

end Alike

/-- **Alike dispatchers take the same steps**, other than polls.  The timer of a doomed call is the
exception: it has gone off before. -/
theorem Alike.step {a : Action Fl} {e : Dispatcher Fl} (h : Alike doomed d d') (hm : Moves d a e)
    (hpoll : ∀ k, a ≠ .poll k) (hdrop : ∀ k, a = .dropFuture k → ¬ doomed k) :
    (∃ e', Dispatcher.step d' a = some e' ∧ Alike doomed e e') ∨
      ∃ k, a = .timerExpires k ∧ doomed k ∧ Alike doomed e d' := by
  cases hm with
  | allocate command => exact Or.inl ⟨_, rfl, h.allocate command⟩
  | @enter t k send hsend hstage hlock =>
    obtain ⟨-, hsend'⟩ := h.sends_eq hsend (by simp [hstage]) (by simp [hstage]) (by simp [hstage])
    refine Or.inl ⟨d'.enter t k send.id, ?_, ?_⟩
    · rw [Dispatcher.step, hsend', Option.bind_some, if_pos ⟨hstage, (h.mayLock_eq t).trans hlock⟩]
    · have hinserted : Alike doomed (d.insertPending send.id k) (d'.insertPending send.id k) := by
        have hdropped := h.dropEntry send.id
        exact { hdropped with pending := by simp only [insertPending, hdropped.pending] }
      have hallocated : (d.insertPending send.id k).stageOf k = some .allocated :=
        (stageOf_dropEntry d send.id k).trans ((stageOf_of_send hsend).trans (congrArg some hstage))
      have hentered := hinserted.onCall hallocated (by simp) (by simp) (by simp) (·.enter .inserted)
      exact { hentered with
        frames := by simp only [Dispatcher.enter, h.frames]
        holder := rfl
        trace := by simp only [Dispatcher.enter, h.trace] }
  | @dispatch k send hsend hstage htop =>
    obtain ⟨-, hsend'⟩ := h.sends_eq hsend (by simp [hstage]) (by simp [hstage]) (by simp [hstage])
    refine Or.inl ⟨d'.dispatch k send, ?_, ?_⟩
    · rw [Dispatcher.step, hsend', Option.bind_some, if_pos ⟨hstage, by rw [h.frames, htop]⟩]
    · have hentered := h.onCall (stageOf_of_send hsend) (by simp [hstage]) (by simp [hstage])
        (by simp [hstage]) (·.enter .dispatching)
      exact { hentered with trace := by simp only [Dispatcher.dispatch, h.trace] }
  | @dispatchReturns k send hsend hstage htop | @dispatchPanics k send hsend hstage htop =>
    obtain ⟨-, hsend'⟩ := h.sends_eq hsend (by simp [hstage]) (by simp [hstage]) (by simp [hstage])
    refine Or.inl ⟨_, ?_, h.leave hsend hstage _⟩
    rw [Dispatcher.step, hsend', Option.bind_some, if_pos ⟨hstage, by rw [h.frames, htop]⟩]
  | @timerExpires k send hsend hstage =>
    by_cases hdoomed : doomed k
    · refine Or.inr ⟨k, rfl, hdoomed, ?_⟩
      have hexpired := h.modifySend (k := k) (f := SendFuture.expire) (g := id)
        fun sent sent' _ halike => by
          cases halike with
          | doomed _ hwaits => exact .doomed hdoomed hwaits
          | same hnot | late hnot => exact absurd hdoomed hnot
      rwa [modifySend_id] at hexpired
    · obtain ⟨-, hsend'⟩ := h.sends_eq hsend (by simp [hdoomed]) (by simp [hstage])
        (by simp [hstage])
      refine Or.inl ⟨d'.modifySend k SendFuture.expire, ?_, ?_⟩
      · rw [Dispatcher.step, hsend', Option.bind_some, if_pos hstage]
      · exact h.onCall (stageOf_of_send hsend) (by simp [hdoomed]) (by simp [hstage])
          (by simp [hstage]) _
  | poll => exact absurd rfl (hpoll _)
  | @dropFuture k send hsend hstage =>
    have hdoomed := hdrop k rfl
    obtain ⟨-, hsend'⟩ := h.sends_eq hsend (by simp [hdoomed]) (by simp [hstage]) (by simp [hstage])
    refine Or.inl ⟨_, ?_, h.onCall (stageOf_of_send hsend) (by simp [hdoomed]) (by simp [hstage])
      (by simp [hstage]) _⟩
    rw [Dispatcher.step, hsend', Option.bind_some, if_pos hstage]
  | @dropGuard t k send ended hsend hended hlock =>
    obtain ⟨-, send', hsend', hid, hstage, hcleaned⟩ := h.cleanUp hsend hended
    refine Or.inl ⟨_, ?_, hcleaned⟩
    rw [Dispatcher.step, hsend', Option.bind_some, hstage, hended, Option.bind_some,
      if_pos ((h.mayLock_eq t).trans hlock), hid]
  | @complete t id outcome hlock =>
    obtain ⟨hcompleted, hanswer⟩ := h.complete id outcome
    refine Or.inl ⟨_, ?_, hcompleted.observe _⟩
    rw [Dispatcher.step, if_pos ((h.mayLock_eq t).trans hlock), ← hanswer]
  | @cancelAll t order hlock =>
    obtain ⟨hcancelled, hdrained⟩ := h.cancelAll order
    refine Or.inl ⟨_, ?_, hcancelled.observe _⟩
    rw [Dispatcher.step, if_pos ((h.mayLock_eq t).trans hlock), ← hdrained]

end Dispatcher

/-! ## 3. Looking ahead -/

namespace Polling

variable {timeout : Nat}

/-- A poll of the call `k` is under way, and if `rest` is what happens from now on, it is going to
find that the timer has gone off. -/
def Doomed (timeout : Nat) (rest : List (Action Fl)) (s : Polling Fl) (k : Nat) : Prop :=
  k ∈ s.reading ∧ ∃ first last m, rest = first ++ .readTimer k :: last ∧ .readTimer k ∉ first ∧
    run (step timeout) s first = some m ∧ m.expired k = true

theorem not_doomed_nil (s : Polling Fl) (k : Nat) : ¬ Doomed timeout [] s k := by
  rintro ⟨-, first, last, m, hrest, -⟩
  simp at hrest

theorem doomed_readTimer {s : Polling Fl} {k : Nat} {rest : List (Action Fl)} :
    Doomed timeout (.readTimer k :: rest) s k ↔ k ∈ s.reading ∧ s.expired k = true := by
  refine and_congr_right fun _ => ⟨?_, fun hexpired => ⟨[], rest, s, rfl, by simp, rfl, hexpired⟩⟩
  rintro ⟨first, last, m, hrest, hfirst, hrun, hexpired⟩
  cases first with
  | nil => exact Option.some.inj hrun ▸ hexpired
  | cons a first =>
    obtain ⟨rfl, -⟩ := List.cons.inj hrest
    exact absurd List.mem_cons_self hfirst

/-- What the others do decides nothing. -/
theorem doomed_cons {s s' : Polling Fl} {a : Action Fl} {rest : List (Action Fl)} {k : Nat}
    (hstep : step timeout s a = some s') (ha : a ≠ .readTimer k)
    (hreading : k ∈ s'.reading ↔ k ∈ s.reading) :
    Doomed timeout rest s' k ↔ Doomed timeout (a :: rest) s k := by
  refine and_congr hreading ⟨?_, ?_⟩
  · rintro ⟨first, last, m, rfl, hfirst, hrun, hexpired⟩
    refine ⟨a :: first, last, m, rfl, ?_, ?_, hexpired⟩
    · simpa [ha.symm] using hfirst
    · rw [run_cons, hstep]
      exact hrun
  · rintro ⟨first, last, m, hrest, hfirst, hrun, hexpired⟩
    cases first with
    | nil => exact absurd (List.cons.inj hrest).1 ha
    | cons b first =>
      obtain ⟨rfl, rfl⟩ := List.cons.inj hrest
      rw [run_cons, hstep] at hrun
      exact ⟨first, last, m, rfl, fun hmem => hfirst (List.mem_cons_of_mem _ hmem), hrun, hexpired⟩

theorem step_poll {d : Dispatcher Fl} {k : Nat} {send : SendFuture Fl}
    (hsend : d.sends[k]? = some send) (hstage : send.stage = .awaiting) :
    Dispatcher.step d (.poll k) = some (d.modifySend k SendFuture.poll) := by
  rw [Dispatcher.step, hsend, Option.bind_some, if_pos hstage]

/-- The timer goes off, and the call is polled: the poll of one step that ends a wait. -/
theorem run_expires {d : Dispatcher Fl} {k : Nat} {send : SendFuture Fl}
    (hsend : d.sends[k]? = some send) (hstage : send.stage = .awaiting) :
    run Dispatcher.step d [.timerExpires k, .poll k] =
      some (d.modifySend k (SendFuture.poll ∘ SendFuture.expire)) := by
  have hexpire : Dispatcher.step d (.timerExpires k) = some (d.modifySend k SendFuture.expire) := by
    rw [Dispatcher.step, hsend, Option.bind_some, if_pos hstage]
  have hexpired := Dispatcher.getElem?_modifySend_self hsend SendFuture.expire
  rw [run_cons, hexpire, Option.bind_some, run_cons, step_poll hexpired hstage, Option.bind_some,
    run_nil, Dispatcher.modifySend_modifySend]

/-- **One step of a run with two reads** is answered by the dispatcher with polls of one step: a
poll ends the wait where it reads the channel. -/
theorem answer {s s' : Polling Fl} {a : Action Fl} {rest : List (Action Fl)} {d : Dispatcher Fl}
    (hstep : step timeout s a = some s')
    (h : Dispatcher.Alike (Doomed timeout (a :: rest) s) s.dispatcher d) :
    ∃ steps d', run Dispatcher.step d steps = some d' ∧
      Dispatcher.Alike (Doomed timeout rest s') s'.dispatcher d' := by
  cases moves_of_step hstep with
  | @act a timed hallows htimed =>
    have hsame : ∀ k, Doomed timeout rest { s with timed } k ↔
        Doomed timeout (.act a :: rest) s k := fun k => doomed_cons hstep nofun Iff.rfl
    cases TimedDispatcher.moves_of_step htimed with
    | tick | setTimer => exact ⟨[], d, rfl, h.congr hsame⟩
    | @act a e hpermits hact =>
      have hpoll : ∀ k, a ≠ .poll k := by
        rintro k rfl
        cases hallows
      have hdrop : ∀ k, a = .dropFuture k → ¬ Doomed timeout (.act (.act a) :: rest) s k := by
        rintro k rfl ⟨hreading, -⟩
        simp [allows, hreading] at hallows
      rcases h.step (Dispatcher.moves_of_step hact) hpoll hdrop with ⟨d', hd', hafter⟩ |
        ⟨k, rfl, hdoomed, hafter⟩
      · exact ⟨[a], d', by rw [run_cons, hd']; rfl, hafter.congr hsame⟩
      · exact ⟨[], d, rfl, hafter.congr hsame⟩
  | @reads k send hsend hstage htimer hnew hpending =>
    have hlives : ¬ Doomed timeout (.readReceiver k :: rest) s k := fun hdoomed => hnew hdoomed.1
    have hothers : ∀ j, j ≠ k → (Doomed timeout rest { s with reading := insert k s.reading } j ↔
        Doomed timeout (.readReceiver k :: rest) s j) :=
      fun j hj => doomed_cons hstep nofun (by simp [hj])
    by_cases hdoomed : Doomed timeout rest { s with reading := insert k s.reading } k
    · -- this poll is going to find that time has run out, so it does now
      obtain ⟨-, hsend'⟩ := h.sends_eq hsend (fun hd => absurd hd hlives) (by simp [hstage])
        (by simp [hstage])
      refine ⟨_, _, run_expires hsend' hstage, ?_⟩
      have hresolved : Dispatcher.Alike
          (Doomed timeout rest { s with reading := insert k s.reading })
          (s.dispatcher.modifySend k id) (d.modifySend k (SendFuture.poll ∘ SendFuture.expire)) :=
        h.replace hothers (fun _ => (List.getElem?_eq_some_iff.mp hsend).1)
          fun sent sent' hsent halike => by
          obtain rfl := Option.some.inj (hsend.symm.trans hsent)
          obtain ⟨-, rfl⟩ := halike.eq_of_stage (fun hd => absurd hd hlives) (by simp [hstage])
            (by simp [hstage])
          have hpoll : sent'.expire.poll = sent'.expire.elapse := by
            simp [SendFuture.poll, SendFuture.expire, hpending, SendFuture.elapse]
          rw [Function.comp_apply, hpoll]
          exact .doomed hdoomed hstage
      rwa [Dispatcher.modifySend_id] at hresolved
    · refine ⟨[], d, rfl, h.congr fun j => ?_⟩
      by_cases hj : j = k
      · subst hj
        exact iff_of_false hdoomed hlives
      · exact hothers j hj
  | @resolves k send hsend hstage htimer hnew hready =>
    have hlives : ¬ Doomed timeout (.readReceiver k :: rest) s k := fun hdoomed => hnew hdoomed.1
    obtain ⟨-, hsend'⟩ := h.sends_eq hsend (fun hd => absurd hd hlives) (by simp [hstage])
      (by simp [hstage])
    refine ⟨[.poll k], _, by rw [run_cons, step_poll hsend' hstage]; rfl, ?_⟩
    have hpolled := h.onCall (Dispatcher.stageOf_of_send hsend) (fun hd => absurd hd hlives)
      (by simp [hstage]) (by simp [hstage]) SendFuture.poll
    exact hpolled.congr fun j => doomed_cons hstep nofun Iff.rfl
  | @elapses k hreading hexpired =>
    have hdoomed : Doomed timeout (.readTimer k :: rest) s k :=
      doomed_readTimer.mpr ⟨hreading, hexpired⟩
    have hlives : ∀ dispatcher, ¬ Doomed timeout rest
        ⟨{ s.timed with dispatcher }, s.reading.erase k⟩ k := fun _ hd => by simpa using hd.1
    refine ⟨[], d, rfl, ?_⟩
    have hthere : Dispatcher.Alike (Doomed timeout rest _)
        (s.dispatcher.modifySend k SendFuture.elapse) (d.modifySend k id) :=
      h.replace (fun j hj => doomed_cons hstep (by simp [hj.symm]) (by simp [hj, modifySend]))
        (fun hd => absurd hd (hlives _)) fun sent sent' _ halike => by
        cases halike with
        | doomed => exact .late (hlives _) (Or.inl rfl)
        | same hnot | late hnot => exact absurd hdoomed hnot
    rwa [Dispatcher.modifySend_id] at hthere
  | @waits k hreading hexpired =>
    refine ⟨[], d, rfl, h.congr fun j => ?_⟩
    by_cases hj : j = k
    · subst hj
      refine iff_of_false (fun hd => by simpa using hd.1) ?_
      simp [doomed_readTimer, hexpired]
    · exact doomed_cons hstep (by simp [Ne.symm hj]) (by simp [hj])

theorem answers {s s' : Polling Fl} {actions rest : List (Action Fl)} {d : Dispatcher Fl}
    (hrun : run (step timeout) s actions = some s')
    (h : Dispatcher.Alike (Doomed timeout (actions ++ rest) s) s.dispatcher d) :
    ∃ steps d', run Dispatcher.step d steps = some d' ∧
      Dispatcher.Alike (Doomed timeout rest s') s'.dispatcher d' :=
  run_foresight (R := fun rest s d => Dispatcher.Alike (Doomed timeout rest s) s.dispatcher d)
    (fun _ _ _ _ _ hstep h => answer hstep h) hrun h

theorem alike_new (rest : List (Action Fl)) :
    Dispatcher.Alike (Doomed timeout rest {}) ({} : Polling Fl).dispatcher {} :=
  ⟨rfl, rfl, rfl, rfl, rfl, fun _ => .none, fun _ hdoomed => by simpa using hdoomed.1⟩

/-- **Two reads make no difference.**  Every run in which polls read twice is, to the engine and to
the callers, a run of the dispatcher whose polls are one step: with the same trace, the same
entries, the same critical sections and every call at the same stage. -/
theorem dispatcher_of_run {actions : List (Action Fl)} {s : Polling Fl}
    (hrun : after timeout actions = some s) :
    ∃ steps d, Dispatcher.after steps = some d ∧ d.trace = s.dispatcher.trace ∧
      d.pending = s.dispatcher.pending ∧ d.frames = s.dispatcher.frames ∧
      ∀ k, d.stageOf k = s.dispatcher.stageOf k := by
  obtain ⟨steps, d, hsteps, halike⟩ := answers hrun (alike_new (actions ++ []))
  exact ⟨steps, d, hsteps, halike.trace, halike.pending, halike.frames,
    fun k => halike.stageOf_eq (not_doomed_nil s k)⟩

/-- The second read, right after the first. -/
theorem readTimer_of_pending {t : TimedDispatcher Fl} {k : Nat} {send : SendFuture Fl}
    (hsend : t.dispatcher.sends[k]? = some send) (hpending : send.channel.poll = .pending) :
    step timeout (⟨t, {k}⟩ : Polling Fl) (.readTimer k) =
      some (modifySend ⟨t, ∅⟩ k SendFuture.poll) := by
  have hempty : ({k} : Finset Nat).erase k = ∅ := by simp
  have hexpired : (⟨t, {k}⟩ : Polling Fl).expired k = send.expired := by
    rw [expired, dispatcher, hsend, Option.any_some]
  have hpoll : ∀ f : SendFuture Fl → SendFuture Fl, f send = send.poll →
      t.dispatcher.modifySend k f = t.dispatcher.modifySend k SendFuture.poll := fun f hf => by
    simp only [Dispatcher.modifySend, List.modify_eq_set_getElem?, hsend, Option.map_eq_map,
      Option.map_some, hf]
  rw [step, if_pos (Finset.mem_singleton_self k), hexpired]
  simp only [hempty, modifySend]
  cases hout : send.expired with
  | true =>
    rw [hpoll SendFuture.elapse (by simp [SendFuture.poll, hpending, hout, SendFuture.elapse])]
    rfl
  | false =>
    rw [← hpoll id (by simp [SendFuture.poll, hpending, hout]), Dispatcher.modifySend_id]
    rfl

/-- **And the other way round**: a poll of one step is one whose reads follow each other. -/
theorem run_of_timed {t t' : TimedDispatcher Fl} {actions : List (TimedDispatcher.Action Fl)}
    (hrun : run (TimedDispatcher.step timeout) t actions = some t') :
    ∃ steps, run (step timeout) ⟨t, ∅⟩ steps = some ⟨t', ∅⟩ := by
  refine run_invariant (P := fun t' => ∃ steps, run (step timeout) ⟨t, ∅⟩ steps = some ⟨t', ∅⟩) ?_
    hrun ⟨[], rfl⟩
  rintro m a m' hm ⟨steps, hsteps⟩
  have hlonger : ∀ more, run (step timeout) (⟨m, ∅⟩ : Polling Fl) more = some ⟨m', ∅⟩ →
      ∃ steps, run (step timeout) ⟨t, ∅⟩ steps = some ⟨m', ∅⟩ := fun more hmore =>
    ⟨steps ++ more, run_append.mpr ⟨_, hsteps, hmore⟩⟩
  by_cases hpoll : ∃ k, a = .act (.poll k)
  · obtain ⟨k, rfl⟩ := hpoll
    cases TimedDispatcher.moves_of_step hm with
    | @act _ d hpermits hstep =>
      cases Dispatcher.moves_of_step hstep with
      | @poll _ send hsend hstage =>
        have hreads : step timeout (⟨m, ∅⟩ : Polling Fl) (.readReceiver k) =
            if send.channel.poll = .pending then some ⟨m, {k}⟩
            else some (modifySend ⟨m, ∅⟩ k SendFuture.poll) := by
          rw [step, dispatcher, hsend, Option.bind_some, if_pos ⟨hstage, hpermits, by simp⟩]
          rfl
        by_cases hpending : send.channel.poll = .pending
        · refine hlonger [.readReceiver k, .readTimer k] ?_
          rw [run_cons, hreads, if_pos hpending, Option.bind_some, run_cons]
          exact congrArg (Option.bind · _) (readTimer_of_pending hsend hpending)
        · refine hlonger [.readReceiver k] ?_
          rw [run_cons, hreads, if_neg hpending]
          rfl
  · have hallows : (⟨m, ∅⟩ : Polling Fl).allows a := by
      unfold allows
      split
      · exact absurd ⟨_, rfl⟩ hpoll
      · simp
      · rfl
    refine hlonger [.act a] ?_
    rw [run_cons, step, if_pos hallows, hm]
    rfl

/-! ## 4. What holds of the clock and the lock -/

theorem Timely.step {s s' : Polling Fl} {a : Action Fl} (h : s.timed.Timely timeout)
    (hstep : Polling.step timeout s a = some s') : s'.timed.Timely timeout := by
  cases moves_of_step hstep with
  | act hallows htimed => exact h.step htimed
  | reads | waits => exact h
  | @resolves k send hsend hstage htimer hnew hready =>
    have hpoll : TimedDispatcher.step timeout s.timed (.act (.poll k)) =
        some { s.timed with dispatcher := s.dispatcher.modifySend k SendFuture.poll } := by
      have hpermits : s.timed.permits (.poll k) := htimer
      rw [TimedDispatcher.step, if_pos hpermits, step_poll hsend hstage]
      rfl
    exact h.step hpoll
  | @elapses k hreading hexpired =>
    refine ⟨h.bounded, fun j v hv hout => ?_⟩
    obtain ⟨send, hsend, hexpired⟩ := expired_iff.mp hexpired
    have hviews := Dispatcher.views_modifySend hsend SendFuture.elapse
    have hv : (s.dispatcher.modifySend k SendFuture.elapse).views[j]? = some v := hv
    rw [hviews] at hv
    by_cases hj : k = j
    · subst hj
      exact h.punctual k _ (Dispatcher.getElem?_views hsend)
        (by simp [View.timedOut, SendFuture.view, hexpired])
    · rw [List.getElem?_set_ne hj] at hv
      exact h.punctual j v hv hout

theorem timely_after {actions : List (Action Fl)} {s : Polling Fl}
    (hrun : after timeout actions = some s) : s.timed.Timely timeout :=
  run_invariant (P := fun s : Polling Fl => s.timed.Timely timeout)
    (fun _ _ _ hstep h => Timely.step h hstep) hrun TimedDispatcher.timely_new

theorem framed_after {actions : List (Action Fl)} {s : Polling Fl}
    (hrun : after timeout actions = some s) : s.dispatcher.Framed := by
  obtain ⟨steps, d, hsteps, -, -, hframes, hstages⟩ := dispatcher_of_run hrun
  have hframed := Dispatcher.framed_after hsteps
  refine ⟨fun k => ?_, hframes ▸ hframed.nodup⟩
  rw [← hframes, hframed.mem_frames, Dispatcher.exists_view, Dispatcher.exists_view, hstages]

/-- What can happen by itself, if it moves something. -/
def unaided (s : Polling Fl) : Action Fl → Bool
  | .act a => s.timed.unaided a
  | .readReceiver k => s.dispatcher.unaided (.poll k)
  | .readTimer _ => true

/-- Until the clock goes on, nothing more happens by itself. -/
def Settled (timeout : Nat) (s : Polling Fl) : Prop :=
  ∀ a, s.unaided a → a ≠ .act .tick → step timeout s a = none

/-- Then no poll is under way, and the timed dispatcher has settled. -/
theorem Settled.timed {s : Polling Fl} (h : s.Settled timeout) : s.timed.Settled timeout := by
  have hreading : ∀ k, k ∉ s.reading := fun k hk => by
    have hread := h (.readTimer k) rfl nofun
    rw [step, if_pos hk] at hread
    cases hread
  intro a ha htick
  by_cases hpoll : ∃ k, a = .act (.poll k)
  · obtain ⟨k, rfl⟩ := hpoll
    have hread := h (.readReceiver k) ha nofun
    refine Option.eq_none_iff_forall_ne_some.mpr fun t ht => ?_
    cases TimedDispatcher.moves_of_step ht with
    | act hpermits hact =>
      cases Dispatcher.moves_of_step hact with
      | poll hsend hstage =>
        rw [step, dispatcher, hsend, Option.bind_some,
          if_pos ⟨hstage, hpermits, hreading k⟩] at hread
        split at hread <;> cases hread
  · have hallows : s.allows a := by
      unfold allows
      split
      · exact absurd ⟨_, rfl⟩ hpoll
      · simp [hreading]
      · rfl
    have hnone := h (.act a) ha (by rintro ⟨⟩; cases htick)
    rwa [step, if_pos hallows, Option.map_eq_none_iff] at hnone

end Polling

end MinervaServer
