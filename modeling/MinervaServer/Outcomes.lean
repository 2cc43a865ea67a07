/-
# What the callers of the dispatcher and the engine can rely on

Three results about every run of the dispatcher, read off the lives of its commands
(`Lifecycle`): where the outcome of a `send` comes from (`outcome_integrity`), what `pending`
contains (`pending_exact`), and when the engine and the caller agree about a command
(`acknowledgement_agreement`).

The third needs a condition.  When the await of a `send` has run out of time, its entry stays in
`pending` until its guard takes the lock, and `complete` cannot tell: in that WINDOW it removes
the entry, ignores that nobody receives the outcome, and answers `true` for a command that was
reported as timed out (`late_complete_is_lost`: always, so the condition is the right one).
-/
import MinervaServer.Lifecycle

namespace MinervaServer

open Lib

variable {Fl : Floats}

/-- The observation of a `complete` of this id that answered `true`. -/
def Observation.acknowledges (id : CommandId) : Observation Fl → Bool
  | .completed i _ acknowledged => i = id && acknowledged
  | _ => false

/-- Every acknowledgement takes the id. -/
theorem countP_acknowledges_le (trace : List (Observation Fl)) (id : CommandId) :
    trace.countP (·.acknowledges id) ≤ (takes (history trace id)).length := by
  induction trace using List.reverseRecOn with
  | nil => exact Nat.le_refl 0
  | append_singleton trace o ih =>
    have htakes : takes (history (trace ++ [o]) id) =
        takes (history trace id) ++ takes (history [o] id) := by
      rw [history_append]
      exact List.filterMap_append
    have hlast : [o].countP (·.acknowledges id) ≤ (takes (history [o] id)).length := by
      cases o with
      | completed i outcome acknowledged =>
        by_cases h : i = id <;> cases acknowledged <;>
          simp [takes, history, Observation.moment, Observation.acknowledges, h]
      | _ => exact Nat.zero_le _
    rw [htakes, List.countP_append, List.length_append]
    omega

namespace Life

variable {l : Life Fl}

/-- The entry is there from when it is inserted to when it is taken. -/
theorem Sound.held_iff (h : l.Sound) :
    l.held = true ↔ .inserted ∈ l.history ∧ takes l.history = [] := by
  rcases h.phases with ⟨_, hheld, hhistory⟩ | ⟨_, hheld, hhistory⟩ | ⟨_, hheld, hhistory⟩ |
    ⟨_, _, _, _, hheld, hhistory⟩ | ⟨_, _, hheld, hhistory⟩ <;> rw [hheld, hhistory] <;>
    simp [takes]

/-- A life whose entry is there is that of a live call. -/
theorem Sound.of_held (h : l.Sound) (hheld : l.held = true) : l.send.stage.live := by
  rcases h.phases with ⟨_, hgone, _⟩ | ⟨hstage, _⟩ | ⟨hlive, _⟩ | ⟨hlive, _⟩ | ⟨_, _, hgone, _⟩
  · cases hgone.symm.trans hheld
  · rw [hstage]
    rfl
  · exact hlive
  · exact hlive
  · cases hgone.symm.trans hheld

/-- The entry of a live call is gone only if it was taken with an outcome. -/
theorem Sound.of_gone (h : l.Sound) (hlive : l.send.stage.live) (hgone : l.held = false) :
    ∃ taken outcome, taken.outcome = some outcome ∧ .taken taken ∈ l.history := by
  rcases h.phases with ⟨hstage, _⟩ | ⟨_, hheld, _⟩ | ⟨_, hheld, _⟩ |
    ⟨_, taken, outcome, htaken, _, hhistory⟩ | ⟨hover, _⟩
  · rw [hstage] at hlive
    cases hlive
  · cases hgone.symm.trans hheld
  · cases hgone.symm.trans hheld
  · exact ⟨taken, outcome, htaken, by simp [hhistory]⟩
  · cases hs : l.send.stage <;> rw [hs] at hlive hover <;> simp [Stage.live, Stage.over] at *

/-- Nothing is left of a call that is over. -/
theorem Sound.of_over (h : l.Sound) (hover : l.send.stage.over) : l.held = false := by
  cases hheld : l.held with
  | false => rfl
  | true =>
    have hlive := h.of_held hheld
    cases hs : l.send.stage <;> rw [hs] at hlive hover <;> simp [Stage.live, Stage.over] at *

/-- A life is taken once at most. -/
theorem Sound.takes_le (h : l.Sound) : (takes l.history).length ≤ 1 := by
  rcases h.phases with ⟨_, _, hhistory⟩ | ⟨_, _, hhistory⟩ | ⟨_, _, hhistory⟩ |
    ⟨_, _, _, _, _, hhistory⟩ | ⟨_, _, _, hhistory⟩ <;> rw [hhistory]
  · exact Nat.zero_le 1
  · exact Nat.zero_le 1
  · exact Nat.zero_le 1
  · exact Nat.le_refl 1
  · cases l.send.stage.result <;> exact Nat.le_refl 1

/-- How a call returned: what took its entry, and what it made of it. -/
theorem Sound.of_returned (h : l.Sound) {outcome : CommandOutcome}
    (hreturned : .returned outcome ∈ l.history) :
    ∃ arm taken, l.send.stage = .returned arm ∧ arm.outcome = outcome ∧
      l.history = [.inserted, .dispatched, .taken taken, .returned outcome] ∧
      (arm = .elapsed ∨ taken.outcome = some outcome) := by
  have hover : ∃ arm, l.send.stage = .returned arm := by
    rcases h.phases with ⟨_, _, hhistory⟩ | ⟨_, _, hhistory⟩ | ⟨_, _, hhistory⟩ |
      ⟨_, _, _, _, _, hhistory⟩ | ⟨_, _, _, hhistory⟩ <;> rw [hhistory] at hreturned
    · simp at hreturned
    · simp at hreturned
    · simp at hreturned
    · simp at hreturned
    · cases hs : l.send.stage with
      | returned arm => exact ⟨arm, rfl⟩
      | _ => simp [hs, Stage.result] at hreturned
  obtain ⟨arm, hstage⟩ := hover
  simp only [Sound, hstage] at h
  cases arm with
  | delivered o =>
    obtain ⟨taken, htaken, _, hhistory⟩ := h
    obtain rfl : outcome = o := by simpa [hhistory] using hreturned
    exact ⟨_, taken, hstage, rfl, hhistory, Or.inr htaken⟩
  | senderDropped => exact h.elim
  | elapsed =>
    obtain ⟨taken, _, hhistory⟩ := h
    obtain rfl : outcome = .timeout := by simpa [hhistory] using hreturned
    exact ⟨_, taken, hstage, rfl, hhistory, Or.inl rfl⟩

end Life

/-- The two takes that carry an outcome. -/
theorem Take.outcome_eq_some {taken : Take} {outcome : CommandOutcome} :
    taken.outcome = some outcome ↔
      taken = .completed outcome ∨ taken = .cancelled ∧ outcome = .cancelled := by
  cases taken <;> simp [Take.outcome, eq_comm]

namespace Dispatcher

/-- The calls of a dispatcher have sound lives. -/
theorem Inv.sound_of_mem {d : Dispatcher Fl} (h : Inv d) {send : SendFuture Fl}
    (hmem : send ∈ d.sends) : ∃ k, d.sends[k]? = some send ∧ (d.lifeOf k send).Sound := by
  obtain ⟨k, hk⟩ := List.mem_iff_getElem?.mp hmem
  exact ⟨k, hk, h.sound k _ (life_of_send hk)⟩

/-- An id is that of a call, or nothing was ever seen of it. -/
theorem Inv.known_or {d : Dispatcher Fl} (h : Inv d) (id : CommandId) :
    (∃ send ∈ d.sends, send.id = id) ∨ (id ∉ d.pending ∧ history d.trace id = []) := by
  by_cases hid : ∃ send ∈ d.sends, send.id = id
  · exact Or.inl hid
  · refine Or.inr ⟨fun hmem => ?_, h.known id fun send hsend heq => hid ⟨send, hsend, heq⟩⟩
    obtain ⟨k, hk⟩ := Option.isSome_iff_exists.mp
      (Std.ExtTreeMap.mem_iff_isSome_getElem?.mp hmem)
    obtain ⟨send, hsend, heq⟩ := h.entry id k hk
    exact hid ⟨send, List.mem_of_getElem? hsend, heq⟩

/-- An id is pending from its insertion until it is taken. -/
theorem Inv.pending_iff {d : Dispatcher Fl} (h : Inv d) (hfew : d.sends.length < 2 ^ 64)
    (id : CommandId) :
    id ∈ d.pending ↔ .inserted ∈ history d.trace id ∧ takes (history d.trace id) = [] := by
  rcases h.known_or id with ⟨send, hmem, rfl⟩ | ⟨habsent, hnone⟩
  · obtain ⟨k, hsend, hsound⟩ := h.sound_of_mem hmem
    exact (h.mem_pending hfew hsend).trans hsound.held_iff
  · rw [hnone]
    exact ⟨fun hmem => absurd hmem habsent, by simp⟩

/-- A call that returned, and what it went through. -/
theorem Inv.returned {d : Dispatcher Fl} (h : Inv d) {id : CommandId} {outcome : CommandOutcome}
    (hreturned : .returned id outcome ∈ d.trace) : ∃ send ∈ d.sends, send.id = id ∧
      ∃ arm taken, send.stage = .returned arm ∧ arm.outcome = outcome ∧
        history d.trace id = [.inserted, .dispatched, .taken taken, .returned outcome] ∧
        (arm = .elapsed ∨ taken.outcome = some outcome) := by
  rcases h.known_or id with ⟨send, hmem, rfl⟩ | ⟨_, hnone⟩
  · obtain ⟨k, _, hsound⟩ := h.sound_of_mem hmem
    exact ⟨send, hmem, rfl, hsound.of_returned (returned_mem.mpr hreturned)⟩
  · rw [← returned_mem, hnone] at hreturned
    exact absurd hreturned List.not_mem_nil

/-! ## 1. Where outcomes come from -/

/-- **Outcome integrity.**  After any run each id is in `pending` from its insertion until it is taken, and
was taken at most once: by one acknowledgement, one cancellation or the guard of its own call.
In particular at most one `complete` answered `true` for it.  A call that returned was
inserted, handed to the engine, taken and only then returned, and either it ran out of time and
returned "timeout", or a `complete` of its own id delivered the outcome, or a `cancel_all` drained
its id and the outcome is "cancelled".  A call that has received an outcome received the one its
own id was taken with.  No await finds its sender dropped. -/
theorem outcome_integrity {actions : List (Action Fl)} {d : Dispatcher Fl}
    (hrun : after actions = some d) (hfew : d.sends.length < 2 ^ 64) :
    (∀ id, (takes (history d.trace id)).length ≤ 1 ∧
      (id ∈ d.pending ↔ .inserted ∈ history d.trace id ∧ takes (history d.trace id) = []) ∧
      d.trace.countP (·.acknowledges id) ≤ 1) ∧
    (∀ id outcome, .returned id outcome ∈ d.trace → ∃ arm taken,
      (∃ send ∈ d.sends, send.id = id ∧ send.stage = .returned arm) ∧ arm.outcome = outcome ∧
      history d.trace id = [.inserted, .dispatched, .taken taken, .returned outcome] ∧
      (arm = .elapsed ∧ outcome = .timeout ∨ taken = .completed outcome ∨
        taken = .cancelled ∧ outcome = .cancelled)) ∧
    (∀ send ∈ d.sends, ∀ outcome,
      send.stage = .resolved (.delivered outcome) ∨ send.stage = .returned (.delivered outcome) →
      takes (history d.trace send.id) = [.completed outcome] ∨
        takes (history d.trace send.id) = [.cancelled] ∧ outcome = .cancelled) ∧
    (∀ send ∈ d.sends, send.stage ≠ .resolved .senderDropped ∧
      send.stage ≠ .returned .senderDropped) := by
  have hinv := inv_after hrun hfew
  refine ⟨fun id => ?_, fun id outcome hreturned => ?_, fun send hmem outcome hstage => ?_,
    fun send hmem => ?_⟩
  · have htakes : (takes (history d.trace id)).length ≤ 1 := by
      rcases hinv.known_or id with ⟨send, hmem, rfl⟩ | ⟨_, hnone⟩
      · obtain ⟨k, _, hsound⟩ := hinv.sound_of_mem hmem
        exact hsound.takes_le
      · rw [hnone]
        exact Nat.zero_le 1
    exact ⟨htakes, hinv.pending_iff hfew id, (countP_acknowledges_le d.trace id).trans htakes⟩
  · obtain ⟨send, hmem, hid, arm, taken, hstage, harm, hhistory, hfrom⟩ := hinv.returned hreturned
    refine ⟨arm, taken, ⟨send, hmem, hid, hstage⟩, harm, hhistory, ?_⟩
    rcases hfrom with rfl | htaken
    · exact Or.inl ⟨rfl, harm.symm⟩
    · exact Or.inr (Take.outcome_eq_some.mp htaken)
  · obtain ⟨k, _, hsound⟩ := hinv.sound_of_mem hmem
    have htakes : ∃ taken, taken.outcome = some outcome ∧
        takes (history d.trace send.id) = [taken] := by
      rcases hstage with hstage | hstage <;> simp only [Life.Sound, lifeOf, hstage] at hsound <;>
        obtain ⟨taken, htaken, _, hhistory⟩ := hsound <;>
        exact ⟨taken, htaken, congrArg takes hhistory⟩
    obtain ⟨taken, htaken, htakes⟩ := htakes
    rcases Take.outcome_eq_some.mp htaken with rfl | ⟨rfl, houtcome⟩
    · exact Or.inl htakes
    · exact Or.inr ⟨htakes, houtcome⟩
  · obtain ⟨k, _, hsound⟩ := hinv.sound_of_mem hmem
    refine ⟨fun hstage => ?_, fun hstage => ?_⟩ <;>
      simp only [Life.Sound, lifeOf, hstage] at hsound

/-- A sink that acknowledges inside `dispatch`. -/
theorem outcome_integrity_sample :
    let actions : List (Action Floats.bits) :=
      [.allocate .sample, .enter 0 0, .dispatch 0, .complete 0 ⟨0⟩ .success, .dispatchReturns 0,
        .poll 0, .dropGuard 0 0]
    ∃ d, after actions = some d ∧ ∀ id, (takes (history d.trace id)).length ≤ 1 ∧
      (id ∈ d.pending ↔ .inserted ∈ history d.trace id ∧ takes (history d.trace id) = []) ∧
      d.trace.countP (·.acknowledges id) ≤ 1 := by
  intro actions
  have hrun : after actions = some _ := rfl
  exact ⟨_, hrun, (outcome_integrity hrun (by decide)).1⟩

/-! ## 2. What is pending -/

/-- **`pending` is exact.**  After any run every entry is that of a call that has inserted it and
is not over, and a call that is over has none; a step that ends a call, or brings it towards its
end, leaves all other entries and calls as they are; and a call that is not over has lost its
entry only to a `complete` of its id that answered `true` or to a `cancel_all` that drained
it. -/
theorem pending_exact {actions : List (Action Fl)} {d : Dispatcher Fl}
    (hrun : after actions = some d) (hfew : d.sends.length < 2 ^ 64) :
    (∀ id, id ∈ d.pending → ∃ send ∈ d.sends, send.id = id ∧ send.stage.live) ∧
    (∀ send ∈ d.sends, send.stage.over → send.id ∉ d.pending) ∧
    (∀ a d' k (send : SendFuture Fl), step d a = some d' → a.ends k → d.sends[k]? = some send →
      (∀ (id : CommandId), id ≠ send.id → d'.pending[id]? = d.pending[id]?) ∧
      ∀ j, j ≠ k → d'.sends[j]? = d.sends[j]?) ∧
    (∀ send ∈ d.sends, send.stage.live → send.id ∉ d.pending →
      (∃ outcome, .completed send.id outcome true ∈ d.trace) ∨
        ∃ drained, .cancelledAll drained ∈ d.trace ∧ send.id ∈ drained) := by
  have hinv := inv_after hrun hfew
  refine ⟨fun id hmem => ?_, fun send hmem hover => ?_, fun a d' k send hstep hends hsend => ?_,
    fun send hmem hlive habsent => ?_⟩
  · rcases hinv.known_or id with ⟨send, hsend, rfl⟩ | ⟨habsent, _⟩
    · obtain ⟨k, hk, hsound⟩ := hinv.sound_of_mem hsend
      exact ⟨send, hsend, rfl, hsound.of_held ((hinv.mem_pending hfew hk).mp hmem)⟩
    · exact absurd hmem habsent
  · obtain ⟨k, hk, hsound⟩ := hinv.sound_of_mem hmem
    rw [hinv.mem_pending hfew hk, hsound.of_over hover]
    simp
  · rcases moves_one hinv hfew (moves_of_step hstep) with ⟨_, rfl⟩ | ⟨_, _, rfl⟩ |
      ⟨_, _, _, rfl, _⟩ | ⟨j, other, l, hother, honly, hlife⟩
    · cases hends
    · cases hends
    · cases hends
    · have hj : j = k := by
        cases hlife with
        | dispatchPanics | poll | dropFuture | dropGuard => exact of_decide_eq_true hends
        | _ => cases hends
      subst hj
      obtain rfl := Option.some.inj (hsend.symm.trans hother)
      exact ⟨honly.pending, honly.sends⟩
  · obtain ⟨k, hk, hsound⟩ := hinv.sound_of_mem hmem
    have hgone : (d.lifeOf k send).held = false :=
      Bool.eq_false_iff.mpr fun hheld => habsent ((hinv.mem_pending hfew hk).mpr hheld)
    obtain ⟨taken, outcome, htaken, hhistory⟩ := hsound.of_gone hlive hgone
    rcases Take.outcome_eq_some.mp htaken with rfl | ⟨rfl, _⟩
    · exact Or.inl ⟨outcome, taken_completed_mem.mp hhistory⟩
    · exact Or.inr (taken_cancelled_mem.mp hhistory)

/-- The engine panics in the `dispatch` of a call that was made inside another's. -/
theorem pending_exact_sample :
    let actions : List (Action Floats.bits) :=
      [.allocate .sample, .enter 0 0, .dispatch 0, .allocate .sample, .enter 0 1, .dispatch 1,
        .dispatchPanics 1, .dropGuard 0 1]
    ∃ d, after actions = some d ∧
      ∀ id, id ∈ d.pending → ∃ send ∈ d.sends, send.id = id ∧ send.stage.live := by
  intro actions
  have hrun : after actions = some _ := rfl
  exact ⟨_, hrun, (pending_exact hrun (by decide)).1⟩

/-! ## 3. What the engine and the caller agree on -/

/-- The entry of `id` is there, but the await of its call has resolved: `complete` finds an entry
whose receiver is gone. -/
def inWindow (d : Dispatcher Fl) (id : CommandId) : Bool :=
  match d.pending[id]?.bind d.stageOf with
  | some (.resolved _) => true
  | _ => false

/-- The action is a `complete` in the window of its id. -/
def late (d : Dispatcher Fl) : Action Fl → Bool
  | .complete _ id _ => d.inWindow id
  | _ => false

theorem inWindow_of_held {d : Dispatcher Fl} {k : Nat} {send : SendFuture Fl}
    (hsend : d.sends[k]? = some send) (hheld : (d.lifeOf k send).held = true) :
    d.inWindow send.id = true ↔ ∃ arm, send.stage = .resolved arm := by
  have hentry : d.pending[send.id]? = some k := of_decide_eq_true hheld
  rw [inWindow, hentry, Option.bind_some, stageOf, hsend, Option.map_some]
  cases send.stage <;> simp

end Dispatcher

namespace Life

/-- A call that has run out of time was not acknowledged. -/
def Agrees (l : Life Fl) : Prop :=
  l.send.stage = .resolved .elapsed ∨ l.send.stage = .returned .elapsed →
    ∀ outcome, .taken (.completed outcome) ∉ l.history

/-- **Every step of a life but a late acknowledgement keeps the agreement.** -/
theorem Agrees.step {k : Nat} {l l' : Life Fl} {a : Dispatcher.Action Fl} (h : l.Agrees)
    (hsound : l.Sound) (hstep : l.Step k a l')
    (hlate : ∀ t outcome arm, a = .complete t l.send.id outcome → l.held = true →
      l.send.stage ≠ .resolved arm) : l'.Agrees := by
  cases hstep with
  | enter | dispatch | dispatchReturns | dispatchPanics | dropFuture =>
    rintro (hstage | hstage) <;> cases hstage
  | timerExpires hawaiting =>
    rintro (hstage | hstage) <;> cases hawaiting.symm.trans hstage
  | poll hawaiting =>
    intro helapsed outcome
    simp only [Sound, hawaiting] at hsound
    rcases hsound with ⟨⟨_, hhistory⟩, _⟩ | ⟨taken, delivered, _, _, hchannel⟩
    · simp [hhistory]
    · have hpoll : l.send.channel.poll = .ready delivered := by rw [hchannel]; rfl
      simp only [SendFuture.poll, hpoll] at helapsed
      rcases helapsed with hstage | hstage <;> cases hstage
  | @dropGuard _ ended hended =>
    intro helapsed outcome
    have hreturned : ended = .returned .elapsed := by
      rcases helapsed with hstage | hstage
      · obtain rfl : ended = .resolved .elapsed := hstage
        cases hs : l.send.stage <;> rw [hs] at hended <;> cases hended
      · exact hstage
    subst hreturned
    have hresolved : l.send.stage = .resolved .elapsed := by
      cases hs : l.send.stage <;> rw [hs] at hended <;> simp_all [Stage.ended]
    have hbefore := h (Or.inl hresolved) outcome
    cases hheld : l.held <;> simp [clean, hheld, hbefore, Stage.result]
  | @complete t outcome hheld _ =>
    rintro (hstage | hstage)
    · exact absurd hstage (hlate t outcome .elapsed rfl hheld)
    · have hover : l.send.stage = .returned .elapsed := hstage
      have hlive := hsound.of_held hheld
      rw [hover] at hlive
      cases hlive
  | cancelAll =>
    intro helapsed outcome
    simpa [take] using h helapsed outcome

/-- The call was acknowledged with this outcome after its time had run out. -/
def Missed (l : Life Fl) (outcome : CommandOutcome) : Prop :=
  .taken (.completed outcome) ∈ l.history ∧
    (l.send.stage = .resolved .elapsed ∨ l.send.stage = .returned .elapsed)

/-- An acknowledgement that was missed stays missed. -/
theorem Missed.step {k : Nat} {l l' : Life Fl} {a : Dispatcher.Action Fl}
    {outcome : CommandOutcome} (h : l.Missed outcome) (hsound : l.Sound)
    (hstep : l.Step k a l') : l'.Missed outcome := by
  obtain ⟨htaken, hstage⟩ := h
  have hgone : l.held ≠ true := by
    intro hheld
    have htakes := (hsound.held_iff.mp hheld).2
    rw [takes, List.filterMap_eq_nil_iff] at htakes
    cases htakes _ htaken
  cases hstep with
  | @dropGuard t ended hended =>
    have hended : ended = .returned .elapsed := by
      rcases hstage with hs | hs <;> rw [hs] at hended <;> cases hended
      rfl
    exact ⟨List.mem_append_left _ (List.mem_append_left _ htaken), Or.inr hended⟩
  | complete hheld | cancelAll hheld => exact absurd hheld hgone
  | enter hother | dispatch hother | dispatchReturns hother | dispatchPanics hother
  | timerExpires hother | poll hother | dropFuture hother =>
    rcases hstage with hs | hs <;> cases hother.symm.trans hs

end Life

namespace Dispatcher

/-- In a run without late acknowledgements every life is in agreement. -/
theorem agrees_after {actions : List (Action Fl)} {d : Dispatcher Fl}
    (hrun : after actions = some d) (hfew : d.sends.length < 2 ^ 64)
    (hguard : guarded step (fun d a => !d.late a) {} actions) :
    Inv d ∧ ∀ k l, d.life k = some l → l.Agrees := by
  refine run_guarded
    (P := fun d => d.sends.length < 2 ^ 64 → Inv d ∧ ∀ k l, d.life k = some l → l.Agrees)
    ?_ hrun hguard (fun _ => ⟨inv_new, by simp [life]⟩) hfew
  intro d a d' hstep hlate h hfew'
  have hm := moves_of_step hstep
  obtain ⟨hinv, hagrees⟩ := h ((length_le_of_moves hm).trans_lt hfew')
  refine ⟨hinv.step hfew' hm, fun k l' hl => ?_⟩
  rcases life_of_moves hinv hfew' hm hl with ⟨_, _, rfl⟩ | ⟨l, hbefore, rfl | hlife⟩
  · rintro (hstage | hstage) <;> cases hstage
  · exact hagrees k _ hbefore
  · refine (hagrees k l hbefore).step (hinv.sound k l hbefore) hlife ?_
    rintro t outcome arm rfl hheld hstage
    obtain ⟨send, hsend, rfl⟩ := Option.map_eq_some_iff.mp hbefore
    have hwindow := (inWindow_of_held hsend hheld).mpr ⟨arm, hstage⟩
    rw [late, hwindow] at hlate
    cases hlate

/-- A `complete` that answers `false` can be left out of a run. -/
theorem run_without_refused {first rest : List (Action Fl)} {m d : Dispatcher Fl} {t : ThreadId}
    {id : CommandId} {outcome : CommandOutcome} (hm : after first = some m)
    (hrefused : (m.complete id outcome).2 = false)
    (hrun : after (first ++ .complete t id outcome :: rest) = some d) :
    ∃ d₂, after (first ++ rest) = some d₂ ∧ d₂.sends = d.sends ∧ d₂.pending = d.pending := by
  obtain ⟨m₁, hm₁, hrun⟩ := run_append.mp hrun
  obtain rfl := Option.some.inj (hm.symm.trans hm₁)
  rw [run_cons, Option.bind_eq_some_iff] at hrun
  obtain ⟨m', hm', hrest⟩ := hrun
  have hnothing : m.complete id outcome = (m, false) := by
    cases hentry : m.pending[id]? with
    | none => rw [complete, hentry]
    | some j => rw [complete, hentry] at hrefused; cases hrefused
  have hback : m'.withTrace m.trace = m := by
    cases moves_of_step hm' with
    | complete => rw [hnothing]; rfl
  obtain ⟨trace', htrace'⟩ := run_withTrace hrest m.trace
  rw [hback] at htrace'
  exact ⟨_, run_append.mpr ⟨m, hm, htrace'⟩, rfl, rfl⟩

/-- **Acknowledgement agreement.**  In a run in which no `complete` comes in the window of its id:
a send whose id was acknowledged returns nothing but the acknowledged outcome; a send that has
run out of time was never acknowledged; and without a `complete` that answered `false` the same
run has the same results. -/
theorem acknowledgement_agreement {actions : List (Action Fl)} {d : Dispatcher Fl}
    (hrun : after actions = some d) (hfew : d.sends.length < 2 ^ 64)
    (hguard : guarded step (fun d a => !d.late a) {} actions) :
    (∀ id outcome outcome', .completed id outcome true ∈ d.trace →
      .returned id outcome' ∈ d.trace → outcome' = outcome) ∧
    (∀ send ∈ d.sends, send.stage = .returned .elapsed →
      ∀ outcome, .completed send.id outcome true ∉ d.trace) ∧
    (∀ first rest t id outcome m, actions = first ++ .complete t id outcome :: rest →
      after first = some m → (m.complete id outcome).2 = false →
      ∃ d₂, after (first ++ rest) = some d₂ ∧ d₂.sends = d.sends ∧ d₂.pending = d.pending) := by
  obtain ⟨hinv, hagrees⟩ := agrees_after hrun hfew hguard
  have helapsed : ∀ send ∈ d.sends, send.stage = .returned .elapsed →
      ∀ outcome, .completed send.id outcome true ∉ d.trace := by
    intro send hmem hstage outcome hcompleted
    obtain ⟨k, hk, _⟩ := hinv.sound_of_mem hmem
    exact hagrees k _ (life_of_send hk) (Or.inr hstage) outcome
      (taken_completed_mem.mpr hcompleted)
  refine ⟨fun id outcome outcome' hcompleted hreturned => ?_, helapsed, ?_⟩
  · rcases hinv.known_or id with ⟨send, hmem, rfl⟩ | ⟨_, hnone⟩
    · obtain ⟨k, hk, hsound⟩ := hinv.sound_of_mem hmem
      obtain ⟨arm, taken, hstage, harm, hhistory, hfrom⟩ :=
        hsound.of_returned (returned_mem.mpr hreturned)
      have htaken : Moment.taken (.completed outcome) ∈ history d.trace send.id :=
        taken_completed_mem.mpr hcompleted
      rw [show history d.trace send.id = _ from hhistory] at htaken
      obtain rfl : taken = .completed outcome := by simpa [eq_comm] using htaken
      rcases hfrom with rfl | houtcome
      · exact absurd hcompleted (helapsed send hmem hstage outcome)
      · exact (Option.some.inj houtcome).symm
    · rw [← returned_mem, hnone] at hreturned
      exact absurd hreturned List.not_mem_nil
  · rintro first rest t id outcome m rfl hm hrefused
    exact run_without_refused hm hrefused hrun

/-- A command acknowledged in time. -/
theorem acknowledgement_agreement_sample :
    let actions : List (Action Floats.bits) :=
      [.allocate .sample, .enter 0 0, .dispatch 0, .dispatchReturns 0, .complete 1 ⟨0⟩ .success,
        .timerExpires 0, .poll 0, .dropGuard 0 0]
    ∃ d, after actions = some d ∧
      ∀ id outcome outcome', .completed id outcome true ∈ d.trace →
        .returned id outcome' ∈ d.trace → outcome' = outcome := by
  intro actions
  have hrun : after actions = some _ := rfl
  exact ⟨_, hrun, (acknowledgement_agreement hrun (by decide) rfl).1⟩

/-- A call whose await has resolved with its entry still there has run out of time. -/
theorem Inv.elapsed_of_inWindow {d : Dispatcher Fl} (h : Inv d) {id : CommandId}
    (hwindow : d.inWindow id = true) : ∃ k send, d.sends[k]? = some send ∧ send.id = id ∧
      (d.lifeOf k send).held = true ∧ send.stage = .resolved .elapsed := by
  cases hentry : d.pending[id]? with
  | none => rw [inWindow, hentry] at hwindow; cases hwindow
  | some k =>
    obtain ⟨send, hsend, rfl⟩ := h.entry id k hentry
    have hheld : (d.lifeOf k send).held = true := decide_eq_true hentry
    obtain ⟨arm, hstage⟩ := (inWindow_of_held hsend hheld).mp hwindow
    have hsound := h.sound k _ (life_of_send hsend)
    simp only [Life.Sound, hstage] at hsound
    refine ⟨k, send, hsend, rfl, hheld, ?_⟩
    cases arm with
    | delivered =>
      obtain ⟨_, _, hgone, _⟩ := hsound
      cases hgone.symm.trans hheld
    | senderDropped => exact hsound.elim
    | elapsed => exact hstage

/-- A `complete` in the window of its id leaves a call that has missed its acknowledgement. -/
theorem missed_of_late {d d' : Dispatcher Fl} {t : ThreadId} {id : CommandId}
    {outcome : CommandOutcome} (h : Inv d) (hfew : d.sends.length < 2 ^ 64)
    (hlate : d.late (.complete t id outcome)) (hm : Moves d (.complete t id outcome) d') :
    ∃ k l, d'.life k = some l ∧ l.send.id = id ∧ l.Missed outcome := by
  obtain ⟨k, send, hsend, hid, hheld, hstage⟩ := h.elapsed_of_inWindow hlate
  rcases moves_one h hfew hm with ⟨_, ha⟩ | ⟨_, _, ha⟩ | ⟨_, _, _, ha, hnone⟩ |
    ⟨j, other, l, hother, honly, hlife⟩
  · cases ha
  · cases ha
  · cases ha
    have hentry : d.pending[send.id]? = some k := of_decide_eq_true hheld
    rw [hid, hnone] at hentry
    cases hentry
  · cases hlife with
    | complete =>
    obtain rfl := h.id_inj hfew hsend hother hid
    obtain rfl := Option.some.inj (hsend.symm.trans hother)
    exact ⟨k, _, honly.here, rfl, by simp [Life.take], Or.inl hstage⟩

/-- No later step brings it back. -/
theorem missed_of_run {d d' : Dispatcher Fl} {actions : List (Action Fl)} {k : Nat}
    {l : Life Fl} {outcome : CommandOutcome} (hrun : run step d actions = some d') (h : Inv d)
    (hfew : d'.sends.length < 2 ^ 64) (hl : d.life k = some l) (hmissed : l.Missed outcome) :
    ∃ l', d'.life k = some l' ∧ l'.send.id = l.send.id ∧ l'.Missed outcome := by
  refine (run_invariant
    (P := fun d => d.sends.length < 2 ^ 64 →
      Inv d ∧ ∃ l', d.life k = some l' ∧ l'.send.id = l.send.id ∧ l'.Missed outcome)
    ?_ hrun (fun _ => ⟨h, l, hl, rfl, hmissed⟩) hfew).2
  intro d a d' hstep h hfew
  have hm := moves_of_step hstep
  obtain ⟨hinv, l, hl, hid, hmissed⟩ := h ((length_le_of_moves hm).trans_lt hfew)
  obtain ⟨l', hl', hlife⟩ := life_step hinv hfew hm hl
  refine ⟨hinv.step hfew hm, l', hl', ?_⟩
  rcases hlife with rfl | hlife
  · exact ⟨hid, hmissed⟩
  · exact ⟨hlife.id_eq.trans hid, hmissed.step (hinv.sound k l hl) hlife⟩

/-- **And every `complete` in the window of its id is lost**: it answers `true`, and the call it
was for returns "timeout" if it returns at all. -/
theorem late_complete_is_lost {first rest : List (Action Fl)} {m d : Dispatcher Fl} {t : ThreadId}
    {id : CommandId} {outcome : CommandOutcome} (hm : after first = some m)
    (hlate : m.late (.complete t id outcome))
    (hrun : after (first ++ .complete t id outcome :: rest) = some d)
    (hfew : d.sends.length < 2 ^ 64) :
    .completed id outcome true ∈ d.trace ∧ ∃ send ∈ d.sends, send.id = id ∧
      (send.stage = .resolved .elapsed ∨ send.stage = .returned .elapsed) := by
  obtain ⟨m₁, hm₁, hrun⟩ := run_append.mp hrun
  obtain rfl := Option.some.inj (hm.symm.trans hm₁)
  rw [run_cons, Option.bind_eq_some_iff] at hrun
  obtain ⟨m', hm', hrest⟩ := hrun
  have hmoves := moves_of_step hm'
  have hfew' := (length_le_of_run hrest).trans_lt hfew
  have hinv := inv_after hm ((length_le_of_moves hmoves).trans_lt hfew')
  obtain ⟨k, l, hl, rfl, hmissed⟩ :=
    missed_of_late hinv ((length_le_of_moves hmoves).trans_lt hfew') hlate hmoves
  obtain ⟨_, hl', hid, htaken, hstage⟩ :=
    missed_of_run hrest (hinv.step hfew' hmoves) hfew hl hmissed
  obtain ⟨send, hsend, rfl⟩ := Option.map_eq_some_iff.mp hl'
  rw [← hid]
  exact ⟨taken_completed_mem.mp htaken, send, List.mem_of_getElem? hsend, rfl, hstage⟩

/-- The guard waits for the lock after the time has run out, and the engine acknowledges. -/
theorem late_acknowledgement_disagrees :
    ∃ d : Dispatcher Floats.bits,
      after [.allocate .sample, .enter 0 0, .dispatch 0, .dispatchReturns 0, .timerExpires 0,
        .poll 0, .complete 1 ⟨0⟩ .success, .dropGuard 0 0] = some d ∧
      d.sends.length < 2 ^ 64 ∧
      .completed ⟨0⟩ .success true ∈ d.trace ∧ .returned ⟨0⟩ .timeout ∈ d.trace :=
  ⟨_, rfl, by decide, by decide, by decide⟩

end Dispatcher

end MinervaServer
