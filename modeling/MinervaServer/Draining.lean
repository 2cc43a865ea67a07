/-
# The dispatcher drains

That an engine never acknowledges must not keep anybody waiting, nor leave anything behind: a `send`
has its timeout, and its guard removes its entry.  `dispatcher_drains`: from every state the
dispatcher can get into, whichever steps it then takes by itself (no call begins, and no engine and
no caller does anything), there are only so many of them that move something; and when there are no
more, every call is over, those that were still to return have returned, `pending` is empty and the
lock is free.

The bound is a count of the steps each call has before it (`stepsLeft`).  That it ends well is
deadlock freedom: the calls inside their critical section are exactly the frames on the lock
(`Framed`), so the innermost one can go on; and if there is none the lock is free for everybody
else.  None of it depends on the ids: it holds after 2^64 sends as well.
-/
import MinervaServer.Calls

namespace MinervaServer

open Lib

variable {Fl : Floats}

/-! ## 1. What is left to do -/

/-- A call without its channel. -/
@[ext]
structure View where
  id : CommandId
  stage : Stage
  expired : Bool

def SendFuture.view (send : SendFuture Fl) : View := ⟨send.id, send.stage, send.expired⟩

/-- How many steps the call has before it. -/
def View.stepsLeft (v : View) : Nat :=
  match v.stage with
  | .allocated => 6
  | .inserted => 5
  | .dispatching => 4
  -- the timer, and the poll that finds it has gone off
  | .awaiting => if v.expired then 2 else 3
  | .resolved _ | .unwinding | .dropping => 1
  | .returned _ | .panicked | .dropped => 0

/-- The call is inside its critical section. -/
def Stage.inside : Stage → Bool
  | .inserted | .dispatching => true
  | .allocated | .awaiting | .resolved _ | .unwinding | .dropping | .returned _ | .panicked
  | .dropped => false

/-- The call is going to return, or has returned, unless something happens to it. -/
def Stage.returning : Stage → Bool
  | .allocated | .inserted | .dispatching | .awaiting | .resolved _ | .returned _ => true
  | .unwinding | .dropping | .panicked | .dropped => false

theorem View.stepsLeft_le (v : View) : v.stepsLeft ≤ 6 := by
  unfold stepsLeft
  split
  all_goals first | omega | (split <;> omega)

theorem Stage.ended_cases {stage ended : Stage} (h : stage.ended = some ended) :
    stage.inside = false ∧ stage.live ∧ ended.over ∧ ended.inside = false ∧
      (stage.returning → ended.returning) := by
  cases stage <;> simp [Stage.ended] at h <;> subst h <;> exact ⟨rfl, rfl, rfl, rfl, id⟩

theorem View.stepsLeft_ended {id : CommandId} {stage ended : Stage} {expired : Bool}
    (h : stage.ended = some ended) :
    (⟨id, stage, expired⟩ : View).stepsLeft = 1 ∧ (⟨id, ended, expired⟩ : View).stepsLeft = 0 := by
  cases stage <;> simp [Stage.ended] at h <;> subst h <;> exact ⟨rfl, rfl⟩

namespace Dispatcher

def views (d : Dispatcher Fl) : List View := d.sends.map SendFuture.view

/-- How many steps there are left for the calls there are. -/
def stepsLeft (d : Dispatcher Fl) : Nat := (d.views.map View.stepsLeft).sum

theorem stepsLeft_le (d : Dispatcher Fl) : d.stepsLeft ≤ 6 * d.sends.length := by
  have hle := List.sum_le_card_nsmul (d.views.map View.stepsLeft) 6
    (by simpa using fun v _ => View.stepsLeft_le v)
  simpa [stepsLeft, views, mul_comm] using hle

/-- The steps the dispatcher takes by itself, if they move something: not a poll of a call that has
to wait, nor a timer that has gone off. -/
def unaided (d : Dispatcher Fl) : Action Fl → Bool
  | .enter _ _ | .dispatch _ | .dispatchReturns _ | .dropGuard _ _ => true
  | .timerExpires k => d.sends[k]?.any fun send => !send.expired
  | .poll k => d.sends[k]?.any fun send => send.expired || send.channel.poll ≠ .pending
  | .allocate _ | .dispatchPanics _ | .dropFuture _ | .complete _ _ _ | .cancelAll _ _ => false

/-- The steps of a call at its await, which its timer has a part in. -/
def Action.atAwait : Action Fl → Bool
  | .timerExpires _ | .poll _ | .dropFuture _ => true
  | .allocate _ | .enter _ _ | .dispatch _ | .dispatchReturns _ | .dispatchPanics _
  | .dropGuard _ _ | .complete _ _ _ | .cancelAll _ _ => false

/-- Nothing is left: all calls are over, there is no entry, and the lock is free. -/
structure Drained (d : Dispatcher Fl) : Prop where
  ended : ∀ send ∈ d.sends, send.stage.over
  pending : d.pending = ∅
  frames : d.frames = []

/-! ## 2. What a step does to a call -/

/-- What a step of the call `k` makes of it, and of the frames on the lock. -/
inductive Forward (d : Dispatcher Fl) (k : Nat) : Action Fl → View → View → List Nat → Prop where
  | enter {t id expired} : Forward d k (.enter t k) ⟨id, .allocated, expired⟩
      ⟨id, .inserted, expired⟩ (k :: d.frames)
  | dispatch {id expired} : Forward d k (.dispatch k) ⟨id, .inserted, expired⟩
      ⟨id, .dispatching, expired⟩ d.frames
  | dispatchReturns {id expired} (htop : d.frames.head? = some k) : Forward d k
      (.dispatchReturns k) ⟨id, .dispatching, expired⟩ ⟨id, .awaiting, expired⟩ d.frames.tail
  | dispatchPanics {id expired} (htop : d.frames.head? = some k) : Forward d k
      (.dispatchPanics k) ⟨id, .dispatching, expired⟩ ⟨id, .unwinding, expired⟩ d.frames.tail
  | expires {id expired} : Forward d k (.timerExpires k) ⟨id, .awaiting, expired⟩
      ⟨id, .awaiting, true⟩ d.frames
  | waits {id expired} (hidle : d.unaided (.poll k) = false) : Forward d k (.poll k)
      ⟨id, .awaiting, expired⟩ ⟨id, .awaiting, expired⟩ d.frames
  | resolves {id expired arm} (helapsed : arm = .elapsed → expired = true) : Forward d k (.poll k)
      ⟨id, .awaiting, expired⟩ ⟨id, .resolved arm, expired⟩ d.frames
  | dropFuture {id expired} : Forward d k (.dropFuture k) ⟨id, .awaiting, expired⟩
      ⟨id, .dropping, expired⟩ d.frames
  | dropGuard {t id stage ended expired} (hended : stage.ended = some ended) : Forward d k
      (.dropGuard t k) ⟨id, stage, expired⟩ ⟨id, ended, expired⟩ d.frames

theorem stageOf_eq_views (d : Dispatcher Fl) (k : Nat) :
    d.stageOf k = d.views[k]?.map View.stage := by
  rw [views, List.getElem?_map, Option.map_map]
  rfl

theorem exists_view {d : Dispatcher Fl} {k : Nat} :
    (∃ v, d.views[k]? = some v ∧ v.stage.inside) ↔
      ∃ stage, d.stageOf k = some stage ∧ stage.inside := by
  simp [stageOf_eq_views]

theorem getElem?_views {d : Dispatcher Fl} {k : Nat} {send : SendFuture Fl}
    (hsend : d.sends[k]? = some send) : d.views[k]? = some send.view := by
  rw [views, List.getElem?_map, hsend, Option.map_some]

theorem views_modifySend {d : Dispatcher Fl} {k : Nat} {send : SendFuture Fl}
    (hsend : d.sends[k]? = some send) (f : SendFuture Fl → SendFuture Fl) :
    (d.modifySend k f).views = d.views.set k (f send).view := by
  have hset : (d.modifySend k f).sends = d.sends.set k (f send) := by
    rw [modifySend, List.modify_eq_set_getElem?, hsend]
    rfl
  rw [views, hset, List.map_set, views]

theorem views_dropEntry (d : Dispatcher Fl) (id : CommandId) : (d.dropEntry id).views = d.views :=
  map_dropEntry (by intros; rfl) d id

/-- Dropping an entry leaves every call what it is, up to its channel. -/
theorem exists_dropEntry {d : Dispatcher Fl} {k : Nat} {send : SendFuture Fl}
    (hsend : d.sends[k]? = some send) (id : CommandId) :
    ∃ found, (d.dropEntry id).sends[k]? = some found ∧ found.view = send.view :=
  exists_of_map (map_dropEntry (by intros; rfl) d id) hsend

theorem view_eq {send : SendFuture Fl} {stage : Stage} (hstage : send.stage = stage) :
    send.view = ⟨send.id, stage, send.expired⟩ := by rw [SendFuture.view, hstage]

theorem view_enter (send : SendFuture Fl) (stage : Stage) :
    (send.enter stage).view = { send.view with stage } := rfl

theorem view_poll {d : Dispatcher Fl} {k : Nat} {send : SendFuture Fl}
    (hsend : d.sends[k]? = some send) (hstage : send.stage = .awaiting) :
    d.Forward k (.poll k) send.view send.poll.view d.frames := by
  rw [view_eq hstage]
  unfold SendFuture.poll
  split
  · exact .resolves nofun
  · exact .resolves nofun
  · next hpending =>
    split
    · next hexpired => exact .resolves fun _ => hexpired
    · next hexpired =>
      rw [view_eq hstage]
      exact .waits (by simp [unaided, hsend, hpending, hexpired])

theorem frames_of_complete (d : Dispatcher Fl) (id : CommandId) (outcome : CommandOutcome) :
    (d.complete id outcome).1.frames = d.frames := by
  unfold complete
  cases d.pending[id]? <;> rfl

theorem frames_of_dropEntry (d : Dispatcher Fl) (id : CommandId) :
    (d.dropEntry id).frames = d.frames := by
  unfold dropEntry
  cases d.pending[id]? <;> rfl

/-- **What a step does to the calls**: a new one begins; or one of them moves; or none does. -/
theorem views_of_moves {d d' : Dispatcher Fl} {a : Action Fl} (hm : Moves d a d') :
    (∃ command, a = .allocate command ∧ d'.frames = d.frames ∧
      d'.views = d.views ++ [⟨d.ids.next.1, .allocated, false⟩]) ∨
    (∃ k v v', d.views[k]? = some v ∧ d.Forward k a v v' d'.frames ∧
      d'.views = d.views.set k v') ∨
    (d.unaided a = false ∧ d'.frames = d.frames ∧ d'.views = d.views) := by
  -- the call `k` itself
  have hself : ∀ {k : Nat} {send : SendFuture Fl} {f : SendFuture Fl → SendFuture Fl},
      d.sends[k]? = some send → d'.views = (d.modifySend k f).views →
      d.Forward k a send.view (f send).view d'.frames →
      ∃ k v v', d.views[k]? = some v ∧ d.Forward k a v v' d'.frames ∧
        d'.views = d.views.set k v' :=
    fun hsend hviews hforward =>
      ⟨_, _, _, getElem?_views hsend, hforward, hviews.trans (views_modifySend hsend _)⟩
  -- and after an entry was dropped
  have hcleaned : ∀ {k : Nat} {send : SendFuture Fl} (id : CommandId) (stage : Stage),
      d.sends[k]? = some send → d'.views = ((d.dropEntry id).modifySend k (·.enter stage)).views →
      d.Forward k a send.view { send.view with stage } d'.frames →
      ∃ k v v', d.views[k]? = some v ∧ d.Forward k a v v' d'.frames ∧
        d'.views = d.views.set k v' := by
    intro k send id stage hsend hviews hforward
    obtain ⟨found, hfound, hkept⟩ := exists_dropEntry hsend id
    refine ⟨k, _, _, getElem?_views hsend, hforward, ?_⟩
    rw [hviews, views_modifySend hfound, views_dropEntry, view_enter, hkept]
  cases hm with
  | allocate command => exact Or.inl ⟨command, rfl, rfl, List.map_append⟩
  | @enter t k send hsend hstage hlock =>
    refine Or.inr (Or.inl (hcleaned send.id .inserted hsend rfl ?_))
    rw [view_eq hstage]
    exact .enter
  | @dispatch k send hsend hstage htop =>
    refine Or.inr (Or.inl (hself (f := (·.enter .dispatching)) hsend rfl ?_))
    rw [view_enter, view_eq hstage]
    exact .dispatch
  | @dispatchReturns k send hsend hstage htop =>
    refine Or.inr (Or.inl (hself (f := (·.enter .awaiting)) hsend rfl ?_))
    rw [view_enter, view_eq hstage]
    exact .dispatchReturns htop
  | @dispatchPanics k send hsend hstage htop =>
    refine Or.inr (Or.inl (hself (f := (·.enter .unwinding)) hsend rfl ?_))
    rw [view_enter, view_eq hstage]
    exact .dispatchPanics htop
  | @timerExpires k send hsend hstage =>
    refine Or.inr (Or.inl (hself (f := SendFuture.expire) hsend rfl ?_))
    have hexpired : send.expire.stage = .awaiting := hstage
    rw [view_eq hstage, view_eq hexpired]
    exact .expires
  | @poll k send hsend hstage =>
    exact Or.inr (Or.inl (hself (f := SendFuture.poll) hsend rfl (view_poll hsend hstage)))
  | @dropFuture k send hsend hstage =>
    refine Or.inr (Or.inl (hself (f := fun send => send.dropReceiver.enter .dropping) hsend rfl ?_))
    rw [view_eq hstage]
    exact .dropFuture
  | @dropGuard t k send ended hsend hended hlock =>
    refine Or.inr (Or.inl (hcleaned send.id ended hsend rfl ?_))
    have hframes : (d.cleanUp k send.id ended).frames = d.frames := frames_of_dropEntry d send.id
    rw [hframes]
    exact .dropGuard hended
  | @complete t id outcome hlock =>
    exact Or.inr (Or.inr
      ⟨rfl, frames_of_complete d id outcome, map_complete (by intros; rfl) d id outcome⟩)
  | @cancelAll t order hlock =>
    exact Or.inr (Or.inr ⟨rfl, rfl, map_cancelAll (by intros; rfl) order d⟩)

/-- A call at its await stays there until it is polled or dropped. -/
theorem awaiting_stays {d d' : Dispatcher Fl} {a : Action Fl} (hm : Moves d a d') {k : Nat}
    (hstage : d.stageOf k = some .awaiting) (hpoll : a ≠ .poll k) (hdrop : a ≠ .dropFuture k) :
    d'.stageOf k = some .awaiting := by
  rw [stageOf_eq_views] at hstage ⊢
  rcases views_of_moves hm with ⟨_, -, -, hviews⟩ | ⟨j, v, v', hv, hforward, hviews⟩ |
    ⟨-, -, hviews⟩
  · obtain ⟨v, hv, hstage⟩ := Option.map_eq_some_iff.mp hstage
    rw [hviews, List.getElem?_append_left (List.getElem?_eq_some_iff.mp hv).1, hv]
    exact congrArg some hstage
  · by_cases hj : j = k
    · subst hj
      rw [hv] at hstage
      have hstage := Option.some.inj hstage
      rw [hviews, List.getElem?_set_self (List.getElem?_eq_some_iff.mp hv).1]
      generalize d'.frames = frames at hforward
      cases hforward with
      | expires => rfl
      | waits | resolves => exact absurd rfl hpoll
      | dropFuture => exact absurd rfl hdrop
      | dropGuard hended =>
        obtain rfl := hstage
        cases hended
      | _ => cases hstage
    · rw [hviews, List.getElem?_set_ne hj, hstage]
  · rw [hviews, hstage]

/-! ## 3. The count -/

/-- Replacing one summand. -/
theorem sum_set {A : Type} (g : A → Nat) {l : List A} {k : Nat} {a : A} (h : l[k]? = some a) (b : A) :
    ((l.set k b).map g).sum + g a = (l.map g).sum + g b := by
  induction l generalizing k with
  | nil => cases h
  | cons head l ih =>
    cases k with
    | zero =>
      obtain rfl := Option.some.inj h
      simp only [List.set_cons_zero, List.map_cons, List.sum_cons]
      omega
    | succ k =>
      have hrest := ih h
      simp only [List.set_cons_succ, List.map_cons, List.sum_cons]
      omega

theorem send_of_view {d : Dispatcher Fl} {k : Nat} {v : View} (hv : d.views[k]? = some v) :
    ∃ send, d.sends[k]? = some send ∧ send.view = v := by
  rw [views, List.getElem?_map] at hv
  exact Option.map_eq_some_iff.mp hv

theorem Forward.stepsLeft_lt {d : Dispatcher Fl} {k : Nat} {a : Action Fl} {v v' : View}
    {frames : List Nat} (h : d.Forward k a v v' frames) (hv : d.views[k]? = some v)
    (ha : d.unaided a) : v'.stepsLeft < v.stepsLeft := by
  cases h with
  | enter | dispatch => exact Nat.lt_succ_self _
  | @dispatchReturns id expired htop => cases expired <;> simp [View.stepsLeft]
  | dispatchPanics | dropFuture => cases ha
  | @expires id expired =>
    obtain ⟨send, hsend, hview⟩ := send_of_view hv
    have hexpired : expired = false := by
      rw [unaided, hsend, Option.any_some] at ha
      exact (congrArg View.expired hview).symm.trans (by simpa [SendFuture.view] using ha)
    rw [hexpired]
    exact Nat.lt_succ_self _
  | waits hidle => simp [hidle] at ha
  | @resolves id expired arm helapsed => cases expired <;> simp [View.stepsLeft]
  | dropGuard hended =>
    obtain ⟨hone, hzero⟩ := View.stepsLeft_ended hended
    rw [hone, hzero]
    exact Nat.one_pos

/-- **A step of the dispatcher by itself is one step less.** -/
theorem stepsLeft_of_unaided {d d' : Dispatcher Fl} {a : Action Fl} (hstep : step d a = some d')
    (ha : d.unaided a) : d'.stepsLeft < d.stepsLeft := by
  rcases views_of_moves (moves_of_step hstep) with ⟨command, rfl, _⟩ |
    ⟨k, v, v', hv, hforward, hviews⟩ | ⟨hnot, _⟩
  · cases ha
  · have hsum := sum_set View.stepsLeft hv v'
    have hless := hforward.stepsLeft_lt hv ha
    unfold stepsLeft
    rw [hviews]
    omega
  · simp [hnot] at ha

/-! ## 4. Who holds the lock -/

/-- The calls inside their critical section are the frames on the lock. -/
structure Framed (d : Dispatcher Fl) : Prop where
  mem_frames : ∀ k, k ∈ d.frames ↔ ∃ v, d.views[k]? = some v ∧ v.stage.inside
  nodup : d.frames.Nodup

theorem framed_new : Framed ({} : Dispatcher Fl) := ⟨by simp [views], List.nodup_nil⟩

/-- A step that moves a call neither into its critical section nor out of it. -/
theorem Framed.of_set {d d' : Dispatcher Fl} (h : d.Framed) (hframes : d'.frames = d.frames)
    {k : Nat} {v v' : View} (hv : d.views[k]? = some v) (hviews : d'.views = d.views.set k v')
    (hsame : v'.stage.inside = v.stage.inside) : d'.Framed := by
  refine ⟨fun j => ?_, hframes ▸ h.nodup⟩
  rw [hframes, h.mem_frames, hviews]
  by_cases hj : k = j
  · subst hj
    rw [List.getElem?_set_self (List.getElem?_eq_some_iff.mp hv).1, hv]
    simp [hsame]
  · rw [List.getElem?_set_ne hj]

/-- The call on top of the lock leaves its critical section. -/
theorem Framed.of_tail {d d' : Dispatcher Fl} (h : d.Framed) (hframes : d'.frames = d.frames.tail)
    {k : Nat} {v v' : View} (htop : d.frames.head? = some k) (hv : d.views[k]? = some v)
    (hviews : d'.views = d.views.set k v') (hleft : v'.stage.inside = false) : d'.Framed := by
  obtain ⟨rest, hrest⟩ := List.head?_eq_some_iff.mp htop
  have hnodup := h.nodup
  rw [hrest, List.nodup_cons] at hnodup
  rw [hrest, List.tail_cons] at hframes
  refine ⟨fun j => ?_, hframes ▸ hnodup.2⟩
  rw [hframes, hviews]
  by_cases hj : k = j
  · subst hj
    rw [List.getElem?_set_self (List.getElem?_eq_some_iff.mp hv).1]
    simp [hleft, hnodup.1]
  · rw [List.getElem?_set_ne hj, ← h.mem_frames, hrest, List.mem_cons, or_iff_right (Ne.symm hj)]

theorem Framed.step {d d' : Dispatcher Fl} {a : Action Fl} (h : d.Framed)
    (hstep : Dispatcher.step d a = some d') : d'.Framed := by
  rcases views_of_moves (moves_of_step hstep) with ⟨command, rfl, hframes, hviews⟩ |
    ⟨k, v, v', hv, hforward, hviews⟩ | ⟨_, hframes, hviews⟩
  · refine ⟨fun j => ?_, hframes ▸ h.nodup⟩
    rw [hframes, h.mem_frames, hviews]
    -- the new call is not inside
    constructor
    · rintro ⟨v, hv, hinside⟩
      exact ⟨v, by rw [List.getElem?_append_left (List.getElem?_eq_some_iff.mp hv).1, hv], hinside⟩
    · rintro ⟨v, hv, hinside⟩
      rw [List.getElem?_append] at hv
      split at hv
      · exact ⟨v, hv, hinside⟩
      · obtain rfl := List.mem_singleton.mp (List.mem_of_getElem? hv)
        cases hinside
  · generalize hframes : d'.frames = frames at hforward
    cases hforward with
    | @enter t id expired =>
      have hnot : k ∉ d.frames := fun hmem => by
        obtain ⟨v, hv', hinside⟩ := (h.mem_frames k).mp hmem
        obtain rfl := Option.some.inj (hv.symm.trans hv')
        cases hinside
      refine ⟨fun j => ?_, hframes ▸ List.nodup_cons.mpr ⟨hnot, h.nodup⟩⟩
      rw [hframes, hviews, List.mem_cons]
      by_cases hj : k = j
      · subst hj
        rw [List.getElem?_set_self (List.getElem?_eq_some_iff.mp hv).1]
        simp [Stage.inside]
      · rw [List.getElem?_set_ne hj, ← h.mem_frames, or_iff_right (Ne.symm hj)]
    | dispatch | expires | waits | resolves | dropFuture => exact h.of_set hframes hv hviews rfl
    | dispatchReturns htop | dispatchPanics htop => exact h.of_tail hframes htop hv hviews rfl
    | dropGuard hended =>
      obtain ⟨hbefore, -, -, hafter, -⟩ := Stage.ended_cases hended
      exact h.of_set hframes hv hviews (hafter.trans hbefore.symm)
  · exact ⟨fun j => by rw [hframes, hviews]; exact h.mem_frames j, hframes ▸ h.nodup⟩

theorem framed_after {actions : List (Action Fl)} {d : Dispatcher Fl}
    (hrun : after actions = some d) : d.Framed :=
  run_invariant (fun _ _ _ hstep h => h.step hstep) hrun framed_new

/-! ## 5. Whose entries there are -/

/-- Every entry is that of a call that has inserted it and is not over. -/
def Entered (d : Dispatcher Fl) : Prop :=
  ∀ (id : CommandId) (k : Nat), d.pending[id]? = some k →
    ∃ v, d.views[k]? = some v ∧ v.id = id ∧ v.stage.live

theorem pending_dropEntry (d : Dispatcher Fl) (id : CommandId) :
    (d.dropEntry id).pending = d.pending.erase id := by
  unfold dropEntry
  cases hpending : d.pending[id]? with
  | some j => rfl
  | none => exact (erase_eq_self hpending).symm

theorem of_getElem?_erase {m : HashMap CommandId Nat} {id i : CommandId} {k : Nat}
    (h : (m.erase id)[i]? = some k) : m[i]? = some k ∧ id ≠ i := by
  rw [Std.ExtTreeMap.getElem?_erase] at h
  split at h
  · cases h
  · next hne => exact ⟨h, by simpa using hne⟩

/-- An entry after a step was there before, or was inserted by it. -/
theorem pending_of_moves {d d' : Dispatcher Fl} {a : Action Fl} (hm : Moves d a d')
    {i : CommandId} {k : Nat} (hentry : d'.pending[i]? = some k) :
    (d.pending[i]? = some k ∧ ∀ t j send, a = .dropGuard t j → d.sends[j]? = some send →
      send.id ≠ i) ∨
    ∃ t send, a = .enter t k ∧ d.sends[k]? = some send ∧ send.id = i := by
  cases hm with
  | @enter t j send hsend hstage hlock =>
    have hinsert : ((d.dropEntry send.id).pending.insert send.id j)[i]? = some k := hentry
    rw [Std.ExtTreeMap.getElem?_insert, pending_dropEntry] at hinsert
    split at hinsert
    · next heq =>
      obtain rfl := Option.some.inj hinsert
      exact Or.inr ⟨t, send, rfl, hsend, by simpa using heq⟩
    · exact Or.inl ⟨(of_getElem?_erase hinsert).1, by simp⟩
  | @dropGuard t j send ended hsend hended hlock =>
    have herase : ((d.dropEntry send.id).pending)[i]? = some k := hentry
    rw [pending_dropEntry] at herase
    obtain ⟨hbefore, hne⟩ := of_getElem?_erase herase
    refine Or.inl ⟨hbefore, fun t' j' send' ha hsend' => ?_⟩
    obtain ⟨-, rfl⟩ := Action.dropGuard.inj ha
    obtain rfl := Option.some.inj (hsend.symm.trans hsend')
    exact hne
  | @complete t id outcome hlock =>
    have hcomplete : (d.complete id outcome).1.pending[i]? = some k := hentry
    refine Or.inl ⟨?_, by simp⟩
    unfold complete at hcomplete
    cases hpending : d.pending[id]? with
    | none =>
      rw [hpending] at hcomplete
      exact hcomplete
    | some j =>
      rw [hpending] at hcomplete
      exact (of_getElem?_erase hcomplete).1
  | @cancelAll t order hlock =>
    have hempty : (∅ : HashMap CommandId Nat)[i]? = some k := hentry
    simp at hempty
  | allocate | dispatch | dispatchReturns | dispatchPanics | timerExpires | poll | dropFuture =>
    exact Or.inl ⟨hentry, by simp⟩

/-- A call that moves stays in the middle of things, unless its guard is dropped. -/
theorem Forward.live {d : Dispatcher Fl} {k : Nat} {a : Action Fl} {v v' : View}
    {frames : List Nat} (h : d.Forward k a v v' frames) (hlive : v.stage.live)
    (ha : ∀ t, a ≠ .dropGuard t k) : v'.id = v.id ∧ v'.stage.live := by
  cases h with
  | enter => cases hlive
  | @dropGuard t => exact absurd rfl (ha t)
  | _ => exact ⟨rfl, rfl⟩

theorem Entered.step {d d' : Dispatcher Fl} {a : Action Fl} (h : d.Entered)
    (hstep : Dispatcher.step d a = some d') : d'.Entered := by
  intro i k hentry
  have hm := moves_of_step hstep
  rcases pending_of_moves hm hentry with ⟨hbefore, hother⟩ | ⟨t, send, rfl, hsend, rfl⟩
  · obtain ⟨v, hv, rfl, hlive⟩ := h i k hbefore
    rcases views_of_moves hm with ⟨_, _, _, hviews⟩ | ⟨j, w, w', hw, hforward, hviews⟩ |
      ⟨_, _, hviews⟩
    · exact ⟨v, by rw [hviews, List.getElem?_append_left (List.getElem?_eq_some_iff.mp hv).1, hv],
        rfl, hlive⟩
    · by_cases hj : j = k
      · subst hj
        obtain rfl := Option.some.inj (hw.symm.trans hv)
        -- a guard that is dropped has just taken its own entry
        obtain ⟨hid, hlive'⟩ := hforward.live hlive fun t ha => by
          obtain ⟨send, hsend, hview⟩ := send_of_view hv
          exact hother t j send ha hsend (congrArg View.id hview)
        exact ⟨w', by rw [hviews, List.getElem?_set_self (List.getElem?_eq_some_iff.mp hv).1],
          hid, hlive'⟩
      · exact ⟨v, by rw [hviews, List.getElem?_set_ne hj, hv], rfl, hlive⟩
    · exact ⟨v, by rw [hviews, hv], rfl, hlive⟩
  · rcases views_of_moves hm with ⟨_, ha, _⟩ | ⟨j, w, w', hw, hforward, hviews⟩ | ⟨hnot, _⟩
    · cases ha
    · generalize d'.frames = frames at hforward
      cases hforward with
      | @enter _ id expired =>
        obtain ⟨send', hsend', hview⟩ := send_of_view hw
        obtain rfl := Option.some.inj (hsend.symm.trans hsend')
        exact ⟨⟨id, .inserted, expired⟩,
          by rw [hviews, List.getElem?_set_self (List.getElem?_eq_some_iff.mp hw).1],
          (congrArg View.id hview).symm, rfl⟩
    · cases hnot

/-! ## 6. Draining -/

/-- A call inside its critical section can go on when it is on top of the lock. -/
theorem exists_step_of_top {d : Dispatcher Fl} (hframed : d.Framed) {k : Nat}
    (htop : d.frames.head? = some k) :
    ∃ a, d.unaided a ∧ a.atAwait = false ∧ (step d a).isSome := by
  obtain ⟨v, hv, hinside⟩ := (hframed.mem_frames k).mp (List.mem_of_head? htop)
  obtain ⟨send, hsend, rfl⟩ := send_of_view hv
  have hinside : send.stage.inside := hinside
  cases hstage : send.stage with
  | inserted =>
    refine ⟨.dispatch k, rfl, rfl, ?_⟩
    rw [step, hsend, Option.bind_some, if_pos ⟨hstage, htop⟩]
    rfl
  | dispatching =>
    refine ⟨.dispatchReturns k, rfl, rfl, ?_⟩
    rw [step, hsend, Option.bind_some, if_pos ⟨hstage, htop⟩]
    rfl
  | _ => simp [hstage, Stage.inside] at hinside

/-- And any other call can when the lock is free, unless it waits. -/
theorem exists_step_of_free {d : Dispatcher Fl} (hframed : d.Framed) (hfree : d.frames = [])
    {k : Nat} {send : SendFuture Fl} (hsend : d.sends[k]? = some send)
    (hover : send.stage.over = false) (hwaits : send.stage ≠ .awaiting) :
    ∃ a, d.unaided a ∧ a.atAwait = false ∧ (step d a).isSome := by
  have hlock : d.mayLock 0 := by rw [mayLock, hfree]
  have hguard : ∀ {ended}, send.stage.ended = some ended →
      ∃ a, d.unaided a ∧ a.atAwait = false ∧ (step d a).isSome := by
    intro ended hended
    refine ⟨.dropGuard 0 k, rfl, rfl, ?_⟩
    rw [step, hsend, Option.bind_some, hended, Option.bind_some, if_pos hlock]
    rfl
  have hinside : send.stage.inside = false := by
    refine eq_false_of_ne_true fun hinside => ?_
    have hmem := (hframed.mem_frames k).mpr ⟨_, getElem?_views hsend, hinside⟩
    simp [hfree] at hmem
  cases hstage : send.stage with
  | allocated =>
    refine ⟨.enter 0 k, rfl, rfl, ?_⟩
    rw [step, hsend, Option.bind_some, if_pos ⟨hstage, hlock⟩]
    rfl
  | awaiting => exact absurd hstage hwaits
  | resolved arm | unwinding | dropping => exact hguard (by rw [hstage]; rfl)
  | inserted | dispatching => simp [hstage, Stage.inside] at hinside
  | returned arm | panicked | dropped => simp [hstage, Stage.over] at hover

/-- A call that waits can always be polled, and its timer can go off. -/
theorem step_of_awaiting {d : Dispatcher Fl} {k : Nat} {send : SendFuture Fl}
    (hsend : d.sends[k]? = some send) (hstage : send.stage = .awaiting) :
    step d (.poll k) = some (d.modifySend k SendFuture.poll) ∧
      step d (.timerExpires k) = some (d.modifySend k SendFuture.expire) := by
  rw [step, step, hsend, Option.bind_some, Option.bind_some, if_pos hstage, if_pos hstage]
  exact ⟨rfl, rfl⟩

/-- **Deadlock freedom.**  When the dispatcher can do nothing by itself, nothing is left to do. -/
theorem drained_of_stuck {d : Dispatcher Fl} (hframed : d.Framed) (hentered : d.Entered)
    (hstuck : ∀ a, d.unaided a → step d a = none) : d.Drained := by
  have hnone : ¬ ∃ a, d.unaided a ∧ (step d a).isSome := by
    rintro ⟨a, ha, hstep⟩
    simp [hstuck a ha] at hstep
  have hfree : d.frames = [] := by
    cases hframes : d.frames with
    | nil => rfl
    | cons k rest =>
      obtain ⟨a, ha, -, hstep⟩ := exists_step_of_top hframed (k := k) (by rw [hframes]; rfl)
      exact absurd ⟨a, ha, hstep⟩ hnone
  have hended : ∀ (k : Nat) (send : SendFuture Fl), d.sends[k]? = some send → send.stage.over := by
    intro k send hsend
    by_cases hwaits : send.stage = .awaiting
    · obtain ⟨hpoll, hexpires⟩ := step_of_awaiting hsend hwaits
      by_cases hexpired : send.expired
      · exact absurd ⟨.poll k, by simp [unaided, hsend, hexpired], by rw [hpoll]; rfl⟩ hnone
      · exact absurd ⟨.timerExpires k, by simp [unaided, hsend, hexpired], by rw [hexpires]; rfl⟩
          hnone
    · cases hover : send.stage.over with
      | true => rfl
      | false =>
        obtain ⟨a, ha, -, hstep⟩ := exists_step_of_free hframed hfree hsend hover hwaits
        exact absurd ⟨a, ha, hstep⟩ hnone
  refine ⟨fun send hmem => ?_, Std.ExtTreeMap.ext_getElem? fun id => ?_, hfree⟩
  · obtain ⟨k, hk⟩ := List.mem_iff_getElem?.mp hmem
    exact hended k send hk
  · cases hentry : d.pending[id]? with
    | none => simp
    | some k =>
      obtain ⟨v, hv, -, hlive⟩ := hentered id k hentry
      obtain ⟨send, hsend, rfl⟩ := send_of_view hv
      have hlive : send.stage.live := hlive
      have hover := hended k send hsend
      cases hstage : send.stage <;> simp [hstage, Stage.live, Stage.over] at hlive hover

theorem entered_new : Entered ({} : Dispatcher Fl) := by
  intro id k hentry
  simp at hentry

/-- A call that was going to return still is, or has. -/
theorem Forward.returning {d : Dispatcher Fl} {k : Nat} {a : Action Fl} {v v' : View}
    {frames : List Nat} (h : d.Forward k a v v' frames) (ha : d.unaided a)
    (hreturning : v.stage.returning) : v'.stage.returning := by
  cases h with
  | dispatchPanics | dropFuture => cases ha
  | dropGuard hended =>
    obtain ⟨-, -, -, -, hreturns⟩ := Stage.ended_cases hended
    exact hreturns hreturning
  | _ => rfl

/-- The call `k` is going to return, or has returned. -/
def Returning (k : Nat) (d : Dispatcher Fl) : Prop :=
  ∃ v, d.views[k]? = some v ∧ v.stage.returning

theorem Returning.step {d d' : Dispatcher Fl} {a : Action Fl} {k : Nat} (h : d.Returning k)
    (hstep : Dispatcher.step d a = some d') (ha : d.unaided a) : d'.Returning k := by
  obtain ⟨v, hv, hreturning⟩ := h
  rcases views_of_moves (moves_of_step hstep) with ⟨_, rfl, _⟩ |
    ⟨j, w, w', hw, hforward, hviews⟩ | ⟨hnot, _⟩
  · cases ha
  · by_cases hj : j = k
    · subst hj
      obtain rfl := Option.some.inj (hw.symm.trans hv)
      exact ⟨w', by rw [hviews, List.getElem?_set_self (List.getElem?_eq_some_iff.mp hv).1],
        hforward.returning ha hreturning⟩
    · exact ⟨v, by rw [hviews, List.getElem?_set_ne hj, hv], hreturning⟩
  · simp [hnot] at ha

theorem length_le_of_unaided {more : List (Action Fl)} {d d' : Dispatcher Fl}
    (hmore : run step d more = some d') (hunaided : guarded step unaided d more) :
    more.length + d'.stepsLeft ≤ d.stepsLeft := by
  have hpaid : more.countP (fun _ => true) + d'.stepsLeft ≤ d.stepsLeft := by
    refine guarded_pays (fun d a d' hstep ha => ?_) hmore hunaided
    have hless := stepsLeft_of_unaided hstep ha
    rw [if_pos rfl]
    omega
  rwa [List.countP_true] at hpaid

/-- **The dispatcher drains.**  After any run of calls, acknowledgements, cancellations, panics and
dropped futures, let the dispatcher go on by itself in whatever order: every step that moves
something is one of at most six for each call.  When there is none left to take, all calls are
over, `pending` is empty and the lock is free; and every call that had not panicked, nor had been
dropped, has returned an outcome to its caller. -/
theorem dispatcher_drains {actions more : List (Action Fl)} {d d' : Dispatcher Fl}
    (hrun : after actions = some d) (hmore : run step d more = some d')
    (hunaided : guarded step unaided d more) :
    more.length ≤ d.stepsLeft ∧ d.stepsLeft ≤ 6 * d.sends.length ∧
    ((∀ a, d'.unaided a → step d' a = none) → d'.Drained ∧
      ∀ k, d.Returning k → ∃ arm, d'.stageOf k = some (.returned arm)) := by
  have hall : after (actions ++ more) = some d' := run_append.mpr ⟨d, hrun, hmore⟩
  have hentered : d'.Entered := run_invariant (fun _ _ _ hstep h => h.step hstep) hall entered_new
  have hlength := length_le_of_unaided hmore hunaided
  refine ⟨by omega, d.stepsLeft_le, fun hstuck => ?_⟩
  have hdrained := drained_of_stuck (framed_after hall) hentered hstuck
  refine ⟨hdrained, fun k hreturning => ?_⟩
  obtain ⟨v, hv, hreturning⟩ := run_guarded (P := Returning k)
    (fun _ _ _ hstep ha h => h.step hstep ha) hmore hunaided hreturning
  obtain ⟨send, hsend, rfl⟩ := send_of_view hv
  have hreturning : send.stage.returning := hreturning
  have hover := hdrained.ended send (List.mem_of_getElem? hsend)
  rw [stageOf, hsend, Option.map_some]
  cases hstage : send.stage <;> simp [hstage, Stage.returning, Stage.over] at hreturning hover ⊢

/-- A call that is never acknowledged, and one made inside its `dispatch` that is. -/
def unacknowledged : List (Action Floats.bits) :=
  [.allocate .sample, .enter 0 0, .dispatch 0, .allocate .sample, .enter 0 1, .dispatch 1,
    .complete 0 ⟨1⟩ .success]

/-- How they end. -/
def unacknowledgedEnd : List (Action Floats.bits) :=
  [.dispatchReturns 1, .dispatchReturns 0, .timerExpires 0, .poll 1, .poll 0, .dropGuard 0 0,
    .dropGuard 1 1]

theorem dispatcher_drains_sample :
    ∃ d d', after unacknowledged = some d ∧ run step d unacknowledgedEnd = some d' ∧
      unacknowledgedEnd.length ≤ d.stepsLeft ∧ d.stepsLeft ≤ 6 * d.sends.length :=
  have hrun : after unacknowledged = some _ := rfl
  have hmore : run step _ unacknowledgedEnd = some _ := rfl
  have h := dispatcher_drains hrun hmore rfl
  ⟨_, _, rfl, rfl, h.1, h.2.1⟩

end Dispatcher

end MinervaServer
