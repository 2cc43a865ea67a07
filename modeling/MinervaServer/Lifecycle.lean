/-
# The life of one command

The abstract model of the dispatcher: one command by itself.  A `Life` is what concerns one call
of `send`, its entry of `pending` and what was observed of its id, in order; `Life.Step` says
how a life goes on, and never mentions another command.  The dispatcher is made of its lives: in
every step of it every life either stays as it is or makes a step of its own (`life_step`), and
a life after a step is one from before it or has just begun (`life_of_moves`).  So what is to be
proved of any interleaving of any number of commands is proved of one life (`Life.Sound`) and
holds of all of them.

What ties the two together is that ids are not reused, which is where the number of sends has
to stay below 2^64, and that a `send` that has inserted its entry is on top of the lock until
the engine was told.
-/
import MinervaServer.Dispatcher

namespace MinervaServer

open Lib

variable {Fl : Floats}

/-! ## 1. Histories -/

/-- How an id was taken out of `pending`. -/
inductive Take where
  | completed (outcome : CommandOutcome)
  | cancelled
  | cleaned
  deriving DecidableEq, Repr

/-- The outcome that goes to the waiting call when its id is taken out this way. -/
def Take.outcome : Take → Option CommandOutcome
  | .completed outcome => some outcome
  | .cancelled => some .cancelled
  | .cleaned => none

/-- What can be observed of one id. -/
inductive Moment where
  | inserted
  | dispatched
  | taken (take : Take)
  | returned (outcome : CommandOutcome)
  deriving DecidableEq, Repr

/-- The ways an id with this history was taken out of `pending`. -/
def takes (moments : List Moment) : List Take :=
  moments.filterMap fun
    | .taken take => some take
    | _ => none

/-- What an observation says about this id. -/
def Observation.moment (id : CommandId) : Observation Fl → Option Moment
  | .inserted i => if i = id then some .inserted else none
  | .dispatched i _ => if i = id then some .dispatched else none
  | .completed i outcome acknowledged =>
    if i = id ∧ acknowledged then some (.taken (.completed outcome)) else none
  | .cancelledAll drained => if id ∈ drained then some (.taken .cancelled) else none
  | .cleaned i found => if i = id ∧ found then some (.taken .cleaned) else none
  | .returned i outcome => if i = id then some (.returned outcome) else none

/-- What was observed of this id, in order. -/
def history (trace : List (Observation Fl)) (id : CommandId) : List Moment :=
  trace.filterMap (·.moment id)

theorem history_append (trace more : List (Observation Fl)) (id : CommandId) :
    history (trace ++ more) id = history trace id ++ history more id :=
  List.filterMap_append

theorem history_concat (trace : List (Observation Fl)) (o : Observation Fl) (id : CommandId) :
    history (trace ++ [o]) id = history trace id ++ (o.moment id).toList := by
  rw [history_append]
  cases hm : o.moment id <;> simp [history, hm]

/-- What is seen when the guard of `id` is dropped. -/
theorem history_cleaned (id i : CommandId) (found : Bool) (result : Option CommandOutcome) :
    history (.cleaned id found :: (result.map (.returned id)).toList : List (Observation Fl)) i =
      if i = id then
        (if found then [.taken .cleaned] else []) ++ (result.map Moment.returned).toList
      else [] := by
  by_cases h : i = id
  · subst h
    cases result <;> cases found <;> simp [history, Observation.moment]
  · cases result <;> simp [history, Observation.moment, h, Ne.symm h]

theorem taken_completed_mem {trace : List (Observation Fl)} {id : CommandId}
    {outcome : CommandOutcome} :
    .taken (.completed outcome) ∈ history trace id ↔ .completed id outcome true ∈ trace := by
  rw [history, List.mem_filterMap]
  constructor
  · rintro ⟨o, ho, hm⟩
    cases o <;> simp_all [Observation.moment]
  · intro h
    exact ⟨_, h, by simp [Observation.moment]⟩

theorem taken_cancelled_mem {trace : List (Observation Fl)} {id : CommandId} :
    .taken .cancelled ∈ history trace id ↔ ∃ drained, .cancelledAll drained ∈ trace ∧
      id ∈ drained := by
  rw [history, List.mem_filterMap]
  constructor
  · rintro ⟨o, ho, hm⟩
    cases o <;> simp_all [Observation.moment]
    exact ⟨_, ho, hm⟩
  · rintro ⟨drained, h, hid⟩
    exact ⟨_, h, by simp [Observation.moment, hid]⟩

theorem returned_mem {trace : List (Observation Fl)} {id : CommandId} {outcome : CommandOutcome} :
    .returned outcome ∈ history trace id ↔ .returned id outcome ∈ trace := by
  rw [history, List.mem_filterMap]
  constructor
  · rintro ⟨o, ho, hm⟩
    cases o <;> simp_all [Observation.moment]
  · intro h
    exact ⟨_, h, by simp [Observation.moment]⟩

/-! ## 2. One life -/

/-- What concerns one call of `send`. -/
structure Life (Fl : Floats) where
  send : SendFuture Fl
  /-- `pending` has its entry. -/
  held : Bool
  history : List Moment

namespace Life

/-- The entry is taken and its outcome sent to the waiting call. -/
def take (l : Life Fl) (taken : Take) (outcome : CommandOutcome) : Life Fl :=
  { send := l.send.deliver outcome
    held := false
    history := l.history ++ [.taken taken] }

/-- The guard is dropped: the entry goes if it is there. -/
def clean (l : Life Fl) (ended : Stage) : Life Fl :=
  { send := (if l.held then l.send.dropSender else l.send).enter ended
    held := false
    history := l.history ++ (if l.held then [.taken .cleaned] else []) ++
      (ended.result.map Moment.returned).toList }

/-- How the life of the call `k` goes on at an action of the dispatcher. -/
inductive Step (k : Nat) (l : Life Fl) : Dispatcher.Action Fl → Life Fl → Prop where
  | enter {t : ThreadId} (hstage : l.send.stage = .allocated) :
      Step k l (.enter t k)
        { send := l.send.enter .inserted, held := true, history := l.history ++ [.inserted] }
  | dispatch (hstage : l.send.stage = .inserted) :
      Step k l (.dispatch k)
        { l with send := l.send.enter .dispatching, history := l.history ++ [.dispatched] }
  | dispatchReturns (hstage : l.send.stage = .dispatching) :
      Step k l (.dispatchReturns k) { l with send := l.send.enter .awaiting }
  | dispatchPanics (hstage : l.send.stage = .dispatching) :
      Step k l (.dispatchPanics k) { l with send := l.send.enter .unwinding }
  | timerExpires (hstage : l.send.stage = .awaiting) :
      Step k l (.timerExpires k) { l with send := l.send.expire }
  | poll (hstage : l.send.stage = .awaiting) :
      Step k l (.poll k) { l with send := l.send.poll }
  | dropFuture (hstage : l.send.stage = .awaiting) :
      Step k l (.dropFuture k) { l with send := l.send.dropReceiver.enter .dropping }
  | dropGuard {t : ThreadId} {ended : Stage}
      (hended : l.send.stage.ended = some ended) : Step k l (.dropGuard t k) (l.clean ended)
  | complete {t : ThreadId} {outcome : CommandOutcome} (hheld : l.held = true)
      (hstage : l.send.stage ≠ .inserted) :
      Step k l (.complete t l.send.id outcome) (l.take (.completed outcome) outcome)
  | cancelAll {t : ThreadId} {order : IterOrder CommandId} (hheld : l.held = true)
      (hstage : l.send.stage ≠ .inserted) :
      Step k l (.cancelAll t order) (l.take .cancelled .cancelled)

/-! ## 3. What holds throughout a life -/

/-- Dispatched, and the entry is still there. -/
def Untaken (l : Life Fl) : Prop :=
  l.held = true ∧ l.history = [.inserted, .dispatched]

/-- Dispatched, and the entry was taken this way; and then `rest`. -/
def Taken (l : Life Fl) (taken : Take) (rest : List Moment) : Prop :=
  l.held = false ∧ l.history = .inserted :: .dispatched :: .taken taken :: rest

/-- **The invariant of a life.**  At each stage: whether the entry is there, what was observed
so far, and, while the call waits, what its channel holds. -/
def Sound (l : Life Fl) : Prop :=
  match l.send.stage with
  | .allocated => l.held = false ∧ l.history = [] ∧ l.send.channel = {}
  | .inserted => l.held = true ∧ l.history = [.inserted] ∧ l.send.channel = {}
  | .dispatching | .awaiting =>
    (l.Untaken ∧ l.send.channel = {}) ∨
      ∃ taken outcome, taken.outcome = some outcome ∧ l.Taken taken [] ∧
        l.send.channel = ({} : Oneshot CommandOutcome).send outcome
  | .resolved (.delivered outcome) => ∃ taken, taken.outcome = some outcome ∧ l.Taken taken []
  | .resolved .elapsed | .unwinding | .dropping =>
    l.Untaken ∨ ∃ taken outcome, taken.outcome = some outcome ∧ l.Taken taken []
  | .returned (.delivered outcome) =>
    ∃ taken, taken.outcome = some outcome ∧ l.Taken taken [.returned outcome]
  | .returned .elapsed => ∃ taken, l.Taken taken [.returned .timeout]
  -- the sender is never dropped before the await has resolved
  | .resolved .senderDropped | .returned .senderDropped => False
  | .panicked | .dropped => ∃ taken, l.Taken taken []

/-- A life begins with its id. -/
theorem sound_new (id : CommandId) (command : Command Fl) :
    Sound { send := { id, command }, held := false, history := [] } := ⟨rfl, rfl, rfl⟩

/-- When a waiting call is polled: it gets the outcome its entry was taken with, or goes on
waiting, or times out with its entry still there. -/
theorem sound_poll {l : Life Fl} (h : l.Sound) (hstage : l.send.stage = .awaiting) :
    Sound { l with send := l.send.poll } := by
  simp only [Sound, hstage] at h
  rcases h with ⟨huntaken, hchannel⟩ | ⟨taken, outcome, htaken, hlife, hchannel⟩
  · have hpoll : l.send.channel.poll = .pending := by rw [hchannel]; rfl
    cases hexpired : l.send.expired with
    | false =>
      simp only [SendFuture.poll, hpoll, hexpired, Bool.false_eq_true, if_false, Sound, hstage]
      exact Or.inl ⟨huntaken, hchannel⟩
    | true =>
      simp only [SendFuture.poll, hpoll, hexpired, if_true, Sound, SendFuture.enter]
      exact Or.inl huntaken
  · have hpoll : l.send.channel.poll = .ready outcome := by rw [hchannel]; rfl
    simp only [SendFuture.poll, hpoll, Sound, SendFuture.enter]
    exact ⟨taken, htaken, hlife⟩

/-- When the entry is taken, the outcome is in the channel of a call that waits, and lost on a
call whose await has resolved. -/
theorem sound_take {l : Life Fl} (h : l.Sound) (hheld : l.held = true)
    (hstage : l.send.stage ≠ .inserted) {taken : Take} {outcome : CommandOutcome}
    (htaken : taken.outcome = some outcome) : (l.take taken outcome).Sound := by
  have huntaken : ∀ {t rest}, ¬l.Taken t rest := fun ht => by simp [ht.1] at hheld
  have hlife : l.Untaken → (l.take taken outcome).Taken taken [] := fun hu =>
    ⟨rfl, by rw [take, hu.2]; rfl⟩
  cases hs : l.send.stage with
  | inserted => exact absurd hs hstage
  | allocated =>
    simp only [Sound, hs] at h
    simp [h.1] at hheld
  | dispatching | awaiting =>
    simp only [Sound, hs] at h
    obtain ⟨hu, hchannel⟩ := h.resolve_right fun ⟨_, _, _, ht, _⟩ => huntaken ht
    simp only [Sound, take, SendFuture.deliver, hs]
    exact Or.inr ⟨taken, outcome, htaken, hlife hu, by rw [hchannel]⟩
  | unwinding | dropping =>
    simp only [Sound, hs] at h
    have hu := h.resolve_right fun ⟨_, _, _, ht⟩ => huntaken ht
    simp only [Sound, take, SendFuture.deliver, hs]
    exact Or.inr ⟨taken, outcome, htaken, hlife hu⟩
  | resolved arm =>
    cases arm with
    | delivered =>
      simp only [Sound, hs] at h
      obtain ⟨_, _, ht⟩ := h
      exact absurd ht huntaken
    | senderDropped => simp only [Sound, hs] at h
    | elapsed =>
      simp only [Sound, hs] at h
      have hu := h.resolve_right fun ⟨_, _, _, ht⟩ => huntaken ht
      simp only [Sound, take, SendFuture.deliver, hs]
      exact Or.inr ⟨taken, outcome, htaken, hlife hu⟩
  | returned arm =>
    cases arm with
    | delivered =>
      simp only [Sound, hs] at h
      obtain ⟨_, _, ht⟩ := h
      exact absurd ht huntaken
    | senderDropped => simp only [Sound, hs] at h
    | elapsed =>
      simp only [Sound, hs] at h
      obtain ⟨_, ht⟩ := h
      exact absurd ht huntaken
  | panicked | dropped =>
    simp only [Sound, hs] at h
    obtain ⟨_, ht⟩ := h
    exact absurd ht huntaken

/-- What `clean` leaves of a call that still had its entry, and of one that had not. -/
theorem taken_clean {l : Life Fl} (h : l.Untaken ∨ ∃ taken outcome,
    taken.outcome = some outcome ∧ l.Taken taken []) (ended : Stage) :
    ∃ taken, (l.clean ended).Taken taken (ended.result.map Moment.returned).toList := by
  rcases h with ⟨hheld, hhistory⟩ | ⟨taken, outcome, -, hheld, hhistory⟩
  · exact ⟨.cleaned, rfl, by simp [clean, hheld, hhistory]⟩
  · exact ⟨taken, rfl, by simp [clean, hheld, hhistory]⟩

theorem sound_clean {l : Life Fl} (h : l.Sound) {ended : Stage}
    (hended : l.send.stage.ended = some ended) : (l.clean ended).Sound := by
  cases hs : l.send.stage with
  | resolved arm =>
    rw [hs] at hended
    obtain rfl := Option.some.inj hended
    cases arm with
    | delivered outcome =>
      simp only [Sound, hs] at h
      obtain ⟨taken, htaken, hheld, hhistory⟩ := h
      exact ⟨taken, htaken, rfl, by simp [clean, hheld, hhistory, Stage.result, Arm.outcome]⟩
    | senderDropped => simp only [Sound, hs] at h
    | elapsed =>
      simp only [Sound, hs] at h
      exact taken_clean h _
  | unwinding | dropping =>
    rw [hs] at hended
    obtain rfl := Option.some.inj hended
    simp only [Sound, hs] at h
    exact taken_clean h _
  | allocated | inserted | dispatching | awaiting | returned | panicked | dropped =>
    rw [hs] at hended
    cases hended

/-- **Every step of a life keeps its invariant.** -/
theorem Sound.step {k : Nat} {l l' : Life Fl} {a : Dispatcher.Action Fl} (h : l.Sound)
    (hstep : l.Step k a l') : l'.Sound := by
  cases hstep with
  | enter hstage =>
    simp only [Sound, hstage] at h
    obtain ⟨_, hhistory, hchannel⟩ := h
    exact ⟨rfl, by rw [hhistory]; rfl, hchannel⟩
  | dispatch hstage =>
    simp only [Sound, hstage] at h
    obtain ⟨hheld, hhistory, hchannel⟩ := h
    exact Or.inl ⟨⟨hheld, by rw [hhistory]; rfl⟩, hchannel⟩
  | dispatchReturns hstage =>
    simp only [Sound, hstage] at h
    exact h
  | dispatchPanics hstage =>
    simp only [Sound, hstage] at h
    exact h.imp And.left fun ⟨taken, outcome, htaken, hlife, _⟩ => ⟨taken, outcome, htaken, hlife⟩
  | timerExpires hstage =>
    simp only [Sound, hstage] at h
    simp only [Sound, SendFuture.expire, hstage]
    exact h
  | poll hstage => exact sound_poll h hstage
  | dropFuture hstage =>
    simp only [Sound, hstage] at h
    exact h.imp And.left fun ⟨taken, outcome, htaken, hlife, _⟩ => ⟨taken, outcome, htaken, hlife⟩
  | dropGuard hended => exact sound_clean h hended
  | complete hheld hstage => exact sound_take h hheld hstage rfl
  | cancelAll hheld hstage => exact sound_take h hheld hstage rfl

/-- The five phases of a life: the entry is not yet there; it is inserted; the engine was told;
the entry was taken for the waiting call; the call is over. -/
theorem Sound.phases {l : Life Fl} (h : l.Sound) :
    (l.send.stage = .allocated ∧ l.held = false ∧ l.history = []) ∨
    (l.send.stage = .inserted ∧ l.held = true ∧ l.history = [.inserted]) ∨
    (l.send.stage.live ∧ l.Untaken) ∨
    (l.send.stage.live ∧ ∃ taken outcome, taken.outcome = some outcome ∧ l.Taken taken []) ∨
    (l.send.stage.over ∧ ∃ taken, l.Taken taken (l.send.stage.result.map Moment.returned).toList)
    := by
  cases hs : l.send.stage with
  | allocated =>
    simp only [Sound, hs] at h
    exact Or.inl ⟨rfl, h.1, h.2.1⟩
  | inserted =>
    simp only [Sound, hs] at h
    exact Or.inr (Or.inl ⟨rfl, h.1, h.2.1⟩)
  | dispatching | awaiting =>
    simp only [Sound, hs] at h
    rcases h with ⟨huntaken, -⟩ | ⟨taken, outcome, htaken, hlife, -⟩
    · exact Or.inr (Or.inr (Or.inl ⟨rfl, huntaken⟩))
    · exact Or.inr (Or.inr (Or.inr (Or.inl ⟨rfl, taken, outcome, htaken, hlife⟩)))
  | unwinding | dropping =>
    simp only [Sound, hs] at h
    rcases h with huntaken | hlife
    · exact Or.inr (Or.inr (Or.inl ⟨rfl, huntaken⟩))
    · exact Or.inr (Or.inr (Or.inr (Or.inl ⟨rfl, hlife⟩)))
  | resolved arm =>
    cases arm with
    | delivered outcome =>
      simp only [Sound, hs] at h
      obtain ⟨taken, htaken, hlife⟩ := h
      exact Or.inr (Or.inr (Or.inr (Or.inl ⟨rfl, taken, outcome, htaken, hlife⟩)))
    | senderDropped => simp only [Sound, hs] at h
    | elapsed =>
      simp only [Sound, hs] at h
      rcases h with huntaken | hlife
      · exact Or.inr (Or.inr (Or.inl ⟨rfl, huntaken⟩))
      · exact Or.inr (Or.inr (Or.inr (Or.inl ⟨rfl, hlife⟩)))
  | returned arm =>
    cases arm with
    | delivered outcome =>
      simp only [Sound, hs] at h
      obtain ⟨taken, -, hlife⟩ := h
      exact Or.inr (Or.inr (Or.inr (Or.inr ⟨rfl, taken, hlife⟩)))
    | senderDropped => simp only [Sound, hs] at h
    | elapsed =>
      simp only [Sound, hs] at h
      exact Or.inr (Or.inr (Or.inr (Or.inr ⟨rfl, h⟩)))
  | panicked | dropped =>
    simp only [Sound, hs] at h
    exact Or.inr (Or.inr (Or.inr (Or.inr ⟨rfl, h⟩)))

/-- A life keeps its id. -/
theorem Step.id_eq {k : Nat} {l l' : Life Fl} {a : Dispatcher.Action Fl} (h : l.Step k a l') :
    l'.send.id = l.send.id := by
  cases h with
  | poll => exact SendFuture.poll_id l.send
  | dropGuard =>
    rw [clean]
    show (ite _ _ _ : SendFuture Fl).id = _
    split <;> rfl
  | _ => rfl

/-- A call gets to the point where its entry is inserted and the engine not told by inserting
its entry. -/
theorem Step.inserted {k : Nat} {l l' : Life Fl} {a : Dispatcher.Action Fl} (h : l.Step k a l')
    (hstage : l'.send.stage = .inserted) : ∃ t, a = .enter t k := by
  cases h with
  | @enter t => exact ⟨t, rfl⟩
  | poll hawaiting =>
    simp only [SendFuture.poll] at hstage
    split at hstage
    · cases hstage
    · cases hstage
    · split at hstage
      · cases hstage
      · cases hawaiting.symm.trans hstage
  | timerExpires hawaiting => cases hawaiting.symm.trans hstage
  | @dropGuard _ ended hended =>
    obtain rfl : ended = .inserted := hstage
    cases hs : l.send.stage <;> rw [hs] at hended <;> cases hended
  | complete _ hne => exact absurd hstage hne
  | cancelAll _ hne => exact absurd hstage hne
  | dispatch | dispatchReturns | dispatchPanics | dropFuture => cases hstage

end Life

namespace Dispatcher

/-! ## 4. The lives of a dispatcher -/

/-- What concerns the call `k`. -/
def life (d : Dispatcher Fl) (k : Nat) : Option (Life Fl) :=
  d.sends[k]?.map fun send =>
    { send, held := d.pending[send.id]? = some k, history := history d.trace send.id }

theorem life_of_send {d : Dispatcher Fl} {k : Nat} {send : SendFuture Fl}
    (h : d.sends[k]? = some send) :
    d.life k =
      some ⟨send, decide (d.pending[send.id]? = some k), history d.trace send.id⟩ := by
  rw [life, h, Option.map_some]

/-- **What holds between the lives.**  Ids are handed out in order and each once, an entry is
that of a call with its id, nothing was observed of an id that was not handed out, and a call
that has inserted its entry holds the lock until it enters `dispatch`. -/
structure WellFormed (d : Dispatcher Fl) : Prop where
  counter : d.ids.counter = UInt64.ofNat d.sends.length
  ids : ∀ k (send : SendFuture Fl), d.sends[k]? = some send → send.id = ⟨UInt64.ofNat k⟩
  entry : ∀ (id : CommandId) (k : Nat), d.pending[id]? = some k →
    ∃ send : SendFuture Fl, d.sends[k]? = some send ∧ send.id = id
  known : ∀ (id : CommandId), (∀ send ∈ d.sends, send.id ≠ id) → history d.trace id = []
  locked : ∀ k, d.stageOf k = some .inserted → d.frames.head? = some k

/-- The invariant of a dispatcher. -/
structure Inv (d : Dispatcher Fl) : Prop extends WellFormed d where
  sound : ∀ k l, d.life k = some l → l.Sound

theorem inv_new : Inv ({} : Dispatcher Fl) where
  counter := rfl
  ids := by simp
  entry := by simp
  known := fun _ _ => rfl
  locked := by simp [stageOf]
  sound := by simp [life]

section

variable {d : Dispatcher Fl} (h : WellFormed d) (hfew : d.sends.length < 2 ^ 64)
include h hfew

/-- Different calls have different ids. -/
theorem WellFormed.id_inj {j k : Nat} {first second : SendFuture Fl}
    (hj : d.sends[j]? = some first) (hk : d.sends[k]? = some second)
    (hid : first.id = second.id) : j = k := by
  have hjlt := (List.getElem?_eq_some_iff.mp hj).1
  have hklt := (List.getElem?_eq_some_iff.mp hk).1
  rw [h.ids j first hj, h.ids k second hk, CommandId.mk.injEq] at hid
  have hnat := congrArg UInt64.toNat hid
  rwa [UInt64.toNat_ofNat_of_lt' (hjlt.trans hfew),
    UInt64.toNat_ofNat_of_lt' (hklt.trans hfew)] at hnat

/-- The entry of a call's id is its own. -/
theorem WellFormed.entry_eq {j k : Nat} {send : SendFuture Fl} (hk : d.sends[k]? = some send)
    (hj : d.pending[send.id]? = some j) : j = k := by
  obtain ⟨other, hother, hid⟩ := h.entry _ _ hj
  exact h.id_inj hfew hother hk hid

end

/-- Whoever has the lock, no call is between inserting its entry and telling the engine. -/
theorem WellFormed.not_inserted {d : Dispatcher Fl} (h : WellFormed d) {t : ThreadId}
    (hlock : d.mayLock t) {k : Nat} {send : SendFuture Fl} (hk : d.sends[k]? = some send) :
    send.stage ≠ .inserted := by
  intro hstage
  have hstageOf : d.stageOf k = some .inserted := by rw [stageOf, hk, Option.map_some, hstage]
  have htop := h.locked k hstageOf
  rw [mayLock] at hlock
  cases hframes : d.frames with
  | nil => simp [hframes] at htop
  | cons j rest =>
    rw [hframes, List.head?_cons, Option.some.injEq] at htop
    subst htop
    simp [hframes, hstageOf] at hlock

/-! ## 5. Steps that concern one call -/

theorem modifySend_of {d : Dispatcher Fl} {k : Nat} {send : SendFuture Fl}
    (h : d.sends[k]? = some send) (f : SendFuture Fl → SendFuture Fl) :
    d.modifySend k f = { d with sends := d.sends.set k (f send) } := by
  rw [modifySend, List.modify_eq_set_getElem?, h]
  rfl

/-- The life of the call `send` at `k`. -/
def lifeOf (d : Dispatcher Fl) (k : Nat) (send : SendFuture Fl) : Life Fl :=
  { send, held := d.pending[send.id]? = some k, history := history d.trace send.id }

theorem WellFormed.mem_pending {d : Dispatcher Fl} (h : WellFormed d)
    (hfew : d.sends.length < 2 ^ 64) {k : Nat} {send : SendFuture Fl}
    (hsend : d.sends[k]? = some send) :
    send.id ∈ d.pending ↔ (d.lifeOf k send).held = true := by
  rw [Std.ExtTreeMap.mem_iff_isSome_getElem?, lifeOf, decide_eq_true_iff]
  constructor
  · intro hsome
    obtain ⟨j, hj⟩ := Option.isSome_iff_exists.mp hsome
    exact h.entry_eq hfew hsend hj ▸ hj
  · intro hentry
    rw [hentry]
    rfl

/-- The step concerns the call `send` at `k` alone, whose life is then `l`. -/
structure OnlyAt (d d' : Dispatcher Fl) (k : Nat) (send : SendFuture Fl) (l : Life Fl) : Prop where
  here : d'.life k = some l
  length : d'.sends.length = d.sends.length
  ids : d'.ids = d.ids
  entry : ∀ j, d'.pending[send.id]? = some j → j = k
  sends : ∀ j, j ≠ k → d'.sends[j]? = d.sends[j]?
  pending : ∀ (id : CommandId), id ≠ send.id → d'.pending[id]? = d.pending[id]?
  history : ∀ id, id ≠ send.id → history d'.trace id = history d.trace id

/-- A step that replaces one call, leaves the other entries and sees nothing of other ids. -/
theorem onlyAt {d d' : Dispatcher Fl} {k : Nat} {send : SendFuture Fl} {l : Life Fl}
    (hsend : d.sends[k]? = some send) (hids : d'.ids = d.ids) (hid : l.send.id = send.id)
    (hsends : d'.sends = d.sends.set k l.send)
    (hheld : d'.pending[send.id]? = if l.held then some k else none)
    (hpending : ∀ (id : CommandId), id ≠ send.id → d'.pending[id]? = d.pending[id]?)
    (hhere : MinervaServer.history d'.trace send.id = l.history)
    (hhistory : ∀ id, id ≠ send.id →
      MinervaServer.history d'.trace id = MinervaServer.history d.trace id) :
    OnlyAt d d' k send l where
  here := by
    have hk : k < d.sends.length := (List.getElem?_eq_some_iff.mp hsend).1
    rw [life_of_send (hsends ▸ List.getElem?_set_self hk), hid, hheld, hhere]
    cases hl : l.held <;> simp [← hl]
  length := by rw [hsends, List.length_set]
  ids := hids
  entry := by
    intro j hj
    rw [hheld] at hj
    split at hj
    · exact (Option.some.inj hj).symm
    · cases hj
  sends := fun j hj => by rw [hsends, List.getElem?_set_ne (Ne.symm hj)]
  pending := hpending
  history := hhistory

/-- The same, when `pending` stays as it is. -/
theorem onlyAt_send {d d' : Dispatcher Fl} {k : Nat} {send : SendFuture Fl} {l : Life Fl}
    (h : WellFormed d) (hfew : d.sends.length < 2 ^ 64) (hsend : d.sends[k]? = some send)
    (hids : d'.ids = d.ids) (hid : l.send.id = send.id)
    (hsends : d'.sends = d.sends.set k l.send) (hpending : d'.pending = d.pending)
    (hheld : l.held = (d.lifeOf k send).held)
    (hhere : MinervaServer.history d'.trace send.id = l.history)
    (hhistory : ∀ id, id ≠ send.id →
      MinervaServer.history d'.trace id = MinervaServer.history d.trace id) :
    OnlyAt d d' k send l := by
  refine onlyAt hsend hids hid hsends ?_ (fun _ _ => by rw [hpending]) hhere hhistory
  rw [hpending, hheld, lifeOf]
  cases hentry : d.pending[send.id]? with
  | none => simp
  | some j => simp [h.entry_eq hfew hsend hentry]

section

variable {d : Dispatcher Fl} {k : Nat} {send : SendFuture Fl} (hsend : d.sends[k]? = some send)
include hsend

theorem enter_eq (habsent : d.pending[send.id]? = none) (t : ThreadId) :
    d.enter t k send.id =
      { d with sends := d.sends.set k (send.enter .inserted)
               pending := d.pending.insert send.id k
               frames := k :: d.frames
               holder := t
               trace := d.trace ++ [.inserted send.id] } := by
  have hdrop : d.dropEntry send.id = d := by rw [dropEntry, habsent]
  have hinsert : (d.insertPending send.id k).sends[k]? = some send := by
    rw [insertPending, hdrop]
    exact hsend
  rw [enter, modifySend_of hinsert, insertPending, hdrop]

theorem complete_eq (hheld : d.pending[send.id]? = some k) (outcome : CommandOutcome) :
    d.complete send.id outcome =
      ({ d with sends := d.sends.set k (send.deliver outcome)
                pending := d.pending.erase send.id }, true) := by
  rw [complete, hheld]
  dsimp only
  rw [modifySend_of hsend]

/-- What a call's trace gets when its guard is dropped. -/
theorem cleanUp_eq (hentry : ∀ j, d.pending[send.id]? = some j → j = k) (ended : Stage) :
    d.cleanUp k send.id ended =
      { d with sends := d.sends.set k
                 ((if d.pending[send.id]? = some k then send.dropSender else send).enter ended)
               pending := d.pending.erase send.id
               trace := d.trace ++ .cleaned send.id (d.pending.contains send.id) ::
                 (ended.result.map (.returned send.id)).toList } := by
  have hk : k < d.sends.length := (List.getElem?_eq_some_iff.mp hsend).1
  cases hpending : d.pending[send.id]? with
  | none =>
    have hdrop : d.dropEntry send.id = d := by rw [dropEntry, hpending]
    rw [cleanUp, removePending, hdrop]
    dsimp only
    rw [modifySend_of hsend, erase_eq_self hpending, if_neg (by simp)]
  | some j =>
    obtain rfl := hentry j hpending
    have hdrop : d.dropEntry send.id =
        { d with sends := d.sends.set j send.dropSender
                 pending := d.pending.erase send.id } := by
      rw [dropEntry, hpending]
      dsimp only
      rw [modifySend_of hsend]
    rw [cleanUp, removePending, hdrop]
    dsimp only
    rw [modifySend_of (List.getElem?_set_self hk), if_pos rfl]
    dsimp only
    rw [List.set_set]

end

/-- **Most steps are a step of one life**: all but a new call, `cancel_all`, and a `complete`
that finds no entry. -/
theorem moves_one {d d' : Dispatcher Fl} {a : Action Fl} (h : Inv d)
    (hfew : d.sends.length < 2 ^ 64) (hm : Moves d a d') :
    (∃ command, a = .allocate command) ∨ (∃ t order, a = .cancelAll t order) ∨
    (∃ t id outcome, a = .complete t id outcome ∧ d.pending[id]? = none) ∨
    ∃ k send l, d.sends[k]? = some send ∧ OnlyAt d d' k send l ∧ (d.lifeOf k send).Step k a l := by
  cases hm with
  | allocate command => exact Or.inl ⟨command, rfl⟩
  | cancelAll => exact Or.inr (Or.inl ⟨_, _, rfl⟩)
  | @enter t k send hsend hstage hlock =>
    have hsound := h.sound k _ (life_of_send hsend)
    simp only [Life.Sound, hstage] at hsound
    have habsent : d.pending[send.id]? = none := by
      refine Option.eq_none_iff_forall_ne_some.mpr fun j hj => ?_
      obtain rfl := h.entry_eq hfew hsend hj
      exact absurd hj (by simpa using hsound.1)
    refine Or.inr (Or.inr (Or.inr ⟨k, send, _, hsend, ?_, .enter hstage⟩))
    rw [enter_eq hsend habsent]
    refine onlyAt hsend rfl rfl rfl ?_ ?_ ?_ ?_
    · simp
    · intro id hid
      simp [Std.ExtTreeMap.getElem?_insert, Ne.symm hid]
    · simp [history_concat, lifeOf, Observation.moment]
    · exact fun id hid => by simp [history_concat, Observation.moment, Ne.symm hid]
  | @dispatch k send hsend hstage htop =>
    refine Or.inr (Or.inr (Or.inr ⟨k, send, _, hsend, ?_, .dispatch hstage⟩))
    rw [dispatch, modifySend_of hsend]
    refine onlyAt_send h.toWellFormed hfew hsend rfl rfl rfl rfl rfl ?_ ?_
    · simp [history_concat, lifeOf, Observation.moment]
    · exact fun id hid => by simp [history_concat, Observation.moment, Ne.symm hid]
  | @dispatchReturns k send hsend hstage htop =>
    refine Or.inr (Or.inr (Or.inr ⟨k, send, _, hsend, ?_, .dispatchReturns hstage⟩))
    rw [leave, modifySend_of hsend]
    exact onlyAt_send h.toWellFormed hfew hsend rfl rfl rfl rfl rfl rfl fun _ _ => rfl
  | @dispatchPanics k send hsend hstage htop =>
    refine Or.inr (Or.inr (Or.inr ⟨k, send, _, hsend, ?_, .dispatchPanics hstage⟩))
    rw [leave, modifySend_of hsend]
    exact onlyAt_send h.toWellFormed hfew hsend rfl rfl rfl rfl rfl rfl fun _ _ => rfl
  | @timerExpires k send hsend hstage =>
    refine Or.inr (Or.inr (Or.inr ⟨k, send, _, hsend, ?_, .timerExpires hstage⟩))
    rw [modifySend_of hsend]
    exact onlyAt_send h.toWellFormed hfew hsend rfl rfl rfl rfl rfl rfl fun _ _ => rfl
  | @poll k send hsend hstage =>
    refine Or.inr (Or.inr (Or.inr ⟨k, send, _, hsend, ?_, .poll hstage⟩))
    rw [modifySend_of hsend]
    exact onlyAt_send h.toWellFormed hfew hsend rfl send.poll_id rfl rfl rfl rfl fun _ _ => rfl
  | @dropFuture k send hsend hstage =>
    refine Or.inr (Or.inr (Or.inr ⟨k, send, _, hsend, ?_, .dropFuture hstage⟩))
    rw [modifySend_of hsend]
    exact onlyAt_send h.toWellFormed hfew hsend rfl rfl rfl rfl rfl rfl fun _ _ => rfl
  | @dropGuard t k send ended hsend hended hlock =>
    refine Or.inr (Or.inr (Or.inr ⟨k, send, _, hsend, ?_, .dropGuard hended⟩))
    rw [cleanUp_eq hsend fun j hj => h.entry_eq hfew hsend hj]
    have hfound : d.pending.contains send.id = (d.lifeOf k send).held :=
      Bool.eq_iff_iff.mpr (Std.ExtTreeMap.mem_iff_contains.symm.trans (h.mem_pending hfew hsend))
    refine onlyAt hsend rfl ?_ ?_ ?_ ?_ ?_ ?_
    · rw [Life.clean]
      show (ite _ _ _ : SendFuture Fl).id = _
      split <;> rfl
    · simp [Life.clean, lifeOf]
    · simp [Life.clean]
    · intro id hid
      simp [Std.ExtTreeMap.getElem?_erase, Ne.symm hid]
    · rw [history_append, history_cleaned, if_pos rfl, hfound, ← List.append_assoc]
      rfl
    · intro id hid
      rw [history_append, history_cleaned, if_neg hid, List.append_nil]
  | @complete t id outcome hlock =>
    cases hentry : d.pending[id]? with
    | none => exact Or.inr (Or.inr (Or.inl ⟨t, id, outcome, rfl, hentry⟩))
    | some k =>
      obtain ⟨send, hsend, rfl⟩ := h.entry id k hentry
      refine Or.inr (Or.inr (Or.inr ⟨k, send, _, hsend, ?_,
        .complete (by simpa [lifeOf] using hentry) (h.not_inserted hlock hsend)⟩))
      rw [complete_eq hsend hentry]
      refine onlyAt hsend rfl rfl rfl ?_ ?_ ?_ ?_
      · simp [Life.take, observe]
      · intro id hid
        simp [observe, Std.ExtTreeMap.getElem?_erase, Ne.symm hid]
      · simp [history_concat, observe, Life.take, lifeOf, Observation.moment]
      · exact fun id hid => by simp [history_concat, observe, Observation.moment, Ne.symm hid]

/-- The lives of the other calls stay as they are. -/
theorem OnlyAt.life_eq {d d' : Dispatcher Fl} {k : Nat} {send : SendFuture Fl} {l : Life Fl}
    (honly : OnlyAt d d' k send l) (h : WellFormed d) (hfew : d.sends.length < 2 ^ 64)
    (hsend : d.sends[k]? = some send) {j : Nat} (hj : j ≠ k) : d'.life j = d.life j := by
  rw [life, life, honly.sends j hj]
  cases hother : d.sends[j]? with
  | none => rfl
  | some other =>
    have hid : other.id ≠ send.id := fun hid => hj (h.id_inj hfew hother hsend hid)
    rw [Option.map_some, Option.map_some, honly.pending _ hid, honly.history _ hid]

/-! ## 6. Steps that concern several calls or none -/

/-- A new call begins a new life. -/
theorem life_allocate {d : Dispatcher Fl} (h : WellFormed d)
    (hfew : d.sends.length + 1 < 2 ^ 64) (command : Command Fl) :
    (d.allocate command).life d.sends.length =
      some { send := { id := ⟨d.ids.counter⟩, command }, held := false, history := [] } := by
  have hsend : (d.allocate command).sends[d.sends.length]? =
      some { id := ⟨d.ids.counter⟩, command } := List.getElem?_concat_length
  have hnew : ∀ send ∈ d.sends, send.id ≠ ⟨d.ids.counter⟩ := by
    intro send hmem hid
    obtain ⟨k, hk⟩ := List.mem_iff_getElem?.mp hmem
    have hklt := (List.getElem?_eq_some_iff.mp hk).1
    rw [h.ids k send hk, h.counter, CommandId.mk.injEq] at hid
    have hnat := congrArg UInt64.toNat hid
    rw [UInt64.toNat_ofNat_of_lt' (by show _ < 2 ^ 64; omega),
      UInt64.toNat_ofNat_of_lt' (by show _ < 2 ^ 64; omega)] at hnat
    omega
  have habsent : (d.allocate command).pending[(⟨d.ids.counter⟩ : CommandId)]? = none := by
    refine Option.eq_none_iff_forall_ne_some.mpr fun j hj => ?_
    obtain ⟨send, hsend, hid⟩ := h.entry _ _ hj
    exact hnew send (List.mem_of_getElem? hsend) hid
  rw [life_of_send hsend, habsent]
  exact congrArg some (by simp [allocate, CommandIdAllocator.next, h.known _ hnew])

theorem wellFormed_allocate {d : Dispatcher Fl} (h : WellFormed d) (command : Command Fl) :
    WellFormed (d.allocate command) where
  counter := by
    simp only [allocate, CommandIdAllocator.next, h.counter, List.length_append,
      List.length_singleton]
    rw [UInt64.ofNat_add]
    rfl
  ids := by
    intro k send hk
    rcases Nat.lt_or_ge k d.sends.length with hlt | hge
    · exact h.ids k send (by simpa [allocate, List.getElem?_append_left hlt] using hk)
    · rw [allocate, List.getElem?_append_right hge] at hk
      obtain ⟨hk0, rfl⟩ := List.getElem?_eq_some_iff.mp hk
      have hk : k = d.sends.length := by simp at hk0; omega
      subst hk
      simp [CommandIdAllocator.next, h.counter]
  entry := by
    intro id k hk
    obtain ⟨send, hsend, hid⟩ := h.entry id k hk
    have hlt := (List.getElem?_eq_some_iff.mp hsend).1
    exact ⟨send, by rw [allocate, List.getElem?_append_left hlt, hsend], hid⟩
  known := by
    intro id hid
    exact h.known id fun send hsend => hid send (List.mem_append_left _ hsend)
  locked := by
    intro k hk
    refine h.locked k ?_
    rcases Nat.lt_or_ge k d.sends.length with hlt | hge
    · simpa [allocate, stageOf, List.getElem?_append_left hlt] using hk
    · rw [stageOf, allocate, List.getElem?_append_right hge] at hk
      obtain ⟨send, hsend, hstage⟩ := Option.map_eq_some_iff.mp hk
      have hmem := List.mem_of_getElem? hsend
      rw [List.mem_singleton] at hmem
      subst hmem
      cases hstage

/-- A call whose entry is among `entries` is cancelled, however often it is listed. -/
theorem getElem?_drain (entries : List (CommandId × Nat)) (sends : List (SendFuture Fl))
    (k : Nat) :
    (entries.foldl (fun sends (_, j) => sends.modify j (·.deliver .cancelled)) sends)[k]? =
      if k ∈ entries.map Prod.snd then sends[k]?.map (·.deliver .cancelled) else sends[k]? := by
  induction entries generalizing sends with
  | nil => rfl
  | cons e entries ih =>
    obtain ⟨id, j⟩ := e
    rw [List.foldl_cons, ih, List.getElem?_modify]
    by_cases hj : j = k
    · subst hj
      cases sends[j]? with
      | none => simp
      | some send => simp [SendFuture.deliver, Oneshot.send_send]
    · have hmem : k ∈ ((id, j) :: entries).map Prod.snd ↔ k ∈ entries.map Prod.snd := by
        rw [List.map_cons, List.mem_cons, or_iff_right (Ne.symm hj)]
      simp only [if_neg hj, id_map']
      exact if_congr hmem.symm rfl rfl

theorem length_drain (entries : List (CommandId × Nat)) (sends : List (SendFuture Fl)) :
    (entries.foldl (fun sends (_, j) => sends.modify j (·.deliver .cancelled)) sends).length =
      sends.length := by
  induction entries generalizing sends with
  | nil => rfl
  | cons e entries ih => rw [List.foldl_cons, ih, List.length_modify]

/-- The life of a call after `cancel_all`. -/
theorem life_cancelAll {d : Dispatcher Fl} (h : WellFormed d) (hfew : d.sends.length < 2 ^ 64)
    (order : IterOrder CommandId) {k : Nat} {send : SendFuture Fl}
    (hsend : d.sends[k]? = some send) :
    ((d.cancelAll order).1.observe (.cancelledAll (d.cancelAll order).2)).life k =
      some (if (d.lifeOf k send).held then (d.lifeOf k send).take .cancelled .cancelled
        else d.lifeOf k send) := by
  have hkeys : send.id ∈ (entries order d.pending).map Prod.fst ↔
      (d.lifeOf k send).held = true := by
    rw [List.mem_map, lifeOf, decide_eq_true_iff]
    constructor
    · rintro ⟨⟨id, j⟩, hmem, rfl⟩
      rw [mem_entries] at hmem
      exact h.entry_eq hfew hsend hmem ▸ hmem
    · exact fun hheld => ⟨_, mem_entries.mpr hheld, rfl⟩
  have hvalues : k ∈ (entries order d.pending).map Prod.snd ↔
      (d.lifeOf k send).held = true := by
    rw [List.mem_map, lifeOf, decide_eq_true_iff]
    constructor
    · rintro ⟨⟨id, j⟩, hmem, rfl⟩
      rw [mem_entries] at hmem
      obtain ⟨_, hsend', rfl⟩ := h.entry id j hmem
      rwa [Option.some.inj (hsend.symm.trans hsend')]
    · exact fun hheld => ⟨_, mem_entries.mpr hheld, rfl⟩
  have hdrained : ((d.cancelAll order).1.observe
      (.cancelledAll (d.cancelAll order).2)).sends[k]? =
        some (if (d.lifeOf k send).held then send.deliver .cancelled else send) := by
    show (List.foldl _ _ _)[k]? = _
    rw [getElem?_drain, hsend, Option.map_some, ← apply_ite some]
    simp only [hvalues]
  rw [life_of_send hdrained]
  cases hheld : (d.lifeOf k send).held with
  | true =>
    rw [hheld] at hkeys
    simp [cancelAll, observe, history_concat, Observation.moment, hkeys, Life.take, lifeOf,
      SendFuture.deliver]
  | false =>
    rw [hheld] at hkeys
    have hentry : (d.pending[send.id]? = some k) = False := by simpa [lifeOf] using hheld
    simp [cancelAll, observe, history_concat, Observation.moment, hkeys, lifeOf, hentry]

/-! ## 7. The simulation -/

/-- **A step of the dispatcher is a step of each life, or none.**  And no entry and no
observation is of an id that was not handed out. -/
structure Continues (d : Dispatcher Fl) (a : Action Fl) (d' : Dispatcher Fl) : Prop where
  ids : d'.ids = d.ids
  length : d'.sends.length = d.sends.length
  lives : ∀ k (send : SendFuture Fl), d.sends[k]? = some send →
    ∃ l, d'.life k = some l ∧ (l = d.lifeOf k send ∨ (d.lifeOf k send).Step k a l)
  entry : ∀ (id : CommandId) (k : Nat), d'.pending[id]? = some k →
    ∃ send : SendFuture Fl, d.sends[k]? = some send ∧ send.id = id
  strangers : ∀ (id : CommandId), (∀ send ∈ d.sends, send.id ≠ id) →
    MinervaServer.history d'.trace id = MinervaServer.history d.trace id

theorem OnlyAt.continues {d d' : Dispatcher Fl} {a : Action Fl} {k : Nat} {send : SendFuture Fl}
    {l : Life Fl} (honly : OnlyAt d d' k send l) (h : WellFormed d)
    (hfew : d.sends.length < 2 ^ 64) (hsend : d.sends[k]? = some send)
    (hstep : (d.lifeOf k send).Step k a l) : Continues d a d' where
  ids := honly.ids
  length := honly.length
  lives := by
    intro j other hother
    by_cases hj : j = k
    · subst hj
      obtain rfl := Option.some.inj (hsend.symm.trans hother)
      exact ⟨l, honly.here, Or.inr hstep⟩
    · exact ⟨_, (honly.life_eq h hfew hsend hj).trans (life_of_send hother), Or.inl rfl⟩
  entry := by
    intro id j hj
    by_cases hid : id = send.id
    · subst hid
      exact ⟨send, honly.entry j hj ▸ hsend, rfl⟩
    · exact h.entry id j (honly.pending id hid ▸ hj)
  strangers := fun id hid =>
    honly.history id fun heq => hid send (List.mem_of_getElem? hsend) heq.symm

/-- Every step but a new call. -/
theorem moves_continue {d d' : Dispatcher Fl} {a : Action Fl} (h : Inv d)
    (hfew : d.sends.length < 2 ^ 64) (hm : Moves d a d') (hold : ∀ command, a ≠ .allocate command) :
    Continues d a d' := by
  rcases moves_one h hfew hm with ⟨command, rfl⟩ | ⟨t, order, rfl⟩ | ⟨t, id, outcome, rfl, hentry⟩ |
    ⟨k, send, l, hsend, honly, hstep⟩
  · exact absurd rfl (hold command)
  · cases hm with
    | cancelAll hlock =>
    refine ⟨rfl, length_drain _ _, ?_, ?_, ?_⟩
    · intro k send hsend
      refine ⟨_, life_cancelAll h.toWellFormed hfew order hsend, ?_⟩
      cases hheld : (d.lifeOf k send).held with
      | false => exact Or.inl rfl
      | true => exact Or.inr (.cancelAll hheld (h.not_inserted hlock hsend))
    · intro id k hk
      simp [cancelAll, observe] at hk
    · intro id hid
      have hdrained : id ∉ (entries order d.pending).map Prod.fst := by
        rw [List.mem_map]
        rintro ⟨⟨i, j⟩, hmem, rfl⟩
        obtain ⟨send, hsend, heq⟩ := h.entry i j (mem_entries.mp hmem)
        exact hid send (List.mem_of_getElem? hsend) heq
      simp [cancelAll, observe, history_concat, Observation.moment, hdrained]
  · cases hm with
    | complete hlock =>
    have hnone : d.complete id outcome = (d, false) := by rw [complete, hentry]
    have hquiet : ∀ i, MinervaServer.history (d.trace ++ [.completed id outcome false]) i =
        MinervaServer.history d.trace i := by
      intro i
      simp [history_concat, Observation.moment]
    rw [hnone]
    refine ⟨rfl, rfl, ?_, h.entry, fun i _ => hquiet i⟩
    intro k send hsend
    refine ⟨d.lifeOf k send, ?_, Or.inl rfl⟩
    rw [life_of_send (d := d.observe _) hsend, observe, hquiet]
    rfl
  · exact honly.continues h.toWellFormed hfew hsend hstep

/-- No call is forgotten. -/
theorem length_le_of_moves {d d' : Dispatcher Fl} {a : Action Fl} (hm : Moves d a d') :
    d.sends.length ≤ d'.sends.length := by
  have hdrop : ∀ id, (d.dropEntry id).sends.length = d.sends.length := by
    intro id
    rw [dropEntry]
    cases d.pending[id]? with
    | none => rfl
    | some j => exact List.length_modify _ _ _
  cases hm with
  | allocate => simp [allocate]
  | enter => simp [enter, insertPending, modifySend, hdrop]
  | dropGuard => simp [cleanUp, removePending, modifySend, hdrop]
  | @complete _ id =>
    rw [complete]
    cases d.pending[id]? <;> simp [observe, modifySend]
  | cancelAll => exact (length_drain _ _).ge
  | dispatch | dispatchReturns | dispatchPanics | timerExpires | poll | dropFuture =>
    simp [dispatch, leave, modifySend]

/-- Only the call on top of the lock opens or closes its critical section, and it is inside
`dispatch` when it closes it. -/
theorem frames_of_moves {d d' : Dispatcher Fl} {a : Action Fl} (hm : Moves d a d') :
    (∃ t k send, a = .enter t k ∧ d.sends[k]? = some send ∧ d.mayLock t ∧
      d'.frames = k :: d.frames) ∨
    (∃ k, d.frames.head? = some k ∧ d.stageOf k = some .dispatching) ∨
    (d'.frames = d.frames ∧ ∀ t k, a ≠ .enter t k) := by
  cases hm with
  | enter hsend hstage hlock => exact Or.inl ⟨_, _, _, rfl, hsend, hlock, rfl⟩
  | dispatchReturns hsend hstage htop | dispatchPanics hsend hstage htop =>
    exact Or.inr (Or.inl ⟨_, htop, by rw [stageOf, hsend, Option.map_some, hstage]⟩)
  | @complete t id outcome hlock =>
    refine Or.inr (Or.inr ⟨?_, by simp⟩)
    rw [complete]
    cases d.pending[id]? <;> rfl
  | @dropGuard t k send ended hsend hended hlock =>
    refine Or.inr (Or.inr ⟨?_, by simp⟩)
    rw [cleanUp, removePending, dropEntry]
    cases d.pending[send.id]? <;> rfl
  | _ => exact Or.inr (Or.inr ⟨rfl, by simp⟩)

theorem wellFormed_of_continues {d d' : Dispatcher Fl} {a : Action Fl} (h : WellFormed d)
    (hm : Moves d a d') (hc : Continues d a d') : WellFormed d' := by
  have hsends : ∀ k (send' : SendFuture Fl), d'.sends[k]? = some send' →
      ∃ send : SendFuture Fl, d.sends[k]? = some send ∧ send'.id = send.id ∧
        (send'.stage = .inserted → send.stage = .inserted ∨ ∃ t, a = .enter t k) := by
    intro k send' hk'
    have hk : k < d.sends.length := hc.length ▸ (List.getElem?_eq_some_iff.mp hk').1
    have hsend : d.sends[k]? = some d.sends[k] := List.getElem?_eq_getElem hk
    obtain ⟨l, hl, hstep⟩ := hc.lives k _ hsend
    rw [life_of_send hk'] at hl
    obtain rfl := Option.some.inj hl
    refine ⟨_, hsend, ?_, fun hstage => ?_⟩
    · rcases hstep with hsame | hstep
      · exact congrArg (fun l => l.send.id) hsame
      · exact hstep.id_eq
    · rcases hstep with hsame | hstep
      · exact Or.inl ((congrArg (fun l => l.send.stage) hsame).symm.trans hstage)
      · exact Or.inr (hstep.inserted hstage)
  refine ⟨?_, ?_, ?_, ?_, ?_⟩
  · rw [hc.ids, hc.length]
    exact h.counter
  · intro k send' hk'
    obtain ⟨send, hsend, hid, _⟩ := hsends k send' hk'
    exact hid.trans (h.ids k send hsend)
  · intro id k hk
    obtain ⟨send, hsend, hid⟩ := hc.entry id k hk
    have hk' : k < d'.sends.length := hc.length ▸ (List.getElem?_eq_some_iff.mp hsend).1
    obtain ⟨send₀, hsend₀, hid', _⟩ := hsends k _ (List.getElem?_eq_getElem hk')
    obtain rfl := Option.some.inj (hsend.symm.trans hsend₀)
    exact ⟨_, List.getElem?_eq_getElem hk', hid'.trans hid⟩
  · intro id hid
    have hold : ∀ send ∈ d.sends, send.id ≠ id := by
      intro send hmem heq
      obtain ⟨k, hk⟩ := List.mem_iff_getElem?.mp hmem
      have hk' : k < d'.sends.length := hc.length ▸ (List.getElem?_eq_some_iff.mp hk).1
      obtain ⟨send₀, hsend₀, hid', _⟩ := hsends k _ (List.getElem?_eq_getElem hk')
      obtain rfl := Option.some.inj (hk.symm.trans hsend₀)
      exact hid _ (List.getElem_mem hk') (hid'.trans heq)
    rw [hc.strangers id hold]
    exact h.known id hold
  · intro k hstage
    obtain ⟨send', hsend', hstage'⟩ := Option.map_eq_some_iff.mp hstage
    obtain ⟨send, hsend, _, hfrom⟩ := hsends k send' hsend'
    have hbefore : send.stage = .inserted → d.frames.head? = some k := fun hs =>
      h.locked k (by rw [stageOf, hsend, Option.map_some, hs])
    rcases frames_of_moves hm with ⟨t, j, other, rfl, hother, hlock, hframes⟩ |
      ⟨j, htop, hdispatching⟩ | ⟨hframes, hnoenter⟩
    · rcases hfrom hstage' with hs | ⟨_, heq⟩
      · exact absurd hs (h.not_inserted hlock hsend)
      · rw [hframes, List.head?_cons, (Action.enter.inj heq).2]
    · rcases hfrom hstage' with hs | ⟨t, rfl⟩
      · obtain rfl := Option.some.inj (htop.symm.trans (hbefore hs))
        rw [stageOf, hsend, Option.map_some, hs] at hdispatching
        cases hdispatching
      · cases hm with
        | enter => rfl
    · rcases hfrom hstage' with hs | ⟨t, rfl⟩
      · rw [hframes, hbefore hs]
      · exact absurd rfl (hnoenter t k)

/-- **The simulation.**  In every step every life stays as it is or makes a step of its own. -/
theorem life_step {d d' : Dispatcher Fl} {a : Action Fl} (h : Inv d)
    (hfew : d'.sends.length < 2 ^ 64) (hm : Moves d a d') {k : Nat} {l : Life Fl}
    (hl : d.life k = some l) : ∃ l', d'.life k = some l' ∧ (l' = l ∨ l.Step k a l') := by
  obtain ⟨send, hsend, rfl⟩ := Option.map_eq_some_iff.mp hl
  by_cases hnew : ∃ command, a = .allocate command
  · obtain ⟨command, rfl⟩ := hnew
    cases hm with
    | allocate =>
    have hsend' : (d.allocate command).sends[k]? = some send := by
      rw [← hsend]
      exact List.getElem?_append_left (List.getElem?_eq_some_iff.mp hsend).1
    exact ⟨_, life_of_send hsend', Or.inl rfl⟩
  · have hc := moves_continue h ((length_le_of_moves hm).trans_lt hfew) hm
      fun command ha => hnew ⟨command, ha⟩
    exact hc.lives k send hsend

/-- And every life after a step comes from one before it, or has just begun. -/
theorem life_of_moves {d d' : Dispatcher Fl} {a : Action Fl} (h : Inv d)
    (hfew : d'.sends.length < 2 ^ 64) (hm : Moves d a d') {k : Nat} {l' : Life Fl}
    (hl : d'.life k = some l') :
    (∃ id command, l' = { send := { id, command }, held := false, history := [] }) ∨
      ∃ l, d.life k = some l ∧ (l' = l ∨ l.Step k a l') := by
  obtain ⟨send', hsend', _⟩ := Option.map_eq_some_iff.mp hl
  have hk' := (List.getElem?_eq_some_iff.mp hsend').1
  rcases Nat.lt_or_ge k d.sends.length with hlt | hge
  · have hbefore := life_of_send (List.getElem?_eq_getElem hlt)
    obtain ⟨l₀, hl₀, hstep⟩ := life_step h hfew hm hbefore
    obtain rfl := Option.some.inj (hl.symm.trans hl₀)
    exact Or.inr ⟨_, hbefore, hstep⟩
  · by_cases hnew : ∃ command, a = .allocate command
    · obtain ⟨command, rfl⟩ := hnew
      cases hm with
      | allocate =>
      rw [allocate, List.length_append, List.length_singleton] at hfew hk'
      obtain rfl : k = d.sends.length := by omega
      rw [life_allocate h.toWellFormed hfew] at hl
      exact Or.inl ⟨_, command, (Option.some.inj hl).symm⟩
    · have hc := moves_continue h ((length_le_of_moves hm).trans_lt hfew) hm
        fun command ha => hnew ⟨command, ha⟩
      rw [hc.length] at hk'
      omega

/-- **The invariant is kept by every step.** -/
theorem Inv.step {d d' : Dispatcher Fl} {a : Action Fl} (h : Inv d)
    (hfew : d'.sends.length < 2 ^ 64) (hm : Moves d a d') : Inv d' where
  toWellFormed := by
    by_cases hnew : ∃ command, a = .allocate command
    · obtain ⟨command, rfl⟩ := hnew
      cases hm with
      | allocate => exact wellFormed_allocate h.toWellFormed command
    · exact wellFormed_of_continues h.toWellFormed hm
        (moves_continue h ((length_le_of_moves hm).trans_lt hfew) hm
          fun command ha => hnew ⟨command, ha⟩)
  sound := by
    intro k l' hl
    rcases life_of_moves h hfew hm hl with ⟨id, command, rfl⟩ | ⟨l, hbefore, rfl | hstep⟩
    · exact Life.sound_new id command
    · exact h.sound k _ hbefore
    · exact (h.sound k l hbefore).step hstep

theorem length_le_of_run {d d' : Dispatcher Fl} {actions : List (Action Fl)}
    (hrun : run step d actions = some d') : d.sends.length ≤ d'.sends.length :=
  run_invariant (P := fun d' => d.sends.length ≤ d'.sends.length)
    (fun _ _ _ hstep hle => hle.trans (length_le_of_moves (moves_of_step hstep))) hrun
    (Nat.le_refl _)

/-- The invariant is kept by every run. -/
theorem inv_of_run {d d' : Dispatcher Fl} {actions : List (Action Fl)}
    (hrun : run step d actions = some d') (h : d.sends.length < 2 ^ 64 → Inv d) :
    d'.sends.length < 2 ^ 64 → Inv d' := by
  refine run_invariant (P := fun d => d.sends.length < 2 ^ 64 → Inv d) ?_ hrun h
  intro d a d' hstep h hfew
  have hm := moves_of_step hstep
  exact (h ((length_le_of_moves hm).trans_lt hfew)).step hfew hm

/-- Every dispatcher that has made fewer than 2^64 calls is well formed, with sound lives. -/
theorem inv_after {actions : List (Action Fl)} {d : Dispatcher Fl} (hrun : after actions = some d)
    (hfew : d.sends.length < 2 ^ 64) : Inv d :=
  inv_of_run hrun (fun _ => inv_new) hfew

end Dispatcher

end MinervaServer
