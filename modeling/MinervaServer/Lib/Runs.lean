/-
# Runs of a partial step function

A system is a state type and a `step` that says what one action does to a state, or that it is
not possible there (`none`).  A RUN performs a list of actions one after another and is defined
only if every one of them is possible where it comes.
-/
import Mathlib

namespace Lib

variable {S A : Type} {step : S → A → Option S}

/-- Perform the actions one after another. -/
def run (step : S → A → Option S) (s : S) (actions : List A) : Option S :=
  actions.foldlM step s

@[simp] theorem run_nil (s : S) : run step s [] = some s := rfl

@[simp] theorem run_cons (s : S) (a : A) (actions : List A) :
    run step s (a :: actions) = (step s a).bind fun s' => run step s' actions := rfl

/-- A run in two parts. -/
theorem run_append {s s' : S} {first rest : List A} :
    run step s (first ++ rest) = some s' ↔
      ∃ m, run step s first = some m ∧ run step m rest = some s' := by
  induction first generalizing s with
  | nil => simp
  | cons a first ih =>
    rw [List.cons_append, run_cons, run_cons]
    cases step s a with
    | none => simp
    | some t => exact ih

/-- **The invariant rule over the actions of a run.**  What every step by one of them preserves, the
run preserves. -/
theorem run_invariant_mem {P : S → Prop} {s s' : S} {actions : List A}
    (hstep : ∀ a ∈ actions, ∀ s s', step s a = some s' → P s → P s')
    (hrun : run step s actions = some s') (h : P s) : P s' := by
  induction actions generalizing s with
  | nil =>
    rw [run_nil] at hrun
    exact Option.some.inj hrun ▸ h
  | cons a actions ih =>
    rw [run_cons, Option.bind_eq_some_iff] at hrun
    obtain ⟨t, ht, hrun⟩ := hrun
    have hlater : ∀ a ∈ actions, ∀ s s', step s a = some s' → P s → P s' :=
      fun a ha => hstep a (List.mem_cons_of_mem _ ha)
    exact ih hlater hrun (hstep a List.mem_cons_self s t ht h)

/-- **The invariant rule.**  What every step preserves, every run preserves. -/
theorem run_invariant {P : S → Prop} (hstep : ∀ s a s', step s a = some s' → P s → P s')
    {s s' : S} {actions : List A} (hrun : run step s actions = some s') (h : P s) : P s' :=
  run_invariant_mem (fun a _ s s' => hstep s a s') hrun h

/-- **The history rule.**  What holds at the start, before any action, and what every step preserves
of the actions so far and the state, holds of every run and its last state. -/
theorem run_history {P : List A → S → Prop}
    (hstep : ∀ actions s a s', step s a = some s' → P actions s → P (actions ++ [a]) s')
    {s s' : S} {actions : List A} (hrun : run step s actions = some s') (h : P [] s) :
    P actions s' := by
  induction actions using List.reverseRecOn generalizing s' with
  | nil =>
    rw [run_nil] at hrun
    exact Option.some.inj hrun ▸ h
  | append_singleton actions a ih =>
    obtain ⟨m, hm, hlast⟩ := run_append.mp hrun
    rw [run_cons, Option.bind_eq_some_iff] at hlast
    obtain ⟨t, ht, hlast⟩ := hlast
    rw [run_nil] at hlast
    exact Option.some.inj hlast ▸ hstep _ _ _ _ ht (ih hm)

/-- Every action of the run is taken where `allowed` allows it. -/
def guarded (step : S → A → Option S) (allowed : S → A → Bool) (s : S) : List A → Bool
  | [] => true
  | a :: actions => allowed s a &&
    match step s a with
    | some s' => guarded step allowed s' actions
    | none => true

/-- **The invariant rule under a guard.**  What every allowed step preserves, every run of allowed
steps preserves. -/
theorem run_guarded {allowed : S → A → Bool} {P : S → Prop}
    (hstep : ∀ s a s', step s a = some s' → allowed s a → P s → P s') {s s' : S}
    {actions : List A} (hrun : run step s actions = some s')
    (hguard : guarded step allowed s actions) (h : P s) : P s' := by
  induction actions generalizing s with
  | nil =>
    rw [run_nil] at hrun
    exact Option.some.inj hrun ▸ h
  | cons a actions ih =>
    rw [run_cons, Option.bind_eq_some_iff] at hrun
    obtain ⟨t, ht, hrun⟩ := hrun
    rw [guarded, ht, Bool.and_eq_true] at hguard
    exact ih hrun hguard.2 (hstep s a t ht hguard.1 h)

/-- **Erasing actions.**  If the actions that are kept do the same to related states, and those that
are erased keep a state related, the run without the latter is possible and ends in a related
state. -/
theorem run_filter {R : S → S → Prop} {keep : A → Bool}
    (hkeep : ∀ s t s' a, step s a = some s' → keep a → R s t → ∃ t', step t a = some t' ∧ R s' t')
    (hdrop : ∀ s t s' a, step s a = some s' → ¬ keep a → R s t → R s' t)
    {s t s' : S} {actions : List A} (hrun : run step s actions = some s') (h : R s t) :
    ∃ t', run step t (actions.filter keep) = some t' ∧ R s' t' := by
  induction actions generalizing s t with
  | nil =>
    rw [run_nil] at hrun
    exact ⟨t, rfl, Option.some.inj hrun ▸ h⟩
  | cons a actions ih =>
    rw [run_cons, Option.bind_eq_some_iff] at hrun
    obtain ⟨m, hm, hrun⟩ := hrun
    by_cases ha : keep a
    · obtain ⟨n, hn, h⟩ := hkeep _ _ _ _ hm ha h
      obtain ⟨t', ht', h⟩ := ih hrun h
      refine ⟨t', ?_, h⟩
      rw [List.filter_cons_of_pos ha, run_cons, hn]
      exact ht'
    · rw [List.filter_cons_of_neg ha]
      exact ih hrun (hdrop _ _ _ _ hm ha h)

/-- **The foresight rule.**  A simulation whose relation may depend on what is still to come: if
every step can be answered by some steps of another system, such that what comes after it makes the
states related again, every run can be answered, whatever comes after it. -/
theorem run_foresight {T B : Type} {answer : T → B → Option T} {R : List A → S → T → Prop}
    (hstep : ∀ s a rest s' t, step s a = some s' → R (a :: rest) s t →
      ∃ answers t', run answer t answers = some t' ∧ R rest s' t')
    {s s' : S} {actions rest : List A} {t : T} (hrun : run step s actions = some s')
    (h : R (actions ++ rest) s t) :
    ∃ answers t', run answer t answers = some t' ∧ R rest s' t' := by
  induction actions generalizing s t with
  | nil =>
    rw [run_nil] at hrun
    exact ⟨[], t, rfl, Option.some.inj hrun ▸ h⟩
  | cons a actions ih =>
    rw [run_cons, Option.bind_eq_some_iff] at hrun
    obtain ⟨m, hm, hrun⟩ := hrun
    obtain ⟨first, n, hfirst, h⟩ := hstep _ _ _ _ _ hm h
    obtain ⟨last, t', hlast, h⟩ := ih hrun h
    exact ⟨first ++ last, t', run_append.mpr ⟨n, hfirst, hlast⟩, h⟩

/-- **The potential rule.**  If every step that counts is paid for out of the potential and what it
adds to the income, and the others are free, a run has no more of them than its start and its whole
income pay for. -/
theorem run_pays {P : S → Prop} {counts : A → Bool} {potential income : S → Nat}
    (hstep : ∀ s a s', step s a = some s' → P s →
      P s' ∧ (if counts a then 1 else 0) + potential s' + income s ≤ potential s + income s')
    {s s' : S} {actions : List A} (hrun : run step s actions = some s') (h : P s) :
    P s' ∧ actions.countP counts + potential s' + income s ≤ potential s + income s' := by
  induction actions generalizing s with
  | nil =>
    rw [run_nil] at hrun
    obtain rfl := Option.some.inj hrun
    exact ⟨h, by simp⟩
  | cons a actions ih =>
    rw [run_cons, Option.bind_eq_some_iff] at hrun
    obtain ⟨m, hm, hrun⟩ := hrun
    obtain ⟨hpm, hpaid⟩ := hstep _ _ _ hm h
    obtain ⟨hp, hrest⟩ := ih hrun hpm
    refine ⟨hp, ?_⟩
    rw [List.countP_cons]
    omega

/-- **The potential rule under a guard.**  If every allowed step that counts is paid for out of the
potential, a run of allowed steps has no more of them than its start pays for. -/
theorem guarded_pays {allowed : S → A → Bool} {counts : A → Bool} {potential : S → Nat}
    (hstep : ∀ s a s', step s a = some s' → allowed s a →
      (if counts a then 1 else 0) + potential s' ≤ potential s)
    {s s' : S} {actions : List A} (hrun : run step s actions = some s')
    (hguard : guarded step allowed s actions) :
    actions.countP counts + potential s' ≤ potential s := by
  induction actions generalizing s with
  | nil =>
    rw [run_nil] at hrun
    obtain rfl := Option.some.inj hrun
    simp
  | cons a actions ih =>
    rw [run_cons, Option.bind_eq_some_iff] at hrun
    obtain ⟨m, hm, hrun⟩ := hrun
    rw [guarded, hm, Bool.and_eq_true] at hguard
    have hpaid := hstep _ _ _ hm hguard.1
    have hrest := ih hrun hguard.2
    rw [List.countP_cons]
    omega

end Lib
