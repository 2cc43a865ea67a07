/-
# Change logs

A log of changes, each of which concerns at most one key of a table.  Somebody who only sees
the log keeps a copy of the table by REPLAYING it: every entry sets its key to the value it
carries, or erases it.

Replaying is local: what the copy holds under `k` is decided by the entries that concern `k`,
by the last of them in fact (`replay_apply`).  So two logs that agree about `k` replay alike at
`k`, however they interleave the rest, and a log may be judged one key at a time.
-/
import Mathlib

namespace Lib

variable {K V R : Type} [DecidableEq K]

/-- The entries that concern the key `k`. -/
def concerning (about : R → Option K) (k : K) (log : List R) : List R :=
  log.filter fun r => about r = some k

theorem concerning_append (about : R → Option K) (k : K) (first rest : List R) :
    concerning about k (first ++ rest) = concerning about k first ++ concerning about k rest :=
  List.filter_append _ _

/-- Dropping entries and asking about a key may be done in either order. -/
theorem concerning_filter (about : R → Option K) (k : K) (keep : R → Bool) (log : List R) :
    concerning about k (log.filter keep) = (concerning about k log).filter keep :=
  List.filter_comm _ _ _

theorem concerning_of_forall {about : R → Option K} {k : K} {log : List R}
    (h : ∀ r ∈ log, about r = some k) : concerning about k log = log :=
  List.filter_eq_self.mpr fun r hr => decide_eq_true (h r hr)

theorem concerning_eq_nil {about : R → Option K} {k : K} {log : List R}
    (h : ∀ r ∈ log, about r ≠ some k) : concerning about k log = [] :=
  List.filter_eq_nil_iff.mpr fun r hr => by simpa using h r hr

/-- A log written key by key, each key once: what concerns `k` is what was written for `k`. -/
theorem concerning_flatMap {about : R → Option K} {keys : List K} (hkeys : keys.Nodup)
    {entry : K → List R} (hentry : ∀ k, ∀ r ∈ entry k, about r = some k) (k : K) :
    concerning about k (keys.flatMap entry) = if k ∈ keys then entry k else [] := by
  induction keys with
  | nil => rfl
  | cons key keys ih =>
    obtain ⟨hnot, hkeys⟩ := List.nodup_cons.mp hkeys
    rw [List.flatMap_cons, concerning_append, ih hkeys]
    by_cases hk : key = k
    · subst hk
      rw [concerning_of_forall (hentry key), if_neg hnot, if_pos List.mem_cons_self,
        List.append_nil]
    · have hnil : concerning about k (entry key) = [] := by
        refine concerning_eq_nil fun r hr heq => hk ?_
        exact Option.some.inj ((hentry key r hr).symm.trans heq)
      rw [hnil, List.nil_append]
      simp [Ne.symm hk]

/-- A log that mentions every key once. -/
theorem concerning_of_distinct {about : R → Option K} {log : List R}
    (hlog : log.Pairwise fun r r' => about r ≠ about r') {k : K} {r : R} (hr : r ∈ log)
    (hk : about r = some k) : concerning about k log = [r] := by
  induction log with
  | nil => simp at hr
  | cons head log ih =>
    obtain ⟨hhead, hlog⟩ := List.pairwise_cons.mp hlog
    rw [← List.singleton_append, concerning_append]
    rcases List.mem_cons.mp hr with rfl | hr
    · have hrest : concerning about k log = [] :=
        concerning_eq_nil fun r' hr' heq => hhead r' hr' (hk.trans heq.symm)
      rw [concerning_of_forall (by simp [hk]), hrest, List.append_nil]
    · have hfirst : concerning about k [head] = [] :=
        concerning_eq_nil (by simpa [hk] using hhead r hr)
      rw [hfirst, ih hlog hr, List.nil_append]

/-- Replay a log on a copy of the table. -/
def replay (about : R → Option K) (value : R → Option V) (copy : K → Option V) (log : List R) :
    K → Option V :=
  log.foldl (fun copy r => match about r with
    | some k => Function.update copy k (value r)
    | none => copy) copy

theorem replay_append (about : R → Option K) (value : R → Option V) (copy : K → Option V)
    (first rest : List R) :
    replay about value copy (first ++ rest) =
      replay about value (replay about value copy first) rest :=
  List.foldl_append

/-- **Replaying is local.**  Under each key the copy holds what the last entry about that key
carries, and what it held before if there is none. -/
theorem replay_apply (about : R → Option K) (value : R → Option V) (copy : K → Option V)
    (log : List R) (k : K) :
    replay about value copy log k = (concerning about k log).getLast?.elim (copy k) value := by
  induction log using List.reverseRecOn with
  | nil => rfl
  | append_singleton log r ih =>
    rw [replay_append, concerning_append]
    simp only [replay, List.foldl_cons, List.foldl_nil]
    change (match about r with
      | some k' => Function.update (replay about value copy log) k' (value r)
      | none => replay about value copy log) k = _
    cases hr : about r with
    | none =>
      have hnil : concerning about k [r] = [] := concerning_eq_nil (by simp [hr])
      rw [hnil, List.append_nil]
      exact ih
    | some k' =>
      by_cases hk : k' = k
      · subst hk
        have hself : concerning about k' [r] = [r] := concerning_of_forall (by simp [hr])
        simp [hself]
      · have hnil : concerning about k [r] = [] := concerning_eq_nil (by simp [hr, hk])
        rw [hnil, List.append_nil]
        simp only [Function.update_of_ne (Ne.symm hk)]
        exact ih

/-- Two logs with the same last entry about every key replay alike. -/
theorem replay_congr {about : R → Option K} {log log' : List R}
    (h : ∀ k, (concerning about k log).getLast? = (concerning about k log').getLast?)
    (value : R → Option V) (copy : K → Option V) :
    replay about value copy log = replay about value copy log' := by
  funext k
  rw [replay_apply, replay_apply, h]

/-! What a state holds at one place, when all that is known of a step is what it does there. -/

section Place

variable {S A : Type}

/-- **The last assignment counts.**  If some steps assign to the place and the others leave it
alone, it holds what was assigned last. -/
theorem foldl_assigned (step : S → A → S) (place : S → V) {assigns : A → Option V}
    (hstep : ∀ s a, place (step s a) = (assigns a).getD (place s)) (s : S) (log : List A) :
    place (log.foldl step s) = ((log.filterMap assigns).getLast?).getD (place s) := by
  induction log using List.reverseRecOn with
  | nil => rfl
  | append_singleton log a ih =>
    rw [List.foldl_append, List.foldl_cons, List.foldl_nil, hstep, List.filterMap_append, ih]
    cases ha : assigns a with
    | none => simp [ha]
    | some v => simp [ha]

/-- **Since.**  If a value gets to the place when a step puts it there, and stays until a step
displaces it, then it is there exactly if it was put there and has not been displaced since. -/
theorem foldl_since (step : S → A → S) (place : S → Option V) {puts : A → Option V}
    {displaces : S → A → V → Prop}
    (hstep : ∀ s a v, place (step s a) = some v ↔
      puts a = some v ∨ (place s = some v ∧ ¬ displaces s a v))
    {s : S} (hnew : place s = none) {log : List A} {v : V} :
    place (log.foldl step s) = some v ↔
      ∃ before a rest, log = before ++ a :: rest ∧ puts a = some v ∧
        ∀ first b last, rest = first ++ b :: last →
          ¬ displaces ((before ++ a :: first).foldl step s) b v := by
  induction log using List.reverseRecOn with
  | nil => simp [hnew]
  | append_singleton log b ih =>
    rw [List.foldl_append, List.foldl_cons, List.foldl_nil, hstep, ih]
    constructor
    · rintro (hputs | ⟨⟨before, a, rest, rfl, hputs, hstays⟩, hstay⟩)
      · exact ⟨log, b, [], rfl, hputs, by simp⟩
      · refine ⟨before, a, rest ++ [b], by simp, hputs, fun first c last heq => ?_⟩
        rcases List.eq_nil_or_concat last with rfl | ⟨last, c', rfl⟩
        · obtain ⟨rfl, heq⟩ := List.append_inj' heq rfl
          obtain rfl : b = c := by simpa using heq
          exact hstay
        · rw [List.concat_eq_append, ← List.cons_append, ← List.append_assoc] at heq
          exact hstays first c last (List.append_inj_left' heq rfl)
    · rintro ⟨before, a, rest, heq, hputs, hstays⟩
      rcases List.eq_nil_or_concat rest with rfl | ⟨rest, c, rfl⟩
      · obtain ⟨-, heq⟩ := List.append_inj' heq rfl
        obtain rfl : b = a := by simpa using heq
        exact Or.inl hputs
      · rw [List.concat_eq_append, ← List.cons_append, ← List.append_assoc] at heq
        obtain ⟨rfl, heq⟩ := List.append_inj' heq rfl
        obtain rfl : b = c := by simpa using heq
        refine Or.inr ⟨⟨before, a, rest, rfl, hputs, fun first b' last hrest => ?_⟩, ?_⟩
        · exact hstays first b' (last ++ [b]) (by simp [hrest])
        · exact hstays rest b [] List.concat_eq_append

/-- And where what displaces a value depends on neither the state nor the value. -/
theorem foldl_since_mem (step : S → A → S) (place : S → Option V) {puts : A → Option V}
    {displaces : A → Prop}
    (hstep : ∀ s a v, place (step s a) = some v ↔
      puts a = some v ∨ (place s = some v ∧ ¬ displaces a))
    {s : S} (hnew : place s = none) {log : List A} {v : V} :
    place (log.foldl step s) = some v ↔
      ∃ before a rest, log = before ++ a :: rest ∧ puts a = some v ∧ ∀ b ∈ rest, ¬ displaces b := by
  rw [foldl_since step place (fun s a v => hstep s a v) hnew]
  refine exists₃_congr fun before a rest => and_congr_right fun _ => and_congr_right fun _ => ?_
  constructor
  · intro hstays b hmem
    obtain ⟨first, last, hrest⟩ := List.append_of_mem hmem
    exact hstays first b last hrest
  · rintro hstays first b last rfl
    exact hstays b (by simp)

end Place

end Lib
