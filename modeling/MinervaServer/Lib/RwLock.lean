/-
# A readers-writer lock

Any number of calls on data behind a readers-writer lock.  A call waits for the lock, alone or
together with others that only read, takes the steps of its critical section one by one between
those of the other calls, and returns when it has released the lock.

`linearizable`: whatever the interleaving, each call has the answer it would have had if the calls
had been made one after another, in the order in which they were let in; and what the lock guards
is what they would have left.  In that order a call that has returned comes before every call that
is made later.  So it is enough to know what each critical section does to data that nobody else
touches (`Implements`).
-/
import MinervaServer.Lib.Runs

namespace Lib

/-- What a call does with the lock: steps on the data and on what is its own, and what it returns
then.  The shared lock gives no access but to read. -/
structure CriticalSection (D L R : Type) where
  exclusive : Bool
  init : L
  steps : List (D × L → D × L)
  result : L → R
  reads : exclusive = false → ∀ f ∈ steps, ∀ x, (f x).1 = x.1

namespace CriticalSection

variable {D L R : Type}

/-- Steps that nobody comes between. -/
def runSteps (steps : List (D × L → D × L)) (x : D × L) : D × L := steps.foldl (fun x f => f x) x

/-- The whole section, with nobody else about. -/
def apply (c : CriticalSection D L R) (d : D) : D × R :=
  let x := runSteps c.steps (d, c.init)
  (x.1, c.result x.2)

theorem runSteps_fst {steps : List (D × L → D × L)} (h : ∀ f ∈ steps, ∀ x, (f x).1 = x.1)
    (x : D × L) : (runSteps steps x).1 = x.1 := by
  induction steps generalizing x with
  | nil => rfl
  | cons f steps ih =>
    have hrest := ih (fun g hg => h g (List.mem_cons_of_mem f hg)) (f x)
    exact hrest.trans (h f List.mem_cons_self x)

/-- A reader leaves the data as they are. -/
theorem apply_fst {c : CriticalSection D L R} (h : c.exclusive = false) (d : D) :
    (c.apply d).1 = d :=
  runSteps_fst (c.reads h) _

end CriticalSection

open CriticalSection

namespace RwLock

variable {Q D L R : Type}

inductive Stage (D L R : Type) where
  | waiting
  /-- Inside, with these steps to go. -/
  | inside (rest : List (D × L → D × L)) (mine : L)
  | returned (result : R)

/-- The call has been let in. -/
def Stage.entered : Stage D L R → Bool
  | .waiting => false
  | .inside _ _ | .returned _ => true

structure Call (Q D L R : Type) where
  request : Q
  stage : Stage D L R

/-- The call has the lock. -/
def Call.holds (call : Call Q D L R) : Bool :=
  match call.stage with
  | .inside _ _ => true
  | .waiting | .returned _ => false

end RwLock

open RwLock

/-- The data, and the calls in the order they are made in. -/
structure RwLock (Q D L R : Type) where
  data : D
  calls : List (Call Q D L R) := []

namespace RwLock

variable {Q D L R : Type} {code : Q → CriticalSection D L R}

inductive Action (Q : Type) where
  | call (request : Q)
  | acquire (k : Nat)
  | advance (k : Nat)
  | release (k : Nat)

/-- Whether the lock can be had. -/
def admits (code : Q → CriticalSection D L R) (s : RwLock Q D L R) (exclusive : Bool) : Bool :=
  s.calls.all fun call => !call.holds || (!exclusive && !(code call.request).exclusive)

/-- One step; `none` when it is not possible. -/
def step (code : Q → CriticalSection D L R) (s : RwLock Q D L R) : Action Q → Option (RwLock Q D L R)
  | .call request => some { s with calls := s.calls ++ [⟨request, .waiting⟩] }
  | .acquire k =>
    match s.calls[k]? with
    | some ⟨request, .waiting⟩ =>
      if s.admits code (code request).exclusive then
        let stage := .inside (code request).steps (code request).init
        some { s with calls := s.calls.set k ⟨request, stage⟩ }
      else none
    | _ => none
  | .advance k =>
    match s.calls[k]? with
    | some ⟨request, .inside (f :: rest) mine⟩ =>
      let (data, mine) := f (s.data, mine)
      some ⟨data, s.calls.set k ⟨request, .inside rest mine⟩⟩
    | _ => none
  | .release k =>
    match s.calls[k]? with
    | some ⟨request, .inside [] mine⟩ =>
      some { s with calls := s.calls.set k ⟨request, .returned ((code request).result mine)⟩ }
    | _ => none

/-- With nobody else about the sections do what `serve` says. -/
def Implements (code : Q → CriticalSection D L R) (serve : D → Q → D × R) : Prop :=
  ∀ q d, (code q).apply d = serve d q

/-- The calls in the order in which they were let in. -/
def acquired (actions : List (Action Q)) : List Nat :=
  actions.filterMap fun
    | .acquire k => some k
    | _ => none

def requests (s : RwLock Q D L R) : List Q := s.calls.map Call.request

/-- What they ask for, in that order. -/
def served (s : RwLock Q D L R) (order : List Nat) : List Q :=
  order.filterMap fun k => s.requests[k]?

/-- The calls before `k`. -/
def before (order : List Nat) (k : Nat) : List Nat := order.takeWhile (· ≠ k)

/-- The data after some requests, one after another. -/
def serial (serve : D → Q → D × R) (d : D) (requests : List Q) : D :=
  requests.foldl (fun d q => (serve d q).1) d

/-- What the sections do, taken one by one. -/
def undisturbed (code : Q → CriticalSection D L R) (d : D) (q : Q) : D × R := (code q).apply d

/-- The steps of `step`. -/
inductive Moves (code : Q → CriticalSection D L R) (s : RwLock Q D L R) :
    Action Q → RwLock Q D L R → Prop where
  | call {q} : Moves code s (.call q) { s with calls := s.calls ++ [⟨q, .waiting⟩] }
  | acquire {k q} (hcall : s.calls[k]? = some ⟨q, .waiting⟩)
      (hadmits : s.admits code (code q).exclusive = true) :
      Moves code s (.acquire k)
        { s with calls := s.calls.set k ⟨q, .inside (code q).steps (code q).init⟩ }
  | advance {k q f rest mine} (hcall : s.calls[k]? = some ⟨q, .inside (f :: rest) mine⟩) :
      Moves code s (.advance k)
        ⟨(f (s.data, mine)).1, s.calls.set k ⟨q, .inside rest (f (s.data, mine)).2⟩⟩
  | release {k q mine} (hcall : s.calls[k]? = some ⟨q, .inside [] mine⟩) :
      Moves code s (.release k)
        { s with calls := s.calls.set k ⟨q, .returned ((code q).result mine)⟩ }

theorem moves_of_step {s s' : RwLock Q D L R} {a : Action Q} (h : step code s a = some s') :
    Moves code s a s' := by
  cases a with
  | call q =>
    cases h
    exact .call
  | acquire k =>
    simp only [step] at h
    split at h
    · next hcall =>
      split at h <;> cases h
      next hadmits => exact .acquire hcall hadmits
    · cases h
  | advance k =>
    simp only [step] at h
    split at h <;> cases h
    next hcall => exact .advance hcall
  | release k =>
    simp only [step] at h
    split at h <;> cases h
    next hcall => exact .release hcall

/-- A call is where it was, unless it is the one that has moved. -/
theorem call_set {calls : List (Call Q D L R)} {j k : Nat} {call call' : Call Q D L R}
    (h : (calls.set k call')[j]? = some call) :
    (j = k ∧ call = call') ∨ (j ≠ k ∧ calls[j]? = some call) := by
  by_cases hj : j = k
  · subst hj
    rw [List.getElem?_set_self'] at h
    cases hcall : calls[j]? with
    | none => simp [hcall] at h
    | some before =>
      rw [hcall] at h
      exact Or.inl ⟨rfl, (Option.some.inj h).symm⟩
  · rw [List.getElem?_set_ne (Ne.symm hj)] at h
    exact Or.inr ⟨hj, h⟩

theorem requests_set (s : RwLock Q D L R) {k : Nat} {q : Q} {stage : Stage D L R}
    (hcall : s.calls[k]? = some ⟨q, stage⟩) (d : D) (stage' : Stage D L R) :
    (⟨d, s.calls.set k ⟨q, stage'⟩⟩ : RwLock Q D L R).requests = s.requests := by
  have hrequest : s.requests[k]? = some q := by rw [requests, List.getElem?_map, hcall]; rfl
  obtain ⟨hk, rfl⟩ := List.getElem?_eq_some_iff.mp hrequest
  rw [requests, List.map_set]
  exact List.set_getElem_self hk

theorem before_append {order : List Nat} {k : Nat} (h : k ∈ order) (more : List Nat) :
    before (order ++ more) k = before order k := by
  induction order with
  | nil => cases h
  | cons j order ih =>
    by_cases hj : j = k
    · simp [before, hj]
    · have hmem : k ∈ order := (List.mem_cons.mp h).resolve_left (Ne.symm hj)
      have hrest := ih hmem
      simp only [before, List.cons_append] at hrest ⊢
      rw [List.takeWhile_cons_of_pos (by simpa using hj),
        List.takeWhile_cons_of_pos (by simpa using hj), hrest]

theorem before_self {order : List Nat} {k : Nat} (h : k ∉ order) : before (order ++ [k]) k = order := by
  rw [before, List.takeWhile_append_of_pos fun j hj => by simpa using fun hk : j = k => h (hk ▸ hj)]
  simp

/-- What the calls that were let in before `k` have left. -/
def seen (code : Q → CriticalSection D L R) (d₀ : D) (s : RwLock Q D L R) (order : List Nat)
    (k : Nat) : D :=
  serial (undisturbed code) d₀ (s.served (before order k))

/-- The state, given the data at the start and the order in which calls were let in. -/
structure Inv (code : Q → CriticalSection D L R) (d₀ : D) (order : List Nat)
    (s : RwLock Q D L R) : Prop where
  nodup : order.Nodup
  known : ∀ k ∈ order, k < s.calls.length
  entered : ∀ (k : Nat) (call : Call Q D L R), s.calls[k]? = some call → (k ∈ order ↔ call.stage.entered = true)
  /-- A call that is inside comes to what it would have come to without the others. -/
  inside : ∀ k q rest mine, s.calls[k]? = some ⟨q, .inside rest mine⟩ →
    runSteps rest (s.data, mine) = runSteps (code q).steps (s.seen code d₀ order k, (code q).init) ∧
    ∀ f ∈ rest, f ∈ (code q).steps
  /-- A writer that is inside was let in last and is alone. -/
  alone : ∀ (k : Nat) (call : Call Q D L R), s.calls[k]? = some call → call.holds = true →
    (code call.request).exclusive = true → order.getLast? = some k ∧
      ∀ (j : Nat) (other : Call Q D L R), s.calls[j]? = some other → other.holds = true → j = k
  returned : ∀ k q result, s.calls[k]? = some ⟨q, .returned result⟩ →
    result = ((code q).apply (s.seen code d₀ order k)).2
  data : (∀ (k : Nat) (call : Call Q D L R), s.calls[k]? = some call → call.holds = true →
    (code call.request).exclusive = false) → s.data = serial (undisturbed code) d₀ (s.served order)

theorem inv_new (code : Q → CriticalSection D L R) (d₀ : D) : Inv code d₀ [] ⟨d₀, []⟩ where
  nodup := List.nodup_nil
  known := nofun
  entered := nofun
  inside := nofun
  alone := nofun
  returned := nofun
  data _ := rfl

/-- The requests of calls that are known stay what they are. -/
theorem served_append {s s' : RwLock Q D L R} {order : List Nat}
    (hknown : ∀ k ∈ order, k < s.calls.length) {more : List Q}
    (hrequests : s'.requests = s.requests ++ more) : s'.served order = s.served order := by
  refine List.filterMap_congr fun k hk => ?_
  rw [hrequests, List.getElem?_append_left]
  simpa [requests] using hknown k hk

theorem before_sublist (order : List Nat) (k : Nat) : ∀ j ∈ before order k, j ∈ order :=
  fun _ hj => (List.takeWhile_sublist _).subset hj

theorem seen_append (code : Q → CriticalSection D L R) (d₀ : D) {s s' : RwLock Q D L R}
    {order : List Nat} (hknown : ∀ k ∈ order, k < s.calls.length) {more : List Q}
    (hrequests : s'.requests = s.requests ++ more) (k : Nat) :
    s'.seen code d₀ order k = s.seen code d₀ order k := by
  rw [seen, seen, served_append (fun j hj => hknown j (before_sublist order k j hj)) hrequests]

theorem call_append {calls : List (Call Q D L R)} {k : Nat} {call new : Call Q D L R}
    (h : (calls ++ [new])[k]? = some call) :
    calls[k]? = some call ∨ (k = calls.length ∧ call = new) := by
  rcases lt_trichotomy k calls.length with hk | rfl | hk
  · rw [List.getElem?_append_left hk] at h
    exact Or.inl h
  · rw [List.getElem?_concat_length] at h
    exact Or.inr ⟨rfl, (Option.some.inj h).symm⟩
  · rw [List.getElem?_eq_none (by simpa using hk)] at h
    cases h

theorem Inv.call {s : RwLock Q D L R} {d₀ : D} {order : List Nat} (h : Inv code d₀ order s) (q : Q) :
    Inv code d₀ order { s with calls := s.calls ++ [⟨q, .waiting⟩] } := by
  have hrequests : (⟨s.data, s.calls ++ [⟨q, .waiting⟩]⟩ : RwLock Q D L R).requests =
      s.requests ++ [q] := by simp [requests]
  have hseen := seen_append code d₀ h.known hrequests
  refine ⟨h.nodup, fun k hk => ?_, fun k call hcall => ?_, fun k q' rest mine hcall => ?_,
    fun k call hcall hholds hexclusive => ?_, fun k q' result hcall => ?_, fun hreaders => ?_⟩
  · rw [List.length_append]
    exact Nat.lt_add_right 1 (h.known k hk)
  · rcases call_append hcall with hcall | ⟨rfl, rfl⟩
    · exact h.entered k call hcall
    · exact iff_of_false (fun hk => absurd (h.known _ hk) (lt_irrefl _)) nofun
  · rcases call_append hcall with hcall | ⟨-, ⟨⟩⟩
    rw [hseen]
    exact h.inside k q' rest mine hcall
  · rcases call_append hcall with hcall | ⟨-, rfl⟩
    · refine ⟨(h.alone k call hcall hholds hexclusive).1, fun j other hother hheld => ?_⟩
      rcases call_append hother with hother | ⟨-, rfl⟩
      · exact (h.alone k call hcall hholds hexclusive).2 j other hother hheld
      · cases hheld
    · cases hholds
  · rcases call_append hcall with hcall | ⟨-, ⟨⟩⟩
    rw [hseen]
    exact h.returned k q' result hcall
  · rw [served_append h.known hrequests]
    refine h.data fun k call hcall => hreaders k call ?_
    rw [List.getElem?_append_left (List.getElem?_eq_some_iff.mp hcall).1]
    exact hcall

/-- One more request. -/
theorem serial_acquired (s : RwLock Q D L R) {d₀ : D} {order : List Nat} {k : Nat} {q : Q}
    {stage : Stage D L R} (hcall : s.calls[k]? = some ⟨q, stage⟩) :
    serial (undisturbed code) d₀ (s.served (order ++ [k])) =
      ((code q).apply (serial (undisturbed code) d₀ (s.served order))).1 := by
  have hrequest : s.requests[k]? = some q := by rw [requests, List.getElem?_map, hcall]; rfl
  have hlast : ([k].filterMap fun k => s.requests[k]?) = [q] := by simp [hrequest]
  rw [served, List.filterMap_append, hlast, serial, List.foldl_append]
  rfl

theorem holders_of_admits {s : RwLock Q D L R} {exclusive : Bool}
    (h : s.admits code exclusive = true) {k : Nat} {call : Call Q D L R}
    (hcall : s.calls[k]? = some call) (hholds : call.holds = true) :
    exclusive = false ∧ (code call.request).exclusive = false := by
  have hadmitted := List.all_eq_true.mp h call (List.mem_of_getElem? hcall)
  simpa [hholds] using hadmitted

theorem Inv.acquire {s : RwLock Q D L R} {d₀ : D} {order : List Nat} (h : Inv code d₀ order s)
    {k : Nat} {q : Q} (hcall : s.calls[k]? = some ⟨q, .waiting⟩)
    (hadmits : s.admits code (code q).exclusive = true) :
    Inv code d₀ (order ++ [k])
      { s with calls := s.calls.set k ⟨q, .inside (code q).steps (code q).init⟩ } := by
  have hnew : k ∉ order := fun hk => by cases (h.entered k _ hcall).mp hk
  have hrequests := requests_set s hcall s.data (.inside (code q).steps (code q).init)
  -- what the others see does not change
  have hseen : ∀ j ∈ order, (⟨s.data, s.calls.set k ⟨q, .inside (code q).steps (code q).init⟩⟩ :
      RwLock Q D L R).seen code d₀ (order ++ [k]) j = s.seen code d₀ order j := fun j hj => by
    rw [seen, seen, before_append hj, served, served, hrequests]
  have hdata : s.data = serial (undisturbed code) d₀ (s.served order) :=
    h.data fun j call hj hholds => (holders_of_admits hadmits hj hholds).2
  have hentered : ∀ {j call}, s.calls[j]? = some call → call.stage.entered = true → j ∈ order :=
    fun hj hstage => (h.entered _ _ hj).mpr hstage
  refine ⟨?_, fun j hj => ?_, fun j call hj => ?_, fun j q' rest mine hj => ?_,
    fun j call hj hholds hexclusive => ?_, fun j q' result hj => ?_, fun hreaders => ?_⟩
  · exact h.nodup.append (List.nodup_singleton k) (List.disjoint_singleton.mpr hnew)
  · rw [List.length_set]
    rcases List.mem_append.mp hj with hj | hj
    · exact h.known j hj
    · rw [List.mem_singleton.mp hj]
      exact (List.getElem?_eq_some_iff.mp hcall).1
  · rcases call_set hj with ⟨rfl, rfl⟩ | ⟨hne, hj⟩
    · exact iff_of_true (by simp) rfl
    · rw [List.mem_append, List.mem_singleton, or_iff_left hne]
      exact h.entered j call hj
  · rcases call_set hj with ⟨rfl, heq⟩ | ⟨-, hj⟩
    · cases heq
      refine ⟨?_, fun f hf => hf⟩
      rw [seen, before_self hnew, served, hrequests, ← served, ← hdata]
    · rw [hseen j (hentered hj rfl)]
      exact h.inside j q' rest mine hj
  · rcases call_set hj with ⟨rfl, rfl⟩ | ⟨hne, hj⟩
    · refine ⟨by simp, fun i other hi hheld => ?_⟩
      rcases call_set hi with ⟨rfl, -⟩ | ⟨-, hi⟩
      · rfl
      · have hnone := (holders_of_admits hadmits hi hheld).1
        cases hnone.symm.trans hexclusive
    · have hnone := (holders_of_admits hadmits hj hholds).2
      cases hnone.symm.trans hexclusive
  · rcases call_set hj with ⟨rfl, heq⟩ | ⟨-, hj⟩
    · cases heq
    · rw [hseen j (hentered hj rfl)]
      exact h.returned j q' result hj
  · have hk := (List.getElem?_eq_some_iff.mp hcall).1
    have hreads : (code q).exclusive = false :=
      hreaders k _ (by rw [List.getElem?_set_self hk]) rfl
    rw [served, hrequests, ← served, s.serial_acquired hcall, apply_fst hreads]
    exact hdata

/-- A call that is inside takes a step, or leaves. -/
theorem Inv.moved {s : RwLock Q D L R} {d₀ : D} {order : List Nat} (h : Inv code d₀ order s)
    {k : Nat} {q : Q} {rest : List (D × L → D × L)} {mine : L} {d : D} {stage : Stage D L R}
    (hcall : s.calls[k]? = some ⟨q, .inside rest mine⟩) (hentered : stage.entered = true)
    (hreads : (code q).exclusive = false → d = s.data)
    (hinside : ∀ rest mine, stage = .inside rest mine →
      runSteps rest (d, mine) = runSteps (code q).steps (s.seen code d₀ order k, (code q).init) ∧
      ∀ f ∈ rest, f ∈ (code q).steps)
    (hreturned : ∀ result, stage = .returned result →
      result = ((code q).apply (s.seen code d₀ order k)).2)
    (hdata : (∀ rest mine, stage ≠ .inside rest mine) → (code q).exclusive = true →
      d = serial (undisturbed code) d₀ (s.served order)) :
    Inv code d₀ order ⟨d, s.calls.set k ⟨q, stage⟩⟩ := by
  have hrequests := requests_set s hcall d stage
  have hseen : ∀ j, (⟨d, s.calls.set k ⟨q, stage⟩⟩ : RwLock Q D L R).seen code d₀ order j =
      s.seen code d₀ order j := fun j => by rw [seen, seen, served, served, hrequests]
  refine ⟨h.nodup, fun j hj => ?_, fun j call hj => ?_, fun j q' rest' mine' hj => ?_,
    fun j call hj hholds hexclusive => ?_, fun j q' result hj => ?_, fun hreaders => ?_⟩
  · rw [List.length_set]
    exact h.known j hj
  · rcases call_set hj with ⟨rfl, rfl⟩ | ⟨-, hj⟩
    · exact iff_of_true ((h.entered j _ hcall).mpr rfl) hentered
    · exact h.entered j call hj
  · rw [hseen]
    rcases call_set hj with ⟨rfl, heq⟩ | ⟨hne, hj⟩
    · cases heq
      exact hinside rest' mine' rfl
    · -- beside another call there are only readers
      have hreader : (code q).exclusive = false := Bool.eq_false_iff.mpr fun hexclusive =>
        hne ((h.alone k _ hcall rfl hexclusive).2 j _ hj rfl)
      rw [hreads hreader]
      exact h.inside j q' rest' mine' hj
  · have hothers : ∀ (i : Nat) (other : Call Q D L R),
        (s.calls.set k ⟨q, stage⟩)[i]? = some other → other.holds = true →
        ∃ before, s.calls[i]? = some before ∧ before.holds = true := fun i other hi hheld => by
      rcases call_set hi with ⟨rfl, -⟩ | ⟨-, hi⟩
      · exact ⟨_, hcall, rfl⟩
      · exact ⟨other, hi, hheld⟩
    have halone : order.getLast? = some j ∧ ∀ (i : Nat) (other : Call Q D L R),
        s.calls[i]? = some other → other.holds = true → i = j := by
      rcases call_set hj with ⟨rfl, rfl⟩ | ⟨-, hj⟩
      · exact h.alone j _ hcall rfl hexclusive
      · exact h.alone j call hj hholds hexclusive
    refine ⟨halone.1, fun i other hi hheld => ?_⟩
    obtain ⟨before, hbefore, hheld⟩ := hothers i other hi hheld
    exact halone.2 i before hbefore hheld
  · rw [hseen]
    rcases call_set hj with ⟨rfl, heq⟩ | ⟨-, hj⟩
    · cases heq
      exact hreturned result rfl
    · exact h.returned j q' result hj
  · rw [served, hrequests, ← served]
    have hk := (List.getElem?_eq_some_iff.mp hcall).1
    cases hexclusive : (code q).exclusive with
    | true =>
      refine hdata (fun rest' mine' hstage => ?_) hexclusive
      have hnone := hreaders k ⟨q, stage⟩ (List.getElem?_set_self hk) (by rw [hstage]; rfl)
      cases hnone.symm.trans hexclusive
    | false =>
      rw [hreads hexclusive]
      refine h.data fun j call hj hholds => ?_
      by_cases hne : j = k
      · subst hne
        rw [hcall] at hj
        cases hj
        exact hexclusive
      · exact hreaders j call (by rw [List.getElem?_set_ne (Ne.symm hne)]; exact hj) hholds

theorem Inv.advance {s : RwLock Q D L R} {d₀ : D} {order : List Nat} (h : Inv code d₀ order s)
    {k : Nat} {q : Q} {f : D × L → D × L} {rest : List (D × L → D × L)} {mine : L}
    (hcall : s.calls[k]? = some ⟨q, .inside (f :: rest) mine⟩) :
    Inv code d₀ order
      ⟨(f (s.data, mine)).1, s.calls.set k ⟨q, .inside rest (f (s.data, mine)).2⟩⟩ := by
  obtain ⟨hruns, hsteps⟩ := h.inside k q (f :: rest) mine hcall
  refine h.moved hcall rfl (fun hreads => ?_) (fun _ _ hstage => ?_) nofun
    fun hnone => absurd rfl (hnone _ _)
  · exact (code q).reads hreads f (hsteps f List.mem_cons_self) _
  · obtain ⟨rfl, rfl⟩ := Stage.inside.inj hstage
    exact ⟨hruns, fun g hg => hsteps g (List.mem_cons_of_mem f hg)⟩

theorem Inv.release {s : RwLock Q D L R} {d₀ : D} {order : List Nat} (h : Inv code d₀ order s)
    {k : Nat} {q : Q} {mine : L} (hcall : s.calls[k]? = some ⟨q, .inside [] mine⟩) :
    Inv code d₀ order
      { s with calls := s.calls.set k ⟨q, .returned ((code q).result mine)⟩ } := by
  obtain ⟨hruns, -⟩ := h.inside k q [] mine hcall
  have happly : (code q).apply (s.seen code d₀ order k) = (s.data, (code q).result mine) := by
    rw [apply, ← hruns]
    rfl
  refine h.moved hcall rfl (fun _ => rfl) nofun (fun result hstage => ?_) fun _ hexclusive => ?_
  · rw [happly]
    exact (Stage.returned.inj hstage).symm
  · -- the writer was let in last
    have hlast := (h.alone k _ hcall rfl hexclusive).1
    obtain ⟨earlier, rfl⟩ := List.getLast?_eq_some_iff.mp hlast
    have hnew : k ∉ earlier := fun hk =>
      (List.nodup_append.mp h.nodup).2.2 k hk k List.mem_cons_self rfl
    rw [s.serial_acquired hcall, ← before_self hnew]
    exact (congrArg Prod.fst happly).symm

theorem Inv.step {s s' : RwLock Q D L R} {d₀ : D} {order : List Nat} {a : Action Q}
    (hstep : step code s a = some s') (h : Inv code d₀ order s) :
    Inv code d₀ (order ++ acquired [a]) s' := by
  cases moves_of_step hstep with
  | call =>
    rw [show acquired [Action.call _] = [] from rfl, List.append_nil]
    exact h.call _
  | acquire hcall hadmits => exact h.acquire hcall hadmits
  | advance hcall =>
    rw [show acquired [(Action.advance _ : Action Q)] = [] from rfl, List.append_nil]
    exact h.advance hcall
  | release hcall =>
    rw [show acquired [(Action.release _ : Action Q)] = [] from rfl, List.append_nil]
    exact h.release hcall

theorem acquired_append (first rest : List (Action Q)) :
    acquired (first ++ rest) = acquired first ++ acquired rest :=
  List.filterMap_append

theorem inv_after {actions : List (Action Q)} {d₀ : D} {s : RwLock Q D L R}
    (hrun : run (RwLock.step code) ⟨d₀, []⟩ actions = some s) :
    Inv code d₀ (acquired actions) s := by
  refine run_history (P := fun actions s => Inv code d₀ (acquired actions) s)
    (fun actions s a s' hstep h => ?_) hrun (inv_new code d₀)
  rw [acquired_append]
  exact h.step hstep

/-- A call that has returned was let in before every call that is made later. -/
theorem before_of_returned {first : List (Action Q)} {d₀ : D} {m : RwLock Q D L R}
    (hfirst : run (RwLock.step code) ⟨d₀, []⟩ first = some m) {j k : Nat} {q : Q} {result : R}
    (hreturned : m.calls[k]? = some ⟨q, .returned result⟩) (hlater : m.calls.length ≤ j)
    (rest : List (Action Q)) : k ∈ before (acquired (first ++ rest)) j := by
  have hinv := inv_after hfirst
  have hk : k ∈ acquired first := (hinv.entered k _ hreturned).mpr rfl
  have hj : ∀ i ∈ acquired first, i ≠ j := fun i hi hij => by
    have hlt := hinv.known i hi
    omega
  rw [acquired_append, before, List.takeWhile_append_of_pos fun i hi => by simpa using hj i hi]
  exact List.mem_append_left _ hk

/-- As long as a call has not returned there is one that can go on. -/
theorem exists_step {s : RwLock Q D L R} {k : Nat} {call : Call Q D L R}
    (hcall : s.calls[k]? = some call) (hpending : ∀ result, call.stage ≠ .returned result) :
    ∃ a : Action Q, (∀ q, a ≠ .call q) ∧ (step code s a).isSome = true := by
  by_cases hholder : ∃ (j : Nat) (other : Call Q D L R), s.calls[j]? = some other ∧
      other.holds = true
  · obtain ⟨j, ⟨q, stage⟩, hother, hholds⟩ := hholder
    cases stage with
    | waiting | returned result => cases hholds
    | inside rest mine =>
      cases rest with
      | nil => exact ⟨.release j, nofun, by simp [step, hother]⟩
      | cons f rest => exact ⟨.advance j, nofun, by simp [step, hother]⟩
  · -- the lock is free
    obtain ⟨q, stage⟩ := call
    have hfree : s.admits code (code q).exclusive = true := by
      refine List.all_eq_true.mpr fun other hother => ?_
      obtain ⟨j, hj⟩ := List.mem_iff_getElem?.mp hother
      have hnot : other.holds = false := Bool.eq_false_iff.mpr fun hholds =>
        hholder ⟨j, other, hj, hholds⟩
      rw [hnot]
      rfl
    cases stage with
    | waiting => exact ⟨.acquire k, nofun, by simp [step, hcall, hfree]⟩
    | inside rest mine => exact absurd ⟨k, _, hcall, rfl⟩ hholder
    | returned result => exact absurd rfl (hpending result)

/-- **Calls behind a readers-writer lock linearize.**  In every run: a call that has returned has
the answer that `serve` gives after the calls before it, in the order in which they were let in;
when no writer is inside, the data are what all of them leave; and that order is the order of time
for calls one of which was made after the other had returned. -/
theorem linearizable {serve : D → Q → D × R} (hcode : Implements code serve)
    {actions : List (Action Q)} {d₀ : D} {s : RwLock Q D L R}
    (hrun : run (RwLock.step code) ⟨d₀, []⟩ actions = some s) :
    (∀ k q result, s.calls[k]? = some ⟨q, .returned result⟩ →
      result = (serve (serial serve d₀ (s.served (before (acquired actions) k))) q).2) ∧
    ((∀ (k : Nat) (call : Call Q D L R), s.calls[k]? = some call → call.holds = true →
      (code call.request).exclusive = false) →
      s.data = serial serve d₀ (s.served (acquired actions))) ∧
    ∀ first rest m, actions = first ++ rest → run (RwLock.step code) ⟨d₀, []⟩ first = some m →
      ∀ j k q result, m.calls[k]? = some ⟨q, .returned result⟩ → m.calls.length ≤ j →
        k ∈ before (acquired actions) j := by
  have hinv := inv_after hrun
  obtain rfl : undisturbed code = serve := funext fun d => funext fun q => hcode q d
  refine ⟨hinv.returned, hinv.data, ?_⟩
  rintro first rest m rfl hfirst j k q result hreturned hlater
  exact before_of_returned hfirst hreturned hlater rest

end RwLock

end Lib
