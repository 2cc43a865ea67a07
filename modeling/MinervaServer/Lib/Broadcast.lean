/-
# A bounded broadcast channel

`tokio::sync::broadcast`, as its documentation describes it: every message goes to every
receiver that existed when it was sent, in the order of sending, and the channel keeps the last
`capacity` messages.  A receiver that is asked for a message the channel no longer keeps is told
that it LAGGED, and continues with the oldest one that is still there.

The channel is the list of everything ever sent on it, and a receiver is a position in that
list.  What the buffer has dropped is then a statement about lengths (`Overrun`).
-/
import Mathlib

namespace Lib

variable {M : Type}

/-- A receiver: the position of the next message it reads. -/
structure Receiver where
  next : Nat
  deriving DecidableEq, Repr

/-- What `recv` returns: a message, the number of messages missed, or nothing yet. -/
inductive Recv (M : Type) where
  | ok (message : M)
  | lagged (missed : Nat)
  | empty

namespace Receiver

/-- `Sender::subscribe`: the receiver sees what is sent from now on. -/
def subscribe (log : List M) : Receiver := ⟨log.length⟩

/-- The channel has dropped a message that the receiver has not read. -/
def Overrun (capacity : Nat) (log : List M) (r : Receiver) : Prop :=
  r.next + capacity < log.length

instance (capacity : Nat) (log : List M) (r : Receiver) : Decidable (r.Overrun capacity log) :=
  inferInstanceAs (Decidable (_ < _))

/-- `Receiver::recv`. -/
def recv (capacity : Nat) (log : List M) (r : Receiver) : Recv M × Receiver :=
  if r.Overrun capacity log then
    (.lagged (log.length - capacity - r.next), ⟨log.length - capacity⟩)
  else match log[r.next]? with
    | some message => (.ok message, ⟨r.next + 1⟩)
    | none => (.empty, r)

variable {capacity : Nat} {log : List M} {r : Receiver}

/-- A dropped message stays dropped. -/
theorem Overrun.append (h : r.Overrun capacity log) (more : List M) :
    r.Overrun capacity (log ++ more) := by
  unfold Overrun at *
  rw [List.length_append]
  omega

theorem recv_of_overrun (h : r.Overrun capacity log) :
    r.recv capacity log = (.lagged (log.length - capacity - r.next), ⟨log.length - capacity⟩) :=
  if_pos h

/-- **Everything `recv` can do.** -/
theorem recv_cases (capacity : Nat) (log : List M) (r : Receiver) :
    (r.Overrun capacity log ∧ ∃ missed, r.recv capacity log =
      (.lagged missed, ⟨log.length - capacity⟩)) ∨
    (∃ message, log[r.next]? = some message ∧ r.recv capacity log = (.ok message, ⟨r.next + 1⟩)) ∨
    (log.length ≤ r.next ∧ r.recv capacity log = (.empty, r)) := by
  by_cases h : r.Overrun capacity log
  · exact Or.inl ⟨h, _, recv_of_overrun h⟩
  · refine Or.inr ?_
    unfold recv
    rw [if_neg h]
    cases hnext : log[r.next]? with
    | some message => exact Or.inl ⟨message, rfl, rfl⟩
    | none => exact Or.inr ⟨List.getElem?_eq_none_iff.mp hnext, rfl⟩

end Receiver

end Lib
