/-
# A bounded channel to one receiver

`tokio::sync::mpsc`, as its documentation describes it, with one sender: messages arrive in the
order they were sent, each once; at most `capacity` of them are under way; a sender that finds no
room waits for some; and once the receiver is gone nothing can be sent and what was under way is
lost.

Like a broadcast (`Lib.Broadcast`) the channel is the list of everything ever sent on it, and the
receiver a position in that list.  That the position is in the list and that no more than
`capacity` messages are past it are fields, so there is no channel that has broken its bound.
-/
import Mathlib

namespace Lib

/-- A channel, and how much of it the receiver has taken. -/
structure Mpsc (capacity : Nat) (M : Type) where
  sent : List M := []
  taken : Nat := 0
  /-- The receiver has been dropped. -/
  closed : Bool := false
  taken_le : taken ≤ sent.length := by simp
  bounded : sent.length ≤ taken + capacity := by simp

namespace Mpsc

variable {capacity : Nat} {M : Type}

/-- What the receiver has taken, in that order. -/
def received (c : Mpsc capacity M) : List M := c.sent.take c.taken

/-- What is under way. -/
def queue (c : Mpsc capacity M) : List M := c.sent.drop c.taken

/-- What becomes of a message that is sent. -/
inductive Offer (capacity : Nat) (M : Type) where
  | sent (channel : Mpsc capacity M)
  | full
  | closed

/-- `Sender::send`, polled: it waits while the channel is full. -/
def offer (c : Mpsc capacity M) (message : M) : Offer capacity M :=
  if c.closed then .closed
  else if h : c.sent.length < c.taken + capacity then
    .sent { c with
      sent := c.sent ++ [message]
      taken_le := by
        rw [List.length_append]
        exact Nat.le_add_right_of_le c.taken_le
      bounded := by
        rw [List.length_append]
        exact h }
  else .full

/-- `Receiver::recv`: the next message, if there is one. -/
def take (c : Mpsc capacity M) : Option (Mpsc capacity M) :=
  if h : ¬ c.closed ∧ c.taken < c.sent.length then
    some { c with
      taken := c.taken + 1
      taken_le := h.2
      bounded := c.bounded.trans (by omega) }
  else none

/-- The receiver is dropped. -/
def close (c : Mpsc capacity M) : Mpsc capacity M := { c with closed := true }

/-- **First in, first out**: nothing is lost, repeated or overtaken. -/
theorem received_append_queue (c : Mpsc capacity M) : c.received ++ c.queue = c.sent :=
  List.take_append_drop _ _

theorem length_queue_le (c : Mpsc capacity M) : c.queue.length ≤ capacity := by
  have hbounded := c.bounded
  rw [queue, List.length_drop]
  omega

/-- What a message that was sent leaves. -/
theorem offer_eq_sent {c c' : Mpsc capacity M} {message : M} (h : c.offer message = .sent c') :
    c.closed = false ∧ c'.sent = c.sent ++ [message] ∧ c'.taken = c.taken ∧ c'.closed = false := by
  unfold offer at h
  split at h
  · cases h
  · next hopen =>
    split at h
    · cases h
      exact ⟨by simpa using hopen, rfl, rfl, by simpa using hopen⟩
    · cases h

theorem offer_eq_closed {c : Mpsc capacity M} {message : M} :
    c.offer message = .closed ↔ c.closed = true := by
  unfold offer
  split
  · next hclosed => simp [hclosed]
  · next hopen => split <;> simp [hopen]

/-- Only a channel with messages under way is full. -/
theorem queue_ne_nil_of_full {c : Mpsc capacity M} {message : M} (hcapacity : 0 < capacity)
    (h : c.offer message = .full) : c.queue ≠ [] := by
  unfold offer at h
  split at h
  · cases h
  · split at h
    · cases h
    · rw [queue, ne_eq, List.drop_eq_nil_iff]
      omega

theorem take_eq_some {c c' : Mpsc capacity M} (h : c.take = some c') :
    c'.sent = c.sent ∧ c'.taken = c.taken + 1 ∧ c'.closed = c.closed ∧ c.closed = false := by
  unfold take at h
  split at h
  · next hopen =>
    cases h
    exact ⟨rfl, rfl, rfl, by simpa using hopen.1⟩
  · cases h

/-- A receiver that is there waits only if nothing is under way. -/
theorem take_eq_none {c : Mpsc capacity M} (h : c.closed = false) :
    c.take = none ↔ c.queue = [] := by
  unfold take
  rw [queue, List.drop_eq_nil_iff]
  simp [h]

end Mpsc

end Lib
