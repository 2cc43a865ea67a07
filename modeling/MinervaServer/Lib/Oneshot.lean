/-
# A oneshot channel

`tokio::sync::oneshot`: a channel for one value.  Sending consumes the sender, so a value
arrives at most once; it is lost if the receiver is gone.  A receiver that is polled gets the
value, or learns that the sender was dropped without one, or has to wait.
-/
import Mathlib

namespace Lib

structure Oneshot (V : Type) where
  value : Option V := none
  senderAlive : Bool := true
  receiverAlive : Bool := true
  deriving DecidableEq

/-- What polling the receiver returns. -/
inductive Poll (V : Type) where
  | ready (value : V)
  | closed
  | pending
  deriving DecidableEq

namespace Oneshot

variable {V : Type}

/-- `Sender::send`. -/
def send (c : Oneshot V) (v : V) : Oneshot V :=
  { c with value := if c.receiverAlive then some v else c.value, senderAlive := false }

/-- The sender is dropped. -/
def dropSender (c : Oneshot V) : Oneshot V := { c with senderAlive := false }

/-- The receiver is dropped. -/
def dropReceiver (c : Oneshot V) : Oneshot V := { c with receiverAlive := false }

/-- The receiver is polled. -/
def poll (c : Oneshot V) : Poll V :=
  match c.value with
  | some v => .ready v
  | none => if c.senderAlive then .pending else .closed

/-- Sending a value twice is sending it once. -/
theorem send_send (c : Oneshot V) (v : V) : (c.send v).send v = c.send v := by
  unfold send
  cases c.receiverAlive <;> rfl

/-- After a `send` nobody has to wait any more. -/
theorem poll_send (c : Oneshot V) (v : V) : (c.send v).poll ≠ .pending := by
  unfold poll send
  cases c.receiverAlive <;> cases c.value <;> nofun

/-- Nor after the sender was dropped. -/
theorem poll_dropSender (c : Oneshot V) : c.dropSender.poll ≠ .pending := by
  unfold poll dropSender
  cases c.value <;> nofun

end Oneshot

end Lib
