/-
# A cell behind a reentrant lock

`ReentrantMutex<RefCell<D>>`, as the one thread sees it that may take the lock.  The lock keeps the
other threads out, but not the thread itself: whatever that thread calls while it holds the lock may
lock again and find the cell borrowed, and then `borrow_mut` panics.  So two counts go with the
data, how often the thread holds the lock and how many `RefMut`s are alive; and a program on the
cell is a function of the three that may end in a `BorrowMutError`.

A program KEEPS a relation (`KeepsAt`) if with nothing borrowed it runs to its end, with nothing
borrowed there, the lock held as often as before, and the data related to what they were.  Such
programs compose, and may be called under the lock.
-/
import Mathlib

namespace Lib

/-- The panic of `RefCell::borrow_mut` while a borrow is alive. -/
inductive BorrowMutError where
  | alreadyBorrowed
  deriving DecidableEq, Repr

/-- The data of the cell, and what is held of it. -/
structure LockedCell (D : Type) where
  data : D
  /-- How often the thread holds the lock. -/
  depth : Nat := 0
  /-- How many `RefMut`s are alive. -/
  borrows : Nat := 0

/-- A program on the cell. -/
abbrev CellM (D A : Type) := StateT (LockedCell D) (Except BorrowMutError) A

namespace CellM

variable {D A B : Type}

/-! ## 1. The operations -/

/-- `ReentrantMutex::lock`, on the thread that may take the lock. -/
def lock : CellM D Unit := modify fun cell => { cell with depth := cell.depth + 1 }

/-- The drop of a lock guard. -/
def unlock : CellM D Unit := modify fun cell => { cell with depth := cell.depth - 1 }

/-- `RefCell::borrow_mut`. -/
def borrowMut : CellM D Unit := fun cell =>
  if cell.borrows = 0 then .ok ((), { cell with borrows := cell.borrows + 1 })
  else .error .alreadyBorrowed

/-- The drop of a `RefMut`. -/
def release : CellM D Unit := modify fun cell => { cell with borrows := cell.borrows - 1 }

def data : CellM D D := return (← get).data

/-- Use the data. -/
def update (f : D → D × A) : CellM D A :=
  modifyGet fun cell => ((f cell.data).2, { cell with data := (f cell.data).1 })

/-- A statement with `lock().borrow_mut()` in it: the guard of the lock and the `RefMut` are
temporaries of the statement, and live as long as `f` uses the data. -/
def statement (f : D → D × A) : CellM D A := do
  lock
  borrowMut
  let a ← update f
  release
  unlock
  return a

theorem statement_eq (f : D → D × A) (d : D) (depth : Nat) :
    statement f ⟨d, depth, 0⟩ = .ok ((f d).2, ⟨(f d).1, depth, 0⟩) := rfl

/-- **What the lock does not prevent.**  Under a borrow, every such statement panics. -/
theorem statement_of_borrowed (f : D → D × A) {cell : LockedCell D} (h : cell.borrows ≠ 0) :
    statement f cell = .error .alreadyBorrowed := by
  have hborrow : borrowMut { cell with depth := cell.depth + 1 } = .error .alreadyBorrowed :=
    if_neg h
  change (borrowMut { cell with depth := cell.depth + 1 }).bind _ = _
  rw [hborrow]
  rfl

/-! ## 2. Programs that keep a relation -/

/-- From the data `d`, with nothing borrowed, the program ends: with nothing borrowed, the lock held
as often as before, and data that are `R`-related to `d`. -/
def KeepsAt (R : D → D → Prop) (d : D) (program : CellM D A) : Prop :=
  ∀ depth, ∃ a d', program ⟨d, depth, 0⟩ = .ok (a, ⟨d', depth, 0⟩) ∧ R d d'

variable {R : D → D → Prop} {d : D}

theorem KeepsAt.pure (hrefl : R d d) (a : A) : KeepsAt R d (pure a : CellM D A) :=
  fun _ => ⟨a, d, rfl, hrefl⟩

theorem KeepsAt.bind (htrans : ∀ d d' d'', R d d' → R d' d'' → R d d'') {program : CellM D A}
    {next : A → CellM D B} (h : KeepsAt R d program)
    (hnext : ∀ a d', R d d' → KeepsAt R d' (next a)) : KeepsAt R d (program >>= next) := by
  intro depth
  obtain ⟨a, d', hprogram, hfirst⟩ := h depth
  obtain ⟨b, d'', hrest, hsecond⟩ := hnext a d' hfirst depth
  refine ⟨b, d'', ?_, htrans d d' d'' hfirst hsecond⟩
  change (program ⟨d, depth, 0⟩).bind _ = _
  rw [hprogram]
  exact hrest

theorem KeepsAt.update (htrans : ∀ d d' d'', R d d' → R d' d'' → R d d'') {f : D → D × A}
    {next : A → CellM D B} (hf : R d (f d).1) (h : KeepsAt R (f d).1 (next (f d).2)) :
    KeepsAt R d (update f >>= next) := by
  intro depth
  obtain ⟨b, d', hrest, hsecond⟩ := h depth
  exact ⟨b, d', hrest, htrans _ _ _ hf hsecond⟩

theorem KeepsAt.statement {f : D → D × A} (hf : R d (f d).1) : KeepsAt R d (statement f) :=
  fun depth => ⟨(f d).2, (f d).1, statement_eq f d depth, hf⟩

theorem KeepsAt.data {next : D → CellM D A} (h : KeepsAt R d (next d)) :
    KeepsAt R d (data >>= next) := h

end CellM

end Lib
