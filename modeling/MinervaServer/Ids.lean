/-
# Identifiers

`src/ids.rs`.  `UnitId` and `GroupId` are the two instances of the macro `string_id!`: a string
in a type of its own, compared as the string is.  `CommandId` is a `u64` handed out by
`CommandIdAllocator::next`, whose `fetch_add` wraps around.
-/
import MinervaServer.Lib.HashMap

namespace MinervaServer

/-- Id of a `Proto.Unit`, as assigned by the engine. -/
structure UnitId where ofStr ::
  str : String
  deriving DecidableEq, Repr

/-- Id of a `Proto.Group`, as assigned by the engine. -/
structure GroupId where ofStr ::
  str : String
  deriving DecidableEq, Repr

/-- Id of an in-flight command, assigned by the dispatcher when the command is sent. -/
structure CommandId where
  raw : UInt64
  deriving DecidableEq, Repr

instance : Ord UnitId := ⟨fun a b => compare a.str b.str⟩
instance : Ord GroupId := ⟨fun a b => compare a.str b.str⟩
instance : Ord CommandId := ⟨fun a b => compare a.raw b.raw⟩

instance : Std.TransOrd UnitId := inferInstanceAs (Std.TransCmp (compareOn UnitId.str))
instance : Std.TransOrd GroupId := inferInstanceAs (Std.TransCmp (compareOn GroupId.str))
instance : Std.TransOrd CommandId := inferInstanceAs (Std.TransCmp (compareOn CommandId.raw))

instance : Std.LawfulEqOrd UnitId where
  eq_of_compare {a b} h := by
    have hstr : a.str = b.str := Std.LawfulEqOrd.eq_of_compare (α := String) h
    cases a
    exact congrArg UnitId.ofStr hstr

instance : Std.LawfulEqOrd GroupId where
  eq_of_compare {a b} h := by
    have hstr : a.str = b.str := Std.LawfulEqOrd.eq_of_compare (α := String) h
    cases a
    exact congrArg GroupId.ofStr hstr

instance : Std.LawfulEqOrd CommandId where
  eq_of_compare {a b} h := by
    have hraw : a.raw = b.raw := Std.LawfulEqOrd.eq_of_compare (α := UInt64) h
    cases a
    exact congrArg CommandId.mk hraw

/-- The derived order of the ids is the order of their strings. -/
theorem UnitId.compare_lt {a b : UnitId} : compare a b = .lt ↔ a.str < b.str :=
  compareOfLessAndEq_eq_lt

/-- `CommandIdAllocator(AtomicU64)`. -/
structure CommandIdAllocator where
  counter : UInt64 := 0
  deriving DecidableEq, Repr

/-- `fetch_add(1, Relaxed)`: hands out the counter and leaves the next one. -/
def CommandIdAllocator.next (a : CommandIdAllocator) : CommandId × CommandIdAllocator :=
  (⟨a.counter⟩, ⟨a.counter + 1⟩)

end MinervaServer
