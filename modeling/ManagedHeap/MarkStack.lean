import ManagedHeap.Error

/-!
The objects that are marked and still have to be scanned, last in, first out, within a capacity
that is fixed when a collection begins.
-/

namespace ManagedHeap

/-- A stack of objects. -/
structure MarkStack where
  capacity : Nat
  /-- The objects, the top one first. -/
  entries : List Nat := []
  /-- How many more objects fit. -/
  room : Nat := capacity
deriving DecidableEq, Repr, Inhabited

namespace MarkStack

/-- A stack for `capacity` objects, if memory for it can be had. -/
def create (capacity : Nat) : Except Defect (Except Fatal MarkStack) := do
  let bytes ← Word.mul (max capacity 1) 8
  if Size.unreservable ≤ bytes then
    return .error (.markSetupFailed "mark stack: Cannot allocate memory (os error 12)")
  return .ok { capacity }

/-- Puts an object on top, if there is room. -/
def push? (s : MarkStack) (object : Nat) : Option MarkStack :=
  if s.room = 0 then none
  else some { s with entries := object :: s.entries, room := s.room - 1 }

/-- Puts the objects of a row of granules on top one after the other. Answers whether there was room
for all; those before the first without room stay. -/
def pushRow (s : MarkStack) (object : Nat) : Nat → Bool × MarkStack
  | 0 => (true, s)
  | more + 1 =>
    match s.push? object with
    | some s => s.pushRow (object + 8) more
    | none => (false, s)

/-- Takes the top object. -/
def pop? (s : MarkStack) : Option (Nat × MarkStack) :=
  match s.entries with
  | [] => none
  | object :: rest => some (object, { s with entries := rest, room := s.room + 1 })

/-- The number of objects on the stack. -/
def length (s : MarkStack) : Nat := s.capacity - s.room

/-- Is nothing on the stack? -/
def isEmpty (s : MarkStack) : Bool := s.room == s.capacity

end MarkStack

end ManagedHeap
