import ManagedHeap.Bag
import ManagedHeap.Error
import ManagedHeap.WorkQueue

/-!
The tables in which the allocator, the collector and the worker hand objects to each other. Every
object in a table is a root until it is taken out.
-/

namespace ManagedHeap

/-- A bag of objects with a bound on its size. -/
structure RefTable where
  bag : Bag := {}
deriving DecidableEq, Repr, Inhabited

namespace RefTable

/-- The objects in the order in which they came, but for those that a removal has moved. -/
def entries (t : RefTable) : List Nat := t.bag.entries

/-- The number of objects. -/
def size (t : RefTable) : Nat := t.bag.size

/-- An empty table with room set aside for `capacity` objects. It grows beyond that. -/
def create (capacity : Nat) : Except Defect RefTable := do
  Size.requireBlock capacity 8
  return {}

/-- Adds an object, unless the table is full. -/
def add? (t : RefTable) (object : Nat) : Option RefTable :=
  if t.size < Size.tableLimit then some { bag := t.bag.push object } else none

/-- Removes the last copy of an object. -/
def remove? (t : RefTable) (object : Nat) : Option RefTable :=
  (t.bag.remove? object).map RefTable.mk

theorem entries_of_add {t longer : RefTable} {object : Nat} (added : t.add? object = some longer) :
    longer.entries = t.entries ++ [object] := by
  unfold add? at added
  split at added
  · cases added
    exact Bag.entries_push t.bag object
  · cases added

theorem perm_of_remove {t rest : RefTable} {object : Nat} (removed : t.remove? object = some rest) :
    t.entries.Perm (object :: rest.entries) := by
  obtain ⟨bag, taken, rfl⟩ := Option.map_eq_some_iff.1 removed
  exact Bag.perm_of_remove taken

end RefTable

/-- The calls that a reference is due. -/
structure ReferenceWork where
  clear : Bool
  enqueue : Bool
deriving DecidableEq, Repr, Inhabited

/-- Is no call due at all? -/
def ReferenceWork.isEmpty (w : ReferenceWork) : Bool := !w.clear && !w.enqueue

/-- The calls in the order in which they are made. -/
def ReferenceWork.calls (w : ReferenceWork) : List Callback :=
  (if w.clear then [.clear] else []) ++ (if w.enqueue then [.enqueue] else [])

end ManagedHeap
