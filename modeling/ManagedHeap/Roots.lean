import ManagedHeap.Bag

/-!
Roots outside the heap: named lists of objects that can be shared, and the set of lists whose
objects a collection has to keep.
-/

namespace ManagedHeap

/-- A named list of objects. -/
structure RootList where
  name : String
  objects : Bag := {}
deriving DecidableEq, Repr, Inhabited

/-- The lists ever made, known by their number, and those registered, in order of registration.
A list registered twice is visited twice. -/
structure RootSet where
  lists : List RootList := []
  registered : List Nat := []
deriving DecidableEq, Repr, Inhabited

namespace RootSet

/-- Makes an empty list. Answers its number. -/
def newList (r : RootSet) (name : String) : Nat × RootSet :=
  (r.lists.length, { r with lists := r.lists ++ [{ name }] })

/-- Has a list visited from now on. -/
def register (r : RootSet) (number : Nat) : RootSet :=
  { r with registered := r.registered ++ [number] }

/-- The name of a list. -/
def name (r : RootSet) (number : Nat) : String :=
  match r.lists[number]? with
  | some list => list.name
  | none => ""

/-- The objects of a list. -/
def objects (r : RootSet) (number : Nat) : Bag :=
  match r.lists[number]? with
  | some list => list.objects
  | none => {}

/-- The objects of a list, in order. -/
def entries (r : RootSet) (number : Nat) : List Nat := (r.objects number).entries

/-- Changes the objects of a list. -/
def modify (r : RootSet) (number : Nat) (change : Bag → Bag) : RootSet :=
  { r with lists := r.lists.modify number fun list =>
      { list with objects := change list.objects } }

/-- Adds an object to a list. -/
def push (r : RootSet) (number object : Nat) : RootSet := r.modify number (·.push object)

/-- Removes the last copy of an object from a list. -/
def remove? (r : RootSet) (number object : Nat) : Option RootSet :=
  ((r.objects number).remove? object).map fun rest => r.modify number fun _ => rest

/-- Empties a list. -/
def clear (r : RootSet) (number : Nat) : RootSet := r.modify number fun _ => {}

/-- Keeps the first `length` objects of a list. -/
def truncate (r : RootSet) (number length : Nat) : RootSet := r.modify number (·.take length)

/-- The objects of all registered lists, as a collection visits them. -/
def all (r : RootSet) : List Nat := r.registered.flatMap r.entries

end RootSet

end ManagedHeap
