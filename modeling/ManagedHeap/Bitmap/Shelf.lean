import ManagedHeap.Bitmap

/-!
A shelf of bitmaps over one range of addresses, and what can be done with them, one thing at a time.
A bitmap is told by its place on the shelf, and new ones go to the end.
-/

namespace ManagedHeap

namespace Bitmap

/-- Something done with the bitmaps on a shelf. -/
inductive Operation where
  | create (name : String)
  | snapshot (number : Nat)
  | test (number address : Nat)
  | set (number address : Nat)
  | clear (number address : Nat)
  | clearAll (number : Nat)
  | count (number : Nat)
  /-- Walks over the members, and clears each on the way if asked to. -/
  | walk (number : Nat) (clearing : Bool)
  /-- Walks over what is in a bitmap and not among the marks, and clears each on the way if asked
  to. -/
  | sweep (number marks : Nat) (clearing : Bool)
deriving DecidableEq, Repr

/-- What an operation answers. -/
inductive Answer where
  | nothing
  /-- There is no such place on the shelf. -/
  | missing
  | refused (cause : HeapError)
  | member (present : Bool)
  | count (number : Nat)
  | visited (addresses : List Nat)
deriving DecidableEq, Repr

abbrev Shelf := List Bitmap

namespace Shelf

/-- Acts on the bitmap at a place. -/
def act (shelf : Shelf) (number : Nat) (change : Bitmap → Except Defect (Answer × Bitmap)) :
    Except Defect (Answer × Shelf) :=
  match shelf[number]? with
  | none => return (.missing, shelf)
  | some b => do
    let (answer, b) ← change b
    return (answer, List.set shelf number b)

/-- Puts a new bitmap at the end. -/
def add (shelf : Shelf) : Except HeapError Bitmap → Answer × Shelf
  | .error cause => (.refused cause, shelf)
  | .ok b => (.nothing, shelf ++ [b])

/-- Does something with bitmaps over `capacity` bytes from `base` on. -/
def perform (base capacity : Nat) (shelf : Shelf) : Operation → Except Defect (Answer × Shelf)
  | .create name => return shelf.add (← Bitmap.create name base capacity)
  | .snapshot number =>
    match shelf[number]? with
    | none => return (.missing, shelf)
    | some b => return shelf.add (← b.snapshot)
  | .test number address => shelf.act number fun b => return (.member (b.test address), b)
  | .set number address => shelf.act number fun b => do
    let (before, b) ← b.set address
    return (.member before, b)
  | .clear number address => shelf.act number fun b => do
    let (before, b) ← b.clear address
    return (.member before, b)
  | .clearAll number => shelf.act number fun b => return (.nothing, ← b.clearAll)
  | .count number => shelf.act number fun b => return (.count (← b.count), b)
  | .walk number false => shelf.act number fun b => return (.visited (← b.walk), b)
  | .walk number true => shelf.act number fun b => do
    let (visited, b) ← b.walkClearing
    return (.visited visited, b)
  | .sweep number marks clearing =>
    match shelf[marks]? with
    | none => return (.missing, shelf)
    | some marks => shelf.act number fun b => do
      if clearing then
        let (visited, b) ← b.sweepClearing marks
        return (.visited visited, b)
      else return (.visited (← b.sweepWalk marks), b)

/-- Does one thing after the other. Answers what each of them does. -/
def run (base capacity : Nat) (shelf : Shelf) :
    List Operation → Except Defect (List Answer × Shelf)
  | [] => return ([], shelf)
  | op :: rest => do
    let (answer, shelf) ← shelf.perform base capacity op
    let (answers, shelf) ← shelf.run base capacity rest
    return (answer :: answers, shelf)

end Shelf

end Bitmap

end ManagedHeap
