import ManagedHeap.Script.Vocabulary

/-!
Copies of live bitmaps that a script keeps and offers to the arenas later.
-/

namespace ManagedHeap

namespace Script

/-- Lists of bitmap numbers, by name. -/
abbrev KeptBitmaps := List (String × List Nat)

namespace KeptBitmaps

/-- Keeps a list under a name. -/
def put (k : KeptBitmaps) (name : String) (numbers : List Nat) : KeptBitmaps :=
  (name, numbers) :: k.filter fun (other, _) => other != name

/-- The number of members of each bitmap. -/
def counts (s : Source) (numbers : List Nat) : Except Defect (List Nat) :=
  numbers.mapM fun number => (s.bitmap number).count

/-- Keeps copies of the live bitmaps. -/
def snapshot (k : KeptBitmaps) (name : String) (s : Source) :
    Except Defect (Reply × KeptBitmaps × Source) := do
  let (numbers, s) := s.snapshotBitmaps
  return (.counts (← counts s numbers), k.put name numbers, s)

/-- Offers the first `offered` bitmaps of a list to the arenas, all unless told otherwise. What the
arenas give back takes their place. The list is reversed beforehand where that is asked for. -/
def swap (k : KeptBitmaps) (name : String) (reverse : Bool) (offered : Option Nat) (s : Source) :
    Except Defect (Reply × KeptBitmaps × Source) := do
  match k.lookup name with
  | none => return (.misuse .noSuchBitmaps, k, s)
  | some numbers =>
    let numbers := if reverse then numbers.reverse else numbers
    let offered := offered.getD numbers.length
    let (accepted, returned, s) := s.replaceBitmaps (numbers.take offered)
    let numbers := returned ++ numbers.drop offered
    return (.swapped accepted (← counts s numbers), k.put name numbers, s)

end KeptBitmaps

end Script

end ManagedHeap
