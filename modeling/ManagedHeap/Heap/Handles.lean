import ManagedHeap.Heap.Chronicle

/-!
Programs that get hold of bitmaps. Besides its operations on the heap, a program may take the numbers of
the live bitmaps, have these copied, and offer bitmaps in exchange for them, be they up to date or not.
-/

namespace ManagedHeap

namespace Source

/-- Offers bitmaps in exchange for the live ones. Answers whether they were taken, and the bitmaps that
are to be had for them. -/
def exchange (numbers : List Nat) : Action Source (Bool × List Nat) := fun s =>
  let (accepted, returned, s) := s.replaceBitmaps numbers
  .ok (accepted, returned) s

/-- Has the live bitmaps copied. Answers the numbers of the copies. -/
def copyBitmaps : Action Source (List Nat) := fun s =>
  let (numbers, s) := s.snapshotBitmaps
  .ok numbers s

end Source

namespace Chronicle

/-- One thing that a program does. -/
inductive Move where
  | operate (op : Heap.Operation)
  /-- Takes the live bitmaps as they are, for all that is done to them to be seen. -/
  | hold
  /-- Takes copies of the live bitmaps. -/
  | copy
  /-- Offers bitmaps in exchange for the live ones. -/
  | exchange (numbers : List Nat)

/-- What a program gets to know. -/
inductive Reply where
  | answer (answer : Answer)
  | bitmaps (numbers : List Nat)
  | exchanged (accepted : Bool) (numbers : List Nat)

variable [ObjectModel]

/-- Makes a move. -/
def make : Move → Action Chronicle Reply
  | .operate op => .answer <$> perform op
  | .hold => do return .bitmaps ((← within get).source.arenas.map Arena.live)
  | .copy => .bitmaps <$> within (Heap.onSource Source.copyBitmaps)
  | .exchange numbers => do
    let (accepted, returned) ← within (Heap.onSource (Source.exchange numbers))
    return .exchanged accepted returned

/-- Makes moves, one after the other. Answers what the program gets to know of each, be it how the move
fails, and what has become of the heap. -/
def play (c : Chronicle) : List Move → List (Except Failure Reply) × Chronicle
  | [] => ([], c)
  | move :: rest =>
    match make move c with
    | .ok reply c =>
      let (replies, c) := c.play rest
      (.ok reply :: replies, c)
    | .error cause c =>
      let (replies, c) := c.play rest
      (.error cause :: replies, c)

end Chronicle

end ManagedHeap
