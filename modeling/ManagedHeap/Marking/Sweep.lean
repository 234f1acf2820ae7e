import ManagedHeap.Marking

/-!
The end of a collection: every live object without a mark is freed.
-/

namespace ManagedHeap

namespace Cycle

/-- Frees objects one after the other. Answers the bytes that they accounted for, together with
those `freed` before. -/
def freeEach (freed : Nat) : List Nat → Action Cycle Nat
  | [] => return freed
  | object :: rest => do
    let bytes ← Action.on Cycle.source (fun c source => { c with source }) (Source.free object)
    modifyTables fun t => { t with scheduled := t.scheduled.filter (· != object) }
    freeEach (freed + bytes) rest

/-- Frees what each live bitmap has and its marks have not. Answers the number of objects and
their bytes. -/
def sweepEach : List (Nat × Bitmap) → Action Cycle (Nat × Nat)
  | [] => return (0, 0)
  | (number, marks) :: rest => do
    let garbage ← (((← get).source.bitmap number).sweepWalk marks : Except Defect (List Nat))
    let bytes ← freeEach 0 garbage
    let (objects, more) ← sweepEach rest
    return (garbage.length + objects, bytes + more)

/-- Frees every live object that has no mark. -/
def sweep : Action Cycle (Nat × Nat) := do
  let m := (← get).marking
  sweepEach (m.live.zip m.marks)

/-- Ends the marking. Nothing may be left to scan. -/
def finish : Action Cycle Unit := do
  Action.require (← get).marking.stack.isEmpty

end Cycle

end ManagedHeap
