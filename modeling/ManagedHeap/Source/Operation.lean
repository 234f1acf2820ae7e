import ManagedHeap.ObjectModel
import ManagedHeap.Source.Allocation
import ManagedHeap.Source.Arenas
import ManagedHeap.Source.External

/-!
What can be done to the arenas, one thing at a time: everything that a heap asks of them, in any
order.
-/

namespace ManagedHeap

namespace Source

/-- One step of whoever uses the arenas. -/
inductive Operation where
  | alloc (n : Nat)
  | allocAndGrow (n : Nat)
  | free (address : Nat)
  | addArena
  | beforeFork
  | afterZygote
  | setUtilization (ratio : Binary32)
  | setMinimum (size : Nat)
  | growForUtilization
  | trim
  | shrinkToIdeal
  | externalAlloc (n : Nat) (grow : Bool)
  | externalFree (n : Nat)
  | setGeneration (address generation : Nat)
  /-- Puts a value into words of the arena that has the object. -/
  | write (object index count value : Nat)
  | snapshotBitmaps
  /-- Exchanges the live bitmaps for copies that are up to date. Others are refused. -/
  | replaceBitmaps (numbers : List Nat)
deriving Repr

/-- A step that hands no object out. -/
def quietly {α : Type} (step : Action Source α) : Action Source (Option Nat) := do
  let _ ← step
  return none

/-- Exchanges the live bitmaps for others with the same members. -/
def replaceCurrent (s : Source) (numbers : List Nat) : Source :=
  if s.areCurrent numbers then (s.replaceBitmaps numbers).2.2 else s

/-- Takes a step. Answers the object that was handed out, if one was. -/
def perform : Operation → Action Source (Option Nat)
  | .alloc n => alloc n
  | .allocAndGrow n => allocAndGrow n
  | .free address => quietly (free address)
  | .addArena => quietly addArena
  | .beforeFork => quietly beforeFork
  | .afterZygote => quietly afterZygote
  | .setUtilization ratio => quietly (modify (·.setUtilization ratio))
  | .setMinimum size => quietly (setMinimum size)
  | .growForUtilization => quietly growForUtilization
  | .trim => quietly trim
  | .shrinkToIdeal => quietly shrinkToIdeal
  | .externalAlloc n grow => quietly (externalAlloc n grow)
  | .externalFree n => quietly (externalFree n)
  | .setGeneration address generation => quietly (modify (·.setGeneration address generation))
  | .write object index count value => quietly (modify (·.setWords object index count value))
  | .snapshotBitmaps => quietly (modify fun s => s.snapshotBitmaps.2)
  | .replaceBitmaps numbers => quietly (modify (·.replaceCurrent numbers))

end Source

end ManagedHeap
