import ManagedHeap.Heap.Collection

/-!
Requests for memory, inside the heap and outside. A request that does not fit at once has the heap
collected, then grown, and as a last resort collected without regard for soft references.
-/

namespace ManagedHeap

namespace Heap

variable [ObjectModel]

/-- Allocates with the arenas free to grow. -/
def allocGrowing (size : Nat) : Action Heap (Option Nat) := do
  let object ← onSource (Source.allocAndGrow size)
  modify sizeChanged
  return object

/-- Finds room for an object. -/
def findRoom (record size : Nat) : Action Heap (Option Nat) := do
  if (← get).source.absoluteMax ≤ size then return none
  if let some object ← onSource (Source.alloc size) then return some object
  collectFor record false
  if let some object ← onSource (Source.alloc size) then return some object
  if let some object ← allocGrowing size then return some object
  collectFor record true
  allocGrowing size

/-- Enters an object among those that have a finalizer. -/
def enterFinalizable (object : Nat) : Action Heap Unit := do
  match (← get).tables.finalizable.push? object with
  | some finalizable => modify fun h => { h with tables := { h.tables with finalizable } }
  | none => throw (.fatal .finalizableTableFull)

/-- Enters an object among those that must not be collected. -/
def enterNonCollectable (object : Nat) : Action Heap Unit := do
  match (← get).nonCollectable.add? object with
  | some nonCollectable => modify fun h => { h with nonCollectable }
  | none => throw (.fatal (.nonCollectableTableFull (← get).nonCollectable.size))

/-- Holds a new object: for good if it must not be collected, else for the thread that asked for it
unless that is not wanted. -/
def hold (record object : Nat) (flags : AllocFlags) : Action Heap Unit := do
  if flags.noCollect then enterNonCollectable object
  else if !flags.untracked then
    modify fun h => { h with threads := h.threads.track record object }

/-- Enters a new object into the tables that its flags name. -/
def enter (record object : Nat) (flags : AllocFlags) : Action Heap Unit := do
  if flags.finalizable then enterFinalizable object
  hold record object flags

/-- Counts something for the heap and for a thread, if counts are kept. -/
def countIf (profiling : Bool) (record : Nat) (count : Action Profile Unit) :
    Action Heap Unit := do
  if profiling then
    onProfile count
    onMutatorProfile record count

/-- Allocates an object, short of reporting that there is no room. -/
def request (record size : Nat) (flags : AllocFlags) : Action Heap (Option Nat) := do
  let profiling := (← get).profiling
  let object ← findRoom record size
  if let some address := object then enter record address flags
  countIf profiling record (Profile.countAlloc size object.isSome)
  return object

/-- Counts external memory, with its limit free to move. -/
def growExternal (n : Nat) : Action Heap Bool := do
  let done ← onSource (Source.externalAlloc n true)
  modify sizeChanged
  return done

/-- Counts external memory, by way of collections where its limit does not leave the room. -/
def chargeExternal (record n : Nat) : Action Heap Bool := do
  if ← onSource (Source.externalAlloc n false) then return true
  collectFor record false
  if ← onSource (Source.externalAlloc n false) then return true
  if ← growExternal n then return true
  collectFor record true
  growExternal n

/-- Finds room for external memory. -/
def findExternalRoom (record n : Nat) : Action Heap (Except HeapError Unit) := do
  if !(← (← get).source.externalPossible n) then
    collectFor record false
    let _ ← onSource Source.shrinkToIdeal
    if !(← (← get).source.externalPossible n) then return .error (.externalTooLarge n)
  if ← chargeExternal record n then return .ok ()
  return .error (.externalOutOfMemory n)

/-- Counts external memory against the heap. -/
def requestExternal (record n : Nat) : Action Heap (Except HeapError Unit) := do
  let result ← findExternalRoom record n
  countIf (← get).profiling record (Profile.countExternal n result.toBool)
  return result

end Heap

end ManagedHeap
