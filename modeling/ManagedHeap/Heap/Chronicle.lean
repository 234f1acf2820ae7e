import ManagedHeap.Heap.Operation

/-!
Chronicles of a heap. One operation may run several collections and look at the size of the heap in
between; a chronicle tells these apart. Nothing that is done depends on what was written down.
-/

namespace ManagedHeap

/-- The live objects, arena by arena. -/
def Source.objects (s : Source) : List Nat := s.arenas.flatMap fun a => (s.bitmap a.live).members

/-- What comes to pass within the operations on a heap. -/
inductive Happening where
  /-- The phases of a collection, with the heap when it begins to mark and the heap after them. What
  was freed is missing where they broke off. -/
  | phases (collectSoft : Bool) (h : Heap) (freed : Option (Nat × Nat)) (h' : Heap)
  /-- It is decided anew how soft references are treated, in view of the size that the heap has. -/
  | review (h : Heap)
  /-- There is room for an object, which lies in the heap now. -/
  | allocated (object : Nat) (h : Heap)
deriving DecidableEq, Repr

/-- A heap, with what has come to pass so far, the oldest first. -/
structure Chronicle where
  heap : Heap
  past : List Happening := []

/-- What an operation answers. -/
inductive Answer where
  | done
  | object (found : Option Nat)
  | number (n : Nat)
  /-- A figure of each arena. -/
  | figures (values : List Nat)
  | outcome (result : Except HeapError Unit)
  | split (result : Except HeapError Bool)
  /-- A piece of pending work. -/
  | work (taken : Option (Nat × List Callback))

/-- The new object, if one was asked for and there was room. -/
def Answer.object? : Answer → Option Nat
  | .object found => found
  | _ => none

namespace Chronicle

variable {α : Type}

/-- Writes down what comes to pass. -/
def note (c : Chronicle) (happening : Happening) : Chronicle :=
  { c with past := c.past ++ [happening] }

/-- Acts on the heap, with nothing to write down. -/
def within (action : Action Heap α) : Action Chronicle α :=
  action.on Chronicle.heap fun c heap => { c with heap }

/-- Decides anew how soft references are treated. -/
def review : Action Chronicle Unit := do
  modify fun c => c.note (.review c.heap)
  within (modify Heap.sizeChanged)

/-- Sets the minimum size. Answers the one before. -/
def setMinimum (size : Nat) : Action Chronicle Nat := do
  let old ← within (Heap.onSource (Source.setMinimum size))
  review
  return old

variable [ObjectModel]

/-- Goes through the phases of a collection. Answers the objects and the bytes freed. -/
def runCycle (collectSoft : Bool) : Action Chronicle (Nat × Nat) := fun c =>
  match Heap.runCycle collectSoft c.heap with
  | .ok freed heap =>
    .ok freed ({ c with heap }.note (.phases collectSoft c.heap (some freed) heap))
  | .error cause heap =>
    .error cause ({ c with heap }.note (.phases collectSoft c.heap none heap))

/-- Runs a full collection, unless one is under way. -/
def collect (collectSoft : Bool) : Action Chronicle Unit := do
  if (← within get).collecting then return
  within (modify fun h => { h with collecting := true })
  within Heap.checkWatchdog
  within (modify Heap.retainScheduled)
  let (objects, bytes) ← runCycle collectSoft
  within (Heap.onSource Source.growForUtilization)
  review
  within (modify (·.countCycle objects bytes))

/-- Runs a collection on behalf of a request, and counts it. -/
def collectFor (record : Nat) (collectSoft : Bool) : Action Chronicle Unit := do
  if (← within get).profiling then
    within (modify fun h =>
      { h with profile := h.profile.countCollection }.modifyMutator record fun m =>
        { m with profile := m.profile.countCollection })
  collect collectSoft

/-- Allocates with the arenas free to grow. -/
def allocGrowing (size : Nat) : Action Chronicle (Option Nat) := do
  let object ← within (Heap.onSource (Source.allocAndGrow size))
  review
  return object

/-- Finds room for an object. -/
def findRoom (record size : Nat) : Action Chronicle (Option Nat) := do
  if (← within get).source.absoluteMax ≤ size then return none
  if let some object ← within (Heap.onSource (Source.alloc size)) then return some object
  collectFor record false
  if let some object ← within (Heap.onSource (Source.alloc size)) then return some object
  if let some object ← allocGrowing size then return some object
  collectFor record true
  allocGrowing size

/-- Allocates an object, short of reporting that there is no room. -/
def request (record size : Nat) (flags : AllocFlags) : Action Chronicle (Option Nat) := do
  let profiling := (← within get).profiling
  let object ← findRoom record size
  if let some address := object then
    modify fun c => c.note (.allocated address c.heap)
    within (Heap.enter record address flags)
  within (Heap.countIf profiling record (Profile.countAlloc size object.isSome))
  return object

/-- Counts external memory, with its limit free to move. -/
def growExternal (n : Nat) : Action Chronicle Bool := do
  let done ← within (Heap.onSource (Source.externalAlloc n true))
  review
  return done

/-- Counts external memory, by way of collections where its limit does not leave the room. -/
def chargeExternal (record n : Nat) : Action Chronicle Bool := do
  if ← within (Heap.onSource (Source.externalAlloc n false)) then return true
  collectFor record false
  if ← within (Heap.onSource (Source.externalAlloc n false)) then return true
  if ← growExternal n then return true
  collectFor record true
  growExternal n

/-- Could `n` more external bytes fit? -/
def externalPossible (n : Nat) : Action Chronicle Bool :=
  within do (← get).source.externalPossible n

/-- Finds room for external memory. -/
def findExternalRoom (record n : Nat) : Action Chronicle (Except HeapError Unit) := do
  if !(← externalPossible n) then
    collectFor record false
    let _ ← within (Heap.onSource Source.shrinkToIdeal)
    if !(← externalPossible n) then return .error (.externalTooLarge n)
  if ← chargeExternal record n then return .ok ()
  return .error (.externalOutOfMemory n)

/-- Counts external memory against the heap. -/
def requestExternal (record n : Nat) : Action Chronicle (Except HeapError Unit) := do
  let result ← findExternalRoom record n
  within (Heap.countIf (← within get).profiling record (Profile.countExternal n result.toBool))
  return result

/-- Takes a step, with the answer that it gives. -/
def perform : Heap.Operation → Action Chronicle Answer
  | .request record size flags => .object <$> request record size flags
  | .collect collectSoft => (fun _ => .done) <$> collect collectSoft
  | .requestExternal record bytes => .outcome <$> requestExternal record bytes
  | .freeExternal bytes => .number <$> within (Heap.onSource (Source.externalFree bytes))
  | .setMinimum size => .number <$> setMinimum size
  | .trim => .figures <$> within (Heap.onSource Source.trim)
  | .beforeFork => .split <$> within (Heap.onSource Source.beforeFork)
  | .afterZygote => .outcome <$> within Heap.afterZygote
  | .attach thread name => .number <$> within (Heap.attach thread name)
  | .takeWork => .work <$> within Heap.takeWork
  | op => (fun _ => .done) <$> within (Heap.perform op)

end Chronicle

end ManagedHeap
