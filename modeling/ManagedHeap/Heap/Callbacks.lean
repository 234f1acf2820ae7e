import ManagedHeap.Heap.Requests

/-!
Where the heap calls back into the program that uses it: to report that memory has run out, and to
make the calls that collections have left pending. A callback may do to the heap whatever a program
may do.
-/

namespace ManagedHeap

namespace Heap

/-- Takes the next piece of pending work, reference operations before finalizers. Answers the object
and the calls that it is due. -/
def takeWork : Action Heap (Option (Nat × List Callback)) := do
  let h ← get
  match h.tables.operations.pop? with
  | some ((reference, work), operations) =>
    set { h with tables := { h.tables with operations } }
    return some (reference, work.calls)
  | none =>
    match h.tables.pending.pop? with
    | some (object, pending) =>
      set { h with tables := { h.tables with pending } }
      return some (object, [.finalize])
    | none => return none

/-- Notes that a call on an object is being made. -/
def startCall (h : Heap) (object : Nat) (call : Callback) : Heap :=
  { h with worker := { h.worker with current := some { object, call, started := h.clock } } }

/-- Notes that no call is being made. -/
def endCall (h : Heap) : Heap := { h with worker := { h.worker with current := none } }

end Heap

/-- A heap together with the state of the program that uses it. -/
structure Machine (γ : Type) where
  heap : Heap
  client : γ

namespace Machine

variable {γ : Type}

/-- Acts on the heap alone. -/
def onHeap {α : Type} (action : Action Heap α) : Action (Machine γ) α :=
  action.on Machine.heap fun m heap => { m with heap }

/-- Changes the heap. -/
def modifyHeap (change : Heap → Heap) : Action (Machine γ) Unit :=
  modify fun m => { m with heap := change m.heap }

/-- How the program makes a call on an object, as the thread of a record. -/
abbrev Invoke (γ : Type) := (record : Nat) → Callback → (object : Nat) → Action (Machine γ) Unit

/-- How the program takes the report that there was no room for so many bytes. -/
abbrev TakeReport (γ : Type) := (record size : Nat) → Action (Machine γ) Unit

/-- How far a report has come on the thread of a record. -/
def reporting (record : Nat) : Action (Machine γ) Reporting := do
  match (← get).heap.mutator? record with
  | some m => return m.reporting
  | none => return .idle

/-- Notes how far a report has come. -/
def setReporting (record : Nat) (reporting : Reporting) : Action (Machine γ) Unit :=
  modifyHeap (·.modifyMutator record fun m => { m with reporting })

/-- Reports that memory has run out. A failure that comes up meanwhile is not reported again: it
gets an error prepared in advance, and so does the report itself. -/
def reportOutOfMemory (take : TakeReport γ) (record size : Nat) : Action (Machine γ) HeapError := do
  match ← reporting record with
  | .idle =>
    setReporting record .underway
    take record size
    let prebuilt := (← reporting record) == .failed
    setReporting record .idle
    return .outOfMemory size prebuilt
  | _ =>
    setReporting record .failed
    return .outOfMemory size true

/-- Allocates an object, or reports that there is no room. -/
def allocate [ObjectModel] (take : TakeReport γ) (record size : Nat) (flags : AllocFlags) :
    Action (Machine γ) (Except HeapError Nat) := do
  match ← onHeap (Heap.request record size flags) with
  | some object => return .ok object
  | none => return .error (← reportOutOfMemory take record size)

/-- Makes one call. Whatever the program gets wrong in it is dropped; only a broken promise of the
heap itself goes further. -/
def call (invoke : Invoke γ) (record object : Nat) (callback : Callback) :
    Action (Machine γ) Unit := fun m =>
  let ended (m : Machine γ) : Machine γ := { m with heap := m.heap.endCall }
  match invoke record callback object { m with heap := m.heap.startCall object callback } with
  | .ok () m => .ok () (ended m)
  | .error (.defect _) m => .ok () (ended m)
  | .error failure m => .error failure (ended m)

/-- Makes calls on an object one after the other. -/
def callEach (invoke : Invoke γ) (record object : Nat) : List Callback → Action (Machine γ) Unit
  | [] => return
  | callback :: rest => do
    call invoke record object callback
    callEach invoke record object rest

/-- Makes the calls that the next piece of pending work consists of. The object is tracked
meanwhile. Answers whether there was any. -/
def workOnce (invoke : Invoke γ) (record : Nat) : Action (Machine γ) Bool := do
  match ← onHeap Heap.takeWork with
  | none => return false
  | some (object, calls) =>
    modifyHeap fun h => { h with threads := h.threads.track record object }
    Action.require ((← get).heap.isValid object)
    callEach invoke record object calls
    modifyHeap fun h => { h with threads := (h.threads.untrack? record object).getD h.threads }
    return true

/-- Makes pending calls until there are none, at most `budget` objects' worth. -/
def drain (invoke : Invoke γ) (record : Nat) : Nat → Action (Machine γ) Unit
  | 0 => throw .stuck
  | budget + 1 => do
    if ← workOnce invoke record then drain invoke record budget

/-- Has the worker thread make all pending calls. If one of them breaks a promise the thread breaks
down, and nothing is drained any more. -/
def drainOnWorker (invoke : Invoke γ) (budget : Nat) : Action (Machine γ) Unit := fun m =>
  match m.heap.worker.record with
  | none => .ok () m
  | some record =>
    match drain invoke record budget m with
    | .ok () m => .ok () m
    | .error .stuck m => .error .stuck m
    | .error _ m =>
      let h := m.heap.detach record
      .ok () { m with heap := { h with worker := { h.worker with record := none } } }

/-- Waits until all pending calls have been made. Without a worker the calling thread makes them
itself. -/
def finishPending (invoke : Invoke γ) (record budget : Nat) : Action (Machine γ) Unit := do
  let worker := (← get).heap.worker
  if worker.running then
    if worker.record == some record then throw (.fatal .workerReentry)
    drainOnWorker invoke budget
  else drain invoke record budget

end Machine

end ManagedHeap
