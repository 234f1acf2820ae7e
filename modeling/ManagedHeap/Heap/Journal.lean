import ManagedHeap.Heap.Watching

/-!
Keeping a journal while programs work with a heap: what every operation does, and the calls that are
made. A call takes its time, and while it is being made the other threads go on with operations. They
may also have pending calls made, within the one that is being made.
-/

namespace ManagedHeap

namespace Source

variable [ObjectModel]

/-- Is the object a soft or weak reference that clears itself? -/
def defers (s : Source) (object : Nat) : Bool :=
  (s.kind? object == some .soft || s.kind? object == some .weak) && s.clearsItself object

/-- Is the object a reference that clears itself and has not let this referent go? -/
def holds (s : Source) (reference referent : Nat) : Bool :=
  s.defers reference && s.referent? reference == some referent

end Source

/-- Does the operation write into objects? -/
def Heap.Operation.isWrite : Operation → Bool
  | .write .. => true
  | _ => false

/-- The calls of references that are queued now and were not before. -/
def Heap.queuedSince (h h' : Heap) : List (Nat × ReferenceWork) :=
  h'.tables.operations.entries.drop h.tables.operations.size

/-- The objects whose finalizer is due now and was not before. -/
def Heap.pendedSince (h h' : Heap) : List Nat :=
  h'.tables.pending.entries.drop h.tables.pending.size

/-- What is noted. -/
inductive Entry where
  /-- An operation, with the heap before it, the object that it answered and the heap after it. -/
  | operated (op : Heap.Operation) (h : Heap) (result : Option Nat) (h' : Heap)
  | called (callback : Callback) (object : Nat)
  | returned (callback : Callback) (object : Nat)

/-- The state of a program, with what was noted so far, the oldest first. -/
structure Journal (γ : Type) where
  client : γ
  log : List Entry := []

/-- How a call goes. -/
structure Conduct (γ δ : Type) where
  /-- The state of the program after it. -/
  client : γ
  /-- What is done meanwhile. -/
  meanwhile : List δ := []
  fails : Bool := false

namespace Machine

variable {γ δ : Type}

/-- How each call goes that the thread of a record makes. -/
abbrev Habits (γ δ : Type) :=
  (record : Nat) → Callback → (object : Nat) → Machine γ → Conduct γ δ

/-- How calls go in which operations are carried out, but no pending calls are made. -/
abbrev Course (γ : Type) := Habits γ { op : Heap.Operation // op.isWhole = true }

/-- How calls go in which any steps are taken. -/
abbrev Plan (γ : Type) := Habits γ Step

/-- Adds to what was noted. -/
def enter (m : Machine (Journal γ)) (entry : Entry) : Machine (Journal γ) :=
  { m with client := { m.client with log := m.client.log ++ [entry] } }

/-- Makes a call, and notes when it begins and when it is over. -/
def notedCall (act : List δ → Action (Machine (Journal γ)) Unit) (habits : Habits γ δ) :
    Invoke (Journal γ) := fun record callback object => do
  modify (·.enter (.called callback object))
  let m ← get
  let conduct := habits record callback object { heap := m.heap, client := m.client.client }
  set { m with client := { m.client with client := conduct.client } }
  act conduct.meanwhile
  modify (·.enter (.returned callback object))
  if conduct.fails then throw (.defect .assertion)

variable [ObjectModel]

/-- Carries an operation out and notes what it has done. With one that breaks off everything ends. -/
def carryOut (op : Heap.Operation) : Action (Machine (Journal γ)) Unit := fun m =>
  match Heap.perform op m.heap with
  | .ok result heap => .ok () ({ m with heap }.enter (.operated op m.heap result heap))
  | .error _ heap => .error .stuck { m with heap }

/-- Carries operations out one after the other. -/
def carryAll : List { op : Heap.Operation // op.isWhole = true } → Action (Machine (Journal γ)) Unit
  | [] => return
  | op :: rest => do
    carryOut op
    carryAll rest

/-- Takes a step, and makes calls in a way of its own. -/
def pursue (invoke : Invoke (Journal γ)) : Step → Action (Machine (Journal γ)) Unit
  | .operate op _ => carryOut op
  | .work record => do
    let _ ← workOnce invoke record
  | .drain record budget => drain invoke record budget
  | .drainOnWorker budget => drainOnWorker invoke budget
  | .finishPending record budget => finishPending invoke record budget

/-- Takes steps one after the other. With one that breaks off everything ends. -/
def pursueAll (invoke : Invoke (Journal γ)) : List Step → Action (Machine (Journal γ)) Unit
  | [] => return
  | step :: rest => do
    (pursue invoke step).orStuck
    pursueAll invoke rest

/-- Takes steps one after the other, and no pending calls are made within calls. -/
def followAll (course : Course γ) (steps : List Step) : Action (Machine (Journal γ)) Unit :=
  pursueAll (notedCall carryAll course) steps

/-- Makes calls within calls, up to a depth. With a call that goes deeper everything ends. -/
def nestedCall (plan : Plan γ) : (depth : Nat) → Invoke (Journal γ)
  | 0 => notedCall (fun _ => throw .stuck) plan
  | depth + 1 => notedCall (pursueAll (nestedCall plan depth)) plan

end Machine

end ManagedHeap
