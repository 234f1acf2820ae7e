import ManagedHeap.Heap.Operation

/-!
Watching one address while a program works with a heap: when an object comes to lie there, when its
finalizer is called and when it is swept.
-/

namespace ManagedHeap

/-- What can be seen at an address. -/
inductive Event where
  /-- An object was allocated there. -/
  | allocated (finalizable : Bool)
  /-- The finalizer of the object there is called. -/
  | finalized
  /-- The object there was swept. -/
  | swept
deriving DecidableEq, Repr

/-- The state of a program, with what was seen so far, the oldest first. -/
structure Watch (γ : Type) where
  client : γ
  seen : List Event := []

namespace Heap

/-- Is the operation a request for an object with a finalizer? -/
def Operation.isFinalizable : Operation → Bool
  | .request _ _ flags => flags.finalizable
  | _ => false

/-- Does the operation stand on its own? The others are the parts of making pending calls. -/
def Operation.isWhole : Operation → Bool
  | .takeWork | .startCall .. | .endCall => false
  | _ => true

/-- What an operation shows at an address. An object that was there is swept also where a new one has
taken its place. -/
def events (h : Heap) (x : Nat) (op : Operation) (result : Option Nat) (h' : Heap) : List Event :=
  (if h.isValid x && (!h'.isValid x || result == some x) then [.swept] else [])
    ++ (if result = some x then [.allocated op.isFinalizable] else [])

end Heap

/-- What programs do: operations one at a time, and having pending calls made. -/
inductive Step where
  | operate (op : Heap.Operation) (whole : op.isWhole = true)
  /-- Makes the calls of one piece of pending work. -/
  | work (record : Nat)
  | drain (record budget : Nat)
  | drainOnWorker (budget : Nat)
  | finishPending (record budget : Nat)

namespace Machine

variable {γ : Type}

/-- Adds to what was seen. -/
def note (m : Machine (Watch γ)) (events : List Event) : Machine (Watch γ) :=
  { m with client := { m.client with seen := m.client.seen ++ events } }

/-- Makes a call as the program does, and notes it if it is of the finalizer of the object at an
address. -/
def watchCall (invoke : Invoke γ) (x : Nat) : Invoke (Watch γ) := fun record callback object => do
  if object = x ∧ callback = .finalize then modify (·.note [.finalized])
  (invoke record callback object).on (fun m => { heap := m.heap, client := m.client.client })
    fun m done => { heap := done.heap, client := { m.client with client := done.client } }

variable [ObjectModel]

/-- Carries an operation out and notes what it shows at an address, also where it breaks off. -/
def operate (x : Nat) (op : Heap.Operation) : Action (Machine (Watch γ)) Unit := fun m =>
  match Heap.perform op m.heap with
  | .ok result heap => .ok () ({ m with heap }.note (m.heap.events x op result heap))
  | .error cause heap => .error cause ({ m with heap }.note (m.heap.events x op none heap))

/-- Takes a step. -/
def take (invoke : Invoke γ) (x : Nat) : Step → Action (Machine (Watch γ)) Unit
  | .operate op _ => operate x op
  | .work record => do
    let _ ← workOnce (watchCall invoke x) record
  | .drain record budget => drain (watchCall invoke x) record budget
  | .drainOnWorker budget => drainOnWorker (watchCall invoke x) budget
  | .finishPending record budget => finishPending (watchCall invoke x) record budget

/-- Takes steps one after the other, until one breaks off. -/
def takeAll (invoke : Invoke γ) (x : Nat) : List Step → Action (Machine (Watch γ)) Unit
  | [] => return
  | step :: rest => do
    take invoke x step
    takeAll invoke x rest

end Machine

end ManagedHeap
