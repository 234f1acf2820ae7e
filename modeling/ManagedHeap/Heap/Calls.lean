import ManagedHeap.Heap.Callbacks

/-!
The calls that pending work consists of, and a list of those that are made.
-/

namespace ManagedHeap

/-- The state of a program, with the calls that were made so far, the oldest first. -/
structure CallLog (γ : Type) where
  client : γ
  calls : List (Callback × Nat) := []

namespace Heap

/-- The objects whose turn is still to come, those of pending reference operations first. -/
def backlog (h : Heap) : List Nat :=
  h.tables.operations.entries.map Prod.fst ++ h.tables.pending.entries

/-- The calls that are due: the pending reference operations in the order in which they were queued, then
the finalizers that are pending. -/
def dueCalls (h : Heap) : List (Callback × Nat) :=
  (h.tables.operations.entries.flatMap fun (reference, work) =>
      work.calls.map fun callback => (callback, reference))
    ++ h.tables.pending.entries.map fun object => (.finalize, object)

end Heap

namespace Machine

variable {γ : Type}

/-- Makes a call as the program does, and lists it. -/
def listCall (invoke : Invoke γ) : Invoke (CallLog γ) := fun record callback object => do
  modify fun m =>
    { m with client := { m.client with calls := m.client.calls ++ [(callback, object)] } }
  (invoke record callback object).on (fun m => { heap := m.heap, client := m.client.client })
    fun m done => { heap := done.heap, client := { m.client with client := done.client } }

end Machine

end ManagedHeap
