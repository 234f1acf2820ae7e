import ManagedHeap.Heap.Operation

/-!
Programs that allocate while they are told that memory has run out. It is noted what is begun, when the
program is told and what allocations answer.
-/

namespace ManagedHeap

/-- What is noted. -/
inductive Notice where
  /-- An operation begins, on a heap as it is then. -/
  | began (op : Heap.Operation) (h : Heap)
  /-- The program is told that there was no room for so many bytes. -/
  | told (record size : Nat)
  /-- An allocation is over. -/
  | answered (result : Except HeapError Nat)

/-- Is it an allocation that fails? -/
def Notice.isRefusal : Notice → Bool
  | .answered result => !result.toBool
  | .began .. | .told .. => false

/-- A series of allocations, the next one made in view of how the last one went. -/
inductive Series where
  | done
  | allocate (size : Nat) (flags : AllocFlags) (next : Except HeapError Nat → Series)

/-- What a mutator does in its turn. -/
inductive Turn where
  | operate (op : Heap.Operation)
  /-- Allocates, with a report where there is no room. -/
  | allocate (record size : Nat) (flags : AllocFlags)

namespace Machine

/-- Adds to what was noted. -/
def notice (n : Notice) : Action (Machine (List Notice)) Unit :=
  modify fun m => { m with client := m.client ++ [n] }

variable [ObjectModel]

/-- Allocates, and notes when that begins and what it answers. -/
def noteAllocate (take : TakeReport (List Notice)) (record size : Nat) (flags : AllocFlags) :
    Action (Machine (List Notice)) (Except HeapError Nat) := do
  notice (.began (.request record size flags) (← get).heap)
  let result ← allocate take record size flags
  notice (.answered result)
  return result

/-- Makes the allocations of a series. -/
def follow (take : TakeReport (List Notice)) (record : Nat) :
    Series → Action (Machine (List Notice)) Unit
  | .done => return
  | .allocate size flags next => do
    let result ← noteAllocate take record size flags
    follow take record (next result)

/-- Told that memory has run out the program makes allocations, in view of all that was noted. Reports
that come up within reports go down to a depth. -/
def respond (habit : List Notice → Series) : (depth : Nat) → TakeReport (List Notice)
  | 0 => fun _ _ => throw .stuck
  | depth + 1 => fun record size => do
    notice (.told record size)
    follow (respond habit depth) record (habit (← get).client)

/-- Takes a turn. -/
def takeTurn (habit : List Notice → Series) (depth : Nat) :
    Turn → Action (Machine (List Notice)) Unit
  | .operate op => do
    notice (.began op (← get).heap)
    let _ ← onHeap (Heap.perform op)
  | .allocate record size flags => do
    let _ ← noteAllocate (respond habit depth) record size flags

end Machine

end ManagedHeap
