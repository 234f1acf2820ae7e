import ManagedHeap.Error

/-!
Counts of allocations. Bytes that would leave the range of a word are a defect; the event itself is
counted by then.
-/

namespace ManagedHeap

/-- Counts of events and of the bytes they were about. -/
structure Profile where
  allocCount : Nat := 0
  allocSize : Nat := 0
  failedAllocCount : Nat := 0
  failedAllocSize : Nat := 0
  gcCount : Nat := 0
  externalCount : Nat := 0
  externalSize : Nat := 0
  failedExternalCount : Nat := 0
  failedExternalSize : Nat := 0
deriving DecidableEq, Repr, Inhabited

namespace Profile

/-- Counts an allocation of an object. -/
def countAlloc (size : Nat) (succeeded : Bool) : Action Profile Unit := do
  if succeeded then
    modify fun p => { p with allocCount := p.allocCount + 1 }
    let total ← Word.add (← get).allocSize size
    modify fun p => { p with allocSize := total }
  else
    modify fun p => { p with failedAllocCount := p.failedAllocCount + 1 }
    let total ← Word.add (← get).failedAllocSize size
    modify fun p => { p with failedAllocSize := total }

/-- Counts an allocation of external memory. -/
def countExternal (size : Nat) (succeeded : Bool) : Action Profile Unit := do
  if succeeded then
    modify fun p => { p with externalCount := p.externalCount + 1 }
    let total ← Word.add (← get).externalSize size
    modify fun p => { p with externalSize := total }
  else
    modify fun p => { p with failedExternalCount := p.failedExternalCount + 1 }
    let total ← Word.add (← get).failedExternalSize size
    modify fun p => { p with failedExternalSize := total }

/-- Counts a collection. -/
def countCollection (p : Profile) : Profile := { p with gcCount := p.gcCount + 1 }

/-- The sum of two profiles, count by count. -/
def add (p q : Profile) : Profile where
  allocCount := p.allocCount + q.allocCount
  allocSize := p.allocSize + q.allocSize
  failedAllocCount := p.failedAllocCount + q.failedAllocCount
  failedAllocSize := p.failedAllocSize + q.failedAllocSize
  gcCount := p.gcCount + q.gcCount
  externalCount := p.externalCount + q.externalCount
  externalSize := p.externalSize + q.externalSize
  failedExternalCount := p.failedExternalCount + q.failedExternalCount
  failedExternalSize := p.failedExternalSize + q.failedExternalSize

/-- The counts in a fixed order. -/
def toList (p : Profile) : List Nat :=
  [p.allocCount, p.allocSize, p.failedAllocCount, p.failedAllocSize, p.gcCount,
    p.externalCount, p.externalSize, p.failedExternalCount, p.failedExternalSize]

end Profile

end ManagedHeap
