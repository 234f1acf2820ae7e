import ManagedHeap.Source.Sizing

/-!
Native memory whose lifetime is tied to objects of the heap. It counts against the active arena and
has a limit of its own.
-/

namespace ManagedHeap

namespace Source

/-- Could `n` more external bytes fit beside what the active arena may grow to? -/
def externalPossible (s : Source) (n : Nat) : Except Defect Bool := do
  let counted ← Word.add s.active.allowed s.externalBytes
  return decide ((← Word.add counted n) ≤ s.active.absoluteMax)

/-- Counts `n` external bytes if they fit under the limit. Otherwise, and only where `grow` is set,
counts them all the same and raises the limit to suit. -/
def externalAlloc (n : Nat) (grow : Bool) : Action Source Bool := do
  let s ← get
  Action.require (s.externalBytes ≤ s.externalLimit)
  let bytes ← Word.add s.externalBytes n
  if bytes ≤ s.externalLimit then
    set { s with externalBytes := bytes }
    return true
  if !grow then return false
  set { s with externalBytes := bytes }
  let limit ← utilizationTarget bytes Size.externalUtilization
  modify fun s => { s with externalLimit := limit }
  return true

/-- Uncounts `n` external bytes, or all if they are fewer, and lowers the limit towards what is left;
what was freed can be had again at once. Answers the bytes uncounted. -/
def externalFree (n : Nat) : Action Source Nat := do
  let s ← get
  let n := min n s.externalBytes
  let bytes := s.externalBytes - n
  set { s with externalBytes := bytes }
  let limit := max (← utilizationTarget bytes Size.externalUtilization) s.externalBytes
  if limit < s.externalLimit then modify fun s => { s with externalLimit := limit }
  return n

end Source

end ManagedHeap
