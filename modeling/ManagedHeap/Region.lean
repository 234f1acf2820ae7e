import ManagedHeap.Error

/-!
A reserved stretch of addresses. Pages of it can be given back at any time and read as zero
afterwards.
-/

namespace ManagedHeap

/-- Whole pages of addresses that nothing else uses. -/
structure Region where
  base : Nat
  size : Nat
deriving DecidableEq, Repr, Inhabited

namespace Region

/-- The distance between the bases of two arenas: more than any region is long. -/
def stride : Nat := Size.unreservable

/-- Where the region of the arena with a number starts. No two arenas overlap, and no region
reaches down to the small addresses. -/
def arenaBase (number : Nat) : Nat := (number + 1) * stride

/-- Reserves `size` bytes at a base, rounded up to whole pages and at least one. -/
def reserve (base size : Nat) : Except Defect (Except HeapError Region) := do
  let size ← Size.pagesUp (max size Size.page)
  if Size.unreservable ≤ size then return .error (.reservationFailed size)
  return .ok { base, size }

/-- The first address after the region. -/
def limit (r : Region) : Nat := r.base + r.size

/-- Does the address lie in the region? -/
def contains (r : Region) (address : Nat) : Bool := r.base ≤ address && address < r.limit

/-- The whole pages inside `length` bytes from `start` on, as their first address and their total
length: what can be given back without touching the rest. Nothing if no page fits. -/
def wholePages (r : Region) (start length : Nat) : Except Defect (Option (Nat × Nat)) := do
  let first ← Size.alignUp start Size.page
  let last ← Size.alignDown (← Word.add start length) Size.page
  if last ≤ first then return none
  Word.require (r.contains first && last ≤ r.limit)
  return some (first, last - first)

end Region

end ManagedHeap
