import ManagedHeap.Binary32
import ManagedHeap.Size

/-!
The settings of a heap and the options of an allocation.
-/

namespace ManagedHeap

/-- The settings of a heap. Times are in milliseconds. -/
structure Config where
  /-- What the first arena may grow to at first. -/
  startSize : Nat := Size.defaultStart
  /-- The ceiling on the heap, external memory included. -/
  maximumSize : Nat := Size.defaultMaximum
  /-- The share of live bytes aimed for. -/
  utilization : Binary32 := .ofScaled 10 Size.defaultUtilization
  /-- Start before a fork, without a worker. -/
  zygote : Bool := false
  /-- How long a callback may run before the worker counts as wedged. -/
  watchdog : Nat := 10000
  /-- How long after a collection the heap is trimmed. -/
  trimDelay : Nat := 5000
  /-- Run callbacks on a worker thread. -/
  startWorker : Bool := true
  verbose : Bool := false
  /-- Count allocations, per thread and in all. -/
  profileAllocations : Bool := false
deriving DecidableEq, Repr, Inhabited

/-- The options of an allocation. -/
structure AllocFlags where
  /-- The object is finalized before it is freed. -/
  finalizable : Bool := false
  /-- The object is a root until the flag is cleared, and it is not tracked. -/
  noCollect : Bool := false
  /-- The object is not added to what the thread keeps alive. -/
  untracked : Bool := false
deriving DecidableEq, Repr, Inhabited

namespace AllocFlags

/-- The flags in the three lowest bits of a number. -/
def ofBits (bits : Nat) : AllocFlags :=
  { finalizable := bits.testBit 0, noCollect := bits.testBit 1, untracked := bits.testBit 2 }

/-- The flags as a number. -/
def bits (f : AllocFlags) : Nat :=
  (if f.finalizable then 1 else 0) + (if f.noCollect then 2 else 0)
    + (if f.untracked then 4 else 0)

/-- Has `f` every flag of `g`? -/
def contains (f g : AllocFlags) : Bool :=
  (f.finalizable || !g.finalizable) && (f.noCollect || !g.noCollect)
    && (f.untracked || !g.untracked)

/-- Have the two a flag in common? -/
def intersects (f g : AllocFlags) : Bool :=
  (f.finalizable && g.finalizable) || (f.noCollect && g.noCollect)
    || (f.untracked && g.untracked)

/-- The flags that one of the two has. -/
def union (f g : AllocFlags) : AllocFlags :=
  { finalizable := f.finalizable || g.finalizable
    noCollect := f.noCollect || g.noCollect
    untracked := f.untracked || g.untracked }

end AllocFlags

end ManagedHeap
