import ManagedHeap.Heap
import ManagedHeap.Marking.Sweep

/-!
A full collection, with every thread but the collecting one at rest.
-/

namespace ManagedHeap

namespace Cycle

variable [ObjectModel]

/-- Marks what a collection keeps, given the root set and how soft references are treated. -/
def trace (roots : List Nat) (policy : SoftPolicy) : Action Cycle Unit := do
  markAll roots
  modifyMarking fun m => { m with deferSoft := policy != .preserve }
  scan
  let found ← latch
  handleSoft policy found.soft
  handleReferences .weak policy found.weak
  let _ ← scheduleFinalizations
  handleReferences .phantom policy found.phantom

/-- The phases of a collection. Answers the objects and the bytes freed. -/
def run (roots : List Nat) (policy : SoftPolicy) : Action Cycle (Nat × Nat) := do
  trace roots policy
  let freed ← sweep
  finish
  return freed

end Cycle

namespace Heap

variable [ObjectModel]

/-- The objects that a collection starts from: the registered roots, what threads track, what must
not be collected, the pending work, and the object of the callback being made. -/
def rootSet (h : Heap) : List Nat :=
  h.roots.all ++ h.threads.allTracked ++ h.nonCollectable.entries ++ h.tables.pending.entries
    ++ h.tables.operations.entries.map Prod.fst
    ++ (h.worker.current.map InFlight.object).toList

/-- Is the reference still scheduled? It is while its calls are queued or being made, and a phantom
reference until it is cleared. -/
def staysScheduled (h : Heap) (reference : Nat) : Bool :=
  (h.source.referent? reference).isSome &&
    ((h.tables.operations.entries.map Prod.fst).contains reference
      || (h.worker.current.map InFlight.object) == some reference
      || h.source.kind? reference == some .phantom)

/-- Makes sure that the callback being made, if any, has not been running for too long. Time has
always passed since it began, so a timeout is exceeded as soon as it is reached. -/
def checkWatchdog : Action Heap Unit := do
  let h ← get
  match h.worker.current with
  | none => return
  | some current =>
    let elapsed := h.clock - current.started
    if h.config.watchdog ≤ elapsed then
      if h.debugging then
        set { h with worker := { h.worker with
          current := some { current with started := h.clock } } }
      else throw (.fatal (.workerWedged (elapsed * 1000) current.call))

/-- The collection of the heap as it stands. -/
def beginCycle (h : Heap) : Cycle :=
  { source := h.source, tables := h.tables, marking := Marking.start h.source }

/-- The heap with what a collection, over or broken off, has done to it. One attempt at soft
references is enough: later collections preserve them again. -/
def endCycle (h : Heap) (c : Cycle) : Heap :=
  { h with
    source := c.source
    tables := c.tables
    softPolicy := if c.softDecided then .preserve else h.softPolicy }

/-- Forgets the references that are scheduled no more. -/
def retainScheduled (h : Heap) : Heap :=
  { h with tables := { h.tables with scheduled := h.tables.scheduled.filter h.staysScheduled } }

/-- Goes through the phases of a collection. Answers the objects and the bytes freed. -/
def runCycle (collectSoft : Bool) : Action Heap (Nat × Nat) := do
  let h ← get
  let policy := if collectSoft then .clearAll else h.softPolicy
  (Cycle.run h.rootSet policy).on beginCycle endCycle

/-- Counts a collection that is over. -/
def countCycle (h : Heap) (objects bytes : Nat) : Heap :=
  { h with
    generation := (h.generation + 1) % Chunk.fieldLimit
    collecting := false
    cycles := h.cycles + 1
    objectsFreed := h.objectsFreed + objects
    bytesFreed := h.bytesFreed + bytes }

/-- Runs a full collection, unless one is under way. -/
def collect (collectSoft : Bool) : Action Heap Unit := do
  if (← get).collecting then return
  modify fun h => { h with collecting := true }
  checkWatchdog
  modify retainScheduled
  let (objects, bytes) ← runCycle collectSoft
  onSource Source.growForUtilization
  modify sizeChanged
  modify (·.countCycle objects bytes)

/-- Runs a collection on behalf of a request, and counts it. -/
def collectFor (record : Nat) (collectSoft : Bool) : Action Heap Unit := do
  if (← get).profiling then
    modify fun h =>
      { h with profile := h.profile.countCollection }.modifyMutator record fun m =>
        { m with profile := m.profile.countCollection }
  collect collectSoft

end Heap

end ManagedHeap
