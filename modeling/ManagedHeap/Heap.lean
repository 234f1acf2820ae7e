import ManagedHeap.Config
import ManagedHeap.Marking.References
import ManagedHeap.Profile
import ManagedHeap.Report
import ManagedHeap.Roots
import ManagedHeap.Safepoint
import ManagedHeap.Source.Arenas
import ManagedHeap.Source.External

/-!
A managed heap: the arenas, the work tables, the threads that use it and the worker that makes the
calls which collections leave behind.
-/

namespace ManagedHeap

/-- How far the report of an out-of-memory condition has come on a thread. -/
inductive Reporting where
  | idle
  /-- The program is being told. -/
  | underway
  /-- The program is being told and has run out of memory over it. -/
  | failed
deriving DecidableEq, Repr, Inhabited

/-- A thread attached to the heap, known by the number of its record. -/
structure Mutator where
  record : Nat
  reporting : Reporting := .idle
  profile : Profile := {}
deriving DecidableEq, Repr, Inhabited

/-- A callback that is being made. -/
structure InFlight where
  object : Nat
  call : Callback
  /-- When the watchdog started to count. -/
  started : Nat
deriving DecidableEq, Repr, Inhabited

/-- The worker and the call that it, or a thread in its stead, is making. -/
structure Worker where
  /-- Is a worker thread in charge of the pending work? -/
  running : Bool := false
  /-- The record of the worker thread, for as long as it has not broken down. -/
  record : Option Nat := none
  current : Option InFlight := none
deriving DecidableEq, Repr, Inhabited

/-- The state of a heap. -/
structure Heap where
  config : Config
  source : Source
  tables : WorkTables := {}
  /-- Objects that are roots until their flag is cleared. -/
  nonCollectable : RefTable := {}
  /-- How the next collection treats soft references. -/
  softPolicy : SoftPolicy := .preserve
  /-- The ideal size at which that changed last. -/
  softThreshold : Nat
  /-- Is a collection under way, or did one break off? -/
  collecting : Bool := false
  /-- The number of collections, in 32 bits. -/
  generation : Nat := 0
  cycles : Nat := 0
  objectsFreed : Nat := 0
  bytesFreed : Nat := 0
  profiling : Bool := false
  profile : Profile := {}
  threads : Safepoint := {}
  /-- The threads ever attached. One that was detached keeps its last counts. -/
  mutators : List Mutator := []
  roots : RootSet := {}
  worker : Worker := {}
  /-- Is a callback that runs too long tolerated? -/
  debugging : Bool := false
  /-- The time in milliseconds. -/
  clock : Nat := 0
deriving DecidableEq, Repr, Inhabited

namespace Heap

/-- The name that the worker thread is attached under. -/
def workerName : String := "HeapWorker"

/-- Acts on the arenas. -/
def onSource {α : Type} (action : Action Source α) : Action Heap α :=
  action.on Heap.source fun h source => { h with source }

/-- Acts on the counts of the heap. -/
def onProfile {α : Type} (action : Action Profile α) : Action Heap α :=
  action.on Heap.profile fun h profile => { h with profile }

/-- The mutator of a record. -/
def mutator? (h : Heap) (record : Nat) : Option Mutator :=
  h.mutators.find? (·.record == record)

/-- Changes the mutator of a record. -/
def modifyMutator (h : Heap) (record : Nat) (change : Mutator → Mutator) : Heap :=
  { h with mutators := h.mutators.map fun m => if m.record = record then change m else m }

/-- Acts on the counts of a mutator. -/
def onMutatorProfile (record : Nat) (action : Action Profile Unit) : Action Heap Unit :=
  action.on (fun h => ((h.mutator? record).map Mutator.profile).getD {})
    fun h profile => h.modifyMutator record fun m => { m with profile }

/-- Attaches a thread. Answers the number of its record. -/
def attach (thread : Nat) (name : String) : Action Heap Nat := do
  let h ← get
  match h.threads.register thread name with
  | .ok (record, threads) =>
    let mutator : Mutator := { record }
    set { h with threads, mutators := h.mutators ++ [mutator] }
    return record
  | .error .alreadyAttached => throw (.fatal (.threadAlreadyAttached name))
  | .error .wouldBlock => throw .stuck

/-- A thread that no record was made for so far. -/
def newThread (h : Heap) : Nat := h.threads.records.length

/-- Detaches a thread. -/
def detach (h : Heap) (record : Nat) : Heap :=
  { h with threads := h.threads.unregister record }

/-- Starts the worker thread, unless there is one. -/
def startWorker : Action Heap Unit := do
  let h ← get
  if h.worker.running then return
  let record ← attach h.newThread workerName
  modify fun h => { h with worker := { h.worker with running := true, record := some record } }

/-- Ends the worker thread. A callback on that thread asks in vain. -/
def shutdown (h : Heap) (record : Option Nat) : Heap :=
  if h.worker.running then
    if record.isSome && record == h.worker.record then h
    else
      let h :=
        match h.worker.record with
        | some own => h.detach own
        | none => h
      { h with worker := { h.worker with running := false, record := none } }
  else h

/-- A heap with no thread attached but its worker's. -/
def create (config : Config) : Except Defect (Except HeapError Heap) := do
  match ← Source.startup config.startSize config.maximumSize config.zygote with
  | .error e => return .error e
  | .ok source =>
    let h : Heap :=
      { config
        source := source.setUtilization config.utilization
        softThreshold := config.startSize
        profiling := config.profileAllocations }
    if config.zygote || !config.startWorker then return .ok h
    match startWorker h with
    | .ok _ h => return .ok h
    | .error _ h => return .ok h

/-- Is the address a live object? -/
def isValid (h : Heap) (address : Nat) : Bool := h.source.isPublished address

/-- The call that is being made, and the object that it is on. -/
def inFlight (h : Heap) : Option (Callback × Nat) :=
  h.worker.current.map fun current => (current.call, current.object)

/-- Decides anew how soft references are treated, after the ideal size moved. Growth past the
threshold has some of them cleared by the next collection; a shrinkage well below it has none. -/
def sizeChanged (h : Heap) : Heap :=
  let current := h.source.ideal
  if current + 4 * Size.softSlack ≤ h.softThreshold then
    { h with softThreshold := current, softPolicy := .preserve }
  else if h.softThreshold + Size.softSlack ≤ current then
    { h with softThreshold := current, softPolicy := .alternate }
  else h

/-- Sets the minimum size. Answers the one before. -/
def setMinimum (size : Nat) : Action Heap Nat := do
  let old ← onSource (Source.setMinimum size)
  modify sizeChanged
  return old

/-- Leaves the state before the fork: allocation moves on to a new arena, and the worker starts. -/
def afterZygote : Action Heap (Except HeapError Unit) := do
  match ← onSource Source.afterZygote with
  | .error e => return .error e
  | .ok _ =>
    if (← get).config.startWorker then startWorker
    return .ok ()

/-- Tolerates callbacks that run too long, or no longer does. The watchdog starts anew. -/
def setDebugging (h : Heap) (tolerate : Bool) : Heap :=
  { h with
    debugging := tolerate
    worker := { h.worker with
      current := h.worker.current.map fun c => { c with started := h.clock } } }

/-- Lets an object be collected again. -/
def dropNonCollectable (object : Nat) : Action Heap Unit := do
  let h ← get
  match h.nonCollectable.remove? object with
  | some nonCollectable => set { h with nonCollectable }
  | none =>
    if h.source.contains object then
      throw (.fatal (.missingNonCollectableEntry object))

/-- Drops options of an allocation that no longer apply. -/
def clearFlags (record object : Nat) (flags : AllocFlags) : Action Heap Unit := do
  if flags.noCollect then dropNonCollectable object
  if flags.untracked then
    modify fun h =>
      { h with threads := (h.threads.untrack? record object).getD h.threads }

/-- The figures of the heap. -/
def report (h : Heap) : Report :=
  let s := h.source
  { arenas := s.arenas.map fun a =>
      { name := a.space.name, footprint := a.footprint, allowed := a.allowed, bytes := a.bytes
        objects := a.objects, bitmapSize := (s.bitmap a.live).size }
    ideal := s.ideal
    softLimit := s.softLimit
    minimum := s.minimum
    maximum := s.absoluteMax
    utilization := s.utilizationRatio
    externalBytes := s.externalBytes
    externalLimit := s.externalLimit
    cycles := h.cycles
    objectsFreed := h.objectsFreed
    bytesFreed := h.bytesFreed }

end Heap

end ManagedHeap
