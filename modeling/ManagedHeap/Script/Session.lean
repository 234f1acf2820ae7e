import ManagedHeap.Script.Program

/-!
Running a program on a heap. The calls that the heap makes back are part of the run: a callback takes
steps of its own, which may have the heap call back again.
-/

namespace ManagedHeap

namespace Script

/-- What a program knows. -/
structure Client where
  names : Bindings := ∅
  /-- The records of the attached threads, by name. -/
  mutators : List (String × Nat) := []
  kept : KeptBitmaps := []
  /-- What was seen of callbacks since the last step of the program itself, the latest first. -/
  events : List Event := []
deriving DecidableEq, Repr, Inhabited

/-- A heap with the program that runs on it. -/
abbrev Session := Machine Client

namespace Session

/-- The number of the list of roots that a program works with. -/
def rootList : Nat := 0

/-- The thread that every program starts with. -/
def mainThread : String := "main"

/-- Changes what the program knows. -/
def modifyClient (change : Client → Client) : Action Session Unit :=
  modify fun m => { m with client := change m.client }

/-- Notes what was seen. -/
def log (event : Event) : Action Session Unit :=
  modifyClient fun c => { c with events := event :: c.events }

/-- Acts on the heap. -/
def onHeap {α : Type} (action : Action Heap α) : Action Session α := Machine.onHeap action

/-- Acts on the arenas of the heap. -/
def onSource {α : Type} (action : Action Source α) : Action Session α :=
  onHeap (Heap.onSource action)

/-- Acts on the heap and has nothing to say. -/
def quietly (action : Action Heap Unit) : Action Session Reply := do
  onHeap action
  return .nothing

/-- Changes the heap and has nothing to say. -/
def change (change : Heap → Heap) : Action Session Reply := quietly (modify change)

/-- Answers from the heap without changing it. -/
def ask (answer : Heap → Reply) : Action Session Reply := do
  return answer (← get).heap

/-- Goes on with the address that is meant. -/
def withObject (target : Target) (go : Nat → Action Session Reply) : Action Session Reply := do
  let m ← get
  match m.client.names.resolve m.heap.source target with
  | some address => go address
  | none => return .misuse .noSuchObject

/-- Answers a request that may be refused. -/
def grant {α : Type} (request : Action Heap (Except HeapError α)) (reply : α → Reply) :
    Action Session Reply := do
  match ← onHeap request with
  | .ok value => return reply value
  | .error cause => return .refused cause

/-- A heap with the thread `main` attached to it. -/
def create (config : Config) : Except Defect (Except HeapError Session) := do
  match ← Heap.create config with
  | .error e => return .error e
  | .ok heap =>
    let (number, roots) := RootSet.newList {} "roots"
    let heap := { heap with roots := roots.register number }
    match Heap.attach heap.newThread mainThread heap with
    | .ok record heap => return .ok { heap, client := { mutators := [(mainThread, record)] } }
    | .error _ heap => return .ok { heap, client := {} }

/-! ### Steps of any thread -/

/-- Acts on the kept bitmaps and the arenas. -/
def onBitmaps (act : KeptBitmaps → Source → Except Defect (Reply × KeptBitmaps × Source)) :
    Action Session Reply := do
  let m ← get
  let (reply, kept, source) ← act m.client.kept m.heap.source
  set ({ heap := { m.heap with source }, client := { m.client with kept } } : Session)
  return reply

/-- Changes the roots. -/
def changeRoots (change : RootSet → RootSet) : Action Session Reply :=
  Session.change fun h => { h with roots := change h.roots }

/-- Removes a root. Answers whether it was one. -/
def unroot (object : Nat) : Action Session Reply := do
  match (← get).heap.roots.remove? rootList object with
  | some roots =>
    let _ ← changeRoots fun _ => roots
    return .truth true
  | none => return .truth false

/-- Registers one more list of roots, which holds an object. -/
def addRoots (object : Nat) (roots : RootSet) : RootSet :=
  let (number, roots) := roots.newList "more"
  (roots.push number object).register number

/-- Takes a step that needs no attached thread. The thread may have a record all the same. -/
def runHeap (invoke : Machine.Invoke Client) (budget : Nat) (record : Option Nat) :
    HeapCommand → Action Session Reply
  | .root o => withObject o fun object => changeRoots (·.push rootList object)
  | .unroot o => withObject o unroot
  | .roots => ask fun h => .places (h.roots.entries rootList)
  | .rootsTruncate length => changeRoots (·.truncate rootList length)
  | .rootsClear => changeRoots (·.clear rootList)
  | .addRoots o => withObject o fun object => changeRoots (addRoots object)
  | .pending => ask fun h =>
      .counts [h.tables.pending.size, h.tables.operations.size]
  | .valid o => withObject o fun object => ask fun h => .truth (h.isValid object)
  | .size o => withObject o fun object => do
      return .count (← (← get).heap.source.chunkSize object)
  | .inZygote o => withObject o fun object => ask fun h => .truth (h.source.inZygote object)
  | .generation o => withObject o fun object => ask fun h => .maybe (h.source.generation? object)
  | .figure which => ask fun h => .count (h.source.figure which)
  | .figures which => ask fun h => .counts (h.source.figures which)
  | .ideal => ask fun h => .count h.source.ideal
  | .stats => ask fun h => .text h.report.text
  | .walk => ask fun h => .blocks h.source.blocks
  | .snapshotBitmaps name => onBitmaps (·.snapshot name)
  | .swapBitmaps name => onBitmaps (·.swap name false none)
  | .utilization => ask fun h => .count (h.source.utilizationRatio.floorScaled 10)
  | .setUtilization ratio => do
      let _ ← change fun h => { h with source := h.source.setUtilization ratio }
      ask fun h => .count (h.source.utilizationRatio.floorScaled 10)
  | .minimum => ask fun h => .count h.source.minimum
  | .setMinimum size => return .count (← onHeap (Heap.setMinimum size))
  | .trim => return .trimmed (← onSource Source.trim)
  | .scheduleTrim | .signal => return .nothing
  | .idleTrim => do
      if (← get).heap.worker.running then
        let _ ← onSource Source.trim
      return .nothing
  | .debugger active => change (·.setDebugging active)
  | .stall time => change fun h => { h with clock := h.clock + time }
  | .waitIdle => do
      let worker := (← get).heap.worker
      if worker.running && (record.isNone || worker.record != record) then
        Machine.drainOnWorker invoke budget
      return .nothing
  | .beforeFork => grant (Heap.onSource Source.beforeFork) Reply.truth
  | .afterZygote => grant Heap.afterZygote fun _ => .done
  | .setProfiling value => change fun h => { h with profiling := value }
  | .heapProfile => ask fun h => .counts h.profile.toList
  | .shutdown => change (·.shutdown record)

/-! ### Steps of an attached thread -/

/-- Tells where an object is, what it may use, and whether the words asked for are zero. -/
def allocated (address n : Nat) : Action Session Reply := do
  let s := (← get).heap.source
  return .allocated address (← s.chunkSize address) (some (s.isZeroed address (n / 8)))

/-- Allocates and binds the name. -/
def alloc (take : Machine.TakeReport Client) (record n : Nat) (flags : AllocFlags)
    (name : Option String) : Action Session Reply := do
  match ← Machine.allocate take record n flags with
  | .error cause => return .refused cause
  | .ok address =>
    modifyClient fun c => { c with names := c.names.putOption name address }
    allocated address n

/-- Allocates an object of a shape and writes its header. -/
def new (take : Machine.TakeReport Client) (record : Nat) (shape : Shape) (flags : AllocFlags)
    (name : Option String) : Action Session Reply := do
  let reply ← alloc take record (← shape.bytes) flags name
  if let .allocated address _ _ := reply then
    let _ ← change fun h => { h with source := h.source.setHeader address shape.tag shape.slots }
  return reply

/-- Allocates until there is no room or enough was made. Answers how many. -/
def allocMany (take : Machine.TakeReport Client) (record n : Nat) (flags : AllocFlags)
    (stem : Option String) (root : Bool) (made : Nat) : Nat → Action Session Reply
  | 0 => return .many made none
  | more + 1 => do
    match ← Machine.allocate take record n flags with
    | .error cause => return .many made (some cause)
    | .ok address =>
      modifyClient fun c => { c with names := c.names.putNth stem made address }
      if root then
        let _ ← changeRoots (·.push rootList address)
      allocMany take record n flags stem root (made + 1) more

/-- Drops what a thread tracks last of an object. Answers whether there was anything. -/
def release (record object : Nat) : Action Session Reply := do
  match (← get).heap.threads.untrack? record object with
  | some threads =>
    let _ ← change fun h => { h with threads }
    return .truth true
  | none => return .truth false

/-- The states on a way through nested ones and back, the first included. -/
def wayAndBack (start : ThreadState) (path : List ThreadState) : List ThreadState :=
  start :: path ++ (start :: path).dropLast.reverse

/-- Attaches the thread of a record a second time. -/
def attachAgain (record : Nat) (name : String) : Action Session Reply := do
  let h := (← get).heap
  let thread := ((h.threads.record? record).map ThreadRecord.thread).getD h.newThread
  let _ ← onHeap (Heap.attach thread name)
  return .nothing

/-- Takes a step of the thread of a record. -/
def runMutator (invoke : Machine.Invoke Client) (take : Machine.TakeReport Client) (budget : Nat)
    (record : Nat) : MutatorCommand → Action Session Reply
  | .alloc n flags name => alloc take record n flags name
  | .new shape flags name => new take record shape flags name
  | .allocMany n count flags stem root => allocMany take record n flags stem root 0 count
  | .collect soft => quietly (Heap.collect soft)
  | .finalize => do
      Machine.finishPending invoke record budget
      return .nothing
  | .track o => withObject o fun object => change fun h =>
      { h with threads := h.threads.track record object }
  | .release o => withObject o (release record)
  | .tracked => ask fun h => .count (h.threads.trackedBy record).size
  | .clearFlags o flags => withObject o fun object => quietly (Heap.clearFlags record object flags)
  | .externalAlloc n => grant (Heap.requestExternal record n) fun _ => .done
  | .externalFree n => do
      let _ ← onSource (Source.externalFree n)
      return .nothing
  | .valid o => withObject o fun object => ask fun h => .truth (h.isValid object)
  | .profile => ask fun h =>
      .counts (((h.mutator? record).map Mutator.profile).getD {}).toList
  | .attachAgain name => attachAgain record name
  | .name => ask fun h => .text (h.threads.nameOf record)
  | .safepoint => ask fun h => .truth h.threads.requested
  | .states path => ask fun h => .states (wayAndBack (h.threads.stateOf record) path)

/-! ### Threads -/

/-- Attaches a new thread under a name. -/
def attach (name : String) : Action Session Reply := do
  if ((← get).client.mutators.lookup name).isSome then return .misuse .alreadyAttached
  let record ← onHeap (Heap.attach (← get).heap.newThread name)
  modifyClient fun c => { c with mutators := c.mutators ++ [(name, record)] }
  return .nothing

/-- Detaches the thread with a name. -/
def detach (name : String) : Action Session Reply := do
  match (← get).client.mutators.lookup name with
  | none => return .misuse .noSuchMutator
  | some record =>
    modifyClient fun c => { c with mutators := c.mutators.filter fun (other, _) => other != name }
    change (·.detach record)

/-- Takes a step that looks into an object or changes it. -/
def runObject (command : ObjectCommand) : Action Session Reply := do
  let m ← get
  let lives : Source → Nat → Bool := fun s object => s.isPublished object
  let (reply, source) ← command.run m.client.names lives m.heap.source
  set { m with heap := { m.heap with source } }
  return reply

end Session

end Script

end ManagedHeap
