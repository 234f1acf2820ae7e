import ManagedHeap.Script.KeptBitmaps

/-!
A workbench holds the arenas with roots and work tables of its own, so that a script can take what
an allocation or a collection consists of one step at a time. This module has the bench itself and
the steps that store, free and size.
-/

namespace ManagedHeap

namespace Script

/-- The arenas on a bench and what lies around them. -/
structure Workbench where
  source : Source
  names : Bindings := ∅
  kept : KeptBitmaps := []
  roots : RootSet
  nonCollectable : RefTable := {}
  tables : WorkTables := {}
  /-- The collection in progress, if one was begun. -/
  marking : Option Marking := none
  /-- The references that were latched last and not decided on. They outlast the collection. -/
  found : FoundReferences := {}
deriving DecidableEq, Repr, Inhabited

namespace Workbench

/-- The number of the one list of roots that a bench has. -/
def rootList : Nat := 0

/-- A bench with new arenas. -/
def create (start maximum : Nat) (zygote : Bool) :
    Except Defect (Except HeapError Workbench) := do
  match ← Source.startup start maximum zygote with
  | .error e => return .error e
  | .ok source =>
    let (number, roots) := RootSet.newList {} "roots"
    return .ok { source, roots := roots.register number }

/-- Acts on the arenas. -/
def onSource {α : Type} (action : Action Source α) : Action Workbench α :=
  action.on Workbench.source fun w source => { w with source }

/-- Binds a name to what was allocated. -/
def bind (name : Option String) (address : Nat) : Action Workbench Unit :=
  modify fun w => { w with names := w.names.putOption name address }

/-- Goes on with the address that is meant. -/
def withObject (target : Target) (go : Nat → Action Workbench Reply) : Action Workbench Reply := do
  let w ← get
  match w.names.resolve w.source target with
  | some address => go address
  | none => return .misuse .noSuchObject

/-- Answers from the arenas without changing them. -/
def ask (answer : Source → Reply) : Action Workbench Reply := do
  return answer (← get).source

end Workbench

/-- A step that stores, frees or sizes. -/
inductive StorageCommand where
  | alloc (n : Nat) (grow : Bool) (name : Option String)
  | new (shape : Shape) (name : Option String)
  | allocMany (n count : Nat) (grow : Bool) (stem : Option String)
  | free (object : Target)
  /-- Frees the objects with the numbers from `first` up to `stop` in steps of `step`. -/
  | freeMany (stem : String) (first stop step : Nat)
  | contains (object : Target)
  | chunkSize (object : Target)
  | inZygote (object : Target)
  | generation (object : Target)
  | setGeneration (object : Target) (generation : Nat)
  | addArena
  | beforeFork
  | afterZygote
  | growForUtilization
  | setUtilization (ratio : Binary32)
  | setMinimum (size : Nat)
  | trim
  | shrinkToIdeal
  | externalPossible (n : Nat)
  | externalAlloc (n : Nat) (grow : Bool)
  | externalFree (n : Nat)
  | figure (which : Figure)
  | figures (which : Figure)
  | sizes
  | walk
  | bitmapWalk
  | snapshotBitmaps (name : String)
  /-- Exchanges the first `keep` bitmaps of a kept list, reversed beforehand if asked for. -/
  | swapBitmaps (name : String) (reverse : Bool) (keep : Option Nat)
  | published
deriving DecidableEq, Repr, Inhabited

namespace Workbench

/-- Allocates by a command's choice of means. -/
def allocate (n : Nat) (grow : Bool) : Action Workbench (Option Nat) :=
  onSource (if grow then Source.allocAndGrow n else Source.alloc n)

/-- Tells where an object is and what it may use. -/
def allocated (address : Nat) : Action Workbench Reply := do
  return .allocated address (← (← get).source.chunkSize address) none

/-- Allocates and binds the name. -/
def alloc (n : Nat) (grow : Bool) (name : Option String) : Action Workbench Reply := do
  match ← allocate n grow with
  | none => return .nothing
  | some address =>
    bind name address
    allocated address

/-- Allocates an object of a shape and writes its header. -/
def new (shape : Shape) (name : Option String) : Action Workbench Reply := do
  match ← allocate (← shape.bytes) false with
  | none => return .nothing
  | some address =>
    bind name address
    modify fun w => { w with source := w.source.setHeader address shape.tag shape.slots }
    allocated address

/-- Allocates until there is no room or enough was made. Answers how many. -/
def allocMany (n : Nat) (grow : Bool) (stem : Option String) (made : Nat) :
    Nat → Action Workbench Nat
  | 0 => return made
  | more + 1 => do
    match ← allocate n grow with
    | none => return made
    | some address =>
      modify fun w => { w with names := w.names.putNth stem made address }
      allocMany n grow stem (made + 1) more

/-- Frees the objects that the names with numbers from `number` up to `stop` in steps of `step` are
bound to. Answers their bytes with those freed already. Ends at a number that names nothing, and
what was freed before it stays free. -/
def freeMany (stem : String) (stop step freed number : Nat) : Action Workbench Reply :=
  if number < stop then
    withObject (.named (stem ++ toString number)) fun object => do
      let bytes ← onSource (Source.free object)
      freeMany stem stop step (freed + bytes) (number + max step 1)
  else return .count freed
termination_by stop - number

/-- Acts on the kept bitmaps and the arenas. -/
def onBitmaps (act : KeptBitmaps → Source → Except Defect (Reply × KeptBitmaps × Source)) :
    Action Workbench Reply := do
  let w ← get
  let (reply, kept, source) ← act w.kept w.source
  set { w with kept, source }
  return reply

/-- The sizes that the arenas were started with and have come to. -/
def sizes (s : Source) : List Nat :=
  [s.startSize, s.absoluteMax, s.footprint, s.arenas.length, s.active.absoluteMax,
    (s.bitmap s.active.live).size]

/-- Answers a request that may be refused. -/
def grant {α : Type} (request : Action Source (Except HeapError α)) (reply : α → Reply) :
    Action Workbench Reply := do
  match ← onSource request with
  | .ok value => return reply value
  | .error cause => return .refused cause

/-- Carries out a step that stores, frees or sizes. -/
def store : StorageCommand → Action Workbench Reply
  | .alloc n grow name => alloc n grow name
  | .new shape name => new shape name
  | .allocMany n count grow stem => return .count (← allocMany n grow stem 0 count)
  | .free o => withObject o fun object => return .count (← onSource (Source.free object))
  | .freeMany stem first stop step => freeMany stem stop step 0 first
  | .contains o => withObject o fun object => ask fun s => .truth (s.contains object)
  | .chunkSize o => withObject o fun object =>
      return .count (← (← get).source.chunkSize object)
  | .inZygote o => withObject o fun object => ask fun s => .truth (s.inZygote object)
  | .generation o => withObject o fun object => ask fun s => .maybe (s.generation? object)
  | .setGeneration o generation => withObject o fun object => do
      modify fun w => { w with source := w.source.setGeneration object generation }
      return .nothing
  | .addArena => grant Source.addArena fun _ => .done
  | .beforeFork => grant Source.beforeFork Reply.truth
  | .afterZygote => grant Source.afterZygote Reply.truth
  | .growForUtilization => do
      onSource Source.growForUtilization
      return .nothing
  | .setUtilization ratio => do
      modify fun w => { w with source := w.source.setUtilization ratio }
      ask fun s => .count (s.utilizationRatio.floorScaled 10)
  | .setMinimum size => return .count (← onSource (Source.setMinimum size))
  | .trim => return .counts (← onSource Source.trim)
  | .shrinkToIdeal => return .counts (← onSource Source.shrinkToIdeal)
  | .externalPossible n => return .truth (← (← get).source.externalPossible n)
  | .externalAlloc n grow => return .truth (← onSource (Source.externalAlloc n grow))
  | .externalFree n => return .count (← onSource (Source.externalFree n))
  | .figure which => ask fun s => .count (s.figure which)
  | .figures which => ask fun s => .counts (s.figures which)
  | .sizes => ask fun s => .counts (sizes s)
  | .walk => ask fun s => .blocks s.blocks
  | .bitmapWalk => do
      let s := (← get).source
      return .placeLists (← s.arenas.mapM fun a => (s.bitmap a.live).walk)
  | .snapshotBitmaps name => onBitmaps (·.snapshot name)
  | .swapBitmaps name reverse keep => onBitmaps (·.swap name reverse keep)
  | .published => do
      let s := (← get).source
      return .counts (← KeptBitmaps.counts s s.published)

end Workbench

end Script

end ManagedHeap
