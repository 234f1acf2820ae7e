import ManagedHeap.Heap.Callbacks
import ManagedHeap.Object

/-!
The words that scripts use: how they name objects, what they are answered, and what they are told
when a step makes no sense.
-/

namespace ManagedHeap

namespace Script

/-- How a script says which object it means. -/
inductive Target where
  /-- The address that a name is bound to. -/
  | named (name : String)
  /-- An address at a distance from the base of an arena. -/
  | place (arena : Nat) (offset : Int)
  /-- An address at a distance from the one that a name is bound to. -/
  | near (name : String) (offset : Int)
  | address (address : Nat)
deriving DecidableEq, Repr, Inhabited

/-- Addresses by name. A name stays bound when the object there dies. -/
abbrev Bindings := Std.ExtTreeMap String Nat

namespace Bindings

/-- Binds a name, if there is one to bind. -/
def putOption (b : Bindings) (name : Option String) (address : Nat) : Bindings :=
  match name with
  | some name => b.insert name address
  | none => b

/-- Binds the name of one among many. -/
def putNth (b : Bindings) (stem : Option String) (index address : Nat) : Bindings :=
  b.putOption (stem.map fun s => s ++ toString index) address

/-- The address at a signed distance from another, in a circle of all addresses. -/
def displaced (base : Nat) (distance : Int) : Nat :=
  (((base : Int) + distance) % (Word.limit : Int)).toNat

/-- The address that is meant, in a heap with so many arenas. -/
def locate (b : Bindings) (arenas : Nat) : Target → Option Nat
  | .named name => b[name]?
  | .place arena offset =>
    if arena < arenas then some (displaced (Region.arenaBase arena) offset) else none
  | .near name offset => b[name]?.map (displaced · offset)
  | .address address => some address

/-- The address of the object that is meant. No object lies at address zero. -/
def resolve (b : Bindings) (s : Source) (target : Target) : Option Nat :=
  (b.locate s.arenas.length target).filter (· != 0)

end Bindings

/-- Why a step makes no sense. -/
inductive Misuse where
  | noSuchObject
  | noSuchMutator
  | alreadyAttached
  | needsMutator
  | notMarking
  | noSuchBitmaps
deriving DecidableEq, Repr, Inhabited

/-- The text of the complaint. -/
def Misuse.text : Misuse → String
  | .noSuchObject => "no such object"
  | .noSuchMutator => "no such mutator"
  | .alreadyAttached => "already attached"
  | .needsMutator => "needs a mutator"
  | .notMarking => "no mark step"
  | .noSuchBitmaps => "no such bitmaps"

/-- What a step is answered. -/
inductive Reply where
  | nothing
  | done
  | truth (value : Bool)
  | count (value : Nat)
  | maybe (value : Option Nat)
  | counts (values : List Nat)
  | text (value : String)
  | places (addresses : List Nat)
  | placeLists (lists : List (List Nat))
  | blocks (blocks : List Block)
  /-- An object with its usable size, and whether it came zeroed where that is told. -/
  | allocated (address size : Nat) (zeroed : Option Bool)
  /-- How many of many were allocated, and what ended it before its time. -/
  | many (made : Nat) (ended : Option HeapError)
  | object (tag : Nat) (slots : List (Option Nat)) (referent : Option Nat)
  | swapped (accepted : Bool) (counts : List Nat)
  | found (references : FoundReferences)
  | handled (marked color scheduled : Nat)
  | swept (objects bytes scheduled : Nat)
  | work (finalize : List Nat) (operations : List (Nat × ReferenceWork))
  | trimmed (perArena : List Nat)
  | states (states : List ThreadState)
  | refused (cause : HeapError)
  /-- The object that the step is about does not live. -/
  | dead
  /-- The object has no such word. -/
  | bounds
  | misuse (cause : Misuse)
deriving DecidableEq, Repr, Inhabited

/-- What a new object looks like. -/
structure Shape where
  kind : Option ReferenceKind := none
  clears : Bool := false
  queued : Bool := false
  keeps : Bool := false
  identity : Nat := 0
  slots : Nat := 0
  /-- The number of data words. -/
  extra : Nat := 0
deriving DecidableEq, Repr, Inhabited

namespace Shape

/-- The bytes that the object takes. -/
def bytes (s : Shape) : Except Defect Nat := do
  Word.mul (← Word.sum [Object.headerWords, s.slots, s.extra]) 8

/-- The tag of the object. -/
def tag (s : Shape) : Nat := Tag.make s.kind s.clears s.queued s.keeps s.identity

end Shape

/-- A step that looks into an object or changes it. -/
inductive ObjectCommand where
  | retag (object : Target) (tag : Nat)
  | referent (object : Target) (value : Option Target)
  | slot (object : Target) (index : Nat) (value : Option Target)
  | inspect (object : Target)
  | spoil (object : Target)
  | data (object : Target)
deriving DecidableEq, Repr, Inhabited

namespace ObjectCommand

/-- The object that the step is about. -/
def target : ObjectCommand → Target
  | .retag o _ | .referent o _ | .slot o _ _ | .inspect o | .spoil o | .data o => o

/-- Stores an object or nothing. What is to be stored is looked up here, so an object without room
for it is found out before a name without an object. -/
def store (names : Bindings) (value : Option Target) (s : Source)
    (put : Option Nat → Source) : Reply × Source :=
  match value.map (names.resolve s) with
  | none => (.nothing, put none)
  | some none => (.misuse .noSuchObject, s)
  | some (some address) => (.nothing, put (some address))

/-- The step on a live object. -/
def onLive (names : Bindings) (s : Source) (object : Nat) : ObjectCommand → Reply × Source
  | .retag _ tag =>
    if s.hasHeader object then (.nothing, s.setWord object 0 tag) else (.bounds, s)
  | .referent _ value =>
    if s.hasHeader object then store names value s (s.setReferent object) else (.bounds, s)
  | .slot _ index value =>
    if index < s.slotCount object then store names value s (s.setSlot object index)
    else (.bounds, s)
  | .inspect _ => (.object (s.tag object) (s.slots object) (s.referent? object), s)
  | .spoil _ => (.nothing, s.spoilData object)
  | .data _ =>
    let (blank, other) := s.dataCounts object
    (.counts [blank, other], s)

/-- Carries the step out, provided that the object lives by a test and has a chunk. -/
def run (c : ObjectCommand) (names : Bindings) (lives : Source → Nat → Bool) (s : Source) :
    Except Defect (Reply × Source) := do
  let some object := names.resolve s c.target | return (.misuse .noSuchObject, s)
  if !lives s object || (← s.chunkSize object) == 0 then return (.dead, s)
  return c.onLive names s object

end ObjectCommand

end Script

end ManagedHeap
