import ManagedHeap.Script.KeptBitmaps

/-!
Programs that use a heap, written as scripts: what a thread does step by step, and what it does
when the heap calls back.
-/

namespace ManagedHeap

namespace Script

/-- A step that only an attached thread can take. -/
inductive MutatorCommand where
  | alloc (n : Nat) (flags : AllocFlags) (name : Option String)
  | new (shape : Shape) (flags : AllocFlags) (name : Option String)
  /-- Allocates several objects, each a root where `root` is set. -/
  | allocMany (n count : Nat) (flags : AllocFlags) (stem : Option String) (root : Bool)
  | collect (soft : Bool)
  | finalize
  | track (object : Target)
  | release (object : Target)
  | tracked
  | clearFlags (object : Target) (flags : AllocFlags)
  | externalAlloc (n : Nat)
  | externalFree (n : Nat)
  | valid (object : Target)
  | profile
  | attachAgain (name : String)
  | name
  | safepoint
  /-- Moves through states, each inside the one before, and back. -/
  | states (path : List ThreadState)
deriving DecidableEq, Repr, Inhabited

/-- A step that any thread can take. -/
inductive HeapCommand where
  | root (object : Target)
  | unroot (object : Target)
  | roots
  | rootsTruncate (length : Nat)
  | rootsClear
  /-- Makes an object a root for good. -/
  | addRoots (object : Target)
  | pending
  | valid (object : Target)
  | size (object : Target)
  | inZygote (object : Target)
  | generation (object : Target)
  | figure (which : Figure)
  | figures (which : Figure)
  | ideal
  | stats
  | walk
  | snapshotBitmaps (name : String)
  | swapBitmaps (name : String)
  | utilization
  | setUtilization (ratio : Binary32)
  | minimum
  | setMinimum (size : Nat)
  | trim
  /-- Has the worker trim at some time past the end of the script. -/
  | scheduleTrim
  /-- Has the worker trim now. -/
  | idleTrim
  | debugger (active : Bool)
  /-- Lets so many milliseconds pass. -/
  | stall (time : Nat)
  | signal
  | waitIdle
  | beforeFork
  | afterZygote
  | setProfiling (value : Bool)
  | heapProfile
  | shutdown
deriving DecidableEq, Repr, Inhabited

/-- A step of a program. -/
inductive Command where
  | mutator (command : MutatorCommand)
  | heap (command : HeapCommand)
  | object (command : ObjectCommand)
  | attach (name : String)
  | detach (name : String)
deriving DecidableEq, Repr, Inhabited

/-- A step of a callback. -/
inductive CallbackStep where
  /-- Does what a program does. Where `catches` is set a failure is noted and the callback goes
  on. -/
  | command (command : Command) (catches : Bool)
  /-- Ends the callback with an error. -/
  | fail
  /-- Ends the callback with a defect. -/
  | panic
deriving DecidableEq, Repr, Inhabited

/-- What a program does when it is called back. -/
structure Handlers where
  /-- The steps for a call on the object with an identity. -/
  calls : List ((Nat × Callback) × List CallbackStep) := []
  /-- The steps for the report that memory has run out. -/
  outOfMemory : List CallbackStep := []
deriving DecidableEq, Repr, Inhabited

/-- The steps for a call on the object with an identity; none if nothing was said. -/
def Handlers.stepsFor (h : Handlers) (identity : Nat) (call : Callback) : List CallbackStep :=
  (h.calls.lookup (identity, call)).getD []

/-- What can be seen of a callback. -/
inductive Event where
  | called (call : Callback) (identity : Nat)
  | outOfMemory (size : Nat)
  | answered (reply : Reply)
  | failed (failure : Failure)
deriving DecidableEq, Repr, Inhabited

end Script

end ManagedHeap
