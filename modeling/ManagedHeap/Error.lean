import ManagedHeap.Word
import ManagedHeap.Size
import ManagedHeap.Text.Quoted

/-!
Why an operation does not succeed. Three causes are kept apart: a request that cannot be served
(`HeapError`, an ordinary result), a broken promise that ends the operation where it stands (`Fatal`)
and a defect of the program itself (`Defect`).
-/

namespace ManagedHeap

/-- A call that the heap makes back into the program that uses it. -/
inductive Callback where
  /-- The last word of an object found unreachable. -/
  | finalize
  /-- A reference is asked to drop its referent itself. -/
  | clear
  /-- A reference is put on its queue. -/
  | enqueue
deriving DecidableEq, Repr, Inhabited

/-- The name of the call as error texts have it. -/
def Callback.text : Callback → String
  | .finalize => "finalize()"
  | .clear => "clear()"
  | .enqueue => "enqueue()"

/-- A request that cannot be served. -/
inductive HeapError where
  /-- No room for an object. `prebuilt` says that the report of it ran out of memory as well. -/
  | outOfMemory (size : Nat) (prebuilt : Bool)
  | badParameters (start maximum : Nat)
  | reservationFailed (size : Nat)
  | noRoomForArena (overhead maximum : Nat)
  | externalTooLarge (size : Nat)
  | externalOutOfMemory (size : Nat)
  | workerUnavailable
deriving DecidableEq, Repr, Inhabited

namespace HeapError

/-- The text of the error. -/
def message : HeapError → String
  | .outOfMemory size _ => s!"out of memory on a {size}-byte allocation"
  | .badParameters start maximum => s!"bad heap parameters (start={start}, max={maximum})"
  | .reservationFailed size => s!"can't reserve {size} bytes for an arena"
  | .noRoomForArena overhead maximum =>
    s!"no room to create any more arenas ({overhead} overhead, {maximum} max)"
  | .externalTooLarge size => s!"{size}-byte external allocation too large for this process"
  | .externalOutOfMemory size => s!"out of external memory on a {size}-byte allocation"
  | .workerUnavailable => "can't start the heap worker thread"

/-- Is the error a lack of memory, inside or outside the heap? -/
def isOutOfMemory : HeapError → Bool
  | .outOfMemory .. | .externalOutOfMemory .. => true
  | _ => false

end HeapError

/-- A broken promise. The operation ends where it stands and keeps what it has done so far. -/
inductive Fatal where
  | tooManyArenas (count maximum : Nat)
  | markStackOverflow (capacity : Nat)
  | markSetupFailed (reason : String)
  | finalizableTableFull
  | referenceTableFull
  | nonCollectableTableFull (entries : Nat)
  | missingNonCollectableEntry (address : Nat)
  /-- A callback has been running for so many microseconds. -/
  | workerWedged (elapsed : Nat) (call : Callback)
  | workerReentry
  | threadAlreadyAttached (name : String)
deriving DecidableEq, Repr, Inhabited

/-- The text of the error. -/
def Fatal.message : Fatal → String
  | .tooManyArenas count maximum =>
    s!"attempt to create too many arenas ({count} >= {maximum})"
  | .markStackOverflow capacity => s!"mark stack overflow ({capacity} entries)"
  | .markSetupFailed reason => s!"can't set up the mark step: {reason}"
  | .finalizableTableFull => "no room for any more finalizable objects"
  | .referenceTableFull => "no room for any more reference operations"
  | .nonCollectableTableFull entries =>
    s!"no room for any more non-collectable objects: {entries}"
  | .missingNonCollectableEntry address =>
    s!"failed to remove non-collectable entry for object {Text.address address}"
  | .workerWedged elapsed call =>
    s!"heap worker is wedged: {elapsed / 1000}ms spent inside {call.text}"
  | .workerReentry => "heap worker callback waited on the heap worker"
  | .threadAlreadyAttached name =>
    s!"thread {Text.quote name} is already attached to the heap"

/-- What ends an operation before its result. -/
inductive Failure where
  | defect (cause : Defect)
  | fatal (cause : Fatal)
  /-- The operation waits for itself, or was cut off after too many steps. -/
  | stuck
deriving DecidableEq, Repr, Inhabited

/-- An operation on a state. When it fails it leaves the state that it had reached. -/
abbrev Action (σ α : Type) := EStateM Failure σ α

namespace Action

/-- Goes on with a value, or fails with the defect that stands in its place. -/
def ofExcept {σ α : Type} : Except Defect α → Action σ α
  | .ok value => pure value
  | .error cause => throw (.defect cause)

instance {σ : Type} : MonadLift (Except Defect) (EStateM Failure σ) where
  monadLift := ofExcept

/-- Holds the operation to a condition. -/
def require {σ : Type} (condition : Bool) : Action σ Unit :=
  if condition then pure () else throw (.defect .assertion)

/-- Acts on a part of a larger state. The part reached is kept also on failure. -/
def on {σ τ α : Type} (part : τ → σ) (put : τ → σ → τ) (action : Action σ α) : Action τ α :=
  fun whole =>
    match action (part whole) with
    | .ok value reached => .ok value (put whole reached)
    | .error cause reached => .error cause (put whole reached)

/-- Where the action fails nothing goes on. -/
def orStuck {σ α : Type} (action : Action σ α) : Action σ α := fun s =>
  match action s with
  | .ok value reached => .ok value reached
  | .error _ reached => .error .stuck reached

end Action

end ManagedHeap
