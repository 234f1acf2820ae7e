import ManagedHeap.Bag
import ManagedHeap.Error

/-!
The threads that may touch objects, and how they are brought to a stop. Each attached thread has a
record that says whether it runs or is safe. A suspension holds from the moment when every other
thread is safe until it is lifted, and meanwhile nothing becomes running and nothing is attached.
-/

namespace ManagedHeap

/-- Whether a thread may touch objects. -/
inductive ThreadState where
  /-- It may, and has to stop when asked. -/
  | running
  /-- It does not, for as long as it is in this state. -/
  | safe
deriving DecidableEq, Repr, Inhabited

/-- The record of a thread. -/
structure ThreadRecord where
  /-- The thread that the record was made for. -/
  thread : Nat
  name : String
  state : ThreadState := .running
  /-- The allocations that the thread keeps alive. -/
  tracked : Bag := {}
deriving DecidableEq, Repr, Inhabited

/-- The records of the threads of one heap. -/
structure Safepoint where
  /-- Every record ever made, known by its number. -/
  records : List ThreadRecord := []
  /-- The records of attached threads, in order of attachment. -/
  members : List Nat := []
  /-- Which record stands for which thread. -/
  attached : List (Nat × Nat) := []
  /-- Is a suspension in force? -/
  requested : Bool := false
deriving DecidableEq, Repr, Inhabited

/-- Why a step of a thread is not taken. -/
inductive Refusal where
  /-- The thread would wait until a suspension is lifted, or for another thread to stop. -/
  | wouldBlock
  /-- The thread has a record already. -/
  | alreadyAttached
deriving DecidableEq, Repr, Inhabited

namespace Safepoint

/-- The record that stands for a thread. -/
def current? (s : Safepoint) (thread : Nat) : Option Nat :=
  (s.attached.find? fun (t, _) => t == thread).map Prod.snd

/-- A record by its number. -/
def record? (s : Safepoint) (number : Nat) : Option ThreadRecord := s.records[number]?

/-- The state of a record. -/
def stateOf (s : Safepoint) (number : Nat) : ThreadState :=
  match s.record? number with
  | some record => record.state
  | none => .safe

/-- The name of a record. -/
def nameOf (s : Safepoint) (number : Nat) : String :=
  match s.record? number with
  | some record => record.name
  | none => ""

/-- The allocations that a record keeps alive. -/
def trackedBy (s : Safepoint) (number : Nat) : Bag :=
  match s.record? number with
  | some record => record.tracked
  | none => {}

/-- Changes a record. -/
def modify (s : Safepoint) (number : Nat) (change : ThreadRecord → ThreadRecord) : Safepoint :=
  { s with records := s.records.modify number change }

/-- Attaches a thread in the running state. Answers the number of its record. -/
def register (s : Safepoint) (thread : Nat) (name : String) : Except Refusal (Nat × Safepoint) :=
  if (s.current? thread).isSome then .error .alreadyAttached
  else if s.requested then .error .wouldBlock
  else
    let number := s.records.length
    .ok (number, { s with
      records := s.records ++ [{ thread, name }]
      members := s.members ++ [number]
      attached := s.attached ++ [(thread, number)] })

/-- Detaches a thread by its record. What it tracked is no longer kept alive. -/
def unregister (s : Safepoint) (number : Nat) : Safepoint :=
  { s with
    members := s.members.filter (· != number)
    attached := s.attached.filter (·.2 != number) }

/-- Moves a record to a state. Answers the state before. -/
def transition (s : Safepoint) (number : Nat) (state : ThreadState) :
    Except Refusal (ThreadState × Safepoint) :=
  let old := s.stateOf number
  if old = state then .ok (old, s)
  else if state = .running ∧ s.requested = true then .error .wouldBlock
  else .ok (old, s.modify number fun record => { record with state })

/-- Stops a thread for a suspension that is already over: it ends running. -/
def park (s : Safepoint) (number : Nat) : Except Refusal Safepoint :=
  if s.requested then .error .wouldBlock
  else .ok (s.modify number fun record => { record with state := .running })

/-- Is an attached thread running, the one that asks apart? -/
def othersRun (s : Safepoint) (asking : Option Nat) : Bool :=
  s.members.any fun number => some number != asking && s.stateOf number == .running

/-- Puts a suspension in force, once every thread but the one that asks is safe. -/
def suspend (s : Safepoint) (asking : Option Nat) : Except Refusal Safepoint :=
  if s.requested || s.othersRun asking then .error .wouldBlock
  else .ok { s with requested := true }

/-- Lifts a suspension. -/
def resume (s : Safepoint) : Safepoint := { s with requested := false }

/-- Is any of these records running, attached or not? -/
def anyRuns (s : Safepoint) (numbers : List Nat) : Bool :=
  numbers.any fun number => s.stateOf number == .running

/-- The allocations that all attached threads keep alive, thread by thread. -/
def allTracked (s : Safepoint) : List Nat :=
  s.members.flatMap fun number => (s.trackedBy number).entries

/-- Keeps an allocation alive on behalf of a record. -/
def track (s : Safepoint) (number object : Nat) : Safepoint :=
  s.modify number fun record => { record with tracked := record.tracked.push object }

/-- Drops the last entry for an allocation. Nothing if the record has none. -/
def untrack? (s : Safepoint) (number object : Nat) : Option Safepoint :=
  ((s.trackedBy number).removeInOrder? object).map fun rest =>
    s.modify number fun record => { record with tracked := rest }

end Safepoint

end ManagedHeap
