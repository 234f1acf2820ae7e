import ManagedHeap.Script.Session

/-!
Carrying out the steps of a program and of its callbacks. Callbacks may nest without end, so a run
has a budget for the depth of nesting and for the calls made at each depth.
-/

namespace ManagedHeap

namespace Script

namespace Session

/-- How steps of the thread of a record are carried out. -/
abbrev Carry := (record : Nat) → Command → Action Session Reply

/-- Takes the steps of a callback, and binds `self` to the object before each, if there is one.
Answers whether the callback came to its end. -/
def runSteps (carry : Carry) (record : Nat) (self : Option Nat) :
    List CallbackStep → Action Session Bool
  | [] => return true
  | step :: rest => do
    if let some object := self then
      modifyClient fun c => { c with names := c.names.insert "self" object }
    match step with
    | .fail => return false
    | .panic => throw (.defect .assertion)
    | .command command catches =>
      let event ← tryCatch (do return Event.answered (← carry record command)) fun failure =>
        if catches then return Event.failed failure else throw failure
      log event
      runSteps carry record self rest

/-- The program's part of a call on an object. A reference told to clear itself drops its referent
when the callback has come to its end, unless its tag said beforehand that it keeps it. -/
def invoke (handlers : Handlers) (carry : Carry) : Machine.Invoke Client :=
  fun record callback object => do
    let tag := (← get).heap.source.tag object
    log (.called callback (Tag.identity tag))
    let ended ← runSteps carry record (some object)
      (handlers.stepsFor (Tag.identity tag) callback)
    if ended && callback == .clear && !tag.testBit Tag.keepBit then
      Machine.modifyHeap fun h => { h with source := h.source.setReferent object none }

/-- The program's part of the report that memory has run out. -/
def takeReport (handlers : Handlers) (carry : Carry) : Machine.TakeReport Client :=
  fun record size => do
    log (.outOfMemory size)
    let _ ← runSteps carry record none handlers.outOfMemory

/-- Carries out a step, given how the steps of callbacks are. -/
def dispatch (handlers : Handlers) (carry : Carry) (budget : Nat) (record : Option Nat) :
    Command → Action Session Reply
  | .mutator command =>
    match record with
    | some record =>
      runMutator (invoke handlers carry) (takeReport handlers carry) budget record command
    | none => return .misuse .needsMutator
  | .heap command => runHeap (invoke handlers carry) budget record command
  | .object command => runObject command
  | .attach name => attach name
  | .detach name => detach name

/-- Carries out a step within a budget. -/
def perform (handlers : Handlers) : Nat → Option Nat → Command → Action Session Reply
  | 0, _, _ => throw .stuck
  | budget + 1, record, command =>
    dispatch handlers (fun record => perform handlers budget (some record)) budget record command

/-- The budget of each step of a program. -/
def stepBudget : Nat := 100000

/-- Who takes a step: an attached thread by its name, or one that is not attached. -/
inductive Speaker where
  | thread (name : String)
  | stranger
deriving DecidableEq, Repr, Inhabited

/-- Takes a step of the program. What was seen of earlier callbacks is forgotten. -/
def step (handlers : Handlers) (speaker : Speaker) (command : Command) : Action Session Reply := do
  modifyClient fun c => { c with events := [] }
  match command, speaker with
  | .attach name, _ => attach name
  | .detach name, _ => detach name
  | _, .stranger => perform handlers stepBudget none command
  | _, .thread name =>
    match (← get).client.mutators.lookup name with
    | some record => perform handlers stepBudget (some record) command
    | none => return .misuse .noSuchMutator

/-- After a step of a program that has a worker, waits until the worker's calls have been made. What
comes of it is not the step's. -/
def settle (handlers : Handlers) (m : Session) : Session :=
  if m.heap.config.startWorker && (m.client.mutators.lookup mainThread).isSome then
    match perform handlers stepBudget (m.client.mutators.lookup mainThread)
        (.mutator .finalize) m with
    | .ok _ m => m
    | .error _ m => m
  else m

end Session

end Script

end ManagedHeap
