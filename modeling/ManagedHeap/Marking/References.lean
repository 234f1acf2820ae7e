import ManagedHeap.Marking

/-!
Deciding on the references found: those whose referent is still unmarked are cleared, or kept until
the calls that they are due have run.
-/

namespace ManagedHeap

/-- How a collection treats soft references whose referents nothing else holds. -/
inductive SoftPolicy where
  /-- They hold their referents. -/
  | preserve
  /-- Every other one is cleared. -/
  | alternate
  /-- All are cleared. -/
  | clearAll
deriving DecidableEq, Repr, Inhabited

namespace Cycle

variable [ObjectModel]

/-- Counts a soft reference. Answers whether it is one of those kept. -/
def takeTurn : Action Cycle Bool := do
  let color ← Word.add (← get).tables.color 1
  modifyTables fun t => { t with color }
  return color % 2 == 1

/-- Clears a reference or marks the referent for the sake of a call that is due. Answers the calls. -/
def release (reference referent : Nat) (kind : ReferenceKind) : Action Cycle ReferenceWork := do
  let s := (← get).source
  let enqueue := s.hasQueue reference
  let clear := kind != .phantom && s.clearsItself reference
  let needsReferent := if kind = .phantom then enqueue else clear
  if needsReferent then mark referent
  else modify fun c => { c with source := c.source.clearReferent reference }
  return { clear, enqueue }

/-- Queues the calls that a reference is due, if any, and holds its referent until they were made. -/
def queueWork (reference : Nat) (work : ReferenceWork) : Action Cycle Unit := do
  if work.isEmpty then return
  match (← get).tables.operations.push? (reference, work) with
  | none => throw (.fatal .referenceTableFull)
  | some operations => modifyTables fun t => { t with operations }.schedule reference

/-- Decides on one reference. -/
def handleReference (kind : ReferenceKind) (policy : SoftPolicy) (reference : Nat) :
    Action Cycle Unit := do
  let c ← get
  let some referent := c.source.referent? reference | return
  if c.marking.isMarked referent then return
  if kind = .soft ∧ policy = .alternate then
    if ← takeTurn then
      mark referent
      return
  queueWork reference (← release reference referent kind)

/-- Decides on each reference of a list in turn. -/
def handleEach (kind : ReferenceKind) (policy : SoftPolicy) : List Nat → Action Cycle Unit
  | [] => return
  | reference :: rest => do
    handleReference kind policy reference
    handleEach kind policy rest

/-- Decides on the references of a list, then scans what that has marked. -/
def handleReferences (kind : ReferenceKind) (policy : SoftPolicy) (references : List Nat) :
    Action Cycle Unit := do
  handleEach kind policy references
  scan

/-- Decides on the soft references found, unless they hold their referents. -/
def handleSoft (policy : SoftPolicy) (references : List Nat) : Action Cycle Unit := do
  if policy = .preserve then return
  handleReferences .soft policy references
  modify fun c => { c with softDecided := true }

/-- Makes objects pending, one after the other, and marks them. -/
def makePending : List Nat → Action Cycle Unit
  | [] => return
  | object :: rest => do
    match (← get).tables.pending.push? object with
    | none => throw (.fatal .finalizableTableFull)
    | some pending => modifyTables fun t => { t with pending }
    mark object
    makePending rest

/-- Makes every unmarked finalizable object pending and keeps it with all that it refers to.
Answers how many there were. -/
def scheduleFinalizations : Action Cycle Nat := do
  let c ← get
  let (due, finalizable) := c.tables.finalizable.takeWhere fun object =>
    !c.marking.isMarked object
  modifyTables fun t => { t with finalizable }
  makePending due
  scan
  return due.length

end Cycle

end ManagedHeap
