import ManagedHeap.Heap.Collection

/-!
What a collection does to objects while it marks, written down step by step. Nothing that is done
depends on what was written down.
-/

namespace ManagedHeap

/-- What is done to an object. -/
inductive Deed where
  /-- It gets a mark. The marks are those right after that. -/
  | marked (object : Nat) (marks : Marking)
  /-- It goes on the mark stack. -/
  | pushed (object : Nat)
  /-- It is asked for the objects that it refers to. -/
  | traced (object : Nat)
  /-- It goes on the list of the references of its kind. -/
  | listed (kind : ReferenceKind) (object : Nat)

namespace Deed

/-- The object that got a mark, if one did. -/
def marked? : Deed → Option Nat
  | .marked object _ => some object
  | _ => none

/-- The object that went on the stack, if one did. -/
def pushed? : Deed → Option Nat
  | .pushed object => some object
  | _ => none

/-- The object that was traced, if one was. -/
def traced? : Deed → Option Nat
  | .traced object => some object
  | _ => none

/-- The object that went on a list of references, if one did. -/
def listed? : Deed → Option Nat
  | .listed _ object => some object
  | _ => none

end Deed

/-- A collection in progress, with what it has done so far, the oldest first. -/
structure Recorded where
  cycle : Cycle
  deeds : List Deed := []

namespace Recorded

variable {α : Type}

/-- Writes down what is done. -/
def note (r : Recorded) (deed : Deed) : Recorded := { r with deeds := r.deeds ++ [deed] }

/-- The objects that got marks, in order. -/
def marked (r : Recorded) : List Nat := r.deeds.filterMap Deed.marked?

/-- The objects that went on the stack, in order. -/
def pushed (r : Recorded) : List Nat := r.deeds.filterMap Deed.pushed?

/-- The objects that were traced, in order. -/
def traced (r : Recorded) : List Nat := r.deeds.filterMap Deed.traced?

/-- The objects that went on a list of references of whatever kind, in order. -/
def listed (r : Recorded) : List Nat := r.deeds.filterMap Deed.listed?

/-- Goes on with the collection, with nothing to write down. -/
def within (action : Action Cycle α) : Action Recorded α :=
  action.on Recorded.cycle fun r cycle => { r with cycle }

/-- Marks a live object that has no mark yet, and puts it on the stack. Anything else is ignored. -/
def mark (object : Nat) : Action Recorded Unit := do
  let c ← within get
  let m := c.marking
  match m.live.findIdx? fun number => (c.source.bitmap number).mayContain object with
  | none => return
  | some index =>
    let live := c.source.bitmap (m.live.getD index 0)
    if live.test object && !(m.marks.getD index default).bitAt object then
      let m :=
        { m with marks := m.marks.modify index (·.insert object), marked := m.marked + 1 }
      modify (·.note (.marked object m))
      match m.stack.push? object with
      | some stack =>
        modify (·.note (.pushed object))
        within (set { c with marking := { m with stack } })
      | none =>
        within (set { c with marking := m })
        throw (.fatal (.markStackOverflow m.stack.capacity))

/-- Marks each object of a list in turn. -/
def markAll : List Nat → Action Recorded Unit
  | [] => return
  | object :: rest => do
    mark object
    markAll rest

/-- Makes objects pending, one after the other, and marks them. -/
def makePending : List Nat → Action Recorded Unit
  | [] => return
  | object :: rest => do
    match (← within get).tables.pending.push? object with
    | none => throw (.fatal .finalizableTableFull)
    | some pending => within (Cycle.modifyTables fun t => { t with pending })
    mark object
    makePending rest

variable [ObjectModel]

/-- Looks at an object taken from the stack. -/
def visit (object : Nat) : Action Recorded Unit := do
  modify (·.note (.traced object))
  markAll ((← within get).source.children object)
  let c ← within get
  match c.source.kind? object, c.source.referent? object with
  | some kind, some referent =>
    if c.marking.latched || c.tables.scheduled.contains object then mark referent
    else if kind = .soft && !c.marking.deferSoft then mark referent
    else
      modify (·.note (.listed kind object))
      within (Cycle.modifyMarking fun m => { m with found := m.found.add kind object })
  | _, _ => return

/-- Scans at most so many objects from the stack. -/
def scanUpTo : Nat → Action Recorded Unit
  | 0 => return
  | budget + 1 => do
    let c ← within get
    match c.marking.stack.pop? with
    | none => return
    | some (object, stack) =>
      within (set { c with marking := { c.marking with stack } })
      visit object
      scanUpTo budget

/-- Scans until the stack is empty. -/
def scan : Action Recorded Unit := do
  scanUpTo (← within get).scanBudget

/-- Clears a reference or marks the referent for the sake of a call that is due. Answers the calls. -/
def release (reference referent : Nat) (kind : ReferenceKind) : Action Recorded ReferenceWork := do
  let s := (← within get).source
  let enqueue := s.hasQueue reference
  let clear := kind != .phantom && s.clearsItself reference
  let needsReferent := if kind = .phantom then enqueue else clear
  if needsReferent then mark referent
  else within (modify fun c => { c with source := c.source.clearReferent reference })
  return { clear, enqueue }

/-- Decides on one reference. -/
def handleReference (kind : ReferenceKind) (policy : SoftPolicy) (reference : Nat) :
    Action Recorded Unit := do
  let c ← within get
  let some referent := c.source.referent? reference | return
  if c.marking.isMarked referent then return
  if kind = .soft ∧ policy = .alternate then
    if ← within Cycle.takeTurn then
      mark referent
      return
  let work ← release reference referent kind
  within (Cycle.queueWork reference work)

/-- Decides on each reference of a list in turn. -/
def handleEach (kind : ReferenceKind) (policy : SoftPolicy) : List Nat → Action Recorded Unit
  | [] => return
  | reference :: rest => do
    handleReference kind policy reference
    handleEach kind policy rest

/-- Decides on the references of a list, then scans what that has marked. -/
def handleReferences (kind : ReferenceKind) (policy : SoftPolicy) (references : List Nat) :
    Action Recorded Unit := do
  handleEach kind policy references
  scan

/-- Decides on the soft references found, unless they hold their referents. -/
def handleSoft (policy : SoftPolicy) (references : List Nat) : Action Recorded Unit := do
  if policy = .preserve then return
  handleReferences .soft policy references
  within (modify fun c => { c with softDecided := true })

/-- Makes every unmarked finalizable object pending and keeps it with all that it refers to.
Answers how many there were. -/
def scheduleFinalizations : Action Recorded Nat := do
  let c ← within get
  let (due, finalizable) := c.tables.finalizable.takeWhere fun object =>
    !c.marking.isMarked object
  within (Cycle.modifyTables fun t => { t with finalizable })
  makePending due
  scan
  return due.length

/-- Marks what a collection keeps, given the root set and how soft references are treated. -/
def trace (roots : List Nat) (policy : SoftPolicy) : Action Recorded Unit := do
  markAll roots
  within (Cycle.modifyMarking fun m => { m with deferSoft := policy != .preserve })
  scan
  let found ← within Cycle.latch
  handleSoft policy found.soft
  handleReferences .weak policy found.weak
  let _ ← scheduleFinalizations
  handleReferences .phantom policy found.phantom

/-- The phases of a collection. Answers the objects and the bytes freed. -/
def run (roots : List Nat) (policy : SoftPolicy) : Action Recorded (Nat × Nat) := do
  trace roots policy
  within do
    let freed ← Cycle.sweep
    Cycle.finish
    return freed

end Recorded

end ManagedHeap
