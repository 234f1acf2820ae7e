import ManagedHeap.MarkStack
import ManagedHeap.ObjectModel
import ManagedHeap.Source.Allocation
import ManagedHeap.Tables

/-!
The tracing half of a collection. What is reachable gets a mark and goes on the mark stack, from where
it is scanned once. Reference objects found on the way are sorted by kind, so that their referents
can be decided on when everything strongly reachable is marked.
-/

namespace ManagedHeap

/-- Reference objects found by a scan, in order, whose referents were not followed. -/
structure FoundReferences where
  soft : List Nat := []
  weak : List Nat := []
  phantom : List Nat := []
deriving DecidableEq, Repr, Inhabited

namespace FoundReferences

/-- The references of one kind. -/
def ofKind (f : FoundReferences) : ReferenceKind → List Nat
  | .soft => f.soft
  | .weak => f.weak
  | .phantom => f.phantom

/-- Adds a reference to those of its kind. -/
def add (f : FoundReferences) (kind : ReferenceKind) (reference : Nat) : FoundReferences :=
  match kind with
  | .soft => { f with soft := f.soft ++ [reference] }
  | .weak => { f with weak := f.weak ++ [reference] }
  | .phantom => { f with phantom := f.phantom ++ [reference] }

end FoundReferences

/-- The marks of a collection in progress. -/
structure Marking where
  /-- The numbers of the live bitmaps, as they were when the collection began. -/
  live : List Nat
  /-- A bitmap of marks for each of them. -/
  marks : List Bitmap
  /-- What is marked and not scanned yet. -/
  stack : MarkStack
  /-- Are soft references found rather than followed? -/
  deferSoft : Bool := false
  /-- Are the referents of all references followed from here on? -/
  latched : Bool := false
  found : FoundReferences := {}
  /-- The number of marks. -/
  marked : Nat := 0
deriving DecidableEq, Repr, Inhabited

namespace Marking

/-- Nothing marked: a mark bitmap per arena, and a stack with an entry for every chunk of the least
size that the heap could hold. -/
def start (s : Source) : Marking :=
  let live := s.arenas.map Arena.live
  { live
    marks := live.map fun number =>
      let map := s.bitmap number
      Bitmap.blank "mark" map.base (map.limit - map.base)
    stack := { capacity := s.absoluteMax / Size.minChunk } }

/-- Has the object a mark? -/
def isMarked (m : Marking) (object : Nat) : Bool := m.marks.any (·.test object)

end Marking

/-- The work tables that a collection reads and fills. -/
structure WorkTables where
  /-- Objects that have a finalizer and were never found unreachable. -/
  finalizable : WorkQueue Nat := .empty
  /-- Objects whose finalizer is due. -/
  pending : WorkQueue Nat := .empty
  /-- References that are due a call. -/
  operations : WorkQueue (Nat × ReferenceWork) := .empty
  /-- References whose calls were scheduled. Their referents are held strongly. -/
  scheduled : List Nat := []
  /-- Counts the soft references decided on while every other one is cleared. -/
  color : Nat := 0
deriving DecidableEq, Repr, Inhabited

/-- Adds a reference to the scheduled ones, among which it is once. -/
def WorkTables.schedule (t : WorkTables) (reference : Nat) : WorkTables :=
  if t.scheduled.contains reference then t
  else { t with scheduled := t.scheduled ++ [reference] }

/-- A collection in progress. -/
structure Cycle where
  source : Source
  tables : WorkTables
  marking : Marking
  /-- Have the soft references found been decided on? -/
  softDecided : Bool := false
deriving DecidableEq, Repr, Inhabited

namespace Cycle

/-- Changes the marks. -/
def modifyMarking (change : Marking → Marking) : Action Cycle Unit :=
  modify fun c => { c with marking := change c.marking }

/-- Changes the tables. -/
def modifyTables (change : WorkTables → WorkTables) : Action Cycle Unit :=
  modify fun c => { c with tables := change c.tables }

/-- Marks a live object that has no mark yet, and puts it on the stack. Anything else is ignored. -/
def mark (object : Nat) : Action Cycle Unit := do
  let c ← get
  let m := c.marking
  match m.live.findIdx? fun number => (c.source.bitmap number).mayContain object with
  | none => return
  | some index =>
    let live := c.source.bitmap (m.live.getD index 0)
    if live.test object && !(m.marks.getD index default).bitAt object then
      let m :=
        { m with marks := m.marks.modify index (·.insert object), marked := m.marked + 1 }
      match m.stack.push? object with
      | some stack => set { c with marking := { m with stack } }
      | none =>
        set { c with marking := m }
        throw (.fatal (.markStackOverflow m.stack.capacity))

/-- Marks each object of a list in turn. -/
def markAll : List Nat → Action Cycle Unit
  | [] => return
  | object :: rest => do
    mark object
    markAll rest

section Scanning

variable [ObjectModel]

/-- Looks at an object taken from the stack: marks its children, then follows its referent or
remembers the object as a reference found. -/
def visit (object : Nat) : Action Cycle Unit := do
  markAll ((← get).source.children object)
  let c ← get
  match c.source.kind? object, c.source.referent? object with
  | some kind, some referent =>
    if c.marking.latched || c.tables.scheduled.contains object then mark referent
    else if kind = .soft && !c.marking.deferSoft then mark referent
    else modifyMarking fun m => { m with found := m.found.add kind object }
  | _, _ => return

/-- Scans at most so many objects from the stack. -/
def scanUpTo : Nat → Action Cycle Unit
  | 0 => return
  | budget + 1 => do
    let c ← get
    match c.marking.stack.pop? with
    | none => return
    | some (object, stack) =>
      set { c with marking := { c.marking with stack } }
      visit object
      scanUpTo budget

/-- A bound on the objects that a scan can take from the stack: those on it now, and each live
object once more. -/
def scanBudget (c : Cycle) : Nat :=
  c.marking.stack.entries.length
    + Word.total (c.marking.live.map fun number => (c.source.bitmap number).members.length) + 1

/-- Scans until the stack is empty. -/
def scan : Action Cycle Unit := do
  scanUpTo (← get).scanBudget

end Scanning

/-- Takes the references found so far. From here on a scan follows every referent. -/
def latch : Action Cycle FoundReferences := do
  let found := (← get).marking.found
  modifyMarking fun m => { m with latched := true, found := {} }
  return found

end Cycle

end ManagedHeap
