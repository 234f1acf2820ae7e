import ManagedHeap.Script.Workbench

/-!
The phases of a collection as steps on a workbench, and the roots and tables that they start from.
-/

namespace ManagedHeap

namespace Script

/-- A step that fills a table or takes a collection further. -/
inductive PhaseCommand where
  | root (object : Target)
  | unroot (object : Target)
  | noCollect (object : Target)
  | finalizable (object : Target)
  | pendFinalize (object : Target)
  | pendOperation (object : Target) (work : ReferenceWork)
  | schedule (object : Target)
  | beginMark
  | mark (object : Target)
  | isMarked (object : Target)
  /-- Marks the roots, and the object of a callback that is being made. -/
  | markRoots (inFlight : Option Target)
  | deferSoft (value : Bool)
  | scan
  | latch
  | handle (kind : ReferenceKind) (policy : SoftPolicy)
  | scheduleFinalizations
  | sweep
  | finishMark
  | pending
  | drain
deriving DecidableEq, Repr, Inhabited

/-- A step on a workbench. -/
inductive WorkbenchCommand where
  | storage (command : StorageCommand)
  | phase (command : PhaseCommand)
  | object (command : ObjectCommand)
deriving DecidableEq, Repr, Inhabited

namespace Workbench

/-- Takes the collection in progress further. Without one the step makes no sense. -/
def whileMarking (action : Action Cycle Reply) : Action Workbench Reply := do
  match (← get).marking with
  | none => return .misuse .notMarking
  | some marking =>
    action.on
      (fun w => { source := w.source, tables := w.tables, marking := w.marking.getD marking })
      (fun w c => { w with source := c.source, tables := c.tables, marking := some c.marking })

/-- Changes the tables, and answers that there was room. -/
def entering (change : WorkTables → WorkTables) : Action Workbench Reply := do
  modify fun w => { w with tables := change w.tables }
  return .truth true

/-- The number of marks. -/
def countMarks : Action Cycle Reply := do
  return .count (← get).marking.marked

/-- The objects that a collection on the bench starts from. -/
def rootSet (w : Workbench) (inFlight : Option Nat) : List Nat :=
  w.roots.all ++ w.nonCollectable.entries ++ w.tables.pending.entries
    ++ w.tables.operations.entries.map Prod.fst ++ inFlight.toList

/-- Takes the latched references of a kind. -/
def takeFound (kind : ReferenceKind) : Action Workbench (List Nat) := do
  let found := (← get).found
  let rest :=
    match kind with
    | .soft => { found with soft := [] }
    | .weak => { found with weak := [] }
    | .phantom => { found with phantom := [] }
  modify fun w => { w with found := rest }
  return found.ofKind kind

/-- Decides on references of a kind. -/
def decideOn (kind : ReferenceKind) (policy : SoftPolicy) (references : List Nat) :
    Action Cycle Reply := do
  Cycle.handleReferences kind policy references
  let c ← get
  return .handled c.marking.marked c.tables.color c.tables.scheduled.length

/-- Frees what has no mark. -/
def sweepOut : Action Cycle Reply := do
  let (objects, bytes) ← Cycle.sweep
  return .swept objects bytes (← get).tables.scheduled.length

/-- Makes finalizable objects pending. -/
def scheduleOut : Action Cycle Reply := do
  let due ← Cycle.scheduleFinalizations
  let c ← get
  return .counts [due, c.tables.finalizable.size, c.marking.marked]

/-- Ends the collection in progress. -/
def finishMark : Action Workbench Reply := do
  let reply ← whileMarking do
    Cycle.finish
    return .nothing
  modify fun w => { w with marking := none }
  return reply

/-- Carries out a step that fills a table or takes a collection further. -/
def advance : PhaseCommand → Action Workbench Reply
  | .root o => withObject o fun object => do
      modify fun w => { w with roots := w.roots.push rootList object }
      return .nothing
  | .unroot o => withObject o fun object => do
      match (← get).roots.remove? rootList object with
      | some roots =>
        modify fun w => { w with roots }
        return .truth true
      | none => return .truth false
  | .noCollect o => withObject o fun object => do
      match (← get).nonCollectable.add? object with
      | some nonCollectable =>
        modify fun w => { w with nonCollectable }
        return .truth true
      | none => return .truth false
  | .finalizable o => withObject o fun object =>
      entering fun t => { t with finalizable := (t.finalizable.push? object).getD t.finalizable }
  | .pendFinalize o => withObject o fun object =>
      entering fun t => { t with pending := (t.pending.push? object).getD t.pending }
  | .pendOperation o work => withObject o fun object =>
      entering fun t =>
        { t with operations := (t.operations.push? (object, work)).getD t.operations }
  | .schedule o => withObject o fun object => do
      let known := (← get).tables.scheduled.contains object
      modify fun w => { w with tables := w.tables.schedule object }
      return .truth (!known)
  | .beginMark => do
      modify fun w => { w with marking := some (Marking.start w.source) }
      return .nothing
  | .mark o => withObject o fun object => whileMarking do
      Cycle.mark object
      return .truth ((← get).marking.isMarked object)
  | .isMarked o => withObject o fun object => whileMarking do
      return .truth ((← get).marking.isMarked object)
  | .markRoots inFlight => do
      let w ← get
      match inFlight.map (w.names.resolve w.source) with
      | some none => return .misuse .noSuchObject
      | inFlight => whileMarking do
        Cycle.markAll (w.rootSet inFlight.join)
        countMarks
  | .deferSoft value => whileMarking do
      Cycle.modifyMarking fun m => { m with deferSoft := value }
      return .nothing
  | .scan => whileMarking do
      Cycle.scan
      countMarks
  | .latch => do
      match (← get).marking with
      | none => return .misuse .notMarking
      | some marking =>
        let found := marking.found
        let reply ← whileMarking do return .found (← Cycle.latch)
        modify fun w => { w with found }
        return reply
  | .handle kind policy => do
      if (← get).marking.isNone then return .misuse .notMarking
      let references ← takeFound kind
      whileMarking (decideOn kind policy references)
  | .scheduleFinalizations => whileMarking scheduleOut
  | .sweep => whileMarking sweepOut
  | .finishMark => finishMark
  | .pending => do
      let t := (← get).tables
      return .work t.pending.entries t.operations.entries
  | .drain => do
      let t := (← get).tables
      modify fun w => { w with tables := { t with pending := .empty, operations := .empty } }
      return .count (t.pending.size + t.operations.size)

/-- Carries out a step. -/
def run : WorkbenchCommand → Action Workbench Reply
  | .storage command => store command
  | .phase command => advance command
  | .object command => do
      let w ← get
      let (reply, source) ← command.run w.names Source.contains w.source
      set { w with source }
      return reply

end Workbench

end Script

end ManagedHeap
