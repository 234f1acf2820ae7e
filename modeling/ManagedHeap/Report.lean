import ManagedHeap.Binary32
import ManagedHeap.Text.ByteCount

/-!
What a heap tells about itself, and its text.
-/

namespace ManagedHeap

/-- The figures of one arena. -/
structure ArenaReport where
  name : String := ""
  footprint : Nat := 0
  allowed : Nat := 0
  bytes : Nat := 0
  objects : Nat := 0
  bitmapSize : Nat := 0
deriving DecidableEq, Repr, Inhabited

/-- The figures of a heap. -/
structure Report where
  /-- The arenas, the active one first. -/
  arenas : List ArenaReport := []
  ideal : Nat := 0
  softLimit : Option Nat := none
  minimum : Nat := 0
  maximum : Nat := 0
  utilization : Binary32 := .finite false 0 0
  externalBytes : Nat := 0
  externalLimit : Nat := 0
  cycles : Nat := 0
  objectsFreed : Nat := 0
  bytesFreed : Nat := 0
  /-- The length of the last collection in nanoseconds. -/
  pause : Nat := 0
deriving DecidableEq, Repr, Inhabited

/-- The line of one arena. -/
def ArenaReport.text (a : ArenaReport) (index : Nat) : String :=
  s!"  Arena #{index} ({a.name}): {Text.byteCount a.bytes} allocated in {a.objects} objects, "
    ++ s!"footprint {Text.byteCount a.footprint} of {Text.byteCount a.allowed} allowed, "
    ++ s!"bitmap {Text.byteCount a.bitmapSize}\n"

/-- The report in lines. -/
def Report.text (r : Report) : String :=
  let soft :=
    match r.softLimit with
    | some limit => Text.byteCount limit
    | none => "none"
  "Heap statistics:\n"
    ++ String.join (r.arenas.zipIdx.map fun (arena, index) => arena.text index)
    ++ s!"  Ideal size: {Text.byteCount r.ideal} (minimum {Text.byteCount r.minimum}, "
    ++ s!"maximum {Text.byteCount r.maximum})\n"
    ++ s!"  Soft limit: {soft}\n"
    ++ s!"  Target utilization: {(r.utilization.mulNat 100).wholeText}%\n"
    ++ s!"  External memory: {Text.byteCount r.externalBytes} of "
    ++ s!"{Text.byteCount r.externalLimit}\n"
    ++ s!"  Total GC cycles count: {r.cycles}\n"
    ++ s!"  Total freed: {Text.byteCount r.bytesFreed} in {r.objectsFreed} objects\n"
    ++ s!"  Last GC pause: {r.pause / 1000000}ms\n"

end ManagedHeap
