import ManagedHeap.Source
import ManagedHeap.Binary32

/-!
How large the heap should be. The ideal size covers all arenas and the external memory; what it
leaves to the active arena becomes that arena's allowed footprint, or, where the arena has already
obtained more than that, a soft limit on its live bytes.
-/

namespace ManagedHeap

/-- Gives the memory of an arena back that no chunk needs. Answers the bytes given back. -/
def Arena.trim (a : Arena) : Except Defect (Nat × Arena) := do
  let (above, space) ← a.space.trim 0
  let (inside, space) ← space.releaseFreePages
  return (above + inside, { a with space })

namespace Source

/-- The ideal size for a live size: the live size over the utilization, with the free space that
this leaves kept between `Size.minFree` and `Size.idealFree`. -/
def utilizationTarget (live utilization : Nat) : Except Defect Nat := do
  let target ← Word.mul (← Word.div live utilization) Size.utilizationScale
  let most ← Word.add live Size.idealFree
  if most < target then return most
  let least ← Word.add live Size.minFree
  if target < least then return least
  return target

/-- The lowest utilization that can be set: the single-precision number nearest to 0.2. -/
def lowestUtilization : Binary32 := .finite false 13421773 (-26)

/-- The highest utilization that can be set: the single-precision number nearest to 0.8. -/
def highestUtilization : Binary32 := .finite false 13421773 (-24)

/-- Sets the utilization, brought between its bounds. -/
def setUtilization (s : Source) (ratio : Binary32) : Source :=
  let clamped := ratio.clamp lowestUtilization highestUtilization
  { s with utilization := clamped.floorScaled 10 }

/-- The utilization as a ratio. -/
def utilizationRatio (s : Source) : Binary32 := .ofScaled 10 s.utilization

/-- Gives the active arena `share` bytes: as its allowed footprint, or as a soft limit if it has
obtained more already. -/
def setShare (share : Nat) : Action Source Unit := do
  let s ← get
  let current := s.active.footprint
  if share < current then
    let space ← s.active.space.setAllowed current
    set { s with active := { s.active with space }, softLimit := some share }
  else
    let space ← s.active.space.setAllowed share
    set { s with active := { s.active with space }, softLimit := none }

/-- Sets the ideal size, brought between the minimum and the absolute maximum. -/
def setIdeal (size : Nat) : Action Source Unit := do
  let s ← get
  let size :=
    if s.absoluteMax < size then s.absoluteMax
    else if size < s.minimum then s.minimum
    else size
  setShare (size - s.overhead)
  modify fun s => { s with ideal := size }

/-- Sets the ideal size to what is in use. -/
def snapIdeal : Action Source Unit := do
  let s ← get
  setIdeal (s.overhead + s.active.bytes)

/-- Sets the minimum size. Answers the one before. -/
def setMinimum (size : Nat) : Action Source Nat := do
  let s ← get
  let size := min size s.absoluteMax
  set { s with minimum := size }
  if s.ideal < size then setIdeal s.ideal
  return s.minimum

/-- Sets the ideal size by what lives in the active arena. Means something right after a
collection only. -/
def growForUtilization : Action Source Unit := do
  let s ← get
  let used ← Word.add s.active.bytes s.externalBytes
  let target ← Word.sub (← utilizationTarget used s.utilization) s.externalBytes
  setIdeal (← Word.add target s.overhead)

/-- Gives unused memory back: what lies above the highest chunk of each arena, then the whole free
pages below. Answers the bytes given back per arena. -/
def trim : Action Source (List Nat) := do
  let s ← get
  match ← (s.arenas.mapM Arena.trim : Except Defect (List (Nat × Arena))) with
  | [] => return []
  | (released, active) :: frozen =>
    set { s with active, frozen := frozen.map Prod.snd }
    return released :: frozen.map Prod.fst

/-- Trims, then lets the allowed footprint follow the real one down. -/
def shrinkToIdeal : Action Source (List Nat) := do
  let released ← trim
  setIdeal (← get).ideal
  return released

end Source

end ManagedHeap
