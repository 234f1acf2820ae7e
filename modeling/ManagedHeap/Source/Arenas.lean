import ManagedHeap.Source.Sizing

/-!
Starting a heap, splitting arenas off around a fork, and exchanging the bitmaps of live objects.
-/

namespace ManagedHeap

namespace Source

/-- A fresh arena over the addresses that its number stands for, with its bitmap. -/
def freshArena (number start maximum live : Nat) :
    Except Defect (Except HeapError (Arena × Bitmap)) := do
  match ← Space.create (Arena.nameOf number) (Region.arenaBase number) start maximum with
  | .error e => return .error e
  | .ok space =>
    return .ok ({ space, live, absoluteMax := maximum },
      Bitmap.blank "objects" space.base space.capacity)

/-- A heap of one arena that may grow from `start` bytes to `maximum`. -/
def startup (start maximum : Nat) (zygote : Bool) : Except Defect (Except HeapError Source) := do
  if maximum < start then return .error (.badParameters start maximum)
  match ← freshArena 0 start maximum 0 with
  | .error e => return .error e
  | .ok (active, map) =>
    let source : Source :=
      { active, bitmaps := [map], startSize := start, absoluteMax := maximum, ideal := start
        sawZygote := zygote }
    return .ok source.publish

/-- Puts a new arena in front. The one that was active stays at the footprint it has. -/
def pushArena (arena : Arena) (map : Bitmap) : Action Source Unit := do
  let s ← get
  let space ← s.active.space.setAllowed s.active.footprint
  let old := { s.active with space }
  set { s with
    active := arena
    frozen := old :: s.frozen
    bitmaps := s.bitmaps ++ [map] }
  modify publish

/-- Freezes the active arena and starts a new one with what is left below the maximum. -/
def addArena : Action Source (Except HeapError Unit) := do
  let s ← get
  let count := s.arenas.length
  if Size.maxArenas ≤ count then throw (.fatal (.tooManyArenas count Size.maxArenas))
  let overhead := s.footprint
  if s.absoluteMax ≤ overhead + Size.minFree then
    return .error (.noRoomForArena overhead s.absoluteMax)
  match ← freshArena count Size.minFree (s.absoluteMax - overhead) s.bitmaps.length with
  | .error e => return .error e
  | .ok (arena, map) =>
    pushArena arena map
    return .ok ()

/-- Splits an arena off before the first fork. It is tried once, even if it fails. Answers whether
it was done now. -/
def beforeFork : Action Source (Except HeapError Bool) := do
  if (← get).zygoteSplit then return .ok false
  modify fun s => { s with zygoteSplit := true }
  match ← addArena with
  | .error e => return .error e
  | .ok () => return .ok true

/-- Moves allocation to a new arena after the fork. Answers whether the heap was started before
one. -/
def afterZygote : Action Source (Except HeapError Bool) := do
  if !(← get).sawZygote then return .ok false
  match ← addArena with
  | .error e => return .error e
  | .ok () => return .ok true

/-- Copies the live bitmap of one more arena. -/
def snapshotBitmap : List Nat × Source → Arena → List Nat × Source
  | (numbers, s), arena =>
    let (number, s) := s.addBitmap (s.bitmap arena.live).copy
    (numbers ++ [number], s)

/-- Copies the live bitmaps. Answers the numbers of the copies, the active arena's first. -/
def snapshotBitmaps (s : Source) : List Nat × Source := s.arenas.foldl snapshotBitmap ([], s)

/-- Have these bitmaps the members of those of the arenas, one for each? -/
def areCurrent (s : Source) (numbers : List Nat) : Bool :=
  (s.arenas.zip numbers).all fun (a, number) =>
    (s.bitmap number).members == (s.bitmap a.live).members

/-- Gives each arena the bitmap at its place in the list, and the list the one that it had. Refused
unless there is one bitmap per arena, each over the arena's range. -/
def replaceBitmaps (s : Source) (numbers : List Nat) : Bool × List Nat × Source :=
  let fits := numbers.length == s.arenas.length &&
    (s.arenas.zip numbers).all fun (a, number) =>
      (s.bitmap a.live).sameRange (s.bitmap number)
  match fits, numbers with
  | true, first :: rest =>
    let s' : Source :=
      { s with
        active := { s.active with live := first }
        frozen := s.frozen.zipWith (fun a number => { a with live := number }) rest }
    (true, s.arenas.map Arena.live, s'.publish)
  | _, _ => (false, numbers, s)

end Source

end ManagedHeap
