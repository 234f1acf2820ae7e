import ManagedHeap.Bitmap
import ManagedHeap.Space

/-!
One logical heap made of up to three arenas. Only the active arena serves allocations; the others are
frozen, split off around a fork. What lives is told by bitmaps, which are shared: an arena holds the
number of its live bitmap, and so does everyone else who looks at it.
-/

namespace ManagedHeap

/-- A space with the account of what lives in it. -/
structure Arena where
  space : Space
  /-- The number of the bitmap of live objects. -/
  live : Nat
  /-- What the arena may never outgrow, as asked for and not rounded. -/
  absoluteMax : Nat
  /-- The bytes of live objects, bookkeeping included. -/
  bytes : Nat := 0
  /-- The number of live objects. -/
  objects : Nat := 0
deriving DecidableEq, Repr, Inhabited

namespace Arena

/-- The name of the arena with a number. -/
def nameOf (number : Nat) : String :=
  if number = 0 then "sable-heap" else s!"sable-heap/{number}"

/-- The bytes obtained for the arena. -/
def footprint (a : Arena) : Nat := a.space.footprint

/-- What the footprint may grow to. -/
def allowed (a : Arena) : Nat := a.space.allowed

end Arena

/-- A figure that can be asked of every arena or of the heap as a whole. -/
inductive Figure where
  | footprint
  | allowed
  | bytes
  | objects
  | externalBytes
  | externalLimit
deriving DecidableEq, Repr, Inhabited

/-- The figure of one arena. External memory belongs to none. -/
def Arena.figure (a : Arena) : Figure → Nat
  | .footprint => a.footprint
  | .allowed => a.allowed
  | .bytes => a.bytes
  | .objects => a.objects
  | .externalBytes | .externalLimit => 0

/-- The arenas and what steers their growth. -/
structure Source where
  /-- The arena that serves allocations. -/
  active : Arena
  /-- The arenas that no longer do, the youngest first. -/
  frozen : List Arena := []
  /-- Every bitmap of live objects ever made, by number. -/
  bitmaps : List Bitmap
  /-- The numbers of the live bitmaps as published to readers that hold no lock. -/
  published : List Nat := []
  /-- The share of live bytes aimed for, over `Size.utilizationScale`. -/
  utilization : Nat := Size.defaultUtilization
  /-- The ideal size is never below this. -/
  minimum : Nat := 0
  /-- The size that the heap was started with. -/
  startSize : Nat
  /-- The ideal size is never above this. -/
  absoluteMax : Nat
  /-- What the heap as a whole should have obtained at most. -/
  ideal : Nat
  /-- The most live bytes in the active arena, where that is less than its footprint. -/
  softLimit : Option Nat := none
  /-- Native memory tied to objects of the heap. -/
  externalBytes : Nat := 0
  /-- What `externalBytes` may reach without a collection. -/
  externalLimit : Nat := 0
  /-- Was the heap started before a fork? -/
  sawZygote : Bool := false
  /-- Has the arena for allocations after the fork been split off, or tried to be? -/
  zygoteSplit : Bool := false
deriving DecidableEq, Repr, Inhabited

namespace Source

/-- The arenas, the active one first. -/
def arenas (s : Source) : List Arena := s.active :: s.frozen

/-- A bitmap by its number. -/
def bitmap (s : Source) (number : Nat) : Bitmap := s.bitmaps.getD number default

/-- Changes a bitmap. Everyone who holds its number sees the change. -/
def modifyBitmap (s : Source) (number : Nat) (change : Bitmap → Bitmap) : Source :=
  { s with bitmaps := s.bitmaps.modify number change }

/-- Adds a bitmap. Answers its number. -/
def addBitmap (s : Source) (map : Bitmap) : Nat × Source :=
  (s.bitmaps.length, { s with bitmaps := s.bitmaps ++ [map] })

/-- Changes the arena at an index. -/
def modifyArena (s : Source) (index : Nat) (change : Arena → Arena) : Source :=
  match index with
  | 0 => { s with active := change s.active }
  | i + 1 => { s with frozen := s.frozen.modify i change }

/-- Publishes the bitmaps of the arenas. -/
def publish (s : Source) : Source := { s with published := s.arenas.map Arena.live }

/-- A figure of the heap: of all arenas together, or of its external memory. -/
def figure (s : Source) : Figure → Nat
  | .externalBytes => s.externalBytes
  | .externalLimit => s.externalLimit
  | which => Word.total (s.arenas.map (·.figure which))

/-- A figure of each arena. -/
def figures (s : Source) (which : Figure) : List Nat := s.arenas.map (·.figure which)

/-- The index of the arena whose range has the address. -/
def arenaIndex? (s : Source) (address : Nat) : Option Nat :=
  s.arenas.findIdx? fun a => (s.bitmap a.live).mayContain address

/-- The arena whose range has the address. -/
def arenaOf? (s : Source) (address : Nat) : Option Arena :=
  s.arenas.find? fun a => (s.bitmap a.live).mayContain address

/-- Is the address a live object in any arena? -/
def contains (s : Source) (address : Nat) : Bool :=
  match s.arenaOf? address with
  | some a => (s.bitmap a.live).test address
  | none => false

/-- Is the address a live object by the published bitmaps? -/
def isPublished (s : Source) (address : Nat) : Bool :=
  address % Size.granule == 0 && s.published.any fun number => (s.bitmap number).test address

/-- Does the address lie outside the active arena of a heap started before a fork? -/
def inZygote (s : Source) (address : Nat) : Bool :=
  s.sawZygote &&
    match s.arenaIndex? address with
    | some index => index != 0
    | none => false

/-- The usable bytes of the chunk at an address; 0 if there is none. -/
def chunkSize (s : Source) (address : Nat) : Except Defect Nat :=
  match s.arenaOf? address with
  | some a => return (← a.space.usableSize? address).getD 0
  | none => return 0

/-- The generation stamped on the chunk at an address. -/
def generation? (s : Source) (address : Nat) : Option Nat := do
  let a ← s.arenaOf? address
  let chunk ← a.space.chunkAt? address
  return chunk.generation

/-- Stamps the chunk at an address with a generation. -/
def setGeneration (s : Source) (address generation : Nat) : Source :=
  match s.arenaIndex? address with
  | some index => s.modifyArena index fun a =>
      { a with space := a.space.setGeneration address generation }
  | none => s

/-- The bytes obtained for the frozen arenas. -/
def frozenFootprint (s : Source) : Nat := Word.total (s.frozen.map Arena.footprint)

/-- The bytes obtained for all arenas. -/
def footprint (s : Source) : Nat := Word.total (s.arenas.map Arena.footprint)

/-- What counts against the ideal size besides the active arena. -/
def overhead (s : Source) : Nat := s.frozenFootprint + s.externalBytes

/-- Is a soft limit in effect that is not above the ideal size? -/
def isSoftLimited (s : Source) : Bool :=
  match s.softLimit with
  | some limit => limit ≤ s.ideal
  | none => false

/-- The chunks, free stretches and tails of all arenas, the oldest arena first. -/
def blocks (s : Source) : List Block := s.arenas.reverse.flatMap fun a => a.space.blocks

end Source

end ManagedHeap
