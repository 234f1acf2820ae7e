import ManagedHeap.Cells
import ManagedHeap.Gaps
import ManagedHeap.Region

/-!
A growable allocation space over one region. Memory is handed out upwards from `top` and recycled
best fit first. Only the pages below the footprint count as obtained, and the footprint never grows
past the allowed one; that is how growth is capped without giving the region back.
-/

namespace ManagedHeap

/-- The record of an allocated chunk. -/
structure Chunk where
  /-- The length in granules, bookkeeping included, as a number of 32 bits. -/
  granules : Nat
  /-- The collection cycle that the chunk was born in, as a number of 32 bits. -/
  generation : Nat := 0
deriving DecidableEq, Repr, Inhabited

namespace Chunk

/-- The granule and generation fields of a record have so many values. -/
def fieldLimit : Nat := 4294967296

/-- The recorded length in bytes. -/
def size (c : Chunk) : Nat := c.granules * Size.granule

/-- The bytes that the holder of the chunk may use. -/
def usable (c : Chunk) : Except Defect Nat := Word.sub c.size Size.chunkOverhead

end Chunk

/-- A stretch as a walk over the space reports it. -/
structure Block where
  address : Nat
  length : Nat
  inUse : Bool
deriving DecidableEq, Repr, Inhabited

/-- An allocation space. Offsets are counted from the base of its region. -/
structure Space where
  name : String
  region : Region
  /-- The allocated chunks, by the offset at which each starts. -/
  chunks : Std.ExtTreeMap Nat Chunk := ∅
  /-- The free stretches below `top`. -/
  free : Gaps := {}
  /-- The end of the highest chunk. -/
  top : Nat := 0
  /-- The bytes obtained so far, in whole pages. -/
  footprint : Nat := 0
  /-- What the footprint may grow to. -/
  allowed : Nat := 0
  /-- The memory itself, in words of 8 bytes. -/
  words : Cells := {}
  /-- The bytes last asked for at each offset where a chunk was ever placed. -/
  requests : Std.ExtTreeMap Nat Nat := ∅
deriving DecidableEq, Repr, Inhabited

namespace Space

/-- The first address of the space. -/
def base (s : Space) : Nat := s.region.base

/-- The bytes that the space can ever hold. -/
def capacity (s : Space) : Nat := s.region.size

/-- Caps growth at `bytes`, rounded up to whole pages. A cap below the footprint pins it there. -/
def setAllowed (s : Space) (bytes : Nat) : Except Defect Space := do
  if s.footprint < bytes then
    let room ← Size.pagesUp (bytes - s.footprint)
    return { s with allowed := ← Word.add s.footprint room }
  else return { s with allowed := s.footprint }

/-- A space over a fresh region, allowed to grow to `start` bytes. -/
def create (name : String) (base start capacity : Nat) :
    Except Defect (Except HeapError Space) := do
  match ← Region.reserve base capacity with
  | .error e => return .error e
  | .ok region =>
    let space : Space := { name, region }
    return .ok (← space.setAllowed start)

/-- The offset of an address in the space. -/
def offsetOf? (s : Space) (address : Nat) : Option Nat :=
  if s.region.contains address then some (address - s.base) else none

/-- The chunk length that serves a request of `n` bytes, if that is a word at all. -/
def chunkSizeFor (n : Nat) : Option Nat :=
  let padded := n + (Size.chunkOverhead + Size.granule - 1)
  if padded < Word.limit then some (max (padded / Size.granule * Size.granule) Size.minChunk)
  else none

/-- Takes `size` bytes from the free stretch that fits best. A rest too small for a chunk of its own
goes along. Answers the offset and the length taken. -/
def takeFree? (s : Space) (size : Nat) : Option (Nat × Nat × Space) :=
  match s.free.bestFit? size with
  | none => none
  | some found =>
    let others := s.free.erase found.offset
    let rest := found.size - size
    if Size.minChunk ≤ rest then
      let left : Extent := { size := rest, offset := found.offset + size }
      some (found.offset, size, { s with free := others.insert left })
    else some (found.offset, found.size, { s with free := others })

/-- Takes `size` bytes above `top`, growing the footprint where that is needed and allowed. -/
def extendTop? (s : Space) (size : Nat) : Except Defect (Option (Nat × Space)) := do
  let newTop := s.top + size
  if Word.limit ≤ newTop then return none
  if s.footprint < newTop then
    let needed ← Size.pagesUp newTop
    if s.allowed < needed || s.capacity < needed then return none
    return some (s.top, { s with top := newTop, footprint := needed })
  else return some (s.top, { s with top := newTop })

/-- Records a chunk of `size` bytes for a request of `n` bytes, and zeroes what may be used. -/
def place (s : Space) (offset size n : Nat) : Space :=
  { s with
    chunks := s.chunks.insert offset { granules := size / Size.granule % Chunk.fieldLimit }
    words := s.words.fill (offset / 8) ((size - Size.chunkOverhead) / 8) 0
    requests := s.requests.insert offset n }

/-- The bytes last asked for at an offset; 0 where no chunk was ever placed. -/
def requestedAt (s : Space) (offset : Nat) : Nat := s.requests.getD offset 0

/-- Allocates `n` zeroed bytes. Fails if neither a free stretch nor growth within the allowed
footprint serves the request, and then nothing has changed. -/
def calloc (s : Space) (n : Nat) : Except Defect (Option Nat × Space) := do
  let some size := chunkSizeFor n | return (none, s)
  if s.capacity < size then return (none, s)
  match s.takeFree? size with
  | some (offset, taken, s') => return (some (s.base + offset), s'.place offset taken n)
  | none =>
    match ← s.extendTop? size with
    | some (offset, s') => return (some (s.base + offset), s'.place offset size n)
    | none => return (none, s)

/-- Allocates `n` zeroed bytes until there is no room or `count` more were made. Answers where, the
latest first, followed by those `made` before. -/
def callocMore (s : Space) (n : Nat) (made : List Nat) : Nat → Except Defect (List Nat × Space)
  | 0 => return (made, s)
  | count + 1 => do
    match ← s.calloc n with
    | (none, s) => return (made, s)
    | (some address, s) => s.callocMore n (address :: made) count

/-- Allocates `n` zeroed bytes several times, until there is no room or `count` were made. Answers
where, in the order of the allocations. -/
def callocMany (s : Space) (n count : Nat) : Except Defect (List Nat × Space) := do
  let (made, s) ← s.callocMore n [] count
  return (made.reverse, s)

/-- The chunk that starts at an address. -/
def chunkAt? (s : Space) (address : Nat) : Option Chunk :=
  match s.offsetOf? address with
  | some offset => s.chunks[offset]?
  | none => none

/-- The usable bytes of the chunk that starts at an address. -/
def usableSize? (s : Space) (address : Nat) : Except Defect (Option Nat) :=
  match s.chunkAt? address with
  | some chunk => return some (← chunk.usable)
  | none => return none

/-- Makes a stretch free. One that ends at `top` lowers `top` instead. -/
def giveBack (s : Space) (e : Extent) : Space :=
  if e.stop = s.top then { s with top := e.offset } else { s with free := s.free.insert e }

/-- Frees the chunk that starts at an address and joins it with its free neighbours. Answers the
length of the chunk, or nothing if no chunk starts there. -/
def release? (s : Space) (address : Nat) : Option (Nat × Space) := do
  let offset ← s.offsetOf? address
  let chunk ← s.chunks[offset]?
  let (stretch, free) := s.free.joinBelow { size := chunk.size, offset }
  let (stretch, free) := free.joinAbove stretch
  return (chunk.size, { s with chunks := s.chunks.erase offset, free }.giveBack stretch)

/-- Stamps the chunk that starts at an address with a generation. -/
def setGeneration (s : Space) (address generation : Nat) : Space :=
  match s.offsetOf? address with
  | none => s
  | some offset =>
    let stamp (c : Chunk) : Chunk := { c with generation := generation % Chunk.fieldLimit }
    { s with chunks := s.chunks.modify offset stamp }

/-- Gives the whole pages of a stretch back. They read as zero from then on. -/
def discard (s : Space) (offset length : Nat) : Except Defect (Nat × Space) := do
  match ← s.region.wholePages (s.base + offset) length with
  | none => return (0, s)
  | some (first, size) =>
    return (size, { s with words := s.words.fill ((first - s.base) / 8) (size / 8) 0 })

/-- Lowers the footprint to `top` plus `pad` bytes and gives the pages above back. -/
def trim (s : Space) (pad : Nat) : Except Defect (Nat × Space) := do
  let keep := min (← Size.pagesUp (Word.saturatingAdd s.top pad)) s.footprint
  if s.footprint ≤ keep then return (0, s)
  let (released, s) ← s.discard keep (s.footprint - keep)
  return (released, { s with footprint := keep })

/-- Gives back the pages of one more stretch. -/
def discardMore : Nat × Space → Extent → Except Defect (Nat × Space)
  | (released, s), extent => do
    let (more, s) ← s.discard extent.offset extent.size
    return (released + more, s)

/-- Gives back every whole page inside a free stretch. The stretches stay free. -/
def releaseFreePages (s : Space) : Except Defect (Nat × Space) :=
  s.free.toList.foldlM discardMore (0, s)

/-- The chunks and free stretches in address order, then the unused tail of the footprint. -/
def blocks (s : Space) : List Block :=
  let used := s.chunks.toList.map fun (offset, c) => Block.mk (s.base + offset) c.size true
  let free := s.free.toList.map fun e => Block.mk (s.base + e.offset) e.size false
  let tail :=
    if s.top < s.footprint then [Block.mk (s.base + s.top) (s.footprint - s.top) false] else []
  used.merge free (fun u f => u.address < f.address) ++ tail

/-- The word at an index, counted from an address in the space. -/
def readWord (s : Space) (address index : Nat) : Nat :=
  s.words.read ((address - s.base) / 8 + index)

/-- Puts a word at an index, counted from an address in the space. -/
def writeWord (s : Space) (address index value : Nat) : Space :=
  { s with words := s.words.write ((address - s.base) / 8 + index) value }

/-- Puts one value into `count` words from an index on. -/
def fillWords (s : Space) (address index count value : Nat) : Space :=
  { s with words := s.words.fill ((address - s.base) / 8 + index) count value }

end Space

end ManagedHeap
