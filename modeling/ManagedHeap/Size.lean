import ManagedHeap.Word

/-!
The sizes that shape a heap: pages, granules, chunk bookkeeping and the limits of heap sizing, with
rounding to multiples of a power of two.
-/

namespace ManagedHeap

namespace Size

/-- Memory is obtained and given back in pages of this many bytes. -/
def page : Nat := 4096

/-- Every allocation starts at a multiple of a granule, and a bitmap has one bit per granule. -/
def granule : Nat := 8

/-- Bytes of bookkeeping charged to each chunk on top of its usable size. -/
def chunkOverhead : Nat := 8

/-- No chunk is smaller than this. -/
def minChunk : Nat := 16

/-- Utilizations are integers over this scale. -/
def utilizationScale : Nat := 1024

/-- The utilization a heap aims for unless told otherwise: one half. -/
def defaultUtilization : Nat := 512

/-- The most free space a collection leaves. -/
def idealFree : Nat := 2097152

/-- The least free space a collection leaves. -/
def minFree : Nat := 524288

/-- External allocations aim for about 80% of their own limit. -/
def externalUtilization : Nat := 820

/-- How far the ideal size has to move before soft references are treated differently. -/
def softSlack : Nat := 131072

/-- The active arena and at most two frozen ones. -/
def maxArenas : Nat := 3

/-- Work tables hold at most this many entries. -/
def tableLimit : Nat := 16777216

/-- Reservations of this many bytes or more cannot be had. -/
def unreservable : Nat := 1152921504606846976

/-- No block of memory is larger than this. -/
def largestBlock : Nat := 9223372036854775807

/-- The start size of a heap unless told otherwise. -/
def defaultStart : Nat := 2097152

/-- The largest size of a heap unless told otherwise. -/
def defaultMaximum : Nat := 16777216

/-- The bits of a word that a multiple of the power of two `align` may have. -/
def alignMask (align : Nat) : Except Defect Nat := do
  return Word.largest - (← Word.sub align 1)

/-- The least multiple of the power of two `align` that is not below `value`. -/
def alignUp (value align : Nat) : Except Defect Nat := do
  let sum ← Word.add value align
  return (← Word.sub sum 1) &&& (← alignMask align)

/-- The greatest multiple of the power of two `align` that is not above `value`. -/
def alignDown (value align : Nat) : Except Defect Nat := do
  return value &&& (← alignMask align)

/-- Holds the caller to blocks of `count` entries that memory can have at all. -/
def requireBlock (count entryBytes : Nat) : Except Defect Unit :=
  Word.require (count * entryBytes ≤ largestBlock)

/-- Rounds up to whole pages. -/
def pagesUp (value : Nat) : Except Defect Nat := alignUp value page

end Size

end ManagedHeap
