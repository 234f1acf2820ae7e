import ManagedHeap.Error
import Std.Data.ExtTreeMap

/-!
One bit for each granule of a stretch of addresses. The bits stand in words of 64, and the bitmap
remembers the highest address it has ever held, so a walk can stop at the word of that address.
-/

namespace ManagedHeap

/-- A set of granule-aligned addresses between two bounds. -/
structure Bitmap where
  name : String
  /-- The first address covered. -/
  base : Nat
  /-- The first address no longer covered. -/
  limit : Nat
  /-- The bits, by the index of their word. A word that is not there has none set. -/
  words : Std.ExtTreeMap Nat Nat := ∅
  /-- The highest address ever set, or the one before `base` when nothing was. -/
  highest : Nat
deriving DecidableEq, Repr, Inhabited

namespace Bitmap

/-- Bits in a word. -/
def wordBits : Nat := 64

/-- The bytes of bitmap that `capacity` bytes need at one bit per `align` bytes. -/
def sizeFor (align capacity : Nat) : Except Defect Nat := do
  let perWord := align * wordBits
  let padded ← Word.sub (← Word.add capacity perWord) 1
  Word.mul (← Word.div padded perWord) 8

/-- The offset of the first address of a word. -/
def indexToOffset (align index : Nat) : Except Defect Nat := do
  Word.mul (← Word.mul index align) wordBits

/-- The word that has the bit of an offset. -/
def offsetToIndex (align offset : Nat) : Nat := offset / align / wordBits

/-- The bit of an offset, counted from the lowest in its word. -/
def offsetToBit (align offset : Nat) : Nat := offset / align % wordBits

/-- The bit of an offset as a word. -/
def offsetToMask (align offset : Nat) : Nat := Word.bit (offsetToBit align offset)

/-- An empty bitmap over `capacity` bytes. -/
def blank (name : String) (base capacity : Nat) : Bitmap where
  name := name
  base := base
  limit := base + capacity
  highest := Word.wrappingPred base

/-- An empty bitmap, if memory for it can be had and the range is one of addresses. -/
def create (name : String) (base capacity : Nat) : Except Defect (Except HeapError Bitmap) := do
  let size ← sizeFor Size.granule capacity
  if Size.unreservable ≤ capacity then return .error (.reservationFailed size)
  let _ ← Word.add base capacity
  return .ok (blank name base capacity)

/-- The bytes that the bits take. -/
def size (b : Bitmap) : Nat := (b.limit - b.base + 511) / 512 * 8

/-- Does the address lie in range at the start of a granule? Says nothing about its bit. -/
def mayContain (b : Bitmap) (address : Nat) : Bool :=
  b.base ≤ address && address < b.limit && address % Size.granule == 0

/-- The word with an index. -/
def word (b : Bitmap) (index : Nat) : Nat := b.words.getD index 0

/-- The bit that an address has by its distance from the base. -/
def bitAt (b : Bitmap) (address : Nat) : Bool :=
  let offset := address - b.base
  (b.word (offsetToIndex Size.granule offset)).testBit (offsetToBit Size.granule offset)

/-- Is the address in the set? -/
def test (b : Bitmap) (address : Nat) : Bool := b.mayContain address && b.bitAt address

/-- Adds a covered address. -/
def insert (b : Bitmap) (address : Nat) : Bitmap :=
  if b.bitAt address then b
  else
    let offset := address - b.base
    let index := offsetToIndex Size.granule offset
    let word := b.word index ||| offsetToMask Size.granule offset
    { b with words := b.words.insert index word, highest := max b.highest address }

/-- Removes a covered address. -/
def erase (b : Bitmap) (address : Nat) : Bitmap :=
  if b.bitAt address then
    let offset := address - b.base
    let index := offsetToIndex Size.granule offset
    let word := b.word index ^^^ offsetToMask Size.granule offset
    { b with words := b.words.insert index word }
  else b

/-- Adds an address, which has to be covered, and says whether it was there before. -/
def set (b : Bitmap) (address : Nat) : Except Defect (Bool × Bitmap) := do
  Word.require (b.mayContain address)
  return (b.bitAt address, b.insert address)

/-- Removes an address, which has to be covered, and says whether it was there before. -/
def clear (b : Bitmap) (address : Nat) : Except Defect (Bool × Bitmap) := do
  Word.require (b.mayContain address)
  return (b.bitAt address, b.erase address)

/-- Adds `count` addresses, each `step` after the one before. Answers how many of them are new,
together with those `added` before. -/
def setMore (b : Bitmap) (address step added : Nat) : Nat → Except Defect (Nat × Bitmap)
  | 0 => return (added, b)
  | count + 1 => do
    let (present, b) ← b.set address
    b.setMore (address + step) step (if present then added else added + 1) count

/-- Adds `count` addresses, each `step` after the one before. Answers how many of them are new. -/
def setEvery (b : Bitmap) (address step count : Nat) : Except Defect (Nat × Bitmap) :=
  b.setMore address step 0 count

/-- The number of words that can hold a bit. -/
def wordsInUse (b : Bitmap) : Nat :=
  if b.highest < b.base then 0
  else offsetToIndex Size.granule (b.highest - b.base) + 1

/-- The addresses of the bits in one word, lowest first. -/
def wordMembers (b : Bitmap) (index word : Nat) : List Nat :=
  (List.range wordBits).filterMap fun bit =>
    if word.testBit bit then
      some (b.base + (index * wordBits + bit) * Size.granule)
    else none

/-- The set as a list, lowest address first. -/
def members (b : Bitmap) : List Nat :=
  (b.words.toList.filter (·.1 < b.wordsInUse)).flatMap fun (index, word) =>
    b.wordMembers index word

/-- The members that `mark` does not have, for a `mark` over the same range. -/
def unmarked (b mark : Bitmap) : List Nat := b.members.filter fun address => !mark.bitAt address

/-- Holds the caller to walking only words that exist. Over a range that starts at address 0 the
highest address of an empty set reads as the largest word, and a walk runs past the end. -/
def requireWalkable (b : Bitmap) : Except Defect Unit :=
  Word.require (b.wordsInUse ≤ b.size / 8)

/-- The number of bits set in a word. -/
def wordCount (word : Nat) : Nat := (List.range wordBits).countP word.testBit

/-- The number of members, for a caller that counts the bits of each word. -/
def count (b : Bitmap) : Except Defect Nat := do
  b.requireWalkable
  return Word.total ((List.range b.wordsInUse).map fun index => wordCount (b.word index))

/-- The empty set over the same range. Only words that can hold a bit are zeroed. -/
def reset (b : Bitmap) : Bitmap :=
  { b with
    words := b.words.filter fun index _ => b.wordsInUse ≤ index
    highest := Word.wrappingPred b.base }

/-- The empty set over the same range, for a caller that goes through the words. -/
def clearAll (b : Bitmap) : Except Defect Bitmap := do
  b.requireWalkable
  return b.reset

/-- A bitmap of its own with the same members. Only words that can hold a bit are copied. -/
def copy (b : Bitmap) : Bitmap :=
  { blank b.name b.base (b.limit - b.base) with
    words := b.words.filter fun index _ => index < b.wordsInUse
    highest := b.highest }

/-- A copy, if memory for it can be had. -/
def snapshot (b : Bitmap) : Except Defect (Except HeapError Bitmap) := do
  match ← create b.name b.base (← Word.sub b.limit b.base) with
  | .error e => return .error e
  | .ok _ =>
    b.requireWalkable
    return .ok b.copy

section Walks

variable {α : Type}

/-- Hands the address of each bit in one word to a visitor, lowest first. -/
def visitWord (b : Bitmap) (index word : Nat) (visit : α → Nat → Except Defect α) (state : α) :
    Except Defect α :=
  if word = 0 then .ok state else (b.wordMembers index word).foldlM visit state

/-- Hands the address of each bit in `count` words, from an index on, to a visitor, lowest first.
The visitor may change what it works on: a word is read when the walk comes to it, and its bits are
visited as they stood then. -/
def visitWords (b : Bitmap) (read : α → Nat → Nat) (visit : α → Nat → Except Defect α) (state : α)
    (index : Nat) : Nat → Except Defect α
  | 0 => return state
  | count + 1 => do
    let state ← b.visitWord index (read state index) visit state
    b.visitWords read visit state (index + 1) count

/-- Walks over the bitmap that `map` finds in a state. -/
def walkWith (map : α → Bitmap) (visit : α → Nat → Except Defect α) (state : α) :
    Except Defect α := do
  let b := map state
  b.requireWalkable
  b.visitWords (fun state => (map state).word) visit state 0 b.wordsInUse

/-- Walks over what the bitmap that `map` finds in a state has and `mark` has not. The two have to
be over the same range. -/
def sweepWith (map : α → Bitmap) (mark : Bitmap) (visit : α → Nat → Except Defect α) (state : α) :
    Except Defect α := do
  let b := map state
  Word.require (b.base == mark.base && b.size == mark.size)
  b.requireWalkable
  b.visitWords (fun state index => Word.without ((map state).word index) (mark.word index)) visit
    state 0 b.wordsInUse

end Walks

/-- Notes an address that a walk comes to. -/
def note (state : Array Nat × Bitmap) (address : Nat) : Except Defect (Array Nat × Bitmap) :=
  return (state.1.push address, state.2)

/-- Notes an address that a walk comes to, and removes it. Where `base` is not at the start of a
granule no member is, and to remove one is a defect. -/
def noteClearing (state : Array Nat × Bitmap) (address : Nat) :
    Except Defect (Array Nat × Bitmap) := do
  let (_, b) ← state.2.clear address
  return (state.1.push address, b)

/-- The members, lowest address first. -/
def walk (b : Bitmap) : Except Defect (List Nat) := do
  let (seen, _) ← walkWith Prod.snd note (#[], b)
  return seen.toList

/-- The members, lowest address first, each removed on the way. -/
def walkClearing (b : Bitmap) : Except Defect (List Nat × Bitmap) := do
  let (seen, b) ← walkWith Prod.snd noteClearing (#[], b)
  return (seen.toList, b)

/-- What is in the set and not in `mark`, which has to be over the same range. -/
def sweepWalk (b mark : Bitmap) : Except Defect (List Nat) := do
  let (seen, _) ← sweepWith Prod.snd mark note (#[], b)
  return seen.toList

/-- What is in the set and not in `mark`, each removed from the set on the way. -/
def sweepClearing (b mark : Bitmap) : Except Defect (List Nat × Bitmap) := do
  let (seen, b) ← sweepWith Prod.snd mark noteClearing (#[], b)
  return (seen.toList, b)

/-- Do the two describe the same range? -/
def sameRange (b other : Bitmap) : Bool := b.base == other.base && b.limit == other.limit

/-- The name with the bounds. -/
def text (b : Bitmap) : String :=
  s!"{b.name}[begin={Text.address b.base},end={Text.address b.limit}]"

end Bitmap

end ManagedHeap
