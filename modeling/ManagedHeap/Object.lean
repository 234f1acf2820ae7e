import ManagedHeap.ObjectModel

/-!
The layout of objects that scripts work with. An object that was asked for with room for a header
has three header words, a tag, the number of its slots and its referent, then the slots, then data.
The tag holds what kind of reference the object is, its options and the identity that its callbacks
go by. A smaller object has no header and refers to nothing.
-/

namespace ManagedHeap

namespace Tag

/-- The bits that hold the kind. -/
def kindCode : Option ReferenceKind → Nat
  | none => 0
  | some .soft => 1
  | some .weak => 2
  | some .phantom => 3

/-- The kind in a tag. -/
def kind? (tag : Nat) : Option ReferenceKind :=
  match tag % 4 with
  | 1 => some .soft
  | 2 => some .weak
  | 3 => some .phantom
  | _ => none

/-- The bit of a reference that clears itself when told to. -/
def clearBit : Nat := 2

/-- The bit of a reference that goes on a queue. -/
def queueBit : Nat := 3

/-- The bit of a reference that keeps its referent when told to clear itself. -/
def keepBit : Nat := 8

/-- The identity in a tag. -/
def identity (tag : Nat) : Nat := tag / 65536

/-- A tag from its parts. There is room for 48 bits of the identity. -/
def make (kind : Option ReferenceKind) (clears queued keeps : Bool) (identity : Nat) : Nat :=
  kindCode kind + (if clears then Word.bit clearBit else 0) + (if queued then Word.bit queueBit else 0)
    + (if keeps then Word.bit keepBit else 0) + identity % Word.bit 48 * 65536

end Tag

namespace Object

/-- The header words. -/
def headerWords : Nat := 3

/-- An object takes this many bytes before its first slot. -/
def headerBytes : Nat := 24

/-- The header word of the referent. -/
def referentWord : Nat := 2

end Object

namespace Payload

/-- Has the object a header? -/
def hasHeader (p : Payload) : Bool := Object.headerBytes ≤ p.bytes

/-- The tag of an object. -/
def tag (p : Payload) : Nat := if p.hasHeader then p.word 0 else 0

/-- The number of slots of an object. -/
def slotCount (p : Payload) : Nat := if p.hasHeader then p.word 1 else 0

/-- What a word refers to. -/
def pointer? (p : Payload) (index : Nat) : Option Nat :=
  match p.word index with
  | 0 => none
  | object => some object

/-- The slots of an object, in order. -/
def slots (p : Payload) : List (Option Nat) :=
  (List.range p.slotCount).map fun index => p.pointer? (Object.headerWords + index)

/-- The referent of an object. -/
def referent? (p : Payload) : Option Nat :=
  if p.hasHeader then p.pointer? Object.referentWord else none

@[simp]
theorem bytes_set (p : Payload) (index value : Nat) : (p.set index value).bytes = p.bytes := rfl

@[simp]
theorem hasHeader_set (p : Payload) (index value : Nat) :
    (p.set index value).hasHeader = p.hasHeader := rfl

/-- Nulling the referent leaves the other words alone. -/
theorem word_clear (p : Payload) {index : Nat} (other : index ≠ Object.referentWord) :
    (p.set Object.referentWord 0).word index = p.word index := if_neg other

theorem tag_clear (p : Payload) : (p.set Object.referentWord 0).tag = p.tag := by
  simp only [tag, hasHeader_set, word_clear p (show 0 ≠ Object.referentWord by decide)]

theorem slots_clear (p : Payload) : (p.set Object.referentWord 0).slots = p.slots := by
  have count : (p.set Object.referentWord 0).slotCount = p.slotCount := by
    simp only [slotCount, hasHeader_set, word_clear p (show 1 ≠ Object.referentWord by decide)]
  have slot (index : Nat) : (p.set Object.referentWord 0).pointer? (Object.headerWords + index)
      = p.pointer? (Object.headerWords + index) := by
    have other : Object.headerWords + index ≠ Object.referentWord := by
      simp only [Object.headerWords, Object.referentWord]
      omega
    simp only [pointer?, word_clear p other]
  simp only [slots, count, slot]

theorem referent_clear (p : Payload) : (p.set Object.referentWord 0).referent? = none := by
  simp [referent?, pointer?, set]

theorem hasHeader_of_referent {p : Payload} (refers : p.referent?.isSome) :
    Object.headerBytes ≤ p.bytes := by
  unfold referent? at refers
  split at refers
  case isTrue header => simpa [hasHeader] using header
  case isFalse => simp at refers

end Payload

/-- The layout as the heap asks for it. -/
instance Object.layout : ObjectModel where
  children p := p.slots.filterMap id
  kind? p := Tag.kind? p.tag
  referent? := Payload.referent?
  referentIndex _ := Object.referentWord
  hasQueue p := p.tag.testBit Tag.queueBit
  clearsItself p := p.tag.testBit Tag.clearBit
  referentIndex_lt p refers := by
    have header := Payload.hasHeader_of_referent refers
    simp only [Object.headerBytes, Object.referentWord] at *
    omega
  referent_clear p _ := p.referent_clear
  children_clear p _ := by rw [p.slots_clear]
  kind_clear p _ := by rw [p.tag_clear]
  hasQueue_clear p _ := by rw [p.tag_clear]
  clearsItself_clear p _ := by rw [p.tag_clear]

namespace Source

/-- Has the object a header? -/
def hasHeader (s : Source) (object : Nat) : Bool := (s.payload object).hasHeader

/-- The tag of an object. -/
def tag (s : Source) (object : Nat) : Nat := (s.payload object).tag

/-- The number of slots of an object. -/
def slotCount (s : Source) (object : Nat) : Nat := (s.payload object).slotCount

/-- The slots of an object, in order. -/
def slots (s : Source) (object : Nat) : List (Option Nat) := (s.payload object).slots

/-- Makes a reference refer to something else, or to nothing. -/
def setReferent (s : Source) (object : Nat) (referent : Option Nat) : Source :=
  s.setWord object Object.referentWord (referent.getD 0)

/-- Makes a slot refer to something else, or to nothing. -/
def setSlot (s : Source) (object index : Nat) (child : Option Nat) : Source :=
  s.setWord object (Object.headerWords + index) (child.getD 0)

/-- Writes the tag and the slot count of an object. -/
def setHeader (s : Source) (object tag slots : Nat) : Source :=
  (s.setWord object 0 tag).setWord object 1 slots

/-- Where the data words of an object start and how many there are. -/
def dataWords (s : Source) (object : Nat) : Nat × Nat :=
  let first := Object.headerWords + s.slotCount object
  (first, s.requested object / 8 - first)

/-- The number of data words of an object that are zero, and of the others. -/
def dataCounts (s : Source) (object : Nat) : Nat × Nat :=
  let (first, count) := s.dataWords object
  match s.holder? object with
  | some a =>
    let others := a.space.words.countSet ((object - a.space.base) / 8 + first) count
    (count - others, others)
  | none => (count, 0)

/-- Puts the largest word into every data word of an object. -/
def spoilData (s : Source) (object : Nat) : Source :=
  let (first, count) := s.dataWords object
  s.setWords object first count Word.largest

/-- Are the first `count` words at an address all zero? -/
def isZeroed (s : Source) (object count : Nat) : Bool :=
  match s.holder? object with
  | some a => a.space.words.isBlank ((object - a.space.base) / 8) count
  | none => true

end Source

end ManagedHeap
