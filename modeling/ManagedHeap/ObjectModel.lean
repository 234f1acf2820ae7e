import ManagedHeap.Source

/-!
What the heap asks of the program about its objects. The heap never interprets what an object holds:
which objects it refers to, and whether it is a reference that a collection may clear, is answered by
an `ObjectModel`. A model looks at the object's own words and at nothing else.
-/

namespace ManagedHeap

/-- How strongly a reference object holds its referent. -/
inductive ReferenceKind where
  /-- As long as memory lasts. -/
  | soft
  /-- Not at all. -/
  | weak
  /-- Not at all, and the referent counts as gone only after it was finalized. -/
  | phantom
deriving DecidableEq, Repr, Inhabited

/-- An object as its program sees it: where it lies, how many bytes it was asked for with, and the
words that lie whole in these bytes. All other words read as zero. -/
structure Payload where
  address : Nat
  bytes : Nat
  word : Nat → Nat

/-- Puts a value into one word. -/
def Payload.set (p : Payload) (index value : Nat) : Payload :=
  { p with word := fun other => if other = index then value else p.word other }

/-- How a program reads its objects. To clear the referent of a reference is to null one word of it,
after which the reference refers to nothing and is otherwise what it was. -/
class ObjectModel where
  /-- The objects that an object refers to, in the order in which they are visited. The referent of
  a reference is not one of them. -/
  children : Payload → List Nat
  /-- What kind of reference an object is, if it is one. -/
  kind? : Payload → Option ReferenceKind
  /-- The referent of an object. -/
  referent? : Payload → Option Nat
  /-- The word that holds the referent. -/
  referentIndex : Payload → Nat
  /-- Does the reference go on a queue? -/
  hasQueue : Payload → Bool
  /-- Is the reference told to clear itself, instead of being cleared? -/
  clearsItself : Payload → Bool
  /-- The word that is nulled is the object's own. -/
  referentIndex_lt : ∀ p, (referent? p).isSome → referentIndex p < p.bytes / 8
  referent_clear : ∀ p, (referent? p).isSome → referent? (p.set (referentIndex p) 0) = none
  children_clear : ∀ p, (referent? p).isSome →
    children (p.set (referentIndex p) 0) = children p
  kind_clear : ∀ p, (referent? p).isSome → kind? (p.set (referentIndex p) 0) = kind? p
  hasQueue_clear : ∀ p, (referent? p).isSome →
    hasQueue (p.set (referentIndex p) 0) = hasQueue p
  clearsItself_clear : ∀ p, (referent? p).isSome →
    clearsItself (p.set (referentIndex p) 0) = clearsItself p

namespace Source

/-- The arena whose region has the address. -/
def holder? (s : Source) (address : Nat) : Option Arena :=
  s.arenas.find? fun a => a.space.region.contains address

/-- The index of the arena whose region has the address. -/
def holderIndex? (s : Source) (address : Nat) : Option Nat :=
  s.arenas.findIdx? fun a => a.space.region.contains address

/-- A word of the object at an address. -/
def word (s : Source) (object index : Nat) : Nat :=
  match s.holder? object with
  | some a => a.space.readWord object index
  | none => 0

/-- Changes `count` words of the object at an address to one value. -/
def setWords (s : Source) (object index count value : Nat) : Source :=
  match s.holderIndex? object with
  | some i => s.modifyArena i fun a =>
      { a with space := a.space.fillWords object index count value }
  | none => s

/-- Changes a word of the object at an address. -/
def setWord (s : Source) (object index value : Nat) : Source := s.setWords object index 1 value

/-- The bytes that were asked for when the object at an address was allocated. -/
def requested (s : Source) (object : Nat) : Nat :=
  match s.holder? object with
  | some a => a.space.requestedAt (object - a.space.base)
  | none => 0

/-- What the program sees of the object at an address. -/
def payload (s : Source) (object : Nat) : Payload :=
  let bytes := s.requested object
  { address := object, bytes, word := fun i => if i < bytes / 8 then s.word object i else 0 }

variable [ObjectModel]

/-- The objects that an object refers to, in order. -/
def children (s : Source) (object : Nat) : List Nat := ObjectModel.children (s.payload object)

/-- What kind of reference an object is, if it is one. -/
def kind? (s : Source) (object : Nat) : Option ReferenceKind := ObjectModel.kind? (s.payload object)

/-- The referent of an object. -/
def referent? (s : Source) (object : Nat) : Option Nat := ObjectModel.referent? (s.payload object)

/-- Does the reference go on a queue? -/
def hasQueue (s : Source) (object : Nat) : Bool := ObjectModel.hasQueue (s.payload object)

/-- Is the reference told to clear itself, instead of being cleared? -/
def clearsItself (s : Source) (object : Nat) : Bool := ObjectModel.clearsItself (s.payload object)

/-- Makes a reference refer to nothing. -/
def clearReferent (s : Source) (object : Nat) : Source :=
  s.setWord object (ObjectModel.referentIndex (s.payload object)) 0

end Source

end ManagedHeap
