/-!
Bags of objects. An object may be in a bag several times, and what is removed is always the copy
that came last. `entries` is the bag as a list in the order of arrival, and the lemmas say what each
operation does to it.
-/

namespace ManagedHeap

theorem Bag.size_empty : 0 = ([] : List Nat).length := rfl

/-- A bag of objects. -/
structure Bag where
  /-- The objects, the latest first. -/
  latest : List Nat := []
  size : Nat := 0
  size_eq : size = latest.length := by exact Bag.size_empty
deriving DecidableEq, Repr

namespace Bag

instance : Inhabited Bag := ⟨{}⟩

/-- The objects in the order in which they came. -/
def entries (b : Bag) : List Nat := b.latest.reverse

/-- Adds an object. -/
def push (b : Bag) (object : Nat) : Bag where
  latest := object :: b.latest
  size := b.size + 1
  size_eq := by simp [b.size_eq]

/-- Removes the last copy of an object. The entry that came last moves into its place. -/
def remove? (b : Bag) (object : Nat) : Option Bag :=
  match h : b.latest with
  | [] => none
  | last :: rest =>
    let size := b.size - 1
    if last = object then some { latest := rest, size, size_eq := by simp [size, b.size_eq, h] }
    else if object ∈ rest then
      let latest := rest.replace object last
      some { latest, size, size_eq := by simp [latest, size, b.size_eq, h] }
    else none

/-- Removes the last copy of an object. The others keep their order. -/
def removeInOrder? (b : Bag) (object : Nat) : Option Bag :=
  if member : object ∈ b.latest then
    some {
      latest := b.latest.erase object
      size := b.size - 1
      size_eq := by simp [b.size_eq, List.length_erase_of_mem member] }
  else none

/-- Keeps the `length` objects that came first. -/
def take (b : Bag) (length : Nat) : Bag where
  latest := b.latest.drop (b.size - length)
  size := min length b.size
  size_eq := by
    rw [List.length_drop, ← b.size_eq]
    omega

@[simp]
theorem entries_empty : ({} : Bag).entries = [] := rfl

@[simp]
theorem length_entries (b : Bag) : b.entries.length = b.size := by
  rw [entries, List.length_reverse, b.size_eq]

@[simp]
theorem entries_push (b : Bag) (object : Nat) :
    (b.push object).entries = b.entries ++ [object] := by
  simp [entries, push]

@[simp]
theorem entries_take (b : Bag) (length : Nat) :
    (b.take length).entries = b.entries.take length := by
  rw [entries, entries, take, List.reverse_drop, ← b.size_eq]
  by_cases enough : length ≤ b.size
  · rw [Nat.sub_sub_self enough]
  · rw [List.take_of_length_le, List.take_of_length_le]
    all_goals
      rw [List.length_reverse, ← b.size_eq]
      omega

/-- Putting a copy of one object in the place of another exchanges the two. -/
theorem cons_perm_cons_replace {object last : Nat} {l : List Nat} (member : object ∈ l) :
    (last :: l).Perm (object :: l.replace object last) := by
  induction l with
  | nil => simp at member
  | cons first rest ih =>
    by_cases here : object = first
    · subst here
      simpa using List.Perm.swap object last rest
    · have later : object ∈ rest := by simpa [here] using member
      have unequal : (object == first) = false := by simpa using here
      rw [List.replace_cons, unequal]
      exact (List.Perm.swap first last rest).trans
        (((ih later).cons first).trans (List.Perm.swap object first _))

/-- What is left after a removal is the bag without one copy of the object. -/
theorem perm_of_remove {b rest : Bag} {object : Nat} (removed : b.remove? object = some rest) :
    b.entries.Perm (object :: rest.entries) := by
  have latest : b.latest.Perm (object :: rest.latest) := by
    unfold remove? at removed
    split at removed
    case h_1 => cases removed
    case h_2 last others parts =>
      rw [parts]
      dsimp only at removed
      split at removed
      case isTrue same =>
        cases removed
        simp [same]
      case isFalse =>
        split at removed
        case isTrue member =>
          cases removed
          exact cons_perm_cons_replace member
        case isFalse => cases removed
  exact (List.reverse_perm _).trans (latest.trans ((List.reverse_perm _).symm.cons object))

/-- What is left after a removal in order is the bag without the copy that came last. -/
theorem entries_removeInOrder {b rest : Bag} {object : Nat}
    (removed : b.removeInOrder? object = some rest) :
    rest.entries = (b.entries.reverse.erase object).reverse := by
  unfold removeInOrder? at removed
  split at removed
  · cases removed
    simp [entries]
  · cases removed

end Bag

end ManagedHeap
