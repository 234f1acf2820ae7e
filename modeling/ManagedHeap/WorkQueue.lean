import ManagedHeap.Size

/-!
Queues of pending work. `entries` is a queue as a list, the oldest entry first, and the lemmas say
what each operation does to it.
-/

namespace ManagedHeap

theorem WorkQueue.size_empty {α : Type} : 0 = ([] : List α).length + ([] : List α).length := rfl

/-- Work in the order in which it came. -/
structure WorkQueue (α : Type) where
  /-- The entries that leave first, the oldest first. -/
  front : List α := []
  /-- The entries that came after them, the latest first. -/
  back : List α := []
  size : Nat := 0
  size_eq : size = front.length + back.length := by exact WorkQueue.size_empty
deriving DecidableEq, Repr

namespace WorkQueue

variable {α : Type}

/-- The queue that has no entries. -/
def empty : WorkQueue α := {}

instance : Inhabited (WorkQueue α) := ⟨empty⟩

/-- The entries, the oldest first. -/
def entries (q : WorkQueue α) : List α := q.front ++ q.back.reverse

/-- The queue of a list that has the oldest entry first. -/
def ofList (l : List α) : WorkQueue α where
  front := l
  size := l.length
  size_eq := by rw [List.length_nil, Nat.add_zero]

/-- An empty queue with room set aside for `capacity` entries. It grows beyond that. -/
def create (entryBytes capacity : Nat) : Except Defect (WorkQueue α) := do
  Size.requireBlock capacity entryBytes
  return empty

/-- Adds an entry at the end. -/
def push (q : WorkQueue α) (entry : α) : WorkQueue α where
  front := q.front
  back := entry :: q.back
  size := q.size + 1
  size_eq := by rw [List.length_cons, q.size_eq, Nat.add_assoc]

/-- Adds an entry at the end, unless the queue is full. -/
def push? (q : WorkQueue α) (entry : α) : Option (WorkQueue α) :=
  if q.size < Size.tableLimit then some (q.push entry) else none

/-- Takes the oldest entry. -/
def pop? (q : WorkQueue α) : Option (α × WorkQueue α) :=
  match parts : q.front with
  | entry :: rest =>
    some (entry, {
      front := rest
      back := q.back
      size := q.size - 1
      size_eq := by
        rw [q.size_eq, parts, List.length_cons]
        omega })
  | [] =>
    match q.back.reverse with
    | [] => none
    | entry :: rest => some (entry, ofList rest)

/-- Takes the entries that a test picks by position and value. Both parts keep their order. -/
def takeIdx (q : WorkQueue α) (picks : Nat → α → Bool) : List α × WorkQueue α :=
  let numbered := q.entries.zipIdx
  ((numbered.filter fun (entry, i) => picks i entry).map Prod.fst,
    ofList ((numbered.filter fun (entry, i) => !picks i entry).map Prod.fst))

/-- Takes the entries that pass a test. Both parts keep their order. -/
def takeWhere (q : WorkQueue α) (picks : α → Bool) : List α × WorkQueue α :=
  (q.entries.filter picks, ofList (q.entries.filter (!picks ·)))

@[simp]
theorem entries_empty : (empty : WorkQueue α).entries = [] := rfl

@[simp]
theorem length_entries (q : WorkQueue α) : q.entries.length = q.size := by
  rw [entries, List.length_append, List.length_reverse, q.size_eq]

@[simp]
theorem entries_ofList (l : List α) : (ofList l).entries = l := by
  simp [entries, ofList]

@[simp]
theorem entries_push (q : WorkQueue α) (entry : α) :
    (q.push entry).entries = q.entries ++ [entry] := by
  simp [entries, push]

theorem entries_of_push {q longer : WorkQueue α} {entry : α} (pushed : q.push? entry = some longer) :
    longer.entries = q.entries ++ [entry] := by
  unfold push? at pushed
  split at pushed
  · cases pushed
    exact q.entries_push entry
  · cases pushed

/-- What is taken is the head of the list, and the queue keeps the tail. -/
theorem pop_eq (q : WorkQueue α) :
    (q.pop?).map (fun (entry, rest) => (entry, rest.entries))
      = match q.entries with
        | [] => none
        | entry :: rest => some (entry, rest) := by
  unfold pop?
  split
  case h_1 entry rest parts => simp [entries, parts]
  case h_2 parts =>
    split
    case h_1 nothing => simp [entries, parts, nothing]
    case h_2 entry rest back => simp [entries, ofList, parts, back]

theorem entries_of_pop {q rest : WorkQueue α} {entry : α} (popped : q.pop? = some (entry, rest)) :
    q.entries = entry :: rest.entries := by
  have taken := q.pop_eq
  rw [popped, Option.map_some] at taken
  cases parts : q.entries with
  | nil =>
    rw [parts] at taken
    cases taken
  | cons =>
    rw [parts] at taken
    cases taken
    rfl

theorem entries_of_not_pop {q : WorkQueue α} (nothing : q.pop? = none) : q.entries = [] := by
  have taken := q.pop_eq
  rw [nothing, Option.map_none] at taken
  cases parts : q.entries with
  | nil => rfl
  | cons =>
    rw [parts] at taken
    cases taken

end WorkQueue

end ManagedHeap
