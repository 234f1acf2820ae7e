import ManagedHeap.Marking
import ManagedHeap.Proofs.Bitmaps

/-!
The marks of any collection in progress, over whatever live bitmaps there are. An address belongs to
the first range that has it; there its mark is looked up, and there it is put.
-/

namespace ManagedHeap

/-- The number of bits set in the bitmaps of marks. -/
def Marking.bits (m : Marking) : Nat := Word.total (m.marks.map fun map => map.members.length)

namespace Cycle

variable {c c' : Cycle} {i j x y : Nat}

/-- The place of the bitmaps that an address belongs to. -/
def place? (c : Cycle) (x : Nat) : Option Nat :=
  c.marking.live.findIdx? fun number => (c.source.bitmap number).mayContain x

/-- The live bitmap at a place. -/
def liveAt (c : Cycle) (i : Nat) : Bitmap := c.source.bitmap (c.marking.live.getD i 0)

/-- The marks at a place. -/
def marksAt (c : Cycle) (i : Nat) : Bitmap := c.marking.marks.getD i default

/-- Does a live bitmap have the object? -/
def isLive (c : Cycle) (x : Nat) : Bool :=
  c.marking.live.any fun number => (c.source.bitmap number).test x

/-- Has the object a mark at the place that it belongs to? -/
def hasMark (c : Cycle) (x : Nat) : Bool :=
  match c.place? x with
  | some i => (c.marksAt i).test x
  | none => false

/-- There are marks over the range of each live bitmap, and all of these are sets of addresses in
their ranges. -/
structure Charted (c : Cycle) : Prop where
  length : c.marking.marks.length = c.marking.live.length
  live : ∀ number ∈ c.marking.live, (c.source.bitmap number).Sound
  marks : ∀ map ∈ c.marking.marks, map.Sound
  range : ∀ i < c.marking.live.length, ∀ x, (c.marksAt i).mayContain x = (c.liveAt i).mayContain x

/-- Sets and counts a mark. -/
def putMark (c : Cycle) (i x : Nat) : Cycle :=
  { c with marking := { c.marking with
      marks := c.marking.marks.modify i (·.insert x), marked := c.marking.marked + 1 } }

theorem place_spec (place : c.place? x = some i) :
    i < c.marking.live.length ∧ (c.liveAt i).mayContain x = true := by
  obtain ⟨bound, covered, -⟩ := List.findIdx?_eq_some_iff_getElem.1 place
  refine ⟨bound, ?_⟩
  rw [liveAt, List.getD_eq_getElem?_getD, List.getElem?_eq_getElem bound, Option.getD_some]
  exact covered

theorem isLive_of_place (place : c.place? x = some i) (live : (c.liveAt i).test x = true) :
    c.isLive x = true := by
  have bound := (place_spec place).1
  refine List.any_eq_true.2 ⟨c.marking.live[i], List.getElem_mem bound, ?_⟩
  rwa [liveAt, List.getD_eq_getElem?_getD, List.getElem?_eq_getElem bound, Option.getD_some] at live

theorem exists_place (live : c.isLive x = true) : ∃ i, c.place? x = some i := by
  obtain ⟨number, here, bit⟩ := List.any_eq_true.1 live
  cases place : c.place? x with
  | some i => exact ⟨i, rfl⟩
  | none =>
    have covered := List.findIdx?_eq_none_iff.1 place number here
    rw [Bitmap.mayContain_of_test bit] at covered
    cases covered

theorem hasMark_of_place (place : c.place? x = some i) : c.hasMark x = (c.marksAt i).test x := by
  rw [hasMark, place]

theorem marksAt_eq_getElem (bound : i < c.marking.marks.length) :
    c.marksAt i = c.marking.marks[i] := by
  rw [marksAt, List.getD_eq_getElem?_getD, List.getElem?_eq_getElem bound, Option.getD_some]

theorem isMarked_iff : c.marking.isMarked x = true
    ↔ ∃ i < c.marking.marks.length, (c.marksAt i).test x = true := by
  rw [Marking.isMarked, List.any_eq_true]
  constructor
  · rintro ⟨map, member, marked⟩
    obtain ⟨i, bound, rfl⟩ := List.getElem_of_mem member
    exact ⟨i, bound, marksAt_eq_getElem bound ▸ marked⟩
  · rintro ⟨i, bound, marked⟩
    exact ⟨_, List.getElem_mem bound, marksAt_eq_getElem bound ▸ marked⟩

/-- Where no two ranges overlap an object is marked at its place or nowhere. -/
theorem Charted.hasMark_eq_isMarked (charted : c.Charted) (apart : ∀ i < c.marking.live.length,
    (c.liveAt i).mayContain x = true → c.place? x = some i) :
    c.hasMark x = c.marking.isMarked x := by
  rw [Bool.eq_iff_iff, isMarked_iff]
  constructor
  · intro marked
    cases place : c.place? x with
    | none =>
      rw [hasMark, place] at marked
      cases marked
    | some i =>
      rw [hasMark_of_place place] at marked
      exact ⟨i, charted.length ▸ (place_spec place).1, marked⟩
  · rintro ⟨i, bound, marked⟩
    rw [charted.length] at bound
    have covered := charted.range i bound x ▸ Bitmap.mayContain_of_test marked
    rw [hasMark_of_place (apart i bound covered)]
    exact marked

/-- The live objects, bitmap by bitmap. -/
def liveObjects (c : Cycle) : List Nat :=
  c.marking.live.flatMap fun number => (c.source.bitmap number).members

theorem Charted.mem_liveObjects (charted : c.Charted) : x ∈ c.liveObjects ↔ c.isLive x = true := by
  rw [liveObjects, List.mem_flatMap, isLive, List.any_eq_true]
  constructor
  · rintro ⟨number, here, member⟩
    exact ⟨number, here, (charted.live number here).mem_members.1 member⟩
  · rintro ⟨number, here, bit⟩
    exact ⟨number, here, (charted.live number here).mem_members.2 bit⟩

/-- A scan is given a step for each object on the stack, one for each live object and one more. -/
theorem scanBudget_eq (c : Cycle) :
    c.scanBudget = c.marking.stack.entries.length + c.liveObjects.length + 1 := by
  rw [liveObjects, List.length_flatMap]
  rfl

section

variable (charted : c.Charted) (place : c.place? x = some i)
include charted place

theorem Charted.mayContain_marksAt : (c.marksAt i).mayContain x = true := by
  obtain ⟨bound, covered⟩ := place_spec place
  rw [charted.range i bound x]
  exact covered

theorem Charted.marks_getElem : c.marking.marks[i]? = some (c.marksAt i) := by
  have bound := charted.length ▸ (place_spec place).1
  rw [marksAt_eq_getElem bound, List.getElem?_eq_getElem bound]

theorem Charted.marksAt_putMark :
    (c.putMark i x).marksAt j = if i = j then (c.marksAt i).insert x else c.marksAt j := by
  rw [marksAt, putMark, List.getD_eq_getElem?_getD, List.getElem?_modify]
  split
  case isTrue same =>
    subst same
    rw [charted.marks_getElem place]
    rfl
  case isFalse =>
    rw [marksAt, List.getD_eq_getElem?_getD]
    cases c.marking.marks[j]? <;> rfl

theorem Charted.sound_marksAt : (c.marksAt i).Sound :=
  charted.marks _ (List.mem_of_getElem? (charted.marks_getElem place))

/-- One more bit is set. -/
theorem Charted.test_putMark : ((c.putMark i x).marksAt j).test y = true
    ↔ (c.marksAt j).test y = true ∨ i = j ∧ y = x := by
  rw [charted.marksAt_putMark place]
  split
  case isTrue same =>
    subst same
    rw [(charted.sound_marksAt place).test_insert (charted.mayContain_marksAt place)]
    constructor
    · rintro (rfl | old)
      · exact .inr ⟨rfl, rfl⟩
      · exact .inl old
    · rintro (old | ⟨-, rfl⟩)
      · exact .inr old
      · exact .inl rfl
  case isFalse other =>
    constructor
    · exact .inl
    · rintro (old | ⟨same, -⟩)
      · exact old
      · exact absurd same other

theorem Charted.putMark : (c.putMark i x).Charted where
  length := by
    rw [Cycle.putMark, List.length_modify]
    exact charted.length
  live := charted.live
  marks := by
    intro map member
    obtain ⟨j, here⟩ := List.getElem?_of_mem member
    rw [Cycle.putMark, List.getElem?_modify] at here
    obtain ⟨old, before, rfl⟩ := Option.map_eq_some_iff.1 here
    have sound := charted.marks old (List.mem_of_getElem? before)
    split
    case isTrue same =>
      subst same
      cases before.symm.trans (charted.marks_getElem place)
      exact sound.insert (charted.mayContain_marksAt place)
    case isFalse => exact sound
  range := by
    intro j bound y
    rw [charted.marksAt_putMark place]
    split
    case isTrue same =>
      subst same
      rw [Bitmap.mayContain_insert]
      exact charted.range i bound y
    case isFalse => exact charted.range j bound y

/-- A mark that was not there is one more. -/
theorem Charted.bits_putMark (absent : (c.marksAt i).test x = false) :
    (c.putMark i x).marking.bits = c.marking.bits + 1 := by
  have here := charted.marks_getElem place
  have more := ((charted.sound_marksAt place).members_insert
    (charted.mayContain_marksAt place) absent).length_eq
  rw [List.length_cons] at more
  have size : (c.marking.marks.map fun map => map.members.length)[i]?
      = some (c.marksAt i).members.length := by
    rw [List.getElem?_map, here, Option.map_some]
  have changed := Word.total_set size ((c.marksAt i).insert x).members.length
  rw [Cycle.putMark, Marking.bits, Marking.bits, List.modify_eq_set_getElem?, here]
  change Word.total (List.map _ (c.marking.marks.set i ((c.marksAt i).insert x))) = _
  rw [List.map_set]
  omega

end

end Cycle

end ManagedHeap
