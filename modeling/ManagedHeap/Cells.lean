import ManagedHeap.Nearest

/-!
A tape of cells that all hold zero until they are filled. It is kept as the cells where the content
changes, so a tape costs what has been written to it and not its length. The law of filling is
`read_fill`: the cells in range hold the value, and all others what they held before.
-/

namespace ManagedHeap

/-- A tape of cells. -/
structure Cells where
  /-- The content of each stretch of equal cells, by the first cell of the stretch. What lies before
  the first stretch is zero. -/
  stretches : Std.ExtTreeMap Nat Nat := ∅
deriving DecidableEq, Repr, Inhabited

namespace Cells

/-- The content of a cell. -/
def read (tape : Cells) (cell : Nat) : Nat :=
  match tape.stretches.getEntryLE? cell with
  | some (_, value) => value
  | none => 0

/-- The first cell after another where the content changes. -/
def nextChange? (tape : Cells) (cell : Nat) : Option Nat :=
  (tape.stretches.getEntryGT? cell).map Prod.fst

/-- Has the stretches that start from `first` to `last` become a part of the one before. -/
def absorb (tape : Cells) (first last : Nat) : Cells :=
  match tape.stretches.getEntryGE? first with
  | some (cell, _) =>
    if inside : first ≤ cell ∧ cell ≤ last then
      absorb { stretches := tape.stretches.erase cell } (cell + 1) last
    else tape
  | none => tape
termination_by last + 1 - first

/-- Has a value stand from a cell up to the next change. -/
def start (tape : Cells) (cell value : Nat) : Cells :=
  if tape.read cell = value then tape
  else { stretches := tape.stretches.insert cell value }

/-- Puts one value into `length` cells from `first` on. -/
def fill (tape : Cells) (first length value : Nat) : Cells :=
  if length = 0 then tape
  else
    let stop := first + length
    ((tape.absorb first stop).start first value).start stop (tape.read stop)

/-- Puts a value into one cell. -/
def write (tape : Cells) (cell value : Nat) : Cells := tape.fill cell 1 value

/-- The number of cells from `first` on and before `stop` that hold something else than zero. -/
def countUpTo (tape : Cells) (first stop : Nat) : Nat :=
  let next := min ((tape.nextChange? first).getD stop) stop
  let here := if tape.read first = 0 then 0 else next - first
  if _later : first < next ∧ next < stop then here + countUpTo tape next stop else here
termination_by stop - first

/-- The number of cells from `first` on, among `length`, that hold something else than zero. -/
def countSet (tape : Cells) (first length : Nat) : Nat := tape.countUpTo first (first + length)

/-- Do `length` cells from `first` on all hold zero? -/
def isBlank (tape : Cells) (first length : Nat) : Bool := tape.countSet first length == 0

/-- The content of cell 0, then of every cell below `length` that differs from the one before. -/
def changes (tape : Cells) (length : Nat) : List (Nat × Nat) :=
  (0, tape.read 0) :: tape.stretches.toList.filter fun (cell, _) => 0 < cell && cell < length

/-! ### The law of filling -/

/-- What is read is the content of the last stretch up to the cell, or zero if there is none. -/
theorem read_cases (tape : Cells) (cell : Nat) :
    (∃ first, first ≤ cell ∧ tape.stretches[first]? = some (tape.read cell)
      ∧ ∀ c, first < c → c ≤ cell → tape.stretches[c]? = none)
    ∨ (tape.read cell = 0 ∧ ∀ c, c ≤ cell → tape.stretches[c]? = none) := by
  unfold read
  cases nearest : tape.stretches.getEntryLE? cell with
  | none =>
    rw [Nearest.getEntryLE_eq_none_iff] at nearest
    right
    grind
  | some entry =>
    rw [Nearest.getEntryLE_eq_some_iff] at nearest
    left
    grind

theorem read_eq_of_stretch {tape : Cells} {cell first value : Nat} (before : first ≤ cell)
    (here : tape.stretches[first]? = some value)
    (last : ∀ c, first < c → c ≤ cell → tape.stretches[c]? = none) : tape.read cell = value := by
  have nearest : tape.stretches.getEntryLE? cell = some (first, value) := by
    rw [Nearest.getEntryLE_eq_some_iff]
    grind
  simp [read, nearest]

/-- Two tapes with the same stretches up to a cell agree on it. -/
theorem read_congr {tape other : Cells} {cell : Nat}
    (same : ∀ c, c ≤ cell → other.stretches[c]? = tape.stretches[c]?) :
    other.read cell = tape.read cell := by
  rcases tape.read_cases cell with ⟨first, before, here, last⟩ | ⟨zero, empty⟩
  · exact read_eq_of_stretch before (by grind) (by grind)
  · rcases other.read_cases cell with ⟨first, before, here, _⟩ | ⟨other_zero, _⟩
    · grind
    · rw [zero, other_zero]

/-- Two tapes with the same stretches after a bound agree on a cell, if a stretch starts between. -/
theorem read_congr_after {tape other : Cells} {bound change cell : Nat}
    (between : bound < change ∧ change ≤ cell) (changes : tape.stretches[change]? ≠ none)
    (same : ∀ c, bound < c → c ≤ cell → other.stretches[c]? = tape.stretches[c]?) :
    other.read cell = tape.read cell := by
  rcases tape.read_cases cell with ⟨first, before, here, last⟩ | ⟨_, empty⟩
  · have after : bound < first := by grind
    exact read_eq_of_stretch before (by grind) (by grind)
  · exact absurd (empty change between.2) changes

/-- Where no stretch starts the content stays what it was. -/
theorem read_eq_read {tape : Cells} {first cell : Nat} (before : first ≤ cell)
    (same : ∀ c, first < c → c ≤ cell → tape.stretches[c]? = none) :
    tape.read cell = tape.read first := by
  rcases tape.read_cases first with ⟨start, _, here, last⟩ | ⟨zero, empty⟩
  · exact read_eq_of_stretch (by omega) here (by grind)
  · rcases tape.read_cases cell with ⟨start, _, here, _⟩ | ⟨other_zero, _⟩
    · grind
    · rw [zero, other_zero]

theorem stretches_absorb (tape : Cells) (first last c : Nat) :
    (tape.absorb first last).stretches[c]?
      = if first ≤ c ∧ c ≤ last then none else tape.stretches[c]? := by
  fun_induction absorb tape first last with
  | case1 tape first cell value nearest inside ih =>
    rw [Nearest.getEntryGE_eq_some_iff] at nearest
    rw [ih, Std.ExtTreeMap.getElem?_erase]
    grind
  | case2 tape first cell value nearest outside =>
    rw [Nearest.getEntryGE_eq_some_iff] at nearest
    grind
  | case3 tape first nearest =>
    rw [Nearest.getEntryGE_eq_none_iff] at nearest
    grind

theorem stretches_start {tape : Cells} {cell value c : Nat} (other : c ≠ cell) :
    (tape.start cell value).stretches[c]? = tape.stretches[c]? := by
  unfold start
  split
  · rfl
  · rw [Std.ExtTreeMap.getElem?_insert]
    grind

/-- A value stands from the cell where it was put up to the next change. -/
theorem read_start {tape : Cells} {first value cell : Nat} (before : first ≤ cell)
    (same : ∀ c, first < c → c ≤ cell → tape.stretches[c]? = none) :
    (tape.start first value).read cell = value := by
  by_cases already : tape.read first = value
  · rw [start, if_pos already, read_eq_read before same, already]
  · rw [start, if_neg already]
    exact read_eq_of_stretch before (by grind) (by grind)

/-- Filling changes the cells in range and no others. -/
theorem read_fill (tape : Cells) (first length value cell : Nat) :
    (tape.fill first length value).read cell
      = if first ≤ cell ∧ cell < first + length then value else tape.read cell := by
  unfold fill
  split
  case isTrue nothing => grind
  case isFalse something =>
    have after : ∀ c, first + length < c →
        (((tape.absorb first (first + length)).start first value).stretches[c]?
          = tape.stretches[c]?) := by
      intro c beyond
      rw [stretches_start (by omega), stretches_absorb, if_neg (by omega)]
    by_cases below : cell < first
    · rw [if_neg (by omega)]
      apply read_congr
      intro c _
      rw [stretches_start (by omega), stretches_start (by omega), stretches_absorb,
        if_neg (by omega)]
    by_cases inside : cell < first + length
    · rw [if_pos (by omega)]
      have within : ∀ c, first < c → c ≤ cell →
          (tape.absorb first (first + length)).stretches[c]? = none := by
        intro c _ _
        rw [stretches_absorb, if_pos (by omega)]
      exact (read_congr fun c _ => stretches_start (by omega)).trans
        (read_start (by omega) within)
    · rw [if_neg (by omega)]
      by_cases changes : ∃ c, first + length < c ∧ c ≤ cell ∧ tape.stretches[c]? ≠ none
      · obtain ⟨c, beyond, up_to, change⟩ := changes
        refine read_congr_after ⟨beyond, up_to⟩ change fun d _ _ => ?_
        rw [stretches_start (by omega), after d (by omega)]
      · have steady : ∀ c, first + length < c → c ≤ cell → tape.stretches[c]? = none := by grind
        rw [read_start (by omega) fun c beyond _ => by rw [after c beyond]; grind,
          read_eq_read (by omega) steady]

/-- Writing changes one cell. -/
theorem read_write (tape : Cells) (cell value other : Nat) :
    (tape.write cell value).read other = if other = cell then value else tape.read other := by
  have one : (cell ≤ other ∧ other < cell + 1) ↔ other = cell := by omega
  simp only [write, read_fill, one]

end Cells

end ManagedHeap
