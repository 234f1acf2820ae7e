import ManagedHeap.Nearest

/-!
The free stretches of a space. They are looked up by where they start, to join a stretch that
becomes free with those that touch it, and by their length, to find the one that fits a request
best. Both indexes always have the same stretches; `before_eq_some_iff` and `bestFit_eq_some_iff`
say what the look-ups answer.
-/

namespace ManagedHeap

/-- A stretch of a space. -/
structure Extent where
  size : Nat
  offset : Nat
deriving DecidableEq, Repr, Inhabited

namespace Extent

/-- Where the stretch ends. -/
def stop (e : Extent) : Nat := e.offset + e.size

/-- Shorter stretches come first, and of equally long ones the lower. -/
instance : Ord Extent where
  compare := compareLex (compareOn size) (compareOn offset)

instance : Std.TransOrd Extent :=
  inferInstanceAs (Std.TransCmp (compareLex (compareOn size) (compareOn offset)))

theorem compare_eq (a b : Extent) :
    compare a b = (compare a.size b.size).then (compare a.offset b.offset) := rfl

instance : Std.LawfulEqOrd Extent where
  eq_of_compare {a b} same := by
    rw [compare_eq, Ordering.then_eq_eq, Nat.compare_eq_eq, Nat.compare_eq_eq] at same
    cases a
    cases b
    simp_all

theorem agree_empty (e : Extent) :
    e ∈ (∅ : Std.ExtTreeSet Extent) ↔ (∅ : Std.ExtTreeMap Nat Nat)[e.offset]? = some e.size := by
  simp only [Std.ExtTreeSet.not_mem_empty, Std.ExtTreeMap.getElem?_empty, reduceCtorEq]

end Extent

/-- Free stretches, of which no two start at one place. -/
structure Gaps where
  /-- The length of the stretch that starts at an offset. -/
  byOffset : Std.ExtTreeMap Nat Nat := ∅
  /-- The same stretches, the shortest first. -/
  bySize : Std.ExtTreeSet Extent := ∅
  agree : ∀ e, e ∈ bySize ↔ byOffset[e.offset]? = some e.size := by exact Extent.agree_empty
deriving DecidableEq, Repr

namespace Gaps

instance : Inhabited Gaps := ⟨{}⟩

/-- The stretches by where they start tell all. -/
@[ext]
theorem ext {g h : Gaps} (same : g.byOffset = h.byOffset) : g = h := by
  obtain ⟨_, gs, g_agree⟩ := g
  obtain ⟨_, hs, h_agree⟩ := h
  cases same
  have : gs = hs := by
    ext e
    rw [g_agree, h_agree]
  cases this
  rfl

/-- The stretches, the lowest first. -/
def toList (g : Gaps) : List Extent := g.byOffset.toList.map fun (offset, size) => { size, offset }

/-- Removes the stretch that starts at an offset. -/
def erase (g : Gaps) (offset : Nat) : Gaps :=
  match found : g.byOffset[offset]? with
  | none => g
  | some size =>
    { byOffset := g.byOffset.erase offset
      bySize := g.bySize.erase { size, offset }
      agree := by
        intro e
        rw [Std.ExtTreeSet.mem_erase, g.agree, Std.ExtTreeMap.getElem?_erase]
        simp only [ne_eq, Std.compare_eq_iff_eq]
        constructor
        · rintro ⟨other, here⟩
          rw [if_neg, here]
          rintro rfl
          rw [found] at here
          cases here
          exact other rfl
        · intro here
          split at here
          · cases here
          case isFalse elsewhere =>
            exact ⟨fun same => elsewhere (congrArg Extent.offset same), here⟩ }

@[simp]
theorem byOffset_erase (g : Gaps) (offset : Nat) :
    (g.erase offset).byOffset = g.byOffset.erase offset := by
  unfold erase
  split
  · ext
    grind
  · rfl

/-- Adds a stretch. It takes the place of one that starts at the same offset. -/
def insert (g : Gaps) (e : Extent) : Gaps where
  byOffset := g.byOffset.insert e.offset e.size
  bySize := (g.erase e.offset).bySize.insert e
  agree := by
    intro other
    rw [Std.ExtTreeSet.mem_insert, (g.erase e.offset).agree, Std.ExtTreeMap.getElem?_insert,
      byOffset_erase, Std.ExtTreeMap.getElem?_erase]
    obtain ⟨_, _⟩ := e
    obtain ⟨_, _⟩ := other
    grind

/-- The length of the stretch that starts at an offset. -/
def sizeAt? (g : Gaps) (offset : Nat) : Option Nat := g.byOffset[offset]?

/-- The highest stretch that starts before an offset. -/
def before? (g : Gaps) (offset : Nat) : Option Extent :=
  (g.byOffset.getEntryLT? offset).map fun (offset, size) => { size, offset }

/-- The shortest stretch of at least so many bytes; of equally short ones the lowest. -/
def bestFit? (g : Gaps) (size : Nat) : Option Extent := g.bySize.getGE? { size, offset := 0 }

/-- Joins a stretch with the free one that ends where it starts, and takes that one out. -/
def joinBelow (g : Gaps) (e : Extent) : Extent × Gaps :=
  match g.before? e.offset with
  | some below =>
    if below.stop = e.offset then
      ({ size := below.size + e.size, offset := below.offset }, g.erase below.offset)
    else (e, g)
  | none => (e, g)

/-- Joins a stretch with the free one that starts where it ends, and takes that one out. -/
def joinAbove (g : Gaps) (e : Extent) : Extent × Gaps :=
  match g.sizeAt? e.stop with
  | some size => ({ e with size := e.size + size }, g.erase e.stop)
  | none => (e, g)

theorem before_eq_some_iff {g : Gaps} {offset : Nat} {e : Extent} :
    g.before? offset = some e ↔ g.sizeAt? e.offset = some e.size ∧ e.offset < offset
      ∧ ∀ other size, g.sizeAt? other = some size → other < offset → other ≤ e.offset := by
  obtain ⟨size, start⟩ := e
  have nearest : g.byOffset.getEntryLT? offset = some (start, size) ↔ _ :=
    Nearest.getEntryLT_eq_some_iff
  simp only [before?, sizeAt?, Option.map_eq_some_iff, Prod.exists, Extent.mk.injEq]
  grind

theorem bestFit_eq_some_iff {g : Gaps} {size : Nat} {e : Extent} :
    g.bestFit? size = some e ↔ g.sizeAt? e.offset = some e.size ∧ size ≤ e.size
      ∧ ∀ offset other, g.sizeAt? offset = some other → size ≤ other →
        e.size < other ∨ (e.size = other ∧ e.offset ≤ offset) := by
  have before (a b : Extent) : compare a b = .lt
      ↔ a.size < b.size ∨ (a.size = b.size ∧ a.offset < b.offset) := by
    rw [Extent.compare_eq, Ordering.then_eq_lt, Nat.compare_eq_lt, Nat.compare_eq_eq,
      Nat.compare_eq_lt]
  have fits (other : Extent) : (compare other ⟨size, 0⟩).isGE ↔ size ≤ other.size := by
    rw [← Ordering.ne_lt_iff_isGE, before]
    grind
  rw [bestFit?, Nearest.getGE_eq_some_iff, g.agree]
  simp only [fits, before, g.agree, sizeAt?]
  constructor
  · rintro ⟨here, large, least⟩
    refine ⟨here, large, fun offset other found enough => ?_⟩
    rcases least ⟨other, offset⟩ found enough with same | earlier
    · simp [← same]
    · grind
  · rintro ⟨here, large, least⟩
    refine ⟨here, large, fun other found enough => ?_⟩
    rcases least other.offset other.size found enough with shorter | ⟨same, lower⟩
    · exact .inr (.inl shorter)
    · rcases Nat.lt_or_eq_of_le lower with lower | alike
      · exact .inr (.inr ⟨same, lower⟩)
      · obtain ⟨_, _⟩ := e
        obtain ⟨_, _⟩ := other
        simp_all

end Gaps
end ManagedHeap
