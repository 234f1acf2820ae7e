import ManagedHeap.Proofs.Rooms

/-!
Which chunk an allocation hands out. It takes the free stretch that fits best, and only where none is
long enough the space above `top`; it fails only where no run of free bytes below the limits of the
space is long enough, and then nothing has changed.
-/

namespace ManagedHeap

namespace Space

variable {s s' : Space} {size offset taken n : Nat}

/-- The free stretch that fits so many bytes best: the shortest that is long enough, and the lowest of
those. -/
structure FitsBest (s : Space) (size : Nat) (e : Extent) : Prop where
  gap : s.free.sizeAt? e.offset = some e.size
  enough : size ≤ e.size
  least : ∀ offset other, s.free.sizeAt? offset = some other → size ≤ other →
    e.size < other ∨ e.size = other ∧ e.offset ≤ offset

/-- Where room for a chunk of so many bytes was found. -/
inductive Chosen (s : Space) (size offset taken : Nat) (s' : Space) : Prop where
  /-- In the free stretch that fits best. Neither `top` nor the footprint has moved. -/
  | recycled (e : Extent) : s.FitsBest size e → offset = e.offset → taken ≤ e.size →
    s'.top = s.top → s'.footprint = s.footprint → Chosen s size offset taken s'
  /-- At `top`, because no free stretch is long enough. -/
  | raised : (∀ x length, s.free.sizeAt? x = some length → length < size) → offset = s.top →
    taken = size → s'.top = s.top + size → Chosen s size offset taken s'

theorem Chosen.place (chosen : Chosen s size offset taken s') :
    Chosen s size offset taken (s'.place offset taken n) := by
  cases chosen with
  | recycled e best here within top footprint => exact .recycled e best here within top footprint
  | raised none here whole top => exact .raised none here whole top

theorem takeFree_chosen (take : s.takeFree? size = some (offset, taken, s')) :
    Chosen s size offset taken s' := by
  obtain ⟨free, same⟩ := takeFree_frame take
  have top : s'.top = s.top := by rw [same]
  have footprint : s'.footprint = s.footprint := by rw [same]
  unfold takeFree? at take
  split at take
  · cases take
  case h_2 e fit =>
    obtain ⟨gap, enough, least⟩ := Gaps.bestFit_eq_some_iff.1 fit
    have best : s.FitsBest size e := ⟨gap, enough, least⟩
    dsimp only at take
    split at take
    · cases take
      exact .recycled e best rfl enough top footprint
    · cases take
      exact .recycled e best rfl (Nat.le_refl _) top footprint

theorem extendTop_raises (extend : s.extendTop? size = .ok (some (offset, s'))) :
    offset = s.top ∧ s'.top = s.top + size := by
  simp only [extendTop?, bind, Except.bind, pure, Except.pure] at extend
  split at extend
  · cases extend
  split at extend
  · split at extend
    · cases extend
    split at extend
    · cases extend
    · cases extend
      exact ⟨rfl, rfl⟩
  · cases extend
    exact ⟨rfl, rfl⟩

theorem MakesRoom.chosen (room : s.MakesRoom size offset taken s') : Chosen s size offset taken s' := by
  cases room with
  | recycled take => exact takeFree_chosen take
  | raised nothing same extend =>
    obtain ⟨here, top⟩ := extendTop_raises extend
    exact .raised (fun _ _ => short_of_takeFree nothing) here same top

theorem Seamless.calloc_chooses (seamless : s.Seamless)
    (few : s.capacity < Chunk.fieldLimit * Size.granule) {address : Nat}
    (run : s.calloc n = .ok (some address, s')) :
    ∃ size offset taken, chunkSizeFor n = some size ∧ address = s.base + offset ∧ size ≤ taken
      ∧ Chosen s size offset taken s'
      ∧ ∀ x, s'.recorded? x = if x = offset then some taken else s.recorded? x := by
  rcases calloc_eq run with ⟨none, -⟩ | ⟨size, offset, taken, s₁, fits, here, room, rfl⟩
  · cases none
  obtain ⟨carved, enough⟩ := room.carved seamless.laid fits
  refine ⟨size, offset, taken, fits, Option.some.inj here, enough, room.chosen.place, fun x => ?_⟩
  rw [recorded_place carved.whole (carved.short few), carved.kept.2.2]

/-- What a new space comes to stays seamless, over the whole pages that were reserved for it. -/
theorem Runs.reached {name : String} {base start capacity : Nat}
    {history : List (Operation × Option Nat)}
    (create : Space.create name base start capacity = .ok (.ok s))
    (few : s.capacity < Chunk.fieldLimit * Size.granule) (runs : s.Runs history s') :
    s'.Seamless ∧ s'.region = s.region ∧ s'.capacity % Size.page = 0
      ∧ s'.capacity < Size.unreservable := by
  obtain ⟨seamless, region⟩ := runs.seamless (seamless_create create) few
  obtain ⟨-, -, up, small, -⟩ := create_eq create
  have same : s'.capacity = s.capacity := congrArg Region.size region
  rw [same]
  exact ⟨seamless, region, (Size.pagesUp_bounds up).2.2, small⟩

/-- An allocation comes to its end. It fails if and only if no run of bytes below the two limits is
long enough and free of chunks, and then the space is as it was. Otherwise the chunk lies in the free
stretch that fits best, or at `top` where no free stretch is long enough. -/
theorem calloc_best_fit {name : String} {base start capacity : Nat}
    {history : List (Operation × Option Nat)}
    (create : Space.create name base start capacity = .ok (.ok s))
    (few : s.capacity < Chunk.fieldLimit * Size.granule) (runs : s.Runs history s') (n : Nat) :
    ∃ result s'', s'.calloc n = .ok (result, s'')
      ∧ (result = none ↔ chunkSizeFor n = none ∨ ∃ size, chunkSizeFor n = some size
          ∧ ∀ first, ¬ s'.Room (min s'.allowed s'.capacity) first size)
      ∧ (result = none → s'' = s')
      ∧ ∀ address, result = some address → ∃ size offset taken, chunkSizeFor n = some size
          ∧ address = s'.base + offset ∧ size ≤ taken ∧ Chosen s' size offset taken s''
          ∧ ∀ x, s''.recorded? x = if x = offset then some taken else s'.recorded? x := by
  obtain ⟨seamless, region, pages, small⟩ := runs.reached create few
  have few' : s'.capacity < Chunk.fieldLimit * Size.granule := by
    rw [Space.capacity, region]
    exact few
  obtain ⟨result, s'', run⟩ := calloc_total seamless.laid small n
  refine ⟨result, s'', run, ?_, ?_, ?_⟩
  · rw [seamless.calloc_none_iff pages small run, not_serves_iff]
  · rintro rfl
    rcases calloc_cases seamless.laid run with ⟨-, same⟩ | ⟨_, _, _, _, none, -⟩
    · exact same
    · cases none
  · rintro address rfl
    exact seamless.calloc_chooses few' run

/-- Three chunks between others are freed, the last two of them equally long. -/
def holed : List Operation :=
  let first := Region.arenaBase 0
  [.calloc 56, .calloc 8, .calloc 40, .calloc 8, .calloc 40, .calloc 8, .release first,
    .release (first + 80), .release (first + 144)]

/-- Of the two that fit best the lower is taken, and all of it, since the rest would be too short for a
chunk of its own. -/
theorem holed_best_fit :
    (tight.runAll holed).2.free.toList = [⟨64, 0⟩, ⟨48, 80⟩, ⟨48, 144⟩]
      ∧ ∃ s' taken, (tight.runAll holed).2.calloc 30 = .ok (some (Region.arenaBase 0 + 80), s')
        ∧ 40 ≤ taken ∧ Chosen (tight.runAll holed).2 40 80 taken s' := by
  have base : (tight.runAll holed).2.base = Region.arenaBase 0 := by decide +kernel
  have answer : ((tight.runAll holed).2.calloc 30).toOption.map Prod.fst
      = some (some (Region.arenaBase 0 + 80)) := by decide +kernel
  obtain ⟨result, s', run, -, -, placed⟩ :=
    calloc_best_fit tight_created (by decide +kernel) (Runs.nil.runAll holed) 30
  rw [run] at answer
  cases answer
  obtain ⟨size, offset, taken, fits, here, enough, chosen, -⟩ := placed _ rfl
  cases fits
  have same : offset = 80 := by omega
  exact ⟨by decide +kernel, s', taken, run, enough, same ▸ chosen⟩

end Space

end ManagedHeap
