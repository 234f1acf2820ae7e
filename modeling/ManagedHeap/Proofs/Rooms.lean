import ManagedHeap.Proofs.Tiling

/-!
When a space has room. An allocation fails exactly if no run of free bytes below the two limits of the
space is long enough: free stretches never lie side by side, so none of them is cut in two.
-/

namespace ManagedHeap

/-- A number of bytes, rounded up to whole pages. -/
def Size.paged (value : Nat) : Nat := (value + (page - 1)) / page * page

theorem Size.paged_le {value limit : Nat} (whole : limit % page = 0) :
    paged value ≤ limit ↔ value ≤ limit := by
  simp only [paged, page] at *
  omega

theorem Size.pagesUp_eq {value : Nat} (small : value + page < Word.limit) :
    pagesUp value = .ok (paged value) :=
  pagesUp_eq_ok.2 ⟨small, rfl⟩

namespace Gaps

/-- A stretch that is long enough is found if there is one. -/
theorem exists_bestFit {g : Gaps} {size offset length : Nat} (gap : g.sizeAt? offset = some length)
    (enough : size ≤ length) : ∃ e, g.bestFit? size = some e := by
  cases fit : g.bestFit? size with
  | some e => exact ⟨e, rfl⟩
  | none =>
    have listed : (⟨length, offset⟩ : Extent) ∈ g.bySize := (g.agree _).2 gap
    have short := Nearest.getGE_eq_none_iff.1 fit _ listed
    rw [Extent.compare_eq, Ordering.then_eq_lt, Nat.compare_eq_lt, Nat.compare_eq_lt] at short
    dsimp only at short
    omega

end Gaps

namespace Space

variable {s s' : Space} {limit first size offset length n : Nat} {result : Option Nat}

/-- So many bytes from an offset on lie below the limit, and no chunk reaches into them. -/
structure Room (s : Space) (limit first size : Nat) : Prop where
  within : first + size ≤ limit
  clear : ∀ offset length, s.recorded? offset = some length →
    offset + length ≤ first ∨ first + size ≤ offset

/-- There is room below the limit for the chunk that serves the request. -/
def Serves (s : Space) (limit n : Nat) : Prop :=
  ∃ size, chunkSizeFor n = some size ∧ ∃ first, s.Room limit first size

/-- Which room there is depends on the chunks alone. -/
theorem serves_congr (recorded : s'.recorded? = s.recorded?) :
    s'.Serves limit n ↔ s.Serves limit n := by
  constructor
  · rintro ⟨size, fits, first, within, clear⟩
    exact ⟨size, fits, first, within, recorded ▸ clear⟩
  · rintro ⟨size, fits, first, within, clear⟩
    exact ⟨size, fits, first, within, recorded ▸ clear⟩

theorem serves_max {limit' : Nat} :
    s.Serves (max limit limit') n ↔ s.Serves limit n ∨ s.Serves limit' n := by
  constructor
  · rintro ⟨size, fits, first, within, clear⟩
    rcases Nat.le_total limit limit' with less | less
    · rw [Nat.max_eq_right less] at within
      exact .inr ⟨size, fits, first, within, clear⟩
    · rw [Nat.max_eq_left less] at within
      exact .inl ⟨size, fits, first, within, clear⟩
  · rintro (⟨size, fits, first, within, clear⟩ | ⟨size, fits, first, within, clear⟩)
    · exact ⟨size, fits, first, Nat.le_trans within (Nat.le_max_left ..), clear⟩
    · exact ⟨size, fits, first, Nat.le_trans within (Nat.le_max_right ..), clear⟩

theorem not_serves_iff : ¬ s.Serves limit n ↔ chunkSizeFor n = none
    ∨ ∃ size, chunkSizeFor n = some size ∧ ∀ first, ¬ s.Room limit first size := by
  cases fits : chunkSizeFor n with
  | none => simp [Serves, fits]
  | some size => simp [Serves, fits]

/-- Room for a chunk is inside one free stretch, or above everything. -/
theorem Seamless.room_cases (seamless : s.Seamless) (room : s.Room limit first size)
    (positive : 0 < size) : (∃ offset length, s.free.sizeAt? offset = some length ∧ size ≤ length)
      ∨ s.top ≤ first := by
  obtain ⟨laid, woven, -, -⟩ := id seamless
  rcases Nat.lt_or_ge first s.top with below | above
  · obtain ⟨inUse, offset, length, piece, low, high⟩ := seamless.covered below
    cases inUse with
    | true =>
      have apart := room.clear offset length (woven.piece_iff.1 piece)
      omega
    | false =>
      -- What follows the free stretch is a chunk, which the room does not reach.
      have chunk := woven.gap_next offset length piece
      obtain ⟨next, recorded⟩ := Option.isSome_iff_exists.1 (mem_chunks_iff.1 chunk)
      have after := laid.positive true _ _ (woven.piece_iff.2 recorded)
      have apart := room.clear _ next recorded
      exact .inl ⟨offset, length, piece, by omega⟩
  · exact .inr above

/-- Above `top` there is room up to the limits. -/
theorem extendTop_eq (whole : s.allowed % Size.page = 0) (pages : s.capacity % Size.page = 0)
    (small : s.capacity < Size.unreservable) (within : s.top + size ≤ min s.allowed s.capacity) :
    ∃ footprint, s.extendTop? size
      = .ok (some (s.top, { s with top := s.top + size, footprint })) := by
  obtain ⟨low, high⟩ := Nat.le_min.1 within
  have word : ¬ Word.limit ≤ s.top + size := by
    simp only [Size.unreservable, Word.limit] at *
    omega
  have up : Size.pagesUp (s.top + size) = .ok (Size.paged (s.top + size)) := by
    refine Size.pagesUp_eq ?_
    simp only [Size.unreservable, Word.limit, Size.page] at *
    omega
  have fits : ¬ (s.allowed < Size.paged (s.top + size)
      ∨ s.capacity < Size.paged (s.top + size)) := by
    rintro (less | less)
    · exact Nat.not_lt.2 ((Size.paged_le whole).2 low) less
    · exact Nat.not_lt.2 ((Size.paged_le pages).2 high) less
  simp only [extendTop?, if_neg word, up, bind, Except.bind, pure, Except.pure]
  split
  · rw [if_neg]
    · exact ⟨_, rfl⟩
    · simpa using fits
  · exact ⟨_, rfl⟩

/-- Where a chunk was handed out there was room for it. -/
theorem Carved.room {taken : Nat} (carved : Carved s offset taken s') (allowed : s.footprint ≤ s.allowed)
    (enough : size ≤ taken) : s.Room (min s.allowed s.capacity) offset size := by
  obtain ⟨region, -, recorded⟩ := carved.kept
  have below := carved.below
  have top := carved.laid.top_le
  have footprint := carved.laid.footprint_le
  have grown := carved.footprint
  rw [show s'.capacity = s.capacity from congrArg Region.size region] at footprint
  refine ⟨by omega, fun other length known => ?_⟩
  rw [← recorded] at known
  obtain ⟨chunk, found, rfl⟩ := Option.map_eq_some_iff.1 known
  have started : other ∈ s'.chunks := mem_chunks_iff.2 (by rw [known]; rfl)
  have long := size_le_extent found
  have apart := carved.vacant true other _ (piece_chunk started)
  omega

theorem short_of_takeFree (nothing : s.takeFree? size = none) {x length : Nat}
    (gap : s.free.sizeAt? x = some length) : length < size := by
  rcases Nat.lt_or_ge length size with short | long
  · exact short
  · obtain ⟨e, fit⟩ := Gaps.exists_bestFit gap long
    rw [takeFree?, fit] at nothing
    dsimp only at nothing
    split at nothing <;> cases nothing

/-- An allocation fails for want of room only. -/
theorem Seamless.calloc_none_iff (seamless : s.Seamless) (pages : s.capacity % Size.page = 0)
    (small : s.capacity < Size.unreservable) (run : s.calloc n = .ok (result, s')) :
    result = none ↔ ¬ s.Serves (min s.allowed s.capacity) n := by
  obtain ⟨laid, woven, allowed, whole⟩ := id seamless
  constructor
  · rintro rfl ⟨size, fits, first, room⟩
    have positive : 0 < size := Nat.lt_of_lt_of_le (by decide) (chunkSizeFor_eq fits).2.1
    have within := room.within
    simp only [Space.calloc, fits, bind, Except.bind, pure, Except.pure] at run
    rw [if_neg (by omega)] at run
    split at run
    case h_1 => cases run
    case h_2 nothing =>
      rcases seamless.room_cases room positive with ⟨offset, length, gap, enough⟩ | above
      · exact absurd (short_of_takeFree nothing gap) (Nat.not_lt.2 enough)
      · obtain ⟨footprint, extend⟩ := extendTop_eq whole pages small
          (show s.top + size ≤ min s.allowed s.capacity by omega)
        rw [extend] at run
        cases run
  · intro none
    rcases calloc_cases laid run with
      ⟨nothing, -⟩ | ⟨offset, taken, needed, s₁, rfl, fits, enough, carved, -⟩
    · exact nothing
    · exact absurd ⟨needed, fits, offset, carved.room allowed enough⟩ none

/-- A cap on growth comes to whole pages, and not to less than was obtained. -/
theorem setAllowed_paged {bytes : Nat} (pages : s.footprint % Size.page = 0)
    (small : s.footprint < Size.unreservable) (few : bytes < Size.unreservable) :
    s.setAllowed bytes = .ok { s with allowed := max s.footprint (Size.paged bytes) } := by
  obtain ⟨allowed, run, within, whole, above, near⟩ := setAllowed_eq pages small few
  have same : allowed = max s.footprint (Size.paged bytes) := by
    simp only [Size.paged, Size.page] at *
    omega
  exact same ▸ run

end Space

end ManagedHeap
