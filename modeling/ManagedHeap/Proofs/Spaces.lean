import ManagedHeap.Proofs.Sizes
import ManagedHeap.Space

/-!
How a space is laid out. The pieces of a space are its allocated chunks and its free stretches. They
lie apart from each other and below `top`, so an allocation never hands out memory that is in use.
-/

namespace ManagedHeap

namespace Gaps

theorem sizeAt_erase (g : Gaps) (offset other : Nat) :
    (g.erase offset).sizeAt? other = if other = offset then none else g.sizeAt? other := by
  simp only [sizeAt?, byOffset_erase, Std.ExtTreeMap.getElem?_erase, Nat.compare_eq_eq]
  by_cases same : other = offset
  · rw [if_pos same, if_pos same.symm]
  · rw [if_neg same, if_neg fun h => same h.symm]

theorem sizeAt_insert (g : Gaps) (e : Extent) (other : Nat) :
    (g.insert e).sizeAt? other = if other = e.offset then some e.size else g.sizeAt? other := by
  simp only [sizeAt?, insert, Std.ExtTreeMap.getElem?_insert, Nat.compare_eq_eq]
  by_cases same : other = e.offset
  · rw [if_pos same, if_pos same.symm]
  · rw [if_neg same, if_neg fun h => same h.symm]

end Gaps

namespace Space

/-- The bytes that a chunk was given at the least: those on its record, and those that a chunk for
the request takes. -/
def extent (s : Space) (offset : Nat) : Nat :=
  max ((s.chunks[offset]?.map Chunk.size).getD 0) ((chunkSizeFor (s.requestedAt offset)).getD 0)

/-- An allocated chunk or a free stretch, by its offset and length. -/
def Piece (s : Space) (inUse : Bool) (offset size : Nat) : Prop :=
  match inUse with
  | true => offset ∈ s.chunks ∧ size = s.extent offset
  | false => s.free.sizeAt? offset = some size

/-- No piece reaches into the offsets from `first` on and before `stop`. -/
def Vacant (s : Space) (first stop : Nat) : Prop :=
  ∀ inUse offset size, s.Piece inUse offset size → offset + size ≤ first ∨ stop ≤ offset

/-- The pieces lie apart, at granules, below `top` and within what was obtained. -/
structure Laid (s : Space) : Prop where
  apart : ∀ inUse offset size inUse' offset' size', s.Piece inUse offset size →
    s.Piece inUse' offset' size' → (inUse = inUse' ∧ offset = offset')
      ∨ offset + size ≤ offset' ∨ offset' + size' ≤ offset
  positive : ∀ inUse offset size, s.Piece inUse offset size → 0 < size
  aligned : ∀ inUse offset size, s.Piece inUse offset size →
    offset % Size.granule = 0 ∧ size % Size.granule = 0
  below : ∀ inUse offset size, s.Piece inUse offset size → offset + size ≤ s.top
  requested : ∀ offset ∈ s.chunks, ∃ size, chunkSizeFor (s.requestedAt offset) = some size
  top_aligned : s.top % Size.granule = 0
  top_le : s.top ≤ s.footprint
  footprint_le : s.footprint ≤ s.capacity
  footprint_pages : s.footprint % Size.page = 0

variable {s s' : Space} {offset size n first stop : Nat} {inUse : Bool}

theorem chunkSizeFor_eq (fits : chunkSizeFor n = some size) :
    size % Size.granule = 0 ∧ Size.minChunk ≤ size ∧ n + Size.chunkOverhead ≤ size := by
  simp only [chunkSizeFor] at fits
  split at fits
  · cases fits
    simp only [Size.chunkOverhead, Size.granule, Size.minChunk]
    omega
  · cases fits

theorem extent_eq (s : Space) (offset : Nat) : s.extent offset
    = max ((s.chunks[offset]?.map Chunk.size).getD 0)
        ((chunkSizeFor (s.requestedAt offset)).getD 0) := rfl

theorem size_le_extent {chunk : Chunk} (found : s.chunks[offset]? = some chunk) :
    chunk.size ≤ s.extent offset := by
  rw [extent_eq, found, Option.map_some, Option.getD_some]
  exact Nat.le_max_left _ _

/-! ### A chunk taken out -/

theorem mem_erase_chunk (chunks : s'.chunks = s.chunks.erase offset) :
    other ∈ s'.chunks ↔ other ≠ offset ∧ other ∈ s.chunks := by
  rw [chunks, Std.ExtTreeMap.mem_erase]
  simp only [ne_eq, Nat.compare_eq_eq]
  exact and_congr_left fun _ => not_congr eq_comm

theorem getElem?_erase_chunk (chunks : s'.chunks = s.chunks.erase offset) (other : Nat) :
    s'.chunks[other]? = if other = offset then none else s.chunks[other]? := by
  rw [chunks, Std.ExtTreeMap.getElem?_erase]
  simp only [Nat.compare_eq_eq]
  by_cases same : other = offset
  · rw [if_pos same, if_pos same.symm]
  · rw [if_neg same, if_neg fun h => same h.symm]

theorem extent_erase_chunk (chunks : s'.chunks = s.chunks.erase offset)
    (requests : s'.requests = s.requests) (elsewhere : other ≠ offset) :
    s'.extent other = s.extent other := by
  rw [extent_eq, extent_eq, getElem?_erase_chunk chunks, if_neg elsewhere, requestedAt, requestedAt,
    requests]

/-- The layout depends on the pieces and on the bounds only. -/
theorem Laid.congr (laid : s.Laid) (chunks : s'.chunks = s.chunks)
    (requests : s'.requests = s.requests) (free : s'.free = s.free) (top : s'.top = s.top)
    (footprint : s'.footprint = s.footprint) (region : s'.region = s.region) : s'.Laid := by
  obtain ⟨name, region', chunks', free', top', footprint', allowed', words', requests'⟩ := s'
  subst chunks requests free top footprint region
  exact ⟨laid.apart, laid.positive, laid.aligned, laid.below, laid.requested, laid.top_aligned,
    laid.top_le, laid.footprint_le, laid.footprint_pages⟩

/-- A space may have fewer pieces. -/
theorem Laid.of_pieces (laid : s.Laid)
    (pieces : ∀ inUse offset size, s'.Piece inUse offset size → s.Piece inUse offset size)
    (requested : ∀ offset ∈ s'.chunks, ∃ size, chunkSizeFor (s'.requestedAt offset) = some size)
    (top : s'.top = s.top) (footprint : s'.footprint = s.footprint)
    (region : s'.region = s.region) : s'.Laid where
  apart _ _ _ _ _ _ piece piece' := laid.apart _ _ _ _ _ _ (pieces _ _ _ piece) (pieces _ _ _ piece')
  positive _ _ _ piece := laid.positive _ _ _ (pieces _ _ _ piece)
  aligned _ _ _ piece := laid.aligned _ _ _ (pieces _ _ _ piece)
  below _ _ _ piece := top ▸ laid.below _ _ _ (pieces _ _ _ piece)
  requested := requested
  top_aligned := top ▸ laid.top_aligned
  top_le := by
    rw [top, footprint]
    exact laid.top_le
  footprint_le := by
    rw [footprint, capacity, region]
    exact laid.footprint_le
  footprint_pages := footprint ▸ laid.footprint_pages

theorem Vacant.mono {first' stop' : Nat} (vacant : s.Vacant first stop) (low : first ≤ first')
    (high : stop' ≤ stop) : s.Vacant first' stop' := by
  intro inUse offset size piece
  rcases vacant inUse offset size piece with before | after
  · exact .inl (Nat.le_trans before low)
  · exact .inr (Nat.le_trans high after)

/-- Two vacant stretches that touch are one. -/
theorem Vacant.append (laid : s.Laid) {middle : Nat} (lower : s.Vacant first middle)
    (upper : s.Vacant middle stop) : s.Vacant first stop := by
  intro inUse offset size piece
  have positive := laid.positive inUse offset size piece
  have low := lower inUse offset size piece
  have high := upper inUse offset size piece
  omega

theorem Laid.vacant_above (laid : s.Laid) : s.Vacant s.top stop :=
  fun inUse offset size piece => .inl (laid.below inUse offset size piece)

theorem Laid.extent_large (laid : s.Laid) (chunk : offset ∈ s.chunks) :
    Size.minChunk ≤ s.extent offset
      ∧ s.requestedAt offset + Size.chunkOverhead ≤ s.extent offset := by
  obtain ⟨size, fits⟩ := laid.requested offset chunk
  have bounds := chunkSizeFor_eq fits
  rw [extent_eq, fits, Option.getD_some]
  omega

theorem piece_chunk (chunk : offset ∈ s.chunks) : s.Piece true offset (s.extent offset) :=
  ⟨chunk, rfl⟩

/-! ### Taking pieces out and putting them in -/

/-- Taking a free stretch out leaves its place vacant. -/
theorem Laid.erase_gap (laid : s.Laid) (gap : s.free.sizeAt? offset = some size) :
    Laid { s with free := s.free.erase offset }
      ∧ Vacant { s with free := s.free.erase offset } offset (offset + size) := by
  have pieces : ∀ inUse other length, Piece { s with free := s.free.erase offset } inUse other length →
      s.Piece inUse other length ∧ (inUse = true ∨ other ≠ offset) := by
    intro inUse other length piece
    cases inUse with
    | true => exact ⟨piece, .inl rfl⟩
    | false =>
      simp only [Piece, Gaps.sizeAt_erase] at piece
      split at piece
      · cases piece
      case isFalse different => exact ⟨piece, .inr different⟩
  refine ⟨laid.of_pieces (fun _ _ _ piece => (pieces _ _ _ piece).1) laid.requested rfl rfl rfl, ?_⟩
  intro inUse other length piece
  obtain ⟨old, different⟩ := pieces inUse other length piece
  rcases laid.apart inUse other length false offset size old gap with ⟨kind, same⟩ | apart
  · rcases different with used | elsewhere
    · cases kind.symm.trans used
    · exact absurd same elsewhere
  · exact apart

/-- Taking a chunk out leaves its place vacant. -/
theorem Laid.erase_chunk (laid : s.Laid) (chunk : offset ∈ s.chunks) :
    Laid { s with chunks := s.chunks.erase offset }
      ∧ Vacant { s with chunks := s.chunks.erase offset } offset (offset + s.extent offset) := by
  have pieces : ∀ inUse other length,
      Piece { s with chunks := s.chunks.erase offset } inUse other length →
        s.Piece inUse other length ∧ (inUse = false ∨ other ≠ offset) := by
    intro inUse other length piece
    cases inUse with
    | false => exact ⟨piece, .inl rfl⟩
    | true =>
      obtain ⟨left, rfl⟩ := piece
      obtain ⟨different, here⟩ := (mem_erase_chunk rfl).1 left
      exact ⟨⟨here, extent_erase_chunk rfl rfl different⟩, .inr different⟩
  constructor
  · refine laid.of_pieces (fun _ _ _ piece => (pieces _ _ _ piece).1) ?_ rfl rfl rfl
    intro other here
    exact laid.requested other (Std.ExtTreeMap.mem_of_mem_erase here)
  · intro inUse other length piece
    obtain ⟨old, different⟩ := pieces inUse other length piece
    rcases laid.apart inUse other length true offset _ old (piece_chunk chunk) with
      ⟨kind, same⟩ | apart
    · rcases different with free | elsewhere
      · cases kind.symm.trans free
      · exact absurd same elsewhere
    · exact apart

/-- A piece may be put where the space is vacant. -/
theorem Laid.insert_piece (laid : s.Laid) (inUse : Bool) (vacant : s.Vacant offset (offset + size))
    (pieces : ∀ inUse' other length, s'.Piece inUse' other length →
      s.Piece inUse' other length ∨ (inUse' = inUse ∧ other = offset ∧ length ≤ size ∧ 0 < length
        ∧ length % Size.granule = 0))
    (requested : ∀ offset ∈ s'.chunks, ∃ size, chunkSizeFor (s'.requestedAt offset) = some size)
    (aligned : offset % Size.granule = 0) (below : offset + size ≤ s'.top)
    (rises : s.top ≤ s'.top) (top_aligned : s'.top % Size.granule = 0)
    (top_le : s'.top ≤ s'.footprint)
    (footprint_le : s'.footprint ≤ s'.capacity) (footprint_pages : s'.footprint % Size.page = 0) :
    s'.Laid where
  apart := by
    intro inUse₁ offset₁ size₁ inUse₂ offset₂ size₂ piece₁ piece₂
    rcases pieces _ _ _ piece₁ with old₁ | ⟨kind₁, here₁, least₁, -, -⟩
    · rcases pieces _ _ _ piece₂ with old₂ | ⟨kind₂, here₂, least₂, -, -⟩
      · exact laid.apart _ _ _ _ _ _ old₁ old₂
      · have apart := vacant _ _ _ old₁
        omega
    · rcases pieces _ _ _ piece₂ with old₂ | ⟨kind₂, here₂, least₂, -, -⟩
      · have apart := vacant _ _ _ old₂
        omega
      · exact .inl ⟨kind₁.trans kind₂.symm, here₁.trans here₂.symm⟩
  positive := by
    intro inUse' other length piece
    rcases pieces _ _ _ piece with old | ⟨-, -, -, positive, -⟩
    · exact laid.positive _ _ _ old
    · exact positive
  aligned := by
    intro inUse' other length piece
    rcases pieces _ _ _ piece with old | ⟨-, rfl, -, -, whole⟩
    · exact laid.aligned _ _ _ old
    · exact ⟨aligned, whole⟩
  below := by
    intro inUse' other length piece
    rcases pieces _ _ _ piece with old | ⟨-, here, least, -, -⟩
    · exact Nat.le_trans (laid.below _ _ _ old) rises
    · omega
  requested := requested
  top_aligned := top_aligned
  top_le := top_le
  footprint_le := footprint_le
  footprint_pages := footprint_pages

theorem Laid.insert_gap (laid : s.Laid) {e : Extent} (vacant : s.Vacant e.offset e.stop)
    (positive : 0 < e.size) (aligned : e.offset % Size.granule = 0)
    (whole : e.size % Size.granule = 0) (below : e.stop ≤ s.top) :
    Laid { s with free := s.free.insert e } := by
  refine laid.insert_piece false vacant ?_ laid.requested aligned below
    (Nat.le_refl _) laid.top_aligned laid.top_le laid.footprint_le laid.footprint_pages
  intro inUse other length piece
  cases inUse with
  | true => exact .inl piece
  | false =>
    simp only [Piece, Gaps.sizeAt_insert] at piece
    split at piece
    case isTrue here =>
      cases piece
      exact .inr ⟨rfl, here, Nat.le_refl _, positive, whole⟩
    case isFalse => exact .inl piece

/-- Where a stretch that was put in did not reach, the space is as vacant as it was. -/
theorem Vacant.insert_gap {e : Extent} (vacant : s.Vacant first stop)
    (apart : e.stop ≤ first ∨ stop ≤ e.offset) :
    Vacant { s with free := s.free.insert e } first stop := by
  intro inUse other length piece
  cases inUse with
  | true => exact vacant true other length piece
  | false =>
    simp only [Piece, Gaps.sizeAt_insert] at piece
    split at piece
    case isTrue here =>
      cases piece
      rw [here]
      exact apart
    case isFalse => exact vacant false other length piece

/-! ### Allocating -/

theorem Laid.raise_top (laid : s.Laid) {top footprint : Nat} (rises : s.top ≤ top)
    (aligned : top % Size.granule = 0) (top_le : top ≤ footprint)
    (footprint_le : footprint ≤ s.capacity) (pages : footprint % Size.page = 0) :
    Laid { s with top, footprint } where
  apart := laid.apart
  positive := laid.positive
  aligned := laid.aligned
  below _ _ _ piece := Nat.le_trans (laid.below _ _ _ piece) rises
  requested := laid.requested
  top_aligned := aligned
  top_le := top_le
  footprint_le := footprint_le
  footprint_pages := pages

theorem Vacant.not_mem (vacant : s.Vacant offset (offset + size)) (positive : 0 < size)
    (laid : s.Laid) : offset ∉ s.chunks := by
  intro chunk
  have piece := piece_chunk chunk
  have extent := laid.positive _ _ _ piece
  have apart := vacant _ _ _ piece
  omega

theorem mem_place {other : Nat} :
    other ∈ (s.place offset size n).chunks ↔ other = offset ∨ other ∈ s.chunks := by
  simp only [place, Std.ExtTreeMap.mem_insert, Nat.compare_eq_eq]
  exact or_congr eq_comm Iff.rfl

theorem requestedAt_place {other : Nat} : (s.place offset size n).requestedAt other
    = if other = offset then n else s.requestedAt other := by
  simp only [requestedAt, place, Std.ExtTreeMap.getD_insert, Nat.compare_eq_eq]
  by_cases here : other = offset
  · rw [if_pos here, if_pos here.symm]
  · rw [if_neg here, if_neg fun same => here same.symm]

/-- The other chunks are as long as they were. -/
theorem extent_place {other : Nat} (elsewhere : other ≠ offset) :
    (s.place offset size n).extent other = s.extent other := by
  have record : (s.place offset size n).chunks[other]? = s.chunks[other]? := by
    simp only [Space.place, Std.ExtTreeMap.getElem?_insert, Nat.compare_eq_eq]
    exact if_neg elsewhere.symm
  rw [extent_eq, extent_eq, record, requestedAt_place, if_neg elsewhere]

theorem Laid.place (laid : s.Laid) {needed : Nat} (fits : chunkSizeFor n = some needed)
    (enough : needed ≤ size) (vacant : s.Vacant offset (offset + size))
    (aligned : offset % Size.granule = 0) (below : offset + size ≤ s.top) :
    (s.place offset size n).Laid := by
  have needs := chunkSizeFor_eq fits
  refine laid.insert_piece true vacant ?_ ?_ aligned below (Nat.le_refl _)
    laid.top_aligned laid.top_le laid.footprint_le laid.footprint_pages
  · intro inUse other length piece
    cases inUse with
    | false => exact .inl piece
    | true =>
      obtain ⟨chunk, rfl⟩ := piece
      by_cases here : other = offset
      · subst here
        have record : (s.place other size n).chunks[other]?
            = some { granules := size / Size.granule % Chunk.fieldLimit } := by
          simp [Space.place]
        have recorded : size / Size.granule % Chunk.fieldLimit * Size.granule ≤ size :=
          Nat.le_trans (Nat.mul_le_mul_right _ (Nat.mod_le _ _)) (Nat.div_mul_le_self _ _)
        have extent : (s.place other size n).extent other
            = max (size / Size.granule % Chunk.fieldLimit * Size.granule) needed := by
          rw [extent_eq, record, requestedAt_place, if_pos rfl, fits]
          rfl
        rw [extent]
        simp only [Size.granule, Size.minChunk] at *
        exact .inr ⟨trivial, trivial, by omega, by omega, by omega⟩
      · have old : other ∈ s.chunks := (mem_place.1 chunk).resolve_left here
        exact .inl ⟨old, extent_place here⟩
  · intro other chunk
    rw [requestedAt_place]
    by_cases here : other = offset
    · exact ⟨needed, by rw [if_pos here, fits]⟩
    · rw [if_neg here]
      exact laid.requested other ((mem_place.1 chunk).resolve_left here)

/-- A chunk was placed at an offset where there was none. -/
structure Placed (s s' : Space) (offset n : Nat) : Prop where
  fresh : offset ∉ s.chunks
  chunks : ∀ other, other ∈ s'.chunks ↔ other = offset ∨ other ∈ s.chunks
  laid : s'.Laid
  region : s'.region = s.region

theorem takeFree_vacant (laid : s.Laid) (large : 0 < size) (whole : size % Size.granule = 0)
    {taken : Nat} (take : s.takeFree? size = some (offset, taken, s')) :
    s'.Laid ∧ s'.Vacant offset (offset + taken) ∧ size ≤ taken
      ∧ offset % Size.granule = 0 ∧ offset + taken ≤ s'.top
      ∧ s'.chunks = s.chunks ∧ s'.region = s.region := by
  unfold takeFree? at take
  cases fit : s.free.bestFit? size with
  | none =>
    rw [fit] at take
    cases take
  | some found =>
    rw [fit] at take
    obtain ⟨gap, enough, -⟩ := Gaps.bestFit_eq_some_iff.1 fit
    have piece : s.Piece false found.offset found.size := gap
    have aligned := laid.aligned _ _ _ piece
    have below := laid.below _ _ _ piece
    obtain ⟨others, vacant⟩ := laid.erase_gap gap
    dsimp only at take
    split at take
    case isTrue splits =>
      cases take
      have left : Vacant { s with free := s.free.erase found.offset } (found.offset + size)
          (found.offset + size + (found.size - size)) := vacant.mono (by omega) (by omega)
      refine ⟨?_, ?_, Nat.le_refl _, aligned.1, ?_, rfl, rfl⟩
      · refine others.insert_gap left ?_ ?_ ?_ ?_
        · exact Nat.lt_of_lt_of_le (by decide) splits
        · simp only [Size.granule] at *
          omega
        · simp only [Size.granule] at *
          omega
        · simp only [Extent.stop]
          omega
      · exact (vacant.mono (Nat.le_refl _) (by omega)).insert_gap (.inr (Nat.le_refl _))
      · exact Nat.le_trans (by omega) below
    case isFalse =>
      cases take
      exact ⟨others, vacant, enough, aligned.1, below, rfl, rfl⟩

theorem extendTop_vacant (laid : s.Laid) (whole : size % Size.granule = 0)
    (extend : s.extendTop? size = .ok (some (offset, s'))) :
    s'.Laid ∧ s'.Vacant offset (offset + size) ∧ offset % Size.granule = 0
      ∧ offset + size ≤ s'.top ∧ s'.chunks = s.chunks ∧ s'.region = s.region := by
  have aligned : (s.top + size) % Size.granule = 0 := by
    have top := laid.top_aligned
    simp only [Size.granule] at *
    omega
  have rises : s.top ≤ s.top + size := Nat.le_add_right _ _
  have vacant : s.Vacant s.top (s.top + size) := laid.vacant_above
  simp only [extendTop?, bind, Except.bind, pure, Except.pure] at extend
  split at extend
  · cases extend
  split at extend
  case isTrue grows =>
    cases up : Size.pagesUp (s.top + size) with
    | error => simp [up] at extend
    | ok needed =>
      obtain ⟨enough, -, pages⟩ := Size.pagesUp_bounds up
      simp only [up] at extend
      split at extend
      · cases extend
      case isFalse room =>
        have fits : needed ≤ s.capacity := by
          simp only [Bool.or_eq_true, decide_eq_true_eq, not_or, Nat.not_lt] at room
          exact room.2
        cases extend
        exact ⟨laid.raise_top rises aligned enough fits pages, vacant, laid.top_aligned,
          Nat.le_refl _, rfl, rfl⟩
  case isFalse obtained =>
    cases extend
    exact ⟨laid.raise_top rises aligned (Nat.not_lt.1 obtained) laid.footprint_le
      laid.footprint_pages, vacant, laid.top_aligned, Nat.le_refl _, rfl, rfl⟩

/-! ### Freeing -/

theorem Vacant.erase_gap (vacant : s.Vacant first stop) (offset : Nat) :
    Vacant { s with free := s.free.erase offset } first stop := by
  intro inUse other length piece
  apply vacant inUse other length
  cases inUse with
  | true => exact piece
  | false =>
    simp only [Piece, Gaps.sizeAt_erase] at piece
    split at piece
    · cases piece
    · exact piece

/-- Joining with a free stretch below leaves the larger stretch vacant. -/
theorem joinBelow_vacant (laid : s.Laid) {e : Extent} (vacant : s.Vacant e.offset e.stop)
    (aligned : e.offset % Size.granule = 0) (whole : e.size % Size.granule = 0) :
    Laid { s with free := (s.free.joinBelow e).2 }
      ∧ Vacant { s with free := (s.free.joinBelow e).2 } (s.free.joinBelow e).1.offset
          (s.free.joinBelow e).1.stop
      ∧ (s.free.joinBelow e).1.stop = e.stop ∧ e.size ≤ (s.free.joinBelow e).1.size
      ∧ (s.free.joinBelow e).1.offset % Size.granule = 0
      ∧ (s.free.joinBelow e).1.size % Size.granule = 0 := by
  unfold Gaps.joinBelow
  split
  case h_2 => exact ⟨laid, vacant, rfl, Nat.le_refl _, aligned, whole⟩
  case h_1 below near =>
    split
    case isFalse => exact ⟨laid, vacant, rfl, Nat.le_refl _, aligned, whole⟩
    case isTrue touches =>
      obtain ⟨gap, -, -⟩ := Gaps.before_eq_some_iff.1 near
      have piece : s.Piece false below.offset below.size := gap
      have granular := laid.aligned _ _ _ piece
      obtain ⟨others, freed⟩ := laid.erase_gap gap
      have upper := vacant.erase_gap below.offset
      have stop : below.offset + (below.size + e.size) = e.stop := by
        simp only [Extent.stop] at *
        omega
      refine ⟨others, ?_, stop, Nat.le_add_left _ _, granular.1, ?_⟩
      · have lower : Vacant { s with free := s.free.erase below.offset } below.offset e.offset :=
          freed.mono (Nat.le_refl _) (Nat.le_of_eq touches.symm)
        have joined := lower.append others upper
        rwa [← stop] at joined
      · simp only [Size.granule] at *
        omega

/-- Joining with a free stretch above leaves the larger stretch vacant. -/
theorem joinAbove_vacant (laid : s.Laid) {e : Extent} (vacant : s.Vacant e.offset e.stop)
    (aligned : e.offset % Size.granule = 0) (whole : e.size % Size.granule = 0)
    (below : e.stop ≤ s.top) :
    Laid { s with free := (s.free.joinAbove e).2 }
      ∧ Vacant { s with free := (s.free.joinAbove e).2 } (s.free.joinAbove e).1.offset
          (s.free.joinAbove e).1.stop
      ∧ (s.free.joinAbove e).1.stop ≤ s.top ∧ e.size ≤ (s.free.joinAbove e).1.size
      ∧ (s.free.joinAbove e).1.offset % Size.granule = 0
      ∧ (s.free.joinAbove e).1.size % Size.granule = 0 := by
  unfold Gaps.joinAbove
  split
  case h_2 => exact ⟨laid, vacant, below, Nat.le_refl _, aligned, whole⟩
  case h_1 size gap =>
    have piece : s.Piece false e.stop size := gap
    have granular := laid.aligned _ _ _ piece
    have bound := laid.below _ _ _ piece
    obtain ⟨others, freed⟩ := laid.erase_gap gap
    have lower := vacant.erase_gap e.stop
    have stop : e.offset + (e.size + size) = e.stop + size := by
      simp only [Extent.stop]
      omega
    refine ⟨others, ?_, ?_, Nat.le_add_right _ _, aligned, ?_⟩
    · have joined := lower.append others freed
      rwa [← stop] at joined
    · exact Nat.le_trans (Nat.le_of_eq stop) bound
    · simp only [Size.granule] at *
      omega

theorem Laid.lower_top (laid : s.Laid) {top : Nat} (vacant : s.Vacant top s.top)
    (falls : top ≤ s.top) (aligned : top % Size.granule = 0) : Laid { s with top } where
  apart := laid.apart
  positive := laid.positive
  aligned := laid.aligned
  below := by
    intro inUse offset size piece
    have positive := laid.positive _ _ _ piece
    have below := laid.below _ _ _ piece
    have apart := vacant _ _ _ piece
    simp only at *
    omega
  requested := laid.requested
  top_aligned := aligned
  top_le := Nat.le_trans falls laid.top_le
  footprint_le := laid.footprint_le
  footprint_pages := laid.footprint_pages

theorem Laid.giveBack (laid : s.Laid) {e : Extent} (vacant : s.Vacant e.offset e.stop)
    (positive : 0 < e.size) (aligned : e.offset % Size.granule = 0)
    (whole : e.size % Size.granule = 0) (below : e.stop ≤ s.top) : (s.giveBack e).Laid := by
  unfold Space.giveBack
  split
  case isTrue highest =>
    refine laid.lower_top ?_ ?_ aligned
    · rwa [← highest]
    · exact Nat.le_trans (Nat.le_add_right _ _) below
  case isFalse => exact laid.insert_gap vacant positive aligned whole below

@[simp]
theorem chunks_giveBack (s : Space) (e : Extent) : (s.giveBack e).chunks = s.chunks := by
  unfold giveBack
  split <;> rfl

@[simp]
theorem region_giveBack (s : Space) (e : Extent) : (s.giveBack e).region = s.region := by
  unfold giveBack
  split <;> rfl

@[simp]
theorem words_giveBack (s : Space) (e : Extent) : (s.giveBack e).words = s.words := by
  unfold giveBack
  split <;> rfl

@[simp]
theorem requests_giveBack (s : Space) (e : Extent) : (s.giveBack e).requests = s.requests := by
  unfold giveBack
  split <;> rfl

/-- Freeing a chunk takes it out and leaves the memory, the requests and the other chunks alone. A
chunk whose record was cut down to nothing is not freed. -/
theorem release_spec (laid : s.Laid) {address length : Nat} (large : 0 < length)
    (release : s.release? address = some (length, s')) :
    ∃ offset, address = s.base + offset ∧ s.region.contains address = true
      ∧ s'.chunks = s.chunks.erase offset ∧ s'.Laid ∧ s'.region = s.region
      ∧ s'.words = s.words ∧ s'.requests = s.requests := by
  simp only [release?, bind, Option.bind_eq_some_iff, Option.some.injEq, pure] at release
  obtain ⟨offset, place, chunk, found, result⟩ := release
  simp only [Prod.mk.injEq] at result
  obtain ⟨rfl, rfl⟩ := result
  have member : offset ∈ s.chunks := by
    rw [Std.ExtTreeMap.mem_iff_isSome_getElem?, found]
    rfl
  have inside : s.region.contains address = true ∧ address = s.base + offset := by
    simp only [offsetOf?] at place
    split at place
    case isFalse => cases place
    case isTrue inside =>
      cases place
      simp only [Region.contains, Bool.and_eq_true, decide_eq_true_eq] at inside
      refine ⟨by simp [Region.contains, inside], ?_⟩
      have low := inside.1
      simp only [base]
      omega
  have piece := piece_chunk member
  have aligned := laid.aligned _ _ _ piece
  have below := laid.below _ _ _ piece
  have least := size_le_extent found
  have whole : chunk.size % Size.granule = 0 := Nat.mul_mod_left _ _
  obtain ⟨laid₁, freed⟩ := laid.erase_chunk member
  have vacant₁ : Vacant { s with chunks := s.chunks.erase offset } offset
      (offset + chunk.size) := freed.mono (Nat.le_refl _) (by omega)
  obtain ⟨laid₂, vacant₂, stop₂, grows₂, aligned₂, whole₂⟩ :=
    joinBelow_vacant laid₁ (e := ⟨chunk.size, offset⟩) vacant₁ aligned.1 whole
  have within : (s.free.joinBelow ⟨chunk.size, offset⟩).1.stop ≤ s.top := by
    rw [stop₂]
    simp only [Extent.stop]
    omega
  obtain ⟨laid₃, vacant₃, stop₃, grows₃, aligned₃, whole₃⟩ :=
    joinAbove_vacant laid₂ vacant₂ aligned₂ whole₂ within
  have positive := Nat.lt_of_lt_of_le large (Nat.le_trans grows₂ grows₃)
  exact ⟨offset, inside.2, inside.1, chunks_giveBack _ _,
    laid₃.giveBack vacant₃ positive aligned₃ whole₃ stop₃, region_giveBack _ _,
    words_giveBack _ _, requests_giveBack _ _⟩

theorem release_positive {address length : Nat} {usable : Option Nat}
    (measured : s.usableSize? address = .ok usable)
    (release : s.release? address = some (length, s')) : 0 < length := by
  simp only [release?, bind, Option.bind_eq_some_iff, Option.some.injEq, pure] at release
  obtain ⟨offset, place, chunk, found, result⟩ := release
  simp only [Prod.mk.injEq] at result
  have known : s.chunkAt? address = some chunk := by
    simp only [chunkAt?, place, found]
  simp only [usableSize?, known, Chunk.usable, bind, Except.bind] at measured
  split at measured
  · cases measured
  case h_2 size fits =>
    have large := (Word.sub_eq_ok.1 fits).1
    rw [← result.1]
    exact Nat.lt_of_lt_of_le (by decide) large

/-! ### Giving pages back -/

variable {released : Nat}

/-- Giving pages back changes nothing but the memory. -/
theorem discard_frame {offset length : Nat} (run : s.discard offset length = .ok (released, s')) :
    ∃ words, s' = { s with words } := by
  simp only [discard, bind, Except.bind, pure, Except.pure] at run
  split at run
  · cases run
  split at run
  · cases run
    exact ⟨_, rfl⟩
  · cases run
    exact ⟨_, rfl⟩

/-- The chunks lie below what a trimmed space keeps. -/
theorem top_le_kept (top : s.top ≤ s.footprint) {pad rounded : Nat} (small : s.footprint < Word.limit)
    (up : Size.pagesUp (Word.saturatingAdd s.top pad) = .ok rounded) :
    s.top ≤ min rounded s.footprint := by
  have enough := (Size.pagesUp_bounds up).1
  have word : s.top ≤ Word.saturatingAdd s.top pad := by
    simp only [Word.saturatingAdd, Word.largest]
    simp only [Word.limit] at small
    omega
  omega

theorem Laid.trim (laid : s.Laid) {pad : Nat} (small : s.footprint < Word.limit)
    (run : s.trim pad = .ok (released, s')) :
    s'.Laid ∧ s'.chunks = s.chunks ∧ s'.region = s.region ∧ s'.footprint ≤ s.footprint := by
  simp only [Space.trim, bind, Except.bind, pure, Except.pure] at run
  split at run
  · cases run
  case h_2 rounded up =>
    split at run
    · cases run
      exact ⟨laid, rfl, rfl, Nat.le_refl _⟩
    case isFalse less =>
      split at run
      · cases run
      case h_2 discarded discard =>
        obtain ⟨more, s₁⟩ := discarded
        obtain ⟨words, rfl⟩ := discard_frame discard
        cases run
        have pages := (Size.pagesUp_bounds up).2.2
        have whole : min rounded s.footprint % Size.page = 0 := by
          have old := laid.footprint_pages
          rcases Nat.le_total rounded s.footprint with lower | lower
          · rw [Nat.min_eq_left lower, pages]
          · rw [Nat.min_eq_right lower, old]
        refine ⟨⟨laid.apart, laid.positive, laid.aligned, laid.below, laid.requested,
          laid.top_aligned, top_le_kept laid.top_le small up, ?_, whole⟩, rfl, rfl, Nat.min_le_right _ _⟩
        exact Nat.le_trans (Nat.min_le_right _ _) laid.footprint_le

theorem foldlM_keeps {α β : Type} {step : β → α → Except Defect β} (holds : β → Prop)
    (items : List α) (keeps : ∀ before, ∀ item ∈ items, ∀ after, holds before →
      step before item = .ok after → holds after) {before after : β} (start : holds before)
    (run : items.foldlM step before = .ok after) : holds after := by
  induction items generalizing before with
  | nil =>
    cases run
    exact start
  | cons first rest ih =>
    simp only [List.foldlM_cons, bind, Except.bind] at run
    cases taken : step before first with
    | error => simp [taken] at run
    | ok middle =>
      rw [taken] at run
      refine ih (fun before item later => ?_) (keeps _ _ List.mem_cons_self _ start taken) run
      exact keeps before item (List.mem_cons_of_mem _ later)

/-- To give the pages of one more stretch back changes the words and nothing else. -/
theorem discardMore_frame {before after : Nat × Space} {extent : Extent}
    (run : discardMore before extent = .ok after) : ∃ words, after.2 = { before.2 with words } := by
  obtain ⟨sofar, s₁⟩ := before
  simp only [discardMore, bind, Except.bind, pure, Except.pure] at run
  split at run
  · cases run
  case h_2 discarded discard =>
    obtain ⟨more, s₂⟩ := discarded
    obtain ⟨words, rfl⟩ := discard_frame discard
    cases run
    exact ⟨words, rfl⟩

theorem releaseFreePages_frame (run : s.releaseFreePages = .ok (released, s')) :
    ∃ words, s' = { s with words } := by
  refine foldlM_keeps (fun reached => ∃ words, reached.2 = { s with words })
    s.free.toList ?_ ⟨s.words, rfl⟩ run
  rintro ⟨sofar, s₁⟩ extent - after ⟨words, rfl⟩ step
  exact discardMore_frame step

/-- Capping growth changes nothing but the cap. -/
theorem setAllowed_frame {bytes : Nat} (run : s.setAllowed bytes = .ok s') :
    ∃ allowed, s' = { s with allowed } := by
  simp only [setAllowed, bind, Except.bind, pure, Except.pure] at run
  split at run
  · split at run
    · cases run
    split at run
    · cases run
    · cases run
      exact ⟨_, rfl⟩
  · cases run
    exact ⟨_, rfl⟩

/-! ### New spaces -/

theorem reserve_eq {base size : Nat} {r : Region} (run : Region.reserve base size = .ok (.ok r)) :
    r.base = base ∧ Size.pagesUp (max size Size.page) = .ok r.size
      ∧ r.size < Size.unreservable := by
  simp only [Region.reserve, bind, Except.bind, pure, Except.pure] at run
  split at run
  · cases run
  case h_2 rounded up =>
    split at run
    · cases run
    case isFalse small =>
      cases run
      exact ⟨rfl, up, Nat.lt_of_not_le small⟩

theorem laid_empty (name : String) (region : Region) (allowed : Nat) :
    Laid { name, region, allowed } := by
  have nothing : ∀ inUse offset size, ¬ Piece { name, region, allowed } inUse offset size := by
    intro inUse offset size piece
    cases inUse with
    | true => exact Std.ExtTreeMap.not_mem_empty piece.1
    | false =>
      have none : (∅ : Std.ExtTreeMap Nat Nat)[offset]? = some size := piece
      rw [Std.ExtTreeMap.getElem?_empty] at none
      cases none
  exact {
    apart := fun _ _ _ _ _ _ piece => absurd piece (nothing _ _ _)
    positive := fun _ _ _ piece => absurd piece (nothing _ _ _)
    aligned := fun _ _ _ piece => absurd piece (nothing _ _ _)
    below := fun _ _ _ piece => absurd piece (nothing _ _ _)
    requested := fun _ chunk => absurd (piece_chunk chunk) (nothing _ _ _)
    top_aligned := rfl
    top_le := Nat.le_refl 0
    footprint_le := Nat.zero_le _
    footprint_pages := rfl }

/-- A new space is empty, over a region that was reserved for it. -/
theorem create_bare {name : String} {base start capacity : Nat}
    (run : Space.create name base start capacity = .ok (.ok s)) : ∃ region allowed,
      s = { name, region, allowed } ∧ Region.reserve base capacity = .ok (.ok region)
        ∧ Space.setAllowed { name, region } start = .ok { name, region, allowed } := by
  simp only [Space.create, bind, Except.bind, pure, Except.pure] at run
  split at run
  · cases run
  case h_2 reserved reserve =>
    split at run
    · cases run
    case h_2 region =>
      split at run
      · cases run
      case h_2 space cap =>
        obtain ⟨allowed, rfl⟩ := setAllowed_frame cap
        cases run
        exact ⟨region, allowed, rfl, reserve, cap⟩

theorem create_eq {name : String} {base start capacity : Nat}
    (run : Space.create name base start capacity = .ok (.ok s)) :
    s.Laid ∧ s.base = base ∧ Size.pagesUp (max capacity Size.page) = .ok s.capacity
      ∧ s.capacity < Size.unreservable ∧ s.footprint = 0 := by
  obtain ⟨region, allowed, rfl, reserve, -⟩ := create_bare run
  obtain ⟨same, up, small⟩ := reserve_eq reserve
  exact ⟨laid_empty name region allowed, same, up, small, rfl⟩

/-! ### What does not overlap -/

/-- The words that a request covers lie in its chunk. -/
theorem Laid.own_word (laid : s.Laid) (chunk : offset ∈ s.chunks) {k : Nat}
    (own : 8 * k < s.requestedAt offset) : 8 * k + Size.chunkOverhead < s.extent offset :=
  Nat.lt_of_lt_of_le (Nat.add_lt_add_right own _) (laid.extent_large chunk).2

/-- The words of a chunk are not among those of another chunk. -/
theorem Laid.words_apart (laid : s.Laid) {other i j : Nat} (chunk : offset ∈ s.chunks)
    (chunk' : other ∈ s.chunks) (different : offset ≠ other)
    (own : 8 * i + Size.chunkOverhead < s.extent offset)
    (own' : 8 * j + Size.chunkOverhead < s.extent other) : offset / 8 + i ≠ other / 8 + j := by
  have aligned := (laid.aligned _ _ _ (piece_chunk chunk)).1
  have aligned' := (laid.aligned _ _ _ (piece_chunk chunk')).1
  rcases laid.apart _ _ _ _ _ _ (piece_chunk chunk) (piece_chunk chunk') with ⟨-, same⟩ | apart
  · exact absurd same different
  · simp only [Size.granule, Size.chunkOverhead] at *
    omega

theorem Laid.offset_lt (laid : s.Laid) (chunk : offset ∈ s.chunks) :
    offset + Size.minChunk ≤ s.top := by
  have large := (laid.extent_large chunk).1
  have below := laid.below _ _ _ (piece_chunk chunk)
  omega

/-- Chunks lie so far apart that each has a multiple of the least chunk size to itself. -/
theorem Laid.slot_inj (laid : s.Laid) {other : Nat} (chunk : offset ∈ s.chunks)
    (chunk' : other ∈ s.chunks) (same : offset / Size.minChunk = other / Size.minChunk) :
    offset = other := by
  have large := (laid.extent_large chunk).1
  have large' := (laid.extent_large chunk').1
  rcases laid.apart _ _ _ _ _ _ (piece_chunk chunk) (piece_chunk chunk') with ⟨-, same⟩ | apart
  · exact same
  · simp only [Size.minChunk] at *
    omega

end Space

end ManagedHeap
