import ManagedHeap.Proofs.Chunks
import ManagedHeap.Space.Operation

/-!
How the pieces of a space border on each other. Its chunks and free stretches leave nothing out below
`top`, the highest chunk ends there, and a free stretch is always followed by a chunk. Whatever is done
to a space, this stays so.
-/

namespace ManagedHeap

namespace Gaps

variable {g : Gaps} {e : Extent}

/-- The free stretch that ends where the stretch begins is joined with it, and the others are left. -/
theorem joinBelow_spec (apart : ∀ offset size offset' size', g.sizeAt? offset = some size →
      g.sizeAt? offset' = some size' → offset < offset' → offset + size ≤ offset')
    (positive : ∀ offset size, g.sizeAt? offset = some size → 0 < size) :
    (g.joinBelow e).1.stop = e.stop
    ∧ (((g.joinBelow e).1.offset = e.offset
        ∧ ∀ x size, g.sizeAt? x = some size → x + size ≠ e.offset)
      ∨ ∃ below, g.sizeAt? (g.joinBelow e).1.offset = some below
        ∧ (g.joinBelow e).1.offset + below = e.offset)
    ∧ ∀ x size, (g.joinBelow e).2.sizeAt? x = some size
      ↔ g.sizeAt? x = some size ∧ x + size ≠ e.offset := by
  have untouched (none : ∀ x size, g.sizeAt? x = some size → x + size ≠ e.offset) :
      ∀ x size, g.sizeAt? x = some size ↔ g.sizeAt? x = some size ∧ x + size ≠ e.offset :=
    fun x size => ⟨fun gap => ⟨gap, none x size gap⟩, fun both => both.1⟩
  unfold joinBelow
  split
  case h_1 below near =>
    obtain ⟨gap, before, nearest⟩ := before_eq_some_iff.1 near
    split
    case isTrue touches =>
      have touches : below.offset + below.size = e.offset := touches
      refine ⟨?_, .inr ⟨below.size, gap, touches⟩, fun x size => ?_⟩
      · simp only [Extent.stop]
        omega
      rw [sizeAt_erase]
      split
      case isTrue here =>
        subst here
        refine ⟨fun none => (Option.some_ne_none _ none.symm).elim, fun both => ?_⟩
        cases gap.symm.trans both.1
        exact absurd touches both.2
      case isFalse elsewhere =>
        refine ⟨fun gap' => ⟨gap', fun ends => ?_⟩, fun both => both.1⟩
        have room := positive _ _ gap
        have room' := positive _ _ gap'
        -- Of two stretches with one end, one would lie in the other.
        rcases Nat.lt_or_gt_of_ne elsewhere with lower | higher
        · have clear := apart _ _ _ _ gap' gap lower
          omega
        · have clear := apart _ _ _ _ gap gap' higher
          omega
    case isFalse away =>
      have none : ∀ x size, g.sizeAt? x = some size → x + size ≠ e.offset := by
        intro x size gap' ends
        have room := positive _ _ gap'
        rcases Nat.lt_or_eq_of_le (nearest x size gap' (by omega)) with lower | same
        · have clear := apart _ _ _ _ gap' gap lower
          omega
        · subst same
          cases gap.symm.trans gap'
          exact away ends
      exact ⟨rfl, .inl ⟨rfl, none⟩, untouched none⟩
  case h_2 nothing =>
    rw [before?, Option.map_eq_none_iff, Nearest.getEntryLT_eq_none_iff] at nothing
    have none : ∀ x size, g.sizeAt? x = some size → x + size ≠ e.offset := by
      intro x size gap ends
      have room := positive _ _ gap
      have above := nothing x size gap
      omega
    exact ⟨rfl, .inl ⟨rfl, none⟩, untouched none⟩

/-- The free stretch that begins where the stretch ends is joined with it, and the others are left. -/
theorem joinAbove_spec (g : Gaps) (e : Extent) :
    (g.joinAbove e).1.offset = e.offset
    ∧ (((g.joinAbove e).1.stop = e.stop ∧ g.sizeAt? e.stop = none)
      ∨ ∃ above, g.sizeAt? e.stop = some above ∧ (g.joinAbove e).1.stop = e.stop + above)
    ∧ ∀ x size, (g.joinAbove e).2.sizeAt? x = some size
      ↔ g.sizeAt? x = some size ∧ x ≠ e.stop := by
  unfold joinAbove
  cases gap : g.sizeAt? e.stop with
  | none =>
    refine ⟨rfl, .inl ⟨rfl, rfl⟩, fun x size => ⟨fun gap' => ⟨gap', ?_⟩, fun both => both.1⟩⟩
    rintro rfl
    cases gap.symm.trans gap'
  | some above =>
    refine ⟨rfl, .inr ⟨above, rfl, ?_⟩, fun x size => ?_⟩
    · simp only [Extent.stop]
      omega
    · rw [sizeAt_erase]
      split
      case isTrue here => simp [here]
      case isFalse elsewhere => exact ⟨fun gap' => ⟨gap', elsewhere⟩, fun both => both.1⟩

end Gaps

namespace Space

/-- A chunk by its record, or a free stretch. -/
def Stretch (s : Space) (inUse : Bool) (offset size : Nat) : Prop :=
  match inUse with
  | true => s.recorded? offset = some size
  | false => s.free.sizeAt? offset = some size

/-- The offset is one where a piece starts, or `top`. -/
def Meets (s : Space) (x : Nat) : Prop := x = s.top ∨ ∃ inUse size, s.Piece inUse x size

/-- Pieces follow each other without a break, no free stretch follows a free one, and the highest piece
is a chunk. Chunks are as long as their records say. -/
structure Woven (s : Space) : Prop where
  exact : ∀ offset size, s.recorded? offset = some size → s.extent offset = size
  large : ∀ offset size, s.free.sizeAt? offset = some size → Size.minChunk ≤ size
  first : s.Meets 0
  chunk_next : ∀ offset ∈ s.chunks, s.Meets (offset + s.extent offset)
  gap_next : ∀ offset size, s.free.sizeAt? offset = some size → offset + size ∈ s.chunks

/-- What every step keeps up. -/
structure Seamless (s : Space) : Prop where
  laid : s.Laid
  woven : s.Woven
  footprint_allowed : s.footprint ≤ s.allowed
  allowed_pages : s.allowed % Size.page = 0

variable {s s' : Space} {offset size taken n x : Nat} {inUse : Bool}

theorem Woven.piece_iff (woven : s.Woven) :
    s.Piece inUse offset size ↔ s.Stretch inUse offset size := by
  cases inUse with
  | false => exact Iff.rfl
  | true =>
    constructor
    · rintro ⟨chunk, rfl⟩
      obtain ⟨size, recorded⟩ := Option.isSome_iff_exists.1 (mem_chunks_iff.1 chunk)
      rw [Stretch, recorded, woven.exact offset size recorded]
    · intro recorded
      refine ⟨mem_chunks_iff.2 ?_, (woven.exact offset size recorded).symm⟩
      rw [show s.recorded? offset = some size from recorded]
      rfl

theorem meets_chunk (chunk : x ∈ s.chunks) : s.Meets x := .inr ⟨true, _, piece_chunk chunk⟩

theorem meets_gap (gap : s.free.sizeAt? x = some size) : s.Meets x := .inr ⟨false, size, gap⟩

/-- What is woven is told by the lengths on record, the requests, the free stretches and `top`. -/
theorem Woven.congr (woven : s.Woven) (recorded : s'.recorded? = s.recorded?)
    (requests : s'.requests = s.requests) (free : s'.free = s.free) (top : s'.top = s.top) :
    s'.Woven := by
  have member : ∀ x, x ∈ s'.chunks ↔ x ∈ s.chunks := by
    intro x
    rw [mem_chunks_iff, recorded, ← mem_chunks_iff]
  have extent : ∀ x, s'.extent x = s.extent x := by
    intro x
    rw [extent_eq_recorded, recorded, extent_eq_recorded, requestedAt, requestedAt, requests]
  have meets : ∀ x, s.Meets x → s'.Meets x := by
    rintro x (here | ⟨inUse, size, piece⟩)
    · exact .inl (here.trans top.symm)
    · cases inUse with
      | true => exact meets_chunk ((member x).2 piece.1)
      | false =>
        have gap : s.free.sizeAt? x = some size := piece
        exact meets_gap (free ▸ gap)
  refine ⟨fun x size known => ?_, fun x size gap => ?_, meets 0 woven.first, fun x chunk => ?_,
    fun x size gap => ?_⟩
  · rw [extent]
    exact woven.exact x size (recorded ▸ known)
  · exact woven.large x size (free ▸ gap)
  · rw [extent]
    exact meets _ (woven.chunk_next x ((member x).1 chunk))
  · exact (member _).2 (woven.gap_next x size (free ▸ gap))

/-- All pieces are followed by another one, or end at `top`. -/
theorem Woven.next (woven : s.Woven) (piece : s.Piece inUse offset size) :
    s.Meets (offset + size) := by
  cases inUse with
  | false => exact meets_chunk (woven.gap_next offset size piece)
  | true =>
    obtain ⟨chunk, rfl⟩ := piece
    exact woven.chunk_next offset chunk

theorem Woven.piece_large (woven : s.Woven) (laid : s.Laid) (piece : s.Piece inUse offset size) :
    Size.minChunk ≤ size := by
  cases inUse with
  | false => exact woven.large offset size piece
  | true =>
    obtain ⟨chunk, rfl⟩ := piece
    exact (laid.extent_large chunk).1

theorem woven_empty (name : String) (region : Region) (allowed : Nat) :
    Woven { name, region, allowed } := by
  have none : ∀ x size, ({} : Gaps).sizeAt? x ≠ some size := by
    intro x size gap
    rw [Gaps.sizeAt?, Std.ExtTreeMap.getElem?_empty] at gap
    cases gap
  refine ⟨fun x size recorded => ?_, fun x size gap => absurd gap (none x size), .inl rfl,
    fun x chunk => ?_, fun x size gap => absurd gap (none x size)⟩
  · rw [recorded?, Std.ExtTreeMap.getElem?_empty] at recorded
    cases recorded
  · exact absurd chunk Std.ExtTreeMap.not_mem_empty

/-! ### Allocating -/

/-- Room that was carved out for a chunk, as far as it matters to what borders on it. -/
structure Borders (s : Space) (offset taken : Nat) (s' : Space) : Prop where
  frame : ∃ free top footprint, s' = { s with free, top, footprint }
  gaps : ∀ x size, s'.free.sizeAt? x = some size → Size.minChunk ≤ size ∧ x + size ∈ s.chunks
  meets : ∀ x, s.Meets x → x = offset ∨ s'.Meets x
  next : s'.Meets (offset + taken)

/-- A piece elsewhere is still there when a free stretch is taken out. -/
theorem Meets.erase (meets : s.Meets x) (y : Nat) :
    x = y ∨ Meets { s with free := s.free.erase y } x := by
  rcases meets with top | ⟨inUse, size, piece⟩
  · exact .inr (.inl top)
  · by_cases here : x = y
    · exact .inl here
    · refine .inr (.inr ⟨inUse, size, ?_⟩)
      cases inUse with
      | true => exact piece
      | false =>
        simp only [Piece, Gaps.sizeAt_erase, if_neg here]
        exact piece

theorem Meets.insert (meets : s.Meets x) (e : Extent) :
    Meets { s with free := s.free.insert e } x := by
  rcases meets with top | ⟨inUse, size, piece⟩
  · exact .inl top
  · refine .inr ?_
    cases inUse with
    | true => exact ⟨true, size, piece⟩
    | false =>
      refine ⟨false, ?_⟩
      simp only [Piece, Gaps.sizeAt_insert]
      split
      · exact ⟨_, rfl⟩
      · exact ⟨size, piece⟩

theorem takeFree_borders (woven : s.Woven)
    (take : s.takeFree? size = some (offset, taken, s')) : Borders s offset taken s' := by
  unfold takeFree? at take
  cases fit : s.free.bestFit? size with
  | none =>
    rw [fit] at take
    cases take
  | some found =>
    rw [fit] at take
    obtain ⟨gap, enough, -⟩ := Gaps.bestFit_eq_some_iff.1 fit
    have follows := woven.gap_next _ _ gap
    have left : ∀ x other, (s.free.erase found.offset).sizeAt? x = some other →
        Size.minChunk ≤ other ∧ x + other ∈ s.chunks := by
      intro x other gap'
      rw [Gaps.sizeAt_erase] at gap'
      split at gap'
      · cases gap'
      · exact ⟨woven.large x other gap', woven.gap_next x other gap'⟩
    dsimp only at take
    split at take
    case isTrue splits =>
      cases take
      refine ⟨⟨_, _, _, rfl⟩, fun x other gap' => ?_, fun x meets => ?_, ?_⟩
      · rw [Gaps.sizeAt_insert] at gap'
        split at gap'
        case isTrue here =>
          cases gap'
          refine ⟨splits, ?_⟩
          rwa [here, show found.offset + size + (found.size - size) = found.offset + found.size by omega]
        case isFalse => exact left x other gap'
      · exact (meets.erase found.offset).imp_right fun here => here.insert _
      · exact meets_gap ((Gaps.sizeAt_insert ..).trans (if_pos rfl))
    case isFalse =>
      cases take
      exact ⟨⟨_, _, _, rfl⟩, left, fun x meets => meets.erase found.offset, meets_chunk follows⟩

theorem extendTop_borders (woven : s.Woven)
    (extend : s.extendTop? size = .ok (some (offset, s'))) : Borders s offset size s' := by
  have raised : ∀ footprint, Borders s s.top size { s with top := s.top + size, footprint } := by
    intro footprint
    refine ⟨⟨_, _, _, rfl⟩, fun x size' gap => ⟨woven.large x size' gap, woven.gap_next x size' gap⟩,
      fun x meets => ?_, .inl rfl⟩
    rcases meets with top | piece
    · exact .inl top
    · exact .inr (.inr piece)
  simp only [extendTop?, bind, Except.bind, pure, Except.pure] at extend
  split at extend
  · cases extend
  split at extend
  case isTrue =>
    split at extend
    · cases extend
    split at extend
    · cases extend
    · cases extend
      exact raised _
  case isFalse =>
    cases extend
    exact raised s.footprint

/-- A chunk that is placed where room was carved out for it closes the row. -/
theorem Borders.place (borders : Borders s offset taken s') (woven : s.Woven) {needed : Nat}
    (fresh : offset ∉ s.chunks) (fits : chunkSizeFor n = some needed) (enough : needed ≤ taken)
    (whole : taken % Size.granule = 0) (few : taken / Size.granule < Chunk.fieldLimit) :
    (s'.place offset taken n).Woven := by
  obtain ⟨⟨free, top, footprint, rfl⟩, gaps, meets, next⟩ := borders
  have recorded : ∀ x, (Space.place { s with free, top, footprint } offset taken n).recorded? x
      = if x = offset then some taken else s.recorded? x := fun x => recorded_place whole few
  have extent : ∀ x, (Space.place { s with free, top, footprint } offset taken n).extent x
      = if x = offset then taken else s.extent x := by
    intro x
    split
    case isTrue here =>
      rw [extent_eq_recorded, recorded, requestedAt_place, if_pos here, if_pos here, fits,
        Option.getD_some, Option.getD_some, Nat.max_eq_left enough]
    case isFalse elsewhere => exact extent_place elsewhere
  have kept : ∀ x, Meets { s with free, top, footprint } x →
      Meets (Space.place { s with free, top, footprint } offset taken n) x := by
    rintro x (here | ⟨inUse, size, piece⟩)
    · exact .inl here
    · cases inUse with
      | false => exact .inr ⟨false, size, piece⟩
      | true => exact meets_chunk (mem_place.2 (.inr piece.1))
  have still : ∀ x, s.Meets x →
      Meets (Space.place { s with free, top, footprint } offset taken n) x := by
    intro x old
    rcases meets x old with rfl | here
    · exact meets_chunk (mem_place.2 (.inl rfl))
    · exact kept x here
  refine ⟨fun x size known => ?_, fun x size gap => (gaps x size gap).1, still 0 woven.first,
    fun x chunk => ?_, fun x size gap => mem_place.2 (.inr (gaps x size gap).2)⟩
  · rw [recorded] at known
    rw [extent]
    split
    case isTrue here =>
      rw [if_pos here] at known
      exact Option.some.inj known
    case isFalse elsewhere =>
      rw [if_neg elsewhere] at known
      exact woven.exact x size known
  · rw [extent]
    split
    case isTrue here =>
      subst here
      exact kept _ next
    case isFalse elsewhere =>
      exact still _ (woven.chunk_next x ((mem_place.1 chunk).resolve_left elsewhere))

/-- A chunk in a space that is smaller than the longest one on record is recorded as it is. -/
theorem Carved.short (carved : Carved s offset taken s')
    (few : s.capacity < Chunk.fieldLimit * Size.granule) : taken / Size.granule < Chunk.fieldLimit := by
  have below := carved.below
  have top := carved.laid.top_le
  have footprint := carved.laid.footprint_le
  rw [capacity, carved.kept.1] at footprint
  simp only [capacity, Size.granule] at *
  omega

theorem MakesRoom.borders (room : s.MakesRoom size offset taken s') (woven : s.Woven) :
    Borders s offset taken s' := by
  cases room with
  | recycled take => exact takeFree_borders woven take
  | raised _ same extend =>
    subst same
    exact extendTop_borders woven extend

theorem Seamless.calloc (seamless : s.Seamless) (few : s.capacity < Chunk.fieldLimit * Size.granule)
    {result : Option Nat} (run : s.calloc n = .ok (result, s')) : s'.Seamless := by
  obtain ⟨laid, woven, allowed, pages⟩ := id seamless
  rcases calloc_eq run with ⟨-, rfl⟩ | ⟨size, offset, taken, s₁, fits, -, room, rfl⟩
  · exact seamless
  obtain ⟨carved, enough⟩ := room.carved laid fits
  have placed := carved.placed fits enough
  have woven' := (room.borders woven).place woven placed.fresh fits enough carved.whole (carved.short few)
  have footprint := carved.footprint
  obtain ⟨free, top, footprint', rfl⟩ := carved.frame
  refine ⟨placed.laid, woven', ?_, pages⟩
  change footprint' ≤ s.allowed
  change footprint' = s.footprint ∨ s.footprint ≤ footprint' ∧ footprint' ≤ s.allowed at footprint
  omega

/-! ### Freeing -/

/-- A chunk together with the free stretches that touch it, and the other free stretches. -/
structure Joined (s : Space) (offset size : Nat) (e : Extent) (free : Gaps) : Prop where
  low : (e.offset = offset ∧ ∀ x below, s.free.sizeAt? x = some below → x + below ≠ offset)
    ∨ ∃ below, s.free.sizeAt? e.offset = some below ∧ e.offset + below = offset
  high : (e.stop = offset + size ∧ s.free.sizeAt? (offset + size) = none)
    ∨ ∃ above, s.free.sizeAt? (offset + size) = some above ∧ e.stop = offset + size + above
  gaps : ∀ x other, free.sizeAt? x = some other
    ↔ s.free.sizeAt? x = some other ∧ x + other ≠ offset ∧ x ≠ offset + size

theorem Laid.precedes (laid : s.Laid) {inUse' : Bool} {y size' : Nat} (piece : s.Piece inUse x size)
    (piece' : s.Piece inUse' y size') (before : x < y) : x + size ≤ y := by
  rcases laid.apart _ _ _ _ _ _ piece piece' with ⟨-, same⟩ | apart
  · omega
  · omega

theorem Laid.gaps_apart (laid : s.Laid) {y size' : Nat} (gap : s.free.sizeAt? x = some size)
    (gap' : s.free.sizeAt? y = some size') (before : x < y) : x + size ≤ y :=
  laid.precedes (show s.Piece false x size from gap) (show s.Piece false y size' from gap') before

theorem Laid.kinds_apart (laid : s.Laid) {y size' : Nat} (chunk : s.Piece true x size)
    (gap : s.free.sizeAt? y = some size') : x + size ≤ y ∨ y + size' ≤ x := by
  rcases laid.apart _ _ _ _ _ _ chunk (show s.Piece false y size' from gap) with ⟨kind, -⟩ | apart
  · cases kind
  · exact apart

theorem Laid.joined (laid : s.Laid) (offset : Nat) (positive : 0 < size) :
    Joined s offset size
      ((s.free.joinBelow ⟨size, offset⟩).2.joinAbove (s.free.joinBelow ⟨size, offset⟩).1).1
      ((s.free.joinBelow ⟨size, offset⟩).2.joinAbove (s.free.joinBelow ⟨size, offset⟩).1).2 := by
  obtain ⟨stop, low, left⟩ := Gaps.joinBelow_spec (g := s.free) (e := ⟨size, offset⟩)
    (fun _ _ _ _ gap gap' before => laid.gaps_apart gap gap' before)
    fun x other gap => laid.positive false x other gap
  generalize s.free.joinBelow ⟨size, offset⟩ = parts at *
  obtain ⟨e, below⟩ := parts
  obtain ⟨start, high, left'⟩ := below.joinAbove_spec e
  generalize below.joinAbove e = parts at *
  obtain ⟨e', above⟩ := parts
  have stop : e.stop = offset + size := stop
  have same : below.sizeAt? (offset + size) = s.free.sizeAt? (offset + size) := by
    refine Option.ext fun other => (left _ other).trans ⟨fun both => both.1, fun gap => ⟨gap, ?_⟩⟩
    intro ends
    have ends : offset + size + other = offset := ends
    omega
  rw [stop, same] at high
  refine ⟨?_, high, fun x other => ?_⟩
  · rw [start]
    exact low
  · rw [left', left, stop, and_assoc]

section

variable {e : Extent} {free : Gaps}

theorem Joined.covers (joined : Joined s offset size e free) :
    e.offset ≤ offset ∧ offset + size ≤ e.stop := by
  constructor
  · rcases joined.low with ⟨same, -⟩ | ⟨below, -, touches⟩ <;> omega
  · rcases joined.high with ⟨same, -⟩ | ⟨above, -, same⟩ <;> omega

theorem Joined.below (joined : Joined s offset size e free) (laid : s.Laid)
    (chunk : s.Piece true offset size) : e.stop ≤ s.top := by
  rcases joined.high with ⟨same, -⟩ | ⟨above, gap, same⟩
  · exact same ▸ laid.below _ _ _ chunk
  · have bound := laid.below false _ _ gap
    omega

/-- Where the stretch ends a chunk begins, unless there is no higher one. -/
theorem Joined.follows (joined : Joined s offset size e free) (woven : s.Woven)
    (chunk : s.Piece true offset size) : e.stop = s.top ∨ e.stop ∈ s.chunks := by
  rcases joined.high with ⟨same, nothing⟩ | ⟨above, gap, same⟩
  · rw [same]
    rcases woven.next chunk with top | ⟨inUse, size', piece⟩
    · exact .inl top
    · cases inUse with
      | true => exact .inr piece.1
      | false => cases nothing.symm.trans piece
  · rw [same]
    exact .inr (woven.gap_next _ _ gap)

/-- The other chunks lie outside the stretch. -/
theorem Joined.clear (joined : Joined s offset size e free) (laid : s.Laid)
    (chunk : s.Piece true offset size) (other : x ∈ s.chunks) (different : x ≠ offset) :
    x + s.extent x ≤ e.offset ∨ e.stop ≤ x := by
  have piece := piece_chunk other
  have room := laid.positive _ _ _ piece
  have own : x + s.extent x ≤ offset ∨ offset + size ≤ x := by
    rcases laid.apart _ _ _ _ _ _ piece chunk with ⟨-, same⟩ | apart
    · exact absurd same different
    · exact apart
  have low : x + s.extent x ≤ e.offset ∨ offset ≤ x := by
    rcases joined.low with ⟨same, -⟩ | ⟨below, gap, touches⟩
    · omega
    · have apart := laid.kinds_apart piece gap
      omega
  rcases joined.high with ⟨same, -⟩ | ⟨above, gap, same⟩
  · omega
  · have apart := laid.kinds_apart piece gap
    omega

/-- The free stretches outside it are left. -/
theorem Joined.left (joined : Joined s offset size e free) (laid : s.Laid) {length : Nat}
    (gap : s.free.sizeAt? x = some length) (outside : x < e.offset ∨ e.stop ≤ x) :
    free.sizeAt? x = some length := by
  have covers := joined.covers
  refine (joined.gaps x length).2 ⟨gap, fun ends => ?_, fun same => ?_⟩
  · rcases joined.low with ⟨-, none⟩ | ⟨below, gap', touches⟩
    · exact none x length gap ends
    · have room := laid.positive false _ _ gap'
      have room' := laid.positive false _ _ gap
      have apart := laid.gaps_apart gap gap'
      omega
  · rcases joined.high with ⟨-, nothing⟩ | ⟨above, gap', same'⟩
    · rw [← same] at nothing
      cases nothing.symm.trans gap
    · have room := laid.positive false _ _ gap'
      omega

end

/-- A space without the chunk, in which the stretch is free or lies above `top`. -/
theorem Joined.woven {e : Extent} {free : Gaps} (joined : Joined s offset size e free)
    (laid : s.Laid) (woven : s.Woven) (recorded : s.recorded? offset = some size)
    (chunks : s'.chunks = s.chunks.erase offset) (requests : s'.requests = s.requests)
    (gaps : ∀ x other, s'.free.sizeAt? x = some other → free.sizeAt? x = some other
      ∨ x = e.offset ∧ other = e.size ∧ e.stop ≠ s.top)
    (kept : ∀ x other, free.sizeAt? x = some other → ∃ other', s'.free.sizeAt? x = some other')
    (here : s'.Meets e.offset) (top : e.stop ≠ s.top → s'.top = s.top) : s'.Woven := by
  have piece : s.Piece true offset size := woven.piece_iff.2 recorded
  obtain ⟨low, high⟩ := joined.covers
  have below := joined.below laid piece
  have stop : e.stop = e.offset + e.size := rfl
  have large := woven.piece_large laid piece
  have room := laid.positive _ _ _ piece
  have member : ∀ x, x ∈ s'.chunks ↔ x ≠ offset ∧ x ∈ s.chunks := fun x => mem_erase_chunk chunks
  have extent : ∀ x, x ≠ offset → s'.extent x = s.extent x :=
    fun x => extent_erase_chunk chunks requests
  -- Where a piece started that is not part of the stretch, one starts still.
  have still : ∀ x, s.Meets x → x ≤ e.offset ∨ (e.stop ≤ x ∧ e.stop ≠ s.top) → s'.Meets x := by
    rintro x meets outside
    by_cases begins : x = e.offset
    · exact begins ▸ here
    rcases meets with rfl | ⟨inUse, length, piece⟩
    · rcases outside with lower | ⟨-, differs⟩
      · omega
      · exact .inl (top differs).symm
    · cases inUse with
      | true => exact meets_chunk ((member x).2 ⟨by omega, piece.1⟩)
      | false =>
        obtain ⟨other, found⟩ := kept x length (joined.left laid piece (by omega))
        exact meets_gap found
  refine ⟨fun x length here => ?_, fun x length gap => ?_, still 0 woven.first (.inl (Nat.zero_le _)),
    fun x chunk => ?_, fun x length gap => (member _).2 ?_⟩
  · rw [recorded_erase_chunk chunks] at here
    split at here
    case isTrue => cases here
    case isFalse different =>
      rw [extent x different]
      exact woven.exact x length here
  · rcases gaps x length gap with old | ⟨-, rfl, -⟩
    · exact woven.large x length ((joined.gaps x length).1 old).1
    · omega
  · obtain ⟨different, chunk⟩ := (member x).1 chunk
    rw [extent x different]
    apply still _ (woven.chunk_next x chunk)
    rcases joined.clear laid piece chunk different with lower | higher
    · exact .inl lower
    · have positive := laid.positive _ _ _ (piece_chunk chunk)
      have bound := laid.below _ _ _ (piece_chunk chunk)
      exact .inr (by omega)
  · rcases gaps x length gap with old | ⟨rfl, rfl, differs⟩
    · obtain ⟨gap', ends, -⟩ := (joined.gaps x length).1 old
      exact ⟨ends, woven.gap_next x length gap'⟩
    · exact ⟨by omega, (joined.follows woven piece).resolve_left differs⟩

theorem release_eq {address length : Nat} (release : s.release? address = some (length, s')) :
    ∃ offset, s.recorded? offset = some length
      ∧ s' = giveBack { s with
          chunks := s.chunks.erase offset
          free := ((s.free.joinBelow ⟨length, offset⟩).2.joinAbove
            (s.free.joinBelow ⟨length, offset⟩).1).2 }
        ((s.free.joinBelow ⟨length, offset⟩).2.joinAbove
          (s.free.joinBelow ⟨length, offset⟩).1).1 := by
  simp only [release?, bind, Option.bind_eq_some_iff, Option.some.injEq, pure, Prod.mk.injEq]
    at release
  obtain ⟨offset, -, chunk, found, rfl, rfl⟩ := release
  exact ⟨offset, by rw [recorded?, found, Option.map_some], rfl⟩

theorem Seamless.release (seamless : s.Seamless) {address length : Nat}
    (release : s.release? address = some (length, s')) : s'.Seamless := by
  obtain ⟨laid, woven, allowed, pages⟩ := seamless
  obtain ⟨offset, recorded, same⟩ := release_eq release
  have piece : s.Piece true offset length := woven.piece_iff.2 recorded
  have positive := laid.positive _ _ _ piece
  obtain ⟨-, -, -, -, laid', -, -, -⟩ := release_spec laid positive release
  obtain ⟨chunks, free, top, frame⟩ := release_frame release
  have joined := laid.joined offset positive
  generalize (s.free.joinBelow ⟨length, offset⟩).2.joinAbove
    (s.free.joinBelow ⟨length, offset⟩).1 = parts at same joined
  obtain ⟨e, others⟩ := parts
  refine ⟨laid', ?_, ?_, ?_⟩
  · unfold giveBack at same
    split at same
    case isTrue highest =>
      subst same
      exact joined.woven laid woven recorded rfl rfl (fun _ _ gap => .inl gap)
        (fun _ other gap => ⟨other, gap⟩) (.inl rfl) fun differs => absurd highest differs
    case isFalse inner =>
      subst same
      refine joined.woven laid woven recorded rfl rfl (fun x other gap => ?_) (fun x other gap => ?_)
        ?_ fun _ => rfl
      · rw [Gaps.sizeAt_insert] at gap
        split at gap
        case isTrue here =>
          cases gap
          exact .inr ⟨here, rfl, inner⟩
        case isFalse => exact .inl gap
      · rw [Gaps.sizeAt_insert]
        split
        · exact ⟨_, rfl⟩
        · exact ⟨other, gap⟩
      · exact meets_gap ((Gaps.sizeAt_insert ..).trans (if_pos rfl))
  · rw [frame]
    exact allowed
  · rw [frame]
    exact pages

/-! ### Runs -/

theorem setAllowed_ok {bytes : Nat} (pages : s.footprint % Size.page = 0)
    (run : s.setAllowed bytes = .ok s') :
    ∃ allowed, s' = { s with allowed } ∧ s.footprint ≤ allowed ∧ allowed % Size.page = 0 := by
  simp only [setAllowed, bind, Except.bind, pure, Except.pure] at run
  split at run
  case isFalse =>
    cases run
    exact ⟨_, rfl, Nat.le_refl _, pages⟩
  case isTrue =>
    split at run
    · cases run
    case h_2 room up =>
      split at run
      · cases run
      case h_2 allowed sum =>
        cases run
        obtain ⟨-, rfl⟩ := Word.add_eq_ok.1 sum
        have whole := (Size.pagesUp_bounds up).2.2
        refine ⟨_, rfl, Nat.le_add_right _ _, ?_⟩
        simp only [Size.page] at *
        omega

theorem seamless_create {name : String} {base start capacity : Nat}
    (run : Space.create name base start capacity = .ok (.ok s)) : s.Seamless := by
  obtain ⟨region, _, rfl, -, cap⟩ := create_bare run
  obtain ⟨allowed, same, above, pages⟩ := setAllowed_ok rfl cap
  cases same
  exact ⟨laid_empty name region _, woven_empty name region _, above, pages⟩

theorem Seamless.reword (seamless : s.Seamless) (words : Cells) : Seamless { s with words } where
  laid := seamless.laid.congr rfl rfl rfl rfl rfl rfl
  woven := seamless.woven.congr rfl rfl rfl rfl
  footprint_allowed := seamless.footprint_allowed
  allowed_pages := seamless.allowed_pages

theorem Seamless.trim (seamless : s.Seamless) (small : s.footprint < Word.limit) {pad released : Nat}
    (run : s.trim pad = .ok (released, s')) : s'.Seamless := by
  obtain ⟨laid, woven, allowed, pages⟩ := seamless
  obtain ⟨laid', -, -, falls⟩ := laid.trim small run
  obtain ⟨footprint, words, rfl⟩ := trim_frame run
  exact ⟨laid', woven.congr rfl rfl rfl rfl, Nat.le_trans falls allowed, pages⟩

theorem Seamless.setGeneration (seamless : s.Seamless) (address generation : Nat) :
    (s.setGeneration address generation).Seamless := by
  obtain ⟨laid, woven, allowed, pages⟩ := seamless
  obtain ⟨chunks, same, recorded⟩ := s.setGeneration_frame address generation
  have laid' := laid.of_recorded recorded ⟨chunks, same⟩
  rw [same] at recorded laid' ⊢
  exact ⟨laid', woven.congr (funext recorded) rfl rfl rfl, allowed, pages⟩

theorem Laid.footprint_word (laid : s.Laid) (few : s.capacity < Chunk.fieldLimit * Size.granule) :
    s.footprint < Word.limit := by
  have within := laid.footprint_le
  simp only [Chunk.fieldLimit, Size.granule, Word.limit] at *
  omega

theorem perform_release {address : Nat} {result : Option Nat}
    (run : s.perform (.release address) = .ok (result, s')) : result = none
      ∧ (s' = s ∨ ∃ length, s.release? address = some (length, s')) := by
  cases run
  cases release : s.release? address with
  | none => exact ⟨rfl, .inl rfl⟩
  | some freed => exact ⟨rfl, .inr ⟨freed.1, rfl⟩⟩

theorem perform_setAllowed {bytes : Nat} {result : Option Nat}
    (run : s.perform (.setAllowed bytes) = .ok (result, s')) :
    result = none ∧ s.setAllowed bytes = .ok s' := by
  simp only [Space.perform, bind, Except.bind, pure, Except.pure] at run
  split at run
  · cases run
  case h_2 _ cap =>
    cases run
    exact ⟨rfl, cap⟩

theorem perform_trim {pad : Nat} {result : Option Nat}
    (run : s.perform (.trim pad) = .ok (result, s')) :
    result = none ∧ ∃ released, s.trim pad = .ok (released, s') := by
  simp only [Space.perform, bind, Except.bind, pure, Except.pure] at run
  split at run
  · cases run
  case h_2 trimmed cut =>
    cases run
    exact ⟨rfl, trimmed.1, cut⟩

theorem perform_releaseFreePages {result : Option Nat}
    (run : s.perform .releaseFreePages = .ok (result, s')) :
    result = none ∧ ∃ released, s.releaseFreePages = .ok (released, s') := by
  simp only [Space.perform, bind, Except.bind, pure, Except.pure] at run
  split at run
  · cases run
  case h_2 given back =>
    cases run
    exact ⟨rfl, given.1, back⟩

/-- Each step keeps the space seamless and leaves it where it is. -/
theorem Seamless.perform (seamless : s.Seamless) (few : s.capacity < Chunk.fieldLimit * Size.granule)
    {op : Operation} {result : Option Nat} (run : s.perform op = .ok (result, s')) :
    s'.Seamless ∧ s'.region = s.region := by
  have laid := seamless.laid
  cases op with
  | calloc n =>
    refine ⟨seamless.calloc few run, ?_⟩
    rcases calloc_cases laid run with ⟨-, rfl⟩ | ⟨offset, taken, needed, s₁, -, -, -, carved, rfl⟩
    · rfl
    · exact carved.kept.1
  | release address =>
    obtain ⟨-, rfl | ⟨length, release⟩⟩ := perform_release run
    · exact ⟨seamless, rfl⟩
    · obtain ⟨chunks, free, top, same⟩ := release_frame release
      exact ⟨seamless.release release, same ▸ rfl⟩
  | setAllowed bytes =>
    obtain ⟨allowed, rfl, above, pages⟩ :=
      setAllowed_ok laid.footprint_pages (perform_setAllowed run).2
    refine ⟨⟨?_, seamless.woven.congr rfl rfl rfl rfl, above, pages⟩, rfl⟩
    exact laid.congr rfl rfl rfl rfl rfl rfl
  | trim pad =>
    obtain ⟨-, released, cut⟩ := perform_trim run
    obtain ⟨footprint, words, same⟩ := trim_frame cut
    exact ⟨seamless.trim (laid.footprint_word few) cut, same ▸ rfl⟩
  | releaseFreePages =>
    obtain ⟨-, released, back⟩ := perform_releaseFreePages run
    obtain ⟨words, rfl⟩ := releaseFreePages_frame back
    exact ⟨seamless.reword words, rfl⟩
  | setGeneration address generation =>
    cases run
    obtain ⟨chunks, same, -⟩ := s.setGeneration_frame address generation
    refine ⟨seamless.setGeneration address generation, ?_⟩
    rw [same]
  | write address index value =>
    cases run
    exact ⟨seamless.reword _, rfl⟩

/-- A space that steps lead to from another one, and what was done: each step with the chunk that it
handed out. Only usable words of allocated chunks are written. -/
inductive Runs (s : Space) : List (Operation × Option Nat) → Space → Prop where
  | nil : Runs s [] s
  | step {history : List (Operation × Option Nat)} {s₁ s₂ : Space} {result : Option Nat}
    (op : Operation) : Runs s history s₁ → op.isLawful s₁ = true →
    s₁.perform op = .ok (result, s₂) → Runs s (history ++ [(op, result)]) s₂

theorem Runs.seamless {history : List (Operation × Option Nat)} (runs : Runs s history s')
    (seamless : s.Seamless) (few : s.capacity < Chunk.fieldLimit * Size.granule) :
    s'.Seamless ∧ s'.region = s.region := by
  induction runs with
  | nil => exact ⟨seamless, rfl⟩
  | @step history s₁ s₂ result op _ _ run ih =>
    obtain ⟨seamless₁, region₁⟩ := ih
    have few₁ : s₁.capacity < Chunk.fieldLimit * Size.granule := by
      rw [capacity, region₁]
      exact few
    obtain ⟨seamless₂, region₂⟩ := seamless₁.perform few₁ run
    exact ⟨seamless₂, region₂.trans region₁⟩

/-- Takes one step after another. A step that is unlawful or fails is not taken. -/
def runAll (s : Space) : List Operation → List (Operation × Option Nat) × Space
  | [] => ([], s)
  | op :: ops =>
    if op.isLawful s then
      match s.perform op with
      | .ok (result, s₁) => ((op, result) :: (s₁.runAll ops).1, (s₁.runAll ops).2)
      | .error _ => s.runAll ops
    else s.runAll ops

theorem Runs.runAll {history : List (Operation × Option Nat)} (runs : Runs s history s')
    (ops : List Operation) : Runs s (history ++ (s'.runAll ops).1) (s'.runAll ops).2 := by
  induction ops generalizing s' history with
  | nil => exact (List.append_nil history).symm ▸ runs
  | cons op ops ih =>
    rw [Space.runAll]
    split
    case isTrue lawful =>
      cases run : s'.perform op with
      | error => exact ih runs
      | ok reached => exact (List.append_cons ..) ▸ ih (.step op runs lawful run)
    case isFalse => exact ih runs

end Space

end ManagedHeap
