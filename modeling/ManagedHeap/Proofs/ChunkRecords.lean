import ManagedHeap.Proofs.Weaving

/-!
What the record of a chunk tells. Its length is kept as a number of granules of 32 bits, so it is exact for
chunks below 32 GiB and otherwise what is left over. Spaces of any capacity are followed here by the bytes
on record: a longer chunk holds fewer of them than were taken, and the rest is lost when it is freed.
-/

namespace ManagedHeap

namespace Gaps

variable {g g' g'' : Gaps} {e e' e'' : Extent}

/-- A stretch has taken in free ones, which are no longer on the list. -/
structure Absorbs (g : Gaps) (e : Extent) (joined : Extent × Gaps) : Prop where
  bytes : ∀ x, joined.1.offset ≤ x → x < joined.1.stop → e.offset ≤ x ∧ x < e.stop
    ∨ ∃ offset size, g.sizeAt? offset = some size ∧ joined.2.sizeAt? offset = none
      ∧ offset ≤ x ∧ x < offset + size
  rest : ∀ offset size, joined.2.sizeAt? offset = some size → g.sizeAt? offset = some size
  whole : (∀ offset size, g.sizeAt? offset = some size → size % Size.granule = 0) →
    e.size % Size.granule = 0 → joined.1.size % Size.granule = 0

theorem absorbs_nothing (g : Gaps) (e : Extent) : Absorbs g e (e, g) :=
  ⟨fun _ low high => .inl ⟨low, high⟩, fun _ _ gap => gap, fun _ whole => whole⟩

theorem sizeAt_erase_self (g : Gaps) (offset : Nat) : (g.erase offset).sizeAt? offset = none := by
  rw [sizeAt_erase, if_pos rfl]

theorem sizeAt_of_erase {offset other size : Nat} (gap : (g.erase offset).sizeAt? other = some size) :
    g.sizeAt? other = some size := by
  rw [sizeAt_erase] at gap
  split at gap
  · cases gap
  · exact gap

theorem joinBelow_absorbs (g : Gaps) (e : Extent) : Absorbs g e (g.joinBelow e) := by
  unfold joinBelow
  split
  case h_2 => exact absorbs_nothing g e
  case h_1 below near =>
    split
    case isFalse => exact absorbs_nothing g e
    case isTrue touches =>
      obtain ⟨gap, -, -⟩ := before_eq_some_iff.1 near
      refine ⟨fun x low high => ?_, fun _ _ => sizeAt_of_erase, fun whole granular => ?_⟩
      · simp only [Extent.stop] at *
        rcases Nat.lt_or_ge x e.offset with lower | inside
        · exact .inr ⟨_, _, gap, sizeAt_erase_self .., low, by omega⟩
        · exact .inl ⟨inside, by omega⟩
      · have granular' := whole _ _ gap
        simp only [Size.granule] at *
        omega

theorem joinAbove_absorbs (g : Gaps) (e : Extent) : Absorbs g e (g.joinAbove e) := by
  unfold joinAbove
  split
  case h_2 => exact absorbs_nothing g e
  case h_1 above gap =>
    refine ⟨fun x low high => ?_, fun _ _ => sizeAt_of_erase, fun whole granular => ?_⟩
    · rcases Nat.lt_or_ge x e.stop with inside | beyond
      · exact .inl ⟨low, inside⟩
      · refine .inr ⟨_, _, gap, sizeAt_erase_self .., beyond, ?_⟩
        simp only [Extent.stop] at *
        omega
    · have granular' := whole _ _ gap
      simp only [Size.granule] at *
      omega

theorem Absorbs.then {joined joined' : Extent × Gaps} (first : Absorbs g e joined)
    (second : Absorbs joined.2 joined.1 joined') : Absorbs g e joined' := by
  refine ⟨fun x low high => ?_, fun offset size gap => first.rest _ _ (second.rest _ _ gap),
    fun whole granular => second.whole (fun offset size gap => ?_) (first.whole whole granular)⟩
  · rcases second.bytes x low high with ⟨low, high⟩ | ⟨offset, size, gap, out, inside⟩
    · rcases first.bytes x low high with own | ⟨offset, size, gap, out, inside⟩
      · exact .inl own
      · refine .inr ⟨offset, size, gap, ?_, inside⟩
        -- What was taken in first is not there to come back.
        cases again : joined'.2.sizeAt? offset with
        | none => rfl
        | some size' => exact (Option.some_ne_none _ ((second.rest _ _ again).symm.trans out)).elim
    · exact .inr ⟨offset, size, first.rest _ _ gap, out, inside⟩
  · exact whole _ _ (first.rest _ _ gap)

end Gaps

namespace Space

variable {s s' : Space} {size offset taken n x : Nat} {inUse : Bool}

/-- Is a byte one of a chunk, as long as its record says, or of a free stretch? -/
def Holds (s : Space) (inUse : Bool) (offset x : Nat) : Prop :=
  ∃ size, s.Stretch inUse offset size ∧ offset ≤ x ∧ x < offset + size

/-- A byte that may still be handed out. -/
def Unclaimed (s : Space) (x : Nat) : Prop := s.top ≤ x ∨ ∃ offset, s.Holds false offset x

/-- No byte is on record twice, or above `top`. -/
structure Parted (s : Space) : Prop where
  apart : ∀ inUse offset inUse' offset' x, s.Holds inUse offset x → s.Holds inUse' offset' x →
    inUse = inUse' ∧ offset = offset'
  below : ∀ inUse offset x, s.Holds inUse offset x → x < s.top
  whole : ∀ offset size, s.free.sizeAt? offset = some size → size % Size.granule = 0
  top_le : s.top ≤ s.footprint
  footprint_le : s.footprint ≤ s.capacity

/-- Exactly the bytes of a stretch were taken from those that may be handed out. -/
structure Takes (s s' : Space) (offset taken : Nat) : Prop where
  unclaimed : ∀ x, offset ≤ x → x < offset + taken → s.Unclaimed x
  claims : ∀ x, s'.Unclaimed x ↔ s.Unclaimed x ∧ ¬ (offset ≤ x ∧ x < offset + taken)

/-- Room that was made for a chunk in a space of any capacity. -/
structure Yielded (s : Space) (offset taken : Nat) (s' : Space) : Prop where
  takes : Takes s s' offset taken
  parted : s'.Parted
  frame : ∃ free top footprint, s' = { s with free, top, footprint }
  vacant : ∀ inUse other x, s'.Holds inUse other x → ¬ (offset ≤ x ∧ x < offset + taken)
  below : offset + taken ≤ s'.top
  whole : taken % Size.granule = 0

/-- With fewer pieces, and a footprint down to `top` at most, the pieces are apart still. -/
theorem Parted.fewer (parted : s.Parted)
    (old : ∀ inUse offset x, s'.Holds inUse offset x → s.Holds inUse offset x)
    (whole : ∀ x size, s'.free.sizeAt? x = some size → size % Size.granule = 0)
    (top : s'.top = s.top) (region : s'.region = s.region) (top_le : s.top ≤ s'.footprint)
    (footprint_le : s'.footprint ≤ s.footprint) : s'.Parted := by
  refine ⟨fun _ _ _ _ x one other => ?_, fun _ _ x here => ?_, whole, top ▸ top_le, ?_⟩
  · exact parted.apart _ _ _ _ x (old _ _ x one) (old _ _ x other)
  · exact top ▸ parted.below _ _ x (old _ _ x here)
  · rw [capacity, region]
    exact Nat.le_trans footprint_le parted.footprint_le

theorem Parted.congr (parted : s.Parted) (recorded : s'.recorded? = s.recorded?)
    (free : s'.free = s.free) (top : s'.top = s.top) (region : s'.region = s.region)
    (top_le : s.top ≤ s'.footprint) (footprint_le : s'.footprint ≤ s.footprint) : s'.Parted := by
  refine parted.fewer ?_ (fun x size gap => parted.whole x size (free ▸ gap)) top region top_le footprint_le
  rintro inUse offset x ⟨size, stretch, inside⟩
  refine ⟨size, ?_, inside⟩
  cases inUse <;> simp only [Stretch, recorded, free] at stretch ⊢ <;> exact stretch

theorem parted_empty (name : String) (region : Region) (allowed : Nat) :
    Parted { name, region, allowed } := by
  have none : ∀ inUse offset x, ¬ Holds { name, region, allowed } inUse offset x := by
    rintro inUse offset x ⟨size, stretch, -⟩
    cases inUse <;>
      simp [Stretch, recorded?, Gaps.sizeAt?] at stretch
  refine ⟨fun _ _ _ _ x here => absurd here (none _ _ x), fun _ _ x here => absurd here (none _ _ x),
    fun x size gap => ?_, Nat.le_refl _, Nat.zero_le _⟩
  simp [Gaps.sizeAt?] at gap

/-! ### Pieces that come and go -/

/-- One more piece, of bytes that no other piece holds, leaves the pieces apart. -/
theorem Parted.with_piece (parted : s.Parted) (inUse : Bool) {stop : Nat}
    (origin : ∀ used other x, s'.Holds used other x →
      used = inUse ∧ other = offset ∧ offset ≤ x ∧ x < stop ∨ s.Holds used other x)
    (vacant : ∀ used other x, s.Holds used other x → ¬ (offset ≤ x ∧ x < stop))
    (within : ∀ x, offset ≤ x → x < stop → x < s.top)
    (whole : ∀ x size, s'.free.sizeAt? x = some size → size % Size.granule = 0)
    (top : s'.top = s.top) (footprint : s'.footprint = s.footprint) (region : s'.region = s.region) :
    s'.Parted := by
  refine ⟨fun used other used' other' x here here' => ?_, fun used other x here => ?_, whole, ?_, ?_⟩
  · rcases origin _ _ _ here with ⟨rfl, rfl, inside⟩ | old <;>
      rcases origin _ _ _ here' with ⟨rfl, rfl, inside'⟩ | old'
    · exact ⟨rfl, rfl⟩
    · exact absurd inside (vacant _ _ x old')
    · exact absurd inside' (vacant _ _ x old)
    · exact parted.apart _ _ _ _ x old old'
  · rw [top]
    rcases origin _ _ _ here with ⟨-, -, low, high⟩ | old
    · exact within x low high
    · exact parted.below _ _ x old
  · rw [top, footprint]
    exact parted.top_le
  · rw [footprint, capacity, region]
    exact parted.footprint_le

/-- Taken off the list, a free stretch leaves the pieces that hold none of its bytes. -/
theorem Parted.holds_erase (parted : s.Parted) {e : Extent} {other : Nat}
    (gap : s.free.sizeAt? e.offset = some e.size) :
    Holds { s with free := s.free.erase e.offset } inUse other x
      ↔ s.Holds inUse other x ∧ ¬ (e.offset ≤ x ∧ x < e.offset + e.size) := by
  constructor
  · rintro ⟨size, stretch, inside⟩
    have old : s.Holds inUse other x ∧ (inUse = false → other ≠ e.offset) := by
      cases inUse with
      | true => exact ⟨⟨size, stretch, inside⟩, fun no => absurd no.symm Bool.false_ne_true⟩
      | false =>
        rw [Stretch, Gaps.sizeAt_erase] at stretch
        split at stretch
        · cases stretch
        case isFalse elsewhere => exact ⟨⟨size, stretch, inside⟩, fun _ => elsewhere⟩
    refine ⟨old.1, fun own => ?_⟩
    have mine : s.Holds false e.offset x := ⟨e.size, gap, own⟩
    obtain ⟨unused, here⟩ := parted.apart _ _ _ _ x old.1 mine
    exact old.2 unused here
  · rintro ⟨⟨size, stretch, inside⟩, outside⟩
    refine ⟨size, ?_, inside⟩
    cases inUse with
    | true => exact stretch
    | false =>
      have elsewhere : other ≠ e.offset := by
        rintro rfl
        cases gap.symm.trans stretch
        exact outside inside
      simp only [Stretch, Gaps.sizeAt_erase, if_neg elsewhere]
      exact stretch

theorem Parted.erase (parted : s.Parted) {e : Extent} (gap : s.free.sizeAt? e.offset = some e.size) :
    Parted { s with free := s.free.erase e.offset } :=
  parted.fewer (fun _ _ _ held => ((parted.holds_erase gap).1 held).1)
    (fun x size left => parted.whole x size (Gaps.sizeAt_of_erase left)) rfl rfl parted.top_le (Nat.le_refl _)

/-- Put on the list as free, a stretch adds no piece but that one. -/
theorem holds_insert {e : Extent} {other : Nat}
    (held : Holds { s with free := s.free.insert e } inUse other x) :
    inUse = false ∧ other = e.offset ∧ e.offset ≤ x ∧ x < e.stop ∨ s.Holds inUse other x := by
  obtain ⟨size, stretch, low, high⟩ := held
  cases inUse with
  | true => exact .inr ⟨size, stretch, low, high⟩
  | false =>
    rw [Stretch, Gaps.sizeAt_insert] at stretch
    split at stretch
    case isFalse => exact .inr ⟨size, stretch, low, high⟩
    case isTrue here =>
      cases stretch
      subst here
      exact .inl ⟨rfl, rfl, low, high⟩

theorem Parted.insert (parted : s.Parted) {e : Extent} (whole : e.size % Size.granule = 0)
    (within : ∀ x, e.offset ≤ x → x < e.stop → x < s.top)
    (clear : ∀ inUse offset x, s.Holds inUse offset x → ¬ (e.offset ≤ x ∧ x < e.stop)) :
    Parted { s with free := s.free.insert e } := by
  refine parted.with_piece false (fun _ _ _ => holds_insert) clear within (fun x size gap => ?_) rfl rfl rfl
  rw [Gaps.sizeAt_insert] at gap
  split at gap
  · cases gap
    exact whole
  · exact parted.whole x size gap

/-! ### Allocating -/

/-- A whole free stretch is taken. -/
theorem Parted.yields_gap (parted : s.Parted) {e : Extent} (gap : s.free.sizeAt? e.offset = some e.size)
    (positive : 0 < e.size) : Yielded s e.offset e.size { s with free := s.free.erase e.offset } := by
  have own : ∀ x, e.offset ≤ x → x < e.offset + e.size → s.Holds false e.offset x :=
    fun x low high => ⟨e.size, gap, low, high⟩
  refine ⟨⟨fun x low high => .inr ⟨_, own x low high⟩, fun x => ⟨?_, ?_⟩⟩, parted.erase gap,
    ⟨_, _, _, rfl⟩, fun _ _ _ held => ((parted.holds_erase gap).1 held).2, ?_, parted.whole _ _ gap⟩
  · rintro (above | ⟨offset, held⟩)
    · have above : s.top ≤ x := above
      refine ⟨.inl above, fun inside => ?_⟩
      have low := parted.below _ _ _ (own x inside.1 inside.2)
      omega
    · obtain ⟨old, outside⟩ := (parted.holds_erase gap).1 held
      exact ⟨.inr ⟨offset, old⟩, outside⟩
  · rintro ⟨above | ⟨offset, held⟩, outside⟩
    · exact .inl above
    · exact .inr ⟨offset, (parted.holds_erase gap).2 ⟨held, outside⟩⟩
  · have last := parted.below _ _ _ (own (e.offset + e.size - 1) (by omega) (by omega))
    change e.offset + e.size ≤ s.top
    omega

/-- Of what was taken only the low bytes are kept, and the rest is put on the list. -/
theorem Yielded.leave_rest (yielded : Yielded s offset taken s') (whole : size % Size.granule = 0)
    (less : size < taken) :
    Yielded s offset size { s' with free := s'.free.insert ⟨taken - size, offset + size⟩ } := by
  obtain ⟨⟨unclaimed, claims⟩, parted, ⟨free, top, footprint, rfl⟩, vacant, below, taken_whole⟩ := yielded
  have rest : ∀ x, offset + size ≤ x → x < Extent.stop ⟨taken - size, offset + size⟩ →
      offset + size ≤ x ∧ x < offset + taken := by
    intro x low high
    simp only [Extent.stop] at high
    omega
  refine ⟨⟨fun x low high => unclaimed x low (by omega), fun x => ⟨?_, ?_⟩⟩,
    parted.insert ?_ (fun x low high => ?_) ?_, ⟨_, _, _, rfl⟩, fun used other x held own => ?_,
    Nat.le_trans ?_ below, whole⟩
  · rintro (above | ⟨other, held⟩)
    · obtain ⟨old, outside⟩ := (claims x).1 (.inl above)
      exact ⟨old, by omega⟩
    · rcases holds_insert held with ⟨-, -, low, high⟩ | held
      · have inside := rest x low high
        exact ⟨unclaimed x (by omega) inside.2, by omega⟩
      · obtain ⟨old, outside⟩ := (claims x).1 (.inr ⟨other, held⟩)
        exact ⟨old, by omega⟩
  · rintro ⟨old, outside⟩
    by_cases left : offset + size ≤ x ∧ x < offset + taken
    · refine .inr ⟨offset + size, taken - size, (Gaps.sizeAt_insert ..).trans (if_pos rfl), left.1, ?_⟩
      omega
    · rcases (claims x).2 ⟨old, by omega⟩ with above | ⟨other, length, gap, low, high⟩
      · exact .inl above
      · -- A free stretch that began where the rest begins would hold a byte that was taken.
        have elsewhere : other ≠ offset + size := by
          rintro rfl
          exact vacant _ _ (offset + size) ⟨length, gap, Nat.le_refl _, by omega⟩ (by omega)
        exact .inr ⟨other, length, (Gaps.sizeAt_insert ..).trans ((if_neg elsewhere).trans gap), low, high⟩
  · simp only [Size.granule] at *
    omega
  · exact Nat.lt_of_lt_of_le (rest x low high).2 below
  · rintro used other x held ⟨low, high⟩
    have inside := rest x low high
    exact vacant used other x held (by omega)
  · rcases holds_insert held with ⟨-, -, low, high⟩ | held
    · have inside := rest x low high
      omega
    · exact vacant used other x held (by omega)
  · omega

theorem takeFree_yields (parted : s.Parted) (positive : 0 < size) (whole : size % Size.granule = 0)
    (take : s.takeFree? size = some (offset, taken, s')) :
    Yielded s offset taken s' ∧ size ≤ taken ∧ taken < size + Size.minChunk := by
  unfold takeFree? at take
  split at take
  · cases take
  case h_2 e fit =>
    obtain ⟨gap, enough, -⟩ := Gaps.bestFit_eq_some_iff.1 fit
    have yielded := parted.yields_gap gap (Nat.lt_of_lt_of_le positive enough)
    have least : 0 < Size.minChunk := by decide
    dsimp only at take
    split at take
    case isTrue =>
      cases take
      exact ⟨yielded.leave_rest whole (by omega), Nat.le_refl _, by omega⟩
    case isFalse =>
      cases take
      exact ⟨yielded, enough, by omega⟩

theorem Parted.yields_top (parted : s.Parted) {footprint : Nat} (whole : size % Size.granule = 0)
    (top_le : s.top + size ≤ footprint) (footprint_le : footprint ≤ s.capacity) :
    Yielded s s.top size { s with top := s.top + size, footprint } := by
  have lower : ∀ inUse offset x, s.Holds inUse offset x → x < s.top := parted.below
  refine ⟨⟨fun x low _ => .inl low, fun x => ⟨fun here => ?_, fun here => ?_⟩⟩,
    ⟨parted.apart, fun inUse offset x here => Nat.lt_of_lt_of_le (lower _ _ _ here) (Nat.le_add_right ..),
      parted.whole, top_le, footprint_le⟩, ⟨_, _, _, rfl⟩, fun inUse other x here => ?_, Nat.le_refl _, whole⟩
  · rcases here with above | ⟨offset, here⟩
    · have above : s.top + size ≤ x := above
      exact ⟨.inl (by omega), by omega⟩
    · have low := lower false offset x here
      exact ⟨.inr ⟨offset, here⟩, by omega⟩
  · obtain ⟨above | held, outside⟩ := here
    · have above : s.top ≤ x := above
      have beyond : s.top + size ≤ x := by omega
      exact .inl beyond
    · exact .inr held
  · have low := lower inUse other x here
    omega

theorem extendTop_yields (parted : s.Parted) (whole : size % Size.granule = 0)
    (extend : s.extendTop? size = .ok (some (offset, s'))) : Yielded s offset size s' := by
  simp only [extendTop?, bind, Except.bind, pure, Except.pure] at extend
  split at extend
  · cases extend
  split at extend
  case isTrue =>
    split at extend
    · cases extend
    case h_2 needed up =>
      split at extend
      · cases extend
      case isFalse room =>
        simp only [Bool.or_eq_true, decide_eq_true_eq, not_or, Nat.not_lt] at room
        cases extend
        exact parted.yields_top whole (Size.pagesUp_bounds up).1 room.2
  case isFalse reached =>
    cases extend
    exact parted.yields_top whole (Nat.not_lt.1 reached) parted.footprint_le

/-- A chunk on record holds no other bytes than were taken for it. -/
theorem Yielded.place (yielded : Yielded s offset taken s') : (s'.place offset taken n).Parted := by
  obtain ⟨-, parted, -, vacant, below, whole⟩ := yielded
  refine parted.with_piece true (fun used other x => ?_) vacant
    (fun x _ high => Nat.lt_of_lt_of_le high below) parted.whole rfl rfl rfl
  rintro ⟨length, stretch, low, high⟩
  cases used with
  | false => exact .inr ⟨length, stretch, low, high⟩
  | true =>
    rw [Stretch, recorded_place_wraps whole] at stretch
    split at stretch
    case isFalse => exact .inr ⟨length, stretch, low, high⟩
    case isTrue here =>
      -- The record is what is left over of the bytes that were taken, so no more than those.
      have short := Nat.mod_le taken (Chunk.fieldLimit * Size.granule)
      cases stretch
      exact .inl ⟨rfl, here, here ▸ low, by omega⟩

/-- All that an allocation can do to a space of any capacity: nothing, or place a chunk in room that was
made for it. -/
theorem Parted.calloc_cases (parted : s.Parted) {result : Option Nat}
    (run : s.calloc n = .ok (result, s')) : (result = none ∧ s' = s)
      ∨ ∃ offset taken needed s₁, result = some (s.base + offset) ∧ chunkSizeFor n = some needed
        ∧ needed ≤ taken ∧ taken < needed + Size.minChunk ∧ Yielded s offset taken s₁
        ∧ s' = s₁.place offset taken n := by
  rcases calloc_eq run with nothing | ⟨size, offset, taken, s₁, fits, here, room, same⟩
  · exact .inl nothing
  obtain ⟨whole, large, -⟩ := chunkSizeFor_eq fits
  have least : 0 < Size.minChunk := by decide
  refine .inr ⟨offset, taken, size, s₁, here, fits, ?_⟩
  cases room with
  | recycled take =>
    obtain ⟨yielded, enough, near⟩ := takeFree_yields parted (Nat.lt_of_lt_of_le least large) whole take
    exact ⟨enough, near, yielded, same⟩
  | raised _ whole_size extend =>
    subst whole_size
    exact ⟨Nat.le_refl _, by omega, extendTop_yields parted whole extend, same⟩

/-! ### Freeing -/

theorem Parted.giveBack (parted : s.Parted) {e : Extent} (whole : e.size % Size.granule = 0)
    (within : ∀ x, e.offset ≤ x → x < e.stop → x < s.top)
    (clear : ∀ inUse offset x, s.Holds inUse offset x → ¬ (e.offset ≤ x ∧ x < e.stop)) :
    (s.giveBack e).Parted := by
  unfold Space.giveBack
  split
  case isTrue ends =>
    have lowered : e.offset ≤ s.top := ends ▸ Nat.le_add_right ..
    refine ⟨parted.apart, fun inUse offset x here => ?_, parted.whole,
      Nat.le_trans lowered parted.top_le, parted.footprint_le⟩
    have low := parted.below inUse offset x here
    have outside := clear inUse offset x here
    change x < e.offset
    omega
  case isFalse => exact parted.insert whole within clear

/-- A chunk is freed with the bytes on its record, and those of the free stretches that touch them. -/
theorem Parted.release (parted : s.Parted) {address length : Nat}
    (release : s.release? address = some (length, s')) : s'.Parted := by
  obtain ⟨offset, recorded, rfl⟩ := release_eq release
  have absorbs := (s.free.joinBelow_absorbs ⟨length, offset⟩).then (Gaps.joinAbove_absorbs _ _)
  revert absorbs
  generalize (s.free.joinBelow ⟨length, offset⟩).2.joinAbove (s.free.joinBelow ⟨length, offset⟩).1 = joined
  intro absorbs
  obtain ⟨e, free⟩ := joined
  -- What is neither freed nor joined is as it was.
  have left : ∀ inUse other x, Holds { s with chunks := s.chunks.erase offset, free } inUse other x →
      s.Holds inUse other x ∧ (inUse = true → other ≠ offset)
        ∧ (inUse = false → free.sizeAt? other ≠ none) := by
    rintro inUse other x ⟨size, stretch, inside⟩
    cases inUse with
    | false =>
      have gap : free.sizeAt? other = some size := stretch
      refine ⟨⟨size, absorbs.rest _ _ gap, inside⟩, fun no => absurd no Bool.false_ne_true, fun _ none => ?_⟩
      exact Option.some_ne_none _ (gap.symm.trans none)
    | true =>
      rw [Stretch, recorded_erase_chunk rfl] at stretch
      split at stretch
      · cases stretch
      case isFalse elsewhere =>
        exact ⟨⟨size, stretch, inside⟩, fun _ => elsewhere,
          fun no => absurd no.symm Bool.false_ne_true⟩
  -- The bytes that become free were those of the chunk or of a stretch that was joined.
  have freed : ∀ x, e.offset ≤ x → x < e.stop → s.Holds true offset x
      ∨ ∃ other, s.Holds false other x ∧ free.sizeAt? other = none := by
    intro x low high
    rcases absorbs.bytes x low high with ⟨low, high⟩ | ⟨other, size, gap, out, inside⟩
    · exact .inl ⟨length, recorded, low, high⟩
    · exact .inr ⟨other, ⟨size, gap, inside⟩, out⟩
  have rest : Parted { s with chunks := s.chunks.erase offset, free } :=
    parted.fewer (fun _ _ x here => (left _ _ x here).1)
      (fun x size gap => parted.whole x size (absorbs.rest x size gap)) rfl rfl parted.top_le (Nat.le_refl _)
  refine rest.giveBack (absorbs.whole parted.whole ?_) (fun x low high => ?_) fun inUse other x here => ?_
  · obtain ⟨chunk, -, rfl⟩ := Option.map_eq_some_iff.1 recorded
    exact Nat.mul_mod_left ..
  · rcases freed x low high with old | ⟨_, old, -⟩
    · exact parted.below _ _ x old
    · exact parted.below _ _ x old
  · rintro ⟨low, high⟩
    obtain ⟨old, chunks, gaps⟩ := left inUse other x here
    rcases freed x low high with mine | ⟨joined, mine, out⟩
    · obtain ⟨rfl, rfl⟩ := parted.apart _ _ _ _ x old mine
      exact chunks rfl rfl
    · obtain ⟨rfl, rfl⟩ := parted.apart _ _ _ _ x old mine
      exact gaps rfl out

/-! ### Runs -/

theorem trim_within {pad released : Nat} (top : s.top ≤ s.footprint) (small : s.footprint < Word.limit)
    (run : s.trim pad = .ok (released, s')) : s.top ≤ s'.footprint ∧ s'.footprint ≤ s.footprint := by
  simp only [Space.trim, bind, Except.bind, pure, Except.pure] at run
  split at run
  · cases run
  case h_2 rounded up =>
    split at run
    · cases run
      exact ⟨top, Nat.le_refl _⟩
    split at run
    · cases run
    · cases run
      exact ⟨top_le_kept top small up, Nat.min_le_right ..⟩

/-- Each step keeps the bytes on record apart, however long the chunks are. -/
theorem Parted.perform (parted : s.Parted) (small : s.capacity < Size.unreservable) {op : Operation}
    {result : Option Nat} (run : s.perform op = .ok (result, s')) :
    s'.Parted ∧ s'.region = s.region := by
  cases op with
  | calloc n =>
    rcases parted.calloc_cases run with ⟨-, rfl⟩ | ⟨offset, taken, needed, s₁, -, -, -, -, yielded, rfl⟩
    · exact ⟨parted, rfl⟩
    · obtain ⟨free, top, footprint, same⟩ := yielded.frame
      exact ⟨yielded.place, same ▸ rfl⟩
  | release address =>
    obtain ⟨-, rfl | ⟨length, release⟩⟩ := perform_release run
    · exact ⟨parted, rfl⟩
    · obtain ⟨chunks, free, top, same⟩ := release_frame release
      exact ⟨parted.release release, same ▸ rfl⟩
  | setAllowed bytes =>
    obtain ⟨allowed, rfl⟩ := setAllowed_frame (perform_setAllowed run).2
    exact ⟨parted.congr rfl rfl rfl rfl parted.top_le (Nat.le_refl _), rfl⟩
  | trim pad =>
    obtain ⟨-, released, cut⟩ := perform_trim run
    have word : s.footprint < Word.limit := by
      have within := parted.footprint_le
      simp only [Size.unreservable, Word.limit] at *
      omega
    obtain ⟨kept, falls⟩ := trim_within parted.top_le word cut
    obtain ⟨footprint, words, rfl⟩ := trim_frame cut
    exact ⟨parted.congr rfl rfl rfl rfl kept falls, rfl⟩
  | releaseFreePages =>
    obtain ⟨-, released, back⟩ := perform_releaseFreePages run
    obtain ⟨words, rfl⟩ := releaseFreePages_frame back
    exact ⟨parted.congr rfl rfl rfl rfl parted.top_le (Nat.le_refl _), rfl⟩
  | setGeneration address generation =>
    cases run
    obtain ⟨chunks, same, recorded⟩ := s.setGeneration_frame address generation
    rw [same] at recorded ⊢
    exact ⟨parted.congr (funext recorded) rfl rfl rfl parted.top_le (Nat.le_refl _), rfl⟩
  | write address index value =>
    cases run
    exact ⟨parted.congr rfl rfl rfl rfl parted.top_le (Nat.le_refl _), rfl⟩

theorem Runs.parted {name : String} {base start capacity : Nat} {history : List (Operation × Option Nat)}
    (create : Space.create name base start capacity = .ok (.ok s)) (runs : s.Runs history s') :
    s'.Parted ∧ s'.region = s.region := by
  have small := (create_eq create).2.2.2.1
  obtain ⟨region, allowed, rfl, -⟩ := create_bare create
  induction runs with
  | nil => exact ⟨parted_empty .., rfl⟩
  | @step history s₁ s₂ result op _ _ run ih =>
    obtain ⟨parted₁, region₁⟩ := ih
    have small₁ : s₁.capacity < Size.unreservable := by
      rw [Space.capacity, region₁]
      exact small
    obtain ⟨parted₂, region₂⟩ := parted₁.perform small₁ run
    exact ⟨parted₂, region₂.trans region₁⟩

/-! ### New chunks -/

theorem chunkSizeFor_le (fits : chunkSizeFor n = some size) : size ≤ n + Size.minChunk := by
  simp only [chunkSizeFor] at fits
  split at fits
  · cases fits
    simp only [Size.chunkOverhead, Size.granule, Size.minChunk]
    omega
  · cases fits

theorem Yielded.placed (yielded : Yielded s offset taken s') (positive : 0 < taken) :
    ∃ chunk, (s'.place offset taken n).chunkAt? (s.base + offset) = some chunk
      ∧ chunk.size = taken % (Chunk.fieldLimit * Size.granule) ∧ taken ≤ s.capacity := by
  obtain ⟨-, parted, frame, -, below, whole⟩ := yielded
  have region : (s'.place offset taken n).region = s.region := by
    obtain ⟨free, top, footprint, rfl⟩ := frame
    rfl
  have room : offset + taken ≤ s.capacity := by
    rw [capacity, ← region]
    exact Nat.le_trans below (Nat.le_trans parted.top_le parted.footprint_le)
  have inside : s.region.contains (s.base + offset) = true := by
    rw [Region.contains, Bool.and_eq_true, decide_eq_true_eq, decide_eq_true_eq, Region.limit, base]
    rw [capacity] at room
    omega
  have known : (s'.place offset taken n).recorded? offset
      = some (taken % (Chunk.fieldLimit * Size.granule)) :=
    (recorded_place_wraps whole).trans (if_pos rfl)
  obtain ⟨chunk, found, size⟩ := Option.map_eq_some_iff.1 known
  refine ⟨chunk, ?_, size, by omega⟩
  have same : (s'.place offset taken n).base = s.base := congrArg Region.base region
  rw [chunkAt_eq (region ▸ inside), same, Nat.add_sub_cancel_left, found]

end Space

end ManagedHeap
