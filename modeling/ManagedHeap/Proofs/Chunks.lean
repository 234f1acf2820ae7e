import ManagedHeap.Proofs.Spaces

/-!
What an allocation takes from a space, step by step, and what a cap on its growth comes to.
-/

namespace ManagedHeap

namespace Space

variable {s s' : Space} {offset size taken n : Nat}

theorem takeFree_frame (take : s.takeFree? size = some (offset, taken, s')) :
    ∃ free, s' = { s with free } := by
  unfold takeFree? at take
  split at take
  · cases take
  · dsimp only at take
    split at take <;> cases take <;> exact ⟨_, rfl⟩

/-- The footprint grows only as far as it is allowed to. -/
theorem extendTop_frame (extend : s.extendTop? size = .ok (some (offset, s'))) :
    ∃ top footprint, s' = { s with top, footprint }
      ∧ (footprint = s.footprint ∨ s.footprint ≤ footprint ∧ footprint ≤ s.allowed) := by
  simp only [extendTop?, bind, Except.bind, pure, Except.pure] at extend
  split at extend
  · cases extend
  split at extend
  case isFalse =>
    cases extend
    exact ⟨_, _, rfl, .inl rfl⟩
  case isTrue grows =>
    cases up : Size.pagesUp (s.top + size) with
    | error => simp [up] at extend
    | ok needed =>
      have above := (Size.pagesUp_bounds up).1
      simp only [up] at extend
      split at extend
      · cases extend
      case isFalse room =>
        simp only [Bool.or_eq_true, decide_eq_true_eq, not_or, Nat.not_lt] at room
        cases extend
        exact ⟨_, _, rfl, .inr ⟨by omega, room.1⟩⟩

/-- Room for a chunk was made at an offset: out of a free stretch, or above `top`. -/
structure Carved (s : Space) (offset taken : Nat) (s' : Space) : Prop where
  laid : s'.Laid
  vacant : s'.Vacant offset (offset + taken)
  aligned : offset % Size.granule = 0
  whole : taken % Size.granule = 0
  below : offset + taken ≤ s'.top
  frame : ∃ free top footprint, s' = { s with free, top, footprint }
  footprint : s'.footprint = s.footprint
    ∨ s.footprint ≤ s'.footprint ∧ s'.footprint ≤ s.allowed

theorem Carved.placed {needed : Nat} (carved : Carved s offset taken s')
    (fits : chunkSizeFor n = some needed) (enough : needed ≤ taken) :
    Placed s (s'.place offset taken n) offset n := by
  have large := Nat.le_trans (chunkSizeFor_eq fits).2.1 enough
  have fresh := carved.vacant.not_mem (Nat.lt_of_lt_of_le (by decide) large) carved.laid
  have laid := carved.laid.place fits enough carved.vacant carved.aligned carved.below
  obtain ⟨free, top, footprint, rfl⟩ := carved.frame
  exact ⟨fresh, fun other => mem_place, laid, rfl⟩

theorem takeFree_carved (laid : s.Laid) (positive : 0 < size) (whole : size % Size.granule = 0)
    (take : s.takeFree? size = some (offset, taken, s')) : Carved s offset taken s' := by
  obtain ⟨laid', vacant, -, aligned, below, -, -⟩ := takeFree_vacant laid positive whole take
  obtain ⟨free, rfl⟩ := takeFree_frame take
  refine ⟨laid', vacant, aligned, ?_, below, ⟨free, _, _, rfl⟩, .inl rfl⟩
  unfold takeFree? at take
  split at take
  · cases take
  case h_2 found fit =>
    have gap := (Gaps.bestFit_eq_some_iff.1 fit).1
    have piece : s.Piece false found.offset found.size := gap
    have granular := (laid.aligned _ _ _ piece).2
    dsimp only at take
    split at take <;> cases take
    · exact whole
    · exact granular

theorem extendTop_carved (laid : s.Laid) (whole : size % Size.granule = 0)
    (extend : s.extendTop? size = .ok (some (offset, s'))) : Carved s offset size s' := by
  obtain ⟨laid', vacant, aligned, below, -, -⟩ := extendTop_vacant laid whole extend
  obtain ⟨top, footprint, rfl, grown⟩ := extendTop_frame extend
  exact ⟨laid', vacant, aligned, whole, below, ⟨_, top, footprint, rfl⟩, grown⟩

/-- Where an allocation finds room for a chunk. -/
inductive MakesRoom (s : Space) (size offset taken : Nat) (s' : Space) : Prop where
  | recycled : s.takeFree? size = some (offset, taken, s') → MakesRoom s size offset taken s'
  | raised : s.takeFree? size = none → taken = size → s.extendTop? size = .ok (some (offset, s')) →
    MakesRoom s size offset taken s'

/-- All that an allocation can do: nothing, or place a chunk where it finds room. -/
theorem calloc_eq {result : Option Nat} (run : s.calloc n = .ok (result, s')) :
    (result = none ∧ s' = s) ∨ ∃ size offset taken s₁, chunkSizeFor n = some size
      ∧ result = some (s.base + offset) ∧ s.MakesRoom size offset taken s₁
      ∧ s' = s₁.place offset taken n := by
  simp only [calloc, bind, Except.bind, pure, Except.pure] at run
  split at run
  case h_2 =>
    cases run
    exact .inl ⟨rfl, rfl⟩
  case h_1 size fits =>
    split at run
    · cases run
      exact .inl ⟨rfl, rfl⟩
    split at run
    case h_1 offset taken s₁ take =>
      cases run
      exact .inr ⟨size, offset, taken, s₁, fits, rfl, .recycled take, rfl⟩
    case h_2 nothing =>
      cases extend : s.extendTop? size with
      | error => simp [extend] at run
      | ok found =>
        rw [extend] at run
        cases found with
        | none =>
          cases run
          exact .inl ⟨rfl, rfl⟩
        | some found =>
          obtain ⟨offset, s₁⟩ := found
          cases run
          exact .inr ⟨size, offset, size, s₁, fits, rfl, .raised nothing rfl extend, rfl⟩

/-- Wherever room is found, it is carved out. -/
theorem MakesRoom.carved (room : s.MakesRoom size offset taken s') (laid : s.Laid)
    (fits : chunkSizeFor n = some size) : Carved s offset taken s' ∧ size ≤ taken := by
  obtain ⟨whole, large, -⟩ := chunkSizeFor_eq fits
  have positive : 0 < size := Nat.lt_of_lt_of_le (by decide) large
  cases room with
  | recycled take =>
    exact ⟨takeFree_carved laid positive whole take, (takeFree_vacant laid positive whole take).2.2.1⟩
  | raised _ same extend =>
    subst same
    exact ⟨extendTop_carved laid whole extend, Nat.le_refl _⟩

/-- All that an allocation can do where pieces lie apart: nothing, or carve out room and place a chunk
there. -/
theorem calloc_cases (laid : s.Laid) {result : Option Nat}
    (run : s.calloc n = .ok (result, s')) : (result = none ∧ s' = s)
      ∨ ∃ offset taken needed s₁, result = some (s.base + offset) ∧ chunkSizeFor n = some needed
        ∧ needed ≤ taken ∧ Carved s offset taken s₁ ∧ s' = s₁.place offset taken n := by
  rcases calloc_eq run with nothing | ⟨size, offset, taken, s₁, fits, here, room, same⟩
  · exact .inl nothing
  · obtain ⟨carved, enough⟩ := room.carved laid fits
    exact .inr ⟨offset, taken, size, s₁, here, fits, enough, carved, same⟩

theorem extendTop_total (word : s.top + size + Size.page < Word.limit) :
    ∃ found, s.extendTop? size = .ok found := by
  obtain ⟨needed, up⟩ : ∃ needed, Size.pagesUp (s.top + size) = .ok needed :=
    ⟨_, Size.pagesUp_eq_ok.2 ⟨word, rfl⟩⟩
  have small : ¬ Word.limit ≤ s.top + size := by omega
  simp only [extendTop?, if_neg small, up, bind, Except.bind, pure, Except.pure]
  split
  · split <;> exact ⟨_, rfl⟩
  · exact ⟨_, rfl⟩

/-- The arithmetic of an allocation stays within a word in any region that can be reserved. -/
theorem calloc_total (laid : s.Laid) (small : s.capacity < Size.unreservable) (n : Nat) :
    ∃ result s', s.calloc n = .ok (result, s') := by
  simp only [calloc, bind, Except.bind, pure, Except.pure]
  split
  case h_2 => exact ⟨_, _, rfl⟩
  case h_1 size fits =>
    split
    · exact ⟨_, _, rfl⟩
    case isFalse inside =>
      split
      · exact ⟨_, _, rfl⟩
      have top := Nat.le_trans laid.top_le laid.footprint_le
      have word : s.top + size + Size.page < Word.limit := by
        simp only [Size.unreservable, Word.limit, Size.page] at *
        omega
      obtain ⟨found, extend⟩ := extendTop_total word
      rw [extend]
      cases found <;> exact ⟨_, _, rfl⟩

/-- A footprint that is in pages is capped at the requested bytes in whole pages, and pinned where
it has come further already. -/
theorem setAllowed_eq {bytes : Nat} (pages : s.footprint % Size.page = 0)
    (small : s.footprint < Size.unreservable) (few : bytes < Size.unreservable) :
    ∃ allowed, s.setAllowed bytes = .ok { s with allowed } ∧ s.footprint ≤ allowed
      ∧ allowed % Size.page = 0 ∧ bytes ≤ allowed
      ∧ (bytes ≤ s.footprint ∧ allowed = s.footprint ∨ allowed < bytes + Size.page) := by
  unfold setAllowed
  split
  case isFalse reached =>
    exact ⟨s.footprint, rfl, Nat.le_refl _, pages, Nat.not_lt.1 reached,
      .inl ⟨Nat.not_lt.1 reached, rfl⟩⟩
  case isTrue below =>
    obtain ⟨room, up⟩ : ∃ room, Size.pagesUp (bytes - s.footprint) = .ok room := by
      refine ⟨_, Size.pagesUp_eq_ok.2 ⟨?_, rfl⟩⟩
      simp only [Size.unreservable, Word.limit, Size.page] at *
      omega
    obtain ⟨enough, near, whole⟩ := Size.pagesUp_bounds up
    have sum : Word.add s.footprint room = .ok (s.footprint + room) := by
      refine Word.add_eq_ok.2 ⟨?_, rfl⟩
      simp only [Size.unreservable, Word.limit, Size.page] at *
      omega
    refine ⟨s.footprint + room, ?_, Nat.le_add_right _ _, ?_, ?_, .inr ?_⟩
    · simp only [up, bind, Except.bind, sum, pure, Except.pure]
    · simp only [Size.page] at *
      omega
    · omega
    · omega

theorem create_frame {name : String} {base start capacity : Nat}
    (run : Space.create name base start capacity = .ok (.ok s)) (few : start < Size.unreservable) :
    ∃ region allowed, s = { name, region, allowed } ∧ start ≤ allowed
      ∧ allowed % Size.page = 0 ∧ allowed < start + Size.page := by
  obtain ⟨region, _, rfl, -, cap⟩ := create_bare run
  have none : Space.footprint { name, region } = 0 := rfl
  obtain ⟨allowed, capped, -, pages, above, near⟩ :=
    setAllowed_eq (none ▸ rfl) (none ▸ (by decide : 0 < Size.unreservable)) few
  cases capped.symm.trans cap
  refine ⟨region, _, rfl, above, pages, ?_⟩
  rcases near with ⟨nothing, same⟩ | near
  · have page : 0 < Size.page := by decide
    rw [same, none]
    omega
  · exact near

/-- Freeing a chunk changes neither the region nor what was obtained and is allowed. -/
theorem release_frame {address length : Nat}
    (release : s.release? address = some (length, s')) :
    ∃ chunks free top, s' = { s with chunks, free, top } := by
  simp only [release?, bind, Option.bind_eq_some_iff, Option.some.injEq, pure, Prod.mk.injEq]
    at release
  obtain ⟨offset, -, chunk, -, -, rfl⟩ := release
  unfold giveBack
  split <;> exact ⟨_, _, _, rfl⟩

theorem trim_frame {pad released : Nat} (run : s.trim pad = .ok (released, s')) :
    ∃ footprint words, s' = { s with footprint, words } := by
  simp only [Space.trim, bind, Except.bind, pure, Except.pure] at run
  split at run
  · cases run
  split at run
  · cases run
    exact ⟨_, _, rfl⟩
  split at run
  · cases run
  case h_2 discarded discard =>
    obtain ⟨words, same⟩ := discard_frame discard
    cases run
    exact ⟨_, words, by rw [same]⟩

/-! ### Lengths on record -/

variable {other x length : Nat}

/-- The length on the record of the chunk at an offset. -/
def recorded? (s : Space) (offset : Nat) : Option Nat := s.chunks[offset]?.map Chunk.size

theorem mem_chunks_iff : offset ∈ s.chunks ↔ (s.recorded? offset).isSome = true := by
  rw [recorded?, Option.isSome_map, Std.ExtTreeMap.mem_iff_isSome_getElem?]

theorem extent_eq_recorded (s : Space) (offset : Nat) : s.extent offset
    = max ((s.recorded? offset).getD 0) ((chunkSizeFor (s.requestedAt offset)).getD 0) := rfl

theorem recorded_erase_chunk (chunks : s'.chunks = s.chunks.erase offset) (other : Nat) :
    s'.recorded? other = if other = offset then none else s.recorded? other := by
  rw [recorded?, getElem?_erase_chunk chunks]
  by_cases same : other = offset
  · rw [if_pos same, if_pos same, Option.map_none]
  · rw [if_neg same, if_neg same, recorded?]

/-- A chunk is recorded with what is left of its length over multiples of the longest one. -/
theorem recorded_place_wraps (whole : taken % Size.granule = 0) :
    (s.place offset taken n).recorded? other
      = if other = offset then some (taken % (Chunk.fieldLimit * Size.granule)) else s.recorded? other := by
  have wraps : taken / Size.granule % Chunk.fieldLimit * Size.granule
      = taken % (Chunk.fieldLimit * Size.granule) := by
    simp only [Chunk.fieldLimit, Size.granule] at *
    omega
  simp only [recorded?, place, Std.ExtTreeMap.getElem?_insert, Nat.compare_eq_eq]
  by_cases here : other = offset
  · rw [if_pos here, if_pos here.symm, Option.map_some, Chunk.size, wraps]
  · rw [if_neg here, if_neg fun same => here same.symm]

/-- A chunk of less than 32 bits of granules is recorded with its whole length. -/
theorem recorded_place (whole : taken % Size.granule = 0) (few : taken / Size.granule < Chunk.fieldLimit) :
    (s.place offset taken n).recorded? other
      = if other = offset then some taken else s.recorded? other := by
  have short : taken < Chunk.fieldLimit * Size.granule := by
    simp only [Chunk.fieldLimit, Size.granule] at *
    omega
  rw [recorded_place_wraps whole, Nat.mod_eq_of_lt short]

theorem chunkAt_eq (inside : s.region.contains x = true) :
    s.chunkAt? x = s.chunks[x - s.base]? := by
  rw [chunkAt?, offsetOf?, if_pos inside]

theorem isSome_chunkAt : (s.chunkAt? x).isSome = true
    ↔ s.region.contains x = true ∧ (s.recorded? (x - s.base)).isSome = true := by
  by_cases inside : s.region.contains x = true
  · simp [chunkAt_eq inside, inside, recorded?]
  · simp [chunkAt?, offsetOf?, inside]

theorem usableSize_of_chunk {chunk : Chunk} (begun : s.chunkAt? x = some chunk) :
    s.usableSize? x = if Size.chunkOverhead ≤ chunk.size
      then .ok (some (chunk.size - Size.chunkOverhead)) else .error .overflow := by
  simp only [usableSize?, begun, Chunk.usable, Word.sub, bind, Except.bind, pure, Except.pure]
  by_cases room : Size.chunkOverhead ≤ chunk.size
  · rw [if_pos room, if_pos room]
  · rw [if_neg room, if_neg room]

theorem usableSize_eq (inside : s.region.contains x = true)
    (recorded : s.recorded? (x - s.base) = some length) (large : Size.minChunk ≤ length) :
    s.usableSize? x = .ok (some (length - Size.chunkOverhead)) := by
  obtain ⟨chunk, found, rfl⟩ := Option.map_eq_some_iff.1 recorded
  rw [usableSize_of_chunk ((chunkAt_eq inside).trans found), if_pos (Nat.le_trans (by decide) large)]

theorem release_total (inside : s.region.contains x = true)
    (started : (s.recorded? (x - s.base)).isSome = true) :
    ∃ length s', s.release? x = some (length, s') := by
  obtain ⟨chunk, found⟩ := Option.isSome_iff_exists.1 ((Option.isSome_map ..).symm.trans started)
  simp only [release?, offsetOf?, if_pos inside, bind, Option.bind_some, found]
  exact ⟨_, _, rfl⟩

/-- What is usable of a chunk, and the bookkeeping, is the length on its record. -/
theorem measured_eq {usable : Option Nat} (inside : s.region.contains x = true)
    (recorded : s.recorded? (x - s.base) = some length) (measured : s.usableSize? x = .ok usable) :
    usable.getD 0 + Size.chunkOverhead = length := by
  obtain ⟨chunk, found, rfl⟩ := Option.map_eq_some_iff.1 recorded
  rw [usableSize_of_chunk ((chunkAt_eq inside).trans found)] at measured
  split at measured
  case isTrue room =>
    cases measured
    exact Nat.sub_add_cancel room
  case isFalse => cases measured

/-- Only what starts at the address is freed. -/
theorem release_at (release : s.release? x = some (length, s')) :
    s.region.contains x = true ∧ s.recorded? (x - s.base) = some length := by
  simp only [release?, bind, Option.bind_eq_some_iff, Option.some.injEq, pure, Prod.mk.injEq]
    at release
  obtain ⟨offset, here, chunk, found, rfl, -⟩ := release
  rw [offsetOf?] at here
  split at here
  case isFalse => cases here
  case isTrue inside =>
    cases here
    exact ⟨inside, by rw [recorded?, found, Option.map_some]⟩

/-- A freed chunk is off the record, and no other is. -/
theorem release_recorded {usable : Option Nat} (laid : s.Laid)
    (measured : s.usableSize? x = .ok usable) (release : s.release? x = some (length, s')) :
    s'.region = s.region ∧ ∀ other, s'.recorded? other
      = if other = x - s.base then none else s.recorded? other := by
  obtain ⟨offset, rfl, -, chunks, -, region, -, -⟩ :=
    release_spec laid (release_positive measured release) release
  refine ⟨region, fun other => ?_⟩
  rw [recorded_erase_chunk chunks, Nat.add_sub_cancel_left]

theorem Carved.kept (carved : Carved s offset taken s') :
    s'.region = s.region ∧ s'.allowed = s.allowed ∧ s'.recorded? = s.recorded? := by
  obtain ⟨free, top, footprint, rfl⟩ := carved.frame
  exact ⟨rfl, rfl, rfl⟩

/-- Room that was carved out lies in the space. -/
theorem Carved.contains {needed : Nat} (carved : Carved s offset taken s')
    (fits : chunkSizeFor n = some needed) (enough : needed ≤ taken) :
    s.region.contains (s.base + offset) = true := by
  have large := (chunkSizeFor_eq fits).2.1
  have below := carved.below
  have top := carved.laid.top_le
  have whole := carved.laid.footprint_le
  have positive : 0 < Size.minChunk := by decide
  rw [capacity, carved.kept.1] at whole
  rw [Region.contains, Bool.and_eq_true, decide_eq_true_eq, decide_eq_true_eq, Region.limit, base]
  omega

/-! ### Generations -/

/-- Stamping a chunk changes no length and nothing but records. -/
theorem setGeneration_frame (s : Space) (address generation : Nat) :
    ∃ chunks, s.setGeneration address generation = { s with chunks }
      ∧ ∀ offset, (s.setGeneration address generation).recorded? offset = s.recorded? offset := by
  unfold setGeneration
  split
  case h_1 => exact ⟨_, rfl, fun _ => rfl⟩
  case h_2 offset _ =>
    refine ⟨_, rfl, fun other => ?_⟩
    simp only [recorded?, Std.ExtTreeMap.getElem?_modify, Nat.compare_eq_eq]
    by_cases here : offset = other
    · subst here
      rw [if_pos rfl, Option.map_map]
      rfl
    · rw [if_neg here]

/-- The layout does not depend on anything else on the records. -/
theorem Laid.of_recorded (laid : s.Laid)
    (recorded : ∀ offset, s'.recorded? offset = s.recorded? offset)
    (frame : ∃ chunks, s' = { s with chunks }) : s'.Laid := by
  obtain ⟨chunks, rfl⟩ := frame
  have member : ∀ offset, offset ∈ chunks → offset ∈ s.chunks := by
    intro offset here
    have known : offset ∈ { s with chunks }.chunks := here
    rw [mem_chunks_iff, recorded] at known
    rwa [mem_chunks_iff]
  refine laid.of_pieces ?_ (fun offset here => laid.requested offset (member offset here)) rfl rfl rfl
  intro inUse offset size piece
  cases inUse with
  | false => exact piece
  | true =>
    obtain ⟨here, rfl⟩ := piece
    refine ⟨member offset here, ?_⟩
    rw [extent_eq_recorded, extent_eq_recorded, recorded]
    rfl

end Space

end ManagedHeap
