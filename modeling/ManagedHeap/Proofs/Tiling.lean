import ManagedHeap.Proofs.Weaving

/-!
The canonical form of a space. Its free stretches are what lies between the chunks, and a walk over the
space passes over all of the footprint.
-/

namespace ManagedHeap

namespace Space

variable {s s' : Space} {offset size x : Nat} {inUse : Bool}

/-! ### What the space looks like -/

/-- Every offset below `top` belongs to a piece. -/
theorem Seamless.covered (seamless : s.Seamless) (below : x < s.top) :
    ∃ inUse offset size, s.Piece inUse offset size ∧ offset ≤ x ∧ x < offset + size := by
  obtain ⟨laid, woven, -, -⟩ := seamless
  have starts : ∀ y, s.Meets y → y < s.top →
      ∃ inUse offset size, s.Piece inUse offset size ∧ offset ≤ y ∧ y < offset + size := by
    rintro y (top | ⟨inUse, size, piece⟩) lower
    · omega
    · have positive := laid.positive _ _ _ piece
      exact ⟨inUse, y, size, piece, Nat.le_refl _, by omega⟩
  induction x with
  | zero => exact starts 0 woven.first below
  | succ x ih =>
    obtain ⟨inUse, offset, size, piece, low, high⟩ := ih (by omega)
    rcases Nat.lt_or_ge (x + 1) (offset + size) with inside | ends
    · exact ⟨inUse, offset, size, piece, by omega, inside⟩
    · have stop : x + 1 = offset + size := by omega
      exact starts _ (stop ▸ woven.next piece) below

/-- Where a piece starts, and at `top`, another one ends. -/
theorem Seamless.ends (seamless : s.Seamless) (positive : 0 < x) (below : x ≤ s.top)
    (meets : s.Meets x) : (∃ offset ∈ s.chunks, offset + s.extent offset = x)
      ∨ ∃ offset size, s.free.sizeAt? offset = some size ∧ offset + size = x := by
  have laid := seamless.laid
  obtain ⟨inUse, offset, size, piece, low, high⟩ := seamless.covered (x := x - 1) (by omega)
  have bound := laid.below _ _ _ piece
  have stop : offset + size = x := by
    rcases meets with top | ⟨inUse', size', piece'⟩
    · omega
    · have some_room := laid.positive _ _ _ piece'
      rcases laid.apart _ _ _ _ _ _ piece piece' with ⟨-, same⟩ | apart
      · omega
      · omega
  cases inUse with
  | false => exact .inr ⟨offset, size, piece, stop⟩
  | true =>
    obtain ⟨chunk, rfl⟩ := piece
    exact .inl ⟨offset, chunk, stop⟩

/-- A chunk ends at `top` and where a free stretch starts: another free stretch would be followed by a
chunk. -/
theorem Seamless.chunk_ends (seamless : s.Seamless) (positive : 0 < x)
    (edge : x = s.top ∨ ∃ size, s.free.sizeAt? x = some size) :
    ∃ offset size, s.recorded? offset = some size ∧ offset + size = x := by
  obtain ⟨laid, woven, -, -⟩ := id seamless
  obtain ⟨below, meets⟩ : x ≤ s.top ∧ s.Meets x := by
    rcases edge with top | ⟨size, gap⟩
    · exact ⟨Nat.le_of_eq top, .inl top⟩
    · have bound := laid.below false _ _ gap
      exact ⟨by omega, meets_gap gap⟩
  rcases seamless.ends positive below meets with ⟨y, chunk, stop⟩ | ⟨y, length, gap, stop⟩
  · obtain ⟨length, recorded⟩ := Option.isSome_iff_exists.1 (mem_chunks_iff.1 chunk)
    rw [woven.exact y length recorded] at stop
    exact ⟨y, length, recorded, stop⟩
  · have chunk := woven.gap_next y length gap
    rw [stop] at chunk
    have other := piece_chunk chunk
    have room := laid.positive _ _ _ other
    rcases edge with top | ⟨size, gap'⟩
    · have bound := laid.below _ _ _ other
      omega
    · have room' := laid.positive false _ _ gap'
      have apart := laid.kinds_apart other gap'
      omega

/-- The stretch lies between two chunks, or between the start and a chunk, and touches both. -/
structure Between (s : Space) (first stop : Nat) : Prop where
  order : first < stop
  low : first = 0 ∨ ∃ offset size, s.recorded? offset = some size ∧ offset + size = first
  high : (s.recorded? stop).isSome = true
  clear : ∀ offset size, s.recorded? offset = some size → offset + size ≤ first ∨ stop ≤ offset

theorem Seamless.between_of_gap (seamless : s.Seamless) (gap : s.free.sizeAt? offset = some size) :
    s.Between offset (offset + size) := by
  obtain ⟨laid, woven, -, -⟩ := id seamless
  have positive := laid.positive false _ _ gap
  refine ⟨by omega, ?_, mem_chunks_iff.1 (woven.gap_next _ _ gap), fun x length recorded => ?_⟩
  · rcases Nat.eq_zero_or_pos offset with zero | above
    · exact .inl zero
    · exact .inr (seamless.chunk_ends above (.inr ⟨size, gap⟩))
  · exact laid.kinds_apart (woven.piece_iff.2 (show s.Stretch true x length from recorded)) gap

/-- What lies between chunks starts with a piece, which is no chunk and ends where the next one starts. -/
theorem Seamless.gap_of_between (seamless : s.Seamless) (between : s.Between offset (offset + size)) :
    s.free.sizeAt? offset = some size := by
  obtain ⟨laid, woven, -, -⟩ := id seamless
  obtain ⟨order, low, high, clear⟩ := between
  have chunk_of : ∀ {x length}, s.recorded? x = some length → s.Piece true x length :=
    fun recorded => woven.piece_iff.2 recorded
  have next := piece_chunk (mem_chunks_iff.2 high)
  have some_room := laid.positive _ _ _ next
  have bound := laid.below _ _ _ next
  have meets : s.Meets offset := by
    rcases low with rfl | ⟨x, length, recorded, rfl⟩
    · exact woven.first
    · exact woven.next (chunk_of recorded)
  rcases meets with top | ⟨inUse, length, piece⟩
  · omega
  · have positive := laid.positive _ _ _ piece
    cases inUse with
    | true =>
      have apart := clear offset length (woven.piece_iff.1 piece)
      omega
    | false =>
      have gap : s.free.sizeAt? offset = some length := piece
      obtain ⟨other, recorded⟩ :=
        Option.isSome_iff_exists.1 (mem_chunks_iff.1 (woven.gap_next _ _ gap))
      have room := laid.positive _ _ _ (chunk_of recorded)
      have apart := clear _ other recorded
      have apart' := laid.kinds_apart next gap
      rw [gap, show length = size by omega]

end Space

/-! ### Walks -/

namespace Block

/-- The blocks follow each other without a break from one address to another. -/
def Tiles : Nat → List Block → Nat → Prop
  | first, [], stop => first = stop
  | first, b :: rest, stop => b.address = first ∧ 0 < b.length ∧ Tiles (first + b.length) rest stop

/-- The first block ends before the second begins. -/
def Precedes (b b' : Block) : Prop := b.address + b.length ≤ b'.address

variable {blocks others : List Block} {first middle stop : Nat}

theorem Tiles.append (tiles : Tiles first blocks middle) (tiles' : Tiles middle others stop) :
    Tiles first (blocks ++ others) stop := by
  induction blocks generalizing first with
  | nil =>
    have same : first = middle := tiles
    exact same ▸ tiles'
  | cons b rest ih =>
    obtain ⟨starts, positive, tiles⟩ := tiles
    exact ⟨starts, positive, ih tiles⟩

/-- Blocks that lie in order tile what they lie in if each is followed by another one. -/
theorem tiles_of_next (apart : blocks.Pairwise Precedes) (positive : ∀ b ∈ blocks, 0 < b.length)
    (within : ∀ b ∈ blocks, first ≤ b.address ∧ b.address + b.length ≤ stop)
    (start : first = stop ∨ ∃ b ∈ blocks, b.address = first)
    (next : ∀ b ∈ blocks, b.address + b.length = stop
      ∨ ∃ b' ∈ blocks, b'.address = b.address + b.length) : Tiles first blocks stop := by
  induction blocks generalizing first with
  | nil =>
    rcases start with same | ⟨b, none, -⟩
    · exact same
    · cases none
  | cons b rest ih =>
    obtain ⟨before, apart⟩ := List.pairwise_cons.1 apart
    have room := positive b List.mem_cons_self
    have inside := within b List.mem_cons_self
    have starts : b.address = first := by
      rcases start with same | ⟨b', member, here⟩
      · omega
      · rcases List.mem_cons.1 member with rfl | later
        · exact here
        · have order : b.address + b.length ≤ b'.address := before b' later
          omega
    refine ⟨starts, room, ih apart (fun b' later => positive b' (List.mem_cons_of_mem _ later))
      (fun b' later => ?_) ?_ fun b' later => ?_⟩
    · have order : b.address + b.length ≤ b'.address := before b' later
      exact ⟨by omega, (within b' (List.mem_cons_of_mem _ later)).2⟩
    · rcases next b List.mem_cons_self with ends | ⟨b', member, follows⟩
      · exact .inl (by omega)
      · rcases List.mem_cons.1 member with rfl | later
        · omega
        · exact .inr ⟨b', later, by omega⟩
    · have order : b.address + b.length ≤ b'.address := before b' later
      rcases next b' (List.mem_cons_of_mem _ later) with ends | ⟨b'', member, follows⟩
      · exact .inl ends
      · rcases List.mem_cons.1 member with rfl | later'
        · omega
        · exact .inr ⟨b'', later', follows⟩

/-- Merged by address, blocks that lie apart lie in order. -/
theorem pairwise_merge (apart : blocks.Pairwise Precedes) (apart' : others.Pairwise Precedes)
    (across : ∀ b ∈ blocks, ∀ b' ∈ others, b.Precedes b' ∨ b'.Precedes b)
    (positive : ∀ b ∈ blocks, 0 < b.length) :
    (blocks.merge others fun b b' => b.address < b'.address).Pairwise Precedes := by
  have trans : ∀ {a b c : Block}, a.Precedes b → b.Precedes c → a.Precedes c := by
    intro a b c first second
    simp only [Precedes] at *
    omega
  induction blocks generalizing others with
  | nil => rwa [List.nil_merge]
  | cons b rest ih =>
    induction others with
    | nil => rwa [List.merge_right]
    | cons b' rest' ih' =>
      obtain ⟨before, apart₁⟩ := List.pairwise_cons.1 apart
      obtain ⟨before', apart₁'⟩ := List.pairwise_cons.1 apart'
      have either := across b List.mem_cons_self b' List.mem_cons_self
      rw [List.cons_merge_cons]
      split
      case isTrue lower =>
        have order : b.Precedes b' := by
          rw [decide_eq_true_eq] at lower
          simp only [Precedes] at *
          omega
        refine List.pairwise_cons.2 ⟨fun c member => ?_, ih apart₁ apart' (fun c later c' member =>
          across c (List.mem_cons_of_mem _ later) c' member)
            fun c later => positive c (List.mem_cons_of_mem _ later)⟩
        rcases List.mem_merge.1 member with later | other
        · exact before c later
        · rcases List.mem_cons.1 other with rfl | later
          · exact order
          · exact trans order (before' c later)
      case isFalse higher =>
        have order : b'.Precedes b := by
          have room := positive b List.mem_cons_self
          rw [decide_eq_true_eq] at higher
          simp only [Precedes] at *
          omega
        refine List.pairwise_cons.2 ⟨fun c member => ?_, ih' apart₁' (fun c member c' later =>
          across c member c' (List.mem_cons_of_mem _ later))⟩
        rcases List.mem_merge.1 member with other | later
        · rcases List.mem_cons.1 other with rfl | later
          · exact order
          · exact trans order (before c later)
        · exact before' c later

end Block

namespace Space

variable {s s' : Space} {offset size : Nat}

/-- The chunks and free stretches in address order. -/
def pieces (s : Space) : List Block :=
  (s.chunks.toList.map fun (offset, c) => Block.mk (s.base + offset) c.size true).merge
    (s.free.toList.map fun e => Block.mk (s.base + e.offset) e.size false)
    fun u f => u.address < f.address

/-- The part of the footprint that is not in use. -/
def unusedTail (s : Space) : List Block :=
  if s.top < s.footprint then [Block.mk (s.base + s.top) (s.footprint - s.top) false] else []

theorem blocks_eq (s : Space) : s.blocks = s.pieces ++ s.unusedTail := rfl

theorem mem_used {b : Block} : b ∈ (s.chunks.toList.map fun (offset, c) =>
      Block.mk (s.base + offset) c.size true)
    ↔ ∃ offset size, s.recorded? offset = some size ∧ b = ⟨s.base + offset, size, true⟩ := by
  rw [List.mem_map]
  constructor
  · rintro ⟨⟨offset, chunk⟩, member, rfl⟩
    refine ⟨offset, chunk.size, ?_, rfl⟩
    rw [recorded?, Std.ExtTreeMap.mem_toList_iff_getElem?_eq_some.1 member, Option.map_some]
  · rintro ⟨offset, size, recorded, rfl⟩
    obtain ⟨chunk, found, rfl⟩ := Option.map_eq_some_iff.1 recorded
    exact ⟨(offset, chunk), Std.ExtTreeMap.mem_toList_iff_getElem?_eq_some.2 found, rfl⟩

theorem mem_free {b : Block} : b ∈ (s.free.toList.map fun e =>
      Block.mk (s.base + e.offset) e.size false)
    ↔ ∃ offset size, s.free.sizeAt? offset = some size ∧ b = ⟨s.base + offset, size, false⟩ := by
  rw [List.mem_map]
  constructor
  · rintro ⟨e, member, rfl⟩
    obtain ⟨⟨offset, size⟩, here, rfl⟩ := List.mem_map.1 member
    exact ⟨offset, size, Std.ExtTreeMap.mem_toList_iff_getElem?_eq_some.1 here, rfl⟩
  · rintro ⟨offset, size, gap, rfl⟩
    refine ⟨⟨size, offset⟩, List.mem_map.2 ⟨(offset, size), ?_, rfl⟩, rfl⟩
    exact Std.ExtTreeMap.mem_toList_iff_getElem?_eq_some.2 gap

theorem Woven.mem_pieces (woven : s.Woven) {b : Block} : b ∈ s.pieces
    ↔ ∃ inUse offset size, s.Piece inUse offset size ∧ b = ⟨s.base + offset, size, inUse⟩ := by
  rw [pieces, List.mem_merge, mem_used, mem_free]
  constructor
  · rintro (⟨offset, size, recorded, same⟩ | ⟨offset, size, gap, same⟩)
    · exact ⟨true, offset, size, woven.piece_iff.2 recorded, same⟩
    · exact ⟨false, offset, size, gap, same⟩
  · rintro ⟨inUse, offset, size, piece, same⟩
    cases inUse with
    | true => exact .inl ⟨offset, size, woven.piece_iff.1 piece, same⟩
    | false => exact .inr ⟨offset, size, piece, same⟩

/-- The pieces come in order. -/
theorem Seamless.pairwise_pieces (seamless : s.Seamless) : s.pieces.Pairwise Block.Precedes := by
  obtain ⟨laid, woven, -, -⟩ := seamless
  have chunk_of : ∀ {x size}, s.recorded? x = some size → s.Piece true x size :=
    fun recorded => woven.piece_iff.2 recorded
  apply Block.pairwise_merge
  · refine List.pairwise_map.2 (Nearest.pairwise_toList.imp_of_mem ?_)
    rintro ⟨x, chunk⟩ ⟨x', chunk'⟩ member member' order
    have recorded : ∀ {x chunk}, (x, chunk) ∈ s.chunks.toList → s.recorded? x = some chunk.size := by
      intro x chunk member
      rw [recorded?, Std.ExtTreeMap.mem_toList_iff_getElem?_eq_some.1 member, Option.map_some]
    have apart := laid.precedes (chunk_of (recorded member)) (chunk_of (recorded member')) order
    simp only [Block.Precedes]
    omega
  · rw [Gaps.toList, List.map_map]
    refine List.pairwise_map.2 (Nearest.pairwise_toList.imp_of_mem ?_)
    rintro ⟨x, size⟩ ⟨x', size'⟩ member member' order
    have gap : s.free.sizeAt? x = some size := Std.ExtTreeMap.mem_toList_iff_getElem?_eq_some.1 member
    have gap' : s.free.sizeAt? x' = some size' :=
      Std.ExtTreeMap.mem_toList_iff_getElem?_eq_some.1 member'
    have apart := laid.gaps_apart gap gap' order
    simp only [Block.Precedes, Function.comp_apply]
    omega
  · intro b member b' member'
    obtain ⟨x, size, recorded, rfl⟩ := mem_used.1 member
    obtain ⟨x', size', gap, rfl⟩ := mem_free.1 member'
    simp only [Block.Precedes]
    have apart := laid.kinds_apart (chunk_of recorded) gap
    omega
  · intro b member
    obtain ⟨x, size, recorded, rfl⟩ := mem_used.1 member
    exact laid.positive _ _ _ (chunk_of recorded)

theorem Seamless.tiles_pieces (seamless : s.Seamless) :
    Block.Tiles s.base s.pieces (s.base + s.top) := by
  obtain ⟨laid, woven, -, -⟩ := id seamless
  have starts : ∀ x, s.Meets x → s.base + x = s.base + s.top
      ∨ ∃ b ∈ s.pieces, b.address = s.base + x := by
    rintro x (top | ⟨inUse, size, piece⟩)
    · exact .inl (top ▸ rfl)
    · exact .inr ⟨_, woven.mem_pieces.2 ⟨inUse, x, size, piece, rfl⟩, rfl⟩
  apply Block.tiles_of_next seamless.pairwise_pieces
  · intro b member
    obtain ⟨inUse, x, size, piece, rfl⟩ := woven.mem_pieces.1 member
    exact laid.positive _ _ _ piece
  · intro b member
    obtain ⟨inUse, x, size, piece, rfl⟩ := woven.mem_pieces.1 member
    have below := laid.below _ _ _ piece
    dsimp only
    omega
  · exact starts 0 woven.first
  · intro b member
    obtain ⟨inUse, x, size, piece, rfl⟩ := woven.mem_pieces.1 member
    have follows := starts _ (woven.next piece)
    rwa [← Nat.add_assoc] at follows

theorem Seamless.tiles_blocks (seamless : s.Seamless) :
    Block.Tiles s.base s.blocks (s.base + s.footprint) := by
  have top_le := seamless.laid.top_le
  rw [blocks_eq]
  apply seamless.tiles_pieces.append
  unfold unusedTail
  split
  case isTrue some_room => exact ⟨rfl, Nat.sub_pos_of_lt some_room, by dsimp only [Block.Tiles]; omega⟩
  case isFalse full => exact congrArg (s.base + ·) (Nat.le_antisymm top_le (Nat.not_lt.1 full))

/-- A walk reports a stretch as in use exactly if it is a chunk. -/
theorem Woven.mem_blocks (woven : s.Woven) {address length : Nat} :
    ⟨address, length, true⟩ ∈ s.blocks
      ↔ ∃ offset, s.recorded? offset = some length ∧ address = s.base + offset := by
  have tail : ⟨address, length, true⟩ ∉ s.unusedTail := by
    unfold unusedTail
    split
    · intro member
      cases List.mem_singleton.1 member
    · exact List.not_mem_nil
  rw [blocks_eq, List.mem_append, or_iff_left tail, woven.mem_pieces]
  constructor
  · rintro ⟨inUse, offset, size, piece, same⟩
    cases same
    exact ⟨offset, woven.piece_iff.1 piece, rfl⟩
  · rintro ⟨offset, recorded, rfl⟩
    exact ⟨true, offset, length, woven.piece_iff.2 recorded, rfl⟩

/-- The canonical form. -/
structure Canonical (s : Space) : Prop where
  /-- Both indexes have the same free stretches. -/
  indexes : ∀ e, e ∈ s.free.bySize ↔ s.free.byOffset[e.offset]? = some e.size
  sizes : ∀ inUse offset size, s.Stretch inUse offset size →
    size % Size.granule = 0 ∧ Size.minChunk ≤ size
  apart : ∀ inUse offset size inUse' offset' size', s.Stretch inUse offset size →
    s.Stretch inUse' offset' size' → (inUse = inUse' ∧ offset = offset')
      ∨ offset + size ≤ offset' ∨ offset' + size' ≤ offset
  below : ∀ inUse offset size, s.Stretch inUse offset size → offset + size ≤ s.top
  covered : ∀ x < s.top,
    ∃ inUse offset size, s.Stretch inUse offset size ∧ offset ≤ x ∧ x < offset + size
  /-- The free stretches are what is left between the chunks. -/
  gaps : ∀ offset size, s.free.sizeAt? offset = some size ↔ s.Between offset (offset + size)
  maximal : ∀ offset size, s.free.sizeAt? offset = some size →
    offset + size ≠ s.top ∧ s.free.sizeAt? (offset + size) = none
  top : s.top = 0 ∨ ∃ offset size, s.recorded? offset = some size ∧ offset + size = s.top
  top_le : s.top ≤ s.footprint
  footprint_le : s.footprint ≤ min s.allowed s.capacity
  pages : s.footprint % Size.page = 0 ∧ s.allowed % Size.page = 0
  /-- A walk passes over all of the footprint. -/
  walk : Block.Tiles s.base s.blocks (s.base + s.footprint)
  in_use : ∀ address length, ⟨address, length, true⟩ ∈ s.blocks
    ↔ ∃ offset, s.recorded? offset = some length ∧ address = s.base + offset

theorem Seamless.canonical (seamless : s.Seamless) : s.Canonical := by
  obtain ⟨laid, woven, allowed, pages⟩ := id seamless
  refine ⟨s.free.agree, ?_, ?_, ?_, ?_,
    fun offset size => ⟨seamless.between_of_gap, seamless.gap_of_between⟩, fun offset size gap => ?_,
    ?_, laid.top_le, Nat.le_min.2 ⟨allowed, laid.footprint_le⟩, ⟨laid.footprint_pages, pages⟩,
    seamless.tiles_blocks, fun _ _ => woven.mem_blocks⟩
  · intro inUse offset size stretch
    have piece := woven.piece_iff.2 stretch
    exact ⟨(laid.aligned _ _ _ piece).2, woven.piece_large laid piece⟩
  · intro inUse offset size inUse' offset' size' stretch stretch'
    exact laid.apart _ _ _ _ _ _ (woven.piece_iff.2 stretch) (woven.piece_iff.2 stretch')
  · intro inUse offset size stretch
    exact laid.below _ _ _ (woven.piece_iff.2 stretch)
  · intro x below
    obtain ⟨inUse, offset, size, piece, here⟩ := seamless.covered below
    exact ⟨inUse, offset, size, woven.piece_iff.1 piece, here⟩
  · have next := piece_chunk (woven.gap_next offset size gap)
    have positive := laid.positive _ _ _ next
    have bound := laid.below _ _ _ next
    refine ⟨by omega, Option.eq_none_iff_forall_ne_some.2 fun other gap' => ?_⟩
    have room := laid.positive false _ _ gap'
    have apart := laid.kinds_apart next gap'
    omega
  · rcases Nat.eq_zero_or_pos s.top with zero | positive
    · exact .inl zero
    · exact .inr (seamless.chunk_ends positive (.inl rfl))

/-- Whatever is done to a new space that is smaller than the longest chunk on record, it stays in its
canonical form. -/
theorem stays_canonical {name : String} {base start capacity : Nat}
    (create : Space.create name base start capacity = .ok (.ok s))
    (few : s.capacity < Chunk.fieldLimit * Size.granule)
    {history : List (Operation × Option Nat)} (runs : s.Runs history s') : s'.Canonical :=
  (runs.seamless (seamless_create create) few).1.canonical

/-- A space that may grow from one page to sixteen. -/
def tight : Space :=
  match Space.create "tight" (Region.arenaBase 0) 4096 65536 with
  | .ok (.ok s) => s
  | _ => default

theorem tight_created : Space.create "tight" (Region.arenaBase 0) 4096 65536 = .ok (.ok tight) := rfl

/-- A chunk is split, written to and rewritten, and the footprint grows and shrinks. -/
def reused : List Operation :=
  let first := Region.arenaBase 0
  [.calloc 100, .write first 1 5, .calloc 40, .release first, .calloc 16, .write first 1 7,
    .write first 1 8, .write (first + 112) 4 9, .setAllowed 12288, .calloc 5000,
    .release (first + 160), .trim 0, .releaseFreePages]

theorem reused_canonical : (tight.runAll reused).2.free.toList = [⟨88, 24⟩]
    ∧ (tight.runAll reused).2.Canonical :=
  ⟨by decide +kernel, stays_canonical tight_created (by decide +kernel) (Runs.nil.runAll reused)⟩

end Space

end ManagedHeap
