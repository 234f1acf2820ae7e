import ManagedHeap.Proofs.BestFit

/-!
Freeing as the reverse of allocating. The chunks of a space tell its free stretches and its `top`. So
a chunk that is freed at once leaves what was there before it, and it does not matter in which order
chunks are freed.
-/

namespace ManagedHeap

namespace Space

variable {s s' : Space} {address first stop n : Nat} {addresses : List Nat}

/-! ### What the chunks tell -/

theorem Between.congr (recorded : s'.recorded? = s.recorded?) (between : s.Between first stop) :
    s'.Between first stop := by
  obtain ⟨order, low, high, clear⟩ := between
  rw [← recorded] at low high clear
  exact ⟨order, low, high, clear⟩

theorem Seamless.top_le_of_recorded (seamless : s.Seamless) (seamless' : s'.Seamless)
    (recorded : s'.recorded? = s.recorded?) : s'.top ≤ s.top := by
  rcases Nat.eq_zero_or_pos s'.top with zero | positive
  · omega
  -- The last chunk of the one space ends at its `top`, and is a chunk of the other space too.
  · obtain ⟨offset, size, known, ends⟩ := seamless'.chunk_ends positive (.inl rfl)
    rw [recorded] at known
    have piece : s.Piece true offset size := seamless.woven.piece_iff.2 known
    exact ends ▸ seamless.laid.below _ _ _ piece

/-- The chunks tell where the free stretches are. -/
theorem Seamless.free_of_recorded (seamless : s.Seamless) (seamless' : s'.Seamless)
    (recorded : s'.recorded? = s.recorded?) : s'.free = s.free ∧ s'.top = s.top := by
  constructor
  -- A free stretch is all that lies between two chunks with none in between.
  · apply Gaps.ext
    ext offset size
    constructor
    · intro gap
      exact seamless.gap_of_between ((seamless'.between_of_gap gap).congr recorded.symm)
    · intro gap
      exact seamless'.gap_of_between ((seamless.between_of_gap gap).congr recorded)
  · exact Nat.le_antisymm (seamless.top_le_of_recorded seamless' recorded)
      (seamless'.top_le_of_recorded seamless recorded.symm)

theorem Seamless.free_of_chunks (seamless : s.Seamless) (seamless' : s'.Seamless)
    (chunks : s'.chunks = s.chunks) : s'.free = s.free ∧ s'.top = s.top := by
  refine seamless.free_of_recorded seamless' ?_
  funext x
  rw [recorded?, chunks, recorded?]

/-! ### Freeing -/

/-- Freeing what starts at an address takes that chunk out, and nothing else but the free stretches and
`top` changes. -/
theorem Seamless.release_erases (seamless : s.Seamless) (started : (s.chunkAt? address).isSome = true) :
    ∃ length free top, s.recorded? (address - s.base) = some length
      ∧ s.release? address
        = some (length, { s with chunks := s.chunks.erase (address - s.base), free, top })
      ∧ Seamless { s with chunks := s.chunks.erase (address - s.base), free, top } := by
  obtain ⟨inside, known⟩ := isSome_chunkAt.1 started
  obtain ⟨length, s', release⟩ := release_total inside known
  obtain ⟨-, recorded⟩ := release_at release
  have positive := seamless.laid.positive true _ _ (seamless.woven.piece_iff.2 recorded)
  obtain ⟨offset, rfl, -, erased, -⟩ := release_spec seamless.laid positive release
  have seamless' := seamless.release release
  obtain ⟨chunks, free, top, rfl⟩ := release_frame release
  rw [Nat.add_sub_cancel_left] at recorded ⊢
  obtain rfl : chunks = s.chunks.erase offset := erased
  exact ⟨length, free, top, recorded, release, seamless'⟩

/-- Frees what starts at the addresses, one after the other. -/
def releaseAll? (s : Space) : List Nat → Option Space
  | [] => some s
  | address :: rest => do
    let (_, s) ← s.release? address
    s.releaseAll? rest

theorem base_le (inside : s.region.contains address = true) : s.base ≤ address := by
  rw [Region.contains, Bool.and_eq_true, decide_eq_true_eq] at inside
  exact inside.1

theorem isSome_chunkAt_erase {other : Nat} {free : Gaps} {top : Nat}
    (started : (s.chunkAt? address).isSome = true) (began : (s.chunkAt? other).isSome = true)
    (elsewhere : address ≠ other) :
    (chunkAt? { s with chunks := s.chunks.erase (other - s.base), free, top } address).isSome = true := by
  obtain ⟨inside, known⟩ := isSome_chunkAt.1 started
  obtain ⟨inside', -⟩ := isSome_chunkAt.1 began
  have low := base_le inside
  have low' := base_le inside'
  refine isSome_chunkAt.2 ⟨inside, ?_⟩
  rw [recorded_erase_chunk rfl, if_neg]
  · exact known
  · change address - s.base ≠ other - s.base
    omega

/-- Freeing takes the chunks out that start at the addresses, in whichever order they are freed. -/
theorem Seamless.releaseAll_erases (seamless : s.Seamless) (distinct : addresses.Nodup)
    (started : ∀ address ∈ addresses, (s.chunkAt? address).isSome = true) :
    ∃ chunks free top, s.releaseAll? addresses = some { s with chunks, free, top }
      ∧ Seamless { s with chunks, free, top }
      ∧ ∀ offset, chunks[offset]? = if s.base + offset ∈ addresses then none else s.chunks[offset]? := by
  induction addresses generalizing s with
  | nil => exact ⟨s.chunks, s.free, s.top, rfl, seamless, fun _ => rfl⟩
  | cons address rest ih =>
    obtain ⟨fresh, distinct⟩ := List.nodup_cons.1 distinct
    have first := started address List.mem_cons_self
    obtain ⟨length, free₁, top₁, -, release, seamless₁⟩ := seamless.release_erases first
    -- None of the rest is the chunk that was freed first, so all of them are still there.
    obtain ⟨chunks, free, top, frees, seamless', left⟩ := ih seamless₁ distinct fun other among =>
      isSome_chunkAt_erase (started other (List.mem_cons_of_mem _ among)) first
        fun same => fresh (same ▸ among)
    have low := base_le (isSome_chunkAt.1 first).1
    refine ⟨chunks, free, top, ?_, seamless', fun offset => ?_⟩
    · rw [releaseAll?, release]
      exact frees
    · have here : address - s.base = offset ↔ s.base + offset = address := by omega
      refine (left offset).trans ?_
      change (if s.base + offset ∈ rest then none else (s.chunks.erase (address - s.base))[offset]?) = _
      simp only [Std.ExtTreeMap.getElem?_erase, Nat.compare_eq_eq, here, List.mem_cons]
      by_cases among : s.base + offset ∈ rest
      · rw [if_pos among, if_pos (.inr among)]
      · simp only [among, if_false, or_false]

theorem Seamless.releaseAll_comm {others : List Nat} (seamless : s.Seamless)
    (reordered : addresses.Perm others) (distinct : addresses.Nodup)
    (started : ∀ address ∈ addresses, (s.chunkAt? address).isSome = true) :
    ∃ s', s.releaseAll? addresses = some s' ∧ s.releaseAll? others = some s' := by
  obtain ⟨chunks, free, top, frees, seamless₁, left⟩ := seamless.releaseAll_erases distinct started
  obtain ⟨chunks', free', top', frees', seamless₂, left'⟩ :=
    seamless.releaseAll_erases (reordered.nodup_iff.1 distinct) fun address among =>
      started address (reordered.mem_iff.2 among)
  have same : chunks' = chunks := by
    ext1 offset
    simp only [left, left', reordered.mem_iff]
  subst same
  obtain ⟨free, top⟩ := seamless₁.free_of_chunks seamless₂ rfl
  cases free
  cases top
  exact ⟨_, frees, frees'⟩

/-! ### Allocating and freeing at once -/

theorem calloc_inserts (laid : s.Laid) (run : s.calloc n = .ok (some address, s')) :
    s.region.contains address = true ∧ address - s.base ∉ s.chunks ∧ s.footprint ≤ s'.footprint
      ∧ ∃ chunk free top, s' = { s with
          chunks := s.chunks.insert (address - s.base) chunk, free, top
          footprint := s'.footprint, words := s'.words, requests := s'.requests } := by
  rcases calloc_cases laid run with ⟨none, -⟩ | ⟨offset, taken, needed, s₁, here, fits, enough, carved, same⟩
  · cases none
  obtain rfl : address = s.base + offset := Option.some.inj here
  rw [Nat.add_sub_cancel_left]
  refine ⟨carved.contains fits enough, (carved.placed fits enough).fresh, ?_, ?_⟩
  · have grown := carved.footprint
    have kept : s'.footprint = s₁.footprint := by rw [same, place]
    omega
  · obtain ⟨free, top, footprint, rfl⟩ := carved.frame
    subst same
    exact ⟨_, free, top, rfl⟩

theorem Seamless.release_calloc (seamless : s.Seamless)
    (few : s.capacity < Chunk.fieldLimit * Size.granule) (run : s.calloc n = .ok (some address, s')) :
    ∃ chunk, s'.chunkAt? address = some chunk
      ∧ s'.release? address = some (chunk.size,
          { s with footprint := s'.footprint, words := s'.words, requests := s'.requests })
      ∧ s.footprint ≤ s'.footprint := by
  have seamless' := seamless.calloc few run
  obtain ⟨inside, fresh, grown, chunk, free₁, top₁, same⟩ := calloc_inserts seamless.laid run
  have region : s'.region = s.region := by rw [same]
  have base : s'.base = s.base := congrArg Region.base region
  have chunks : s'.chunks = s.chunks.insert (address - s.base) chunk := by rw [same]
  have begun : s'.chunkAt? address = some chunk := by
    rw [chunkAt_eq (region ▸ inside), base, chunks, Std.ExtTreeMap.getElem?_insert_self]
  obtain ⟨length, free, top, recorded, release, seamless₁⟩ :=
    seamless'.release_erases (by rw [begun]; rfl)
  have exact : length = chunk.size := by
    rw [recorded?, base, chunks, Std.ExtTreeMap.getElem?_insert_self] at recorded
    exact (Option.some.inj recorded).symm
  have restored : s'.chunks.erase (address - s'.base) = s.chunks := by
    rw [base, chunks]
    ext1 x
    rw [Std.ExtTreeMap.getElem?_erase, Std.ExtTreeMap.getElem?_insert]
    split
    case isTrue here =>
      rw [← Nat.compare_eq_eq.1 here, Std.ExtTreeMap.getElem?_eq_none fresh]
    case isFalse => rfl
  -- The chunks are as they were, and they tell the rest.
  obtain ⟨rfl, rfl⟩ : free = s.free ∧ top = s.top := seamless.free_of_chunks seamless₁ restored
  have name : s'.name = s.name := by rw [same]
  have allowed : s'.allowed = s.allowed := by rw [same]
  exact ⟨chunk, begun, by rw [release, exact, restored, name, region, allowed], grown⟩

/-- Freeing what was just allocated answers the length of the chunk and undoes the allocation, up to what
the footprint has grown by and what the new chunk was zeroed by. And chunks may be freed in any order:
what they leave is the same space. -/
theorem frees_undo_and_commute {name : String} {base start capacity : Nat}
    {history : List (Operation × Option Nat)}
    (create : Space.create name base start capacity = .ok (.ok s))
    (few : s.capacity < Chunk.fieldLimit * Size.granule) (runs : s.Runs history s') :
    (∀ n address s'', s'.calloc n = .ok (some address, s'') →
      ∃ chunk, s''.chunkAt? address = some chunk
        ∧ s''.release? address = some (chunk.size,
            { s' with footprint := s''.footprint, words := s''.words, requests := s''.requests })
        ∧ s'.footprint ≤ s''.footprint)
    ∧ ∀ addresses others, addresses.Perm others → addresses.Nodup →
      (∀ address ∈ addresses, (s'.chunkAt? address).isSome = true) →
      ∃ s'', s'.releaseAll? addresses = some s'' ∧ s'.releaseAll? others = some s'' := by
  obtain ⟨seamless, region, -⟩ := runs.reached create few
  have few' : s'.capacity < Chunk.fieldLimit * Size.granule := by
    rw [Space.capacity, region]
    exact few
  constructor
  · intro n address s'' run
    exact seamless.release_calloc few' run
  · intro addresses others reordered distinct started
    exact seamless.releaseAll_comm reordered distinct started

/-- A chunk that takes a whole free stretch is given back, and the chunks between the free stretches are
freed in two orders. -/
theorem holed_frees :
    (∃ s', (tight.runAll holed).2.calloc 30 = .ok (some (Region.arenaBase 0 + 80), s')
      ∧ s'.release? (Region.arenaBase 0 + 80) = some (48,
          { (tight.runAll holed).2 with
            footprint := s'.footprint, words := s'.words, requests := s'.requests }))
    ∧ ∃ s', (tight.runAll holed).2.releaseAll? ([64, 128, 192].map (Region.arenaBase 0 + ·)) = some s'
      ∧ (tight.runAll holed).2.releaseAll? ([192, 64, 128].map (Region.arenaBase 0 + ·)) = some s' := by
  obtain ⟨undoes, commutes⟩ :=
    frees_undo_and_commute tight_created (by decide +kernel) (Runs.nil.runAll holed)
  constructor
  · have answer : ((tight.runAll holed).2.calloc 30).toOption.map
        (fun (result, s') => (result, (s'.chunkAt? (Region.arenaBase 0 + 80)).map Chunk.size))
        = some (some (Region.arenaBase 0 + 80), some 48) := by decide +kernel
    cases run : (tight.runAll holed).2.calloc 30 with
    | error =>
      rw [run] at answer
      cases answer
    | ok answered =>
      obtain ⟨result, s'⟩ := answered
      rw [run] at answer
      obtain ⟨rfl, size⟩ := Prod.mk.inj (Option.some.inj answer)
      obtain ⟨chunk, begun, release, -⟩ := undoes 30 _ s' run
      have size : chunk.size = 48 := by simpa [begun] using size
      exact ⟨s', rfl, size ▸ release⟩
  · exact commutes _ _ (by decide) (by decide) (by decide +kernel)

end Space

end ManagedHeap
