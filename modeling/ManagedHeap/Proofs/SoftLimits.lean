import ManagedHeap.Proofs.Charges
import ManagedHeap.Proofs.ChunkRecords

/-!
How far an allocation may go past the soft limit. What is held against the limit are the bytes asked for;
what is counted is the whole chunk, with its bookkeeping, rounded up, and with a rest of the free stretch
that would be too short for a chunk of its own.
-/

namespace ManagedHeap

namespace Space

variable {s s' : Space} {size offset taken n : Nat}

/-- The bytes that a chunk of so many takes: all of the free stretch that fits best, where the rest of it
would be too short. -/
def takenFor (s : Space) (size : Nat) : Nat :=
  match s.free.bestFit? size with
  | some e => if Size.minChunk ≤ e.size - size then size else e.size
  | none => size

theorem MakesRoom.taken_eq (room : s.MakesRoom size offset taken s') : taken = s.takenFor size := by
  unfold takenFor
  cases room with
  | recycled take =>
    unfold takeFree? at take
    split at take
    · cases take
    case h_2 e fit =>
      rw [fit]
      dsimp only at take ⊢
      split at take
      case isTrue long =>
        cases take
        rw [if_pos long]
      case isFalse short =>
        cases take
        rw [if_neg short]
  | raised nothing same _ =>
    unfold takeFree? at nothing
    split at nothing
    case h_1 none =>
      rw [none]
      exact same
    case h_2 =>
      dsimp only at nothing
      split at nothing <;> cases nothing

theorem takenFor_bounds (s : Space) (size : Nat) :
    size ≤ s.takenFor size ∧ s.takenFor size < size + Size.minChunk := by
  have positive : 0 < Size.minChunk := by decide
  unfold takenFor
  split
  case h_2 => omega
  case h_1 e fit =>
    obtain ⟨-, enough, -⟩ := Gaps.bestFit_eq_some_iff.1 fit
    split <;> omega

/-- Chunks are whole granules, so a rest that is too short for a chunk is one granule or none. -/
theorem MakesRoom.takenFor_cases (room : s.MakesRoom size offset taken s') (laid : s.Laid)
    (fits : chunkSizeFor n = some size) :
    s.takenFor size = size ∨ s.takenFor size = size + Size.granule := by
  obtain ⟨least, most⟩ := s.takenFor_bounds size
  have whole := (room.carved laid fits).1.whole
  have whole_size := (chunkSizeFor_eq fits).1
  rw [room.taken_eq] at whole
  simp only [Size.minChunk, Size.granule] at *
  omega

end Space

namespace Source

open Action

variable {s : Source} {start maximum limit : Nat} {zygote : Bool}

/-- Where the soft limit leaves fewer bytes than are asked for, nothing is allocated. -/
theorem Governed.alloc_crosses {m n : Nat} (governed : s.Governed m) (limited : s.softLimit = some limit)
    (above : limit < s.active.bytes + n) : alloc n s = .ok none s := by
  have small : limit < Word.largest := by
    have below := governed.limit limit limited
    have most := governed.most
    have bounded := governed.bounded
    simp only [Size.unreservable, Word.largest] at *
    omega
  have crosses : limit < Word.saturatingAdd s.active.bytes n := Nat.lt_min.2 ⟨above, small⟩
  refine Ends.eq_ok ?_
  simp only [alloc, ends_bind, ends_get, limited]
  rw [if_pos (decide_eq_true crosses), ends_pure]
  exact ⟨rfl, rfl⟩

/-- An allocation asks for no more than the soft limit leaves, and what it counts is the whole chunk. So it
may go past the limit, by no more than the bookkeeping of a chunk, what rounds it up and one granule of
rest, 24 bytes together; where the limit leaves as many more than are asked for, it does not. -/
theorem Reachable.alloc_passes_limit (reachable : Reachable start maximum zygote s)
    (limited : s.softLimit = some limit) (n : Nat) :
    (limit < s.active.bytes + n → alloc n s = .ok none s)
      ∧ ∀ x s', alloc n s = .ok (some x) s' → ∃ size, Space.chunkSizeFor n = some size
        ∧ s'.softLimit = some limit ∧ s.active.bytes + n ≤ limit
        ∧ s'.active.bytes = s.active.bytes + s.active.space.takenFor size % recordable
        ∧ n + Size.chunkOverhead ≤ size ∧ size ≤ n + Size.minChunk
        ∧ (s.active.space.takenFor size = size ∨ s.active.space.takenFor size = size + Size.granule)
        ∧ s'.active.bytes ≤ limit + (Size.minChunk + Size.granule)
        ∧ (s.active.bytes + n + (Size.minChunk + Size.granule) ≤ limit → s'.active.bytes ≤ limit) := by
  have governed := reachable.governed
  refine ⟨governed.alloc_crosses limited, fun x s' run => ?_⟩
  rcases (alloc_ends governed reachable.bytes_le n).ok run with
    ⟨none, -⟩ | ⟨_, taken, space, here, ⟨size, offset, room, fits, -, makes, -⟩, -, rfl⟩
  · cases none
  have within : s.active.bytes + n ≤ limit := by
    refine Nat.not_lt.1 fun above => ?_
    cases run.symm.trans (governed.alloc_crosses limited above)
  have cases := makes.takenFor_cases (governed.sound.fits _ s.active_mem).laid fits
  have least : n + Size.chunkOverhead ≤ size := (Space.chunkSizeFor_eq fits).2.2
  have most := Space.chunkSizeFor_le fits
  have counted : taken % recordable ≤ s.active.space.takenFor size :=
    makes.taken_eq ▸ Nat.mod_le _ _
  refine ⟨size, fits, limited, within, makes.taken_eq ▸ rfl, least, most, cases, ?_, ?_⟩
  · change s.active.bytes + taken % recordable ≤ _
    omega
  · intro room
    change s.active.bytes + taken % recordable ≤ _
    omega

/-- A large object came and went, and the heap was sized by what lives, which is nothing. -/
def emptied : List Operation :=
  [.allocAndGrow 1000000, .free (Region.arenaBase 0), .growForUtilization]

/-- All of the soft limit is asked for, so its chunk goes past it by the bookkeeping. -/
theorem emptied_passes_limit : (small.afterAll emptied).softLimit = some 524288
    ∧ (small.afterAll emptied).active.bytes = 0
    ∧ ∃ s', alloc 524288 (small.afterAll emptied) = .ok (some (Region.arenaBase 0)) s'
      ∧ s'.softLimit = some 524288 ∧ s'.active.bytes = 524296 ∧ s'.active.bytes ≤ 524288 + 24 := by
  have limited : (small.afterAll emptied).softLimit = some 524288 := by decide +kernel
  have none : (small.afterAll emptied).active.bytes = 0 := by decide +kernel
  have run : alloc 524288 (small.afterAll emptied) = .ok (some (Region.arenaBase 0)) _ :=
    eq_ok_of_result (by decide +kernel)
  obtain ⟨size, fits, limited', -, bytes, -, -, -, near, -⟩ :=
    ((reachable_small.afterAll emptied).alloc_passes_limit limited 524288).2 _ _ run
  cases fits
  refine ⟨limited, none, _, run, limited', ?_, near⟩
  rw [bytes, none]
  decide +kernel

end Source

end ManagedHeap
