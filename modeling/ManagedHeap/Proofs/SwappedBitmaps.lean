import ManagedHeap.Proofs.CompactBitmaps
import ManagedHeap.Proofs.Renumbering
import ManagedHeap.Proofs.Shelves

/-!
Arenas with copies of the live bitmaps in place of these, and arenas without a bitmap that is not live. They
are the same arenas, with other numbers for the bitmaps.
-/

namespace ManagedHeap

namespace Renumbering

variable {n m : Nat}

/-- Numbers that leave one out. At that one stands a bitmap that nothing refers to. -/
def skip (n : Nat) (map : Bitmap) : Renumbering where
  number m := if m < n then m else m + 1
  injective m m' same := by
    dsimp only at same
    split at same <;> split at same <;> omega
  other _ := map

theorem exists_skip (map : Bitmap) (other : m ≠ n) : ∃ m', (skip n map).number m' = m := by
  rcases Nat.lt_or_gt_of_ne other with below | above
  · exact ⟨m, if_pos below⟩
  · refine ⟨m - 1, (if_neg (by omega)).trans ?_⟩
    omega

theorem skip_ne {map : Bitmap} (m : Nat) : (skip n map).number m ≠ n := by
  simp only [skip]
  split <;> omega

end Renumbering

namespace Source

variable {s : Source} {n : Nat}

/-- The number that a bitmap has once copies stand in for the live ones. The copies come behind all
bitmaps that there are, and before those still to come. -/
def follow (s : Source) (n : Nat) : Nat :=
  let live := s.arenas.map Arena.live
  if n ∈ live then s.bitmaps.length + live.idxOf n
  else if n < s.bitmaps.length then n
  else n + live.length

/-- No two arenas have the same bitmap: their bitmaps begin at different addresses. -/
theorem Settled.nodup_live (settled : s.Settled) : (s.arenas.map Arena.live).Nodup := by
  have apart : s.arenas.Pairwise fun young old => old.space.region.limit ≤ young.space.region.base :=
    List.pairwise_map.1 settled.apart
  refine List.pairwise_map.2 (apart.imp_of_mem ?_)
  intro a b here there below same
  have young := (settled.ranges _ (mem_sites here)).1
  have old := (settled.ranges _ (mem_sites there)).1
  have positive : 0 < b.space.region.size := (settled.sized _ (mem_sites there)).2.1
  dsimp only at young old
  rw [same] at young
  rw [Region.limit] at below
  omega

theorem follow_live (known : n ∈ s.arenas.map Arena.live) :
    s.follow n = s.bitmaps.length + (s.arenas.map Arena.live).idxOf n := if_pos known

theorem follow_old (idle : n ∉ s.arenas.map Arena.live) (known : n < s.bitmaps.length) :
    s.follow n = n := by
  rw [follow, if_neg idle, if_pos known]

theorem Settled.follow_new (settled : s.Settled) (j : Nat) : s.follow (s.bitmaps.length + j)
    = s.bitmaps.length + s.arenas.length + j := by
  have idle : s.bitmaps.length + j ∉ s.arenas.map Arena.live := by
    intro live
    obtain ⟨a, member, same⟩ := List.mem_map.1 live
    have known := settled.live_lt member
    omega
  rw [follow, if_neg idle, if_neg (by omega), List.length_map]
  omega

/-- A bitmap is live, is another of those that there are, or is still to come. -/
theorem Settled.follow_cases (settled : s.Settled) (n : Nat) :
    (∃ i, ∃ inside : i < s.arenas.length, n = s.arenas[i].live ∧ s.follow n = s.bitmaps.length + i)
      ∨ (n ∉ s.arenas.map Arena.live ∧ n < s.bitmaps.length ∧ s.follow n = n)
      ∨ ∃ j, n = s.bitmaps.length + j ∧ s.follow n = s.bitmaps.length + s.arenas.length + j := by
  by_cases live : n ∈ s.arenas.map Arena.live
  · refine .inl ⟨(s.arenas.map Arena.live).idxOf n, ?_, ?_, follow_live live⟩
    · simpa using List.idxOf_lt_length_of_mem live
    · have found := List.getElem_idxOf (List.idxOf_lt_length_of_mem live)
      rw [List.getElem_map] at found
      exact found.symm
  · by_cases known : n < s.bitmaps.length
    · exact .inr (.inl ⟨live, known, follow_old live known⟩)
    · obtain ⟨j, rfl⟩ := Nat.exists_eq_add_of_le (Nat.not_lt.1 known)
      exact .inr (.inr ⟨j, rfl, settled.follow_new j⟩)

theorem Settled.follow_injective (settled : s.Settled) : Function.Injective s.follow := by
  intro n m same
  -- The three kinds of bitmaps are followed to stretches of numbers that lie apart.
  rcases settled.follow_cases n with ⟨i, inside, rfl, number⟩ | ⟨-, known, number⟩ | ⟨j, rfl, number⟩ <;>
  rcases settled.follow_cases m with ⟨i', inside', rfl, number'⟩ | ⟨-, known', number'⟩ | ⟨j', rfl, number'⟩ <;>
  rw [number, number'] at same
  · have : i = i' := by omega
    subst this
    rfl
  all_goals omega

/-- Only the numbers of the bitmaps that were live are left to no bitmap. -/
theorem Settled.exists_follow (settled : s.Settled) :
    (∃ m, s.follow m = n) ↔ n ∉ s.arenas.map Arena.live := by
  constructor
  · rintro ⟨m, rfl⟩ live
    obtain ⟨a, member, same⟩ := List.mem_map.1 live
    have known := settled.live_lt member
    rcases settled.follow_cases m with ⟨i, -, -, number⟩ | ⟨idle, -, number⟩ | ⟨j, -, number⟩
    · omega
    · exact idle (number ▸ live)
    · omega
  · intro idle
    by_cases old : n < s.bitmaps.length
    · exact ⟨n, follow_old idle old⟩
    · obtain ⟨j, rfl⟩ := Nat.exists_eq_add_of_le (Nat.not_lt.1 old)
      by_cases inside : j < s.arenas.length
      · have known : j < (s.arenas.map Arena.live).length := by simpa using inside
        refine ⟨(s.arenas.map Arena.live)[j], ?_⟩
        rw [follow_live (List.getElem_mem known), settled.nodup_live.idxOf_getElem j known]
      · obtain ⟨k, rfl⟩ := Nat.exists_eq_add_of_le (Nat.not_lt.1 inside)
        refine ⟨s.bitmaps.length + k, (settled.follow_new k).trans ?_⟩
        omega

/-- The live bitmaps are followed to their copies, which come one after the other. -/
theorem Settled.map_follow (settled : s.Settled) : (s.arenas.map Arena.live).map s.follow
    = List.range' s.bitmaps.length s.arenas.length := by
  refine List.ext_getElem (by simp) fun i inside _ => ?_
  have known : i < (s.arenas.map Arena.live).length := by simpa using inside
  rw [List.getElem_map, follow_live (List.getElem_mem known),
    settled.nodup_live.idxOf_getElem i known, List.getElem_range']
  omega

/-- The bitmaps with copies of the live ones behind them. -/
def copied (s : Source) : List Bitmap := s.bitmaps ++ s.arenas.map fun a => (s.bitmap a.live).copy

theorem length_copied (s : Source) : s.copied.length = s.bitmaps.length + s.arenas.length := by
  rw [copied, List.length_append, List.length_map]

theorem copied_old (known : n < s.bitmaps.length) : s.copied.getD n default = s.bitmap n := by
  rw [copied, List.getD_eq_getElem?_getD, List.getElem?_append_left known, bitmap,
    List.getD_eq_getElem?_getD]

theorem Neat.copied_live (neat : s.Neat) {i : Nat} (inside : i < s.arenas.length) :
    s.copied.getD (s.bitmaps.length + i) default = s.bitmap s.arenas[i].live := by
  rw [copied, List.getD_eq_getElem?_getD, List.getElem?_append_right (Nat.le_add_right _ _),
    Nat.add_sub_cancel_left, List.getElem?_map, List.getElem?_eq_getElem inside]
  exact (neat.compact_live (List.getElem_mem inside)).copy_eq

/-- Where the copies stand in for the live bitmaps. At the old numbers of these stands what stood there. -/
def followed (s : Source) (settled : s.Settled) : Renumbering where
  number := s.follow
  injective := settled.follow_injective
  other := s.bitmap

theorem Neat.fits (neat : s.Neat) : (s.followed neat.settled).Fits s.bitmaps s.copied where
  bitmap n := by
    change s.copied.getD (s.follow n) default = s.bitmap n
    rcases neat.settled.follow_cases n with ⟨i, inside, rfl, number⟩ | ⟨-, known, number⟩ |
      ⟨j, rfl, number⟩
    · rw [number]
      exact neat.copied_live inside
    · rw [number]
      exact copied_old known
    · rw [number, Source.bitmap, List.getD_eq_getElem?_getD, List.getD_eq_getElem?_getD,
        List.getElem?_eq_none (by rw [length_copied]; omega),
        List.getElem?_eq_none (Nat.le_add_right _ _)]
  fresh j := by
    rw [length_copied]
    exact neat.settled.follow_new j
  other n unused := by
    have live : n ∈ s.arenas.map Arena.live := by
      by_contra idle
      obtain ⟨m, number⟩ := neat.settled.exists_follow.2 idle
      exact unused m number
    obtain ⟨a, member, rfl⟩ := List.mem_map.1 live
    exact copied_old (neat.settled.live_lt member)

/-- The arenas once their live bitmaps are copied. -/
def withCopies (s : Source) : Source := { s with bitmaps := s.copied }

theorem Settled.snapshotBitmaps_withCopies (settled : s.Settled) : s.snapshotBitmaps
    = (List.range' s.bitmaps.length s.arenas.length, s.withCopies) := settled.snapshotBitmaps_eq

/-- The arenas with copies of the live bitmaps in place of these. -/
def swapped (s : Source) : Source := s.renumber s.follow s.copied

theorem Neat.swaps (neat : s.Neat) : Mirror (s.followed neat.settled) s s.swapped := ⟨neat.fits⟩

theorem Neat.takes_copies (neat : s.Neat) :
    s.withCopies.Takes (List.range' s.bitmaps.length s.arenas.length) := by
  change List.Forall₂ _ s.arenas _
  refine List.forall₂_iff_get.2 ⟨by simp, fun i inside _ => ?_⟩
  have old : s.withCopies.bitmap s.arenas[i].live = s.bitmap s.arenas[i].live :=
    copied_old (neat.settled.live_lt (List.getElem_mem inside))
  have new : s.withCopies.bitmap (s.bitmaps.length + i) = s.bitmap s.arenas[i].live :=
    neat.copied_live inside
  simp [old, new, Bitmap.sameRange]

/-- The copies are taken, and the bitmaps that they are copies of are handed back. -/
theorem Neat.exchange_copies (neat : s.Neat) :
    s.withCopies.replaceBitmaps (List.range' s.bitmaps.length s.arenas.length)
      = (true, s.arenas.map Arena.live, s.swapped) := by
  have takes := neat.takes_copies
  rw [← neat.settled.map_follow] at takes ⊢
  have frozen : s.frozen.zipWith (fun a number => { a with live := number })
      ((s.frozen.map Arena.live).map s.follow) = s.frozen.map (·.renumber s.follow) := by
    rw [List.map_map, List.zipWith_map_right, List.zipWith_self]
    rfl
  have published : s.published.map s.follow
      = (s.arenas.map (·.renumber s.follow)).map Arena.live := by
    rw [neat.published, List.map_map, List.map_map]
    rfl
  refine (replaceBitmaps_taken takes).trans ?_
  change (true, s.arenas.map Arena.live, publish { s.withCopies with
    active := s.active.renumber s.follow
    frozen := s.frozen.zipWith (fun a number => { a with live := number })
      ((s.frozen.map Arena.live).map s.follow) }) = _
  rw [frozen, swapped, renumber, published]
  rfl

/-- Memory for copies of the live bitmaps can always be had. -/
theorem Neat.snapshot_eq (neat : s.Neat) {a : Arena} (member : a ∈ s.arenas) :
    (s.bitmap a.live).snapshot = .ok (.ok (s.bitmap a.live)) := by
  have site := mem_sites member
  have range := neat.settled.ranges _ site
  have small := (neat.settled.sized _ site).2.2
  have below := neat.settled.below _ site
  have few := neat.few
  have compact := neat.compact_live member
  simp only [Size.unreservable, Size.maxArenas, Region.arenaBase, Region.stride, Region.limit,
    length_sites] at small below few range
  have few_bytes : a.space.region.size < 2 ^ 60 := by omega
  have within : a.space.region.base + a.space.region.size < 2 ^ 64 := by omega
  rw [compact.toWalkable.snapshot_eq few_bytes within range.1 range.2, compact.copy_eq]

/-! ### A bitmap that is not live -/

/-- The arenas as if the bitmap with a number had never been made. -/
def without (s : Source) (n : Nat) : Source :=
  s.renumber (fun m => if m < n then m else m - 1) (s.bitmaps.eraseIdx n)

theorem skip_fits (known : n < s.bitmaps.length) :
    (Renumbering.skip n (s.bitmap n)).Fits (s.bitmaps.eraseIdx n) s.bitmaps where
  bitmap m := by
    simp only [Renumbering.skip, List.getD_eq_getElem?_getD, List.getElem?_eraseIdx]
    split <;> rfl
  fresh j := by
    rw [List.length_eraseIdx_of_lt known, Renumbering.skip]
    dsimp only
    rw [if_neg (by omega)]
    omega
  other m unused := by
    have own : m = n := by
      by_contra other
      obtain ⟨m', number⟩ := Renumbering.exists_skip (s.bitmap n) other
      exact unused m' number
    rw [own]
    rfl

/-- Where no arena has the bitmap, it makes no difference that it was ever made. -/
theorem Neat.mirror_without (neat : s.Neat) (known : n < s.bitmaps.length)
    (spare : n ∉ s.arenas.map Arena.live) :
    Mirror (Renumbering.skip n (s.bitmap n)) (s.without n) s := by
  let drop (m : Nat) : Nat := if m < n then m else m - 1
  let skip := (Renumbering.skip n (s.bitmap n)).number
  have number : ∀ m, m ≠ n → skip (drop m) = m := by
    intro m other
    simp only [skip, drop, Renumbering.skip]
    rcases Nat.lt_or_gt_of_ne other with below | above
    · rw [if_pos below, if_pos below]
    · have apart : ¬m < n := Nat.lt_asymm above
      rw [if_neg apart, if_neg (by omega)]
      omega
  have arena : ∀ a ∈ s.arenas, (a.renumber drop).renumber skip = a := by
    intro a member
    have live := number a.live fun same => spare (same ▸ List.mem_map_of_mem member)
    exact congrArg (fun live => { a with live }) live
  have frozen : (s.frozen.map (·.renumber drop)).map (·.renumber skip) = s.frozen := by
    rw [List.map_map]
    exact (List.map_congr_left fun a member => arena a (List.mem_cons_of_mem _ member)).trans
      (List.map_id _)
  have published : (s.published.map drop).map skip = s.published := by
    rw [List.map_map, neat.published]
    exact (List.map_congr_left fun m live => number m fun same => spare (same ▸ live)).trans
      (List.map_id _)
  have same : (s.without n).renumber skip s.bitmaps = s := by
    have active := arena _ s.active_mem
    rw [renumber, without, renumber]
    dsimp only
    rw [active, frozen, published]
  have mirror : Mirror (Renumbering.skip n (s.bitmap n)) (s.without n)
    ((s.without n).renumber skip s.bitmaps) := ⟨skip_fits known⟩
  rwa [same] at mirror

theorem Mirror.other {ρ : Renumbering} {s t : Source} (mirror : Mirror ρ s t) {n : Nat}
    (unused : ∀ m, ρ.number m ≠ n) : t.bitmap n = ρ.other n := by
  obtain ⟨fits⟩ := mirror
  exact fits.other n unused

end Source

end ManagedHeap
