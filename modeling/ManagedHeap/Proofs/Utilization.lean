import ManagedHeap.Proofs.Charges

/-!
Sizing by what lives. The ideal size leaves the active arena its live bytes and some free space between
two bounds, whatever external memory and frozen arenas add to it, and more live bytes never make for a
smaller heap.
-/

namespace ManagedHeap

namespace Source

open Action

variable {s t : Source} {m live live' utilization start maximum : Nat} {zygote : Bool}

/-! ### The target -/

/-- The live size over the utilization, as far as this leaves the free space between its bounds. -/
def targetSize (live utilization : Nat) : Nat :=
  max (live + Size.minFree) (min (live + Size.idealFree) (live / utilization * Size.utilizationScale))

theorem minFree_le_idealFree : Size.minFree ≤ Size.idealFree := by
  simp only [Size.minFree, Size.idealFree]
  decide

theorem clamped_eq {low high target : Nat} (order : low ≤ high) :
    (if high < target then .ok high else if target < low then .ok low else .ok target : Except Defect Nat)
      = .ok (max low (min high target)) := by
  split
  · rw [Nat.min_eq_left (by omega), Nat.max_eq_right order]
  · split
    · rw [Nat.min_eq_right (by omega), Nat.max_eq_left (by omega)]
    · rw [Nat.min_eq_right (by omega), Nat.max_eq_right (by omega)]

theorem bind_of_eq_ok {α β : Type} {value : Except Defect α} {result : α}
    {next : α → Except Defect β} (ok : value = .ok result) : value >>= next = next result := by
  subst ok
  rfl

theorem utilizationTarget_eq (divisible : utilization ≠ 0)
    (product : live / utilization * Size.utilizationScale < Word.limit)
    (sum : live + Size.idealFree < Word.limit) :
    utilizationTarget live utilization = .ok (targetSize live utilization) := by
  have order : live + Size.minFree ≤ live + Size.idealFree :=
    Nat.add_le_add_left minFree_le_idealFree live
  have quotient : Word.div live utilization = .ok (live / utilization) := if_neg divisible
  have scaled : Word.mul (live / utilization) Size.utilizationScale
      = .ok (live / utilization * Size.utilizationScale) := if_pos product
  have most : Word.add live Size.idealFree = .ok (live + Size.idealFree) := if_pos sum
  have least : Word.add live Size.minFree = .ok (live + Size.minFree) :=
    if_pos (Nat.lt_of_le_of_lt order sum)
  rw [utilizationTarget, bind_of_eq_ok quotient, bind_of_eq_ok scaled, bind_of_eq_ok most,
    bind_of_eq_ok least]
  exact clamped_eq order

/-- No step of the computation leaves the range of a word where the utilization is at least 0.2. -/
theorem utilizationTarget_small (low : 204 ≤ utilization) (few : live < 2 * Size.unreservable) :
    utilizationTarget live utilization = .ok (targetSize live utilization) := by
  have positive : utilization ≠ 0 := Nat.ne_of_gt (Nat.lt_of_lt_of_le (by decide) low)
  refine utilizationTarget_eq positive ?_ ?_
  · have quotient : live / utilization ≤ live / 204 := Nat.div_le_div_left low (by decide)
    simp only [Size.unreservable, Size.utilizationScale, Word.limit] at *
    omega
  · simp only [Size.unreservable, Size.idealFree, Word.limit] at *
    omega

theorem targetSize_bounds (live utilization : Nat) :
    live + Size.minFree ≤ targetSize live utilization
      ∧ targetSize live utilization ≤ live + Size.idealFree :=
  ⟨Nat.le_max_left _ _,
    Nat.max_le.2 ⟨Nat.add_le_add_left minFree_le_idealFree live, Nat.min_le_left _ _⟩⟩

theorem targetSize_mono (more : live ≤ live') (utilization : Nat) :
    targetSize live utilization ≤ targetSize live' utilization := by
  have scaled := Nat.mul_le_mul_right Size.utilizationScale
    (Nat.div_le_div_right (c := utilization) more)
  exact max_le_max (Nat.add_le_add_right more _) (min_le_min (Nat.add_le_add_right more _) scaled)

/-! ### Sizing -/

/-- The most that the active arena may hold for now: its soft limit, or what it is allowed. -/
def cap (s : Source) : Nat := s.softLimit.getD s.active.allowed

/-- The ideal size that follows from what lives. -/
def utilized (s : Source) : Nat :=
  max s.minimum (min
    (targetSize (s.active.bytes + s.externalBytes) s.utilization + s.frozenFootprint) s.absoluteMax)

theorem Governed.live_lt (governed : s.Governed m) (counted : s.active.bytes ≤ s.active.space.top) :
    s.active.bytes < Size.unreservable :=
  have laid := (governed.sound.fits _ s.active_mem).laid
  Nat.lt_of_le_of_lt (Nat.le_trans counted laid.top_le) (governed.sound.footprint_small s.active_mem)

/-- Sizing by what lives comes to its end, and all that it changes is the ideal size and what that leaves
to the active arena. -/
theorem growForUtilization_ends (governed : s.Governed m) (counted : s.active.bytes ≤ s.active.space.top)
    (external : s.externalBytes < Size.unreservable) (low : 204 ≤ s.utilization) :
    growForUtilization.Ends s (fun _ s' => ∃ allowed softLimit,
        s' = s.steered allowed softLimit s.utilized
          ∧ s.Shared (s.utilized - s.overhead) allowed softLimit) fun _ _ => False := by
  have minimum := Nat.le_trans governed.least governed.most
  have live := governed.live_lt counted
  have frozen : s.frozenFootprint < Size.unreservable := by
    have reserve := governed.reserve
    have bounded := governed.bounded
    omega
  obtain ⟨least, most⟩ := targetSize_bounds (s.active.bytes + s.externalBytes) s.utilization
  have target := utilizationTarget_small low (show s.active.bytes + s.externalBytes < _ by omega)
  have sized := governed.toHoused.setIdeal_spec minimum
    (targetSize (s.active.bytes + s.externalBytes) s.utilization + s.frozenFootprint)
  rw [← utilized] at sized
  generalize targetSize (s.active.bytes + s.externalBytes) s.utilization = size at *
  simp only [Size.unreservable, Size.minFree, Size.idealFree] at *
  have used : Word.add s.active.bytes s.externalBytes = .ok (s.active.bytes + s.externalBytes) :=
    Word.add_eq_ok.2 ⟨by simp only [Word.limit]; omega, rfl⟩
  have inner : Word.sub size s.externalBytes = .ok (size - s.externalBytes) :=
    Word.sub_eq_ok.2 ⟨by omega, rfl⟩
  -- The external bytes are taken off and counted again with the frozen arenas.
  have whole : Word.add (size - s.externalBytes) s.overhead = .ok (size + s.frozenFootprint) := by
    refine Word.add_eq_ok.2 ⟨?_, ?_⟩
    · simp only [overhead, Word.limit]
      omega
    · simp only [overhead]
      omega
  simp only [growForUtilization, ends_bind, ends_get]
  rw [ends_lift_of_ok used, ends_lift_of_ok target, ends_lift_of_ok inner, ends_lift_of_ok whole]
  exact sized

/-- What sizing leaves to the active arena, where neither bound on the ideal size applies, lets it hold
its live bytes and free space between the two bounds, the upper one in whole pages. -/
theorem Shared.cap_bounds {allowed : Nat} {softLimit : Option Nat}
    (shared : s.Shared (s.utilized - s.overhead) allowed softLimit)
    (above : s.minimum ≤ targetSize (s.active.bytes + s.externalBytes) s.utilization + s.frozenFootprint)
    (below : targetSize (s.active.bytes + s.externalBytes) s.utilization + s.frozenFootprint
      ≤ s.absoluteMax) :
    s.active.bytes + Size.minFree ≤ softLimit.getD allowed
      ∧ softLimit.getD allowed < s.active.bytes + Size.idealFree + Size.page := by
  obtain ⟨least, most⟩ := targetSize_bounds (s.active.bytes + s.externalBytes) s.utilization
  have share : s.utilized - s.overhead
      = targetSize (s.active.bytes + s.externalBytes) s.utilization - s.externalBytes := by
    rw [utilized, Nat.min_eq_left below, Nat.max_eq_right above, overhead, Nat.add_comm s.frozenFootprint,
      Nat.add_sub_add_right]
  rw [share] at shared
  generalize targetSize (s.active.bytes + s.externalBytes) s.utilization = size at *
  have page : 0 < Size.page := by decide
  rcases shared.cases with ⟨-, -, rfl⟩ | ⟨-, enough, near, rfl⟩
  · rw [Option.getD_some]
    omega
  · rw [Option.getD_none]
    omega

theorem utilized_mono (external : t.externalBytes = s.externalBytes)
    (frozen : t.frozenFootprint = s.frozenFootprint) (utilization : t.utilization = s.utilization)
    (minimum : t.minimum = s.minimum) (maximum : t.absoluteMax = s.absoluteMax)
    (more : s.active.bytes ≤ t.active.bytes) : s.utilized ≤ t.utilized := by
  have target := targetSize_mono (Nat.add_le_add_right more s.externalBytes) s.utilization
  rw [utilized, utilized, external, frozen, utilization, minimum, maximum]
  exact max_le_max (Nat.le_refl _) (min_le_min (Nat.add_le_add_right target _) (Nat.le_refl _))

/-- Sizing by what lives never leaves the range of a word. The ideal size that it sets is the target for
what lives, here and outside the heap, and what the frozen arenas take, brought between its bounds.
Where neither bound applies, the active arena may hold what lives in it and free space between two
bounds. And more live bytes never make for a smaller ideal size. -/
theorem Reachable.growForUtilization_sizes (reachable : Reachable start maximum zygote s)
    (external : s.externalBytes < Size.unreservable) (low : 204 ≤ s.utilization) :
    ∃ target s', utilizationTarget (s.active.bytes + s.externalBytes) s.utilization = .ok target
      ∧ s.overhead < Word.limit
      ∧ growForUtilization s = .ok () s'
      ∧ s' = s.steered s'.active.allowed s'.softLimit s'.ideal
      ∧ s'.ideal = max s.minimum (min (target + s.frozenFootprint) s.absoluteMax)
      ∧ (s.minimum ≤ target + s.frozenFootprint → target + s.frozenFootprint ≤ s.absoluteMax →
        s.active.bytes + Size.minFree ≤ s'.cap
          ∧ s'.cap ≤ s.active.bytes + Size.idealFree + Size.page - 1)
      ∧ ∀ start' maximum' zygote' t, Reachable start' maximum' zygote' t →
        t.externalBytes = s.externalBytes → t.frozenFootprint = s.frozenFootprint →
        t.utilization = s.utilization → t.minimum = s.minimum → t.absoluteMax = s.absoluteMax →
        s.active.bytes ≤ t.active.bytes →
        ∃ t', growForUtilization t = .ok () t' ∧ s'.ideal ≤ t'.ideal := by
  have governed := reachable.governed
  have counted := reachable.bytes_le
  obtain ⟨_, s', run, allowed, softLimit, rfl, shared⟩ :=
    (growForUtilization_ends governed counted external low).exists_ok
  have few : s.overhead < Word.limit := by
    have reserve := governed.reserve
    have bounded := governed.bounded
    simp only [overhead, Size.unreservable, Word.limit] at *
    omega
  have live := governed.live_lt counted
  refine ⟨targetSize (s.active.bytes + s.externalBytes) s.utilization, _,
    utilizationTarget_small low (by omega), few, run, rfl, rfl, fun above below => ?_, ?_⟩
  · obtain ⟨least, most⟩ := shared.cap_bounds above below
    exact ⟨least, Nat.le_sub_one_of_lt most⟩
  · intro start' maximum' zygote' t reachable' same_external same_frozen same_utilization same_minimum
      same_maximum more
    obtain ⟨_, t', run', allowed', softLimit', rfl, -⟩ :=
      (growForUtilization_ends reachable'.governed reachable'.bytes_le (same_external ▸ external)
        (same_utilization ▸ low)).exists_ok
    exact ⟨_, run', utilized_mono same_external same_frozen same_utilization same_minimum same_maximum more⟩

/-- A heap that was split, with external memory. Once more lives in it, it is sized no smaller. -/
theorem squeezed_sizes : (small.afterAll squeezed).frozenFootprint = 622592
    ∧ ∃ target s' t', utilizationTarget ((small.afterAll squeezed).active.bytes
        + (small.afterAll squeezed).externalBytes) (small.afterAll squeezed).utilization = .ok target
      ∧ growForUtilization (small.afterAll squeezed) = .ok () s'
      ∧ s'.ideal = target + 622592
      ∧ (small.afterAll squeezed).active.bytes + Size.minFree ≤ s'.cap
      ∧ s'.cap ≤ (small.afterAll squeezed).active.bytes + Size.idealFree + Size.page - 1
      ∧ growForUtilization (small.afterAll (squeezed ++ [.alloc 1000])) = .ok () t'
      ∧ s'.ideal ≤ t'.ideal := by
  have frozen : (small.afterAll squeezed).frozenFootprint = 622592 := by decide +kernel
  obtain ⟨target, s', fits, -, run, -, ideal, bounds, compare⟩ :=
    (reachable_small.afterAll squeezed).growForUtilization_sizes (by decide +kernel) (by decide +kernel)
  obtain ⟨t', run', larger⟩ := compare _ _ _ _ (reachable_small.afterAll (squeezed ++ [.alloc 1000]))
    (by decide +kernel) (by decide +kernel) (by decide +kernel) (by decide +kernel) (by decide +kernel)
    (by decide +kernel)
  have value : utilizationTarget ((small.afterAll squeezed).active.bytes
        + (small.afterAll squeezed).externalBytes) (small.afterAll squeezed).utilization = .ok 529400 := by
    decide +kernel
  cases value.symm.trans fits
  obtain ⟨least, most⟩ := bounds (by decide +kernel) (by decide +kernel)
  refine ⟨frozen, _, s', t', fits, run, ?_, least, most, run', larger⟩
  rw [ideal]
  decide +kernel

end Source

end ManagedHeap
