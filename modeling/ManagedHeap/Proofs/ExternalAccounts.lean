import ManagedHeap.Proofs.ExternalMemory
import ManagedHeap.Proofs.Retained
import ManagedHeap.Proofs.Utilization

/-!
The account of the external memory. It holds what was counted and not uncounted since, its limit is never
below that, and what was just uncounted can be counted again at once.
-/

namespace ManagedHeap

namespace Source

open Action

variable {s s' : Source} {n start maximum counted uncounted utilization : Nat} {zygote : Bool}

/-! ### Steps that leave the account alone -/

section

variable {γ : Type} {view : Source → γ} (outlying : Outlying view)
  (level : ∀ s ideal, view { s with ideal } = view s)

include outlying level

/-- The steps of a collection leave all figures of the heap as a whole alone but the ideal size. -/
theorem Steps.retains (steps : Steps Operation.collects s s') : view s' = view s := by
  have retains : ∀ op : Operation, op.collects → Retains view (perform op) := by
    intro op collects
    cases op with
    | free x => exact retains_quietly (retains_free outlying x)
    | growForUtilization => exact retains_quietly (retains_growForUtilization outlying level)
    | shrinkToIdeal => exact retains_quietly (retains_shrinkToIdeal outlying level)
    | write x index count value =>
      exact retains_quietly (retains_modify fun s => outlying_setWords outlying s x index count value)
    | _ => exact collects.elim
  have kept : ∀ op : Operation, op.collects → (perform op).Preserves fun t => view t = view s :=
    fun op collects => retains op collects (view s)
  exact steps.holds kept rfl

end

/-- The external memory and its limit. -/
def account (s : Source) : Nat × Nat := (s.externalBytes, s.externalLimit)

theorem outlying_account : Outlying account := fun _ _ _ _ _ _ _ => rfl

theorem level_account (s : Source) (ideal : Nat) : account { s with ideal } = s.account := rfl

/-- A step that does not count external memory and does not uncount any leaves the account as it is. -/
theorem retains_internal (op : Operation) (internal : op.isInternal) :
    Retains account (perform op) := by
  have outlying := outlying_account
  cases op with
  | alloc n => exact retains_alloc outlying n
  | allocAndGrow n => exact retains_allocAndGrow outlying level_account n
  | free x => exact retains_quietly (retains_free outlying x)
  | addArena => exact retains_quietly (retains_addArena outlying)
  | beforeFork => exact retains_quietly (retains_beforeFork outlying)
  | afterZygote => exact retains_quietly (retains_afterZygote outlying)
  | setUtilization ratio => exact retains_quietly (retains_modify fun _ => rfl)
  | setMinimum size =>
    exact retains_quietly (retains_setMinimum outlying level_account (fun _ _ => rfl) size)
  | growForUtilization => exact retains_quietly (retains_growForUtilization outlying level_account)
  | trim => exact retains_quietly (retains_trim outlying)
  | shrinkToIdeal => exact retains_quietly (retains_shrinkToIdeal outlying level_account)
  | externalAlloc n grow => exact internal.elim
  | externalFree n => exact internal.elim
  | setGeneration x generation =>
    exact retains_quietly (retains_modify fun s => outlying_setGeneration outlying s x generation)
  | write x index count value =>
    exact retains_quietly (retains_modify fun s => outlying_setWords outlying s x index count value)
  | snapshotBitmaps => exact retains_quietly (retains_modify (outlying_snapshotBitmaps outlying))
  | replaceBitmaps numbers =>
    exact retains_quietly (retains_modify fun s => outlying_replaceCurrent outlying s numbers)

/-! ### Counting and uncounting -/

/-- The limit of the external memory is not below what is counted. -/
def Budgeted (s : Source) : Prop := s.externalBytes ≤ s.externalLimit

theorem Budgeted.congr (budgeted : s.Budgeted) (same : s'.account = s.account) : s'.Budgeted := by
  obtain ⟨bytes, limit⟩ := Prod.mk.inj same
  rw [Budgeted, bytes, limit]
  exact budgeted

/-- The source with another account. -/
def charged (s : Source) (externalBytes externalLimit : Nat) : Source :=
  { s with externalBytes, externalLimit }

theorem total_eq (small : s.externalBytes + n < Size.unreservable) :
    Word.add s.externalBytes n = .ok (s.externalBytes + n) := by
  refine Word.add_eq_ok.2 ⟨?_, rfl⟩
  simp only [Size.unreservable, Word.limit] at *
  omega

theorem target_eq (small : n < Size.unreservable) :
    utilizationTarget n Size.externalUtilization = .ok (targetSize n Size.externalUtilization) :=
  utilizationTarget_small (by decide) (Nat.lt_of_lt_of_le small (by decide))

/-- What fits under the limit is counted, whether the limit may move or not. -/
theorem Budgeted.externalAlloc_fits (budgeted : s.Budgeted)
    (total : s.externalBytes + n < Word.limit) (fits : s.externalBytes + n ≤ s.externalLimit)
    (grow : Bool) :
    externalAlloc n grow s = .ok true (s.charged (s.externalBytes + n) s.externalLimit) := by
  refine Ends.eq_ok ?_
  simp only [externalAlloc, ends_bind, ends_get, ends_require,
    ends_lift_of_ok (Word.add_eq_ok.2 ⟨total, rfl⟩), ends_ite, ends_set, ends_pure,
    decide_eq_true_eq, decide_eq_false_iff_not]
  exact ⟨fun _ => ⟨fun _ => ⟨trivial, rfl⟩, fun above => absurd fits above⟩,
    fun short => short budgeted⟩

/-- What does not fit is refused where the limit may not move. -/
theorem Budgeted.externalAlloc_refused (budgeted : s.Budgeted)
    (total : s.externalBytes + n < Word.limit) (above : ¬ s.externalBytes + n ≤ s.externalLimit) :
    externalAlloc n false s = .ok false s := by
  refine Ends.eq_ok ?_
  simp only [externalAlloc, ends_bind, ends_get, ends_require,
    ends_lift_of_ok (Word.add_eq_ok.2 ⟨total, rfl⟩), ends_ite, ends_set, ends_pure,
    decide_eq_true_eq, decide_eq_false_iff_not]
  exact ⟨fun _ => ⟨fun fits => absurd fits above, fun _ => ⟨fun _ => ⟨trivial, trivial⟩,
    fun grown => absurd rfl grown⟩⟩, fun short => short budgeted⟩

/-- Where the limit may move, it moves to the target for the new total. -/
theorem Budgeted.externalAlloc_grown (budgeted : s.Budgeted)
    (small : s.externalBytes + n < Size.unreservable)
    (above : ¬ s.externalBytes + n ≤ s.externalLimit) :
    externalAlloc n true s = .ok true (s.charged (s.externalBytes + n)
      (targetSize (s.externalBytes + n) Size.externalUtilization)) := by
  refine Ends.eq_ok ?_
  simp only [externalAlloc, ends_bind, ends_get, ends_require, ends_lift_of_ok (total_eq small),
    ends_ite, ends_set, ends_pure, decide_eq_true_eq, decide_eq_false_iff_not]
  refine ⟨fun _ => ⟨fun fits => absurd fits above, fun _ => ⟨fun refused => ?_, fun _ => ?_⟩⟩,
    fun short => short budgeted⟩
  · cases refused
  · rw [ends_lift_of_ok (target_eq small), ends_modify]
    exact ⟨trivial, rfl⟩

/-- Uncounting takes off what there is at the most. The limit goes down to the target for what is left,
but not below what was counted before. -/
theorem externalFree_eq (small : s.externalBytes < Size.unreservable) (n : Nat) :
    externalFree n s = .ok (min n s.externalBytes) (s.charged (s.externalBytes - min n s.externalBytes)
      (min s.externalLimit (max
        (targetSize (s.externalBytes - min n s.externalBytes) Size.externalUtilization)
        s.externalBytes))) := by
  have target := target_eq (Nat.lt_of_le_of_lt (Nat.sub_le _ (min n s.externalBytes)) small)
  refine Ends.eq_ok ?_
  simp only [externalFree, ends_bind, ends_get, ends_set, ends_lift_of_ok target, ends_ite, ends_modify,
    ends_pure]
  generalize targetSize _ _ = limit
  refine ⟨fun lower => ⟨trivial, ?_⟩, fun enough => ⟨trivial, ?_⟩⟩
  · rw [Nat.min_eq_right (Nat.le_of_lt lower)]
    rfl
  · rw [Nat.min_eq_left (Nat.not_lt.1 enough)]
    rfl

/-- The limit stays at or above what was counted before, and is never raised. -/
theorem Budgeted.externalFree_eq (budgeted : s.Budgeted) (small : s.externalBytes < Size.unreservable)
    (n : Nat) : ∃ limit, externalFree n s
        = .ok (min n s.externalBytes) (s.charged (s.externalBytes - min n s.externalBytes) limit)
      ∧ s.externalBytes ≤ limit ∧ limit ≤ s.externalLimit :=
  ⟨_, Source.externalFree_eq small n, Nat.le_min.2 ⟨budgeted, Nat.le_max_right _ _⟩,
    Nat.min_le_left _ _⟩

/-- The computation does not break off with a defect. -/
def Avoids {α : Type} (cause : Defect) (value : Except Defect α) : Prop := value ≠ .error cause

theorem Avoids.then {α β : Type} {cause : Defect} {value : Except Defect α}
    {next : α → Except Defect β} (first : Avoids cause value)
    (rest : ∀ result, Avoids cause (next result)) : Avoids cause (value >>= next) := by
  cases value with
  | ok result => exact rest result
  | error other => exact fun same => first (congrArg _ (Except.error.inj same))

theorem avoids_ok {α : Type} (cause : Defect) (result : α) : Avoids cause (.ok result) :=
  fun same => nomatch same

theorem avoids_error {α : Type} {cause other : Defect} (different : cause ≠ other) :
    Avoids (α := α) cause (.error other) := fun same => different (Except.error.inj same).symm

theorem avoids_ite {α : Type} {cause : Defect} {p : Prop} [Decidable p] {value other : Except Defect α}
    (first : p → Avoids cause value) (second : ¬p → Avoids cause other) :
    Avoids cause (if p then value else other) := by
  split
  case isTrue yes => exact first yes
  case isFalse no => exact second no

theorem avoids_add {cause : Defect} (other : cause ≠ .overflow) (a b : Nat) :
    Avoids cause (Word.add a b) := avoids_ite (fun _ => avoids_ok _ _) fun _ => avoids_error other

/-- The target is computed unless something leaves the range of a word or the utilization is zero. -/
theorem avoids_utilizationTarget {cause : Defect} (other : cause ≠ .overflow) (live : Nat)
    (quotient : utilization = 0 → cause ≠ .divisionByZero) :
    Avoids cause (utilizationTarget live utilization) := by
  have div : Avoids cause (Word.div live utilization) :=
    avoids_ite (fun zero => avoids_error (quotient zero)) fun _ => avoids_ok _ _
  have mul : ∀ a b, Avoids cause (Word.mul a b) := fun a b =>
    avoids_ite (fun _ => avoids_ok _ _) fun _ => avoids_error other
  refine div.then fun quotient => (mul quotient _).then fun target => (avoids_add other live _).then
    fun most => avoids_ite (fun _ => avoids_ok _ _) fun _ => ?_
  exact (avoids_add other live _).then fun least =>
    avoids_ite (fun _ => avoids_ok _ _) fun _ => avoids_ok _ _

/-- As long as the limit is not below what is counted, counting does not break off over that, however
much is asked for. -/
theorem Budgeted.externalAlloc_unasserted (budgeted : s.Budgeted) (n : Nat) (grow : Bool) :
    (externalAlloc n grow).Ends s (fun _ _ => True) fun cause _ => cause ≠ .defect .assertion := by
  have other : ∀ {α : Type} {value : Except Defect α} {cause : Defect}, Avoids .assertion value →
      value = .error cause → Failure.defect cause ≠ .defect .assertion := by
    rintro α value cause avoids fails same
    exact avoids (fails.trans (congrArg _ (Failure.defect.inj same)))
  simp only [externalAlloc, ends_bind, ends_get, ends_require, ends_lift, ends_ite, ends_set,
    ends_modify, ends_pure, implies_true, true_and]
  refine ⟨fun _ => ⟨fun bytes _ _ _ cause fails => ?_, fun cause fails => ?_⟩, fun short => ?_⟩
  · exact other (avoids_utilizationTarget (by decide) _ fun _ => by decide) fails
  · exact other (avoids_add (by decide) _ _) fails
  · exact absurd budgeted (decide_eq_false_iff_not.1 short)

/-- Whether it was counted or not, the limit is not below what there is now. -/
theorem Budgeted.after_alloc {done grow : Bool} (budgeted : s.Budgeted)
    (run : externalAlloc n grow s = .ok done s') (small : s'.externalBytes < Size.unreservable) :
    s'.Budgeted ∧ s'.externalBytes = if done then s.externalBytes + n else s.externalBytes := by
  rcases (Heap.externalAlloc_cases s n grow).ok run with ⟨rfl, limit, charged⟩ | ⟨rfl, rfl⟩
  case inr => exact ⟨budgeted, rfl⟩
  have total : s'.externalBytes = s.externalBytes + n := by rw [charged]
  refine ⟨?_, total⟩
  rw [total] at small
  have fitting : s.externalBytes + n < Word.limit := Nat.lt_trans small (by decide)
  by_cases fits : s.externalBytes + n ≤ s.externalLimit
  · cases run.symm.trans (budgeted.externalAlloc_fits fitting fits grow)
    exact fits
  · cases grow with
    | false => cases run.symm.trans (budgeted.externalAlloc_refused fitting fits)
    | true =>
      cases run.symm.trans (budgeted.externalAlloc_grown small fits)
      exact Nat.le_trans (Nat.le_add_right _ _) (targetSize_bounds _ _).1

theorem Budgeted.after_free (budgeted : s.Budgeted) (small : s.externalBytes < Size.unreservable)
    {freed : Nat} (run : externalFree n s = .ok freed s') :
    s'.Budgeted ∧ s'.externalBytes + freed = s.externalBytes := by
  obtain ⟨limit, run', above, -⟩ := budgeted.externalFree_eq small n
  cases run.symm.trans run'
  exact ⟨Nat.le_trans (Nat.sub_le _ _) above, Nat.sub_add_cancel (Nat.min_le_right _ _)⟩

/-! ### Runs -/

/-- Arenas after steps in which the external memory stayed below `Size.unreservable`, with the bytes
counted since they were started and the bytes uncounted. -/
inductive Billed (start maximum : Nat) (zygote : Bool) : Nat → Nat → Source → Prop where
  | startup {s : Source} :
    startup start maximum zygote = .ok (.ok s) → Billed start maximum zygote 0 0 s
  | alloc {counted uncounted : Nat} {s s' : Source} (n : Nat) (grow done : Bool) :
    Billed start maximum zygote counted uncounted s → externalAlloc n grow s = .ok done s' →
      s'.externalBytes < Size.unreservable →
      Billed start maximum zygote (if done then counted + n else counted) uncounted s'
  | free {counted uncounted freed : Nat} {s s' : Source} (n : Nat) :
    Billed start maximum zygote counted uncounted s → externalFree n s = .ok freed s' →
      Billed start maximum zygote counted (uncounted + freed) s'
  | aside {counted uncounted : Nat} {s : Source} (op : Operation) : op.isInternal →
    Billed start maximum zygote counted uncounted s →
      Billed start maximum zygote counted uncounted ((perform op).after s)

/-- What each step keeps up: the limit, the bound on the total and the balance. -/
theorem Billed.balances (billed : Billed start maximum zygote counted uncounted s) :
    s.Budgeted ∧ s.externalBytes < Size.unreservable ∧ counted = s.externalBytes + uncounted := by
  induction billed with
  | startup run =>
    obtain ⟨-, active, map, -, rfl⟩ := startup_eq run
    exact ⟨Nat.le_refl 0, Nat.lt_of_lt_of_le Nat.zero_lt_one (by decide), rfl⟩
  | alloc n grow done _ run small ih =>
    obtain ⟨budgeted, -, balance⟩ := ih
    obtain ⟨budgeted', total⟩ := budgeted.after_alloc run small
    refine ⟨budgeted', small, ?_⟩
    cases done with
    | false => exact balance.trans (congrArg (· + _) total.symm)
    | true =>
      rw [if_pos rfl] at total ⊢
      omega
  | free n _ run ih =>
    obtain ⟨budgeted, small, balance⟩ := ih
    obtain ⟨budgeted', total⟩ := budgeted.after_free small run
    exact ⟨budgeted', by omega, by omega⟩
  | aside op internal _ ih =>
    obtain ⟨bytes, limit⟩ := Prod.mk.inj ((retains_internal op internal _).after rfl)
    rw [Budgeted, bytes, limit]
    exact ih

/-- Whatever was counted and uncounted since the arenas were started, as long as the total stayed below
the size of any address space: the external memory is what was counted less what was uncounted, and its
limit is not below that, so that no counting breaks off over it. Counting within that bound comes to its
end, always counts where the limit may move, and changes nothing where it refuses. Uncounting never
breaks off and never raises the limit, and what it took off can be had again at once with the limit where
it is. -/
theorem Billed.external_accounted (billed : Billed start maximum zygote counted uncounted s) :
    s.externalBytes = counted - uncounted ∧ uncounted ≤ counted
      ∧ s.externalBytes ≤ s.externalLimit
      ∧ (∀ n grow s', externalAlloc n grow s ≠ .error (.defect .assertion) s')
      ∧ (∀ n grow, s.externalBytes + n < Size.unreservable →
        ∃ done s', externalAlloc n grow s = .ok done s' ∧ (grow = true → done = true)
          ∧ (done = true → s'.externalBytes = s.externalBytes + n) ∧ (done = false → s' = s))
      ∧ ∀ n, ∃ s', externalFree n s = .ok (min n s.externalBytes) s'
        ∧ s'.externalLimit ≤ s.externalLimit
        ∧ s'.externalBytes + min n s.externalBytes = s.externalBytes
        ∧ ∀ k ≤ min n s.externalBytes, externalAlloc k false s'
          = .ok true { s' with externalBytes := s'.externalBytes + k } := by
  obtain ⟨budgeted, small, balance⟩ := billed.balances
  refine ⟨by omega, by omega, budgeted, ?_, ?_, ?_⟩
  · intro n grow s' fails
    exact (budgeted.externalAlloc_unasserted n grow).error fails rfl
  · intro n grow within
    have fitting : s.externalBytes + n < Word.limit := Nat.lt_trans within (by decide)
    by_cases fits : s.externalBytes + n ≤ s.externalLimit
    · exact ⟨_, _, budgeted.externalAlloc_fits fitting fits grow, fun _ => rfl, fun _ => rfl, nofun⟩
    · cases grow with
      | false => exact ⟨_, _, budgeted.externalAlloc_refused fitting fits, nofun, nofun, fun _ => rfl⟩
      | true =>
        exact ⟨_, _, budgeted.externalAlloc_grown within fits, fun _ => rfl, fun _ => rfl, nofun⟩
  · intro n
    obtain ⟨limit, run, above, below⟩ := budgeted.externalFree_eq small n
    obtain ⟨budgeted', total⟩ := budgeted.after_free small run
    refine ⟨_, run, below, total, fun k less => ?_⟩
    have fits : (s.charged (s.externalBytes - min n s.externalBytes) limit).externalBytes + k ≤ limit :=
      Nat.le_trans (Nat.le_trans (Nat.add_le_add_left less _) (Nat.le_of_eq total)) above
    refine budgeted'.externalAlloc_fits (Nat.lt_of_le_of_lt ?_ (Nat.lt_trans small (by decide))) fits _
    exact Nat.le_trans (Nat.add_le_add_left less _) (Nat.le_of_eq total)

/-- The arenas after external memory was counted and then refused. -/
def refused : Source := (externalAlloc 600000 false).after ((externalAlloc 5000 true).after small)

/-- Then it was counted with the limit moving, and in part uncounted. -/
def overspent : Source :=
  (externalFree 5000).after ((perform (.alloc 100)).after ((externalAlloc 600000 true).after refused))

theorem billed_overspent : Billed 4096 4194304 true 605000 5000 overspent := by
  have first : Billed 4096 4194304 true 5000 0 ((externalAlloc 5000 true).after small) :=
    (Billed.startup rfl).alloc 5000 true true (eq_ok_of_result (by decide +kernel)) (by decide +kernel)
  have second : Billed 4096 4194304 true 5000 0 refused :=
    first.alloc 600000 false false (eq_ok_of_result (by decide +kernel)) (by decide +kernel)
  have third : Billed 4096 4194304 true 605000 0 ((externalAlloc 600000 true).after refused) :=
    second.alloc 600000 true true (eq_ok_of_result (by decide +kernel)) (by decide +kernel)
  have fourth := third.aside (.alloc 100) trivial
  exact fourth.free 5000 (eq_ok_of_result (show _ = some 5000 by decide +kernel))

/-- More is uncounted than there is. All that there was can be had again. -/
theorem overspent_accounted : overspent.externalBytes = 600000 ∧ overspent.externalLimit = 1124288
    ∧ ∃ s', externalFree 1000000 overspent = .ok 600000 s' ∧ s'.externalLimit ≤ 1124288
      ∧ externalAlloc 600000 false s' = .ok true { s' with externalBytes := 600000 } := by
  have bytes : overspent.externalBytes = 600000 := by decide +kernel
  have limit : overspent.externalLimit = 1124288 := by decide +kernel
  obtain ⟨-, -, -, -, -, frees⟩ := billed_overspent.external_accounted
  obtain ⟨s', run, below, total, again⟩ := frees 1000000
  rw [bytes] at run total again
  have less : 600000 ≤ min 1000000 600000 := by decide
  have restored := again 600000 less
  have none : s'.externalBytes = 0 := Nat.add_right_cancel (total.trans (Nat.zero_add _).symm)
  rw [none] at restored
  exact ⟨bytes, limit, s', run, limit ▸ below, restored⟩

end Source

end ManagedHeap
