import ManagedHeap.Proofs.Rooms
import ManagedHeap.Proofs.SourceRuns

/-!
What the last resort leaves behind. On its way it lifts the soft limit and lets the active arena grow,
and however it ends the sizes agree again: what the ideal size leaves to the active arena is its allowed
footprint, or its soft limit where it has obtained more.
-/

namespace ManagedHeap

namespace Source

open Action

variable {s s' : Source} {m n start maximum : Nat} {zygote : Bool} {result : Option Nat}

/-- What the ideal size leaves to the active arena. -/
def share (s : Source) : Nat := s.ideal - s.overhead

/-- The active arena was given its share. -/
structure Apportioned (s : Source) : Prop where
  softLimit : s.softLimit = if s.share < s.active.footprint then some s.share else none
  allowed : s.active.allowed = max s.active.footprint (Size.paged s.share)

/-- Whatever the ideal size is set to, the active arena is given its share. -/
theorem setIdeal_apportions (governed : s.Governed m) (size : Nat) :
    (setIdeal size).Ends s (fun _ s' => (∃ allowed softLimit,
        s' = s.steered allowed softLimit (max s.minimum (min size s.absoluteMax)))
      ∧ s'.Apportioned) fun _ _ => False := by
  have pages := (governed.sound.fits _ s.active_mem).laid.footprint_pages
  have minimum := Nat.le_trans governed.least governed.most
  refine (governed.toHoused.setIdeal_spec minimum size).mono ?_
  rintro _ s' ⟨allowed, softLimit, rfl, shared⟩
  refine ⟨⟨allowed, softLimit, rfl⟩, ?_⟩
  generalize ideal : max s.minimum (min size s.absoluteMax) = bytes at shared
  have share : (s.steered allowed softLimit bytes).share = bytes - s.overhead := rfl
  rcases shared.cases with ⟨less, same, limit⟩ | ⟨enough, above, near, limit⟩
  · refine ⟨?_, ?_⟩
    · rw [share]
      exact limit.trans (if_pos less).symm
    · rw [share]
      have short := (Size.paged_le pages).2 (Nat.le_of_lt less)
      exact same.trans (Nat.max_eq_left short).symm
  · refine ⟨?_, ?_⟩
    · rw [share]
      exact limit.trans (if_neg (Nat.not_lt.2 enough)).symm
    · rw [share]
      have whole := shared.pages
      change allowed = max s.active.footprint _
      simp only [Size.paged, Size.page] at *
      omega

/-- Nothing but the active arena and the bitmaps has changed. -/
def Confines (s s' : Source) : Prop := ∃ active bitmaps, s' = { s with active, bitmaps }

/-- Nothing but what the active arena is allowed has changed. -/
def Recaps (s s' : Source) : Prop :=
  ∃ allowed, s' = { s with active := { s.active with space := { s.active.space with allowed } } }

theorem alloc_refuses (sound : s.Sound) (n : Nat) : (alloc n).Ends s
    (fun result s' => alloc n s = .ok result s' ∧ Grown s s' ∧ (result = none → s' = s))
    fun _ _ => True := by
  have runs : (alloc n).Ends s (fun result s' => alloc n s = .ok result s') fun _ _ => True :=
    ⟨fun run => run, fun _ => trivial⟩
  exact (runs.and ((alloc_grows sound n).and (alloc_rests n s))).imp
    (fun _ _ all => ⟨all.1, all.2.1, all.2.2⟩) fun _ _ _ => trivial

/-- Growing the arena leaves all else alone, and where it fails only the cap on the arena has moved. -/
theorem allocAndGrowArena_confines (governed : s.Governed m) (n : Nat) :
    (allocAndGrowArena n).Ends s
      (fun result s' => s'.Governed m ∧ Confines s s' ∧ (result = none → Recaps s s'))
      fun _ _ => True := by
  refine governed.ends_allocAndGrowArena (fun _ => ⟨governed, ⟨_, _, rfl⟩, fun _ => ⟨_, rfl⟩⟩)
    fun _ _ _ raised => (alloc_refuses raised.sound n).mono ?_
  rintro result s₁ ⟨-, grown, refused⟩ governed₁
  have pinned := governed₁.pin.2
  obtain ⟨⟨active, bitmaps, rfl⟩, -⟩ := grown
  refine ⟨pinned, ⟨_, _, rfl⟩, fun none => ?_⟩
  cases refused none
  exact ⟨_, rfl⟩

/-- How a last resort that was needed ends. -/
def Resorts (s : Source) : Option Nat → Source → Prop
  | none, s' => s'.Apportioned ∧ ∃ allowed softLimit, s' = { s with
      active := { s.active with space := { s.active.space with allowed } }, softLimit }
  | some _, s' => s'.Apportioned
      ∧ s'.ideal = max s.minimum (min (s.overhead + s'.active.bytes) s.absoluteMax)
      ∧ ∃ active bitmaps softLimit ideal, s' = { s with active, bitmaps, softLimit, ideal }

/-- The ideal size follows what was allocated. -/
theorem snapIdeal_resorts (governed : s'.Governed m) {limit : Option Nat}
    (confines : Confines { s with softLimit := limit } s') (x : Nat) :
    (do snapIdeal
        return some x : Action Source (Option Nat)).Ends s' (fun result s'' => Resorts s result s'')
      fun _ _ => True := by
  obtain ⟨active, bitmaps, rfl⟩ := confines
  simp only [snapIdeal, ends_bind, ends_get, ends_pure]
  refine (setIdeal_apportions governed _).imp ?_ fun _ _ => False.elim
  rintro _ _ ⟨⟨allowed, softLimit, rfl⟩, apportioned⟩
  exact ⟨apportioned, rfl, _, _, _, _, rfl⟩

theorem allocOrRestore_resorts {limit : Option Nat}
    (governed : Governed m { s with softLimit := limit }) (n : Nat) :
    (allocOrRestore n s.ideal).Ends { s with softLimit := limit }
      (fun result s' => Resorts s result s') fun _ _ => True := by
  rw [allocOrRestore, ends_bind]
  refine (allocAndGrowArena_confines governed n).mono ?_
  rintro result s₁ ⟨governed₁, confines, refused⟩
  cases result with
  | some x => exact snapIdeal_resorts governed₁ confines x
  | none =>
    obtain ⟨allowed, rfl⟩ := refused rfl
    simp only [ends_bind, ends_pure]
    refine (setIdeal_apportions governed₁ _).imp ?_ fun _ _ => False.elim
    rintro _ _ ⟨⟨allowed', softLimit, rfl⟩, apportioned⟩
    -- The ideal size was within its bounds, so it is set to what it was.
    have same : max s.minimum (min s.ideal s.absoluteMax) = s.ideal := by
      have least : s.minimum ≤ s.ideal := governed.least
      have most : s.ideal ≤ s.absoluteMax := governed.most
      omega
    exact ⟨apportioned, allowed', softLimit, congrArg (fun ideal => { s with
      active := { s.active with space := { s.active.space with allowed := allowed' } }
      softLimit
      ideal }) same⟩

theorem allocAndGrow_ends (governed : s.Governed m) (n : Nat) :
    (allocAndGrow n).Ends s (fun result s' => (∃ x, result = some x ∧ alloc n s = .ok result s'
        ∧ Grown s s') ∨ (alloc n s = .ok none s ∧ Resorts s result s')) fun _ _ => True := by
  simp only [allocAndGrow, ends_bind]
  refine (alloc_refuses governed.sound n).mono ?_
  rintro result s₁ ⟨run, grown, refused⟩
  cases result with
  | some x => exact ends_pure.2 (.inl ⟨x, rfl, run, grown⟩)
  | none =>
    cases refused rfl
    simp only [ends_get, ends_ite, ends_bind, ends_modify]
    refine ⟨fun _ => ?_, fun _ => ?_⟩
    · have lifted := (alloc_refuses governed.unlimited.sound n).and
        (preserves_alloc n _ governed.unlimited)
      refine lifted.imp ?_ fun _ _ _ => trivial
      rintro result s₂ ⟨⟨-, grown, refused⟩, governed₂⟩
      cases result with
      | some x =>
        refine (snapIdeal_resorts governed₂ grown.frame x).mono ?_
        exact fun _ _ resorts => .inr ⟨run, resorts⟩
      | none =>
        cases refused rfl
        refine (allocOrRestore_resorts governed.unlimited n).mono ?_
        exact fun _ _ resorts => .inr ⟨run, resorts⟩
    · exact (allocOrRestore_resorts governed n).mono fun _ _ resorts => .inr ⟨run, resorts⟩

/-- However the last resort ends, the sizes agree afterwards. A first attempt that succeeds moves none
of them. Where the last resort fails, nothing but the soft limit and the cap on the active arena may
have moved, and where it succeeds the ideal size is what is in use, within its bounds. -/
theorem Reachable.allocAndGrow_sizes (reachable : Reachable start maximum zygote s)
    (run : allocAndGrow n s = .ok result s') :
    (∃ x, result = some x ∧ alloc n s = .ok (some x) s' ∧ s'.active.allowed = s.active.allowed
        ∧ s'.active.absoluteMax = s.active.absoluteMax
        ∧ ∃ active bitmaps, s' = { s with active, bitmaps })
      ∨ (alloc n s = .ok none s ∧ Resorts s result s') := by
  rcases (allocAndGrow_ends reachable.governed n).ok run with ⟨x, rfl, plain, grown⟩ | needed
  · exact .inl ⟨x, rfl, plain, grown.allowed, grown.reserve, grown.frame⟩
  · exact .inr needed

/-- A large object was freed between others, and external memory leaves less than they take. -/
def crowded : List Operation :=
  [.allocAndGrow 2000000, .allocAndGrow 1000000, .allocAndGrow 1000000,
    .free (Region.arenaBase 0), .externalAlloc 1500000 true, .growForUtilization]

/-- One more byte than was freed can only be refused, and the soft limit is put back. With the limit
lifted there is room for what was freed. -/
theorem crowded_sizes : (small.afterAll crowded).softLimit = some 2694304
    ∧ (∃ s', allocAndGrow 2000001 (small.afterAll crowded) = .ok none s'
      ∧ s'.softLimit = some 2694304 ∧ Resorts (small.afterAll crowded) none s')
    ∧ ∃ x s', allocAndGrow 2000000 (small.afterAll crowded) = .ok (some x) s'
      ∧ Resorts (small.afterAll crowded) (some x) s' := by
  have reachable := reachable_small.afterAll crowded
  refine ⟨by decide +kernel, ⟨_, rfl, rfl, ?_⟩, ⟨_, _, rfl, ?_⟩⟩
  · rcases reachable.allocAndGrow_sizes (n := 2000001) rfl with ⟨x, none, -⟩ | ⟨-, resorts⟩
    · cases none
    · exact resorts
  · rcases reachable.allocAndGrow_sizes (n := 2000000) rfl with ⟨x, -, plain, -⟩ | ⟨-, resorts⟩
    · have refused : alloc 2000000 (small.afterAll crowded) = .ok none (small.afterAll crowded) := rfl
      cases refused.symm.trans plain
    · exact resorts

end Source

end ManagedHeap
