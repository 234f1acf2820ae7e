import ManagedHeap.Proofs.SourceRuns

/-!
What the active arena may be allowed. However the heap is sized, split and grown, that is no more than the
absolute maximum in whole pages.
-/

namespace ManagedHeap

namespace Source

open Action

variable {s s' : Source} {m n allowed start maximum : Nat} {zygote : Bool}

/-- The active arena is allowed no more than the absolute maximum in whole pages. -/
def Restrained (s : Source) : Prop := s.active.allowed ≤ s.ceiling

/-- The growth is under control, also as to what the active arena is allowed. -/
def Curbed (m : Nat) (s : Source) : Prop := s.Governed m ∧ s.Restrained

theorem le_ceiling (pages : allowed % Size.page = 0) (near : allowed < s.absoluteMax + Size.page) :
    allowed ≤ s.ceiling := by
  simp only [ceiling, Size.page] at *
  omega

/-- What was obtained may be allowed. -/
theorem Sound.active_le_ceiling (sound : s.Sound) : s.active.footprint ≤ s.ceiling := by
  have whole := sound.footprint_le_ceiling
  have split : s.footprint = s.active.footprint + s.frozenFootprint := rfl
  omega

theorem Restrained.congr (restrained : s.Restrained) (same : s'.active.allowed = s.active.allowed)
    (maximum : s'.absoluteMax = s.absoluteMax) : s'.Restrained := by
  rw [Restrained, same, ceiling_congr maximum]
  exact restrained

theorem Grown.restrained (grown : Grown s s') (restrained : s.Restrained) : s'.Restrained := by
  obtain ⟨⟨active, bitmaps, rfl⟩, -, allowed, -, -⟩ := grown
  exact restrained.congr allowed rfl

theorem Paced.restrained (paced : Paced s s') (restrained : s.Restrained) : s'.Restrained := by
  have active : s'.active.gauge = s.active.gauge := congrArg (fun l => l.headD default) paced.gauges
  simp only [Arena.gauge, Prod.mk.injEq] at active
  exact restrained.congr active.2.2.1 paced.maximum

theorem curbed_of_ends {α : Type} {action : Action Source α} (preserves : action.Preserves (Governed m))
    (ends : ∀ s, s.Governed m → s.Restrained →
      action.Ends s (fun _ s' => s'.Restrained) fun _ s' => s'.Restrained) :
    action.Preserves (Curbed m) := by
  rintro s ⟨governed, restrained⟩
  refine ((preserves s governed).and (ends s governed restrained)).imp ?_ ?_
  · exact fun _ _ both => both
  · exact fun _ _ both => both

theorem curbed_of_paced {change : Source → Source} (preserves : Preserves (Governed m) (modify change))
    (paces : ∀ s, Paced s (change s)) : Preserves (Curbed m) (modify change) :=
  curbed_of_ends preserves fun s _ restrained => ends_modify.2 ((paces s).restrained restrained)

/-! ### Sizing -/

theorem Housed.setIdeal_restrained (housed : s.Housed m) (minimum : s.minimum ≤ s.absoluteMax)
    (size : Nat) : (setIdeal size).Ends s (fun _ s' => s'.Restrained) fun _ _ => False := by
  refine (housed.setIdeal_spec minimum size).mono ?_
  rintro _ _ ⟨allowed, softLimit, rfl, shared⟩
  change allowed ≤ s.ceiling
  rcases shared.cases with ⟨-, rfl, -⟩ | ⟨-, -, near, -⟩
  · exact housed.sound.active_le_ceiling
  · refine le_ceiling shared.pages ?_
    omega

theorem curbed_setIdeal (size : Nat) : (setIdeal size).Preserves (Curbed m) :=
  curbed_of_ends (preserves_setIdeal size) fun _ governed _ =>
    (governed.setIdeal_restrained (Nat.le_trans governed.least governed.most) size).imp
      (fun _ _ kept => kept) fun _ _ => False.elim

theorem curbed_setMinimum (size : Nat) : (setMinimum size).Preserves (Curbed m) :=
  curbed_of_ends (preserves_setMinimum size) fun s governed restrained =>
    governed.ends_setMinimum (fun _ _ => restrained) fun housed =>
      (housed.setIdeal_restrained (Nat.min_le_right _ _) s.ideal).imp (fun _ _ kept => kept)
        fun _ _ => False.elim

theorem curbed_growForUtilization : growForUtilization.Preserves (Curbed m) :=
  preserves_get fun s curbed =>
    ((preserves_lift _).then fun _ => (preserves_lift _).then fun _ => (preserves_lift _).then
      fun _ => (preserves_lift _).then fun _ => curbed_setIdeal _) s curbed

theorem curbed_trim : trim.Preserves (Curbed m) := by
  refine curbed_of_ends preserves_trim fun s governed restrained => ?_
  refine (trim_paces governed.sound).imp ?_ ?_
  · rintro _ s' ⟨active, frozen, rfl, cut⟩
    obtain ⟨⟨-, footprint, words, rfl⟩, -⟩ := List.forall₂_cons.1 cut
    exact restrained
  · rintro _ s' rfl
    exact restrained

theorem curbed_shrinkToIdeal : shrinkToIdeal.Preserves (Curbed m) :=
  curbed_trim.then fun _ => preserves_get fun s curbed =>
    ((curbed_setIdeal s.ideal).then fun _ => preserves_pure _) s curbed

/-! ### Allocating and freeing -/

theorem curbed_alloc (n : Nat) : (alloc n).Preserves (Curbed m) :=
  curbed_of_ends (preserves_alloc n) fun _ governed restrained => (alloc_grows governed.sound n).imp
    (fun _ _ grown => grown.restrained restrained) fun _ _ grown => grown.restrained restrained

/-- While the arena grows it is allowed its own maximum, and what it then has obtained afterwards. -/
theorem curbed_allocAndGrowArena (n : Nat) : (allocAndGrowArena n).Preserves (Curbed m) := by
  refine curbed_of_ends (preserves_allocAndGrowArena n) fun s governed restrained => ?_
  refine governed.ends_allocAndGrowArena (fun _ => restrained) fun {allowed} _ _ near raised => ?_
  have restrained₁ :
      Restrained { s with active := { s.active with space := { s.active.space with allowed } } } := by
    have reserve := governed.reserve
    change allowed ≤ s.ceiling
    rcases near with rfl | near
    · exact governed.sound.active_le_ceiling
    · exact le_ceiling (raised.capped _ (active_mem _)).pages (by omega)
  refine (curbed_alloc n _ ⟨raised, restrained₁⟩).imp ?_ fun _ _ curbed => curbed.2
  exact fun _ _ _ governed₁ => governed₁.sound.active_le_ceiling

theorem curbed_allocAndGrow (n : Nat) : (allocAndGrow n).Preserves (Curbed m) := fun s curbed =>
  ends_lastResort (curbed_alloc n s curbed) (curbed_alloc n) (curbed_allocAndGrowArena n)
    (fun _ => curbed_setIdeal) (fun _ curbed => ⟨curbed.1.unlimited, curbed.2⟩) fun _ _ curbed => curbed

theorem curbed_free (x : Nat) : (free x).Preserves (Curbed m) := by
  refine curbed_of_ends (preserves_free x) fun s _ restrained => (free_paces x).imp ?_ ?_
  · exact fun _ _ paced => paced.restrained restrained
  · rintro _ _ rfl
    exact restrained

/-! ### New arenas -/

theorem SplitOff.restrained {a : Arena} {map : Bitmap} (split : s.SplitOff a map allowed s') :
    s'.Restrained := by
  obtain ⟨capped, -, near⟩ := capped_of_freshArena split.made (by decide)
  have room := split.room
  obtain rfl := split.pushed
  change a.allowed ≤ s.ceiling
  exact le_ceiling capped.pages (by omega)

theorem curbed_addArena : addArena.Preserves (Curbed m) := fun _ curbed =>
  ends_addArena curbed curbed fun split => ⟨split.governed curbed.1, split.restrained⟩

theorem curbed_beforeFork : beforeFork.Preserves (Curbed m) := fun _ curbed =>
  ends_beforeFork curbed (curbed_addArena _ ⟨curbed.1.tried, curbed.2⟩)

theorem curbed_afterZygote : afterZygote.Preserves (Curbed m) := fun _ curbed =>
  ends_afterZygote curbed (curbed_addArena _ curbed)

/-! ### External memory -/

theorem curbed_externalAlloc (n : Nat) (grow : Bool) :
    (externalAlloc n grow).Preserves (Curbed m) :=
  curbed_of_ends (preserves_externalAlloc n grow) fun _ _ restrained =>
    ends_externalAlloc restrained restrained (fun _ => ⟨restrained, restrained⟩) grow

theorem curbed_externalFree (n : Nat) : (externalFree n).Preserves (Curbed m) :=
  curbed_of_ends (preserves_externalFree n) fun _ _ restrained => ends_externalFree fun _ => restrained

/-! ### Runs -/

theorem curbed_perform (op : Operation) : (perform op).Preserves (Curbed m) := by
  cases op with
  | alloc n => exact curbed_alloc n
  | allocAndGrow n => exact curbed_allocAndGrow n
  | free x => exact preserves_quietly (curbed_free x)
  | addArena => exact preserves_quietly curbed_addArena
  | beforeFork => exact preserves_quietly curbed_beforeFork
  | afterZygote => exact preserves_quietly curbed_afterZygote
  | setUtilization ratio =>
    exact preserves_quietly (curbed_of_paced (preserves_setUtilization ratio)
      fun _ => ⟨rfl, rfl, rfl, rfl, rfl, rfl⟩)
  | setMinimum size => exact preserves_quietly (curbed_setMinimum size)
  | growForUtilization => exact preserves_quietly curbed_growForUtilization
  | trim => exact preserves_quietly curbed_trim
  | shrinkToIdeal => exact preserves_quietly curbed_shrinkToIdeal
  | externalAlloc n grow => exact preserves_quietly (curbed_externalAlloc n grow)
  | externalFree n => exact preserves_quietly (curbed_externalFree n)
  | setGeneration x generation =>
    exact preserves_quietly (curbed_of_paced (preserves_setGeneration x generation)
      fun s => s.setGeneration_paces x generation)
  | write x index count value =>
    exact preserves_quietly (curbed_of_paced (preserves_setWords x index count value)
      fun s => s.setWords_paces x index count value)
  | snapshotBitmaps =>
    exact preserves_quietly (curbed_of_paced preserves_snapshotBitmaps snapshotBitmaps_paces)
  | replaceBitmaps numbers =>
    exact preserves_quietly (curbed_of_paced (preserves_replaceCurrent numbers)
      fun s => s.replaceCurrent_paces numbers)

/-- In every reachable heap the active arena is allowed no more than the absolute maximum, in whole
pages. -/
theorem Reachable.allowed_le (reachable : Reachable start maximum zygote s) :
    s.active.allowed ≤ s.ceiling := by
  have curbed : s.Curbed maximum := by
    induction reachable with
    | startup run =>
      have governed := startup_governed run
      have bounded := governed.bounded
      have pages := (governed.capped _ (active_mem _)).pages
      rw [governed.maximum] at bounded
      obtain ⟨order, active, map, make, rfl⟩ := startup_eq run
      obtain ⟨-, -, near⟩ := capped_of_freshArena make (by omega)
      refine ⟨governed, le_ceiling pages ?_⟩
      change active.allowed < maximum + Size.page
      omega
    | step op _ ih => exact (curbed_perform op).after ih
  exact curbed.2

end Source

end ManagedHeap
