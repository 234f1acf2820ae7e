import ManagedHeap.Proofs.SourceRuns

/-!
Figures of a heap that no arena, bitmap or soft limit enters into. Most steps leave such a figure as it
is, also where they break off; what is said here of every such figure need not be said of each.
-/

namespace ManagedHeap

namespace Source

open Action

/-- The view shows nothing of the arenas, their bitmaps and the soft limit, nor whether the heap was
split. -/
def Outlying {β : Type} (view : Source → β) : Prop :=
  ∀ s active frozen bitmaps published softLimit zygoteSplit,
    view { s with active, frozen, bitmaps, published, softLimit, zygoteSplit } = view s

/-- The action leaves what the view shows as it is, also where it breaks off. -/
def Retains {α β : Type} (view : Source → β) (a : Action Source α) : Prop :=
  ∀ value, a.Preserves fun s => view s = value

variable {α β γ : Type} {view : Source → γ}

theorem Retains.then {a : Action Source α} {next : α → Action Source β} (first : Retains view a)
    (rest : ∀ value, Retains view (next value)) : Retains view (a >>= next) :=
  fun shown => (first shown).then fun value => rest value shown

theorem retains_pure (value : α) : Retains view (pure value) := fun _ => preserves_pure value

theorem retains_lift (value : Except Defect α) : Retains view (liftM value : Action Source α) :=
  fun _ => preserves_lift value

theorem retains_modify {change : Source → Source} (keeps : ∀ s, view (change s) = view s) :
    Retains view (modify change) := fun _ => preserves_modify fun s same => (keeps s).trans same

theorem retains_quietly {step : Action Source α} (retains : Retains view step) :
    Retains view (quietly step) := retains.then fun _ => retains_pure none

/-! ### Allocating and freeing -/

variable (outlying : Outlying view)

include outlying

theorem retains_alloc (n : Nat) : Retains view (alloc n) := fun _ s same =>
  ends_alloc same (fun _ => ⟨(outlying s ..).trans same, fun _ => (outlying s ..).trans same⟩) id

theorem retains_allocAndGrowArena (n : Nat) : Retains view (allocAndGrowArena n) := by
  intro shown s same
  simp only [allocAndGrowArena, ends_bind, ends_get, ends_ite, ends_pure, ends_lift, ends_set]
  refine ⟨fun _ => same, fun _ => ⟨fun space _ => ?_, fun _ _ => same⟩⟩
  refine (retains_alloc outlying n shown _ ((outlying s ..).trans same)).mono fun _ s₁ more => ?_
  exact ⟨fun _ _ => (outlying s₁ ..).trans more, fun _ _ => more⟩

theorem retains_free (x : Nat) : Retains view (free x) := by
  intro shown s same
  have uncounted : ∀ index freed, view (s.uncount index x freed) = shown := by
    intro index freed
    rw [uncount]
    obtain ⟨active, frozen, changed⟩ := modifyArena_frame s index fun a =>
      { a with bytes := a.bytes - freed, objects := a.objects - 1 }
    rw [changed]
    exact (outlying s ..).trans same
  exact ends_free (fun _ => same) same (fun _ _ _ _ => uncounted ..)
    fun _ _ _ => (outlying (s.uncount ..) ..).trans (uncounted ..)

/-! ### Sizing -/

theorem retains_setShare (share : Nat) : Retains view (setShare share) := by
  intro shown s same
  have set : ∀ active softLimit, view { s with active, softLimit } = shown :=
    fun _ _ => (outlying s ..).trans same
  simp only [setShare, ends_bind, ends_get, ends_ite, ends_lift, ends_set]
  exact ⟨fun _ => ⟨fun _ _ => set .., fun _ _ => same⟩, fun _ => ⟨fun _ _ => set .., fun _ _ => same⟩⟩

theorem retains_trim : Retains view trim := fun _ s same =>
  ends_trim same fun _ => (outlying s ..).trans same

/-! ### Arenas and bitmaps -/

theorem retains_addArena : Retains view addArena := fun _ s same =>
  ends_addArena same same fun split => by
    obtain rfl := split.pushed
    exact (outlying s ..).trans same

theorem retains_beforeFork : Retains view beforeFork := fun shown s same =>
  ends_beforeFork same (retains_addArena outlying shown _ ((outlying s ..).trans same))

theorem retains_afterZygote : Retains view afterZygote := fun shown s same =>
  ends_afterZygote same (retains_addArena outlying shown s same)

theorem outlying_setGeneration (s : Source) (x generation : Nat) :
    view (s.setGeneration x generation) = view s := by
  obtain ⟨active, frozen, same⟩ := s.setGeneration_frame x generation
  rw [same]
  exact outlying s ..

theorem outlying_setWords (s : Source) (x index count value : Nat) :
    view (s.setWords x index count value) = view s := by
  obtain ⟨active, frozen, same⟩ := s.setWords_frame x index count value
  rw [same]
  exact outlying s ..

theorem outlying_snapshotBitmaps (s : Source) : view s.snapshotBitmaps.2 = view s := by
  obtain ⟨extra, same⟩ := s.snapshotBitmaps_frame
  rw [same]
  exact outlying s ..

theorem outlying_replaceCurrent (s : Source) (numbers : List Nat) :
    view (s.replaceCurrent numbers) = view s := by
  obtain ⟨active, frozen, published, same⟩ := s.replaceCurrent_frame numbers
  rw [same]
  exact outlying s ..

/-! ### Steps that move the ideal size -/

variable (level : ∀ s ideal, view { s with ideal } = view s)

include level

theorem retains_setIdeal (size : Nat) : Retains view (setIdeal size) :=
  fun shown => preserves_get fun s same =>
    ((retains_setShare outlying _).then fun _ => retains_modify fun s => level s _) shown s same

theorem retains_growForUtilization : Retains view growForUtilization :=
  fun shown => preserves_get fun s same =>
    ((retains_lift _).then fun _ => (retains_lift _).then fun _ => (retains_lift _).then
      fun _ => (retains_lift _).then fun _ => retains_setIdeal outlying level _) shown s same

theorem retains_shrinkToIdeal : Retains view shrinkToIdeal :=
  (retains_trim outlying).then fun _ => fun shown => preserves_get fun s same =>
    ((retains_setIdeal outlying level s.ideal).then fun _ => retains_pure _) shown s same

theorem retains_allocAndGrow (n : Nat) : Retains view (allocAndGrow n) := fun shown s same =>
  ends_lastResort (retains_alloc outlying n shown s same) (retains_alloc outlying n shown)
    (retains_allocAndGrowArena outlying n shown)
    (fun _ size => retains_setIdeal outlying level size shown)
    (fun s more => (outlying s ..).trans more) fun _ _ more => more

theorem retains_setMinimum (lowest : ∀ s minimum, view { s with minimum } = view s) (size : Nat) :
    Retains view (setMinimum size) := by
  intro shown s same
  simp only [setMinimum, ends_bind, ends_get, ends_set, ends_ite, ends_pure]
  have set := (lowest s (min size s.absoluteMax)).trans same
  refine ⟨fun _ => ?_, fun _ => set⟩
  exact retains_setIdeal outlying level s.ideal shown _ set

end Source

end ManagedHeap
