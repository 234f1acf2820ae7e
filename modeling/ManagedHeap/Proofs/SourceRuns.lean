import ManagedHeap.Proofs.Steering

/-!
The arenas that any use of them can come to, and what steers their growth there.
-/

namespace ManagedHeap

namespace Source

open Action

variable {s : Source} {start maximum : Nat} {zygote : Bool}

theorem preserves_quietly {α : Type} {p : Source → Prop} {step : Action Source α}
    (preserves : step.Preserves p) : (quietly step).Preserves p :=
  preserves.then fun _ => preserves_pure none

theorem preserves_perform (op : Operation) : (perform op).Preserves (Governed maximum) := by
  cases op with
  | alloc n => exact preserves_alloc n
  | allocAndGrow n => exact preserves_allocAndGrow n
  | free x => exact preserves_quietly (preserves_free x)
  | addArena => exact preserves_quietly preserves_addArena
  | beforeFork => exact preserves_quietly preserves_beforeFork
  | afterZygote => exact preserves_quietly preserves_afterZygote
  | setUtilization ratio => exact preserves_quietly (preserves_setUtilization ratio)
  | setMinimum size => exact preserves_quietly (preserves_setMinimum size)
  | growForUtilization => exact preserves_quietly preserves_growForUtilization
  | trim => exact preserves_quietly preserves_trim
  | shrinkToIdeal => exact preserves_quietly preserves_shrinkToIdeal
  | externalAlloc n grow => exact preserves_quietly (preserves_externalAlloc n grow)
  | externalFree n => exact preserves_quietly (preserves_externalFree n)
  | setGeneration x generation => exact preserves_quietly (preserves_setGeneration x generation)
  | write x index count value => exact preserves_quietly (preserves_setWords x index count value)
  | snapshotBitmaps => exact preserves_quietly preserves_snapshotBitmaps
  | replaceBitmaps numbers => exact preserves_quietly (preserves_replaceCurrent numbers)

/-- The arenas of a heap started with these sizes, after any steps. A step counts also where it
breaks off. -/
inductive Reachable (start maximum : Nat) (zygote : Bool) : Source → Prop where
  | startup {s : Source} :
    startup start maximum zygote = .ok (.ok s) → Reachable start maximum zygote s
  | step {s : Source} (op : Operation) :
    Reachable start maximum zygote s → Reachable start maximum zygote ((perform op).after s)

/-- The arenas after steps, one after the other. -/
def afterAll (s : Source) : List Operation → Source
  | [] => s
  | op :: rest => ((perform op).after s).afterAll rest

theorem Reachable.afterAll (reachable : Reachable start maximum zygote s) (ops : List Operation) :
    Reachable start maximum zygote (s.afterAll ops) := by
  induction ops generalizing s with
  | nil => exact reachable
  | cons op rest ih => exact ih (reachable.step op)

theorem Reachable.governed (reachable : Reachable start maximum zygote s) :
    s.Governed maximum := by
  induction reachable with
  | startup run => exact startup_governed run
  | step op _ ih => exact (preserves_perform op).after ih

theorem Sound.footprint_le_ceiling (sound : s.Sound) : s.footprint ≤ s.ceiling := by
  have active := (sound.fits _ s.active_mem).laid.footprint_le
  refine Nat.le_trans ?_ sound.budget
  change s.active.footprint + s.frozenFootprint ≤ _
  rw [Nat.add_comm]
  exact Nat.add_le_add_left active _

theorem Governed.isSoftLimited_iff (governed : s.Governed maximum) :
    s.isSoftLimited = true ↔ s.softLimit.isSome = true := by
  unfold isSoftLimited
  cases limited : s.softLimit with
  | none => simp
  | some limit => simpa using governed.limit limit limited

/-- The growth of the arenas is under control. -/
structure Controlled (s : Source) : Prop where
  ideal : s.minimum ≤ s.ideal ∧ s.ideal ≤ s.absoluteMax
  limit : ∀ limit, s.softLimit = some limit → limit ≤ s.ideal
  limited : s.isSoftLimited = true ↔ s.softLimit.isSome = true
  within : ∀ a ∈ s.arenas, a.footprint ≤ a.allowed ∧ a.footprint ≤ a.space.capacity
  pages : ∀ a ∈ s.arenas, a.footprint % Size.page = 0 ∧ a.allowed % Size.page = 0
  count : 1 ≤ s.arenas.length ∧ s.arenas.length ≤ 3
  /-- The absolute maximum counts in whole pages, and as one page at the least. -/
  together : s.footprint ≤ s.ceiling

/-- Whatever is done with the arenas, in whatever order, their growth is under control. -/
theorem Reachable.controlled (reachable : Reachable start maximum zygote s) : s.Controlled := by
  have governed := reachable.governed
  have laid : ∀ a ∈ s.arenas, a.space.Laid := fun a member => (governed.sound.fits a member).laid
  exact {
    ideal := ⟨governed.least, governed.most⟩
    limit := governed.limit
    limited := governed.isSoftLimited_iff
    within := fun a member => ⟨(governed.capped a member).within, (laid a member).footprint_le⟩
    pages := fun a member => ⟨(laid a member).footprint_pages, (governed.capped a member).pages⟩
    count := ⟨Nat.le_add_left _ _, governed.few⟩
    together := governed.sound.footprint_le_ceiling }

/-- The arenas of a heap that may grow from one page to four mebibytes. -/
def small : Source :=
  match startup 4096 4194304 true with
  | .ok (.ok s) => s
  | _ => default

theorem reachable_small : Reachable 4096 4194304 true small := .startup rfl

/-- Growth past the ideal size, a soft limit once most of it is free again, and a split. -/
def squeezed : List Operation :=
  let first := Region.arenaBase 0
  [.allocAndGrow 600000, .allocAndGrow 20000, .externalAlloc 5000 true, .free first,
    .growForUtilization, .allocAndGrow 8, .beforeFork, .alloc 100, .trim]

theorem squeezed_controlled : (small.afterAll squeezed).softLimit.isSome = true
    ∧ (small.afterAll squeezed).arenas.length = 2 ∧ (small.afterAll squeezed).Controlled :=
  ⟨by decide +kernel, by decide +kernel, (reachable_small.afterAll squeezed).controlled⟩

end Source

end ManagedHeap
