import ManagedHeap.Proofs.SourceRuns

/-!
Properties of the active arena that its outline tells: its region, what is recorded and requested, its
free stretches, `top`, and the bytes that it counts. Most steps leave the outline alone or start a new
arena, so such a property is kept by all of them once allocating and freeing keep it.
-/

namespace ManagedHeap

/-- What allocating and freeing change in an arena, and no other step does. -/
def Arena.outline (a : Arena) :
    Region × (Nat → Option Nat) × Std.ExtTreeMap Nat Nat × Gaps × Nat × Nat :=
  (a.space.region, a.space.recorded?, a.space.requests, a.space.free, a.space.top, a.bytes)

/-- The outline tells whether an arena has the property, and new arenas have it. -/
structure Arena.Told (p : Arena → Prop) : Prop where
  congr : ∀ {a a' : Arena}, p a → a'.outline = a.outline → p a'
  fresh : ∀ {number start maximum live : Nat} {a : Arena} {map : Bitmap},
    Source.freshArena number start maximum live = .ok (.ok (a, map)) → p a

namespace Source

open Action

variable {s s' : Source} {m n start maximum : Nat} {zygote : Bool} {p : Arena → Prop}

/-- The growth is under control, and the active arena has a property. -/
def Along (p : Arena → Prop) (m : Nat) (s : Source) : Prop := s.Governed m ∧ p s.active

theorem Resized.outline (resized : Resized s s') : s'.active.outline = s.active.outline := by
  obtain ⟨allowed, active⟩ := resized.active
  rw [active]
  rfl

theorem active_outline (same : s'.arenas.map Arena.outline = s.arenas.map Arena.outline) :
    s'.active.outline = s.active.outline := (List.cons.inj same).1

theorem along_of_ends {α : Type} {action : Action Source α} (preserves : action.Preserves (Governed m))
    (ends : ∀ s, s.Governed m → p s.active →
      action.Ends s (fun _ s' => p s'.active) fun _ s' => p s'.active) :
    action.Preserves (Along p m) := by
  rintro s ⟨governed, holds⟩
  refine ((preserves s governed).and (ends s governed holds)).imp ?_ ?_
  · exact fun _ _ both => both
  · exact fun _ _ both => both

/-! ### Steps that leave the outline alone -/

theorem along_of_outline (told : Arena.Told p) {α : Type} {action : Action Source α}
    (preserves : action.Preserves (Governed m))
    (ends : ∀ s, s.Governed m → action.Ends s (fun _ s' => s'.active.outline = s.active.outline)
      fun _ s' => s'.active.outline = s.active.outline) : action.Preserves (Along p m) := by
  refine along_of_ends preserves fun s governed holds => (ends s governed).imp ?_ ?_
  · exact fun _ _ same => told.congr holds same
  · exact fun _ _ same => told.congr holds same

theorem along_of_resizes (told : Arena.Told p) {α : Type} {action : Action Source α}
    (preserves : action.Preserves (Governed m)) (resizes : Resizes action) :
    action.Preserves (Along p m) :=
  along_of_outline told preserves fun s _ =>
    (resizes s).imp (fun _ _ resized => resized.outline) fun _ _ resized => resized.outline

theorem along_of_modify (told : Arena.Told p) {change : Source → Source}
    (preserves : Preserves (Governed m) (modify change))
    (same : ∀ s, (change s).arenas.map Arena.outline = s.arenas.map Arena.outline) :
    Preserves (Along p m) (modify change) :=
  along_of_outline told preserves fun s _ => ends_modify.2 (active_outline (same s))

theorem outline_setGeneration (s : Source) (x generation : Nat) :
    (s.setGeneration x generation).arenas.map Arena.outline = s.arenas.map Arena.outline :=
  map_setGeneration Arena.outline (fun a chunks recorded => by rw [Arena.outline, recorded]; rfl) s x
    generation

theorem outline_snapshot (s : Source) :
    s.snapshotBitmaps.2.arenas.map Arena.outline = s.arenas.map Arena.outline := by
  obtain ⟨extra, same⟩ := s.snapshotBitmaps_frame
  rw [same]
  rfl

theorem outline_replaceCurrent (s : Source) (numbers : List Nat) :
    (s.replaceCurrent numbers).arenas.map Arena.outline = s.arenas.map Arena.outline :=
  map_replaceCurrent Arena.outline fun _ _ _ => rfl

theorem along_trim (told : Arena.Told p) : trim.Preserves (Along p m) := by
  refine along_of_outline told preserves_trim fun s governed => ?_
  refine (trim_paces governed.sound).imp ?_ ?_
  · rintro _ s' ⟨active, frozen, rfl, cut⟩
    refine active_outline (map_eq_of_forall₂ _ _ ?_ cut)
    rintro a _ ⟨-, footprint, words, rfl⟩
    rfl
  · rintro _ s' rfl
    rfl

theorem along_shrinkToIdeal (told : Arena.Told p) : shrinkToIdeal.Preserves (Along p m) :=
  (along_trim told).then fun _ => preserves_get fun s along =>
    ((along_of_resizes told (preserves_setIdeal s.ideal) (resizes_setIdeal _)).then
      fun _ => preserves_pure _) s along

/-! ### New arenas -/

theorem along_addArena (told : Arena.Told p) : addArena.Preserves (Along p m) := fun _ along =>
  ends_addArena along along fun split => ⟨split.governed along.1, by
    obtain rfl := split.pushed
    exact told.fresh split.made⟩

theorem along_beforeFork (told : Arena.Told p) : beforeFork.Preserves (Along p m) := fun _ along =>
  ends_beforeFork along (along_addArena told _ ⟨along.1.tried, along.2⟩)

theorem along_afterZygote (told : Arena.Told p) : afterZygote.Preserves (Along p m) := fun _ along =>
  ends_afterZygote along (along_addArena told _ along)

/-! ### Freeing -/

/-- Freeing takes a chunk out of the active arena together with the bytes that it is recorded with, or
takes bytes off the count alone. -/
theorem free_along (holds : p s.active) (x : Nat)
    (fewer : ∀ bytes objects, bytes ≤ s.active.bytes → p { s.active with bytes, objects })
    (released : ∀ length space objects, s.active.space.release? x = some (length, space) →
      0 < length → p { s.active with space, bytes := s.active.bytes - length, objects }) :
    (free x).Ends s (fun _ s' => p s'.active) fun _ s' => p s'.active := by
  refine ends_free (fun _ => holds) holds ?_ ?_
  · intro index a usable here _ _ _
    cases index with
    | succ => exact holds
    | zero => exact fewer _ _ (Nat.sub_le ..)
  · intro usable length space _ measured release
    obtain ⟨inside, recorded⟩ := Space.release_at release
    rw [Space.measured_eq inside recorded measured]
    exact released length space _ release (Space.release_positive measured release)

/-! ### Runs -/

/-- Every step keeps a property of the active arena that its outline tells, if allocating and freeing
do. -/
theorem along_perform (told : Arena.Told p) (allocates : ∀ n, (alloc n).Preserves (Along p m))
    (grows : ∀ n, (allocAndGrow n).Preserves (Along p m))
    (frees : ∀ x, (free x).Preserves (Along p m)) (op : Operation) :
    (perform op).Preserves (Along p m) := by
  have quiet : ∀ {α : Type} {step : Action Source α}, step.Preserves (Along p m) →
      (quietly step).Preserves (Along p m) := preserves_quietly
  cases op with
  | alloc n => exact allocates n
  | allocAndGrow n => exact grows n
  | free x => exact quiet (frees x)
  | addArena => exact quiet (along_addArena told)
  | beforeFork => exact quiet (along_beforeFork told)
  | afterZygote => exact quiet (along_afterZygote told)
  | setUtilization ratio => exact quiet (along_of_resizes told (preserves_setUtilization ratio)
      (resizes_modify fun _ => ⟨⟨_, rfl⟩, rfl, rfl, rfl, rfl⟩))
  | setMinimum size => exact quiet (along_of_resizes told (preserves_setMinimum size)
      (resizes_setMinimum size))
  | growForUtilization => exact quiet (along_of_resizes told preserves_growForUtilization
      resizes_growForUtilization)
  | trim => exact quiet (along_trim told)
  | shrinkToIdeal => exact quiet (along_shrinkToIdeal told)
  | externalAlloc n grow => exact quiet (along_of_resizes told (preserves_externalAlloc n grow)
      (resizes_externalAlloc n grow))
  | externalFree n => exact quiet (along_of_resizes told (preserves_externalFree n)
      (resizes_externalFree n))
  | setGeneration x generation => exact quiet (along_of_modify told
      (preserves_setGeneration x generation) fun s => outline_setGeneration s x generation)
  | write x index count value => exact quiet (along_of_modify told
      (preserves_setWords x index count value)
        fun s => map_setWords Arena.outline (fun _ _ => rfl) s x index count value)
  | snapshotBitmaps => exact quiet (along_of_modify told preserves_snapshotBitmaps outline_snapshot)
  | replaceBitmaps numbers => exact quiet (along_of_modify told (preserves_replaceCurrent numbers)
      fun s => outline_replaceCurrent s numbers)

theorem along_startup (told : Arena.Told p)
    (run : Source.startup start maximum zygote = .ok (.ok s)) : s.Along p maximum := by
  have governed := startup_governed run
  obtain ⟨-, active, map, make, rfl⟩ := startup_eq run
  exact ⟨governed, told.fresh make⟩

end Source

end ManagedHeap
