import ManagedHeap.Proofs.Apportioning
import ManagedHeap.Proofs.Backing

/-!
When the last resort fails. Allocating without the soft limit and then with the arena growing comes to
one condition: there is no room below what the active arena may reach at all.
-/

namespace ManagedHeap

namespace Source

open Action

variable {s s' : Source} {m n start maximum : Nat} {zygote : Bool} {result : Option Nat}

/-- How far the active arena reaches if all is done for it: as far as it is allowed, or as far as its
maximum and the external memory leave it. -/
def reach (s : Source) : Nat :=
  min s.active.space.capacity
    (max s.active.allowed (Size.paged (s.active.absoluteMax - s.externalBytes)))

theorem serves_reach : s.active.space.Serves s.reach n
    ↔ s.HasRoom n ∨ s.active.space.Serves (min (Size.paged (s.active.absoluteMax - s.externalBytes))
        s.active.space.capacity) n := by
  rw [reach, Nat.min_comm, Nat.min_max_distrib_right, Space.serves_max]
  exact Iff.rfl

/-- The last resort has come to its end, and failed for want of room only. -/
structure Settles (m : Nat) (s : Source) (n : Nat) (result : Option Nat) (s' : Source) : Prop where
  sturdy : s'.Sturdy m
  decided : result = none ↔ ¬ s.active.space.Serves s.reach n

theorem setIdeal_sturdy (sturdy : s.Sturdy m) (size : Nat) :
    (setIdeal size).Ends s (fun _ s' => s'.Sturdy m) fun _ _ => False := by
  have minimum := Nat.le_trans sturdy.1.least sturdy.1.most
  have kept := along_of_resizes told_backed (preserves_setIdeal size) (resizes_setIdeal size) s sturdy
  exact ((sturdy.1.toHoused.setIdeal_governed minimum size).and kept).imp
    (fun _ _ both => both.2) fun _ _ both => both.1

theorem Settles.snapIdeal (settles : Settles m s n result s') :
    (do Source.snapIdeal
        return result : Action Source (Option Nat)).Ends s'
      (fun result s'' => Settles m s n result s'') fun _ _ => False := by
  simp only [Source.snapIdeal, ends_bind, ends_get, ends_pure]
  exact (setIdeal_sturdy settles.sturdy _).mono fun _ _ sturdy => ⟨sturdy, settles.decided⟩

/-- Growing helps where there is no room as things are. -/
theorem allocAndGrowArena_settles (sturdy : s.Sturdy m) (few : s.ceiling < recordable)
    (unlimited : s.softLimit = none) (full : ¬ s.HasRoom n) :
    (allocAndGrowArena n).Ends s (fun result s' => Settles m s n result s') fun _ _ => False := by
  have governed := sturdy.1
  have bounded := governed.bounded
  have reserve := governed.reserve
  have capped := (governed.capped _ s.active_mem).within
  have laid := sturdy.seamless.laid
  refine governed.ends_allocAndGrowArena (fun used => ⟨sturdy, ?_⟩) fun {allowed} _ cap _ raised => ?_
  · have nothing : Size.paged (s.active.absoluteMax - s.externalBytes) ≤ s.active.allowed := by
      rw [Nat.sub_eq_zero_of_le used]
      exact Nat.zero_le _
    rw [reach, Nat.max_eq_left nothing, Nat.min_comm]
    exact ⟨fun _ => full, fun _ => rfl⟩
  -- Below the footprint there was no room before.
  have none_below : ¬ s.active.space.Serves (min s.active.footprint s.active.space.capacity) n := by
    rintro ⟨size, fits, first, within, clear⟩
    exact full ⟨size, fits, first, by omega, clear⟩
  have run := Space.setAllowed_paged laid.footprint_pages (governed.sound.footprint_small s.active_mem)
    (show s.active.absoluteMax - s.externalBytes < Size.unreservable by omega)
  cases run.symm.trans cap
  have raised : Sturdy m { s with active := { s.active with space := { s.active.space with
      allowed := max s.active.space.footprint (Size.paged (s.active.absoluteMax - s.externalBytes)) } } } :=
    ⟨raised, sturdy.2.congr rfl⟩
  generalize grown : ({ s with active := _ } : Source) = s₀ at raised ⊢
  have room₀ : s₀.HasRoom n ↔ s.active.space.Serves s.reach n := by
    have there : s₀.HasRoom n ↔ s.active.space.Serves (min (max s.active.footprint
        (Size.paged (s.active.absoluteMax - s.externalBytes))) s.active.space.capacity) n := by
      rw [← grown]
      exact Space.serves_congr rfl
    rw [there, serves_reach, Nat.min_max_distrib_right, Space.serves_max, or_iff_right full,
      or_iff_right none_below]
  have unlimited₀ : s₀.softLimit = none := grown ▸ unlimited
  have few₀ : s₀.ceiling < recordable := grown ▸ few
  refine (alloc_tries raised few₀ n).mono fun result s₁ tried governed₁ => ?_
  refine ⟨⟨governed₁.pin.2, tried.sturdy.2.congr rfl⟩, ?_⟩
  rw [← room₀]
  exact ⟨fun none => (tried.refused none).2 unlimited₀,
    fun none => by_contra fun some => none (tried.served some)⟩

theorem allocOrRestore_settles (sturdy : s.Sturdy m) (few : s.ceiling < recordable)
    (unlimited : s.softLimit = none) (full : ¬ s.HasRoom n) (ideal : Nat) :
    (allocOrRestore n ideal).Ends s (fun result s' => Settles m s n result s') fun _ _ => False := by
  rw [allocOrRestore, ends_bind]
  refine (allocAndGrowArena_settles sturdy few unlimited full).mono fun result s₁ settles => ?_
  cases result with
  | some x => exact settles.snapIdeal
  | none =>
    simp only [ends_bind, ends_pure]
    exact (setIdeal_sturdy settles.sturdy ideal).mono fun _ _ sturdy => ⟨sturdy, settles.decided⟩

theorem Tried.settles (tried : Tried m s n result s') (some : result ≠ none) :
    Settles m s n result s' := by
  refine ⟨tried.sturdy, fun none => absurd none some, fun none => ?_⟩
  exact absurd (serves_reach.2 (.inl (tried.served some))) none

/-- The last resort comes to its end, whatever was done before. -/
theorem allocAndGrow_settles (sturdy : s.Sturdy m) (few : s.ceiling < recordable) (n : Nat) :
    (allocAndGrow n).Ends s (fun result s' => Settles m s n result s') fun _ _ => False := by
  simp only [allocAndGrow, ends_bind]
  refine (alloc_tries sturdy few n).mono fun result s₁ tried => ?_
  cases result with
  | some x => exact ends_pure.2 (tried.settles (Option.some_ne_none x))
  | none =>
    obtain ⟨rfl, refused⟩ := tried.refused rfl
    simp only [ends_get, ends_ite, ends_bind, ends_modify]
    refine ⟨fun _ => ?_, fun free => ?_⟩
    · -- Without its soft limit the source has the same room and the same reach.
      refine (alloc_tries sturdy.unlimited few n).mono fun result s₂ tried => ?_
      cases result with
      | some x => exact Settles.snapIdeal ⟨tried.sturdy, (tried.settles (Option.some_ne_none x)).decided⟩
      | none =>
        obtain ⟨rfl, refused⟩ := tried.refused rfl
        exact (allocOrRestore_settles sturdy.unlimited few rfl (refused rfl) _).mono
          fun _ _ settles => ⟨settles.sturdy, settles.decided⟩
    · have unlimited : s₁.softLimit = none := by
        rw [sturdy.1.isSoftLimited_iff, Option.isSome_iff_ne_none, not_not] at free
        exact free
      exact allocOrRestore_settles sturdy few unlimited (refused unlimited) _

/-! ### Runs -/

theorem sturdy_perform (few : ∀ {s : Source}, s.Sturdy m → s.ceiling < recordable) (op : Operation) :
    (perform op).Preserves (Sturdy m) := by
  refine along_perform told_backed (fun n s sturdy => ?_) (fun n s sturdy => ?_) sturdy_free op
  · exact (alloc_tries sturdy (few sturdy) n).imp (fun _ _ tried => tried.sturdy) fun _ _ => False.elim
  · exact (allocAndGrow_settles sturdy (few sturdy) n).imp (fun _ _ settles => settles.sturdy)
      fun _ _ => False.elim

theorem Reachable.small (reachable : Reachable start maximum zygote s)
    (small : ∀ a ∈ s.arenas, a.space.capacity < recordable) : s.ceiling < recordable := by
  obtain ⟨largest, member, capacity⟩ := reachable.governed.whole
  exact capacity ▸ small largest member

theorem Reachable.sturdy (reachable : Reachable start maximum zygote s)
    (few : s.ceiling < recordable) : s.Sturdy maximum := by
  induction reachable with
  | startup run => exact along_startup told_backed run
  | step op before ih =>
    have same : ∀ {s' : Source}, s'.Sturdy maximum → s'.ceiling < recordable := by
      intro s' sturdy
      have maximum := (before.step op).governed.maximum
      rwa [← ceiling_congr (sturdy.1.maximum.trans maximum.symm)] at few
    have few' := few
    rw [ceiling_congr ((before.step op).governed.maximum.trans before.governed.maximum.symm)] at few'
    exact (sturdy_perform same op).after (ih few')

end Source

end ManagedHeap
