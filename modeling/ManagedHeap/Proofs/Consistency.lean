import ManagedHeap.Proofs.Counting
import ManagedHeap.Proofs.SourceRuns

/-!
The four records of what lives, over any use of the arenas that frees nothing but live objects: the
chunks, the bitmaps, their published numbers, and the two counts of each arena.
-/

namespace ManagedHeap

namespace Source

open Action

variable {s s' : Source} {m x start maximum : Nat} {zygote : Bool} {held : List Nat}

theorem Sound.contains_eq (sound : s.Sound) (x : Nat) : s.contains x = s.isPublished x := by
  unfold contains
  cases found : s.arenaOf? x with
  | some a =>
    have member := List.mem_of_find?_eq_some found
    exact sound.test_eq_isPublished (sound.mem_published.2 ⟨a, member, rfl⟩)
      (List.find?_some (p := fun a : Arena => (s.bitmap a.live).mayContain x) found)
  | none =>
    symm
    dsimp only
    rw [← Bool.not_eq_true, sound.published_iff]
    rintro ⟨a, member, bit⟩
    exact List.find?_eq_none.1 found a member (Bitmap.mayContain_of_test bit)

/-- Only what lives may be freed. -/
def Operation.isLawful (s : Source) : Operation → Bool
  | .free x => s.contains x
  | _ => true

def Operation.freed? : Operation → Option Nat
  | .free x => some x
  | _ => none

/-- The objects handed out and not freed since, when a step is taken. -/
def Operation.holding (op : Operation) (s : Source) (held : List Nat) : List Nat :=
  match perform op s with
  | .ok result _ => result.toList ++ held.filter fun x => op.freed? != some x
  | .error _ _ => held

/-- The arenas of a heap started with these sizes, after any lawful steps, and the objects that the
steps have handed out and not freed since. -/
inductive Holding (start maximum : Nat) (zygote : Bool) : Source → List Nat → Prop where
  | startup {s : Source} :
    startup start maximum zygote = .ok (.ok s) → Holding start maximum zygote s []
  | step {s : Source} {held : List Nat} (op : Operation) :
    Holding start maximum zygote s held → op.isLawful s = true →
    Holding start maximum zygote ((perform op).after s) (op.holding s held)

theorem Holding.reachable (holding : Holding start maximum zygote s held) :
    Reachable start maximum zygote s := by
  induction holding with
  | startup run => exact .startup run
  | step op _ _ ih => exact ih.step op

/-- The ledgers are exact, and the objects in them are those held. -/
structure Accounted (s : Source) (held : List Nat) : Prop where
  tallied : s.Tallied
  live : ∀ x, s.isPublished x = true ↔ x ∈ held

/-- A step that neither allocates nor frees. -/
def Operation.isQuiet : Operation → Bool
  | .alloc _ | .allocAndGrow _ | .free _ => false
  | _ => true

/-- Such a step hands nothing out and leaves the ledgers alone. -/
theorem calm_perform (governed : s.Governed m) (op : Operation) (quiet : op.isQuiet = true) :
    (perform op).Ends s (fun result s' => result = none ∧ Calm m s s') fun _ s' => Calm m s s' := by
  have still : ∀ {α : Type} {step : Action Source α}, (∀ s, step.Preserves (Calm m s)) →
      (quietly step).Ends s (fun result s' => result = none ∧ Calm m s s')
        fun _ s' => Calm m s s' := by
    intro α step calm
    simp only [quietly, ends_bind, ends_pure]
    exact (calm s s ⟨governed, undisturbed_of_eq rfl⟩).mono fun _ _ calm => ⟨trivial, calm⟩
  cases op with
  | alloc | allocAndGrow | free => cases quiet
  | addArena => exact still addArena_calm
  | beforeFork => exact still beforeFork_calm
  | afterZygote => exact still afterZygote_calm
  | setUtilization ratio => exact still (calm_of_resizes (preserves_setUtilization ratio)
      (resizes_modify fun _ => ⟨⟨_, rfl⟩, rfl, rfl, rfl, rfl⟩))
  | setMinimum size => exact still (calm_of_resizes (preserves_setMinimum size)
      (resizes_setMinimum size))
  | growForUtilization => exact still (calm_of_resizes preserves_growForUtilization
      resizes_growForUtilization)
  | trim => exact still trim_calm
  | shrinkToIdeal => exact still shrinkToIdeal_calm
  | externalAlloc n grow => exact still (calm_of_resizes (preserves_externalAlloc n grow)
      (resizes_externalAlloc n grow))
  | externalFree n => exact still (calm_of_resizes (preserves_externalFree n)
      (resizes_externalFree n))
  | setGeneration x generation => exact still (calm_of_modify (preserves_setGeneration x generation)
      fun s _ => ledgers_setGeneration s x generation)
  | write x index count value => exact still (calm_of_modify (preserves_setWords x index count value)
      fun s _ => ledgers_setWords s x index count value)
  | snapshotBitmaps => exact still (calm_of_modify preserves_snapshotBitmaps
      fun _ sound => sound.ledgers_snapshot)
  | replaceBitmaps numbers => exact still (calm_of_modify (preserves_replaceCurrent numbers)
      fun s _ => ledgers_replaceCurrent s numbers)

theorem Accounted.calm (accounted : s.Accounted held) (sound : s.Sound) (calm : Calm m s s') :
    s'.Accounted held := by
  obtain ⟨governed', undisturbed⟩ := calm
  obtain ⟨fresh, blank, ledgers⟩ := id undisturbed
  refine ⟨accounted.tallied.congr blank ledgers, fun x => ?_⟩
  rw [undisturbed.published sound governed'.sound, accounted.live]

theorem Accounted.advanced (accounted : s.Accounted held) (sound : s.Sound) {result : Option Nat}
    (advanced : Advanced m s result s') : s'.Accounted (result.toList ++ held) := by
  obtain ⟨governed, entered⟩ := advanced
  refine ⟨accounted.tallied.entered entered, fun y => ?_⟩
  cases result with
  | none =>
    rw [(undisturbed_of_eq entered).published sound governed.sound, accounted.live]
    rfl
  | some x => rw [entered.published sound governed.sound, accounted.live, ← List.mem_cons]; rfl

theorem Accounted.freed (accounted : s.Accounted held) (governed : s.Governed m) (live : s.contains x = true) :
    (Source.quietly (free x)).Ends s
      (fun result s' => result = none ∧ s'.Accounted (held.filter fun y => some x != some y))
      fun _ s' => s'.Accounted held := by
  have sound := governed.sound
  rw [sound.contains_eq] at live
  simp only [Source.quietly, ends_bind, ends_pure]
  refine ((free_spec sound x).and (free_removes sound accounted.tallied live)).imp ?_ ?_
  · rintro _ s' ⟨frees, removed⟩
    refine ⟨trivial, accounted.tallied.removed removed, fun y => ?_⟩
    rw [frees.published, accounted.live, List.mem_filter, bne_iff_ne]
    refine and_comm.trans (and_congr_right fun _ => ?_)
    exact ⟨fun other same => other (Option.some.inj same).symm, fun other same => other (same ▸ rfl)⟩
  · exact fun _ _ both => both.2.elim

theorem Accounted.perform (accounted : s.Accounted held) (governed : s.Governed m)
    (small : s.ceiling < recordable) (op : Operation) (lawful : op.isLawful s = true) :
    (perform op).Ends s
      (fun result s' => s'.Accounted (result.toList ++ held.filter fun x => op.freed? != some x))
      fun _ s' => s'.Accounted held := by
  have all : held.filter (fun x => none != some x) = held :=
    List.filter_eq_self.2 fun _ _ => rfl
  have handed : ∀ {action : Action Source (Option Nat)},
      action.Ends s (fun result s' => Advanced m s result s') (fun _ _ => False) →
      action.Ends s
        (fun result s' => s'.Accounted (result.toList ++ held.filter fun x => none != some x))
        fun _ s' => s'.Accounted held := by
    intro action ends
    refine ends.imp (fun result s' advanced => ?_) fun _ _ => False.elim
    rw [all]
    exact accounted.advanced governed.sound advanced
  cases op with
  | alloc n => exact handed (alloc_advances governed accounted.tallied small n)
  | allocAndGrow n => exact handed (allocAndGrow_advances governed accounted.tallied small n)
  | free x =>
    refine (accounted.freed governed lawful).mono ?_
    rintro result s' ⟨rfl, accounted'⟩
    exact accounted'
  | _ =>
    refine (calm_perform governed _ rfl).imp ?_ fun _ s' calm => accounted.calm governed.sound calm
    rintro result s' ⟨rfl, calm⟩
    change s'.Accounted (held.filter fun x => none != some x)
    rw [all]
    exact accounted.calm governed.sound calm

/-- The arenas begin with one ledger, in which there is nothing. -/
theorem startup_blank (run : startup start maximum zygote = .ok (.ok s)) :
    ∃ l : Ledger, s.ledgers = [l] ∧ l.Blank := by
  have governed := startup_governed run
  have bounded := governed.bounded
  rw [governed.maximum] at bounded
  obtain ⟨order, active, map, make, rfl⟩ := startup_eq run
  refine ⟨_, rfl, blank_of_freshArena make (by omega) ?_⟩
  change [map].getD active.live default = map
  rw [(fresh_of_freshArena make).live]
  rfl

theorem startup_accounted (run : startup start maximum zygote = .ok (.ok s)) : s.Accounted [] := by
  have unpublished := (startup_sound run).2.2
  obtain ⟨l, ledgers, blank⟩ := startup_blank run
  have only : ∀ a ∈ s.arenas, s.ledger a = l := by
    intro a member
    have here : s.ledger a ∈ s.ledgers := List.mem_map_of_mem member
    rw [ledgers] at here
    exact List.mem_singleton.1 here
  refine ⟨⟨fun a member => only a member ▸ blank.exact, only _ s.active_mem ▸ blank.full⟩, fun x => ?_⟩
  rw [unpublished]
  simp

theorem Holding.accounted (holding : Holding start maximum zygote s held)
    (small : s.ceiling < recordable) : s.Accounted held := by
  induction holding with
  | startup run => exact startup_accounted run
  | step op before lawful ih =>
    have governed := before.reachable.governed
    have governed' := (before.step op lawful).reachable.governed
    rw [ceiling_congr (governed'.maximum.trans governed.maximum.symm)] at small
    have ends := (ih small).perform governed small op lawful
    rw [Action.after, Operation.holding]
    split
    case h_1 result reached run =>
      rw [run]
      exact ends.ok run
    case h_2 cause reached run =>
      rw [run]
      exact ends.error run

/-- What the arenas record about their objects agrees, and is about the objects held. -/
structure Consistent (s : Source) (held : List Nat) : Prop where
  contains : ∀ x, s.contains x = true ↔ x ∈ held
  published : ∀ x, s.isPublished x = true ↔ x ∈ held
  active : ∀ x, (s.bitmap s.active.live).test x = true
    ↔ (s.active.space.chunkAt? x).isSome = true
  frozen : ∀ a ∈ s.frozen, ∀ x, (s.bitmap a.live).test x = true →
    (a.space.chunkAt? x).isSome = true
  /-- A walk comes to each bit that is set, and to none twice. -/
  walk : ∀ a ∈ s.arenas, (s.bitmap a.live).members.Nodup
    ∧ ∀ x, x ∈ (s.bitmap a.live).members ↔ (s.bitmap a.live).test x = true
  objects : ∀ a ∈ s.arenas, a.objects = (s.bitmap a.live).members.length
  bytes : ∀ a ∈ s.arenas, a.bytes = Word.total ((s.bitmap a.live).members.map a.space.charge)
  /-- Freeing an object takes no more off the counts than is there. -/
  covered : ∀ a ∈ s.arenas, ∀ x, (s.bitmap a.live).test x = true →
    ∃ usable, a.space.usableSize? x = .ok (some usable)
      ∧ usable + Size.chunkOverhead ≤ a.bytes ∧ 1 ≤ a.objects

/-- Whatever is done with the arenas, in whatever order, their records agree. -/
theorem Holding.consistent (holding : Holding start maximum zygote s held)
    (small : ∀ a ∈ s.arenas, a.space.capacity < recordable) : s.Consistent held := by
  have governed := holding.reachable.governed
  have sound := governed.sound
  obtain ⟨largest, member, capacity⟩ := governed.whole
  obtain ⟨tallied, live⟩ := holding.accounted (capacity ▸ small largest member)
  have measured : ∀ a ∈ s.arenas, ∀ x, (s.bitmap a.live).test x = true →
      ∃ usable, a.space.usableSize? x = .ok (some usable)
        ∧ usable + Size.chunkOverhead = (s.ledger a).charge x :=
    fun a here x bit => tallied.usableSize sound here bit
  have walk : ∀ a ∈ s.arenas, ∀ x,
      x ∈ (s.bitmap a.live).members ↔ (s.bitmap a.live).test x = true :=
    fun a here x => (sound.bitmap_sound here).mem_members
  have started : ∀ a ∈ s.arenas, ∀ x, (s.bitmap a.live).test x = true →
      (a.space.chunkAt? x).isSome = true := by
    intro a here x bit
    have inside := ((sound.mayContain_iff here).1 (Bitmap.mayContain_of_test bit)).1
    exact Space.isSome_chunkAt.2 ⟨inside, ((tallied.exact a here).starts x ((walk a here x).2 bit)).2⟩
  exact {
    contains := fun x => by rw [sound.contains_eq, live]
    published := live
    active := fun x => by
      refine ⟨started _ s.active_mem x, fun chunk => ?_⟩
      obtain ⟨inside, recorded⟩ := Space.isSome_chunkAt.1 chunk
      have member := tallied.full _ recorded
      have low := (region_contains.1 inside).1
      have same : s.active.space.region.base + (x - s.active.space.base) = x :=
        Nat.add_sub_cancel' low
      exact (walk _ s.active_mem x).1 (same ▸ member)
    frozen := fun a here => started a (List.mem_cons_of_mem _ here)
    walk := fun a here => ⟨Bitmap.nodup_members _, walk a here⟩
    objects := fun a here => (tallied.exact a here).objects
    bytes := fun a here => by
      refine (tallied.exact a here).bytes.trans (congrArg Word.total (List.map_congr_left ?_))
      intro x member
      obtain ⟨usable, found, charge⟩ := measured a here x ((walk a here x).1 member)
      rw [← charge, Space.charge, found]
      rfl
    covered := fun a here x bit => by
      obtain ⟨usable, found, charge⟩ := measured a here x bit
      exact ⟨usable, found, charge ▸ (tallied.exact a here).charge_le ((walk a here x).2 bit)⟩ }

/-- The objects held after lawful steps, one after the other. -/
def heldAfter (s : Source) (held : List Nat) : List Operation → List Nat
  | [] => held
  | op :: rest => ((perform op).after s).heldAfter (op.holding s held) rest

def allLawful (s : Source) : List Operation → Bool
  | [] => true
  | op :: rest => op.isLawful s && ((perform op).after s).allLawful rest

theorem Holding.afterAll (holding : Holding start maximum zygote s held) {ops : List Operation}
    (lawful : s.allLawful ops = true) :
    Holding start maximum zygote (s.afterAll ops) (s.heldAfter held ops) := by
  induction ops generalizing s held with
  | nil => exact holding
  | cons op rest ih =>
    rw [allLawful, Bool.and_eq_true] at lawful
    exact ih (holding.step op lawful.1) lawful.2

/-- Chunks of other lengths than asked for, a split, an object freed on each side of it, and an
exchange of bitmaps. -/
def mixed : List Operation :=
  let first := Region.arenaBase 0
  let second := Region.arenaBase 1
  [.alloc 100, .alloc 1, .alloc 40, .free (first + 112), .alloc 3, .beforeFork, .alloc 24,
    .allocAndGrow 700000, .free first, .free second, .snapshotBitmaps, .replaceBitmaps [2, 3],
    .trim]

theorem holding_small : Holding 4096 4194304 true small [] := .startup rfl

theorem mixed_consistent : small.allLawful mixed = true
    ∧ (∀ a ∈ (small.afterAll mixed).arenas, a.space.capacity < recordable)
    ∧ (small.heldAfter [] mixed).length = 3
    ∧ (small.afterAll mixed).Consistent (small.heldAfter [] mixed) :=
  ⟨by decide +kernel, by decide +kernel, by decide +kernel,
    (holding_small.afterAll (by decide +kernel)).consistent (by decide +kernel)⟩

end Source

end ManagedHeap
