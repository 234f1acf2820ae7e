import ManagedHeap.Proofs.ArenaSteps
import ManagedHeap.Proofs.Collection
import ManagedHeap.Proofs.HeapCases

/-!
What holds of a heap at all times, and what its operations do to the objects that wait for their
finalizers. Whatever an operation does short of serving a request, such an object goes on living and
goes on waiting.
-/

namespace ManagedHeap

/-- A heap with this configuration could have more live objects than its mark stack has entries. -/
def Config.Overfull (config : Config) : Prop :=
  ∃ s : Source, s.Sound ∧ s.absoluteMax = config.maximumSize ∧ s.Crowded

/-- The same objects wait as before, or some that waited in the first queue wait in the second. -/
theorem WorkTables.perm_of_due {t t' : WorkTables} {keeps : Nat → Bool}
    (finalizable : t'.finalizable.entries = t.finalizable.entries.filter keeps)
    (pending : t'.pending.entries
      = t.pending.entries ++ t.finalizable.entries.filter (!keeps ·)) :
    (t'.finalizable.entries ++ t'.pending.entries).Perm
      (t.finalizable.entries ++ t.pending.entries) := by
  rw [finalizable, pending]
  have split := List.filter_append_perm keeps t.finalizable.entries
  exact ((List.perm_append_comm.append_left _).trans (List.append_assoc .. ▸ .refl _)).trans
    (split.append_right _)

namespace Heap

open Action

variable {h h' h'' : Heap} {x : Nat} {α β : Type}

/-- What holds of a heap at all times. -/
structure Sound (h : Heap) : Prop where
  source : h.source.Sound
  maximum : h.source.absoluteMax = h.config.maximumSize

/-- The objects that wait for their finalizers, due or not. -/
def waiting (h : Heap) : List Nat := h.tables.finalizable.entries ++ h.tables.pending.entries

theorem waiting_push {finalizable : WorkQueue Nat} (push : h.tables.finalizable.push? x = some finalizable) :
    (finalizable.entries ++ h.tables.pending.entries).Perm (x :: h.waiting) := by
  rw [WorkQueue.entries_of_push push, List.append_assoc]
  exact List.perm_middle

/-- Nothing new lives, the same objects wait, and those of them that lived go on living. -/
structure Progress (h h' : Heap) : Prop where
  sound : h'.Sound
  config : h'.config = h.config
  live : ∀ x, h'.isValid x = true → h.isValid x = true
  waiting : h'.waiting.Perm h.waiting
  kept : ∀ x ∈ h.waiting, h.isValid x = true → h'.isValid x = true

/-- Where an operation breaks off the heap is sound, and the objects that waited go on living. -/
structure Fails (h : Heap) (cause : Failure) (h' : Heap) : Prop where
  sound : h'.Sound
  config : h'.config = h.config
  kept : ∀ x ∈ h.waiting, h.isValid x = true → h'.isValid x = true
  overflow : cause.Overflows → h.config.Overfull

/-- From a sound heap the action makes progress or breaks off. -/
def Progresses (a : Action Heap α) : Prop :=
  ∀ h, h.Sound → a.Ends h (fun _ h' => Progress h h') (Fails h)

theorem Progress.trans (first : Progress h h') (second : Progress h' h'') : Progress h h'' where
  sound := second.sound
  config := second.config.trans first.config
  live x live := first.live x (second.live x live)
  waiting := second.waiting.trans first.waiting
  kept x waits live := second.kept x (first.waiting.mem_iff.2 waits) (first.kept x waits live)

theorem Progress.fails {cause : Failure} (first : Progress h h') (second : Fails h' cause h'') :
    Fails h cause h'' where
  sound := second.sound
  config := second.config.trans first.config
  kept x waits live := second.kept x (first.waiting.mem_iff.2 waits) (first.kept x waits live)
  overflow := first.config ▸ second.overflow

/-- Arenas with the same live objects, and everything else that matters the same. -/
theorem Sound.progress_of_steady (sound : h.Sound) (steady : Source.Steady h.source h'.source)
    (config : h'.config = h.config)
    (finalizable : h'.tables.finalizable = h.tables.finalizable)
    (pending : h'.tables.pending = h.tables.pending) : Progress h h' where
  sound := ⟨steady.sound, by rw [steady.maximum, sound.maximum, config]⟩
  config := config
  live x live := (steady.published x).symm.trans live
  waiting := by
    rw [Heap.waiting, Heap.waiting, finalizable, pending]
  kept x _ live := (steady.published x).trans live

theorem Sound.progress (sound : h.Sound) (source : h'.source = h.source)
    (config : h'.config = h.config)
    (finalizable : h'.tables.finalizable = h.tables.finalizable)
    (pending : h'.tables.pending = h.tables.pending) : Progress h h' :=
  sound.progress_of_steady (source ▸ sound.source.steady) config finalizable pending

theorem Sound.refl (sound : h.Sound) : Progress h h := sound.progress rfl rfl rfl rfl

theorem Sound.fails (sound : h.Sound) {cause : Failure} (other : ¬ cause.Overflows) :
    Fails h cause h :=
  ⟨sound, rfl, fun _ _ live => live, fun overflow => absurd overflow other⟩

/-! ### Composing actions -/

/-- What the action comes to is counted from where progress was made before. -/
theorem Progresses.since {a : Action Heap α} (progresses : Progresses a) (progress : Progress h h') :
    a.Ends h' (fun _ h'' => Progress h h'') (Fails h) :=
  (progresses h' progress.sound).imp (fun _ _ more => progress.trans more)
    fun _ _ fails => progress.fails fails

theorem Progresses.then {a : Action Heap α} {next : α → Action Heap β} (first : Progresses a)
    (rest : ∀ value, Progresses (next value)) : Progresses (a >>= next) := by
  intro h sound
  rw [ends_bind]
  exact (first h sound).mono fun value h₁ progress => (rest value).since progress

theorem progresses_pure (value : α) : Progresses (pure value : Action Heap α) :=
  fun _ sound => ends_pure.2 sound.refl

theorem progresses_lift (value : Except Defect α) : Progresses (liftM value : Action Heap α) :=
  fun _ sound => ends_lift.2 ⟨fun _ _ => sound.refl, fun _ _ => sound.fails id⟩

theorem progresses_modify {change : Heap → Heap} (keeps : ∀ h, h.Sound → Progress h (change h)) :
    Progresses (modify change) := fun h sound => ends_modify.2 (keeps h sound)

/-- An action that looks at the heap first. -/
theorem progresses_get {next : Heap → Action Heap α}
    (rest : ∀ h, h.Sound → (next h).Ends h (fun _ h' => Progress h h') (Fails h)) :
    Progresses (get >>= next) :=
  fun h sound => ends_bind.2 (ends_get.2 (rest h sound))

/-- An action on the arenas that leaves the live objects alone. -/
theorem progresses_onSource {a : Action Source α} (spares : a.Spares)
    (spec : ∀ s, s.Sound → a.Ends s (fun _ s' => Source.Steady s s')
      fun _ s' => Source.Broken s s') : Progresses (onSource a) := by
  intro h sound
  simp only [onSource, ends_on]
  refine ((spec h.source sound.source).and (spares h.source)).imp ?_ ?_
  · rintro value s ⟨steady, -⟩
    exact sound.progress_of_steady steady rfl rfl rfl
  · rintro cause s ⟨broken, other⟩
    exact ⟨⟨broken.sound, broken.maximum.trans sound.maximum⟩, rfl,
      fun x _ live => broken.live x live, fun overflow => absurd overflow other⟩

theorem progresses_resizes {a : Action Source α} (resizes : Source.Resizes a)
    (spares : a.Spares) : Progresses (onSource a) :=
  progresses_onSource spares fun _ sound => resizes.spec sound

/-- The arenas and the tables are the same, and no collection has begun or ended. -/
structure Aside (h h' : Heap) : Prop where
  config : h'.config = h.config
  source : h'.source = h.source
  tables : h'.tables = h.tables
  collecting : h'.collecting = h.collecting

theorem Aside.trans (first : Aside h h') (second : Aside h' h'') : Aside h h'' :=
  ⟨second.config.trans first.config, second.source.trans first.source,
    second.tables.trans first.tables, second.collecting.trans first.collecting⟩

theorem object_inFlight (h : Heap) :
    h.worker.current.map InFlight.object = h.inFlight.map Prod.snd := by
  rw [inFlight, Option.map_map]
  rfl

/-- The call that is being made is the same, too. -/
structure Besides (h h' : Heap) : Prop extends Aside h h' where
  current : h'.inFlight = h.inFlight

theorem Besides.refl (h : Heap) : Besides h h := ⟨⟨rfl, rfl, rfl, rfl⟩, rfl⟩

theorem Besides.trans (first : Besides h h') (second : Besides h' h'') : Besides h h'' :=
  ⟨first.toAside.trans second.toAside, second.current.trans first.current⟩

/-- The action touches neither the arenas nor the tables, nor the call that is being made. -/
def Sidesteps (a : Action Heap α) : Prop :=
  ∀ h, a.Ends h (fun _ h' => Besides h h') fun cause h' => Besides h h' ∧ ¬ cause.Overflows

theorem Aside.progress (aside : Aside h h') (sound : h.Sound) : Progress h h' :=
  sound.progress aside.source aside.config (by rw [aside.tables]) (by rw [aside.tables])

theorem Sidesteps.progresses {a : Action Heap α} (sidesteps : Sidesteps a) : Progresses a := by
  intro h sound
  refine (sidesteps h).imp (fun _ _ besides => besides.progress sound) ?_
  rintro cause h' ⟨aside, other⟩
  exact (aside.progress sound).fails ((aside.progress sound).sound.fails other)

theorem sidesteps_modify {change : Heap → Heap} (keeps : ∀ h, Besides h (change h)) :
    Sidesteps (modify change) := fun h => ends_modify.2 (keeps h)

theorem Sidesteps.then {a : Action Heap α} {next : α → Action Heap β} (first : Sidesteps a)
    (rest : ∀ value, Sidesteps (next value)) : Sidesteps (a >>= next) := by
  intro h
  rw [ends_bind]
  refine (first h).mono fun value h₁ aside => ?_
  exact (rest value h₁).imp (fun _ _ more => aside.trans more)
    fun _ _ more => ⟨aside.trans more.1, more.2⟩

theorem Sidesteps.besides {a : Action Heap α} (sidesteps : Sidesteps a) (h : Heap) :
    Besides h (a.after h) :=
  (sidesteps h).after (Besides h) (fun _ _ besides => besides) fun _ _ besides => besides.1

theorem sidesteps_pure (value : α) : Sidesteps (pure value : Action Heap α) :=
  fun h => ends_pure.2 (.refl h)

theorem sidesteps_onProfile {a : Action Profile α} (spares : a.Spares) :
    Sidesteps (onProfile a) := by
  intro h
  simp only [onProfile, ends_on]
  exact (spares h.profile).imp (fun _ _ _ => ⟨⟨rfl, rfl, rfl, rfl⟩, rfl⟩)
    fun _ _ other => ⟨⟨⟨rfl, rfl, rfl, rfl⟩, rfl⟩, other⟩

theorem sidesteps_onMutatorProfile {a : Action Profile Unit} (spares : a.Spares)
    (record : Nat) : Sidesteps (onMutatorProfile record a) := by
  intro h
  simp only [onMutatorProfile, ends_on]
  exact (spares _).imp (fun _ _ _ => ⟨⟨rfl, rfl, rfl, rfl⟩, rfl⟩)
    fun _ _ other => ⟨⟨⟨rfl, rfl, rfl, rfl⟩, rfl⟩, other⟩

theorem countAlloc_spares (size : Nat) (succeeded : Bool) :
    (Profile.countAlloc size succeeded).Spares := by
  intro p
  cases succeeded <;> simp [Profile.countAlloc, Failure.Overflows]

theorem countExternal_spares (size : Nat) (succeeded : Bool) :
    (Profile.countExternal size succeeded).Spares := by
  intro p
  cases succeeded <;> simp [Profile.countExternal, Failure.Overflows]

/-! ### Collecting -/

theorem Progress.sizeChanged (progress : Progress h h') : Progress h h'.sizeChanged := by
  obtain ⟨threshold, policy, same⟩ := h'.sizeChanged_frame
  rw [same]
  exact progress.trans (progress.sound.progress rfl rfl rfl rfl)

theorem progresses_sizeChanged : Progresses (modify Heap.sizeChanged) :=
  progresses_modify fun _ sound => sound.refl.sizeChanged

/-- Two heaps that do not differ in what a collection works on. -/
structure Alike (h h' : Heap) : Prop where
  config : h'.config = h.config
  source : h'.source = h.source
  finalizable : h'.tables.finalizable = h.tables.finalizable
  pending : h'.tables.pending = h.tables.pending
  operations : h'.tables.operations = h.tables.operations
  threads : h'.threads = h.threads
  roots : h'.roots = h.roots
  nonCollectable : h'.nonCollectable = h.nonCollectable
  current : h'.inFlight = h.inFlight

theorem Alike.trans (first : Alike h h') (second : Alike h' h'') : Alike h h'' where
  config := second.config.trans first.config
  source := second.source.trans first.source
  finalizable := second.finalizable.trans first.finalizable
  pending := second.pending.trans first.pending
  operations := second.operations.trans first.operations
  threads := second.threads.trans first.threads
  roots := second.roots.trans first.roots
  nonCollectable := second.nonCollectable.trans first.nonCollectable
  current := second.current.trans first.current

theorem Alike.progress (alike : Alike h h') (sound : h.Sound) : Progress h h' :=
  sound.progress alike.source alike.config alike.finalizable alike.pending

theorem Alike.rootSet (alike : Alike h h') : h'.rootSet = h.rootSet := by
  rw [Heap.rootSet, Heap.rootSet, alike.roots, alike.threads, alike.nonCollectable, alike.pending,
    alike.operations, object_inFlight, object_inFlight, alike.current]

/-- The watchdog at most starts anew. -/
theorem checkWatchdog_spec (sound : h.Sound) : checkWatchdog.Ends h (fun _ h' => Alike h h')
    (Fails h) :=
  ends_checkWatchdog (fun _ other => sound.fails other) fun same =>
    ⟨rfl, rfl, rfl, rfl, rfl, rfl, rfl, rfl, same⟩

variable [ObjectModel]

omit [ObjectModel] in
/-- A collection starts from every object that waits. -/
theorem rootSet_of_waiting (waits : x ∈ h.waiting) :
    x ∈ h.rootSet ∨ x ∈ h.tables.finalizable.entries := by
  rcases List.mem_append.1 waits with entry | due
  · exact .inr entry
  · simp only [rootSet, List.mem_append]
    exact .inl (.inl (.inl (.inr due)))

/-- What a collection has done. -/
structure Collected (h h' : Heap) : Prop where
  config : h'.config = h.config
  threads : h'.threads = h.threads
  roots : h'.roots = h.roots
  nonCollectable : h'.nonCollectable = h.nonCollectable
  collects : Collects h.rootSet h.source h.tables h'.source h'.tables

theorem runCycle_spec (sound : h.Sound) (collectSoft : Bool) : (runCycle collectSoft).Ends h
    (fun _ h' => Collected h h') (Fails h) := by
  simp only [runCycle, ends_bind, ends_get, ends_on]
  refine (Cycle.run_spec sound.source rfl _ _).imp ?_ ?_
  · intro _ c collects
    exact ⟨rfl, rfl, rfl, rfl, collects⟩
  · intro cause c aborted
    refine ⟨⟨aborted.sound, aborted.maximum.trans sound.maximum⟩, rfl, fun x waits live => ?_,
      fun overflow => ⟨h.source, sound.source, sound.maximum, aborted.overflow overflow⟩⟩
    exact aborted.kept x (rootSet_of_waiting waits) live

/-- Only what a collection works on decides about what it does. -/
theorem Alike.collected (alike : Alike h h') (collected : Collected h' h'') : Collected h h'' := by
  obtain ⟨config, threads, roots, nonCollectable, collects⟩ := collected
  refine ⟨config.trans alike.config, threads.trans alike.threads, roots.trans alike.roots,
    nonCollectable.trans alike.nonCollectable, ?_⟩
  rw [alike.rootSet, alike.source] at collects
  exact collects.congr alike.finalizable alike.pending rfl rfl

theorem Collected.sound (collected : Collected h h') (sound : h.Sound) : h'.Sound :=
  ⟨collected.collects.sound, by rw [collected.collects.maximum, collected.config, sound.maximum]⟩

theorem Collected.alike (collected : Collected h h') (alike : Alike h' h'') : Collected h h'' := by
  obtain ⟨config, threads, roots, nonCollectable, collects⟩ := collected
  refine ⟨alike.config.trans config, alike.threads.trans threads, alike.roots.trans roots,
    alike.nonCollectable.trans nonCollectable, ?_⟩
  rw [alike.source]
  exact collects.congr rfl rfl alike.finalizable.symm alike.pending.symm

/-- The objects that waited wait, and live if they lived. -/
theorem Collected.progress (collected : Collected h h') (sound : h.Sound) : Progress h h' := by
  have collects := collected.collects
  obtain ⟨keeps, finalizable, pending⟩ := collects.due
  refine ⟨collected.sound sound, collected.config, fun x live => (collects.reached x live).live,
    WorkTables.perm_of_due finalizable pending, fun x waits live => ?_⟩
  rcases rootSet_of_waiting waits with root | entry
  · exact collects.roots x root live
  · exact collects.finalizable x entry live

theorem collect_spec (sound : h.Sound) (collectSoft : Bool) : (collect collectSoft).Ends h
    (fun _ h' => (h.collecting = true → h' = h) ∧ (h.collecting = false → Collected h h'))
    (Fails h) := by
  simp only [collect, ends_bind, ends_get, ends_ite, ends_pure, ends_modify]
  refine ⟨fun busy => ⟨fun _ => trivial, fun idle => ?_⟩, fun idle => ?_⟩
  · rw [busy] at idle
    cases idle
  rw [Bool.not_eq_true] at idle
  have underway : Alike h { h with collecting := true } :=
    ⟨rfl, rfl, rfl, rfl, rfl, rfl, rfl, rfl, rfl⟩
  have begun := underway.progress sound
  refine (checkWatchdog_spec begun.sound).imp ?_ fun _ _ => begun.fails
  intro _ h₂ watched
  have retained : Alike h h₂.retainScheduled :=
    (underway.trans watched).trans ⟨rfl, rfl, rfl, rfl, rfl, rfl, rfl, rfl, rfl⟩
  have progress := retained.progress sound
  refine (runCycle_spec progress.sound collectSoft).imp ?_ fun _ _ => progress.fails
  intro freed h₃ ran
  have collected := retained.collected ran
  have sound₃ := collected.sound sound
  have grow := Source.resizes_growForUtilization h₃.source
  simp only [onSource, ends_on]
  refine (grow.and (Source.growForUtilization_spares h₃.source)).imp ?_ ?_
  · rintro - s ⟨resized, -⟩
    refine ⟨fun busy => ?_, fun _ => ?_⟩
    · rw [idle] at busy
      cases busy
    · have grown : Collected h { h₃ with source := s } :=
        ⟨collected.config, collected.threads, collected.roots, collected.nonCollectable,
          collected.collects.resized resized⟩
      obtain ⟨threshold, policy, same⟩ := sizeChanged_frame { h₃ with source := s }
      refine grown.alike ?_
      rw [same]
      exact ⟨rfl, rfl, rfl, rfl, rfl, rfl, rfl, rfl, rfl⟩
  · rintro cause s ⟨resized, other⟩
    have steady := sound₃.source.steady_of_resized resized
    have grown : Progress h₃ { h₃ with source := s } :=
      sound₃.progress_of_steady steady rfl rfl rfl
    exact ((collected.progress sound).trans grown).fails (grown.sound.fails other)

theorem progresses_collect (collectSoft : Bool) : Progresses (collect collectSoft) := by
  intro h sound
  refine (collect_spec sound collectSoft).mono fun _ h' ⟨refused, collected⟩ => ?_
  cases busy : h.collecting with
  | true =>
    rw [refused busy]
    exact sound.refl
  | false => exact (collected busy).progress sound

end Heap

end ManagedHeap
