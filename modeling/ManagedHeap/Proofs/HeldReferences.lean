import ManagedHeap.Object
import ManagedHeap.Proofs.Clearing
import ManagedHeap.Proofs.Reachability

/-!
What a collection leaves of references. One whose referent is held strongly keeps it and no call of it is
queued, whatever the collection comes to decide about others.
-/

namespace ManagedHeap

namespace Heap

open Action

section

variable [ObjectModel] {config : Config} {h h' : Heap} {collectSoft : Bool} {x r y : Nat}

/-- How a collection treats soft references. -/
def policyFor (h : Heap) (collectSoft : Bool) : SoftPolicy :=
  if collectSoft then .clearAll else h.softPolicy

/-- What a collection of the heap holds strongly. References are scheduled that still are when it begins
to mark. -/
def Strong (h : Heap) (collectSoft : Bool) (x : Nat) : Prop :=
  h.source.Strong h.rootSet h.retainScheduled.tables.scheduled (h.policyFor collectSoft) x

/-- A reference that a collection of the heap may let go of. -/
def Loose (h : Heap) (collectSoft : Bool) (r : Nat) : Prop :=
  h.source.Loose h.retainScheduled.tables h.rootSet (h.policyFor collectSoft) r

theorem runCycle_confined (sound : h.source.Sound) (collectSoft : Bool) :
    (runCycle collectSoft).Ends h
    (fun _ h' => Cycle.Confined h.source
      (h.source.Dropped h.tables h.rootSet (h.policyFor collectSoft)) h.beginCycle h'.beginCycle)
    fun _ h' => Cycle.Confined h.source
      (h.source.Dropped h.tables h.rootSet (h.policyFor collectSoft)) h.beginCycle h'.beginCycle := by
  simp only [runCycle, ends_bind, ends_get, ends_on]
  exact (Cycle.run_confined sound rfl h.rootSet (h.policyFor collectSoft)).imp
    (fun _ c confined => ⟨confined.payload, confined.work⟩)
    fun _ c confined => ⟨confined.payload, confined.work⟩

/-- A collection lets go of loose references and of no others. -/
theorem collect_confined (sound : h.Sound) (collectSoft : Bool) : (collect collectSoft).Ends h
    (fun _ h' => (h.collecting = true → h' = h) ∧ (h.collecting = false →
      Cycle.Confined h.source (h.Loose collectSoft) h.beginCycle h'.beginCycle)) fun _ _ => True := by
  simp only [collect, ends_bind, ends_get, ends_ite, ends_pure, ends_modify]
  refine ⟨fun busy => ⟨fun _ => trivial, fun idle => ?_⟩, fun idle => ?_⟩
  · rw [busy] at idle
    cases idle
  refine ends_checkWatchdog (fun _ _ => trivial) fun {current} same => ?_
  have object : current.map InFlight.object = h.worker.current.map InFlight.object := by
    have same : current.map (fun call => (call.call, call.object)) = h.inFlight := same
    rw [object_inFlight, ← same, Option.map_map]
    rfl
  let ready : Heap := retainScheduled { h with collecting := true, worker := { h.worker with current } }
  have loose : ready.source.Loose ready.tables ready.rootSet (ready.policyFor collectSoft)
      = h.Loose collectSoft := by
    have stays : staysScheduled { h with collecting := true, worker := { h.worker with current } }
        = h.staysScheduled := by
      funext reference
      simp only [staysScheduled, object]
    have rootSet : ready.rootSet = h.rootSet := by
      simp only [ready, Heap.rootSet, retainScheduled, object]
    have tables : ready.tables = h.retainScheduled.tables := by
      simp only [ready, retainScheduled, stays]
    rw [rootSet, tables]
    rfl
  have sound' : ready.Sound := ⟨sound.source, sound.maximum⟩
  refine (runCycle_confined sound'.source collectSoft).imp ?_ fun _ _ _ => trivial
  intro freed h₁ dropped
  have confined := dropped.mono fun r here => here.toLoose
  rw [loose] at confined
  have confined₁ : Cycle.Confined h.source (h.Loose collectSoft) h.beginCycle h₁.beginCycle :=
    ⟨confined.payload, confined.work⟩
  simp only [onSource, ends_on]
  refine (Source.resizes_growForUtilization h₁.source).imp ?_ fun _ _ _ => trivial
  rintro - s resized
  refine ⟨fun busy => absurd busy idle, fun _ => ?_⟩
  obtain ⟨threshold, policy, same⟩ := sizeChanged_frame { h₁ with source := s }
  refine confined₁.trans ⟨fun r _ _ => ?_, [], ?_, fun _ _ none => absurd none List.not_mem_nil⟩
  · rw [same]
    exact Source.payload_congr resized.memory r
  · rw [same, List.append_nil]
    rfl

/-- A reference whose referent is held strongly when a collection begins to mark keeps its referent, and
the collection queues no call of it. -/
theorem collect_holds (reachable : Reachable config h) (run : collect collectSoft h = .ok () h') :
    ∃ added, h'.tables.operations.entries = h.tables.operations.entries ++ added
      ∧ ∀ r y, h.isValid r = true → h.source.referent? r = some y → h.Strong collectSoft y →
        h'.source.referent? r = some y ∧ ∀ work, (r, work) ∉ added := by
  obtain ⟨refused, confined⟩ := (collect_confined reachable.sound.1 collectSoft).ok run
  cases busy : h.collecting with
  | true =>
    rw [refused busy]
    exact ⟨[], (List.append_nil _).symm, fun r y _ refers _ => ⟨refers, fun _ => List.not_mem_nil⟩⟩
  | false =>
    obtain ⟨payload, added, entries, each⟩ := confined busy
    refine ⟨added, entries, fun r y live refers strong => ?_⟩
    have firm : ¬ h.Loose collectSoft r := by
      rintro ⟨-, z, refers', weak, -⟩
      cases refers.symm.trans refers'
      exact weak strong
    refine ⟨?_, fun work member => firm (each r work member)⟩
    rw [Source.referent?, show h'.source.payload r = h.source.payload r from payload r live firm]
    exact refers

end

/-- A thread tracks a soft reference to an object that nothing else refers to. -/
def softPair : List Operation :=
  let reference := Region.arenaBase 0
  let referent := reference + 32
  [.attach 0 "main", .request 0 24 {}, .request 0 24 { untracked := true },
    .write reference 0 1 (Tag.make (some .soft) false true false 0),
    .write reference Object.referentWord 1 referent]

theorem softPair_holds : ∃ h', collect false (small.afterAll softPair) = .ok () h'
    ∧ h'.source.referent? (Region.arenaBase 0) = some (Region.arenaBase 0 + 32) := by
  have run := Action.eq_ok_of_succeeds
    (show (collect false).succeeds (small.afterAll softPair) = true by decide +kernel)
  obtain ⟨added, -, holds⟩ := collect_holds (reachable_small.afterAll softPair) run
  have refers : (small.afterAll softPair).source.referent? (Region.arenaBase 0)
      = some (Region.arenaBase 0 + 32) := by decide +kernel
  have root : (small.afterAll softPair).Strong false (Region.arenaBase 0) :=
    .root (by decide +kernel) (by decide +kernel)
  refine ⟨_, run, (holds _ _ (by decide +kernel) refers ?_).1⟩
  exact .soft (by decide +kernel) root (by decide +kernel) refers (by decide +kernel)

end Heap

end ManagedHeap
