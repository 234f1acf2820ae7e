import ManagedHeap.Heap.Collection
import ManagedHeap.Proofs.Renumbering

/-!
Collections of arenas whose bitmaps stand under other numbers, and all that else is done to a heap.
-/

namespace ManagedHeap

namespace Source

variable [ObjectModel] {ρ : Renumbering} {s t : Source}

theorem Mirror.children (mirror : Mirror ρ s t) (x : Nat) : t.children x = s.children x := by
  rw [Source.children, mirror.payload, Source.children]

theorem Mirror.kind (mirror : Mirror ρ s t) (x : Nat) : t.kind? x = s.kind? x := by
  rw [Source.kind?, mirror.payload, Source.kind?]

theorem Mirror.referent (mirror : Mirror ρ s t) (x : Nat) : t.referent? x = s.referent? x := by
  rw [Source.referent?, mirror.payload, Source.referent?]

theorem Mirror.hasQueue (mirror : Mirror ρ s t) (x : Nat) : t.hasQueue x = s.hasQueue x := by
  rw [Source.hasQueue, mirror.payload, Source.hasQueue]

theorem Mirror.clearsItself (mirror : Mirror ρ s t) (x : Nat) :
    t.clearsItself x = s.clearsItself x := by
  rw [Source.clearsItself, mirror.payload, Source.clearsItself]

theorem Mirror.clearReferent (mirror : Mirror ρ s t) (x : Nat) :
    Mirror ρ (s.clearReferent x) (t.clearReferent x) := by
  rw [Source.clearReferent, Source.clearReferent, mirror.payload]
  exact mirror.setWords x _ 1 0

end Source

/-- The marks of bitmaps that have other numbers. -/
def Marking.renumber (m : Marking) (number : Nat → Nat) : Marking :=
  { m with live := m.live.map number }

namespace Cycle

open Action

/-- The collections are the same, but for the numbers of bitmaps. -/
inductive Mirror (ρ : Renumbering) (c : Cycle) : Cycle → Prop where
  | intro {s : Source} : Source.Mirror ρ c.source s →
    Mirror ρ c { c with source := s, marking := c.marking.renumber ρ.number }

variable {ρ : Renumbering} {c d : Cycle} {kind : ReferenceKind} {policy : SoftPolicy}

theorem mirrors_modifyTables (change : WorkTables → WorkTables) :
    Mirrors (Mirror ρ) (modifyTables change) (modifyTables change) := by
  refine mirrors_modify fun c d mirror => ?_
  obtain ⟨mirror⟩ := mirror
  exact ⟨mirror⟩

theorem mirrors_modifyMarking (change : Marking → Marking)
    (same : ∀ m : Marking, change (m.renumber ρ.number) = (change m).renumber ρ.number) :
    Mirrors (Mirror ρ) (modifyMarking change) (modifyMarking change) := by
  refine mirrors_modify fun c d mirror => ?_
  obtain @⟨s, mirror⟩ := mirror
  dsimp only
  rw [same]
  exact ⟨mirror⟩

/-- The live bitmap at a place where there is one. -/
theorem bitmap_getD {s t : Source} (mirror : Source.Mirror ρ s t) {live : List Nat} {i : Nat}
    (known : i < live.length) :
    t.bitmap ((live.map ρ.number).getD i 0) = s.bitmap (live.getD i 0) := by
  rw [List.getD_eq_getElem?_getD, List.getElem?_map, List.getD_eq_getElem?_getD,
    List.getElem?_eq_getElem known]
  exact mirror.bitmap _

theorem mirrors_mark (x : Nat) : Mirrors (Mirror ρ) (mark x) (mark x) := by
  refine mirrors_get fun c d mirror => ?_
  obtain @⟨s, mirror⟩ := mirror
  have found : (c.marking.live.map ρ.number).findIdx? (fun number => (s.bitmap number).mayContain x)
      = c.marking.live.findIdx? fun number => (c.source.bitmap number).mayContain x := by
    rw [List.findIdx?_map]
    congr
    funext number
    exact congrArg (Bitmap.mayContain · x) (mirror.bitmap number)
  dsimp only [Marking.renumber]
  rw [found]
  cases place : c.marking.live.findIdx? fun number => (c.source.bitmap number).mayContain x with
  | none => exact mirrors_pure _
  | some i =>
    have known : i < c.marking.live.length := by
      obtain ⟨known, -⟩ := List.findIdx?_eq_some_iff_getElem.1 place
      exact known
    dsimp only
    rw [bitmap_getD mirror known]
    refine Simulates.ite (fun _ => ?_) fun _ => mirrors_pure _
    cases c.marking.stack.push? x with
    | some stack => exact mirrors_set ⟨mirror⟩
    | none => exact (mirrors_set ⟨mirror⟩).then fun _ => mirrors_throw _

theorem mirrors_markAll (objects : List Nat) :
    Mirrors (Mirror ρ) (markAll objects) (markAll objects) := by
  induction objects with
  | nil => exact mirrors_pure _
  | cons x rest ih => exact (mirrors_mark x).then fun _ => ih

theorem mirrors_latch : Mirrors (Mirror ρ) latch latch := by
  refine mirrors_get fun c d mirror => ?_
  obtain ⟨-⟩ := mirror
  exact (mirrors_modifyMarking _ (by exact fun _ => rfl)).then fun _ => mirrors_pure _

theorem Mirror.scanBudget (mirror : Mirror ρ c d) : d.scanBudget = c.scanBudget := by
  obtain @⟨s, mirror⟩ := mirror
  have members : (c.marking.live.map ρ.number).map (fun number => (s.bitmap number).members.length)
      = c.marking.live.map fun number => (c.source.bitmap number).members.length := by
    rw [List.map_map]
    refine congrArg (List.map · _) (funext fun number => ?_)
    exact congrArg (fun map : Bitmap => map.members.length) (mirror.bitmap number)
  exact congrArg (fun each => c.marking.stack.entries.length + Word.total each + 1) members

theorem mirrors_takeTurn : Mirrors (Mirror ρ) takeTurn takeTurn := by
  refine mirrors_get fun c d mirror => ?_
  obtain ⟨-⟩ := mirror
  exact (mirrors_lift _).then fun color => (mirrors_modifyTables _).then fun _ => mirrors_pure _

theorem mirrors_queueWork (x : Nat) (work : ReferenceWork) :
    Mirrors (Mirror ρ) (queueWork x work) (queueWork x work) := by
  refine Simulates.ite (fun _ => mirrors_pure _) fun _ => mirrors_get fun c d mirror => ?_
  obtain ⟨-⟩ := mirror
  dsimp only
  cases c.tables.operations.push? (x, work) with
  | none => exact mirrors_throw _
  | some operations => exact mirrors_modifyTables _

theorem mirrors_freeEach (freed : Nat) (garbage : List Nat) :
    Mirrors (Mirror ρ) (freeEach freed garbage) (freeEach freed garbage) := by
  induction garbage generalizing freed with
  | nil => exact mirrors_pure _
  | cons x rest ih =>
    have frees : Mirrors (Mirror ρ)
        (Action.on Cycle.source (fun c source => { c with source }) (Source.free x))
        (Action.on Cycle.source (fun c source => { c with source }) (Source.free x)) := by
      refine (Source.mirrors_free (ρ := ρ) x).on (fun c d mirror => ?_) fun c d s t mirror freed => ?_
      · obtain ⟨mirror⟩ := mirror
        exact mirror
      · obtain ⟨-⟩ := mirror
        exact ⟨freed⟩
    exact frees.then fun bytes => (mirrors_modifyTables _).then fun _ => ih _

theorem mirrors_sweepEach (pairs : List (Nat × Bitmap)) : Mirrors (Mirror ρ) (sweepEach pairs)
    (sweepEach (pairs.map fun pair => (ρ.number pair.1, pair.2))) := by
  induction pairs with
  | nil => exact mirrors_pure _
  | cons pair rest ih =>
    refine mirrors_get fun c d mirror => ?_
    obtain ⟨mirror⟩ := mirror
    dsimp only
    rw [mirror.bitmap]
    exact (mirrors_lift _).then fun garbage => (mirrors_freeEach 0 garbage).then fun bytes =>
      ih.then fun more => mirrors_pure _

theorem mirrors_sweep : Mirrors (Mirror ρ) sweep sweep := by
  refine mirrors_get fun c d mirror => ?_
  obtain ⟨-⟩ := mirror
  have pairs : (c.marking.live.map ρ.number).zip c.marking.marks
      = (c.marking.live.zip c.marking.marks).map fun pair => (ρ.number pair.1, pair.2) :=
    List.zip_map_left
  dsimp only [Marking.renumber]
  rw [pairs]
  exact mirrors_sweepEach _

theorem mirrors_finish : Mirrors (Mirror ρ) finish finish := by
  refine mirrors_get fun c d mirror => ?_
  obtain ⟨-⟩ := mirror
  exact mirrors_require _

theorem mirrors_makePending (objects : List Nat) :
    Mirrors (Mirror ρ) (makePending objects) (makePending objects) := by
  induction objects with
  | nil => exact mirrors_pure _
  | cons x rest ih =>
    refine mirrors_get fun c d mirror => ?_
    obtain ⟨-⟩ := mirror
    dsimp only
    cases c.tables.pending.push? x with
    | none => exact simulates_throw _
    | some pending =>
      exact (mirrors_modifyTables _).then fun _ => (mirrors_mark x).then fun _ => ih

variable [ObjectModel]

theorem mirrors_visit (x : Nat) : Mirrors (Mirror ρ) (visit x) (visit x) := by
  refine mirrors_get fun c d mirror => ?_
  obtain ⟨mirror⟩ := mirror
  dsimp only
  rw [mirror.children]
  refine (mirrors_markAll _).then fun _ => mirrors_get fun c d mirror => ?_
  obtain ⟨mirror⟩ := mirror
  dsimp only
  rw [mirror.kind, mirror.referent]
  cases c.source.kind? x with
  | none => exact mirrors_pure _
  | some kind =>
    cases c.source.referent? x with
    | none => exact mirrors_pure _
    | some referent =>
      refine Simulates.ite (fun _ => mirrors_mark _) fun _ => ?_
      refine Simulates.ite (fun _ => mirrors_mark _) fun _ => ?_
      exact mirrors_modifyMarking _ fun _ => rfl

theorem mirrors_scanUpTo (budget : Nat) :
    Mirrors (Mirror ρ) (scanUpTo budget) (scanUpTo budget) := by
  induction budget with
  | zero => exact mirrors_pure _
  | succ budget ih =>
    refine mirrors_get fun c d mirror => ?_
    obtain ⟨mirror⟩ := mirror
    dsimp only [Marking.renumber]
    cases c.marking.stack.pop? with
    | none => exact mirrors_pure _
    | some top =>
      refine Mirrors.then (mirrors_set ?_) fun _ => (mirrors_visit _).then fun _ => ih
      exact ⟨mirror⟩

theorem mirrors_scan : Mirrors (Mirror ρ) scan scan := by
  refine mirrors_get fun c d mirror => ?_
  rw [mirror.scanBudget]
  exact mirrors_scanUpTo _

theorem mirrors_release (x referent : Nat) (kind : ReferenceKind) :
    Mirrors (Mirror ρ) (release x referent kind) (release x referent kind) := by
  refine mirrors_get fun c d mirror => ?_
  obtain ⟨mirror⟩ := mirror
  dsimp only
  rw [mirror.hasQueue, mirror.clearsItself]
  generalize (if kind = .phantom then _ else _ : Bool) = needed
  cases needed with
  | true => exact (mirrors_mark _).then fun _ => mirrors_pure _
  | false =>
    refine (mirrors_modify fun c d mirror => ?_).then fun _ => mirrors_pure _
    obtain ⟨mirror⟩ := mirror
    exact ⟨mirror.clearReferent x⟩

theorem mirrors_handleReference (kind : ReferenceKind) (policy : SoftPolicy) (x : Nat) :
    Mirrors (Mirror ρ) (handleReference kind policy x) (handleReference kind policy x) := by
  have decides : ∀ referent, Mirrors (Mirror ρ) (do queueWork x (← release x referent kind))
      (do queueWork x (← release x referent kind)) :=
    fun referent => (mirrors_release x referent kind).then fun work => mirrors_queueWork x work
  refine mirrors_get fun c d mirror => ?_
  obtain ⟨mirror⟩ := mirror
  dsimp only
  rw [mirror.referent]
  cases c.source.referent? x with
  | none => exact mirrors_pure _
  | some referent =>
    refine Simulates.ite (fun _ => mirrors_pure _) fun _ => ?_
    refine Simulates.ite (fun _ => mirrors_takeTurn.then fun mine => ?_) fun _ => decides referent
    exact Simulates.ite (fun _ => (mirrors_mark _).then fun _ => mirrors_pure _)
      fun _ => decides referent

theorem mirrors_handleReferences (kind : ReferenceKind) (policy : SoftPolicy)
    (references : List Nat) : Mirrors (Mirror ρ) (handleReferences kind policy references)
      (handleReferences kind policy references) := by
  have each : Mirrors (Mirror ρ) (handleEach kind policy references)
      (handleEach kind policy references) := by
    induction references with
    | nil => exact mirrors_pure _
    | cons x rest ih => exact (mirrors_handleReference kind policy x).then fun _ => ih
  exact each.then fun _ => mirrors_scan

theorem mirrors_handleSoft (policy : SoftPolicy) (references : List Nat) :
    Mirrors (Mirror ρ) (handleSoft policy references) (handleSoft policy references) := by
  refine Simulates.ite (fun _ => mirrors_pure _) fun _ => ?_
  refine (mirrors_handleReferences .soft policy references).then fun _ =>
    mirrors_modify fun c d mirror => ?_
  obtain ⟨mirror⟩ := mirror
  exact ⟨mirror⟩

theorem mirrors_scheduleFinalizations :
    Mirrors (Mirror ρ) scheduleFinalizations scheduleFinalizations := by
  refine mirrors_get fun c d mirror => ?_
  obtain ⟨-⟩ := mirror
  exact (mirrors_modifyTables _).then fun _ => (mirrors_makePending _).then fun _ =>
    mirrors_scan.then fun _ => mirrors_pure _

theorem mirrors_run (roots : List Nat) (policy : SoftPolicy) :
    Mirrors (Mirror ρ) (run roots policy) (run roots policy) := by
  have traces : Mirrors (Mirror ρ) (trace roots policy) (trace roots policy) :=
    (mirrors_markAll roots).then fun _ =>
      (mirrors_modifyMarking _ (by exact fun _ => rfl)).then fun _ =>
      mirrors_scan.then fun _ => mirrors_latch.then fun found =>
      (mirrors_handleSoft policy found.soft).then fun _ =>
      (mirrors_handleReferences .weak policy found.weak).then fun _ =>
      mirrors_scheduleFinalizations.then fun _ =>
      mirrors_handleReferences .phantom policy found.phantom
  exact traces.then fun _ => mirrors_sweep.then fun _ => mirrors_finish.then fun _ => mirrors_pure _

end Cycle

namespace Heap

open Action

/-- The heaps are the same, but for the numbers of bitmaps. -/
inductive Mirror (ρ : Renumbering) (h : Heap) : Heap → Prop where
  | intro {s : Source} : Source.Mirror ρ h.source s → Mirror ρ h { h with source := s }

variable {α β : Type} {ρ : Renumbering} {h k : Heap}

theorem Mirror.source (mirror : Mirror ρ h k) : Source.Mirror ρ h.source k.source := by
  obtain ⟨mirror⟩ := mirror
  exact mirror

theorem simulates_onSource {v : α → β → Prop} {a : Action Source α} {b : Action Source β}
    (simulates : Simulates (Source.Mirror ρ) v a b) :
    Simulates (Mirror ρ) v (onSource a) (onSource b) := by
  refine simulates.on (fun _ _ mirror => mirror.source) fun h k s t mirror more => ?_
  obtain ⟨-⟩ := mirror
  exact ⟨more⟩

/-- A change that is about other things than the arenas. -/
theorem mirrors_aside (change : Heap → Heap)
    (same : ∀ (h : Heap) (s : Source), change { h with source := s } = { change h with source := s }) :
    Mirrors (Mirror ρ) (modify change) (modify change) := by
  refine mirrors_modify fun h k mirror => ?_
  have unchanged : change h = { change h with source := h.source } := same h h.source
  have kept : (change h).source = h.source := by rw [unchanged]
  obtain @⟨s, mirror⟩ := mirror
  rw [same h s]
  rw [← kept] at mirror
  exact ⟨mirror⟩

/-! ### Collections -/

theorem mirrors_sizeChanged : Mirrors (Mirror ρ) (modify sizeChanged) (modify sizeChanged) := by
  refine mirrors_modify fun h k mirror => ?_
  obtain @⟨s, mirror⟩ := mirror
  have ideal : s.ideal = h.source.ideal := by
    obtain ⟨-⟩ := mirror
    rfl
  simp only [sizeChanged, ideal]
  split
  · exact ⟨mirror⟩
  · split
    · exact ⟨mirror⟩
    · exact ⟨mirror⟩

theorem mirrors_checkWatchdog : Mirrors (Mirror ρ) checkWatchdog checkWatchdog := by
  refine mirrors_get fun h k mirror => ?_
  obtain ⟨mirror⟩ := mirror
  dsimp only
  cases h.worker.current with
  | none => exact mirrors_pure _
  | some current =>
    refine Simulates.ite (fun _ => ?_) fun _ => mirrors_pure _
    exact Simulates.ite (fun _ => mirrors_set ⟨mirror⟩) fun _ => mirrors_throw _

variable [ObjectModel]

theorem mirrors_retainScheduled :
    Mirrors (Mirror ρ) (modify retainScheduled) (modify retainScheduled) := by
  refine mirrors_modify fun h k mirror => ?_
  obtain @⟨s, mirror⟩ := mirror
  have stays : staysScheduled { h with source := s } = h.staysScheduled := by
    funext reference
    rw [staysScheduled, mirror.referent, mirror.kind, staysScheduled]
  unfold retainScheduled
  rw [stays]
  exact ⟨mirror⟩

omit [ObjectModel] in
theorem Mirror.beginCycle (mirror : Mirror ρ h k) : Cycle.Mirror ρ h.beginCycle k.beginCycle := by
  obtain @⟨s, mirror⟩ := mirror
  have live : s.arenas.map Arena.live = (h.source.arenas.map Arena.live).map ρ.number := by
    rw [mirror.arenas, List.map_map, List.map_map]
    rfl
  have start : Marking.start s = (Marking.start h.source).renumber ρ.number := by
    have maximum : s.absoluteMax = h.source.absoluteMax := by
      obtain ⟨-⟩ := mirror
      rfl
    simp only [Marking.start, Marking.renumber, live, maximum, List.map_map, Function.comp_def,
      mirror.bitmap]
  unfold Heap.beginCycle
  dsimp only
  rw [start]
  exact ⟨mirror⟩

omit [ObjectModel] in
theorem Mirror.endCycle {c d : Cycle} (mirror : Mirror ρ h k) (ended : Cycle.Mirror ρ c d) :
    Mirror ρ (h.endCycle c) (k.endCycle d) := by
  obtain ⟨-⟩ := mirror
  obtain ⟨mirror⟩ := ended
  exact ⟨mirror⟩

theorem mirrors_runCycle (collectSoft : Bool) :
    Mirrors (Mirror ρ) (runCycle collectSoft) (runCycle collectSoft) := by
  refine mirrors_get fun h k mirror => ?_
  have runs : Mirrors (Mirror ρ)
      ((Cycle.run h.rootSet (if collectSoft then .clearAll else h.softPolicy)).on
        Heap.beginCycle Heap.endCycle)
      ((Cycle.run h.rootSet (if collectSoft then .clearAll else h.softPolicy)).on
        Heap.beginCycle Heap.endCycle) :=
    (Cycle.mirrors_run _ _).on (fun _ _ mirror => mirror.beginCycle)
      fun _ _ _ _ mirror ended => mirror.endCycle ended
  obtain ⟨-⟩ := mirror
  exact runs

/-! ### What is done to other things -/

omit [ObjectModel]

theorem mirrors_onProfile (count : Action Profile Unit) :
    Mirrors (Mirror ρ) (onProfile count) (onProfile count) := by
  refine (mirrors_self count).on (fun h k mirror => ?_) fun h k p q mirror same => ?_
  · obtain ⟨-⟩ := mirror
    rfl
  · obtain ⟨mirror⟩ := mirror
    exact same ▸ ⟨mirror⟩

theorem mirrors_onMutatorProfile (record : Nat) (count : Action Profile Unit) :
    Mirrors (Mirror ρ) (onMutatorProfile record count) (onMutatorProfile record count) := by
  refine (mirrors_self count).on (fun h k mirror => ?_) fun h k p q mirror same => ?_
  · obtain ⟨-⟩ := mirror
    rfl
  · obtain ⟨mirror⟩ := mirror
    exact same ▸ ⟨mirror⟩

theorem mirrors_countIf (profiling : Bool) (record : Nat) (count : Action Profile Unit) :
    Mirrors (Mirror ρ) (countIf profiling record count) (countIf profiling record count) :=
  Simulates.ite (fun _ => (mirrors_onProfile count).then fun _ =>
    mirrors_onMutatorProfile record count) fun _ => mirrors_pure _

theorem mirrors_enter (record x : Nat) (flags : AllocFlags) :
    Mirrors (Mirror ρ) (enter record x flags) (enter record x flags) := by
  have finalizable : Mirrors (Mirror ρ) (enterFinalizable x) (enterFinalizable x) := by
    refine mirrors_get fun h k mirror => ?_
    obtain ⟨-⟩ := mirror
    dsimp only
    cases h.tables.finalizable.push? x with
    | none => exact mirrors_throw _
    | some finalizable => exact mirrors_aside _ fun _ _ => rfl
  have nonCollectable : Mirrors (Mirror ρ) (enterNonCollectable x) (enterNonCollectable x) := by
    refine mirrors_get fun h k mirror => ?_
    obtain ⟨-⟩ := mirror
    dsimp only
    cases h.nonCollectable.add? x with
    | none =>
      refine mirrors_get fun h k mirror => ?_
      obtain ⟨-⟩ := mirror
      exact mirrors_throw _
    | some nonCollectable => exact mirrors_aside _ fun _ _ => rfl
  have holds : Mirrors (Mirror ρ) (hold record x flags) (hold record x flags) := by
    refine Simulates.ite (fun _ => nonCollectable) fun _ => ?_
    exact Simulates.ite (fun _ => mirrors_aside _ fun _ _ => rfl) fun _ => mirrors_pure _
  exact Simulates.ite (fun _ => finalizable.then fun _ => holds) fun _ => holds

theorem mirrors_attach (thread : Nat) (name : String) :
    Mirrors (Mirror ρ) (attach thread name) (attach thread name) := by
  refine mirrors_get fun h k mirror => ?_
  obtain ⟨mirror⟩ := mirror
  dsimp only
  cases h.threads.register thread name with
  | ok registered => exact (mirrors_set ⟨mirror⟩).then fun _ => mirrors_pure _
  | error cause => cases cause <;> exact mirrors_throw _

theorem mirrors_startWorker : Mirrors (Mirror ρ) startWorker startWorker := by
  refine mirrors_get fun h k mirror => ?_
  obtain ⟨-⟩ := mirror
  refine Simulates.ite (fun _ => mirrors_pure _) fun _ => ?_
  exact (mirrors_attach _ _).then fun record => mirrors_aside _ fun _ _ => rfl

theorem mirrors_afterZygote : Mirrors (Mirror ρ) afterZygote afterZygote := by
  refine (simulates_onSource Source.mirrors_afterZygote).then ?_
  rintro result _ rfl
  cases result with
  | error => exact mirrors_pure _
  | ok =>
    refine mirrors_get fun h k mirror => ?_
    obtain ⟨-⟩ := mirror
    exact Simulates.ite (fun _ => mirrors_startWorker.then fun _ => mirrors_pure _)
      fun _ => mirrors_pure _

theorem mirrors_clearFlags (record x : Nat) (flags : AllocFlags) :
    Mirrors (Mirror ρ) (clearFlags record x flags) (clearFlags record x flags) := by
  have drops : Mirrors (Mirror ρ) (dropNonCollectable x) (dropNonCollectable x) := by
    refine mirrors_get fun h k mirror => ?_
    obtain ⟨mirror⟩ := mirror
    dsimp only
    rw [mirror.contains]
    cases h.nonCollectable.remove? x with
    | none => exact Simulates.ite (fun _ => mirrors_throw _) fun _ => mirrors_pure _
    | some nonCollectable => exact mirrors_set ⟨mirror⟩
  have rest : Mirrors (Mirror ρ) (if flags.untracked then modify fun h : Heap =>
      { h with threads := (h.threads.untrack? record x).getD h.threads } else pure ())
      (if flags.untracked then modify fun h : Heap =>
      { h with threads := (h.threads.untrack? record x).getD h.threads } else pure ()) :=
    Simulates.ite (fun _ => mirrors_aside _ fun _ _ => rfl) fun _ => mirrors_pure _
  exact Simulates.ite (fun _ => drops.then fun _ => rest) fun _ => rest

theorem mirrors_takeWork : Mirrors (Mirror ρ) takeWork takeWork := by
  refine mirrors_get fun h k mirror => ?_
  obtain ⟨mirror⟩ := mirror
  dsimp only
  cases h.tables.operations.pop? with
  | some work => exact (mirrors_set ⟨mirror⟩).then fun _ => mirrors_pure _
  | none =>
    dsimp only
    cases h.tables.pending.pop? with
    | some object => exact (mirrors_set ⟨mirror⟩).then fun _ => mirrors_pure _
    | none => exact mirrors_pure _

theorem mirrors_transition (record : Nat) (state : ThreadState) :
    Mirrors (Mirror ρ) (modify (·.transition record state)) (modify (·.transition record state)) := by
  refine mirrors_aside _ fun h s => ?_
  rw [transition, transition]
  cases h.threads.transition record state <;> rfl

theorem mirrors_shutdown (record : Option Nat) :
    Mirrors (Mirror ρ) (modify (·.shutdown record)) (modify (·.shutdown record)) := by
  refine mirrors_aside _ fun h s => ?_
  unfold shutdown
  dsimp only
  cases h.worker.running with
  | false => rfl
  | true =>
    cases h.worker.record with
    | none => cases record <;> rfl
    | some own =>
      cases record.isSome && record == some own <;> rfl

end Heap

end ManagedHeap
