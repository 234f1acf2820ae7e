import ManagedHeap.Proofs.CycleCases
import ManagedHeap.Proofs.Tracing

/-!
Deciding on the references found, and on the objects to finalize. A reference that was decided on
refers to a marked object or to nothing.
-/

namespace ManagedHeap

namespace Cycle

open Action

variable [ObjectModel] {s₀ : Source} {start : Nat → Prop} {c c' c'' : Cycle} {x y : Nat}
  {waiting : List Nat} {kind : ReferenceKind} {policy : SoftPolicy}

/-- What deciding does: it marks objects and nulls referents. -/
structure Decides (s₀ : Source) (start : Nat → Prop) (c c' : Cycle) : Prop where
  tracing : Tracing s₀ start c'
  latched : c'.marking.latched = c.marking.latched
  marked : ∀ x, c.marking.isMarked x = true → c'.marking.isMarked x = true
  found : ∀ x, c.marking.found.Has x → c'.marking.found.Has x
  referent : ∀ x y, c.marking.isMarked x = true → c'.source.referent? x = some y →
    c.source.referent? x = some y

/-- The objects to finalize are left alone. -/
structure Handles (s₀ : Source) (start : Nat → Prop) (c c' : Cycle) : Prop
    extends Decides s₀ start c c' where
  finalizable : c'.tables.finalizable = c.tables.finalizable
  pending : c'.tables.pending = c.tables.pending

theorem Scans.handles (scans : Scans s₀ start c c') : Handles s₀ start c c' := by
  refine ⟨⟨scans.tracing, scans.latched, scans.marked, scans.found, fun x y _ refers => ?_⟩, ?_, ?_⟩
  · rwa [scans.source] at refers
  all_goals rw [scans.tables]

theorem Decides.trans (first : Decides s₀ start c c') (second : Decides s₀ start c' c'') :
    Decides s₀ start c c'' where
  tracing := second.tracing
  latched := second.latched.trans first.latched
  marked x marked := second.marked x (first.marked x marked)
  found x here := second.found x (first.found x here)
  referent x y marked refers :=
    first.referent x y marked (second.referent x y (first.marked x marked) refers)

theorem Handles.trans (first : Handles s₀ start c c') (second : Handles s₀ start c' c'') :
    Handles s₀ start c c'' :=
  ⟨first.toDecides.trans second.toDecides, second.finalizable.trans first.finalizable,
    second.pending.trans first.pending⟩

/-- The tables do not matter to the marking. -/
theorem Tracing.retable (tracing : Tracing s₀ start c) (tables : WorkTables) :
    Decides s₀ start c { c with tables } := by
  obtain ⟨cleared, fits, reached, stacked, nodup, room, capacity, found, soft, latched⟩ := tracing
  exact ⟨⟨cleared, fits, reached, stacked, nodup, room, capacity, found, soft, latched⟩, rfl,
    fun _ marked => marked, fun _ here => here, fun _ _ _ refers => refers⟩

/-- What was settled stays so, if no reference of the object waits any more. -/
theorem Settled.decides {waiting' : List Nat} (settled : Settled s₀ waiting c x)
    (decides : Decides s₀ start c c') (marked : c.marking.isMarked x = true)
    (rest : ∀ y, x ∈ waiting → c'.source.referent? x = some y → s₀.isPublished y = true →
      c'.marking.isMarked y = true ∨ x ∈ waiting') : Settled s₀ waiting' c' x where
  children y child live := decides.marked y (settled.children y child live)
  referent y isReference refers live := by
    have before := decides.referent x y marked refers
    rcases settled.referent y isReference before live with marked | found | waits
    · exact .inl (decides.marked y marked)
    · exact .inr (.inl (decides.found x found))
    · exact (rest y waits refers live).imp_right .inr

/-- A reference whose referent is nulled. -/
theorem Tracing.clear (tracing : Tracing s₀ start c) (marked : c.marking.isMarked x = true)
    (isReference : (s₀.kind? x).isSome = true) (refers : c.source.referent? x = some y) :
    Handles s₀ start c { c with source := c.source.clearReferent x }
      ∧ (c.source.clearReferent x).referent? x = none := by
  have cleared := tracing.cleared
  have sound := cleared.steady.sound
  have some_referent : (c.source.referent? x).isSome = true := by rw [refers]; rfl
  have here : ∀ z, c.marking.isMarked z = true → c.source.isPublished z = true :=
    fun z mark => (cleared.steady.published z).trans (tracing.live mark)
  have none := sound.referent_clearReferent (here x marked) some_referent
  refine ⟨⟨⟨?_, rfl, fun _ mark => mark, fun _ found => found, fun z w mark still => ?_⟩, rfl, rfl⟩,
    none⟩
  · exact ⟨cleared.clear (tracing.live marked) isReference refers, tracing.fits, tracing.reached,
      tracing.stacked, tracing.nodup, tracing.room, tracing.capacity, tracing.found, tracing.soft,
      tracing.latched⟩
  · have still : (c.source.clearReferent x).referent? z = some w := still
    by_cases target : z = x
    · subst target
      rw [none] at still
      cases still
    · rwa [Source.referent?, sound.payload_clearReferent (here x marked) some_referent
        (here z mark), if_neg target] at still

/-- The reference was decided on: what it still refers to is marked. -/
def Decided (s₀ : Source) (c : Cycle) (x : Nat) : Prop :=
  ∀ y, c.source.referent? x = some y → s₀.isPublished y = true → c.marking.isMarked y = true

/-- Nothing was taken from the stack meanwhile. -/
def Decision (s₀ : Source) (start : Nat → Prop) (x : Nat) (c c' : Cycle) : Prop :=
  Handles s₀ start c c' ∧ (∀ y, c'.Black y → c.Black y) ∧ Decided s₀ c' x

theorem mark_decides (sound : s₀.Sound) (tracing : Tracing s₀ start c)
    (marked : c.marking.isMarked x = true) (isReference : (s₀.kind? x).isSome = true)
    (refers : c.source.referent? x = some y) :
    (mark y).Ends c (fun _ c' => Decision s₀ start x c c') (Stopped s₀) := by
  have before := ((tracing.cleared.kept x (tracing.live marked)).referent refers).1
  refine (mark_spec sound tracing fun there => ?_).mono ?_
  · exact (tracing.reached x marked).referent isReference before there
  · rintro - c₁ ⟨marks, there⟩
    refine ⟨marks.toScans.handles, marks.black, fun z refers' live => ?_⟩
    rw [marks.source, refers] at refers'
    cases refers'
    exact there live

theorem release_spec (sound : s₀.Sound) (tracing : Tracing s₀ start c)
    (marked : c.marking.isMarked x = true) (isReference : (s₀.kind? x).isSome = true)
    (refers : c.source.referent? x = some y) :
    (release x y kind).Ends c (fun _ c' => Decision s₀ start x c c') (Stopped s₀) := by
  have follow := mark_decides sound tracing marked isReference refers
  obtain ⟨handles, none⟩ := tracing.clear marked isReference refers
  have cleared : Decision s₀ start x c { c with source := c.source.clearReferent x } := by
    refine ⟨handles, fun _ black => black, fun z refers' _ => ?_⟩
    rw [show (c.source.clearReferent x).referent? x = some z from refers'] at none
    cases none
  exact ends_release (fun _ => follow) fun _ => cleared

theorem Decision.retable (decision : Decision s₀ start x c c') {tables : WorkTables}
    (finalizable : tables.finalizable = c'.tables.finalizable)
    (pending : tables.pending = c'.tables.pending) :
    Decision s₀ start x c { c' with tables } := by
  obtain ⟨handles, black, decided⟩ := decision
  exact ⟨⟨handles.toDecides.trans (handles.tracing.retable tables),
    finalizable.trans handles.finalizable, pending.trans handles.pending⟩, black, decided⟩

omit [ObjectModel] in
theorem schedule_keeps (t : WorkTables) (x : Nat) :
    (t.schedule x).finalizable = t.finalizable ∧ (t.schedule x).pending = t.pending := by
  unfold WorkTables.schedule
  split
  · exact ⟨rfl, rfl⟩
  · exact ⟨rfl, rfl⟩

omit [ObjectModel] in
theorem operations_schedule (t : WorkTables) (x : Nat) : (t.schedule x).operations = t.operations := by
  unfold WorkTables.schedule
  split <;> rfl

omit [ObjectModel] in
theorem entries_scheduled {t : WorkTables} {work : ReferenceWork} {operations : WorkQueue (Nat × ReferenceWork)}
    (push : t.operations.push? (x, work) = some operations) :
    ({ t with operations }.schedule x).operations.entries = t.operations.entries ++ [(x, work)] := by
  rw [operations_schedule, WorkQueue.entries_of_push push]

theorem queueWork_spec {work : ReferenceWork} (decision : Decision s₀ start x c c') :
    (queueWork x work).Ends c' (fun _ c'' => Decision s₀ start x c c'') (Stopped s₀) := by
  refine ends_queueWork (fun _ => decision) (decision.1.tracing.stopped id) fun {operations} _ _ => ?_
  have keeps := schedule_keeps { c'.tables with operations } x
  exact decision.retable keeps.1 keeps.2

theorem handleReference_spec (sound : s₀.Sound) (tracing : Tracing s₀ start c)
    (marked : c.marking.isMarked x = true) (isReference : (s₀.kind? x).isSome = true) :
    (handleReference kind policy x).Ends c (fun _ c' => Decision s₀ start x c c')
      (Stopped s₀) := by
  have same : Handles s₀ start c c := tracing.scans.handles
  have counted := fun color => tracing.retable { c.tables with color }
  have after : ∀ {color c'}, Decision s₀ start x { c with tables := { c.tables with color } } c' →
      Decision s₀ start x c c' := by
    rintro color c' ⟨handles, rest⟩
    exact ⟨⟨(counted color).trans handles.toDecides, handles.finalizable, handles.pending⟩, rest⟩
  apply ends_handleReference
  case bare =>
    intro nothing
    refine ⟨same, fun _ black => black, fun y refers _ => ?_⟩
    cases nothing.symm.trans refers
  case kept =>
    intro y refers there
    refine ⟨same, fun _ black => black, fun z refers' _ => ?_⟩
    cases refers.symm.trans refers'
    exact there
  case overflow => exact fun _ => tracing.stopped id
  case held =>
    intro y color refers _ _
    exact (mark_decides sound (counted color).tracing marked isReference refers).mono fun _ _ => after
  case decided =>
    intro y color refers _
    refine (release_spec sound (counted color).tracing marked isReference refers).mono ?_
    exact fun _ _ decision => (queueWork_spec decision).mono fun _ _ => after

/-- Once decided on, a reference need not wait. -/
theorem Closed.decide (closed : Closed s₀ (x :: waiting) c) (decision : Decision s₀ start x c c') :
    Closed s₀ waiting c' := by
  obtain ⟨handles, black, decided⟩ := decision
  intro y black'
  have before := black y black'
  refine (closed y before).decides handles.toDecides before.1 fun z waits refers live => ?_
  rcases List.mem_cons.1 waits with rfl | later
  · exact .inl (decided z refers live)
  · exact .inr later

theorem handleEach_spec (sound : s₀.Sound) (references : List Nat) (tracing : Tracing s₀ start c)
    (closed : Closed s₀ (references ++ waiting) c)
    (known : ∀ x ∈ references, c.marking.isMarked x = true ∧ (s₀.kind? x).isSome = true) :
    (handleEach kind policy references).Ends c
      (fun _ c' => Handles s₀ start c c' ∧ Closed s₀ waiting c') (Stopped s₀) := by
  induction references generalizing c with
  | nil => exact ends_pure.2 ⟨tracing.scans.handles, closed⟩
  | cons x rest ih =>
    obtain ⟨marked, isReference⟩ := known x List.mem_cons_self
    simp only [handleEach, ends_bind]
    refine (handleReference_spec sound tracing marked isReference).mono fun _ c₁ decision => ?_
    have handles := decision.1
    refine (ih handles.tracing (closed.decide decision) fun y later => ?_).mono ?_
    · obtain ⟨marked', isReference'⟩ := known y (List.mem_cons_of_mem _ later)
      exact ⟨handles.marked y marked', isReference'⟩
    · rintro - c₂ ⟨others, closed₂⟩
      exact ⟨handles.trans others, closed₂⟩

theorem handleReferences_spec (sound : s₀.Sound) (references : List Nat)
    (tracing : Tracing s₀ start c) (closed : Closed s₀ (references ++ waiting) c)
    (known : ∀ x ∈ references, c.marking.isMarked x = true ∧ (s₀.kind? x).isSome = true) :
    (handleReferences kind policy references).Ends c
      (fun _ c' => Handles s₀ start c c' ∧ Closed s₀ waiting c') (Stopped s₀) := by
  simp only [handleReferences, ends_bind]
  refine (handleEach_spec sound references tracing closed known).mono ?_
  rintro - c₁ ⟨handles, closed₁⟩
  refine (scan_spec sound handles.tracing closed₁).mono ?_
  rintro - c₂ ⟨scans, closed₂⟩
  exact ⟨handles.trans scans.handles, closed₂⟩

theorem handleSoft_spec (sound : s₀.Sound) (references : List Nat) (tracing : Tracing s₀ start c)
    (closed : Closed s₀ (references ++ waiting) c)
    (known : ∀ x ∈ references, c.marking.isMarked x = true ∧ (s₀.kind? x).isSome = true)
    (preserved : policy = .preserve → references = []) : (handleSoft policy references).Ends c
      (fun _ c' => Handles s₀ start c c' ∧ Closed s₀ waiting c') (Stopped s₀) := by
  simp only [handleSoft, ends_ite, ends_pure, ends_bind, ends_modify]
  refine ⟨fun preserve => ⟨tracing.scans.handles, ?_⟩, fun _ => ?_⟩
  · rw [preserved preserve] at closed
    exact closed
  · refine (handleReferences_spec sound references tracing closed known).mono ?_
    rintro - c₁ ⟨⟨⟨tracing₁, latched, marked, found, referent⟩, finalizable, pending⟩, closed₁⟩
    obtain ⟨cleared, fits, reached, stacked, nodup, room, capacity, founds, soft, none⟩ := tracing₁
    exact ⟨⟨⟨⟨cleared, fits, reached, stacked, nodup, room, capacity, founds, soft, none⟩,
      latched, marked, found, referent⟩, finalizable, pending⟩,
      fun x black => ⟨(closed₁ x black).children, (closed₁ x black).referent⟩⟩

/-! ### Finalization -/

theorem makePending_spec (sound : s₀.Sound) (objects : List Nat) (tracing : Tracing s₀ start c)
    (closed : Closed s₀ waiting c)
    (reached : ∀ x ∈ objects, s₀.isPublished x = true → s₀.Reached start x) :
    (makePending objects).Ends c (fun _ c' => Decides s₀ start c c' ∧ Closed s₀ waiting c'
      ∧ c'.source = c.source ∧ (∃ pending, c'.tables = { c.tables with pending }
        ∧ pending.entries = c.tables.pending.entries ++ objects)
      ∧ ∀ x ∈ objects, s₀.isPublished x = true → c'.marking.isMarked x = true) (Stopped s₀) := by
  induction objects generalizing c with
  | nil =>
    refine ends_pure.2 ⟨tracing.scans.handles.toDecides, closed, rfl, ⟨_, rfl, ?_⟩, fun x none => ?_⟩
    · rw [List.append_nil]
    · exact absurd none List.not_mem_nil
  | cons x rest ih =>
    simp only [makePending, ends_bind, ends_get]
    cases push : c.tables.pending.push? x with
    | none =>
      exact ends_throw.2 (tracing.stopped id)
    | some pending =>
      simp only [modifyTables, ends_bind, ends_modify]
      have queued := tracing.retable { c.tables with pending }
      have entries := WorkQueue.entries_of_push push
      refine (mark_spec sound queued.tracing (reached x List.mem_cons_self)).mono ?_
      rintro - c₁ ⟨marks, marked⟩
      have first := queued.trans marks.toScans.handles.toDecides
      have closed₁ : Closed s₀ waiting c₁ := fun y black =>
        have before := marks.black y black
        (closed y before).decides first before.1 fun z waits _ _ => .inr waits
      refine (ih marks.tracing closed₁ fun y later => ?_).mono ?_
      · exact reached y (List.mem_cons_of_mem _ later)
      · rintro - c₂ ⟨second, closed₂, source, ⟨pending', tables, pended⟩, others⟩
        rw [marks.tables] at tables pended
        refine ⟨first.trans second, closed₂, source.trans marks.source, ⟨pending', tables, ?_⟩,
          fun y member live => ?_⟩
        · rw [pended, entries, List.append_assoc]
          rfl
        · rcases List.mem_cons.1 member with rfl | later
          · exact second.marked y (marked live)
          · exact others y later live

/-- Unmarked objects that have a finalizer become pending, and all of these objects are marked now. -/
theorem scheduleFinalizations_spec (sound : s₀.Sound) (tracing : Tracing s₀ start c)
    (closed : Closed s₀ waiting c)
    (reached : ∀ x ∈ c.tables.finalizable.entries, s₀.isPublished x = true → s₀.Reached start x) :
    scheduleFinalizations.Ends c (fun _ c' => Decides s₀ start c c' ∧ Closed s₀ waiting c'
      ∧ c'.source = c.source ∧ (∃ finalizable pending, c'.tables = { c.tables with finalizable, pending }
        ∧ finalizable.entries = c.tables.finalizable.entries.filter c.marking.isMarked
        ∧ pending.entries = c.tables.pending.entries
          ++ c.tables.finalizable.entries.filter (!c.marking.isMarked ·))
      ∧ ∀ x ∈ c.tables.finalizable.entries, s₀.isPublished x = true →
        c'.marking.isMarked x = true) (Stopped s₀) := by
  simp only [scheduleFinalizations, WorkQueue.takeWhere, modifyTables, ends_bind, ends_get,
    ends_modify, ends_pure, Bool.not_not]
  let finalizable := WorkQueue.ofList (c.tables.finalizable.entries.filter c.marking.isMarked)
  have kept := tracing.retable { c.tables with finalizable }
  have closed₁ : Closed s₀ waiting { c with tables := { c.tables with finalizable } } :=
    fun y black => (closed y black).decides kept black.1 fun z waits _ _ => .inr waits
  refine (makePending_spec sound _ kept.tracing closed₁ fun x due => ?_).mono ?_
  · exact reached x (List.mem_filter.1 due).1
  · rintro - c₂ ⟨second, closed₂, source₂, ⟨pending, tables₂, pending₂⟩, marked₂⟩
    refine (scan_spec sound second.tracing closed₂).mono ?_
    rintro - c₃ ⟨scans, closed₃⟩
    have decides := (kept.trans second).trans scans.handles.toDecides
    refine ⟨decides, closed₃, scans.source.trans source₂,
      ⟨finalizable, pending, scans.tables.trans tables₂, WorkQueue.entries_ofList _, pending₂⟩,
      fun x entry live => ?_⟩
    by_cases mark : c.marking.isMarked x = true
    · exact decides.marked x mark
    · refine scans.marked x (marked₂ x (List.mem_filter.2 ⟨entry, ?_⟩) live)
      simpa using mark

end Cycle

end ManagedHeap
