import ManagedHeap.Heap.Journal
import ManagedHeap.Proofs.Collection
import ManagedHeap.Proofs.Scanning

/-!
What a collection makes due. Calls are queued for references whose referents nothing else holds. A
reference that clears itself is never cleared, and its referent is marked before the collection looks
for objects to finalize.
-/

namespace ManagedHeap

namespace Source

variable [ObjectModel] {s s' s₀ : Source} {x y : Nat}

theorem defers_congr (payload : s'.payload x = s.payload x) : s'.defers x = s.defers x := by
  rw [defers, defers, kind?, kind?, clearsItself, clearsItself, payload]

theorem referent_congr (payload : s'.payload x = s.payload x) :
    s'.referent? x = s.referent? x := by
  rw [referent?, referent?, payload]

theorem holds_iff : s.holds x y = true ↔ s.defers x = true ∧ s.referent? x = some y := by
  rw [holds, Bool.and_eq_true, beq_iff_eq]

theorem defers_iff : s.defers x = true
    ↔ (s.kind? x = some .soft ∨ s.kind? x = some .weak) ∧ s.clearsItself x = true := by
  rw [defers, Bool.and_eq_true, Bool.or_eq_true, beq_iff_eq, beq_iff_eq]

theorem Kept.defers (kept : Kept s₀ s x) : s.defers x = s₀.defers x := by
  rw [Source.defers, Source.defers, kept.kind, kept.clearsItself]

end Source

namespace Cycle

open Action

variable [ObjectModel] {s₀ : Source} {start : Nat → Prop} {c c' c'' : Cycle} {x y : Nat}
  {kind : ReferenceKind} {policy : SoftPolicy} {known : Nat → Prop} {work : ReferenceWork}

/-- Calls were queued for references that are known, and no reference that clears itself was cleared.
Where a reference is to clear itself its referent had no mark. -/
structure Queues (s₀ : Source) (known : Nat → Prop) (c c' : Cycle) : Prop where
  work : ∃ added, c'.tables.operations.entries = c.tables.operations.entries ++ added
    ∧ ∀ r w, (r, w) ∈ added → known r ∧ w.isEmpty = false
      ∧ (w.clear = true → ∀ y, c'.source.referent? r = some y → c.marking.isMarked y = false)
  deferring : ∀ x, s₀.isPublished x = true → c.source.defers x = true →
    c'.source.payload x = c.source.payload x

theorem queues_of_same (source : c'.source = c.source)
    (operations : c'.tables.operations = c.tables.operations) : Queues s₀ known c c' := by
  refine ⟨⟨[], ?_, fun _ _ none => absurd none List.not_mem_nil⟩, fun x _ _ => by rw [source]⟩
  rw [operations, List.append_nil]

theorem Queues.trans (first : Queues s₀ known c c') (second : Queues s₀ known c' c'')
    (decides : Decides s₀ start c c') (decides' : Decides s₀ start c' c'')
    (marked : ∀ r, known r → c'.marking.isMarked r = true) : Queues s₀ known c c'' := by
  obtain ⟨added, entries, each⟩ := first.work
  obtain ⟨added', entries', each'⟩ := second.work
  refine ⟨⟨added ++ added', ?_, fun r w member => ?_⟩, fun x live defers => ?_⟩
  · rw [entries', entries, List.append_assoc]
  · rcases List.mem_append.1 member with before | after
    · obtain ⟨here, some_work, fresh⟩ := each r w before
      exact ⟨here, some_work, fun clears y refers =>
        fresh clears y (decides'.referent r y (marked r here) refers)⟩
    · obtain ⟨here, some_work, fresh⟩ := each' r w after
      refine ⟨here, some_work, fun clears y refers => ?_⟩
      have unmarked := fresh clears y refers
      rw [← Bool.not_eq_true] at unmarked ⊢
      exact fun old => unmarked (decides.marked y old)
  · have same := first.deferring x live defers
    have defers' : c'.source.defers x = true := (Source.defers_congr same).trans defers
    exact (second.deferring x live defers').trans same

/-- What comes of letting a reference go, short of queueing its calls. -/
structure Released (s₀ : Source) (x : Nat) (work : ReferenceWork) (c c' : Cycle) : Prop where
  tables : c'.tables = c.tables
  deferring : ∀ z, s₀.isPublished z = true → c.source.defers z = true →
    c'.source.payload z = c.source.payload z
  fresh : work.clear = true → ∀ y, c'.source.referent? x = some y → c.marking.isMarked y = false

theorem release_queues (tracing : Tracing s₀ start c)
    (marked : c.marking.isMarked x = true) (isReference : s₀.kind? x = some kind)
    (refers : c.source.referent? x = some y) (unmarked : c.marking.isMarked y = false) :
    (release x y kind).Ends c (fun work c' => Released s₀ x work c c') fun _ _ => True := by
  have cleared := tracing.cleared
  have follows : ∀ {work marking}, Released s₀ x work c { c with marking } := by
    refine fun {work marking} => ⟨rfl, fun z _ _ => rfl, fun _ z refers' => ?_⟩
    cases refers.symm.trans refers'
    exact unmarked
  have told : c.source.kind? x = some kind := (cleared.kept x (tracing.live marked)).kind.trans isReference
  have own : c.source.defers x = (c.source.due kind x).clear := by
    rw [Source.defers, told]
    cases kind <;> rfl
  refine ends_release (fun _ => ends_mark follows (fun _ => follows) fun _ _ _ => trivial) fun free => ?_
  -- Only a reference that does not clear itself is cleared.
  have alone : (c.source.due kind x).clear = false := by
    cases kind with
    | phantom => rfl
    | soft => exact free
    | weak => exact free
  refine ⟨rfl, fun z live defers => ?_, fun clear => absurd (alone.symm.trans clear) Bool.false_ne_true⟩
  have other : z ≠ x := by
    rintro rfl
    rw [own, alone] at defers
    cases defers
  have here : ∀ w, s₀.isPublished w = true → c.source.isPublished w = true :=
    fun w live' => (cleared.steady.published w).trans live'
  have some_referent : (c.source.referent? x).isSome = true := by rw [refers]; rfl
  exact (cleared.steady.sound.payload_clearReferent (here x (tracing.live marked)) some_referent
    (here z live)).trans (if_neg other)

/-- The calls are queued, if there are any. -/
theorem queueWork_queues {work : ReferenceWork} (released : Released s₀ x work c c')
    (here : known x) : (queueWork x work).Ends c' (fun _ c'' => Queues s₀ known c c'')
      fun _ _ => True := by
  apply ends_queueWork
  case nothing =>
    intro _
    refine ⟨⟨[], ?_, fun _ _ none => absurd none List.not_mem_nil⟩, released.deferring⟩
    rw [released.tables, List.append_nil]
  case full => trivial
  case queued =>
    intro operations some_work push
    refine ⟨⟨[(x, work)], released.tables ▸ entries_scheduled push, ?_⟩, released.deferring⟩
    intro r w member
    obtain ⟨rfl, rfl⟩ := Prod.mk.inj (List.mem_singleton.1 member)
    exact ⟨here, some_work, released.fresh⟩

theorem handleReference_queues (tracing : Tracing s₀ start c)
    (marked : c.marking.isMarked x = true) (isReference : s₀.kind? x = some kind) (here : known x) :
    (handleReference kind policy x).Ends c (fun _ c' => Queues s₀ known c c') fun _ _ => True := by
  apply ends_handleReference
  case bare => exact fun _ => queues_of_same rfl rfl
  case kept => exact fun _ _ => queues_of_same rfl rfl
  case overflow => exact fun _ => trivial
  case held =>
    intro y color _ _ _
    exact ends_mark (queues_of_same rfl rfl) (fun _ => queues_of_same rfl rfl) fun _ _ _ => trivial
  case decided =>
    intro y color refers bare
    have counted := (tracing.retable { c.tables with color }).tracing
    refine (release_queues counted marked isReference refers bare).mono fun work c' rel => ?_
    refine (queueWork_queues rel here).mono fun _ c'' queues => ?_
    exact ⟨queues.work, queues.deferring⟩

theorem handleEach_queues (sound : s₀.Sound) (references : List Nat) {waiting : List Nat}
    (tracing : Tracing s₀ start c) (closed : Closed s₀ (references ++ waiting) c)
    (each : ∀ x ∈ references, c.marking.isMarked x = true ∧ s₀.kind? x = some kind ∧ known x)
    (marked : ∀ r, known r → c.marking.isMarked r = true) :
    (handleEach kind policy references).Ends c (fun _ c' => Queues s₀ known c c')
      fun _ _ => True := by
  induction references generalizing c with
  | nil => exact ends_pure.2 (queues_of_same rfl rfl)
  | cons x rest ih =>
    obtain ⟨mark, isReference, here⟩ := each x List.mem_cons_self
    have reference : (s₀.kind? x).isSome = true := by rw [isReference]; rfl
    simp only [handleEach, ends_bind]
    refine ((handleReference_spec sound tracing mark reference).and
      (handleReference_queues tracing mark isReference here)).imp ?_ fun _ _ _ => trivial
    rintro - c₁ ⟨decision, queues⟩
    have handles := decision.1
    have closed₁ := closed.decide decision
    have each₁ : ∀ y ∈ rest, c₁.marking.isMarked y = true ∧ s₀.kind? y = some kind ∧ known y := by
      intro y later
      obtain ⟨mark', rest'⟩ := each y (List.mem_cons_of_mem _ later)
      exact ⟨handles.marked y mark', rest'⟩
    have marked₁ : ∀ r, known r → c₁.marking.isMarked r = true :=
      fun r known' => handles.marked r (marked r known')
    refine ((ih handles.tracing closed₁ each₁ marked₁).and
      (handleEach_spec sound rest handles.tracing closed₁ fun y later => ?_)).imp ?_
        fun _ _ _ => trivial
    · obtain ⟨mark', isReference', -⟩ := each₁ y later
      exact ⟨mark', by rw [isReference']; rfl⟩
    · rintro - c₂ ⟨queues', others, -⟩
      exact queues.trans queues' handles.toDecides others.toDecides marked₁

theorem handleReferences_queues (sound : s₀.Sound) (references : List Nat) {waiting : List Nat}
    (tracing : Tracing s₀ start c) (closed : Closed s₀ (references ++ waiting) c)
    (each : ∀ x ∈ references, c.marking.isMarked x = true ∧ s₀.kind? x = some kind ∧ known x)
    (marked : ∀ r, known r → c.marking.isMarked r = true) :
    (handleReferences kind policy references).Ends c (fun _ c' => Queues s₀ known c c'
      ∧ c'.marking.stack.entries = []) fun _ _ => True := by
  have decided : (handleEach kind policy references).Ends c
      (fun _ c' => Handles s₀ start c c' ∧ Closed s₀ waiting c') (Stopped s₀) :=
    handleEach_spec sound references tracing closed
    fun x member => ⟨(each x member).1, by rw [(each x member).2.1]; rfl⟩
  simp only [handleReferences, ends_bind]
  refine (decided.and (handleEach_queues sound references tracing closed each marked)).imp ?_
    fun _ _ _ => trivial
  rintro - c₁ ⟨⟨handles, closed₁⟩, queues⟩
  have tracing₁ := handles.tracing
  refine ((scan_spec sound tracing₁ closed₁).and
    (scan_empties sound tracing₁.cleared.bitmaps tracing₁.fits)).imp ?_ fun _ _ _ => trivial
  rintro - c₂ ⟨⟨scans, -⟩, empty⟩
  have scanned : Queues s₀ known c₁ c₂ := queues_of_same scans.source (by rw [scans.tables])
  exact ⟨queues.trans scanned handles.toDecides scans.handles.toDecides fun r here =>
    handles.marked r (marked r here), empty⟩

theorem handleSoft_queues (sound : s₀.Sound) (references : List Nat) {waiting : List Nat}
    (tracing : Tracing s₀ start c) (closed : Closed s₀ (references ++ waiting) c)
    (each : ∀ x ∈ references, c.marking.isMarked x = true ∧ s₀.kind? x = some .soft ∧ known x)
    (marked : ∀ r, known r → c.marking.isMarked r = true) :
    (handleSoft policy references).Ends c (fun _ c' => Queues s₀ known c c') fun _ _ => True := by
  simp only [handleSoft, ends_ite, ends_pure, ends_bind, ends_modify]
  refine ⟨fun _ => queues_of_same rfl rfl, fun _ => ?_⟩
  refine (handleReferences_queues sound references tracing closed each marked).mono ?_
  rintro - c₁ ⟨queues, -⟩
  exact ⟨queues.work, queues.deferring⟩

/-- What the deciding half of a collection makes due. -/
structure Plans (s₀ : Source) (c c' : Cycle) (added : List (Nat × ReferenceWork))
    (pended : List Nat) : Prop where
  operations : c'.tables.operations.entries = c.tables.operations.entries ++ added
  pending : c'.tables.pending.entries = c.tables.pending.entries ++ pended
  marked : ∀ x, c.marking.isMarked x = true → c'.marking.isMarked x = true
  work : ∀ r w, (r, w) ∈ added → c.marking.isMarked r = true ∧ w.isEmpty = false
    ∧ (w.clear = true → ∀ y, c'.source.referent? r = some y → c.marking.isMarked y = false)
  deferring : ∀ r, s₀.isPublished r = true → c.source.defers r = true →
    c'.source.payload r = c.source.payload r
  spared : ∀ r y, c.marking.isMarked r = true → s₀.defers r = true →
    c'.source.referent? r = some y → s₀.isPublished y = true → y ∉ pended

/-- The referent of a reference that clears itself is marked before the objects to finalize are
looked for: nothing is left to scan then, and the reference is none of those that wait. -/
theorem Tracing.sheltered (tracing : Tracing s₀ start c) {phantoms : List Nat}
    (closed : Closed s₀ (phantoms ++ []) c) (latched : c.marking.latched = true)
    (empty : c.marking.stack.entries = []) (others : ∀ x ∈ phantoms, s₀.kind? x = some .phantom)
    (marked : c.marking.isMarked x = true) (defers : s₀.defers x = true)
    (refers : c.source.referent? x = some y) (live : s₀.isPublished y = true) :
    c.marking.isMarked y = true := by
  have kind := (Source.defers_iff.1 defers).1
  have black : c.Black x := ⟨marked, by rw [empty]; exact List.not_mem_nil⟩
  have isReference : (s₀.kind? x).isSome = true := by
    rcases kind with soft | weak
    · rw [soft]; rfl
    · rw [weak]; rfl
  rcases (closed x black).referent y isReference refers live with there | found | waits
  · exact there
  · exact absurd found (tracing.latched latched x)
  · rw [List.append_nil] at waits
    rw [others x waits] at kind
    rcases kind with same | same
    · cases same
    · cases same

theorem decide_plans (sound : c.source.Sound) {roots : List Nat} {found : FoundReferences}
    (begun : Begun roots policy start c found c')
    (startFinalizable : ∀ x ∈ c.tables.finalizable.entries, start x) :
    (do handleSoft policy found.soft
        handleReferences .weak policy found.weak
        let _ ← scheduleFinalizations
        handleReferences .phantom policy found.phantom : Action Cycle Unit).Ends c'
      (fun _ c'' => ∃ added pended, Plans c.source c' c'' added pended) fun _ _ => True := by
  let known : Nat → Prop := fun r => c'.marking.isMarked r = true
  have each : ∀ kind {c'' : Cycle}, Decides c.source start c' c'' → ∀ x ∈ found.ofKind kind,
      c''.marking.isMarked x = true ∧ c.source.kind? x = some kind ∧ known x := by
    intro kind c'' decides x member
    obtain ⟨marked, isReference⟩ := begun.listed kind decides x member
    exact ⟨marked, isReference, (begun.known kind x member).1⟩
  simp only [ends_bind]
  refine ((handleSoft_spec sound _ begun.tracing begun.closed
    (begun.references .soft begun.undecided) begun.preserved).and (handleSoft_queues sound _
      begun.tracing begun.closed (each .soft begun.undecided) fun _ here => here)).imp ?_
        fun _ _ _ => trivial
  rintro - c₁ ⟨⟨soft, closed₁⟩, queues₁⟩
  have decides₁ := soft.toDecides
  refine ((handleReferences_spec sound _ soft.tracing closed₁ (begun.references .weak decides₁)).and
    (handleReferences_queues sound _ soft.tracing closed₁ (each .weak decides₁)
      decides₁.marked)).imp ?_ fun _ _ _ => trivial
  rintro - c₂ ⟨⟨weak, closed₂⟩, queues₂, empty⟩
  have decides₂ := decides₁.trans weak.toDecides
  have handles := soft.trans weak
  refine (scheduleFinalizations_spec sound weak.tracing closed₂
    (begun.reached startFinalizable handles)).imp ?_ fun _ _ _ => trivial
  rintro - c₃ ⟨finals, closed₃, source₃, ⟨finalizable, pending, tables₃, -, pending₃⟩, -⟩
  have decides₃ := decides₂.trans finals
  refine ((handleReferences_spec sound _ finals.tracing closed₃
    (begun.references .phantom decides₃)).and
    (handleReferences_queues sound _ finals.tracing closed₃ (each .phantom decides₃)
      decides₃.marked)).imp ?_ fun _ _ _ => trivial
  rintro - c₄ ⟨⟨phantom, -⟩, queues₄, -⟩
  have untouched : Queues c.source known c₂ c₃ := queues_of_same source₃ (by rw [tables₃])
  have queues := ((queues₁.trans queues₂ decides₁ weak.toDecides decides₁.marked).trans untouched
    decides₂ finals decides₂.marked).trans queues₄ decides₃ phantom.toDecides decides₃.marked
  obtain ⟨added, entries, work⟩ := queues.work
  refine ⟨added, c₂.tables.finalizable.entries.filter (!c₂.marking.isMarked ·), entries, ?_,
    (decides₃.trans phantom.toDecides).marked, work, queues.deferring,
    fun r y marked defers refers live => ?_⟩
  · rw [phantom.pending, tables₃, pending₃, handles.pending]
  · intro pended
    have unmarked := (List.mem_filter.1 pended).2
    have refers₂ : c₂.source.referent? r = some y := by
      rw [← source₃]
      exact phantom.referent r y (decides₃.marked r marked) refers
    rw [weak.tracing.sheltered closed₂ (decides₂.latched.trans begun.latched) empty
      (fun x member => (begun.known .phantom x member).2) (decides₂.marked r marked) defers refers₂
      live] at unmarked
    cases unmarked

/-- What a collection that came to its end has made due. It goes on from `s` and `t`. -/
structure Schedules (roots : List Nat) (s : Source) (t : WorkTables) (s' : Source) (t' : WorkTables)
    (added : List (Nat × ReferenceWork)) (pended : List Nat) : Prop where
  operations : t'.operations.entries = t.operations.entries ++ added
  pending : t'.pending.entries = t.pending.entries ++ pended
  work : ∀ r w, (r, w) ∈ added → s'.isPublished r = true ∧ w.isEmpty = false
    ∧ (w.clear = true → ∀ y ∈ roots, s.isPublished y = true → s'.referent? r ≠ some y)
  deferring : ∀ r, s.isPublished r = true → s.defers r = true → s'.payload r = s.payload r
  spared : ∀ r y, s.isPublished r = true → r ∈ roots ∨ (∃ w, (r, w) ∈ added) →
    s.defers r = true → s'.referent? r = some y → s.isPublished y = true → y ∉ pended

theorem trace_plans (sound : c.source.Sound) (fresh : c.marking = Marking.start c.source)
    (policy : SoftPolicy) {roots : List Nat} (startRoots : ∀ x ∈ roots, start x)
    (startFinalizable : ∀ x ∈ c.tables.finalizable.entries, start x) : (trace roots policy).Ends c
      (fun _ c'' => ∃ found c' added pended, Begun roots policy start c found c'
        ∧ Plans c.source c' c'' added pended) fun _ _ => True := by
  have all := (begin_spec sound fresh policy startRoots).imp
    (fun found c' begun => (decide_plans sound begun startFinalizable).mono
      fun _ c'' ⟨added, pended, plans⟩ =>
        (⟨found, c', added, pended, begun, plans⟩ : ∃ found c' added pended,
          Begun roots policy start c found c' ∧ Plans c.source c' c'' added pended))
    fun _ _ _ => trivial
  simpa only [trace, ends_bind] using all

theorem run_schedules (sound : c.source.Sound) (fresh : c.marking = Marking.start c.source)
    (roots : List Nat) (policy : SoftPolicy) : (run roots policy).Ends c
      (fun _ c' => ∃ added pended,
        Schedules roots c.source c.tables c'.source c'.tables added pended) fun _ _ => True := by
  let start : Nat → Prop := fun x => x ∈ roots ∨ x ∈ c.tables.finalizable.entries
  have startRoots : ∀ x ∈ roots, start x := fun x root => .inl root
  have startFinalizable : ∀ x ∈ c.tables.finalizable.entries, start x := fun x entry => .inr entry
  simp only [run, finish, ends_bind, ends_get, ends_require, ends_pure]
  refine ((trace_spec sound fresh policy startRoots startFinalizable).and
    (trace_plans sound fresh policy startRoots startFinalizable)).imp ?_ fun _ _ _ => trivial
  rintro - c₂ ⟨traces, found, c₁, added, pended, begun, plans⟩
  refine (sweep_spec sound traces.tracing).imp ?_ fun _ _ _ => trivial
  rintro freed c₃ ⟨live, gone, sweeps⟩
  refine ⟨fun _ => ⟨added, pended, ?_⟩, fun _ => trivial⟩
  obtain ⟨scheduled, tables⟩ := sweeps.tables
  have payload : ∀ x, c₃.source.payload x = c₂.source.payload x :=
    Source.payload_congr sweeps.memory
  have referent : ∀ x, c₃.source.referent? x = c₂.source.referent? x := fun x =>
    Source.referent_congr (payload x)
  have source : c₁.source = c.source := begun.source
  refine ⟨?_, ?_, fun r w member => ?_, fun r here defers => ?_,
    fun r y here held defers refers there => ?_⟩
  · rw [tables, ← begun.tables]
    exact plans.operations
  · rw [tables, ← begun.tables]
    exact plans.pending
  · obtain ⟨marked, some_work, unmarked⟩ := plans.work r w member
    refine ⟨(live r).2 (plans.marked r marked), some_work, fun clears y root there refers => ?_⟩
    have bare := unmarked clears y (referent r ▸ refers)
    rw [begun.roots y root there] at bare
    cases bare
  · rw [payload, plans.deferring r here (source ▸ defers), source]
  · have marked : c₁.marking.isMarked r = true := by
      rcases held with root | ⟨w, member⟩
      · exact begun.roots r root here
      · exact (plans.work r w member).1
    exact plans.spared r y marked defers (referent r ▸ refers) there

end Cycle

end ManagedHeap
