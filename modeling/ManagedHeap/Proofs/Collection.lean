import ManagedHeap.Heap.Collection
import ManagedHeap.Proofs.References
import ManagedHeap.Proofs.Sweeping

/-!
What a full collection does.
-/

namespace ManagedHeap

/-- What a collection that came to its end has done to the arenas, and which objects wait for their
finalizers now. -/
structure Collects [ObjectModel] (roots : List Nat) (s : Source) (t : WorkTables) (s' : Source)
    (t' : WorkTables) : Prop where
  sound : s'.Sound
  maximum : s'.absoluteMax = s.absoluteMax
  reached : ∀ x, s'.isPublished x = true →
    s.Reached (fun y => y ∈ roots ∨ y ∈ t.finalizable.entries) x
  roots : ∀ x ∈ roots, s.isPublished x = true → s'.isPublished x = true
  finalizable : ∀ x ∈ t.finalizable.entries, s.isPublished x = true → s'.isPublished x = true
  children : ∀ x y, s'.isPublished x = true → y ∈ s.children x → s.isPublished y = true →
    s'.isPublished y = true
  referent : ∀ x y, s'.isPublished x = true → (s.kind? x).isSome = true →
    s'.referent? x = some y → s.isPublished y = true → s'.isPublished y = true
  kept : ∀ x, s'.isPublished x = true → s.Kept s' x
  due : ∃ keeps : Nat → Bool, t'.finalizable.entries = t.finalizable.entries.filter keeps
    ∧ t'.pending.entries = t.pending.entries ++ t.finalizable.entries.filter (!keeps ·)

section

variable [ObjectModel] {roots : List Nat} {s s' s'' : Source} {t t' : WorkTables}

/-- Only the objects with finalizers matter among the tables. -/
theorem Collects.congr {u u' : WorkTables} (collects : Collects roots s t s' t')
    (finalizable : t.finalizable = u.finalizable) (pending : t.pending = u.pending)
    (finalizable' : t'.finalizable = u'.finalizable) (pending' : t'.pending = u'.pending) :
    Collects roots s u s' u' := by
  obtain ⟨sound, maximum, reached, roots, final, children, referent, kept, due⟩ := collects
  rw [finalizable] at reached final due
  rw [pending, finalizable', pending'] at due
  exact ⟨sound, maximum, reached, roots, final, children, referent, kept, due⟩

/-- The figures that steer the growth of the arenas do not matter. -/
theorem Collects.resized (collects : Collects roots s t s' t')
    (resized : Source.Resized s' s'') : Collects roots s t s'' t' := by
  have steady := collects.sound.steady_of_resized resized
  have live : ∀ x, s''.isPublished x = true ↔ s'.isPublished x = true := fun x => by
    rw [steady.published]
  have referent : ∀ x, s''.referent? x = s'.referent? x := fun x => by
    rw [Source.referent?, Source.referent?, Source.payload_congr resized.memory]
  refine ⟨steady.sound, steady.maximum.trans collects.maximum, ?_, ?_, ?_, ?_, ?_, ?_,
    collects.due⟩
  all_goals simp only [live, referent]
  · exact collects.reached
  · exact collects.roots
  · exact collects.finalizable
  · exact collects.children
  · exact collects.referent
  · exact fun x survivor => (collects.kept x survivor).of_memory resized.memory

end

namespace Cycle

open Action

variable [ObjectModel] {s₀ s : Source} {start : Nat → Prop} {c c' c'' : Cycle} {x y : Nat}
  {roots : List Nat} {policy : SoftPolicy}

omit [ObjectModel] in
theorem fits_start (sound : s.Sound) : (Marking.start s).Fits s where
  numbers := by
    rw [sound.published, Source.sites, List.map_map]
    rfl
  length := List.length_map ..
  sound := by
    intro map member
    obtain ⟨number, known, rfl⟩ := List.mem_map.1 member
    obtain ⟨a, here, rfl⟩ := List.mem_map.1 known
    have whole := sound.bitmap_sound here
    exact Bitmap.sound_blank whole.positive whole.aligned
  range := by
    intro i number mark here marks
    have number_eq : (s.arenas.map Arena.live)[i]? = some number := here
    rw [Marking.start, List.getElem?_map, number_eq, Option.map_some] at marks
    cases marks
    obtain ⟨a, arena, rfl⟩ := List.mem_map.1 (List.mem_of_getElem? number_eq)
    have fits := sound.fits a arena
    refine ⟨rfl, ?_⟩
    change (s.bitmap a.live).base + ((s.bitmap a.live).limit - (s.bitmap a.live).base) = _
    have order : (s.bitmap a.live).base ≤ (s.bitmap a.live).limit := by
      rw [fits.base, fits.limit]
      exact Nat.le_add_right _ _
    omega

omit [ObjectModel] in
theorem isMarked_start (s : Source) (x : Nat) : (Marking.start s).isMarked x = false := by
  rw [Marking.isMarked, List.any_eq_false]
  intro map member
  obtain ⟨number, -, rfl⟩ := List.mem_map.1 member
  simp [Bitmap.test_blank]

/-- A collection begins with nothing marked. -/
theorem tracing_start (sound : c.source.Sound) (fresh : c.marking = Marking.start c.source) :
    Tracing c.source start c ∧ Closed c.source [] c := by
  have unmarked : ∀ x, ¬ c.marking.isMarked x = true := by
    intro x
    rw [fresh, isMarked_start]
    exact Bool.false_ne_true
  have nothing : c.marking.found = {} := by rw [fresh]; rfl
  have empty : ∀ kind x, x ∉ c.marking.found.ofKind kind := by
    intro kind x
    rw [nothing]
    cases kind <;> exact List.not_mem_nil
  refine ⟨⟨sound.cleared, fresh ▸ fits_start sound, ?_, ?_, ?_, ?_, ?_, ?_, ?_, ?_⟩, ?_⟩
  · exact fun x marked => absurd marked (unmarked x)
  · rw [fresh]
    exact fun x none => absurd none List.not_mem_nil
  · rw [fresh]
    exact List.nodup_nil
  · rw [fresh]
    rfl
  · rw [fresh]
    rfl
  · exact fun kind x found => absurd found (empty kind x)
  · rw [nothing]
    exact fun _ => rfl
  · rintro - x ⟨kind, found⟩
    exact empty kind x found
  · exact fun x black => absurd black.1 (unmarked x)

/-- How soft references are treated from here on does not matter to what was marked. -/
theorem Marks.defer (marks : Marks s₀ start c c') (closed : Closed s₀ [] c) (defer : Bool)
    (none : c'.marking.found.soft = []) :
    Tracing s₀ start { c' with marking := { c'.marking with deferSoft := defer } }
      ∧ Closed s₀ [] { c' with marking := { c'.marking with deferSoft := defer } } := by
  have tracing := marks.tracing
  refine ⟨⟨tracing.cleared, tracing.fits.congr rfl rfl, tracing.reached, tracing.stacked,
    tracing.nodup, tracing.room, tracing.capacity, tracing.found, fun _ => none,
    tracing.latched⟩, fun x black => ?_⟩
  have settled := (closed x (marks.black x black)).scans marks.toScans
  exact ⟨settled.children, settled.referent⟩

omit [ObjectModel] in
theorem not_has_empty (x : Nat) : ¬ ({} : FoundReferences).Has x := by
  rintro ⟨kind, found⟩
  cases kind <;> exact absurd found List.not_mem_nil

/-- From the latch on the references found wait, and no others are found. -/
theorem latch_spec (tracing : Tracing s₀ start c) (closed : Closed s₀ [] c) :
    latch.Ends c (fun found c' => found = c.marking.found
      ∧ c' = { c with marking := { c.marking with latched := true, found := {} } }
      ∧ Tracing s₀ start c'
      ∧ Closed s₀ (found.soft ++ (found.weak ++ (found.phantom ++ []))) c') (Stopped s₀) := by
  simp only [latch, modifyMarking, ends_bind, ends_get, ends_modify, ends_pure, true_and]
  refine ⟨?_, fun x black => ?_⟩
  · exact ⟨tracing.cleared, tracing.fits.congr rfl rfl, tracing.reached, tracing.stacked,
      tracing.nodup, tracing.room, tracing.capacity,
      fun kind x found => absurd ⟨kind, found⟩ (not_has_empty x), fun _ => rfl,
      fun _ => not_has_empty⟩
  · have settled := closed x black
    refine ⟨settled.children, fun y isReference refers live => ?_⟩
    rcases settled.referent y isReference refers live with marked | ⟨kind, found⟩ | none
    · exact .inl marked
    · refine .inr (.inr ?_)
      cases kind with
      | soft => exact List.mem_append_left _ found
      | weak => exact List.mem_append_right _ (List.mem_append_left _ found)
      | phantom =>
        exact List.mem_append_right _ (List.mem_append_right _ (List.mem_append_left _ found))
    · exact absurd none List.not_mem_nil

/-- What the marking half of a collection has done. -/
structure Traces (roots : List Nat) (start : Nat → Prop) (c c' : Cycle) : Prop where
  tracing : Tracing c.source start c'
  closed : Closed c.source [] c'
  latched : c'.marking.latched = true
  roots : ∀ x ∈ roots, c.source.isPublished x = true → c'.marking.isMarked x = true
  finalizable : ∀ x ∈ c.tables.finalizable.entries, c.source.isPublished x = true →
    c'.marking.isMarked x = true
  due : ∃ keeps : Nat → Bool,
    c'.tables.finalizable.entries = c.tables.finalizable.entries.filter keeps
      ∧ c'.tables.pending.entries
        = c.tables.pending.entries ++ c.tables.finalizable.entries.filter (!keeps ·)

/-- What is known when the references found are decided on. -/
structure Begun (roots : List Nat) (policy : SoftPolicy) (start : Nat → Prop) (c : Cycle)
    (found : FoundReferences) (c' : Cycle) : Prop where
  tracing : Tracing c.source start c'
  closed : Closed c.source (found.soft ++ (found.weak ++ (found.phantom ++ []))) c'
  latched : c'.marking.latched = true
  source : c'.source = c.source
  tables : c'.tables = c.tables
  roots : ∀ x ∈ roots, c.source.isPublished x = true → c'.marking.isMarked x = true
  known : ∀ kind, ∀ x ∈ found.ofKind kind,
    c'.marking.isMarked x = true ∧ c.source.kind? x = some kind
  preserved : policy = .preserve → found.soft = []

theorem begin_spec (sound : c.source.Sound) (fresh : c.marking = Marking.start c.source)
    (policy : SoftPolicy) (startRoots : ∀ x ∈ roots, start x) :
    (do markAll roots
        modifyMarking fun m => { m with deferSoft := policy != .preserve }
        scan
        latch : Action Cycle FoundReferences).Ends c
      (fun found c' => Begun roots policy start c found c') (Stopped c.source) := by
  obtain ⟨tracing, closed⟩ : Tracing c.source start c ∧ Closed c.source [] c :=
    tracing_start sound fresh
  simp only [modifyMarking, ends_bind, ends_modify]
  refine (markAll_spec sound roots tracing fun x root live => ?_).mono ?_
  · exact .start (startRoots x root) live
  rintro - c₁ ⟨marks, rooted⟩
  have preserving : c₁.marking.deferSoft = false := marks.deferSoft.trans (by rw [fresh]; rfl)
  obtain ⟨tracing₁, closed₁⟩ :=
    marks.defer closed (policy != .preserve) (marks.tracing.soft preserving)
  refine (scan_spec sound tracing₁ closed₁).mono ?_
  rintro - c₂ ⟨scans, closed₂⟩
  have tracing₂ := scans.tracing
  refine (latch_spec tracing₂ closed₂).mono ?_
  rintro _ c₃ ⟨rfl, rfl, tracing₃, closed₃⟩
  refine ⟨tracing₃, closed₃, rfl, scans.source.trans marks.source, scans.tables.trans marks.tables,
    fun x root live => scans.marked x (rooted x root live), tracing₂.found, ?_⟩
  rintro rfl
  exact tracing₂.soft scans.deferSoft

section

variable {policy : SoftPolicy} {found : FoundReferences}

theorem Begun.undecided (begun : Begun roots policy start c found c') :
    Decides c.source start c' c' := begun.tracing.scans.handles.toDecides

/-- The references found stay marked whatever is decided on. -/
theorem Begun.listed (begun : Begun roots policy start c found c') (kind : ReferenceKind)
    (decides : Decides c.source start c' c'') : ∀ x ∈ found.ofKind kind,
      c''.marking.isMarked x = true ∧ c.source.kind? x = some kind :=
  fun x member => (begun.known kind x member).imp_left (decides.marked x)

theorem Begun.references (begun : Begun roots policy start c found c') (kind : ReferenceKind)
    (decides : Decides c.source start c' c'') : ∀ x ∈ found.ofKind kind,
      c''.marking.isMarked x = true ∧ (c.source.kind? x).isSome = true :=
  fun x member => (begun.listed kind decides x member).imp_right fun isKind => by rw [isKind]; rfl

theorem Begun.finalizable (begun : Begun roots policy start c found c')
    (handles : Handles c.source start c' c'') :
    c''.tables.finalizable = c.tables.finalizable := by
  rw [handles.finalizable, begun.tables]

theorem Begun.reached (begun : Begun roots policy start c found c')
    (startFinalizable : ∀ x ∈ c.tables.finalizable.entries, start x)
    (handles : Handles c.source start c' c'') : ∀ x ∈ c''.tables.finalizable.entries,
      c.source.isPublished x = true → c.source.Reached start x := by
  rw [begun.finalizable handles]
  exact fun x entry live => .start (startFinalizable x entry) live

end

/-- The references found and the objects to finalize are decided on. -/
theorem decide_spec (sound : c.source.Sound) {found : FoundReferences}
    (begun : Begun roots policy start c found c')
    (startFinalizable : ∀ x ∈ c.tables.finalizable.entries, start x) :
    (do handleSoft policy found.soft
        handleReferences .weak policy found.weak
        let _ ← scheduleFinalizations
        handleReferences .phantom policy found.phantom : Action Cycle Unit).Ends c'
      (fun _ c'' => Traces roots start c c'') (Stopped c.source) := by
  simp only [ends_bind]
  refine (handleSoft_spec sound _ begun.tracing begun.closed (begun.references .soft begun.undecided)
    begun.preserved).mono ?_
  rintro - c₁ ⟨soft, closed₁⟩
  refine (handleReferences_spec sound _ soft.tracing closed₁
    (begun.references .weak soft.toDecides)).mono ?_
  rintro - c₂ ⟨weak, closed₂⟩
  have handles := soft.trans weak
  have pending₂ : c₂.tables.pending = c.tables.pending := by
    rw [handles.pending, begun.tables]
  refine (scheduleFinalizations_spec sound weak.tracing closed₂
    (begun.reached startFinalizable handles)).mono ?_
  rintro - c₃ ⟨finals, closed₃, -, ⟨finalizable, pending, tables₃, finalizable₃, pending₃⟩, marked₃⟩
  have decides := handles.toDecides.trans finals
  refine (handleReferences_spec sound _ finals.tracing closed₃
    (begun.references .phantom decides)).mono ?_
  rintro - c₄ ⟨phantom, closed₄⟩
  have all := decides.trans phantom.toDecides
  rw [begun.finalizable handles] at finalizable₃ pending₃ marked₃
  rw [pending₂] at pending₃
  refine ⟨phantom.tracing, closed₄, all.latched.trans begun.latched, fun x root live => ?_,
    fun x entry live => phantom.marked x (marked₃ x entry live), c₂.marking.isMarked, ?_, ?_⟩
  · exact all.marked x (begun.roots x root live)
  · rw [phantom.finalizable, tables₃, finalizable₃]
  · rw [phantom.pending, tables₃, pending₃]

theorem trace_spec (sound : c.source.Sound) (fresh : c.marking = Marking.start c.source)
    (policy : SoftPolicy) (startRoots : ∀ x ∈ roots, start x)
    (startFinalizable : ∀ x ∈ c.tables.finalizable.entries, start x) :
    (trace roots policy).Ends c (fun _ c' => Traces roots start c c') (Stopped c.source) := by
  have all := (begin_spec sound fresh policy startRoots).mono fun _ _ begun =>
    decide_spec sound begun startFinalizable
  simpa only [trace, ends_bind] using all

theorem entries_of_isEmpty (tracing : Tracing s₀ start c)
    (empty : c.marking.stack.isEmpty = true) : c.marking.stack.entries = [] := by
  have total := tracing.room
  have capacity := tracing.capacity
  rw [MarkStack.isEmpty, beq_iff_eq] at empty
  exact List.length_eq_zero_iff.1 (by omega)

/-- What lives after the sweep is the marked objects, none of which is left to scan. -/
theorem Traces.collects {gone : Nat → Prop}
    (traces : Traces roots (fun y => y ∈ roots ∨ y ∈ c.tables.finalizable.entries) c c')
    (sweeps : Sweeps gone c' c'')
    (live : ∀ y, c''.source.isPublished y = true ↔ c'.marking.isMarked y = true)
    (empty : c''.marking.stack.isEmpty = true) :
    Collects roots c.source c.tables c''.source c''.tables := by
  have tracing := traces.tracing
  have cleared := tracing.cleared
  rw [sweeps.marking] at empty
  have settled : ∀ x, c''.source.isPublished x = true → Settled c.source [] c' x := by
    intro x survivor
    refine traces.closed x ⟨(live x).1 survivor, ?_⟩
    rw [entries_of_isEmpty tracing empty]
    exact List.not_mem_nil
  have payload : ∀ x, c''.source.payload x = c'.source.payload x :=
    Source.payload_congr sweeps.memory
  refine ⟨sweeps.sound, sweeps.maximum.trans cleared.steady.maximum, ?_, ?_, ?_, ?_, ?_, ?_, ?_⟩
  · exact fun x survivor => tracing.reached x ((live x).1 survivor)
  · exact fun x root before => (live x).2 (traces.roots x root before)
  · exact fun x entry before => (live x).2 (traces.finalizable x entry before)
  · exact fun x y survivor child before =>
      (live y).2 ((settled x survivor).children y child before)
  · intro x y survivor isReference refers before
    rw [Source.referent?, payload] at refers
    rcases (settled x survivor).referent y isReference refers before with marked | found | none
    · exact (live y).2 marked
    · exact absurd found (tracing.latched traces.latched x)
    · exact absurd none List.not_mem_nil
  · intro x survivor
    exact (cleared.kept x (tracing.live ((live x).1 survivor))).of_memory sweeps.memory
  · obtain ⟨scheduled, tables⟩ := sweeps.tables
    rw [tables]
    exact traces.due

/-- Where a collection breaks off the objects that it starts from live. -/
structure Aborted (roots : List Nat) (c : Cycle) (cause : Failure) (c' : Cycle) : Prop where
  sound : c'.source.Sound
  maximum : c'.source.absoluteMax = c.source.absoluteMax
  kept : ∀ x, x ∈ roots ∨ x ∈ c.tables.finalizable.entries → c.source.isPublished x = true →
    c'.source.isPublished x = true
  overflow : cause.Overflows → c.source.Crowded

theorem Traces.aborted {gone : Nat → Prop} {cause : Failure} (traces : Traces roots start c c')
    (sweeps : Sweeps gone c' c'') (unmarked : ∀ y, gone y → c'.marking.isMarked y = false)
    (other : ¬ cause.Overflows) : Aborted roots c cause c'' := by
  have steady := traces.tracing.cleared.steady
  refine ⟨sweeps.sound, sweeps.maximum.trans steady.maximum, fun x held live => ?_,
    fun overflow => absurd overflow other⟩
  have marked : c'.marking.isMarked x = true := by
    rcases held with root | entry
    · exact traces.roots x root live
    · exact traces.finalizable x entry live
  rw [sweeps.published, steady.published]
  refine ⟨fun swept => ?_, live⟩
  rw [unmarked x swept] at marked
  cases marked

theorem run_spec (sound : c.source.Sound) (fresh : c.marking = Marking.start c.source)
    (roots : List Nat) (policy : SoftPolicy) : (run roots policy).Ends c
      (fun _ c' => Collects roots c.source c.tables c'.source c'.tables) (Aborted roots c) := by
  simp only [run, finish, ends_bind, ends_get, ends_require, ends_pure]
  refine (trace_spec sound fresh policy (fun x root => Or.inl root)
    fun x entry => Or.inr entry).imp (fun _ c₁ traces => ?_) ?_
  case refine_2 =>
    rintro cause c₁ ⟨broken, crowded⟩
    exact ⟨broken.sound, broken.maximum, fun x _ live => broken.live x live, crowded⟩
  refine (sweep_spec sound traces.tracing).imp ?_ ?_
  · rintro freed c₂ ⟨live, gone, sweeps⟩
    refine ⟨traces.collects sweeps live, fun _ => traces.aborted sweeps (fun y swept => ?_) id⟩
    have dead : ¬ c₂.source.isPublished y = true := fun lives => ((sweeps.published y).1 lives).1 swept
    rw [live, Bool.not_eq_true] at dead
    exact dead
  · rintro cause c₂ ⟨⟨gone, unmarked, sweeps⟩, other⟩
    exact traces.aborted sweeps unmarked other

end Cycle

end ManagedHeap
