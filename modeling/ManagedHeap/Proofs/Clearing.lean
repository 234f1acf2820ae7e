import ManagedHeap.Proofs.Collection
import ManagedHeap.Proofs.Cycles
import ManagedHeap.Proofs.Scanning

/-!
Which references a collection lets go of. Before any is decided on, all that must be held is marked: what
the roots reach over children, over the referents of scheduled references and, where soft references
hold, over theirs. From then on only references to unmarked objects are touched, each when those of its
kind are decided on.
-/

namespace ManagedHeap

/-- What a collection holds before it decides on references, given those that are scheduled and how soft
ones are treated. -/
inductive Source.Strong [ObjectModel] (s : Source) (roots scheduled : List Nat) (policy : SoftPolicy) :
    Nat → Prop where
  | root {x : Nat} : x ∈ roots → s.isPublished x = true → s.Strong roots scheduled policy x
  | child {x y : Nat} : s.Strong roots scheduled policy x → y ∈ s.children x →
    s.isPublished y = true → s.Strong roots scheduled policy y
  | scheduled {x y : Nat} : s.Strong roots scheduled policy x → x ∈ scheduled →
    (s.kind? x).isSome = true → s.referent? x = some y → s.isPublished y = true →
    s.Strong roots scheduled policy y
  | soft {x y : Nat} : policy = .preserve → s.Strong roots scheduled policy x →
    s.kind? x = some .soft → s.referent? x = some y → s.isPublished y = true →
    s.Strong roots scheduled policy y

/-- A live reference that a collection may let go of: it need not hold the referent, and where it is a
phantom reference the referent does not wait for a first finalizer. -/
structure Source.Loose [ObjectModel] (s : Source) (t : WorkTables) (roots : List Nat)
    (policy : SoftPolicy) (r : Nat) : Prop where
  live : s.isPublished r = true
  referent : ∃ y, s.referent? r = some y ∧ ¬ s.Strong roots t.scheduled policy y
    ∧ (s.kind? r = some .phantom → s.isPublished y = true → y ∉ t.finalizable.entries)

/-- A loose reference of a kind that the collection decides on. -/
structure Source.Dropped [ObjectModel] (s : Source) (t : WorkTables) (roots : List Nat)
    (policy : SoftPolicy) (r : Nat) : Prop extends s.Loose t roots policy r where
  decided : policy = .preserve → s.kind? r ≠ some .soft

namespace Cycle

open Action

variable {s₀ : Source} {start : Nat → Prop} {c c' c'' : Cycle} {x y r : Nat} {roots : List Nat}
  {kind other : ReferenceKind} {policy : SoftPolicy} {waiting : List Nat}

/-! ### Before references are decided on -/

/-- No scheduled reference was found: its referent is followed instead. -/
def Unforced (c : Cycle) : Prop := ∀ x, c.marking.found.Has x → x ∉ c.tables.scheduled

/-- Marking changes the marks and the stack and nothing else. -/
theorem mark_frame (x : Nat) (c : Cycle) : (mark x).Ends c
    (fun _ c' => c'.source = c.source ∧ c'.tables = c.tables ∧ c'.marking.found = c.marking.found)
    fun _ _ => True :=
  ends_mark ⟨rfl, rfl, rfl⟩ (fun _ => ⟨rfl, rfl, rfl⟩) fun _ _ _ => trivial

theorem ignoresMarks_same (s : Source) (t : WorkTables) :
    IgnoresMarks fun c => c.source = s ∧ c.tables = t := fun _ _ same => same

theorem mark_unforced (unforced : c.Unforced) (x : Nat) :
    (mark x).Ends c (fun _ c' => c'.Unforced) fun _ _ => True := by
  refine (mark_frame x c).mono ?_
  rintro - c' ⟨-, tables, found⟩
  rw [Unforced, tables, found]
  exact unforced

theorem markAll_unforced (objects : List Nat) (unforced : c.Unforced) :
    (markAll objects).Ends c (fun _ c' => c'.Unforced) fun _ _ => True := by
  induction objects generalizing c with
  | nil => exact ends_pure.2 unforced
  | cons x rest ih =>
    rw [markAll, ends_bind]
    exact (mark_unforced unforced x).mono fun _ _ unforced' => ih unforced'

variable [ObjectModel]

theorem visit_unforced (unforced : c.Unforced) (x : Nat) :
    (visit x).Ends c (fun _ c' => c'.Unforced) fun _ _ => True := by
  simp only [visit, ends_bind, ends_get]
  refine (markAll_unforced _ unforced).mono fun _ c₁ unforced₁ => ?_
  split
  case h_1 kind referent _ _ =>
    have follow := mark_unforced unforced₁ referent
    simp only [ends_ite]
    refine ⟨fun _ => follow, fun unscheduled => ⟨fun _ => follow, fun _ => ends_modify.2 ?_⟩⟩
    rintro y ⟨other, found⟩
    rcases mem_add.1 found with before | ⟨-, rfl⟩
    · exact unforced₁ y ⟨other, before⟩
    · rw [Bool.or_eq_true, not_or, List.contains_iff_mem] at unscheduled
      exact unscheduled.2
  case h_2 => exact ends_pure.2 unforced₁

theorem scan_unforced (unforced : c.Unforced) :
    scan.Ends c (fun _ c' => c'.Unforced) fun _ _ => True := by
  have upTo : ∀ (budget : Nat) {c : Cycle}, c.Unforced →
      (scanUpTo budget).Ends c (fun _ c' => c'.Unforced) fun _ _ => True := by
    intro budget
    induction budget with
    | zero => exact fun unforced => ends_pure.2 unforced
    | succ budget ih =>
      intro c unforced
      simp only [scanUpTo, ends_bind, ends_get]
      split
      · exact ends_pure.2 unforced
      case h_2 top stack _ =>
        simp only [ends_bind, ends_set]
        exact (visit_unforced (show Unforced { c with marking := { c.marking with stack } } from
          unforced) top).mono fun _ _ unforced' => ih unforced'
  simp only [scan, ends_bind, ends_get]
  exact upTo _ unforced

/-- Nothing is left to scan when the references found are decided on, and none of these is scheduled. -/
theorem begin_unforced (sound : c.source.Sound) (fresh : c.marking = Marking.start c.source)
    (roots : List Nat) (policy : SoftPolicy) :
    (do markAll roots
        modifyMarking fun m => { m with deferSoft := policy != .preserve }
        scan
        latch : Action Cycle FoundReferences).Ends c
      (fun found c' => c'.marking.stack.entries = [] ∧ ∀ x, found.Has x → x ∉ c'.tables.scheduled)
      fun _ _ => True := by
  have unforced : c.Unforced := by
    rw [Unforced, fresh]
    exact fun x found => absurd found (not_has_empty x)
  obtain ⟨tracing, -⟩ : Tracing c.source (fun _ => True) c ∧ Closed c.source [] c :=
    tracing_start sound fresh
  simp only [modifyMarking, ends_bind, ends_modify]
  refine ((markAll_spec sound roots tracing fun x _ live => .start trivial live).and
    (markAll_unforced roots unforced)).imp ?_ fun _ _ _ => trivial
  rintro - c₁ ⟨⟨marks, -⟩, unforced₁⟩
  let deferred : Cycle :=
    { c₁ with marking := { c₁.marking with deferSoft := policy != .preserve } }
  have unforced₂ : deferred.Unforced := unforced₁
  have bitmaps : deferred.source.bitmaps = c.source.bitmaps := marks.tracing.cleared.bitmaps
  have fits : deferred.marking.Fits c.source := marks.tracing.fits.congr rfl rfl
  refine ((scan_empties sound bitmaps fits).and (scan_unforced unforced₂)).imp ?_ fun _ _ _ => trivial
  rintro - c₂ ⟨empty, unforced₃⟩
  simp only [latch, modifyMarking, ends_bind, ends_get, ends_modify, ends_pure]
  exact ⟨empty, unforced₃⟩

/-- All that must be held is marked before references are decided on. -/
theorem Begun.strong {found : FoundReferences} (begun : Begun roots policy start c found c')
    (empty : c'.marking.stack.entries = []) (unforced : ∀ x, found.Has x → x ∉ c.tables.scheduled)
    (strong : c.source.Strong roots c.tables.scheduled policy x) : c'.marking.isMarked x = true := by
  have settled : ∀ {x}, c'.marking.isMarked x = true → Settled c.source
      (found.soft ++ (found.weak ++ (found.phantom ++ []))) c' x :=
    fun marked => begun.closed _ ⟨marked, empty ▸ List.not_mem_nil⟩
  -- The referent of a marked reference is marked, unless the reference was found.
  have followed : ∀ {x y}, c'.marking.isMarked x = true → (c.source.kind? x).isSome = true →
      c.source.referent? x = some y → c.source.isPublished y = true →
      c'.marking.isMarked y = true ∨ ∃ kind, x ∈ found.ofKind kind := by
    intro x y marked isReference refers live
    rw [← begun.source] at refers
    rcases (settled marked).referent y isReference refers live with there | later | waits
    · exact .inl there
    · exact absurd later (begun.tracing.latched begun.latched x)
    · rw [List.append_nil, List.mem_append, List.mem_append] at waits
      rcases waits with soft | weak | phantom
      · exact .inr ⟨.soft, soft⟩
      · exact .inr ⟨.weak, weak⟩
      · exact .inr ⟨.phantom, phantom⟩
  induction strong with
  | root root live => exact begun.roots _ root live
  | child _ child live ih => exact (settled ih).children _ child live
  | scheduled _ scheduled isReference refers live ih =>
    rcases followed ih isReference refers live with there | found'
    · exact there
    · exact absurd scheduled (unforced _ found')
  | soft preserve _ isSoft refers live ih =>
    rcases followed ih (isSoft ▸ rfl) refers live with there | ⟨kind, member⟩
    · exact there
    · cases isSoft.symm.trans (begun.known kind _ member).2
      rw [show found.ofKind .soft = found.soft from rfl, begun.preserved preserve] at member
      exact absurd member List.not_mem_nil

/-! ### Deciding -/

/-- A live reference of a kind whose referent has no mark. -/
structure Ripe (s₀ : Source) (kind : ReferenceKind) (c : Cycle) (r : Nat) : Prop where
  live : s₀.isPublished r = true
  kind : s₀.kind? r = some kind
  referent : ∃ y, c.source.referent? r = some y ∧ c.marking.isMarked y = false

/-- Of the live references, only those that the predicate holds of are changed or have calls queued. -/
structure Confined (s₀ : Source) (acts : Nat → Prop) (c c' : Cycle) : Prop where
  payload : ∀ r, s₀.isPublished r = true → ¬ acts r → c'.source.payload r = c.source.payload r
  work : ∃ added, c'.tables.operations.entries = c.tables.operations.entries ++ added
    ∧ ∀ r w, (r, w) ∈ added → acts r

variable {acts acts' : Nat → Prop}

omit [ObjectModel] in
theorem confined_of_same (source : c'.source = c.source)
    (operations : c'.tables.operations = c.tables.operations) : Confined s₀ acts c c' := by
  refine ⟨fun r _ _ => by rw [source], [], ?_, fun _ _ none => absurd none List.not_mem_nil⟩
  rw [operations, List.append_nil]

omit [ObjectModel] in
theorem confined_of_preserves {α : Type} {a : Action Cycle α}
    (preserves : ∀ s t, a.Preserves fun c => c.source = s ∧ c.tables = t) (s₀ : Source)
    (acts : Nat → Prop) (c : Cycle) :
    a.Ends c (fun _ c' => Confined s₀ acts c c') fun _ c' => Confined s₀ acts c c' :=
  (preserves _ _ c ⟨rfl, rfl⟩).imp (fun _ _ same => confined_of_same same.1 (by rw [same.2]))
    fun _ _ same => confined_of_same same.1 (by rw [same.2])

omit [ObjectModel] in
theorem mark_confined (s₀ : Source) (acts : Nat → Prop) (x : Nat) (c : Cycle) : (mark x).Ends c
    (fun _ c' => Confined s₀ acts c c') fun _ c' => Confined s₀ acts c c' :=
  confined_of_preserves (fun s t => (ignoresMarks_same s t).mark x) s₀ acts c

theorem scan_confined (s₀ : Source) (acts : Nat → Prop) (c : Cycle) : scan.Ends c
    (fun _ c' => Confined s₀ acts c c') fun _ c' => Confined s₀ acts c c' :=
  confined_of_preserves (fun s t => (ignoresMarks_same s t).scan) s₀ acts c

omit [ObjectModel] in
theorem Confined.mono (confined : Confined s₀ acts c c') (wider : ∀ r, acts r → acts' r) :
    Confined s₀ acts' c c' := by
  obtain ⟨added, entries, each⟩ := confined.work
  exact ⟨fun r live still => confined.payload r live fun acted => still (wider r acted), added, entries,
    fun r w member => wider r (each r w member)⟩

omit [ObjectModel] in
theorem Confined.trans (first : Confined s₀ acts c c') (second : Confined s₀ acts c' c'') :
    Confined s₀ acts c c'' := by
  obtain ⟨added, entries, each⟩ := first.work
  obtain ⟨added', entries', each'⟩ := second.work
  refine ⟨fun r live still => (second.payload r live still).trans (first.payload r live still),
    added ++ added', ?_, fun r w member => ?_⟩
  · rw [entries', entries, List.append_assoc]
  · exact (List.mem_append.1 member).elim (each r w) (each' r w)

/-- What is ripe after deciding on references of some kind was ripe before. -/
theorem Confined.ripe (confined : Confined s₀ (Ripe s₀ kind c) c c')
    (marked : ∀ x, c.marking.isMarked x = true → c'.marking.isMarked x = true)
    (ripe : Ripe s₀ other c' r) : Ripe s₀ other c r := by
  obtain ⟨live, isKind, y, refers, unmarked⟩ := ripe
  by_cases acted : Ripe s₀ kind c r
  · cases isKind.symm.trans acted.kind
    exact acted
  · have same := confined.payload r live acted
    rw [Source.referent?, same] at refers
    refine ⟨live, isKind, y, refers, ?_⟩
    rw [← Bool.not_eq_true] at unmarked ⊢
    exact fun old => unmarked (marked y old)

theorem release_confined (tracing : Tracing s₀ start c) (ripe : Ripe s₀ kind c x)
    (refers : c.source.referent? x = some y) : (release x y kind).Ends c
      (fun _ c' => Confined s₀ (Ripe s₀ kind c) c c')
      fun _ c' => Confined s₀ (Ripe s₀ kind c) c c' := by
  have follow := mark_confined s₀ (Ripe s₀ kind c) y c
  have cleared : Confined s₀ (Ripe s₀ kind c) c { c with source := c.source.clearReferent x } := by
    refine ⟨fun r live still => ?_, [], (List.append_nil _).symm, ?_⟩
    · have other : r ≠ x := by
        rintro rfl
        exact still ripe
      have steady := tracing.cleared.steady
      have here : ∀ z, s₀.isPublished z = true → c.source.isPublished z = true :=
        fun z live' => (steady.published z).trans live'
      have some_referent : (c.source.referent? x).isSome = true := by rw [refers]; rfl
      exact (steady.sound.payload_clearReferent (here x ripe.live) some_referent
        (here r live)).trans (if_neg other)
    · exact fun _ _ none => absurd none List.not_mem_nil
  exact ends_release (fun _ => follow) fun _ => cleared

omit [ObjectModel] in
theorem queueWork_confined {work : ReferenceWork} (confined : Confined s₀ acts c c') (acted : acts x) :
    (queueWork x work).Ends c' (fun _ c'' => Confined s₀ acts c c'')
      fun _ c'' => Confined s₀ acts c c'' := by
  refine ends_queueWork (fun _ => confined) confined fun _ push => ?_
  refine confined.trans ⟨fun _ _ _ => rfl, [(x, work)], entries_scheduled push, fun r w member => ?_⟩
  cases List.mem_singleton.1 member
  exact acted

theorem handleReference_confined (tracing : Tracing s₀ start c)
    (marked : c.marking.isMarked x = true) (isReference : s₀.kind? x = some kind) :
    (handleReference kind policy x).Ends c (fun _ c' => Confined s₀ (Ripe s₀ kind c) c c')
      fun _ c' => Confined s₀ (Ripe s₀ kind c) c c' := by
  have same : Confined s₀ (Ripe s₀ kind c) c c := confined_of_same rfl rfl
  -- Counting the reference changes neither what is confined nor what is ripe.
  have before : ∀ {color c'}, Confined s₀ (Ripe s₀ kind { c with tables := { c.tables with color } })
      { c with tables := { c.tables with color } } c' → Confined s₀ (Ripe s₀ kind c) c c' := by
    intro color c' confined
    have same := confined.mono fun r here => (⟨here.live, here.kind, here.referent⟩ : Ripe s₀ kind c r)
    exact ⟨same.payload, same.work⟩
  apply ends_handleReference
  case bare => exact fun _ => same
  case kept => exact fun _ _ => same
  case overflow => exact fun _ => same
  case held =>
    intro y color _ _ _
    exact (mark_confined s₀ _ y _).imp (fun _ _ => before) fun _ _ => before
  case decided =>
    intro y color refers bare
    have ripe : Ripe s₀ kind c x := ⟨tracing.live marked, isReference, y, refers, bare⟩
    have counted := (tracing.retable { c.tables with color }).tracing
    have ripe' : Ripe s₀ kind { c with tables := { c.tables with color } } x :=
      ⟨ripe.live, isReference, ripe.referent⟩
    refine (release_confined counted ripe' refers).imp (fun work c' confined => ?_) fun _ _ => before
    exact queueWork_confined (before confined) ripe

theorem handleEach_confined (sound : s₀.Sound) (references : List Nat) (tracing : Tracing s₀ start c)
    (known : ∀ x ∈ references, c.marking.isMarked x = true ∧ s₀.kind? x = some kind) :
    (handleEach kind policy references).Ends c (fun _ c' => Confined s₀ (Ripe s₀ kind c) c c')
      fun _ c' => Confined s₀ (Ripe s₀ kind c) c c' := by
  induction references generalizing c with
  | nil => exact ends_pure.2 (confined_of_same rfl rfl)
  | cons x rest ih =>
    obtain ⟨marked, isReference⟩ := known x List.mem_cons_self
    simp only [handleEach, ends_bind]
    refine ((handleReference_spec sound tracing marked (isReference ▸ rfl)).and
      (handleReference_confined tracing marked isReference)).imp ?_ fun _ _ both => both.2
    rintro - c₁ ⟨⟨handles, -⟩, confined⟩
    have more : ∀ {c₂}, Confined s₀ (Ripe s₀ kind c₁) c₁ c₂ → Confined s₀ (Ripe s₀ kind c) c c₂ :=
      fun confined' => confined.trans (confined'.mono fun r ripe => confined.ripe handles.marked ripe)
    refine (ih handles.tracing fun y later => ?_).imp (fun _ _ => more) fun _ _ => more
    exact (known y (List.mem_cons_of_mem _ later)).imp_left (handles.marked y)

theorem handleReferences_confined (sound : s₀.Sound) (references : List Nat)
    (tracing : Tracing s₀ start c)
    (known : ∀ x ∈ references, c.marking.isMarked x = true ∧ s₀.kind? x = some kind) :
    (handleReferences kind policy references).Ends c
      (fun _ c' => Confined s₀ (Ripe s₀ kind c) c c')
      fun _ c' => Confined s₀ (Ripe s₀ kind c) c c' := by
  simp only [handleReferences, ends_bind]
  refine (handleEach_confined sound references tracing known).mono fun _ c₁ confined => ?_
  exact (scan_confined s₀ (Ripe s₀ kind c) c₁).imp (fun _ _ => confined.trans)
    fun _ _ => confined.trans

theorem handleSoft_confined (sound : s₀.Sound) (references : List Nat) (tracing : Tracing s₀ start c)
    (known : ∀ x ∈ references, c.marking.isMarked x = true ∧ s₀.kind? x = some .soft) :
    (handleSoft policy references).Ends c
      (fun _ c' => Confined s₀ (fun r => Ripe s₀ .soft c r ∧ policy ≠ .preserve) c c')
      fun _ c' => Confined s₀ (fun r => Ripe s₀ .soft c r ∧ policy ≠ .preserve) c c' := by
  simp only [handleSoft, ends_ite, ends_pure, ends_bind, ends_modify]
  refine ⟨fun _ => confined_of_same rfl rfl, fun decides => ?_⟩
  refine (handleReferences_confined sound references tracing known).imp (fun _ c₁ confined => ?_)
    fun _ c₁ confined => confined.mono fun r ripe => ⟨ripe, decides⟩
  have same := confined.mono fun r ripe => (⟨ripe, decides⟩ : Ripe s₀ .soft c r ∧ policy ≠ .preserve)
  exact ⟨same.payload, same.work⟩

omit [ObjectModel] in
theorem makePending_confined (s₀ : Source) (acts : Nat → Prop) (objects : List Nat) (c : Cycle) :
    (makePending objects).Ends c (fun _ c' => Confined s₀ acts c c')
      fun _ c' => Confined s₀ acts c c' := by
  induction objects generalizing c with
  | nil => exact ends_pure.2 (confined_of_same rfl rfl)
  | cons x rest ih =>
    simp only [makePending, ends_bind, ends_get]
    split
    · exact ends_throw.2 (confined_of_same rfl rfl)
    case h_2 pending _ =>
      simp only [modifyTables, ends_bind, ends_modify]
      have queued : Confined s₀ acts c { c with tables := { c.tables with pending } } :=
        confined_of_same rfl rfl
      refine (mark_confined s₀ acts x _).imp (fun _ c₁ marked => ?_)
        fun _ _ marked => queued.trans marked
      have sofar := queued.trans marked
      exact (ih c₁).imp (fun _ _ more => sofar.trans more) fun _ _ more => sofar.trans more

theorem scheduleFinalizations_confined (s₀ : Source) (acts : Nat → Prop) (c : Cycle) :
    scheduleFinalizations.Ends c (fun _ c' => Confined s₀ acts c c')
      fun _ c' => Confined s₀ acts c c' := by
  simp only [scheduleFinalizations, WorkQueue.takeWhere, modifyTables, ends_bind, ends_get,
    ends_modify, ends_pure]
  generalize finalizables : ({ c.tables with finalizable := _ } : WorkTables) = tables
  have taken : Confined s₀ acts c { c with tables } :=
    confined_of_same rfl (by rw [← finalizables])
  refine (makePending_confined s₀ acts _ _).imp (fun _ c₁ pended => ?_)
    fun _ _ pended => taken.trans pended
  have sofar := taken.trans pended
  exact (scan_confined s₀ acts c₁).imp (fun _ _ more => sofar.trans more)
    fun _ _ more => sofar.trans more

/-- Deciding on references of one kind leaves the others alone. -/
theorem Confined.same (confined : Confined s₀ (Ripe s₀ kind c) c c') (live : s₀.isPublished r = true)
    (isOther : s₀.kind? r = some other) (differs : other ≠ kind) :
    c'.source.referent? r = c.source.referent? r := by
  have still : ¬ Ripe s₀ kind c r := fun ripe =>
    differs (Option.some.inj (isOther.symm.trans ripe.kind))
  rw [Source.referent?, confined.payload r live still, Source.referent?]

/-- What is ripe when references are first decided on is loose, but for phantom references. -/
theorem Begun.loose {found : FoundReferences} (begun : Begun roots policy start c found c')
    (empty : c'.marking.stack.entries = []) (unforced : ∀ x, found.Has x → x ∉ c.tables.scheduled)
    (differs : kind ≠ .phantom) (ripe : Ripe c.source kind c' r) :
    c.source.Loose c.tables roots policy r := by
  obtain ⟨live, isKind, y, refers, unmarked⟩ := ripe
  refine ⟨live, y, begun.source ▸ refers, fun strong => ?_, fun phantom => ?_⟩
  · rw [begun.strong empty unforced strong] at unmarked
    cases unmarked
  · exact absurd (Option.some.inj (isKind.symm.trans phantom)) differs

theorem decide_confined (sound : c.source.Sound) {found : FoundReferences}
    (begun : Begun roots policy start c found c') (empty : c'.marking.stack.entries = [])
    (unforced : ∀ x, found.Has x → x ∉ c.tables.scheduled)
    (startFinalizable : ∀ x ∈ c.tables.finalizable.entries, start x) :
    (do handleSoft policy found.soft
        handleReferences .weak policy found.weak
        let _ ← scheduleFinalizations
        handleReferences .phantom policy found.phantom : Action Cycle Unit).Ends c'
      (fun _ c'' => Confined c.source (c.source.Dropped c.tables roots policy) c' c'')
      fun _ c'' => Confined c.source (c.source.Dropped c.tables roots policy) c' c'' := by
  have loose : ∀ {kind r}, kind ≠ .phantom → Ripe c.source kind c' r →
      c.source.Loose c.tables roots policy r := begun.loose empty unforced
  have hard : ∀ {kind r}, kind ≠ .soft → c.source.kind? r = some kind → policy = .preserve →
      c.source.kind? r ≠ some .soft :=
    fun differs isKind _ isSoft => differs (Option.some.inj (isKind.symm.trans isSoft))
  simp only [ends_bind]
  have softly : (handleSoft policy found.soft).Ends c' _ _ :=
    handleSoft_confined sound _ begun.tracing (begun.listed .soft begun.undecided)
  have dropped₁ : ∀ {c₁}, Confined c.source (fun r => Ripe c.source .soft c' r ∧ policy ≠ .preserve)
      c' c₁ → Confined c.source (c.source.Dropped c.tables roots policy) c' c₁ :=
    fun confined => confined.mono fun r both =>
      ⟨loose (by decide) both.1, fun preserve => absurd preserve both.2⟩
  refine ((handleSoft_spec sound _ begun.tracing begun.closed
    (begun.references .soft begun.undecided) begun.preserved).and softly).imp ?_ fun _ _ both => dropped₁ both.2
  rintro - c₁ ⟨⟨soft, closed₁⟩, softened⟩
  have decides₁ := soft.toDecides
  have confined₁ : Confined c.source (Ripe c.source .soft c') c' c₁ := softened.mono fun _ => And.left
  have dropped₂ : ∀ {c₂}, Confined c.source (Ripe c.source .weak c₁) c₁ c₂ →
      Confined c.source (c.source.Dropped c.tables roots policy) c' c₂ :=
    fun confined => (dropped₁ softened).trans <| confined.mono fun r ripe =>
      ⟨loose (by decide) (confined₁.ripe decides₁.marked ripe), hard (by decide) ripe.kind⟩
  refine ((handleReferences_spec sound _ soft.tracing closed₁
    (begun.references .weak decides₁)).and
      (handleReferences_confined sound _ soft.tracing (begun.listed .weak decides₁))).imp ?_
      fun _ _ both => dropped₂ both.2
  rintro - c₂ ⟨⟨weak, closed₂⟩, confined₂⟩
  have decides₂ := decides₁.trans weak.toDecides
  have handles := soft.trans weak
  refine ((scheduleFinalizations_spec sound weak.tracing closed₂
    (begun.reached startFinalizable handles)).and
      (scheduleFinalizations_confined c.source _ c₂)).imp ?_
        fun _ _ both => (dropped₂ confined₂).trans both.2
  rintro - c₃ ⟨⟨finals, closed₃, source₃, -, marked₃⟩, confined₃⟩
  have decides₃ := decides₂.trans finals
  have dropped₄ : ∀ {c₄}, Confined c.source (Ripe c.source .phantom c₃) c₃ c₄ →
      Confined c.source (c.source.Dropped c.tables roots policy) c' c₄ := by
    refine fun confined => ((dropped₂ confined₂).trans confined₃).trans (confined.mono ?_)
    rintro r ⟨live, isPhantom, y, refers, unmarked⟩
    rw [source₃, confined₂.same live isPhantom (by decide), confined₁.same live isPhantom (by decide),
      begun.source] at refers
    rw [← Bool.not_eq_true] at unmarked
    refine ⟨⟨live, y, refers, fun strong => unmarked ?_, fun _ there entry => unmarked ?_⟩,
      hard (by decide) isPhantom⟩
    · exact decides₃.marked y (begun.strong empty unforced strong)
    · exact marked₃ y (begun.finalizable handles ▸ entry) there
  exact (handleReferences_confined sound _ finals.tracing (begun.listed .phantom decides₃)).imp
    (fun _ _ => dropped₄) fun _ _ => dropped₄

/-- A collection lets go of loose references of the kinds that it decides on, and of no others. -/
theorem run_confined (sound : c.source.Sound) (fresh : c.marking = Marking.start c.source)
    (roots : List Nat) (policy : SoftPolicy) : (run roots policy).Ends c
      (fun _ c' => Confined c.source (c.source.Dropped c.tables roots policy) c c')
      fun _ c' => Confined c.source (c.source.Dropped c.tables roots policy) c c' := by
  let start : Nat → Prop := fun x => x ∈ roots ∨ x ∈ c.tables.finalizable.entries
  have startRoots : ∀ x ∈ roots, start x := fun x root => .inl root
  have startFinalizable : ∀ x ∈ c.tables.finalizable.entries, start x := fun x entry => .inr entry
  have begins : ∀ s t, Preserves (fun c => c.source = s ∧ c.tables = t) (do
      markAll roots
      modifyMarking fun m => { m with deferSoft := policy != .preserve }
      scan
      latch : Action Cycle FoundReferences) := fun s t =>
    have ignores := ignoresMarks_same s t
    (ignores.markAll roots).then fun _ => (ignores.modifyMarking _).then fun _ =>
      ignores.scan.then fun _ => ignores.latch
  have traced : (trace roots policy).Ends c
      (fun _ c' => Confined c.source (c.source.Dropped c.tables roots policy) c c')
      fun _ c' => Confined c.source (c.source.Dropped c.tables roots policy) c c' := by
    have all := (((begin_spec sound fresh policy startRoots).and
      (begin_unforced sound fresh roots policy)).and
        (confined_of_preserves begins c.source (c.source.Dropped c.tables roots policy) c)).imp
      (fun found c' ⟨⟨begun, empty, unforced⟩, same⟩ =>
        (decide_confined sound begun empty (begun.tables ▸ unforced) startFinalizable).imp
          (fun _ c'' confined => same.trans confined) fun _ c'' confined => same.trans confined)
      fun _ _ both => both.2
    simpa only [trace, ends_bind] using all
  -- The sweep writes to no object and queues nothing.
  have swept : ∀ {gone c₁ c₂}, Sweeps gone c₁ c₂ →
      Confined c.source (c.source.Dropped c.tables roots policy) c₁ c₂ := by
    intro gone c₁ c₂ sweeps
    obtain ⟨scheduled, tables⟩ := sweeps.tables
    refine ⟨fun r _ _ => Source.payload_congr sweeps.memory r, [], ?_, ?_⟩
    · rw [tables, List.append_nil]
    · exact fun _ _ none => absurd none List.not_mem_nil
  simp only [run, finish, ends_bind, ends_get, ends_require, ends_pure]
  refine ((trace_spec sound fresh policy startRoots startFinalizable).and traced).imp ?_
    fun _ _ both => both.2
  rintro - c₁ ⟨traces, confined⟩
  refine (sweep_spec sound traces.tracing).imp ?_ ?_
  · rintro freed c₂ ⟨-, gone, sweeps⟩
    exact ⟨fun _ => confined.trans (swept sweeps), fun _ => confined.trans (swept sweeps)⟩
  · rintro cause c₂ ⟨⟨gone, -, sweeps⟩, -⟩
    exact confined.trans (swept sweeps)

end Cycle

end ManagedHeap
