import ManagedHeap.Proofs.Clearing
import ManagedHeap.Proofs.Heaps
import ManagedHeap.Proofs.Scheduling
import Mathlib.Data.List.Perm.Subperm

/-!
What a collection enters into the work tables, also where it breaks off. Each reference is found once,
and calls are queued for references that were found, in the order in which they were. What is in a table
afterwards lives.
-/

namespace ManagedHeap

/-! ### The references found -/

namespace FoundReferences

variable {f : FoundReferences} {x : Nat}

/-- The references found, in the order in which they are decided on. -/
def all (f : FoundReferences) : List Nat := f.soft ++ (f.weak ++ f.phantom)

theorem mem_all : x ∈ f.all ↔ f.Has x := by
  rw [all, List.mem_append, List.mem_append]
  constructor
  · rintro (soft | weak | phantom)
    · exact ⟨.soft, soft⟩
    · exact ⟨.weak, weak⟩
    · exact ⟨.phantom, phantom⟩
  · rintro ⟨kind, found⟩
    cases kind with
    | soft => exact .inl found
    | weak => exact .inr (.inl found)
    | phantom => exact .inr (.inr found)

theorem all_add (f : FoundReferences) (kind : ReferenceKind) (x : Nat) :
    (f.add kind x).all.Perm (x :: f.all) := by
  cases kind with
  | soft =>
    rw [add, all, all, List.append_assoc]
    exact List.perm_middle
  | weak =>
    rw [add, all, all, List.append_assoc, ← List.append_assoc, ← List.append_assoc f.soft]
    exact List.perm_middle
  | phantom =>
    rw [add, all, all, ← List.append_assoc, ← List.append_assoc, ← List.append_assoc]
    exact List.perm_append_singleton _ _

end FoundReferences

/-- Live references with referents, each once and none of them scheduled. -/
structure Source.Picks [ObjectModel] (s : Source) (scheduled references : List Nat) : Prop where
  once : references.Nodup
  live : ∀ r ∈ references, s.isPublished r = true
  refers : ∀ r ∈ references, (s.referent? r).isSome = true
  unscheduled : ∀ r ∈ references, r ∉ scheduled

theorem Source.Picks.sublist [ObjectModel] {s : Source} {scheduled references some : List Nat}
    (picks : s.Picks scheduled references) (fewer : some.Sublist references) :
    s.Picks scheduled some where
  once := picks.once.sublist fewer
  live r member := picks.live r (fewer.subset member)
  refers r member := picks.refers r (fewer.subset member)
  unscheduled r member := picks.unscheduled r (fewer.subset member)

theorem Source.picks_nil [ObjectModel] (s : Source) (scheduled : List Nat) : s.Picks scheduled [] :=
  ⟨List.nodup_nil, nofun, nofun, nofun⟩

namespace Cycle

open Action

variable [ObjectModel] {s₀ : Source} {c c' : Cycle} {x : Nat}

/-- Before the latch. What is on the stack is there once, and the references found were taken from
it. -/
structure FindsOnce (s₀ : Source) (c : Cycle) : Prop where
  bitmaps : c.source.bitmaps = s₀.bitmaps
  fits : c.marking.Fits s₀
  stacked : ∀ x ∈ c.marking.stack.entries, c.marking.isMarked x = true
  nodup : c.marking.stack.entries.Nodup
  once : c.marking.found.all.Nodup
  black : ∀ x, c.marking.found.Has x → c.Black x
  refers : ∀ x, c.marking.found.Has x → (c.source.referent? x).isSome = true

/-- The object was scanned and is no reference found. -/
def Passed (c : Cycle) (x : Nat) : Prop := c.Black x ∧ ¬ c.marking.found.Has x

/-- Marking an object changes nothing for those that were scanned. -/
theorem mark_findsOnce (sound : s₀.Sound) (finds : FindsOnce s₀ c) (y : Nat) : (mark y).Ends c
    (fun _ c' => FindsOnce s₀ c' ∧ ∀ x, c.Passed x → c'.Passed x) fun _ _ => True := by
  refine (mark_cases sound finds.bitmaps finds.fits).imp ?_ fun _ _ _ => trivial
  rintro - c' (⟨rfl, -⟩ | ⟨-, unmarked, -, i, number, here, covered, rfl⟩)
  · exact ⟨finds, fun _ passed => passed⟩
  · have marked : ∀ z, c.marking.isMarked z = true →
        (c.marking.marks.modify i (·.insert y)).any (·.test z) = true :=
      fun z before => (Marking.isMarked_insert finds.fits here covered).2 (.inr before)
    have other : ∀ z, c.marking.isMarked z = true → z ≠ y := by
      rintro z before rfl
      rw [unmarked] at before
      cases before
    -- What was scanned had a mark, so that it is not what is put on the stack.
    have still : ∀ z, c.Black z → z ∉ y :: c.marking.stack.entries := by
      intro z black member
      rcases List.mem_cons.1 member with same | stacked
      · exact other z black.1 same
      · exact black.2 stacked
    refine ⟨⟨finds.bitmaps, finds.fits.insert here covered rfl rfl, ?_, ?_, finds.once, ?_, finds.refers⟩,
      fun x passed => ⟨⟨marked x passed.1.1, still x passed.1⟩, passed.2⟩⟩
    · intro z member
      rcases List.mem_cons.1 member with rfl | stacked
      · exact (Marking.isMarked_insert finds.fits here covered).2 (.inl rfl)
      · exact marked z (finds.stacked z stacked)
    · exact List.nodup_cons.2 ⟨fun stacked => other y (finds.stacked y stacked) rfl, finds.nodup⟩
    · exact fun z found => ⟨marked z (finds.black z found).1, still z (finds.black z found)⟩

theorem markAll_findsOnce (sound : s₀.Sound) (objects : List Nat) (finds : FindsOnce s₀ c) :
    (markAll objects).Ends c (fun _ c' => FindsOnce s₀ c' ∧ ∀ x, c.Passed x → c'.Passed x)
      fun _ _ => True := by
  induction objects generalizing c with
  | nil => exact ends_pure.2 ⟨finds, fun _ passed => passed⟩
  | cons y rest ih =>
    rw [markAll, ends_bind]
    refine (mark_findsOnce sound finds y).mono ?_
    rintro - c₁ ⟨finds₁, passed₁⟩
    exact (ih finds₁).mono fun _ _ both => ⟨both.1, fun x passed => both.2 x (passed₁ x passed)⟩

/-- An object that is looked at may be found, and it was not before. -/
theorem visit_findsOnce (sound : s₀.Sound) (finds : FindsOnce s₀ c) (passed : c.Passed x) :
    (visit x).Ends c (fun _ c' => FindsOnce s₀ c') fun _ _ => True := by
  simp only [visit, ends_bind, ends_get]
  refine (markAll_findsOnce sound _ finds).mono ?_
  rintro - c₁ ⟨finds₁, still⟩
  have passed₁ := still x passed
  split
  case h_1 kind referent _ refers =>
    have follow := (mark_findsOnce sound finds₁ referent).mono fun _ _ both => both.1
    simp only [ends_ite]
    refine ⟨fun _ => follow, fun _ => ⟨fun _ => follow, fun _ => ends_modify.2 ?_⟩⟩
    refine ⟨finds₁.bitmaps, finds₁.fits.congr rfl rfl, finds₁.stacked, finds₁.nodup, ?_, ?_, ?_⟩
    · rw [(FoundReferences.all_add _ kind x).nodup_iff, List.nodup_cons]
      exact ⟨fun found => passed₁.2 (FoundReferences.mem_all.1 found), finds₁.once⟩
    · rintro y ⟨other, found⟩
      rcases mem_add.1 found with before | ⟨-, rfl⟩
      · exact finds₁.black y ⟨other, before⟩
      · exact passed₁.1
    · rintro y ⟨other, found⟩
      rcases mem_add.1 found with before | ⟨-, rfl⟩
      · exact finds₁.refers y ⟨other, before⟩
      · exact refers ▸ rfl
  case h_2 => exact ends_pure.2 finds₁

theorem scan_findsOnce (sound : s₀.Sound) (finds : FindsOnce s₀ c) :
    scan.Ends c (fun _ c' => FindsOnce s₀ c') fun _ _ => True := by
  have upTo : ∀ (budget : Nat) {c : Cycle}, FindsOnce s₀ c →
      (scanUpTo budget).Ends c (fun _ c' => FindsOnce s₀ c') fun _ _ => True := by
    intro budget
    induction budget with
    | zero => exact fun finds => ends_pure.2 finds
    | succ budget ih =>
      intro c finds
      rw [scanUpTo, ends_bind, ends_get]
      cases entries : c.marking.stack.entries with
      | nil =>
        simp only [MarkStack.pop?, entries]
        exact ends_pure.2 finds
      | cons x rest =>
        simp only [MarkStack.pop?, entries, ends_bind, ends_set]
        obtain ⟨bitmaps, fits, stacked, nodup, once, black, refers⟩ := finds
        rw [entries] at stacked nodup
        obtain ⟨taken, rest_nodup⟩ := List.nodup_cons.1 nodup
        let stack := { c.marking.stack with entries := rest, room := c.marking.stack.room + 1 }
        have popped : FindsOnce s₀ { c with marking := { c.marking with stack } } :=
          ⟨bitmaps, fits.congr rfl rfl, fun y later => stacked y (List.mem_cons_of_mem _ later),
            rest_nodup, once, fun y found => ⟨(black y found).1, fun later =>
              (black y found).2 (entries ▸ List.mem_cons_of_mem _ later)⟩, refers⟩
        have passed : Passed { c with marking := { c.marking with stack } } x :=
          ⟨⟨stacked x List.mem_cons_self, taken⟩, fun found =>
            (black x found).2 (entries ▸ List.mem_cons_self)⟩
        exact (visit_findsOnce sound popped passed).mono fun _ _ finds' => ih finds'
  simp only [scan, ends_bind, ends_get]
  exact upTo _ finds

variable {roots : List Nat} {policy : SoftPolicy}

theorem findsOnce_start (sound : c.source.Sound) (fresh : c.marking = Marking.start c.source) :
    FindsOnce c.source c := by
  have none : ∀ x, ¬ c.marking.found.Has x := by
    rw [fresh]
    exact not_has_empty
  refine ⟨rfl, fresh ▸ fits_start sound, ?_, ?_, ?_, fun x found => absurd found (none x),
    fun x found => absurd found (none x)⟩
  · rw [fresh]
    exact fun x stacked => absurd stacked List.not_mem_nil
  · rw [fresh]
    exact List.nodup_nil
  · rw [fresh]
    exact List.nodup_nil

/-- What is found before references are decided on, is found once. -/
theorem begin_findsOnce (sound : c.source.Sound) (fresh : c.marking = Marking.start c.source)
    (roots : List Nat) (policy : SoftPolicy) :
    (do markAll roots
        modifyMarking fun m => { m with deferSoft := policy != .preserve }
        scan
        latch : Action Cycle FoundReferences).Ends c
      (fun found c' => found.all.Nodup ∧ ∀ r ∈ found.all, (c'.source.referent? r).isSome = true)
      fun _ _ => True := by
  simp only [modifyMarking, ends_bind, ends_modify]
  refine (markAll_findsOnce sound roots (findsOnce_start sound fresh)).mono ?_
  rintro - c₁ ⟨⟨bitmaps, fits, stacked, nodup, once, black, refers⟩, -⟩
  have finds₁ : FindsOnce c.source
      { c₁ with marking := { c₁.marking with deferSoft := policy != .preserve } } :=
    ⟨bitmaps, fits.congr rfl rfl, stacked, nodup, once, black, refers⟩
  refine (scan_findsOnce sound finds₁).mono ?_
  rintro - c₂ finds
  simp only [latch, modifyMarking, ends_bind, ends_get, ends_modify, ends_pure]
  exact ⟨finds.once, fun r member => finds.refers r (FoundReferences.mem_all.1 member)⟩

theorem begin_picks (sound : c.source.Sound) (fresh : c.marking = Marking.start c.source)
    (roots : List Nat) (policy : SoftPolicy) :
    (do markAll roots
        modifyMarking fun m => { m with deferSoft := policy != .preserve }
        scan
        latch : Action Cycle FoundReferences).Ends c
      (fun found _ => c.source.Picks c.tables.scheduled found.all) fun _ _ => True := by
  refine (((begin_spec sound fresh policy fun x root => root).and
    (begin_unforced sound fresh roots policy)).and
      (begin_findsOnce sound fresh roots policy)).imp ?_ fun _ _ _ => trivial
  rintro found c' ⟨⟨begun, -, unforced⟩, once, refers⟩
  rw [begun.tables] at unforced
  rw [begun.source] at refers
  refine ⟨once, fun r member => ?_, refers, fun r member => ?_⟩
  · obtain ⟨kind, found⟩ := FoundReferences.mem_all.1 member
    exact begun.tracing.live (begun.known kind r found).1
  · exact unforced r (FoundReferences.mem_all.1 member)

end Cycle

/-! ### Filling the tables -/

/-- Calls were queued for some references of a list, in their order, and these are scheduled besides
those that were. Objects that waited for their finalizers wait, each once more at most. -/
structure WorkTables.Filled (references : List Nat) (t t' : WorkTables) : Prop where
  waiting : (t'.finalizable.entries ++ t'.pending.entries).Subperm
    (t.finalizable.entries ++ t.pending.entries)
  queued : ∃ added : List (Nat × ReferenceWork), (added.map Prod.fst).Sublist references
    ∧ t'.operations.entries = t.operations.entries ++ added
    ∧ ∀ x, x ∈ t'.scheduled ↔ x ∈ t.scheduled ∨ x ∈ added.map Prod.fst

namespace WorkTables

variable {t t' t'' : WorkTables} {l l' : List Nat} {x y : Nat}

theorem Filled.mono (filled : t.Filled l t') (sublist : l.Sublist l') : t.Filled l' t' := by
  obtain ⟨added, some, rest⟩ := filled.queued
  exact ⟨filled.waiting, added, some.trans sublist, rest⟩

theorem Filled.trans (first : t.Filled l t') (second : t'.Filled l' t'') :
    t.Filled (l ++ l') t'' := by
  obtain ⟨added, some, operations, scheduled⟩ := first.queued
  obtain ⟨added', some', operations', scheduled'⟩ := second.queued
  refine ⟨second.waiting.trans first.waiting, added ++ added', ?_, ?_, fun x => ?_⟩
  · rw [List.map_append]
    exact some.append some'
  · rw [operations', operations, List.append_assoc]
  · rw [scheduled', scheduled, List.map_append, List.mem_append, or_assoc]

/-- No calls were queued. -/
theorem filled_of_same (waiting : (t'.finalizable.entries ++ t'.pending.entries).Subperm
      (t.finalizable.entries ++ t.pending.entries))
    (operations : t'.operations = t.operations) (scheduled : t'.scheduled = t.scheduled) :
    t.Filled [] t' := by
  refine ⟨waiting, [], List.Sublist.refl _, ?_, fun x => ?_⟩
  · rw [operations, List.append_nil]
  · rw [scheduled, List.map_nil]
    simp

theorem Filled.refl (t : WorkTables) : t.Filled [] t := filled_of_same (List.Subperm.refl _) rfl rfl

theorem mem_schedule : x ∈ (t.schedule y).scheduled ↔ x ∈ t.scheduled ∨ x = y := by
  unfold schedule
  split
  case isTrue known =>
    rw [List.contains_iff_mem] at known
    constructor
    · exact .inl
    · rintro (here | rfl)
      · exact here
      · exact known
  case isFalse => simp

end WorkTables

namespace Cycle

open Action

variable {α β : Type} {l l' : List Nat} {x : Nat}

/-- Wherever the action ends, no more was done to the tables than to queue calls for references of the
list. -/
def Fills (l : List Nat) (a : Action Cycle α) : Prop :=
  ∀ c, a.Ends c (fun _ c' => c.tables.Filled l c'.tables) fun _ c' => c.tables.Filled l c'.tables

theorem Fills.then {a : Action Cycle α} {next : α → Action Cycle β} (first : Fills l a)
    (rest : ∀ value, Fills l' (next value)) : Fills (l ++ l') (a >>= next) := by
  intro c
  rw [ends_bind]
  refine (first c).imp (fun value c₁ filled => ?_) fun _ _ filled => ?_
  · exact (rest value c₁).imp (fun _ _ more => filled.trans more) fun _ _ more => filled.trans more
  · exact filled.mono (List.sublist_append_left l l')

/-- An action that leaves the tables alone comes first. -/
theorem Fills.next {a : Action Cycle α} {next : α → Action Cycle β} (first : Fills [] a)
    (rest : ∀ value, Fills l (next value)) : Fills l (a >>= next) := first.then rest

theorem Fills.mono {a : Action Cycle α} (fills : Fills l a) (sublist : l.Sublist l') : Fills l' a :=
  fun c => (fills c).imp (fun _ _ filled => filled.mono sublist) fun _ _ filled => filled.mono sublist

theorem fills_pure (value : α) : Fills [] (pure value) := fun c => ends_pure.2 (.refl c.tables)

theorem fills_get : Fills [] (get : Action Cycle Cycle) := fun c => ends_get.2 (.refl c.tables)

theorem fills_modify {change : Cycle → Cycle} (same : ∀ c, (change c).tables = c.tables) :
    Fills [] (modify change) := fun c => ends_modify.2 (same c ▸ .refl c.tables)

theorem fills_modifyMarking (change : Marking → Marking) : Fills [] (modifyMarking change) :=
  fills_modify fun _ => rfl

theorem mark_tables (x : Nat) (c : Cycle) : (mark x).Ends c (fun _ c' => c'.tables = c.tables)
    fun _ c' => c'.tables = c.tables := ends_mark rfl (fun _ => rfl) fun _ _ _ => rfl

theorem fills_mark (x : Nat) : Fills [] (mark x) := fun c =>
  (mark_tables x c).imp (fun _ _ same => same ▸ .refl c.tables) fun _ _ same => same ▸ .refl c.tables

theorem fills_markAll (objects : List Nat) : Fills [] (markAll objects) := by
  induction objects with
  | nil => exact fills_pure ()
  | cons x rest ih => exact (fills_mark x).next fun _ => ih

theorem fills_latch : Fills [] latch :=
  fills_get.next fun _ => (fills_modifyMarking _).next fun _ => fills_pure _

theorem fills_takeTurn : Fills [] takeTurn := fun c =>
  ends_takeTurn (fun _ => WorkTables.filled_of_same (List.Subperm.refl _) rfl rfl) fun _ => .refl c.tables

/-- The reference is scheduled with the calls that are queued for it. -/
theorem fills_queueWork (x : Nat) (work : ReferenceWork) : Fills [x] (queueWork x work) := by
  intro c
  have nothing : c.tables.Filled [x] c.tables := (WorkTables.Filled.refl c.tables).mono (List.nil_sublist _)
  refine ends_queueWork (fun _ => nothing) nothing fun {operations} _ push => ?_
  obtain ⟨finalizable, pending⟩ := schedule_keeps { c.tables with operations } x
  refine ⟨?_, [(x, work)], List.Sublist.refl _, entries_scheduled push, fun y => ?_⟩
  · rw [finalizable, pending]
  · rw [WorkTables.mem_schedule, List.map_singleton, List.mem_singleton]

variable [ObjectModel] {kind : ReferenceKind} {policy : SoftPolicy}

theorem fills_visit (x : Nat) : Fills [] (visit x) := by
  refine fills_get.next fun c => (fills_markAll _).next fun _ => fills_get.next fun c => ?_
  split
  · split
    · exact fills_mark _
    · split
      · exact fills_mark _
      · exact fills_modify fun _ => rfl
  · exact fills_pure ()

theorem fills_scanUpTo (budget : Nat) : Fills [] (scanUpTo budget) := by
  induction budget with
  | zero => exact fills_pure ()
  | succ budget ih =>
    intro c
    simp only [scanUpTo]
    rw [ends_bind, ends_get]
    split
    · exact ends_pure.2 (.refl c.tables)
    · rw [ends_bind, ends_set]
      exact ((fills_visit _).next fun _ => ih) _

theorem fills_scan : Fills [] scan := fills_get.next fun _ => fills_scanUpTo _

theorem fills_release (x referent : Nat) (kind : ReferenceKind) :
    Fills [] (release x referent kind) := fun c =>
  ends_release (fun _ => fills_mark referent c) fun _ => .refl c.tables

theorem fills_handleReference (x : Nat) : Fills [x] (handleReference kind policy x) := by
  have decides : ∀ referent, Fills [x] (do queueWork x (← release x referent kind)) :=
    fun referent => (fills_release x referent kind).next fun work => fills_queueWork x work
  have nothing : ∀ {a : Action Cycle Unit}, Fills [] a → Fills [x] a := fun fills =>
    fills.mono (List.nil_sublist _)
  refine fills_get.next fun c => ?_
  split
  case h_2 => exact nothing (fills_pure ())
  case h_1 referent _ =>
    split
    · exact nothing (fills_pure ())
    · split
      · refine fills_takeTurn.next fun mine => ?_
        split
        · exact nothing ((fills_mark _).next fun _ => fills_pure ())
        · exact decides referent
      · exact decides referent

theorem fills_handleEach (l : List Nat) : Fills l (handleEach kind policy l) := by
  induction l with
  | nil => exact fills_pure ()
  | cons x rest ih => exact (fills_handleReference x).then fun _ => ih

theorem fills_handleReferences (l : List Nat) : Fills l (handleReferences kind policy l) := by
  have fills : Fills (l ++ []) (handleReferences kind policy l) :=
    (fills_handleEach l).then fun _ => fills_scan
  rwa [List.append_nil] at fills

theorem fills_handleSoft (l : List Nat) : Fills l (handleSoft policy l) := by
  unfold handleSoft
  split
  · exact (fills_pure ()).mono (List.nil_sublist l)
  · have decided : Fills [] (modify fun c : Cycle => { c with softDecided := true }) :=
      fills_modify fun _ => rfl
    have handled : Fills l (handleReferences .soft policy l) := fills_handleReferences l
    have fills := handled.then fun _ => decided
    rwa [List.append_nil] at fills

omit [ObjectModel] in
/-- Wherever it ends, some of the objects are pending, in their order. -/
theorem makePending_adds (objects : List Nat) (c : Cycle) : (makePending objects).Ends c
    (fun _ c' => ∃ pending, c'.tables = { c.tables with pending }
      ∧ pending.entries = c.tables.pending.entries ++ objects)
    fun _ c' => ∃ pending some, c'.tables = { c.tables with pending }
      ∧ List.Sublist some objects ∧ pending.entries = c.tables.pending.entries ++ some := by
  induction objects generalizing c with
  | nil => exact ends_pure.2 ⟨_, rfl, (List.append_nil _).symm⟩
  | cons x rest ih =>
    simp only [makePending, ends_bind, ends_get]
    cases push : c.tables.pending.push? x with
    | none =>
      exact ends_throw.2 ⟨_, [], rfl, List.nil_sublist _, (List.append_nil _).symm⟩
    | some pending =>
      have entries := WorkQueue.entries_of_push push
      simp only [modifyTables, ends_bind, ends_modify]
      refine (mark_tables x _).imp (fun _ c₁ same => ?_) fun _ c₁ same => ?_
      · refine (ih c₁).imp ?_ ?_
        · rintro _ c₂ ⟨pending', tables, entries'⟩
          rw [same] at tables entries'
          exact ⟨pending', tables, by rw [entries', entries, List.append_assoc]; rfl⟩
        · rintro _ c₂ ⟨pending', some, tables, sublist, entries'⟩
          rw [same] at tables entries'
          exact ⟨pending', x :: some, tables, sublist.cons_cons x,
            by rw [entries', entries, List.append_assoc]; rfl⟩
      · exact ⟨pending, [x], same, (List.nil_sublist rest).cons_cons x, entries⟩

/-- Objects move from those that wait to those that are due. -/
theorem fills_scheduleFinalizations : Fills [] scheduleFinalizations := by
  intro c
  simp only [scheduleFinalizations, WorkQueue.takeWhere, modifyTables, ends_bind, ends_get,
    ends_modify, ends_pure, Bool.not_not]
  generalize target : WorkQueue.ofList (c.tables.finalizable.entries.filter c.marking.isMarked)
    = finalizable
  have kept : finalizable.entries = c.tables.finalizable.entries.filter c.marking.isMarked := by
    rw [← target, WorkQueue.entries_ofList]
  -- Whichever of them became pending, no object waits twice for that.
  have filled : ∀ {pending : WorkQueue Nat} {some : List Nat},
      some.Sublist (c.tables.finalizable.entries.filter (!c.marking.isMarked ·)) →
      pending.entries = c.tables.pending.entries ++ some →
      c.tables.Filled [] { c.tables with finalizable, pending } := by
    intro pending some sublist entries
    refine WorkTables.filled_of_same ?_ rfl rfl
    let due := c.tables.finalizable.entries.filter (!c.marking.isMarked ·)
    let full : WorkTables :=
      { c.tables with finalizable, pending := .ofList (c.tables.pending.entries ++ due) }
    have all : (full.finalizable.entries ++ full.pending.entries).Perm
        (c.tables.finalizable.entries ++ c.tables.pending.entries) :=
      WorkTables.perm_of_due kept (WorkQueue.entries_ofList _)
    refine List.Subperm.trans ?_ all.subperm
    change (finalizable.entries ++ pending.entries).Subperm
      (finalizable.entries ++ (WorkQueue.ofList (c.tables.pending.entries ++ due)).entries)
    rw [entries, WorkQueue.entries_ofList]
    exact ((sublist.append_left _).append_left _).subperm
  refine (makePending_adds _ _).imp ?_ ?_
  · rintro _ c₁ ⟨pending, tables, entries⟩
    have first : c.tables.Filled [] c₁.tables := tables ▸ filled (List.Sublist.refl _) entries
    exact (fills_scan c₁).imp (fun _ _ more => first.trans more) fun _ _ more => first.trans more
  · rintro _ c₁ ⟨pending, some, tables, sublist, entries⟩
    exact tables ▸ filled sublist entries

/-- The tables when the references found are decided on. -/
theorem fills_decide (found : FoundReferences) (policy : SoftPolicy) :
    Fills found.all (do
      handleSoft policy found.soft
      handleReferences .weak policy found.weak
      let _ ← scheduleFinalizations
      handleReferences .phantom policy found.phantom) :=
  (fills_handleSoft found.soft).then fun _ => (fills_handleReferences found.weak).then fun _ =>
    fills_scheduleFinalizations.next fun _ => fills_handleReferences found.phantom

/-! ### A collection -/

theorem fills_begin (roots : List Nat) (policy : SoftPolicy) :
    Fills [] (do
      markAll roots
      modifyMarking fun m => { m with deferSoft := policy != .preserve }
      scan
      latch) :=
  (fills_markAll roots).next fun _ => (fills_modifyMarking _).next fun _ =>
    fills_scan.next fun _ => fills_latch

variable {start : Nat → Prop} {c c' c'' : Cycle} {roots : List Nat}

/-- The references that calls may be queued for are settled before any is decided on. -/
theorem trace_fills (sound : c.source.Sound) (fresh : c.marking = Marking.start c.source)
    (roots : List Nat) (policy : SoftPolicy) : (trace roots policy).Ends c
      (fun _ c' => ∃ l, c.source.Picks c.tables.scheduled l ∧ c.tables.Filled l c'.tables
        ∧ ∀ r ∈ l, c'.marking.isMarked r = true)
      fun _ c' => ∃ l, c.source.Picks c.tables.scheduled l ∧ c.tables.Filled l c'.tables := by
  let start : Nat → Prop := fun x => x ∈ roots ∨ x ∈ c.tables.finalizable.entries
  have begins := ((begin_spec sound fresh policy fun x root => (.inl root : start x)).and
    (begin_picks sound fresh roots policy)).and (fills_begin roots policy c)
  have decides : ∀ found c', Begun roots policy start c found c' →
      c.source.Picks c.tables.scheduled found.all → (do
        handleSoft policy found.soft
        handleReferences .weak policy found.weak
        let _ ← scheduleFinalizations
        handleReferences .phantom policy found.phantom : Action Cycle Unit).Ends c'
      (fun _ c'' => ∃ l, c.source.Picks c.tables.scheduled l ∧ c.tables.Filled l c''.tables
        ∧ ∀ r ∈ l, c''.marking.isMarked r = true)
      fun _ c'' => ∃ l, c.source.Picks c.tables.scheduled l ∧ c.tables.Filled l c''.tables := by
    intro found c' begun picks
    refine ((decide_plans sound begun fun x entry => .inr entry).and
      (fills_decide found policy c')).imp ?_ ?_
    · rintro - c'' ⟨⟨added, pended, plans⟩, filled⟩
      refine ⟨found.all, picks, begun.tables ▸ filled, fun r member => plans.marked r ?_⟩
      obtain ⟨kind, known⟩ := FoundReferences.mem_all.1 member
      exact (begun.known kind r known).1
    · rintro - c'' ⟨-, filled⟩
      exact ⟨found.all, picks, begun.tables ▸ filled⟩
  have all := begins.imp (fun found c' both => decides found c' both.1.1 both.1.2) fun _ c' both =>
    show ∃ l, c.source.Picks c.tables.scheduled l ∧ c.tables.Filled l c'.tables from
      ⟨[], c.source.picks_nil _, both.2⟩
  simpa only [trace, ends_bind] using all

/-- What a collection has done to the tables, over or broken off. Calls were queued for references that
lived, had referents and were not scheduled, once for each, and these are scheduled now. Nothing is
scheduled that was freed, and what a collection keeps was not. -/
structure Tidied (roots : List Nat) (s : Source) (t : WorkTables) (s' : Source) (t' : WorkTables) :
    Prop where
  sound : s'.Sound
  maximum : s'.absoluteMax = s.absoluteMax
  kept : ∀ x, x ∈ roots ∨ x ∈ t.finalizable.entries → s.isPublished x = true →
    s'.isPublished x = true
  waiting : (t'.finalizable.entries ++ t'.pending.entries).Subperm
    (t.finalizable.entries ++ t.pending.entries)
  queued : ∃ added : List (Nat × ReferenceWork),
    t'.operations.entries = t.operations.entries ++ added
      ∧ s.Picks t.scheduled (added.map Prod.fst)
      ∧ (∀ r ∈ added.map Prod.fst, s'.isPublished r = true)
      ∧ ∀ x, s.isPublished x = true → (x ∈ t'.scheduled
        ↔ (x ∈ t.scheduled ∨ x ∈ added.map Prod.fst) ∧ s'.isPublished x = true)
  scheduled : ∀ x ∈ t'.scheduled, x ∈ t.scheduled ∨ s.isPublished x = true

/-- The marking breaks off: everything lives on. -/
theorem tidied_of_broken {l : List Nat} {s s' : Source} {t t' : WorkTables}
    (broken : Source.Broken s s') (picks : s.Picks t.scheduled l) (filled : t.Filled l t') :
    Tidied roots s t s' t' := by
  obtain ⟨added, some, operations, scheduled⟩ := filled.queued
  have picks' := picks.sublist some
  refine ⟨broken.sound, broken.maximum, fun x _ live => broken.live x live, filled.waiting,
    ⟨added, operations, picks', fun r member => broken.live r (picks'.live r member),
      fun x live => ?_⟩, fun x known => ?_⟩
  · rw [scheduled, iff_self_and]
    exact fun _ => broken.live x live
  · exact ((scheduled x).1 known).imp_right (picks'.live x)

/-- The sweep is over or breaks off: only unmarked objects were freed. -/
theorem Traces.tidied {gone : Nat → Prop} {l : List Nat}
    (traces : Traces roots (fun y => y ∈ roots ∨ y ∈ c.tables.finalizable.entries) c c')
    (picks : c.source.Picks c.tables.scheduled l) (filled : c.tables.Filled l c'.tables)
    (known : ∀ r ∈ l, c'.marking.isMarked r = true) (sweeps : Sweeps gone c' c'')
    (unmarked : ∀ y, gone y → c'.marking.isMarked y = false) :
    Tidied roots c.source c.tables c''.source c''.tables := by
  have aborted : Aborted roots c .stuck c'' := traces.aborted sweeps unmarked id
  obtain ⟨added, some, operations, scheduled⟩ := filled.queued
  have picks' := picks.sublist some
  obtain ⟨rest, tables⟩ := sweeps.tables
  have live : ∀ x, c''.source.isPublished x = true ↔ ¬ gone x ∧ c.source.isPublished x = true := by
    intro x
    rw [sweeps.published, traces.tracing.cleared.steady.published]
  refine ⟨aborted.sound, aborted.maximum, aborted.kept, ?_, ⟨added, ?_, picks', fun r member => ?_,
    fun x here => ?_⟩, fun x left => ?_⟩
  · rw [tables]
    exact filled.waiting
  · rw [tables]
    exact operations
  · refine (live r).2 ⟨fun swept => ?_, picks'.live r member⟩
    have bare := unmarked r swept
    rw [known r (some.subset member)] at bare
    cases bare
  · rw [sweeps.scheduled, scheduled, live]
    tauto
  · exact ((scheduled x).1 ((sweeps.scheduled x).1 left).2).imp_right (picks'.live x)

/-- Wherever a collection ends the tables are in order. -/
theorem run_tidied (sound : c.source.Sound) (fresh : c.marking = Marking.start c.source)
    (roots : List Nat) (policy : SoftPolicy) : (run roots policy).Ends c
      (fun _ c' => Tidied roots c.source c.tables c'.source c'.tables)
      fun _ c' => Tidied roots c.source c.tables c'.source c'.tables := by
  simp only [run, finish, ends_bind, ends_get, ends_require, ends_pure]
  refine ((trace_spec sound fresh policy (fun x root => Or.inl root)
    fun x entry => Or.inr entry).and (trace_fills sound fresh roots policy)).imp ?_ ?_
  case refine_2 =>
    rintro cause c₁ ⟨⟨broken, -⟩, l, picks, filled⟩
    exact tidied_of_broken broken picks filled
  rintro - c₁ ⟨traces, l, picks, filled, known⟩
  refine (sweep_spec sound traces.tracing).imp ?_ ?_
  · rintro freed c₂ ⟨live, gone, sweeps⟩
    have unmarked : ∀ y, gone y → c₁.marking.isMarked y = false := by
      intro y swept
      rw [← Bool.not_eq_true, ← live, sweeps.published]
      exact fun both => both.1 swept
    have tidied := traces.tidied picks filled known sweeps unmarked
    exact ⟨fun _ => tidied, fun _ => tidied⟩
  · rintro cause c₂ ⟨⟨gone, unmarked, sweeps⟩, -⟩
    exact traces.tidied picks filled known sweeps unmarked

end Cycle

end ManagedHeap
