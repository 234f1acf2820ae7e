import ManagedHeap.Proofs.Clearing

/-!
Collections that clear soft references. Such a collection follows none of them: what is marked when
references are decided on is what must be held anyway, each soft reference among it was found, and all
those that refer to unmarked objects are cleared.
-/

namespace ManagedHeap

section

variable [ObjectModel]

/-- No soft reference is to clear itself. -/
def Source.Obliging (s : Source) : Prop :=
  ∀ r, s.isPublished r = true → s.kind? r = some .soft → s.clearsItself r = false

/-- Of the soft references that were held strongly, those that still have a referent have one that was
held strongly as well. -/
def Source.Softened (s : Source) (roots scheduled : List Nat) (s' : Source) : Prop :=
  ∀ x y, s.Strong roots scheduled .clearAll x → s.kind? x = some .soft → x ∉ scheduled →
    s'.referent? x = some y → s.referent? x = some y ∧ s.Strong roots scheduled .clearAll y

end

namespace Cycle

open Action

variable [ObjectModel] {s : Source} {start : Nat → Prop} {roots scheduled late references : List Nat}
  {defer : Bool} {c c' : Cycle} {x y : Nat}

/-! ### What is marked -/

/-- Nothing is marked that need not be held, and the soft references looked at were found, except for
some that are yet to be added. -/
structure Lenient (s : Source) (roots scheduled : List Nat) (defer : Bool) (late : List Nat)
    (c : Cycle) : Prop where
  source : c.source = s
  tables : c.tables.scheduled = scheduled
  unlatched : c.marking.latched = false
  deferred : c.marking.deferSoft = defer
  fits : c.marking.Fits s
  strong : ∀ x, c.marking.isMarked x = true → s.Strong roots scheduled .clearAll x
  stacked : ∀ x ∈ c.marking.stack.entries, c.marking.isMarked x = true
  found : ∀ x y, c.Black x → s.kind? x = some .soft → x ∉ scheduled → s.referent? x = some y →
    x ∈ c.marking.found.soft ∨ x ∈ late

theorem mark_lenient (sound : s.Sound) (lenient : Lenient s roots scheduled defer late c)
    (held : s.isPublished x = true → s.Strong roots scheduled .clearAll x) :
    (mark x).Ends c (fun _ c' => Lenient s roots scheduled defer late c') fun _ _ => True := by
  obtain ⟨source, tables, unlatched, deferred, fits, strong, stacked, found⟩ := id lenient
  refine (mark_cases sound (source ▸ rfl) fits).imp ?_ fun _ _ _ => trivial
  rintro - c' (⟨rfl, -⟩ | ⟨live, -, -, i, number, here, covered, rfl⟩)
  · exact lenient
  have marked : ∀ y, (c.marking.marks.modify i (·.insert x)).any (·.test y) = true
      ↔ y = x ∨ c.marking.isMarked y = true := fun y => Marking.isMarked_insert fits here covered
  refine ⟨source, tables, unlatched, deferred, fits.insert here covered rfl rfl, ?_, ?_, ?_⟩
  · intro y mark
    rcases (marked y).1 mark with rfl | before
    · exact held live
    · exact strong y before
  · intro y entry
    rcases List.mem_cons.1 entry with rfl | before
    · exact (marked y).2 (.inl rfl)
    · exact (marked y).2 (.inr (stacked y before))
  · rintro y z ⟨mark, taken⟩
    rw [List.mem_cons, not_or] at taken
    exact found y z ⟨((marked y).1 mark).resolve_left taken.1, taken.2⟩

theorem markAll_lenient (sound : s.Sound) (objects : List Nat)
    (lenient : Lenient s roots scheduled defer late c)
    (held : ∀ x ∈ objects, s.isPublished x = true → s.Strong roots scheduled .clearAll x) :
    (markAll objects).Ends c (fun _ c' => Lenient s roots scheduled defer late c')
      fun _ _ => True := by
  induction objects generalizing c with
  | nil => exact ends_pure.2 lenient
  | cons x rest ih =>
    rw [markAll, ends_bind]
    refine (mark_lenient sound lenient (held x List.mem_cons_self)).mono fun _ c₁ lenient₁ => ?_
    exact ih lenient₁ fun y later => held y (List.mem_cons_of_mem x later)

/-- The object looked at was added, if that is called for. -/
theorem Lenient.settle (lenient : Lenient s roots scheduled defer [x] c)
    (added : ∀ y, s.kind? x = some .soft → x ∉ scheduled → s.referent? x = some y →
      x ∈ c.marking.found.soft) : Lenient s roots scheduled defer [] c := by
  refine ⟨lenient.source, lenient.tables, lenient.unlatched, lenient.deferred, lenient.fits,
    lenient.strong, lenient.stacked, fun y z black isSoft unscheduled refers => .inl ?_⟩
  rcases lenient.found y z black isSoft unscheduled refers with before | own
  · exact before
  · cases List.mem_singleton.1 own
    exact added z isSoft unscheduled refers

theorem visit_lenient (sound : s.Sound) (lenient : Lenient s roots scheduled true [x] c)
    (marked : c.marking.isMarked x = true) :
    (visit x).Ends c (fun _ c' => Lenient s roots scheduled true [] c') fun _ _ => True := by
  have strong := lenient.strong x marked
  simp only [visit, ends_bind, ends_get, lenient.source]
  refine (markAll_lenient sound _ lenient fun y child live => .child strong child live).mono ?_
  rintro - c₁ lenient₁
  rw [lenient₁.source, lenient₁.tables, lenient₁.unlatched, lenient₁.deferred]
  split
  case h_2 nothing =>
    refine ends_pure.2 (lenient₁.settle fun y isSoft _ refers => ?_)
    exact (nothing .soft y isSoft refers).elim
  case h_1 kind referent isReference refers =>
    simp only [Bool.false_or, Bool.not_true, Bool.and_false, Bool.false_eq_true, if_false]
    rw [ends_ite, List.contains_iff_mem]
    refine ⟨fun forced => ?_, fun unforced => ends_modify.2 ?_⟩
    · refine (mark_lenient sound lenient₁ fun live => ?_).mono fun _ c₂ lenient₂ => ?_
      · exact .scheduled strong forced (isReference ▸ rfl) refers live
      · exact lenient₂.settle fun _ _ unscheduled => absurd forced unscheduled
    · have add_soft : ∀ {y}, y ∈ (c₁.marking.found.add kind x).soft
          ↔ y ∈ c₁.marking.found.soft ∨ (.soft = kind ∧ y = x) := by
        intro y
        cases kind <;> simp [FoundReferences.add]
      have added : Lenient s roots scheduled true [x]
          { c₁ with marking := { c₁.marking with found := c₁.marking.found.add kind x } } :=
        ⟨lenient₁.source, lenient₁.tables, lenient₁.unlatched, lenient₁.deferred,
          lenient₁.fits.congr rfl rfl, lenient₁.strong, lenient₁.stacked,
          fun y z black isSoft unscheduled refers' =>
            (lenient₁.found y z black isSoft unscheduled refers').imp_left
              fun before => add_soft.2 (.inl before)⟩
      refine added.settle fun _ isSoft _ _ => add_soft.2 (.inr ⟨?_, rfl⟩)
      exact Option.some.inj (isSoft.symm.trans isReference)

theorem scanUpTo_lenient (sound : s.Sound) (budget : Nat)
    (lenient : Lenient s roots scheduled true [] c) :
    (scanUpTo budget).Ends c (fun _ c' => Lenient s roots scheduled true [] c') fun _ _ => True := by
  induction budget generalizing c with
  | zero => exact ends_pure.2 lenient
  | succ budget ih =>
    rw [scanUpTo, ends_bind, ends_get]
    cases entries : c.marking.stack.entries with
    | nil =>
      simp only [MarkStack.pop?, entries]
      exact ends_pure.2 lenient
    | cons x rest =>
      have stacked := lenient.stacked
      rw [entries] at stacked
      have popped : ∀ stack : MarkStack, stack.entries = rest →
          Lenient s roots scheduled true [x] { c with marking := { c.marking with stack } } := by
        rintro stack rfl
        refine ⟨lenient.source, lenient.tables, lenient.unlatched, lenient.deferred,
          lenient.fits.congr rfl rfl, lenient.strong, fun y later => ?_, ?_⟩
        · exact stacked y (List.mem_cons_of_mem x later)
        · rintro y z ⟨marked, taken⟩ isSoft unscheduled refers
          by_cases top : y = x
          · exact .inr (List.mem_singleton.2 top)
          · have black : c.Black y := by
              refine ⟨marked, ?_⟩
              rw [entries, List.mem_cons, not_or]
              exact ⟨top, taken⟩
            exact .inl ((lenient.found y z black isSoft unscheduled refers).resolve_right
              List.not_mem_nil)
      simp only [MarkStack.pop?, entries, ends_bind, ends_set]
      let stack : MarkStack := { c.marking.stack with
        entries := rest, room := c.marking.stack.room + 1 }
      exact (visit_lenient sound (popped stack rfl) (stacked x List.mem_cons_self)).mono fun _ _ => ih

/-- When references are decided on, only what must be held is marked, and each soft reference among it
that refers to something was found. -/
theorem begin_lenient (sound : c.source.Sound) (fresh : c.marking = Marking.start c.source)
    (roots : List Nat) :
    (do markAll roots
        modifyMarking fun m => { m with deferSoft := SoftPolicy.clearAll != .preserve }
        scan
        latch : Action Cycle FoundReferences).Ends c
      (fun found c' =>
        (∀ x, c'.marking.isMarked x = true → c.source.Strong roots c.tables.scheduled .clearAll x)
        ∧ ∀ x y, c'.Black x → c.source.kind? x = some .soft → x ∉ c.tables.scheduled →
          c.source.referent? x = some y → x ∈ found.soft) fun _ _ => True := by
  have unmarked : ∀ x, ¬ c.marking.isMarked x = true := by
    intro x
    rw [fresh, isMarked_start]
    exact Bool.false_ne_true
  have begun : Lenient c.source roots c.tables.scheduled false [] c := by
    refine ⟨rfl, rfl, ?_, ?_, fresh ▸ fits_start sound, fun x mark => absurd mark (unmarked x), ?_,
      fun x _ black => absurd black.1 (unmarked x)⟩
    · rw [fresh]
      rfl
    · rw [fresh]
      rfl
    · rw [fresh]
      exact fun x none => absurd none List.not_mem_nil
  simp only [modifyMarking, ends_bind, ends_modify]
  refine (markAll_lenient sound roots begun fun x root live => .root root live).mono ?_
  rintro - c₁ lenient₁
  have deferring : Lenient c.source roots c.tables.scheduled true []
      { c₁ with marking := { c₁.marking with deferSoft := true } } :=
    ⟨lenient₁.source, lenient₁.tables, lenient₁.unlatched, rfl, lenient₁.fits.congr rfl rfl,
      lenient₁.strong, lenient₁.stacked, lenient₁.found⟩
  simp only [scan, ends_bind, ends_get]
  refine (scanUpTo_lenient sound _ deferring).mono ?_
  rintro - c₂ lenient₂
  simp only [latch, modifyMarking, ends_bind, ends_get, ends_modify, ends_pure]
  refine ⟨lenient₂.strong, fun x y black isSoft unscheduled refers => ?_⟩
  exact (lenient₂.found x y black isSoft unscheduled refers).resolve_right List.not_mem_nil

/-! ### What is cleared -/

/-- Every referent that is left has a mark, and no mark was added. -/
def Spent (references : List Nat) (c c' : Cycle) : Prop :=
  c'.marking = c.marking ∧ ∀ x ∈ references, ∀ y, c'.source.referent? x = some y →
    c.marking.isMarked y = true

/-- A soft reference that does not clear itself is cleared, unless its referent has a mark. -/
theorem handleReference_clears (tracing : Tracing s start c) (marked : c.marking.isMarked x = true)
    (isReference : (s.kind? x).isSome = true) (obliging : s.clearsItself x = false) :
    (handleReference .soft .clearAll x).Ends c (fun _ c' => Spent [x] c c') fun _ _ => True := by
  have cleared := tracing.cleared
  have told : c.source.clearsItself x = false :=
    ((cleared.kept x (tracing.live marked)).clearsItself).trans obliging
  have spent : ∀ {c' : Cycle}, c'.marking = c.marking →
      (∀ y, c'.source.referent? x = some y → c.marking.isMarked y = true) → Spent [x] c c' := by
    refine fun marking left => ⟨marking, fun z member => ?_⟩
    exact List.mem_singleton.1 member ▸ left
  apply ends_handleReference
  case bare =>
    refine fun nothing => spent rfl fun y refers => ?_
    cases nothing.symm.trans refers
  case kept =>
    refine fun refers kept => spent rfl fun z refers' => ?_
    cases refers.symm.trans refers'
    exact kept
  case overflow => exact fun _ => trivial
  case held => exact fun _ _ _ turns => absurd turns.2 (by decide)
  case decided =>
    intro y color refers _
    obtain ⟨-, none⟩ := tracing.clear marked isReference refers
    have gone : ∀ {tables}, Spent [x] c { c with source := c.source.clearReferent x, tables } := by
      refine fun {tables} => spent rfl fun z refers' => ?_
      cases none.symm.trans refers'
    refine ends_release (fun needs => absurd (told.symm.trans needs) Bool.false_ne_true) fun _ => ?_
    exact ends_queueWork (fun _ => gone) trivial fun _ _ => gone

theorem handleEach_clears (sound : s.Sound) (obliging : s.Obliging) (references : List Nat)
    (tracing : Tracing s start c)
    (known : ∀ x ∈ references, c.marking.isMarked x = true ∧ s.kind? x = some .soft) :
    (handleEach .soft .clearAll references).Ends c
      (fun _ c' => Handles s start c c' ∧ Spent references c c') fun _ _ => True := by
  induction references generalizing c with
  | nil => exact ends_pure.2 ⟨tracing.scans.handles, rfl, fun x none => absurd none List.not_mem_nil⟩
  | cons x rest ih =>
    obtain ⟨marked, isSoft⟩ := known x List.mem_cons_self
    have isReference : (s.kind? x).isSome = true := isSoft ▸ rfl
    have clears := handleReference_clears tracing marked isReference
      (obliging x (tracing.live marked) isSoft)
    rw [handleEach, ends_bind]
    refine ((handleReference_spec sound tracing marked isReference).and clears).imp ?_
      fun _ _ _ => trivial
    rintro - c₁ ⟨⟨handles, -⟩, marking, first⟩
    have known₁ : ∀ y ∈ rest, c₁.marking.isMarked y = true ∧ s.kind? y = some .soft := by
      intro y later
      rw [marking]
      exact known y (List.mem_cons_of_mem x later)
    refine (ih handles.tracing known₁).mono ?_
    rintro - c₂ ⟨handles₂, marking₂, others⟩
    refine ⟨handles.trans handles₂, marking₂.trans marking, fun y member z refers => ?_⟩
    rcases List.mem_cons.1 member with rfl | later
    · exact first y (List.mem_singleton.2 rfl) z (handles₂.referent y z (marking ▸ marked) refers)
    · exact marking ▸ others y later z refers

theorem handleSoft_clears (sound : s.Sound) (obliging : s.Obliging) (references : List Nat)
    (tracing : Tracing s start c)
    (known : ∀ x ∈ references, c.marking.isMarked x = true ∧ s.kind? x = some .soft) :
    (handleSoft .clearAll references).Ends c (fun _ c' => ∀ x ∈ references, ∀ y,
      c'.source.referent? x = some y → c.marking.isMarked y = true) fun _ _ => True := by
  rw [handleSoft, if_neg (by decide), handleReferences, ends_bind, ends_bind]
  refine (handleEach_clears sound obliging references tracing known).mono ?_
  rintro - c₁ ⟨-, -, left⟩
  -- The scan that follows changes no object.
  refine ((ignoresMarks_same c₁.source c₁.tables).scan c₁ ⟨rfl, rfl⟩).imp ?_ fun _ _ _ => trivial
  rintro - c₂ ⟨source, -⟩
  refine ends_modify.2 fun x member y refers => left x member y ?_
  rwa [← source]

/-- What comes after soft references were decided on gives no reference a referent. -/
theorem remainder_decides (sound : s.Sound) {found : FoundReferences}
    (tracing : Tracing s (fun _ => True) c)
    (closed : Closed s (found.weak ++ (found.phantom ++ [])) c)
    (known : ∀ kind, ∀ x ∈ found.ofKind kind,
      c.marking.isMarked x = true ∧ (s.kind? x).isSome = true) :
    (do handleReferences .weak .clearAll found.weak
        let _ ← scheduleFinalizations
        handleReferences .phantom .clearAll found.phantom : Action Cycle Unit).Ends c
      (fun _ c' => Decides s (fun _ => True) c c') fun _ _ => True := by
  simp only [ends_bind]
  refine (handleReferences_spec sound _ tracing closed (known .weak)).imp ?_ fun _ _ _ => trivial
  rintro - c₁ ⟨weak, closed₁⟩
  refine (scheduleFinalizations_spec sound weak.tracing closed₁ fun x _ live => ?_).imp ?_
    fun _ _ _ => trivial
  · exact .start trivial live
  rintro - c₂ ⟨finals, closed₂, -⟩
  have decides := weak.toDecides.trans finals
  refine (handleReferences_spec sound _ finals.tracing closed₂ fun x member => ?_).imp ?_
    fun _ _ _ => trivial
  · exact (known .phantom x member).imp_left (decides.marked x)
  rintro - c₃ ⟨phantom, -⟩
  exact decides.trans phantom.toDecides

/-- What the marking of a collection that clears soft references has done. -/
structure Softens (roots : List Nat) (c c' : Cycle) : Prop where
  tracing : Tracing c.source (fun _ => True) c'
  marked : ∀ x, c.source.Strong roots c.tables.scheduled .clearAll x → c'.marking.isMarked x = true
  softened : c.source.Softened roots c.tables.scheduled c'.source

theorem decide_softens (sound : c.source.Sound) (obliging : c.source.Obliging)
    {found : FoundReferences} (begun : Begun roots .clearAll (fun _ => True) c found c')
    (empty : c'.marking.stack.entries = [])
    (unforced : ∀ x, found.Has x → x ∉ c'.tables.scheduled)
    (only : ∀ x, c'.marking.isMarked x = true →
      c.source.Strong roots c.tables.scheduled .clearAll x)
    (all : ∀ x y, c'.Black x → c.source.kind? x = some .soft → x ∉ c.tables.scheduled →
      c.source.referent? x = some y → x ∈ found.soft) :
    (do handleSoft .clearAll found.soft
        handleReferences .weak .clearAll found.weak
        let _ ← scheduleFinalizations
        handleReferences .phantom .clearAll found.phantom : Action Cycle Unit).Ends c'
      (fun _ c'' => Softens roots c c'') fun _ _ => True := by
  have softly := (handleSoft_spec sound _ begun.tracing begun.closed
    (begun.references .soft begun.undecided) begun.preserved).and
      (handleSoft_clears sound obliging _ begun.tracing (begun.known .soft))
  rw [ends_bind]
  refine softly.imp ?_ fun _ _ _ => trivial
  rintro - c₁ ⟨⟨soft, closed₁⟩, left⟩
  refine (remainder_decides sound soft.tracing closed₁ fun kind =>
    begun.references kind soft.toDecides).mono ?_
  rintro - c₂ rest
  have decides := soft.toDecides.trans rest
  have held : ∀ x, c.source.Strong roots c.tables.scheduled .clearAll x →
      c'.marking.isMarked x = true := fun x => begun.strong empty (begun.tables ▸ unforced)
  refine ⟨rest.tracing, fun x strong => decides.marked x (held x strong), ?_⟩
  intro x y strong isSoft unscheduled refers
  have marked := held x strong
  have before := decides.referent x y marked refers
  rw [begun.source] at before
  have member := all x y ⟨marked, empty ▸ List.not_mem_nil⟩ isSoft unscheduled before
  exact ⟨before, only y (left x member y (rest.referent x y (soft.marked x marked) refers))⟩

theorem trace_softens (sound : c.source.Sound) (fresh : c.marking = Marking.start c.source)
    (obliging : c.source.Obliging) (roots : List Nat) : (trace roots .clearAll).Ends c
      (fun _ c' => Softens roots c c') fun _ _ => True := by
  have begins := ((begin_spec sound fresh .clearAll fun x (_ : x ∈ roots) => trivial).and
    (begin_unforced sound fresh roots .clearAll)).and (begin_lenient sound fresh roots)
  have all := begins.imp (fun found c₁ ⟨⟨begun, empty, unforced⟩, only, all⟩ =>
    decide_softens sound obliging begun empty unforced only all) fun _ _ _ => trivial
  simpa only [trace, ends_bind] using all

/-- A collection that clears soft references frees nothing that is held strongly, and leaves the soft
references among it no referent but such as are held strongly themselves. -/
theorem run_softens (sound : c.source.Sound) (fresh : c.marking = Marking.start c.source)
    (obliging : c.source.Obliging) (roots : List Nat) : (run roots .clearAll).Ends c
      (fun _ c' => (∀ x, c.source.Strong roots c.tables.scheduled .clearAll x →
          c'.source.isPublished x = true)
        ∧ c.source.Softened roots c.tables.scheduled c'.source) fun _ _ => True := by
  simp only [run, finish, ends_bind, ends_get, ends_require, ends_pure]
  refine (trace_softens sound fresh obliging roots).mono ?_
  rintro - c₁ ⟨tracing, marked, softened⟩
  refine (sweep_spec sound tracing).imp ?_ fun _ _ _ => trivial
  rintro - c₂ ⟨live, gone, sweeps⟩
  refine ⟨fun _ => ⟨fun x strong => (live x).2 (marked x strong), ?_⟩, fun _ => trivial⟩
  intro x y strong isSoft unscheduled refers
  rw [Source.referent?, Source.payload_congr sweeps.memory] at refers
  exact softened x y strong isSoft unscheduled refers

end Cycle

end ManagedHeap
