import ManagedHeap.Object
import ManagedHeap.Proofs.Reachability
import ManagedHeap.Proofs.TableEntries

/-!
References that share a referent. A reference that needs its referent for a call marks it, and references
to the same object that come later in the list find it marked. They are passed over: neither are they
cleared nor is a call queued for them. No other listed reference is.
-/

namespace ManagedHeap

section

variable [ObjectModel]

/-- Does the reference need its referent for the call that it is due? -/
def Source.needsReferent (s : Source) (kind : ReferenceKind) (reference : Nat) : Bool :=
  if kind = .phantom then s.hasQueue reference else s.clearsItself reference

theorem Source.Kept.hasQueue {s₀ s : Source} {x : Nat} (kept : Source.Kept s₀ s x) :
    s.hasQueue x = s₀.hasQueue x := by
  rcases kept.payload with same | ⟨⟨-, refers⟩, set⟩
  · rw [Source.hasQueue, same, Source.hasQueue]
  · rw [Source.hasQueue, set, ObjectModel.hasQueue_clear _ refers, Source.hasQueue]

namespace Cycle

open Action

variable {s₀ : Source} {c c' c'' : Cycle} {x y r : Nat} {kind : ReferenceKind} {policy : SoftPolicy}
  {l : List Nat}

/-- The reference was cleared, or a call is queued for it. -/
def Handled (c : Cycle) (r : Nat) : Prop :=
  c.source.referent? r = none ∨ ∃ work, (r, work) ∈ c.tables.operations.entries

/-- The reference refers to nothing, or to an object that is marked. Then it is passed over. -/
def Idle (c : Cycle) (r : Nat) : Prop :=
  ∀ y, c.source.referent? r = some y → c.marking.isMarked y = true

/-- The state while references are decided on. Those that need their referents keep them. -/
structure Handling (s₀ : Source) (kind : ReferenceKind) (c : Cycle) : Prop where
  cleared : Source.Cleared s₀ c.source
  fits : c.marking.Fits s₀
  held : ∀ q, s₀.isPublished q = true → s₀.needsReferent kind q = true →
    c.source.payload q = s₀.payload q

/-- What deciding on a list of references comes to. -/
structure Passes (s₀ : Source) (kind : ReferenceKind) (l : List Nat) (c c' : Cycle) : Prop where
  handling : Handling s₀ kind c'
  marks : ∀ z, c'.marking.isMarked z = true ↔ c.marking.isMarked z = true
    ∨ s₀.isPublished z = true
      ∧ ∃ q ∈ l, s₀.referent? q = some z ∧ s₀.needsReferent kind q = true
  grows : ∀ e ∈ c.tables.operations.entries, e ∈ c'.tables.operations.entries
  still : ∀ r, s₀.isPublished r = true → r ∉ l ∨ c.Idle r → c'.source.payload r = c.source.payload r
    ∧ ∀ work, (r, work) ∈ c'.tables.operations.entries → (r, work) ∈ c.tables.operations.entries

theorem Handling.passes (handling : Handling s₀ kind c) : Passes s₀ kind [] c c :=
  ⟨handling, fun _ => by simp, fun _ here => here, fun _ _ _ => ⟨rfl, fun _ here => here⟩⟩

theorem Idle.passes (idle : c.Idle r) (passes : Passes s₀ kind l c c')
    (live : s₀.isPublished r = true) : c'.Idle r := by
  intro y refers
  have same := (passes.still r live (.inr idle)).1
  rw [Source.referent?, same] at refers
  exact (passes.marks y).2 (.inl (idle y refers))

theorem Passes.trans {l' : List Nat} (first : Passes s₀ kind l c c')
    (second : Passes s₀ kind l' c' c'') : Passes s₀ kind (l ++ l') c c'' := by
  refine ⟨second.handling, fun z => ?_, fun e here => second.grows e (first.grows e here),
    fun r live calm => ?_⟩
  · rw [second.marks, first.marks]
    simp only [List.mem_append, or_and_right, exists_or, and_or_left, or_assoc]
  · have calm₁ : r ∉ l ∨ c.Idle r := calm.imp_left fun out here => out (List.mem_append_left _ here)
    obtain ⟨same, old⟩ := first.still r live calm₁
    have calm₂ : r ∉ l' ∨ c'.Idle r := by
      rcases calm with out | idle
      · exact .inl fun here => out (List.mem_append_right _ here)
      · exact .inr (idle.passes first live)
    obtain ⟨same', old'⟩ := second.still r live calm₂
    exact ⟨same'.trans same, fun work here => old work (old' work here)⟩

/-- A reference that is handled stays so. -/
theorem Handled.passes (handled : c.Handled r) (passes : Passes s₀ kind l c c')
    (live : s₀.isPublished r = true) : c'.Handled r := by
  rcases handled with none | ⟨work, queued⟩
  · have idle : c.Idle r := fun y refers => nomatch none.symm.trans refers
    refine .inl ?_
    rw [Source.referent?, (passes.still r live (.inr idle)).1]
    exact none
  · exact .inr ⟨work, passes.grows _ queued⟩

/-! ### One reference -/

theorem Handling.needs (handling : Handling s₀ kind c) (live : s₀.isPublished x = true) :
    c.source.needsReferent kind x = s₀.needsReferent kind x := by
  have kept := handling.cleared.kept x live
  rw [Source.needsReferent, Source.needsReferent, kept.hasQueue, kept.clearsItself]

/-- A reference that does not need its referent is cleared. -/
theorem Handling.clear (handling : Handling s₀ kind c) (live : s₀.isPublished x = true)
    (isReference : (s₀.kind? x).isSome = true) (refers : c.source.referent? x = some y)
    (busy : ¬ c.Idle x) (free : s₀.needsReferent kind x = false) :
    Passes s₀ kind [x] c { c with source := c.source.clearReferent x }
      ∧ Handled { c with source := c.source.clearReferent x } x := by
  have sound := handling.cleared.steady.sound
  have here : ∀ z, s₀.isPublished z = true → c.source.isPublished z = true :=
    fun z live => (handling.cleared.steady.published z).trans live
  have some_referent : (c.source.referent? x).isSome = true := by rw [refers]; rfl
  have others : ∀ z, s₀.isPublished z = true → z ≠ x →
      (c.source.clearReferent x).payload z = c.source.payload z := fun z live' other =>
    (sound.payload_clearReferent (here x live) some_referent (here z live')).trans (if_neg other)
  refine ⟨⟨⟨handling.cleared.clear live isReference refers, handling.fits, fun q live' needs => ?_⟩,
    fun z => ?_, fun _ queued => queued, fun r live' calm => ⟨others r live' ?_, fun _ queued => queued⟩⟩,
    .inl (sound.referent_clearReferent (here x live) some_referent)⟩
  · have other : q ≠ x := by
      rintro rfl
      cases free.symm.trans needs
    exact (others q live' other).trans (handling.held q live' needs)
  · simp [free]
  · rintro rfl
    rcases calm with out | idle
    · exact out List.mem_cons_self
    · exact busy idle

/-- A reference that needs its referent marks it. -/
theorem Handling.mark (sound : s₀.Sound) (handling : Handling s₀ kind c)
    (live : s₀.isPublished x = true) (refers : c.source.referent? x = some y)
    (needs : s₀.needsReferent kind x = true) :
    (Cycle.mark y).Ends c (fun _ c' => Passes s₀ kind [x] c c') fun _ _ => True := by
  have own : s₀.referent? x = some y := by
    rw [Source.referent?, ← handling.held x live needs]
    exact refers
  refine (mark_cases sound handling.cleared.bitmaps handling.fits).imp ?_ fun _ _ _ => trivial
  rintro _ c' (⟨rfl, already⟩ | ⟨live', -, -, i, number, here, covered, rfl⟩)
  · refine ⟨handling, fun z => ?_, fun _ queued => queued, fun _ _ _ => ⟨rfl, fun _ queued => queued⟩⟩
    refine ⟨.inl, fun either => either.elim id ?_⟩
    rintro ⟨live', q, member, referent, -⟩
    rw [List.mem_singleton.1 member, own] at referent
    cases referent
    exact already live'
  · refine ⟨⟨handling.cleared, handling.fits.insert here covered rfl rfl, handling.held⟩, fun z => ?_,
      fun _ queued => queued, fun _ _ _ => ⟨rfl, fun _ queued => queued⟩⟩
    refine (Marking.isMarked_insert handling.fits here covered).trans ?_
    rw [or_comm]
    refine or_congr_right ⟨?_, ?_⟩
    · rintro rfl
      exact ⟨live', x, List.mem_cons_self, own, needs⟩
    · rintro ⟨-, q, member, referent, -⟩
      rw [List.mem_singleton.1 member, own] at referent
      exact (Option.some.inj referent).symm

/-- The call that a reference is due is queued, if there is one. -/
theorem Passes.queueWork (passes : Passes s₀ kind [x] c c') (busy : ¬ c.Idle x) (work : ReferenceWork)
    (due : c'.Handled x ∨ work.isEmpty = false) :
    (Cycle.queueWork x work).Ends c' (fun _ c'' => Passes s₀ kind [x] c c'' ∧ c''.Handled x)
      fun _ _ => True := by
  apply ends_queueWork
  case nothing =>
    intro nothing
    refine ⟨passes, due.elim id fun some => ?_⟩
    cases some.symm.trans nothing
  case full => trivial
  case queued =>
    intro operations _ push
    have entries : ({ c'.tables with operations }.schedule x).operations.entries
        = c'.tables.operations.entries ++ [(x, work)] := entries_scheduled push
    refine ⟨⟨⟨passes.handling.cleared, passes.handling.fits, passes.handling.held⟩,
      passes.marks, fun e here => ?_, fun r live calm => ?_⟩, .inr ⟨work, ?_⟩⟩
    · change e ∈ ({ c'.tables with operations }.schedule x).operations.entries
      rw [entries]
      exact List.mem_append_left _ (passes.grows e here)
    · have other : r ≠ x := by
        rintro rfl
        exact calm.elim (fun out => out List.mem_cons_self) busy
      obtain ⟨same, old⟩ := passes.still r live calm
      refine ⟨same, fun w queued => old w ?_⟩
      change (r, w) ∈ ({ c'.tables with operations }.schedule x).operations.entries at queued
      rw [entries, List.mem_append, List.mem_singleton] at queued
      exact queued.resolve_right fun same => other (congrArg Prod.fst same)
    · change (x, work) ∈ ({ c'.tables with operations }.schedule x).operations.entries
      rw [entries]
      exact List.mem_append_right _ List.mem_cons_self

theorem Handling.idle (handling : Handling s₀ kind c) (live : s₀.isPublished x = true)
    (idle : c.Idle x) : Passes s₀ kind [x] c c := by
  refine ⟨handling, fun z => ⟨.inl, fun either => either.elim id ?_⟩, fun _ queued => queued,
    fun _ _ _ => ⟨rfl, fun _ queued => queued⟩⟩
  rintro ⟨-, q, member, referent, needs⟩
  rw [List.mem_singleton.1 member] at referent needs
  rw [Source.referent?, ← handling.held x live needs] at referent
  exact idle z referent

/-- The reference is cleared, or it is due a call. -/
theorem Handling.release (sound : s₀.Sound) (handling : Handling s₀ kind c)
    (live : s₀.isPublished x = true) (isReference : (s₀.kind? x).isSome = true)
    (refers : c.source.referent? x = some y) (busy : ¬ c.Idle x) :
    (Cycle.release x y kind).Ends c
      (fun work c' => Passes s₀ kind [x] c c' ∧ (c'.Handled x ∨ work.isEmpty = false))
      fun _ _ => True := by
  have same := handling.needs live
  refine ends_release (fun needs => ?_) fun free => ?_
  · refine (handling.mark sound live refers (same.symm.trans needs)).mono ?_
    refine fun _ c' passes => ⟨passes, .inr ?_⟩
    split at needs <;> simp_all [ReferenceWork.isEmpty, Source.due]
  · obtain ⟨passes, handled⟩ := handling.clear live isReference refers busy (same.symm.trans free)
    exact ⟨passes, .inl handled⟩

/-- A reference is passed over, or it is handled. -/
theorem Handling.handleReference (sound : s₀.Sound) (handling : Handling s₀ kind c)
    (lossy : kind ≠ .soft) (live : s₀.isPublished x = true)
    (isReference : (s₀.kind? x).isSome = true) :
    (Cycle.handleReference kind policy x).Ends c
      (fun _ c' => Passes s₀ kind [x] c c' ∧ (¬ c.Idle x → c'.Handled x)) fun _ _ => True := by
  have passed : c.Idle x → Passes s₀ kind [x] c c ∧ (¬ c.Idle x → c.Handled x) := fun idle =>
    ⟨handling.idle live idle, fun busy => absurd idle busy⟩
  apply ends_handleReference
  case bare =>
    refine fun nothing => passed fun y refers => ?_
    cases nothing.symm.trans refers
  case kept =>
    refine fun {y} refers marked => passed fun z refers' => ?_
    cases refers.symm.trans refers'
    exact marked
  case overflow => exact fun _ => trivial
  case held => exact fun _ _ _ both => absurd both.1 lossy
  case decided =>
    intro y color refers unmarked
    have busy : ¬ c.Idle x := fun idle => Bool.false_ne_true (unmarked.symm.trans (idle y refers))
    have counted : Handling s₀ kind { c with tables := { c.tables with color } } :=
      ⟨handling.cleared, handling.fits, handling.held⟩
    refine (counted.release sound live isReference refers busy).mono fun work c₁ step => ?_
    refine (step.1.queueWork busy work step.2).mono ?_
    rintro - c' ⟨passes, handled⟩
    exact ⟨⟨passes.handling, passes.marks, passes.grows, passes.still⟩, fun _ => handled⟩

/-! ### A list of references -/

theorem Handling.handleEach (sound : s₀.Sound) (lossy : kind ≠ .soft) :
    ∀ {l : List Nat} {c : Cycle}, Handling s₀ kind c →
      (∀ q ∈ l, s₀.isPublished q = true ∧ (s₀.kind? q).isSome = true) →
      (Cycle.handleEach kind policy l).Ends c (fun _ c' => Passes s₀ kind l c c') fun _ _ => True
  | [], _, handling, _ => by
    rw [Cycle.handleEach, ends_pure]
    exact handling.passes
  | x :: l, c, handling, known => by
    obtain ⟨⟨live, isReference⟩, known⟩ := List.forall_mem_cons.1 known
    simp only [Cycle.handleEach, ends_bind]
    refine (handling.handleReference sound lossy live isReference).mono fun _ c₁ step => ?_
    exact (step.1.handling.handleEach sound lossy known).mono fun _ _ passes => step.1.trans passes

theorem Passes.handled_congr (passes : Passes s₀ kind l c c') (live : s₀.isPublished r = true)
    (calm : r ∉ l ∨ c.Idle r) : c'.Handled r ↔ c.Handled r := by
  obtain ⟨same, old⟩ := passes.still r live calm
  rw [Handled, Handled, Source.referent?, Source.referent?, same]
  exact or_congr_right (exists_congr fun work => ⟨old work, passes.grows (r, work)⟩)

theorem handleEach_append (l l' : List Nat) : Cycle.handleEach kind policy (l ++ l')
    = Cycle.handleEach kind policy l >>= fun _ => Cycle.handleEach kind policy l' := by
  induction l with
  | nil => rfl
  | cons x l ih =>
    rw [List.cons_append, Cycle.handleEach, Cycle.handleEach, ih]
    exact (bind_assoc _ _ _).symm

/-- A listed reference whose referent has no mark ends up cleared, or a call is queued for it, unless
another one before it in the list refers to the same object and needs it. -/
theorem handled_iff (before after : List Nat) (sound : c.source.Sound)
    (fits : c.marking.Fits c.source) (lossy : kind ≠ .soft)
    (known : ∀ q ∈ before ++ r :: after,
      c.source.isPublished q = true ∧ (c.source.kind? q).isSome = true)
    (first : r ∉ before) (refers : c.source.referent? r = some y)
    (unmarked : c.marking.isMarked y = false)
    (run : handleReferences kind policy (before ++ r :: after) c = .ok () c') :
    (c'.Handled r ↔ c.Handled r ∨ ¬ (c.source.isPublished y = true
        ∧ ∃ q ∈ before, c.source.referent? q = some y ∧ c.source.needsReferent kind q = true))
      ∧ (¬ c'.Handled r → c'.source.payload r = c.source.payload r) := by
  have begun : Handling c.source kind c := ⟨sound.cleared, fits, fun _ _ _ => rfl⟩
  have known_before : ∀ q ∈ before, c.source.isPublished q = true ∧ (c.source.kind? q).isSome = true :=
    fun q member => known q (List.mem_append_left _ member)
  obtain ⟨⟨live, isReference⟩, known_after⟩ := List.forall_mem_cons.1 fun q (member : q ∈ r :: after) =>
    known q (List.mem_append_right _ member)
  have ends : (handleReferences kind policy (before ++ r :: after)).Ends c
      (fun _ c' => ∃ c₁ c₂ c₃, Passes c.source kind before c c₁ ∧ Passes c.source kind [r] c₁ c₂
        ∧ (¬ c₁.Idle r → c₂.Handled r) ∧ Passes c.source kind after c₂ c₃
        ∧ c'.source = c₃.source ∧ c'.tables = c₃.tables) fun _ _ => True := by
    rw [handleReferences, handleEach_append, Cycle.handleEach]
    simp only [ends_bind]
    refine (begun.handleEach sound lossy known_before).mono fun _ c₁ earlier => ?_
    refine (earlier.handling.handleReference sound lossy live isReference).mono fun _ c₂ step => ?_
    refine (step.1.handling.handleEach sound lossy known_after).mono fun _ c₃ later => ?_
    exact ((ignoresMarks_same _ _).scan c₃ ⟨rfl, rfl⟩).imp
      (fun _ c' same => ⟨c₁, c₂, c₃, earlier, step.1, step.2, later, same⟩) fun _ _ _ => trivial
  obtain ⟨c₁, c₂, c₃, earlier, step, handles, later, source, tables⟩ := ends.ok run
  have final : c'.Handled r ↔ c₃.Handled r := by rw [Handled, Handled, source, tables]
  have unchanged := (earlier.still r live (.inl first)).1
  have idle_iff : c₁.Idle r ↔ c.source.isPublished y = true
      ∧ ∃ q ∈ before, c.source.referent? q = some y ∧ c.source.needsReferent kind q = true := by
    have marked : c₁.Idle r ↔ c₁.marking.isMarked y = true := by
      rw [Idle, Source.referent?, unchanged, ← Source.referent?, refers]
      exact ⟨fun idle => idle y rfl, fun marked z same => Option.some.inj same ▸ marked⟩
    rw [marked, earlier.marks, unmarked]
    simp
  rw [final, ← idle_iff]
  by_cases idle : c₁.Idle r
  · have idle₂ := idle.passes step live
    rw [later.handled_congr live (.inr idle₂), step.handled_congr live (.inr idle),
      earlier.handled_congr live (.inl first)]
    refine ⟨⟨.inl, fun either => either.resolve_right fun busy => busy idle⟩, fun _ => ?_⟩
    rw [source, (later.still r live (.inr idle₂)).1, (step.still r live (.inr idle)).1, unchanged]
  · have handled := (handles idle).passes later live
    exact ⟨⟨fun _ => .inr idle, fun _ => handled⟩, fun lost => absurd handled lost⟩

end Cycle

end

namespace Cycle

/-- Two phantom references that have queues refer to the same object. Whichever comes second in a list is
passed over. -/
def twoPhantoms : Cycle :=
  let reference := Region.arenaBase 0
  let referent := reference + 64
  let tag := Tag.make (some .phantom) false true false 0
  let source := (Heap.small.afterAll [.attach 0 "main", .request 0 24 {}, .request 0 24 {},
    .request 0 24 { untracked := true }, .write reference 0 1 tag, .write (reference + 32) 0 1 tag,
    .write reference Object.referentWord 1 referent,
    .write (reference + 32) Object.referentWord 1 referent]).source
  { source, tables := {}, marking := .start source }

theorem twoPhantoms_handled : ∃ c',
    handleReferences .phantom .preserve ([Region.arenaBase 0] ++ [Region.arenaBase 0 + 32]) twoPhantoms
        = .ok () c'
      ∧ c'.Handled (Region.arenaBase 0) ∧ ¬ c'.Handled (Region.arenaBase 0 + 32) := by
  have run := Action.eq_ok_of_succeeds (show (handleReferences .phantom .preserve
    ([Region.arenaBase 0] ++ [Region.arenaBase 0 + 32])).succeeds twoPhantoms = true by decide +kernel)
  have sound : twoPhantoms.source.Sound := (Heap.reachable_small.afterAll _).sound.1.1
  have fits : twoPhantoms.marking.Fits twoPhantoms.source := fits_start sound
  have known : ∀ q ∈ [Region.arenaBase 0] ++ [Region.arenaBase 0 + 32],
      twoPhantoms.source.isPublished q = true ∧ (twoPhantoms.source.kind? q).isSome = true := by
    decide +kernel
  have unmarked : twoPhantoms.marking.isMarked (Region.arenaBase 0 + 64) = false :=
    isMarked_start ..
  refine ⟨_, run, ?_, fun handled => ?_⟩
  · exact (handled_iff [] _ sound fits (by decide) known List.not_mem_nil (by decide +kernel) unmarked
      run).1.2 (.inr fun earlier => by simp at earlier)
  · have either := (handled_iff _ [] sound fits (by decide) known (by decide +kernel) (by decide +kernel)
      unmarked run).1.1 handled
    rcases either with (none | ⟨_, queued⟩) | alone
    · revert none
      decide +kernel
    · exact List.not_mem_nil queued
    · exact alone (by decide +kernel)

end Cycle

end ManagedHeap
