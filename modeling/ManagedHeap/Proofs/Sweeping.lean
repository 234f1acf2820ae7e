import ManagedHeap.Marking.Sweep
import ManagedHeap.Proofs.Tracing
import ManagedHeap.Proofs.Walks

/-!
Sweeping. What lives afterwards is what lived before and has a mark.
-/

namespace ManagedHeap

namespace Cycle

open Action

variable {s₀ : Source} {m : Marking} {c c' c'' : Cycle} {gone gone' : Nat → Prop} {x y : Nat}

/-- Objects were freed, and nothing else was done to the arenas and the marks. -/
structure Sweeps (gone : Nat → Prop) (c c' : Cycle) : Prop where
  sound : c'.source.Sound
  published : ∀ y, c'.source.isPublished y = true ↔ ¬ gone y ∧ c.source.isPublished y = true
  memory : c'.source.arenas.map Arena.memory = c.source.arenas.map Arena.memory
  sites : c'.source.sites = c.source.sites
  maximum : c'.source.absoluteMax = c.source.absoluteMax
  marking : c'.marking = c.marking
  tables : ∃ scheduled, c'.tables = { c.tables with scheduled }
  scheduled : ∀ y, y ∈ c'.tables.scheduled ↔ ¬ gone y ∧ y ∈ c.tables.scheduled

/-- Where a sweep breaks off only objects were freed that were to be. -/
def SweepStopped (may : Nat → Prop) (c : Cycle) (cause : Failure) (c' : Cycle) : Prop :=
  (∃ gone, (∀ y, gone y → may y) ∧ Sweeps gone c c') ∧ ¬ cause.Overflows

theorem Sweeps.refl (sound : c.source.Sound) (none : ∀ y, ¬ gone y) : Sweeps gone c c where
  sound := sound
  published y := ⟨fun live => ⟨none y, live⟩, And.right⟩
  memory := rfl
  sites := rfl
  maximum := rfl
  marking := rfl
  tables := ⟨c.tables.scheduled, rfl⟩
  scheduled y := ⟨fun known => ⟨none y, known⟩, And.right⟩

theorem Sweeps.trans {total : Nat → Prop} (first : Sweeps gone c c')
    (second : Sweeps gone' c' c'') (both : ∀ y, total y ↔ gone y ∨ gone' y) :
    Sweeps total c c'' where
  sound := second.sound
  published y := by
    rw [second.published, first.published, both, not_or]
    constructor
    · rintro ⟨later, before, live⟩
      exact ⟨⟨before, later⟩, live⟩
    · rintro ⟨⟨before, later⟩, live⟩
      exact ⟨later, before, live⟩
  memory := second.memory.trans first.memory
  sites := second.sites.trans first.sites
  maximum := second.maximum.trans first.maximum
  marking := second.marking.trans first.marking
  tables := by
    obtain ⟨before, tables⟩ := first.tables
    obtain ⟨after, tables'⟩ := second.tables
    exact ⟨after, by rw [tables', tables]⟩
  scheduled y := by
    rw [second.scheduled, first.scheduled, both, not_or]
    constructor
    · rintro ⟨later, before, known⟩
      exact ⟨⟨before, later⟩, known⟩
    · rintro ⟨⟨before, later⟩, known⟩
      exact ⟨later, before, known⟩

theorem Sweeps.stopped {cause : Failure} {may may' : Nat → Prop} (first : Sweeps gone c c')
    (known : ∀ y, gone y → may y) (stop : SweepStopped may' c' cause c'')
    (known' : ∀ y, may' y → may y) : SweepStopped may c cause c'' := by
  obtain ⟨⟨gone', later, second⟩, other⟩ := stop
  refine ⟨⟨_, fun y swept => ?_, first.trans second fun _ => Iff.rfl⟩, other⟩
  exact swept.elim (known y) fun swept' => known' y (later y swept')

/-- The sweep breaks off before it begins. -/
theorem sweepStopped_refl {may : Nat → Prop} {cause : Failure} (sound : c.source.Sound)
    (other : ¬ cause.Overflows) : SweepStopped may c cause c :=
  ⟨⟨fun _ => False, fun _ => False.elim, Sweeps.refl sound fun _ => id⟩, other⟩

theorem freeEach_spec (garbage : List Nat) (sound : c.source.Sound) (freed : Nat) :
    (freeEach freed garbage).Ends c (fun _ c' => Sweeps (· ∈ garbage) c c')
      (SweepStopped (· ∈ garbage) c) := by
  induction garbage generalizing c freed with
  | nil => exact ends_pure.2 (Sweeps.refl sound fun _ => List.not_mem_nil)
  | cons x rest ih =>
    simp only [freeEach, modifyTables, ends_bind, ends_on, ends_modify]
    refine ((Source.free_spec sound x).and (Source.free_spares x c.source)).imp ?_ ?_
    · rintro bytes s ⟨frees, -⟩
      let c₁ : Cycle := { c with
        source := s
        tables := { c.tables with scheduled := c.tables.scheduled.filter (· != x) } }
      have forgotten : ∀ y, y ∈ c₁.tables.scheduled ↔ ¬ y = x ∧ y ∈ c.tables.scheduled := by
        intro y
        rw [List.mem_filter, bne_iff_ne, and_comm]
      have first : Sweeps (· = x) c c₁ := ⟨frees.sound, frees.published, frees.memory, frees.sites,
        frees.maximum, rfl, ⟨_, rfl⟩, forgotten⟩
      refine (ih frees.sound (freed + bytes)).imp ?_ ?_
      · intro _ c₂ second
        exact first.trans second fun y => List.mem_cons
      · intro cause c₂ stop
        exact first.stopped (fun y same => List.mem_cons.2 (.inl same)) stop
          fun y later => List.mem_cons_of_mem _ later
    · rintro cause s ⟨rfl, other⟩
      exact sweepStopped_refl sound other

/-- What lives within one range and has no mark over it. -/
theorem mem_unmarked_iff {s : Source} {number : Nat} {mark : Bitmap} (sound₀ : s₀.Sound)
    (fits : m.Fits s₀) (sound : s.Sound) (sites : s.sites = s₀.sites) {i : Nat}
    (here : m.live[i]? = some number) (marks : m.marks[i]? = some mark) (y : Nat) :
    y ∈ (s.bitmap number).unmarked mark ↔ m.isMarked y = false
      ∧ s.isPublished y = true ∧ (s₀.bitmap number).mayContain y = true := by
  have published : s.published = s₀.published := by
    rw [sound.published, sites, sound₀.published]
  have member : number ∈ s₀.published := fits.numbers ▸ List.mem_of_getElem? here
  have member' : number ∈ s.published := published ▸ member
  obtain ⟨a, arena, rfl⟩ := sound.mem_published.1 member'
  have range := sound₀.mayContain_congr sound sites (x := y) member
  have told : (s₀.bitmap a.live).mayContain y = true → m.isMarked y = mark.bitAt y := by
    intro covered
    rw [Marking.isMarked_eq sound₀ fits here covered, List.getD_eq_getElem?_getD, marks,
      Option.getD_some]
  rw [(sound.bitmap_sound arena).mem_unmarked]
  constructor
  · rintro ⟨bit, unmarked⟩
    have covered := Bitmap.mayContain_of_test bit
    rw [sound.test_eq_isPublished member' covered] at bit
    rw [range] at covered
    exact ⟨(told covered).trans unmarked, bit, covered⟩
  · rintro ⟨unmarked, live, covered⟩
    refine ⟨?_, (told covered).symm.trans unmarked⟩
    rw [sound.test_eq_isPublished member' (range.trans covered)]
    exact live

/-- What the marks over one range leave unmarked is freed. -/
theorem sweepEach_spec (sound₀ : s₀.Sound) (fits : m.Fits s₀) (pairs : List (Nat × Bitmap))
    (known : ∀ p ∈ pairs, ∃ i : Nat, m.live[i]? = some p.1 ∧ m.marks[i]? = some p.2)
    (sound : c.source.Sound) (sites : c.source.sites = s₀.sites) :
    (sweepEach pairs).Ends c (fun _ c' => Sweeps
      (fun y => m.isMarked y = false ∧ c.source.isPublished y = true
        ∧ ∃ p ∈ pairs, (s₀.bitmap p.1).mayContain y = true) c c')
      (SweepStopped (fun y => m.isMarked y = false) c) := by
  induction pairs generalizing c with
  | nil =>
    refine ends_pure.2 (Sweeps.refl sound ?_)
    rintro y ⟨-, -, p, none, -⟩
    exact absurd none List.not_mem_nil
  | cons p rest ih =>
    obtain ⟨i, here, marks⟩ := known p List.mem_cons_self
    obtain ⟨number, mark⟩ := p
    have garbage := mem_unmarked_iff sound₀ fits sound sites here marks
    simp only [sweepEach, ends_bind, ends_get, ends_lift, ends_pure]
    refine ⟨fun swept walk => ?_, fun cause _ => sweepStopped_refl sound id⟩
    cases Bitmap.eq_unmarked_of_sweepWalk walk
    have unmarked : ∀ y ∈ (c.source.bitmap number).unmarked mark, m.isMarked y = false :=
      fun y member => ((garbage y).1 member).1
    refine (freeEach_spec _ sound 0).imp (fun bytes c₁ first => ?_) ?_
    case refine_2 =>
      rintro cause c₁ ⟨⟨gone, some, sweeps⟩, other⟩
      exact ⟨⟨gone, fun y swept => unmarked y (some y swept), sweeps⟩, other⟩
    refine (ih (fun p later => known p (List.mem_cons_of_mem _ later)) first.sound
      (first.sites.trans sites)).imp ?_ fun _ _ stop => first.stopped unmarked stop fun _ => id
    intro _ c₂ second
    refine first.trans second fun y => ?_
    have live₁ := first.published y
    rw [garbage] at live₁ ⊢
    constructor
    · rintro ⟨unmarked, live, p, member, covered⟩
      rcases List.mem_cons.1 member with rfl | later
      · exact .inl ⟨unmarked, live, covered⟩
      · by_cases now : (s₀.bitmap number).mayContain y = true
        · exact .inl ⟨unmarked, live, now⟩
        · exact .inr ⟨unmarked, live₁.2 ⟨fun swept => now swept.2.2, live⟩, p, later, covered⟩
    · rintro (⟨unmarked, live, covered⟩ | ⟨unmarked, live, p, later, covered⟩)
      · exact ⟨unmarked, live, _, List.mem_cons_self, covered⟩
      · exact ⟨unmarked, (live₁.1 live).2, p, List.mem_cons_of_mem _ later, covered⟩

variable [ObjectModel] {start : Nat → Prop}

/-- After the sweep the marked objects live. -/
theorem sweep_spec (sound : s₀.Sound) (tracing : Tracing s₀ start c) : sweep.Ends c
    (fun _ c' => (∀ y, c'.source.isPublished y = true ↔ c.marking.isMarked y = true)
      ∧ ∃ gone, Sweeps gone c c') (SweepStopped (fun y => c.marking.isMarked y = false) c) := by
  have steady := tracing.cleared.steady
  have fits := tracing.fits
  simp only [sweep, ends_bind, ends_get]
  refine (sweepEach_spec sound fits _ ?_ steady.sound tracing.cleared.sites).mono ?_
  · rintro ⟨number, mark⟩ pair
    obtain ⟨i, here⟩ := List.getElem?_of_mem pair
    rw [List.getElem?_zip_eq_some] at here
    exact ⟨i, here⟩
  · intro _ c' sweeps
    refine ⟨fun y => ?_, _, sweeps⟩
    rw [sweeps.published, steady.published]
    constructor
    · rintro ⟨kept, live⟩
      cases unmarked : c.marking.isMarked y with
      | true => rfl
      | false =>
        obtain ⟨number, member, covered⟩ := fits.covers live
        obtain ⟨i, here⟩ := List.getElem?_of_mem member
        have bound : i < c.marking.marks.length :=
          fits.length ▸ (List.getElem?_eq_some_iff.1 here).1
        have pair : (number, c.marking.marks[i]) ∈ c.marking.live.zip c.marking.marks :=
          List.mem_of_getElem?
            (List.getElem?_zip_eq_some.2 ⟨here, List.getElem?_eq_getElem bound⟩)
        exact absurd ⟨unmarked, live, _, pair, covered⟩ kept
    · intro marked
      refine ⟨fun swept => ?_, tracing.live marked⟩
      rw [marked] at swept
      cases swept.1

end Cycle

end ManagedHeap
