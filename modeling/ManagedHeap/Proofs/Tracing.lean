import ManagedHeap.Proofs.Actions
import ManagedHeap.Proofs.Marks

/-!
The tracing of a collection. Everything marked was reached, and what an object refers to is marked
once the object was taken from the stack and scanned, a referent not decided on apart.
-/

namespace ManagedHeap

/-- More objects live than a stack has entries for. -/
def Source.Crowded (s : Source) : Prop :=
  ∃ objects : List Nat, objects.Nodup ∧ (∀ x ∈ objects, s.isPublished x = true)
    ∧ s.absoluteMax / Size.minChunk < objects.length

/-- The reference was found and is not decided on. -/
def FoundReferences.Has (f : FoundReferences) (x : Nat) : Prop := ∃ kind, x ∈ f.ofKind kind

theorem MarkStack.push_cases (s : MarkStack) (x : Nat) :
    (s.room = 0 ∧ s.push? x = none) ∨ (0 < s.room
      ∧ s.push? x = some { s with entries := x :: s.entries, room := s.room - 1 }) := by
  by_cases full : s.room = 0
  · exact .inl ⟨full, by rw [push?, if_pos full]⟩
  · exact .inr ⟨Nat.pos_of_ne_zero full, by rw [push?, if_neg full]⟩

theorem MarkStack.entries_of_pop_none {s : MarkStack} (pop : s.pop? = none) : s.entries = [] := by
  unfold pop? at pop
  split at pop
  · assumption
  · cases pop

/-- What is left when the top object was taken. -/
theorem MarkStack.pop_spec {s rest : MarkStack} {x : Nat} (pop : s.pop? = some (x, rest)) :
    s.entries = x :: rest.entries ∧ rest.room = s.room + 1 ∧ rest.capacity = s.capacity := by
  unfold pop? at pop
  split at pop <;> cases pop
  exact ⟨‹_›, rfl, rfl⟩

namespace Cycle

open Action

variable [ObjectModel] {s₀ : Source} {start : Nat → Prop} {c c' c'' : Cycle} {x y : Nat}
  {waiting : List Nat}

/-- What holds throughout the marking that began with the arenas in the state `s₀`. -/
structure Tracing (s₀ : Source) (start : Nat → Prop) (c : Cycle) : Prop where
  cleared : Source.Cleared s₀ c.source
  fits : c.marking.Fits s₀
  reached : ∀ x, c.marking.isMarked x = true → s₀.Reached start x
  stacked : ∀ x ∈ c.marking.stack.entries, c.marking.isMarked x = true
  nodup : c.marking.stack.entries.Nodup
  room : c.marking.stack.room + c.marking.stack.entries.length = s₀.absoluteMax / Size.minChunk
  capacity : c.marking.stack.capacity = s₀.absoluteMax / Size.minChunk
  found : ∀ kind, ∀ x ∈ c.marking.found.ofKind kind,
    c.marking.isMarked x = true ∧ s₀.kind? x = some kind
  soft : c.marking.deferSoft = false → c.marking.found.soft = []
  latched : c.marking.latched = true → ∀ x, ¬ c.marking.found.Has x

/-- The object is marked and was taken from the stack. -/
def Black (c : Cycle) (x : Nat) : Prop :=
  c.marking.isMarked x = true ∧ x ∉ c.marking.stack.entries

/-- What the object refers to is marked, but for a referent that is decided on later. -/
structure Settled (s₀ : Source) (waiting : List Nat) (c : Cycle) (x : Nat) : Prop where
  children : ∀ y ∈ s₀.children x, s₀.isPublished y = true → c.marking.isMarked y = true
  referent : ∀ y, (s₀.kind? x).isSome = true → c.source.referent? x = some y →
    s₀.isPublished y = true →
      c.marking.isMarked y = true ∨ c.marking.found.Has x ∨ x ∈ waiting

/-- No scanned object refers to an unmarked one, but for the references that wait. -/
def Closed (s₀ : Source) (waiting : List Nat) (c : Cycle) : Prop :=
  ∀ x, c.Black x → Settled s₀ waiting c x

/-- Where a collection breaks off the arenas are sound. It runs out of stack for one reason only. -/
def Stopped (s₀ : Source) (cause : Failure) (c : Cycle) : Prop :=
  Source.Broken s₀ c.source ∧ (cause.Overflows → s₀.Crowded)

/-- What scanning does: it marks objects and finds references, and that is all. -/
structure Scans (s₀ : Source) (start : Nat → Prop) (c c' : Cycle) : Prop where
  tracing : Tracing s₀ start c'
  source : c'.source = c.source
  tables : c'.tables = c.tables
  softDecided : c'.softDecided = c.softDecided
  latched : c'.marking.latched = c.marking.latched
  deferSoft : c'.marking.deferSoft = c.marking.deferSoft
  marked : ∀ x, c.marking.isMarked x = true → c'.marking.isMarked x = true
  found : ∀ x, c.marking.found.Has x → c'.marking.found.Has x

/-- No object is taken from the stack. -/
structure Marks (s₀ : Source) (start : Nat → Prop) (c c' : Cycle) : Prop
    extends Scans s₀ start c c' where
  black : ∀ x, c'.Black x → c.Black x

theorem Tracing.live (tracing : Tracing s₀ start c) (marked : c.marking.isMarked x = true) :
    s₀.isPublished x = true := (tracing.reached x marked).live

theorem Tracing.scans (tracing : Tracing s₀ start c) : Scans s₀ start c c :=
  ⟨tracing, rfl, rfl, rfl, rfl, rfl, fun _ marked => marked, fun _ here => here⟩

theorem Tracing.marks (tracing : Tracing s₀ start c) : Marks s₀ start c c :=
  ⟨tracing.scans, fun _ black => black⟩

theorem Scans.trans (first : Scans s₀ start c c') (second : Scans s₀ start c' c'') :
    Scans s₀ start c c'' where
  tracing := second.tracing
  source := second.source.trans first.source
  tables := second.tables.trans first.tables
  softDecided := second.softDecided.trans first.softDecided
  latched := second.latched.trans first.latched
  deferSoft := second.deferSoft.trans first.deferSoft
  marked x marked := second.marked x (first.marked x marked)
  found x here := second.found x (first.found x here)

theorem Marks.trans (first : Marks s₀ start c c') (second : Marks s₀ start c' c'') :
    Marks s₀ start c c'' :=
  ⟨first.toScans.trans second.toScans, fun x black => first.black x (second.black x black)⟩

theorem Settled.scans (settled : Settled s₀ waiting c x) (scans : Scans s₀ start c c') :
    Settled s₀ waiting c' x where
  children y child live := scans.marked y (settled.children y child live)
  referent y isReference refers live := by
    rw [scans.source] at refers
    rcases settled.referent y isReference refers live with marked | found | waits
    · exact .inl (scans.marked y marked)
    · exact .inr (.inl (scans.found x found))
    · exact .inr (.inr waits)

theorem Tracing.stopped (tracing : Tracing s₀ start c) {cause : Failure}
    (other : ¬ cause.Overflows) : Stopped s₀ cause c :=
  ⟨tracing.cleared.steady.broken, fun overflow => absurd overflow other⟩

/-! ### Marking -/

/-- A mark on a live object that had none. -/
theorem Tracing.insert (tracing : Tracing s₀ start c)
    (reached : s₀.Reached start x) {i number : Nat} (here : c.marking.live[i]? = some number)
    (covered : (s₀.bitmap number).mayContain x = true) (unmarked : c.marking.isMarked x = false)
    (room : 0 < c.marking.stack.room) : Marks s₀ start c
      { c with marking := { c.marking with
          marks := c.marking.marks.modify i (·.insert x)
          stack := { c.marking.stack with
            entries := x :: c.marking.stack.entries, room := c.marking.stack.room - 1 }
          marked := c.marking.marked + 1 } } := by
  have fits := tracing.fits
  have marked : ∀ y, (c.marking.marks.modify i (·.insert x)).any (·.test y) = true
      ↔ y = x ∨ c.marking.isMarked y = true := fun y => Marking.isMarked_insert fits here covered
  have old : ∀ y, c.marking.isMarked y = true →
      (c.marking.marks.modify i (·.insert x)).any (·.test y) = true :=
    fun y before => (marked y).2 (.inr before)
  have fresh : x ∉ c.marking.stack.entries := by
    intro stacked
    rw [tracing.stacked x stacked] at unmarked
    cases unmarked
  refine ⟨⟨?_, rfl, rfl, rfl, rfl, rfl, old, fun _ found => found⟩, ?_⟩
  · refine ⟨tracing.cleared, fits.insert here covered rfl rfl, ?_, ?_, ?_, ?_, tracing.capacity, ?_,
      tracing.soft, tracing.latched⟩
    · intro y mark
      rcases (marked y).1 mark with rfl | before
      · exact reached
      · exact tracing.reached y before
    · intro y stacked
      rcases List.mem_cons.1 stacked with rfl | before
      · exact (marked y).2 (.inl rfl)
      · exact old y (tracing.stacked y before)
    · exact List.nodup_cons.2 ⟨fresh, tracing.nodup⟩
    · have total := tracing.room
      change c.marking.stack.room - 1 + (c.marking.stack.entries.length + 1) = _
      omega
    · intro kind y found
      exact ⟨old y (tracing.found kind y found).1, (tracing.found kind y found).2⟩
  · rintro y ⟨mark, taken⟩
    rw [List.mem_cons, not_or] at taken
    exact ⟨((marked y).1 mark).resolve_left taken.1, taken.2⟩

omit [ObjectModel] in
/-- All that marking an object can do: nothing, where it is marked or does not live, or put a mark on
it and put it on the stack, where there is room. -/
theorem mark_cases (sound : s₀.Sound) (bitmaps : c.source.bitmaps = s₀.bitmaps)
    (fits : c.marking.Fits s₀) : (mark x).Ends c
      (fun _ c' => (c' = c ∧ (s₀.isPublished x = true → c.marking.isMarked x = true))
        ∨ s₀.isPublished x = true ∧ c.marking.isMarked x = false ∧ 0 < c.marking.stack.room
          ∧ ∃ i number, c.marking.live[i]? = some number
            ∧ (s₀.bitmap number).mayContain x = true ∧ c' = { c with marking := { c.marking with
                marks := c.marking.marks.modify i (·.insert x)
                stack := { c.marking.stack with
                  entries := x :: c.marking.stack.entries, room := c.marking.stack.room - 1 }
                marked := c.marking.marked + 1 } })
      fun _ c' => c'.source = c.source ∧ c.marking.stack.room = 0 ∧ s₀.isPublished x = true
        ∧ c.marking.isMarked x = false := by
  have bitmap : ∀ number, c.source.bitmap number = s₀.bitmap number := by
    intro number
    rw [Source.bitmap, Source.bitmap, bitmaps]
  simp only [mark, ends_bind, ends_get, bitmap]
  split
  case h_1 nowhere =>
    refine ends_pure.2 (.inl ⟨rfl, fun live => ?_⟩)
    obtain ⟨number, member, covered⟩ := fits.covers live
    have missed := List.findIdx?_eq_none_iff.1 nowhere number member
    rw [covered] at missed
    cases missed
  case h_2 i found =>
    obtain ⟨bound, covered, -⟩ := List.findIdx?_eq_some_iff_getElem.1 found
    have here : c.marking.live[i]? = some c.marking.live[i] := List.getElem?_eq_getElem bound
    have number : c.marking.live.getD i 0 = c.marking.live[i] := by
      rw [List.getD_eq_getElem?_getD, here, Option.getD_some]
    have member : c.marking.live[i] ∈ s₀.published := fits.numbers ▸ List.getElem_mem bound
    simp only [number, sound.test_eq_isPublished member covered,
      ← Marking.isMarked_eq sound fits here covered]
    split
    case isFalse skipped =>
      refine ends_pure.2 (.inl ⟨rfl, fun live => ?_⟩)
      simpa [live] using skipped
    case isTrue taken =>
      rw [Bool.and_eq_true, Bool.not_eq_true'] at taken
      obtain ⟨live, unmarked⟩ := taken
      rcases c.marking.stack.push_cases x with ⟨full, push⟩ | ⟨room, push⟩
      · simp only [push, ends_bind, ends_set, ends_throw]
        exact ⟨trivial, full, live, unmarked⟩
      · simp only [push, ends_set]
        exact .inr ⟨live, unmarked, room, i, _, here, covered, rfl⟩

theorem mark_spec (sound : s₀.Sound) (tracing : Tracing s₀ start c)
    (reached : s₀.isPublished x = true → s₀.Reached start x) :
    (mark x).Ends c (fun _ c' => Marks s₀ start c c'
      ∧ (s₀.isPublished x = true → c'.marking.isMarked x = true)) (Stopped s₀) := by
  refine (mark_cases sound tracing.cleared.bitmaps tracing.fits).imp ?_ ?_
  · rintro - c' (⟨rfl, marked⟩ | ⟨live, unmarked, room, i, number, here, covered, rfl⟩)
    · exact ⟨tracing.marks, marked⟩
    · refine ⟨tracing.insert (reached live) here covered unmarked room, fun _ => ?_⟩
      exact (Marking.isMarked_insert tracing.fits here covered).2 (.inl rfl)
  · rintro cause c' ⟨source, full, live, unmarked⟩
    refine ⟨source ▸ tracing.cleared.steady.broken, fun _ => ?_⟩
    refine ⟨x :: c.marking.stack.entries, List.nodup_cons.2 ⟨?_, tracing.nodup⟩, ?_, ?_⟩
    · intro stacked
      rw [tracing.stacked x stacked] at unmarked
      cases unmarked
    · intro y member
      rcases List.mem_cons.1 member with rfl | stacked
      · exact live
      · exact tracing.live (tracing.stacked y stacked)
    · have total := tracing.room
      rw [List.length_cons]
      omega

theorem markAll_spec (sound : s₀.Sound) (objects : List Nat) (tracing : Tracing s₀ start c)
    (reached : ∀ x ∈ objects, s₀.isPublished x = true → s₀.Reached start x) :
    (markAll objects).Ends c (fun _ c' => Marks s₀ start c c'
      ∧ ∀ x ∈ objects, s₀.isPublished x = true → c'.marking.isMarked x = true) (Stopped s₀) := by
  induction objects generalizing c with
  | nil => exact ends_pure.2 ⟨tracing.marks, fun x none => absurd none List.not_mem_nil⟩
  | cons x rest ih =>
    simp only [markAll, ends_bind]
    refine (mark_spec sound tracing (reached x List.mem_cons_self)).mono ?_
    rintro - c₁ ⟨first, marked⟩
    refine (ih first.tracing fun y later => reached y (List.mem_cons_of_mem _ later)).mono ?_
    rintro - c₂ ⟨second, others⟩
    refine ⟨first.trans second, fun y member live => ?_⟩
    rcases List.mem_cons.1 member with rfl | later
    · exact second.marked y (marked live)
    · exact others y later live

/-! ### Scanning -/

omit [ObjectModel] in
theorem mem_add {f : FoundReferences} {kind other : ReferenceKind} :
    y ∈ (f.add kind x).ofKind other ↔ y ∈ f.ofKind other ∨ (other = kind ∧ y = x) := by
  cases kind <;> cases other <;> simp [FoundReferences.add, FoundReferences.ofKind]

/-- The object is remembered as a reference found. -/
theorem Tracing.find (tracing : Tracing s₀ start c) (marked : c.marking.isMarked x = true)
    {kind : ReferenceKind} (isReference : s₀.kind? x = some kind)
    (unlatched : c.marking.latched = false) (deferred : kind = .soft → c.marking.deferSoft = true) :
    Marks s₀ start c
      { c with marking := { c.marking with found := c.marking.found.add kind x } } := by
  refine ⟨⟨?_, rfl, rfl, rfl, rfl, rfl, fun _ mark => mark, ?_⟩, fun _ black => black⟩
  · refine ⟨tracing.cleared, tracing.fits.congr rfl rfl, tracing.reached, tracing.stacked,
      tracing.nodup, tracing.room, tracing.capacity, ?_, ?_, ?_⟩
    · intro other y found
      rcases mem_add.1 found with before | ⟨rfl, rfl⟩
      · exact tracing.found other y before
      · exact ⟨marked, isReference⟩
    · intro follow
      cases kind with
      | soft =>
        have defer : c.marking.deferSoft = false := follow
        rw [deferred rfl] at defer
        cases defer
      | weak => exact tracing.soft follow
      | phantom => exact tracing.soft follow
    · intro latched
      have closed : c.marking.latched = true := latched
      rw [unlatched] at closed
      cases closed
  · rintro y ⟨other, before⟩
    exact ⟨other, mem_add.2 (.inl before)⟩

/-- What an object refers to is settled once the object was looked at. -/
theorem visit_spec (sound : s₀.Sound) (waiting : List Nat) (tracing : Tracing s₀ start c)
    (marked : c.marking.isMarked x = true) :
    (visit x).Ends c (fun _ c' => Marks s₀ start c c' ∧ Settled s₀ waiting c' x) (Stopped s₀) := by
  have live := tracing.live marked
  have reached := tracing.reached x marked
  simp only [visit, ends_bind, ends_get, (tracing.cleared.kept _ live).children]
  refine (markAll_spec sound _ tracing fun y child => reached.child child).mono ?_
  rintro - c₁ ⟨first, children⟩
  have tracing₁ := first.tracing
  rw [(tracing₁.cleared.kept _ live).kind]
  have settle : ∀ {c₂ : Cycle}, Marks s₀ start c₁ c₂ →
      (∀ y, (s₀.kind? x).isSome = true → c₁.source.referent? x = some y →
        s₀.isPublished y = true → c₂.marking.isMarked y = true ∨ c₂.marking.found.Has x) →
      Marks s₀ start c c₂ ∧ Settled s₀ waiting c₂ x := by
    intro c₂ second referent
    refine ⟨first.trans second, fun y child live => second.marked y (children y child live), ?_⟩
    intro y isReference refers live
    rw [second.source] at refers
    exact (referent y isReference refers live).imp_right .inl
  split
  case h_1 kind referent isReference refers =>
    have before := ((tracing₁.cleared.kept x live).referent refers).1
    have follow : (mark referent).Ends c₁ (fun _ c' => Marks s₀ start c c'
        ∧ Settled s₀ waiting c' x) (Stopped s₀) := by
      refine (mark_spec sound tracing₁ fun there => ?_).mono ?_
      · exact reached.referent (by rw [isReference]; rfl) before there
      · rintro - c₂ ⟨second, there⟩
        refine settle second fun y _ refers' live' => ?_
        cases refers.symm.trans refers'
        exact .inl (there live')
    simp only [ends_ite]
    refine ⟨fun _ => follow, fun unforced => ⟨fun _ => follow, fun deferred => ?_⟩⟩
    have unlatched : c₁.marking.latched = false := by
      simp only [Bool.or_eq_true, not_or, Bool.not_eq_true] at unforced
      exact unforced.1
    refine ends_modify.2 (settle (tracing₁.find (first.marked x marked) isReference unlatched ?_) ?_)
    · rintro rfl
      simpa using deferred
    · intro y _ _ _
      exact .inr ⟨kind, mem_add.2 (.inr ⟨rfl, rfl⟩)⟩
  case h_2 nothing =>
    refine ends_pure.2 (settle tracing₁.marks fun y isReference refers _ => ?_)
    obtain ⟨kind, known⟩ := Option.isSome_iff_exists.1 isReference
    exact absurd refers (nothing kind y known)

/-- The top of the stack is taken. -/
theorem Tracing.pop (tracing : Tracing s₀ start c) {stack : MarkStack}
    (pop : c.marking.stack.pop? = some (x, stack)) :
    Scans s₀ start c { c with marking := { c.marking with stack } }
      ∧ c.marking.isMarked x = true
      ∧ ∀ y, Black { c with marking := { c.marking with stack } } y → y = x ∨ c.Black y := by
  obtain ⟨entries, more, capacity⟩ := MarkStack.pop_spec pop
  have stacked := tracing.stacked
  have nodup := tracing.nodup
  have total := tracing.room
  rw [entries] at stacked nodup total
  refine ⟨⟨?_, rfl, rfl, rfl, rfl, rfl, fun _ mark => mark, fun _ found => found⟩,
    stacked x List.mem_cons_self, ?_⟩
  · refine ⟨tracing.cleared, tracing.fits.congr rfl rfl, tracing.reached, ?_,
      (List.nodup_cons.1 nodup).2, ?_, capacity.trans tracing.capacity, tracing.found, tracing.soft,
      tracing.latched⟩
    · intro y later
      exact stacked y (List.mem_cons_of_mem _ later)
    · rw [List.length_cons] at total
      change stack.room + stack.entries.length = _
      omega
  · rintro y ⟨marked, taken⟩
    by_cases top : y = x
    · exact .inl top
    · refine .inr ⟨marked, ?_⟩
      rw [entries, List.mem_cons, not_or]
      exact ⟨top, taken⟩

theorem scanUpTo_spec (sound : s₀.Sound) (budget : Nat) (tracing : Tracing s₀ start c)
    (closed : Closed s₀ waiting c) : (scanUpTo budget).Ends c
      (fun _ c' => Scans s₀ start c c' ∧ Closed s₀ waiting c') (Stopped s₀) := by
  induction budget generalizing c with
  | zero => exact ends_pure.2 ⟨tracing.scans, closed⟩
  | succ budget ih =>
    simp only [scanUpTo, ends_bind, ends_get]
    cases pop : c.marking.stack.pop? with
    | none => exact ends_pure.2 ⟨tracing.scans, closed⟩
    | some top =>
      obtain ⟨x, stack⟩ := top
      obtain ⟨popped, marked, black⟩ := tracing.pop pop
      simp only [ends_bind, ends_set]
      refine (visit_spec sound waiting popped.tracing marked).mono ?_
      rintro - c₁ ⟨visited, settled⟩
      have closed₁ : Closed s₀ waiting c₁ := by
        intro y black₁
        rcases black y (visited.black y black₁) with rfl | before
        · exact settled
        · exact (closed y before).scans (popped.trans visited.toScans)
      refine (ih visited.tracing closed₁).mono ?_
      rintro - c₂ ⟨rest, closed₂⟩
      exact ⟨(popped.trans visited.toScans).trans rest, closed₂⟩

theorem scan_spec (sound : s₀.Sound) (tracing : Tracing s₀ start c)
    (closed : Closed s₀ waiting c) : scan.Ends c
      (fun _ c' => Scans s₀ start c c' ∧ Closed s₀ waiting c') (Stopped s₀) := by
  simp only [scan, ends_bind, ends_get]
  exact scanUpTo_spec sound _ tracing closed

end Cycle

end ManagedHeap
