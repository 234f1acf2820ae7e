import Mathlib.Data.List.Nodup
import Mathlib.Data.List.Perm.Subperm
import ManagedHeap.Proofs.Cycles
import ManagedHeap.Proofs.Deeds
import ManagedHeap.Proofs.MarkContexts
import ManagedHeap.Proofs.Tracing

/-!
That a collection comes to every object once at most. An object goes on the mark stack when it gets
its mark, and is traced when it is taken from there; so what was traced and what is on the stack are
together what was pushed and what was there to begin with, and nothing is among these twice.
-/

namespace ManagedHeap

namespace Cycle

/-- The object lives and has no mark, at the place that it belongs to. -/
structure Pale (c : Cycle) (i x : Nat) : Prop where
  place : c.place? x = some i
  live : (c.liveAt i).test x = true
  bare : (c.marksAt i).test x = false

/-- Puts an object on the stack. -/
def push (c : Cycle) (x : Nat) : Cycle :=
  { c with marking := { c.marking with stack := { c.marking.stack with
      entries := x :: c.marking.stack.entries, room := c.marking.stack.room - 1 } } }

/-- The same objects live and have marks, and the count of the marks is the same. -/
structure MarkedAlike (c c' : Cycle) : Prop where
  bitmaps : c'.source.bitmaps = c.source.bitmaps
  live : c'.marking.live = c.marking.live
  marks : c'.marking.marks = c.marking.marks
  marked : c'.marking.marked = c.marking.marked

/-- The stack holds marked objects, each once. -/
structure Stacked (c : Cycle) : Prop where
  distinct : c.marking.stack.entries.Nodup
  marked : ∀ x ∈ c.marking.stack.entries, c.hasMark x = true

/-- The stack is too small for the live objects and those on it. -/
def Cramped (c : Cycle) : Prop :=
  ∃ objects : List Nat, objects.Nodup
    ∧ (∀ x ∈ objects, c.isLive x = true ∨ x ∈ c.marking.stack.entries)
    ∧ c.marking.stack.capacity < objects.length

variable {c c' : Cycle}

/-- The stack is not too small if it takes all live objects and has none but these. -/
theorem Charted.not_cramped (charted : c.Charted)
    (live : ∀ x ∈ c.marking.stack.entries, c.isLive x = true)
    (ample : c.liveObjects.length ≤ c.marking.stack.capacity) : ¬ c.Cramped := by
  rintro ⟨objects, nodup, known, many⟩
  have few := (nodup.subperm fun x member =>
    charted.mem_liveObjects.2 ((known x member).elim id (live x))).length_le
  omega

theorem isLive_congr (bitmaps : c'.source.bitmaps = c.source.bitmaps)
    (live : c'.marking.live = c.marking.live) (x : Nat) : c'.isLive x = c.isLive x := by
  simp only [isLive, Source.bitmap, bitmaps, live]

theorem place_congr (bitmaps : c'.source.bitmaps = c.source.bitmaps)
    (live : c'.marking.live = c.marking.live) (x : Nat) : c'.place? x = c.place? x := by
  simp only [place?, Source.bitmap, bitmaps, live]

theorem liveAt_congr (bitmaps : c'.source.bitmaps = c.source.bitmaps)
    (live : c'.marking.live = c.marking.live) (i : Nat) : c'.liveAt i = c.liveAt i := by
  simp only [liveAt, Source.bitmap, bitmaps, live]

theorem marksAt_congr (marks : c'.marking.marks = c.marking.marks) (i : Nat) :
    c'.marksAt i = c.marksAt i := by
  rw [marksAt, marks, marksAt]

theorem MarkedAlike.charted (alike : MarkedAlike c c') (charted : c.Charted) : c'.Charted where
  length := by
    rw [alike.marks, alike.live]
    exact charted.length
  live := by
    intro number member
    rw [Source.bitmap, alike.bitmaps]
    exact charted.live number (alike.live ▸ member)
  marks := by
    rw [alike.marks]
    exact charted.marks
  range := by
    intro i bound x
    rw [marksAt_congr alike.marks, liveAt_congr alike.bitmaps alike.live]
    exact charted.range i (alike.live ▸ bound) x

end Cycle

namespace Recorded

open Action Cycle

variable {α : Type} {c₀ c' : Cycle} {r : Recorded} {deed : Deed} {x y i : Nat}
  {done : α → Recorded → Prop} {failed : Failure → Recorded → Prop}

theorem ends_within {a : Action Cycle α} : (within a).Ends r done failed
    ↔ a.Ends r.cycle (fun value c => done value ⟨c, r.deeds⟩) fun cause c => failed cause ⟨c, r.deeds⟩ :=
  ends_on

theorem ends_look {done : Cycle → Recorded → Prop} :
    (within get).Ends r done failed ↔ done r.cycle r := ends_on.trans ends_get

/-! ### What is written down -/

/-- What is written down does not count among some. -/
theorem note_same {pick : Deed → Option Nat} (other : pick deed = none) :
    (r.note deed).deeds.filterMap pick = r.deeds.filterMap pick := by
  rw [note, List.filterMap_append, List.filterMap_cons_none other, List.filterMap_nil,
    List.append_nil]

theorem note_new {pick : Deed → Option Nat} (new : pick deed = some x) :
    (r.note deed).deeds.filterMap pick = r.deeds.filterMap pick ++ [x] := by
  rw [note, List.filterMap_append, List.filterMap_cons_some new, List.filterMap_nil]

/-! ### The marks and those written down -/

/-- The marks that are set are those of the moment when nothing was written down, and those that were
written down since. These were set on live objects that had none. -/
structure Marked (c₀ : Cycle) (r : Recorded) : Prop where
  bitmaps : r.cycle.source.bitmaps = c₀.source.bitmaps
  live : r.cycle.marking.live = c₀.marking.live
  charted : r.cycle.Charted
  marks : ∀ i x, (r.cycle.marksAt i).test x = true
    ↔ (c₀.marksAt i).test x = true ∨ c₀.place? x = some i ∧ x ∈ r.marked
  fresh : ∀ x ∈ r.marked, c₀.isLive x = true ∧ c₀.hasMark x = false
  once : r.marked.Nodup
  count : c₀.marking.bits + r.cycle.marking.marked = c₀.marking.marked + r.cycle.marking.bits
  counted : ∀ x m, .marked x m ∈ r.deeds → c₀.marking.bits + m.marked = c₀.marking.marked + m.bits

theorem marked_start (charted : c₀.Charted) : Marked c₀ ⟨c₀, []⟩ where
  bitmaps := rfl
  live := rfl
  charted := charted
  marks _ _ := ⟨.inl, fun either => either.resolve_right fun marked => List.not_mem_nil marked.2⟩
  fresh := List.forall_mem_nil _
  once := List.nodup_nil
  count := Nat.add_comm ..
  counted _ _ none := absurd none List.not_mem_nil

theorem Marked.of_alike (marked : Marked c₀ r) (alike : MarkedAlike r.cycle c') :
    Marked c₀ ⟨c', r.deeds⟩ where
  bitmaps := alike.bitmaps.trans marked.bitmaps
  live := alike.live.trans marked.live
  charted := alike.charted marked.charted
  marks i x := by
    rw [marksAt_congr alike.marks]
    exact marked.marks i x
  fresh := marked.fresh
  once := marked.once
  count := by
    have bits : c'.marking.bits = r.cycle.marking.bits := by
      rw [Marking.bits, alike.marks, Marking.bits]
    rw [alike.marked, bits]
    exact marked.count
  counted := marked.counted

/-- Something else is written down. -/
theorem Marked.note (marked : Marked c₀ r) (other : deed.marked? = none) : Marked c₀ (r.note deed) := by
  have same : (r.note deed).marked = r.marked := note_same other
  refine ⟨marked.bitmaps, marked.live, marked.charted, ?_, ?_, ?_, marked.count, ?_⟩
  · rw [same]
    exact marked.marks
  · rw [same]
    exact marked.fresh
  · rw [same]
    exact marked.once
  · intro x m member
    rcases List.mem_append.1 member with before | new
    · exact marked.counted x m before
    · cases List.mem_singleton.1 new
      cases other

/-- An object that may be marked was not written down as marked before. -/
theorem Marked.pale (marked : Marked c₀ r) (pale : r.cycle.Pale i x) :
    c₀.place? x = some i ∧ c₀.isLive x = true ∧ c₀.hasMark x = false ∧ x ∉ r.marked := by
  have place : c₀.place? x = some i :=
    (place_congr marked.bitmaps marked.live x).symm.trans pale.place
  have live : (c₀.liveAt i).test x = true := by
    rw [← liveAt_congr marked.bitmaps marked.live]
    exact pale.live
  have bare := pale.bare
  rw [← Bool.not_eq_true, marked.marks, not_or] at bare
  refine ⟨place, isLive_of_place place live, ?_, fun member => bare.2 ⟨place, member⟩⟩
  rw [hasMark_of_place place, ← Bool.not_eq_true]
  exact bare.1

/-- A mark is set and written down. -/
def withMark (r : Recorded) (i x : Nat) : Recorded :=
  note ⟨r.cycle.putMark i x, r.deeds⟩ (.marked x (r.cycle.putMark i x).marking)

theorem lists_withMark (r : Recorded) (i x : Nat) :
    (r.withMark i x).marked = r.marked ++ [x] ∧ (r.withMark i x).pushed = r.pushed
      ∧ (r.withMark i x).traced = r.traced ∧ (r.withMark i x).listed = r.listed :=
  ⟨note_new rfl, note_same rfl, note_same rfl, note_same rfl⟩

theorem Marked.withMark (marked : Marked c₀ r) (pale : r.cycle.Pale i x) :
    Marked c₀ (r.withMark i x) := by
  obtain ⟨place, live, bare, absent⟩ := marked.pale pale
  have more := (lists_withMark r i x).1
  have bits := marked.charted.bits_putMark pale.place pale.bare
  have count : c₀.marking.bits + (r.withMark i x).cycle.marking.marked
      = c₀.marking.marked + (r.withMark i x).cycle.marking.bits := by
    change _ + (r.cycle.marking.marked + 1) = _ + (r.cycle.putMark i x).marking.bits
    have before := marked.count
    omega
  refine ⟨marked.bitmaps, marked.live, marked.charted.putMark pale.place, ?_, ?_, ?_, count, ?_⟩
  · intro j y
    rw [more, List.mem_append, List.mem_singleton]
    refine (marked.charted.test_putMark pale.place).trans ?_
    rw [marked.marks]
    constructor
    · rintro ((old | ⟨here, before⟩) | ⟨rfl, rfl⟩)
      · exact .inl old
      · exact .inr ⟨here, .inl before⟩
      · exact .inr ⟨place, .inr rfl⟩
    · rintro (old | ⟨here, before | rfl⟩)
      · exact .inl (.inl old)
      · exact .inl (.inr ⟨here, before⟩)
      · exact .inr ⟨Option.some.inj (place.symm.trans here), rfl⟩
  · intro y member
    rw [more, List.mem_append, List.mem_singleton] at member
    rcases member with before | rfl
    · exact marked.fresh y before
    · exact ⟨live, bare⟩
  · rw [more, ← List.concat_eq_append]
    exact marked.once.concat absent
  · intro y m member
    rcases List.mem_append.1 member with before | new
    · exact marked.counted y m before
    · cases List.mem_singleton.1 new
      exact count

/-! ### The stack and what was pushed, traced and listed -/

/-- What was pushed was marked, and what was listed was traced, each as often at most; and what was
traced and what is on the stack are together what was pushed and what was on the stack when nothing was
written down. -/
structure Orderly (c₀ : Cycle) (r : Recorded) : Prop extends Marked c₀ r where
  pushed : r.pushed.Sublist r.marked
  stack : (r.traced ++ r.cycle.marking.stack.entries).Perm (r.pushed ++ c₀.marking.stack.entries)
  listed : r.listed.Sublist r.traced
  capacity : r.cycle.marking.stack.capacity = c₀.marking.stack.capacity
  room : r.cycle.marking.stack.room + r.cycle.marking.stack.entries.length
    = c₀.marking.stack.capacity

/-- No object was marked for which there was no room on the stack. -/
structure Whole (c₀ : Cycle) (r : Recorded) : Prop extends Orderly c₀ r where
  all : r.pushed = r.marked

theorem whole_start (charted : c₀.Charted)
    (exact : c₀.marking.stack.room + c₀.marking.stack.entries.length = c₀.marking.stack.capacity) :
    Whole c₀ ⟨c₀, []⟩ :=
  ⟨⟨marked_start charted, .refl _, .refl _, .refl _, rfl, exact⟩, rfl⟩

theorem Whole.of_alike (whole : Whole c₀ r) (alike : MarkedAlike r.cycle c')
    (stack : c'.marking.stack = r.cycle.marking.stack) : Whole c₀ ⟨c', r.deeds⟩ := by
  refine ⟨⟨whole.toMarked.of_alike alike, whole.pushed, ?_, whole.listed, ?_, ?_⟩, whole.all⟩
  · rw [stack]
    exact whole.stack
  · rw [stack]
    exact whole.capacity
  · rw [stack]
    exact whole.room

/-- There is no room on the stack for the object that is marked. -/
theorem Orderly.withMark (orderly : Orderly c₀ r) (pale : r.cycle.Pale i x) :
    Orderly c₀ (r.withMark i x) := by
  obtain ⟨marked, pushed, traced, listed⟩ := lists_withMark r i x
  refine ⟨orderly.toMarked.withMark pale, ?_, ?_, ?_, orderly.capacity, orderly.room⟩
  · rw [pushed, marked]
    exact orderly.pushed.trans (List.sublist_append_left ..)
  · rw [traced, pushed]
    exact orderly.stack
  · rw [traced, listed]
    exact orderly.listed

/-- An object is marked and goes on the stack, both written down. -/
def withPush (r : Recorded) (i x : Nat) : Recorded :=
  note ⟨(r.withMark i x).cycle.push x, (r.withMark i x).deeds⟩ (.pushed x)

theorem lists_withPush (r : Recorded) (i x : Nat) :
    (r.withPush i x).marked = r.marked ++ [x] ∧ (r.withPush i x).pushed = r.pushed ++ [x]
      ∧ (r.withPush i x).traced = r.traced ∧ (r.withPush i x).listed = r.listed := by
  obtain ⟨marked, pushed, traced, listed⟩ := lists_withMark r i x
  rw [← marked, ← pushed, ← traced, ← listed]
  exact ⟨note_same rfl, note_new rfl, note_same rfl, note_same rfl⟩

theorem Whole.withPush (whole : Whole c₀ r) (pale : r.cycle.Pale i x)
    (space : 0 < r.cycle.marking.stack.room) : Whole c₀ (r.withPush i x) := by
  obtain ⟨marked, pushed, traced, listed⟩ := lists_withPush r i x
  have alike : MarkedAlike (r.withMark i x).cycle ((r.withMark i x).cycle.push x) :=
    ⟨rfl, rfl, rfl, rfl⟩
  have all : (r.withPush i x).pushed = (r.withPush i x).marked := by
    rw [pushed, marked, whole.all]
  refine ⟨⟨((whole.toMarked.withMark pale).of_alike alike).note rfl, ?_, ?_, ?_, whole.capacity, ?_⟩,
    all⟩
  · rw [all]
  · rw [traced, pushed, List.append_assoc]
    exact List.perm_middle.trans ((whole.stack.cons x).trans List.perm_middle.symm)
  · rw [traced, listed]
    exact whole.listed
  · have room := whole.room
    change r.cycle.marking.stack.room - 1 + (r.cycle.marking.stack.entries.length + 1) = _
    omega

/-- An object is traced that was taken from the stack, of which so much is left. -/
def withTrace (r : Recorded) (stack : MarkStack) (x : Nat) : Recorded :=
  note ⟨{ r.cycle with marking := { r.cycle.marking with stack } }, r.deeds⟩ (.traced x)

theorem lists_withTrace (r : Recorded) (stack : MarkStack) (x : Nat) :
    (r.withTrace stack x).marked = r.marked ∧ (r.withTrace stack x).pushed = r.pushed
      ∧ (r.withTrace stack x).traced = r.traced ++ [x] ∧ (r.withTrace stack x).listed = r.listed :=
  ⟨note_same rfl, note_same rfl, note_new rfl, note_same rfl⟩

theorem Whole.withTrace (whole : Whole c₀ r) {stack : MarkStack}
    (pop : r.cycle.marking.stack.pop? = some (x, stack)) : Whole c₀ (r.withTrace stack x) := by
  obtain ⟨marked, pushed, traced, listed⟩ := lists_withTrace r stack x
  obtain ⟨entries, more, capacity⟩ := MarkStack.pop_spec pop
  have order := whole.stack
  have room := whole.room
  rw [entries] at order room
  have alike : MarkedAlike r.cycle { r.cycle with marking := { r.cycle.marking with stack } } :=
    ⟨rfl, rfl, rfl, rfl⟩
  refine ⟨⟨(whole.toMarked.of_alike alike).note rfl, ?_, ?_, ?_, capacity.trans whole.capacity, ?_⟩,
    ?_⟩
  · rw [pushed, marked]
    exact whole.pushed
  · rw [traced, pushed, List.append_assoc]
    exact order
  · rw [listed, traced]
    exact whole.listed.trans (List.sublist_append_left ..)
  · rw [List.length_cons] at room
    change stack.room + stack.entries.length = _
    omega
  · rw [pushed, marked]
    exact whole.all

/-- An object that was traced after all that were listed goes on a list. -/
theorem Whole.list (whole : Whole c₀ r) {earlier : List Nat}
    (last : r.traced = earlier ++ [x]) (behind : r.listed.Sublist earlier) (kind : ReferenceKind) :
    Whole c₀ (r.note (.listed kind x)) := by
  have marked : (r.note (.listed kind x)).marked = r.marked := note_same rfl
  have pushed : (r.note (.listed kind x)).pushed = r.pushed := note_same rfl
  have traced : (r.note (.listed kind x)).traced = r.traced := note_same rfl
  have listed : (r.note (.listed kind x)).listed = r.listed ++ [x] := note_new rfl
  refine ⟨⟨whole.toMarked.note rfl, ?_, ?_, ?_, whole.capacity, whole.room⟩, ?_⟩
  · rw [pushed, marked]
    exact whole.pushed
  · rw [traced, pushed]
    exact whole.stack
  · rw [listed, traced, last]
    exact behind.append_right [x]
  · rw [pushed, marked]
    exact whole.all

/-! ### Nothing twice -/

/-- What was traced and what waits for it lives or was on the stack to begin with. -/
theorem Orderly.known (orderly : Orderly c₀ r)
    (member : x ∈ r.traced ++ r.cycle.marking.stack.entries) :
    c₀.isLive x = true ∨ x ∈ c₀.marking.stack.entries := by
  rcases List.mem_append.1 (orderly.stack.subset member) with pushed | before
  · exact .inl (orderly.fresh x (orderly.pushed.subset pushed)).1
  · exact .inr before

/-- It has a mark. -/
theorem Orderly.hasMark (orderly : Orderly c₀ r) (stacked : Stacked c₀)
    (member : x ∈ r.traced ++ r.cycle.marking.stack.entries) :
    c₀.hasMark x = true ∨ x ∈ r.marked := by
  rcases List.mem_append.1 (orderly.stack.subset member) with pushed | before
  · exact .inr (orderly.pushed.subset pushed)
  · exact .inl (stacked.marked x before)

/-- Nothing of it is there twice. -/
theorem Orderly.nodup (orderly : Orderly c₀ r) (stacked : Stacked c₀) :
    (r.traced ++ r.cycle.marking.stack.entries).Nodup := by
  refine orderly.stack.nodup_iff.2 (List.nodup_append.2
    ⟨orderly.once.sublist orderly.pushed, stacked.distinct, ?_⟩)
  rintro x pushed _ before rfl
  have bare := (orderly.fresh x (orderly.pushed.subset pushed)).2
  rw [stacked.marked x before] at bare
  cases bare

/-- Where there is no room for an object the stack is too small. -/
theorem Orderly.cramped (orderly : Orderly c₀ r) (stacked : Stacked c₀) (pale : r.cycle.Pale i x)
    (full : r.cycle.marking.stack.room = 0) : Cramped c₀ := by
  obtain ⟨-, live, bare, absent⟩ := orderly.toMarked.pale pale
  -- The full stack and this object are one object more than fits.
  have waits : ∀ {y}, y ∈ r.cycle.marking.stack.entries →
      y ∈ r.traced ++ r.cycle.marking.stack.entries := fun member => List.mem_append_right _ member
  refine ⟨x :: r.cycle.marking.stack.entries, List.nodup_cons.2 ⟨fun member => ?_, ?_⟩, ?_, ?_⟩
  · rcases orderly.hasMark stacked (waits member) with marked | marked
    · rw [bare] at marked
      cases marked
    · exact absent marked
  · exact (List.nodup_append.1 (orderly.nodup stacked)).2.1
  · intro y member
    rcases List.mem_cons.1 member with rfl | before
    · exact .inl live
    · exact orderly.known (waits before)
  · have room := orderly.room
    rw [List.length_cons]
    omega

/-! ### Marking and scanning -/

/-- What happens when an object is to be marked: nothing, or it gets its mark and goes on the stack where
there is room. -/
theorem mark_cases (charted : r.cycle.Charted) (x : Nat) : (mark x).Ends r
    (fun _ r' => r' = r
      ∨ ∃ i, r.cycle.Pale i x ∧ 0 < r.cycle.marking.stack.room ∧ r' = r.withPush i x)
    fun _ r' => ∃ i, r.cycle.Pale i x ∧ r.cycle.marking.stack.room = 0 ∧ r' = r.withMark i x := by
  rw [mark, ends_bind, ends_look]
  dsimp only
  split
  case h_1 => exact ends_pure.2 (.inl rfl)
  case h_2 i found =>
    have place : r.cycle.place? x = some i := found
    have bit : (r.cycle.marksAt i).test x = (r.cycle.marksAt i).bitAt x := by
      rw [Bitmap.test, charted.mayContain_marksAt place, Bool.true_and]
    rw [ends_ite]
    refine ⟨fun taken => ?_, fun _ => ends_pure.2 (.inl rfl)⟩
    rw [Bool.and_eq_true, Bool.not_eq_true'] at taken
    have pale : r.cycle.Pale i x := ⟨place, taken.1, bit.trans taken.2⟩
    rw [ends_bind, ends_modify]
    rcases r.cycle.marking.stack.push_cases x with ⟨full, push⟩ | ⟨space, push⟩
    · rw [push, ends_bind, ends_within, ends_set, ends_throw]
      exact ⟨i, pale, full, rfl⟩
    · rw [push, ends_bind, ends_modify, ends_within, ends_set]
      exact .inr ⟨i, pale, space, rfl⟩

/-- Marking leaves nothing out, and fails only where the stack is too small. -/
theorem mark_keeps (stacked : Stacked c₀) (whole : Whole c₀ r) (x : Nat) : (mark x).Ends r
    (fun _ r' => Whole c₀ r' ∧ r'.traced = r.traced ∧ r'.listed = r.listed)
    fun _ r' => Orderly c₀ r' ∧ Cramped c₀ := by
  refine (mark_cases whole.charted x).imp ?_ ?_
  · rintro - r' (rfl | ⟨i, pale, space, rfl⟩)
    · exact ⟨whole, rfl, rfl⟩
    · exact ⟨whole.withPush pale space, (lists_withPush r i x).2.2⟩
  · rintro - r' ⟨i, pale, full, rfl⟩
    exact ⟨whole.withMark pale, whole.cramped stacked pale full⟩

theorem markAll_keeps (stacked : Stacked c₀) (whole : Whole c₀ r) (objects : List Nat) :
    (markAll objects).Ends r
      (fun _ r' => Whole c₀ r' ∧ r'.traced = r.traced ∧ r'.listed = r.listed)
      fun _ r' => Orderly c₀ r' ∧ Cramped c₀ := by
  induction objects generalizing r with
  | nil => exact ends_pure.2 ⟨whole, rfl, rfl⟩
  | cons x rest ih =>
    rw [markAll, ends_bind]
    refine (mark_keeps stacked whole x).mono ?_
    rintro - r₁ ⟨whole₁, traced, listed⟩
    rw [← traced, ← listed]
    exact ih whole₁

variable [ObjectModel]

/-- An object that was just taken from the stack is traced, and listed once at most. -/
theorem visit_keeps (stacked : Stacked c₀) (taken : Whole c₀ (r.note (.traced x)))
    (behind : r.listed.Sublist r.traced) : (visit x).Ends r
      (fun _ r' => Whole c₀ r' ∧ r'.traced = r.traced ++ [x])
      fun _ r' => Orderly c₀ r' ∧ Cramped c₀ := by
  have traced₀ : (r.note (.traced x)).traced = r.traced ++ [x] := note_new rfl
  have listed₀ : (r.note (.traced x)).listed = r.listed := note_same rfl
  rw [visit, ends_bind, ends_modify, ends_bind, ends_look, ends_bind]
  refine (markAll_keeps stacked taken _).mono ?_
  rintro - r₁ ⟨whole₁, traced₁, listed₁⟩
  rw [traced₀] at traced₁
  rw [listed₀] at listed₁
  rw [ends_bind, ends_look]
  split
  case h_1 kind referent _ _ =>
    have follow : (mark referent).Ends r₁ (fun _ r' => Whole c₀ r' ∧ r'.traced = r.traced ++ [x])
        fun _ r' => Orderly c₀ r' ∧ Cramped c₀ :=
      (mark_keeps stacked whole₁ referent).mono fun _ _ marked =>
        ⟨marked.1, marked.2.1.trans traced₁⟩
    rw [ends_ite]
    refine ⟨fun _ => follow, fun _ => ?_⟩
    rw [ends_ite]
    refine ⟨fun _ => follow, fun _ => ?_⟩
    rw [ends_bind, ends_modify, ends_within, modifyMarking, ends_modify]
    have listed := whole₁.list traced₁ (listed₁ ▸ behind) kind
    refine ⟨listed.of_alike ⟨rfl, rfl, rfl, rfl⟩ rfl, ?_⟩
    have same : (r₁.note (.listed kind x)).traced = r₁.traced := note_same rfl
    exact same.trans traced₁
  case h_2 => exact ends_pure.2 ⟨whole₁, traced₁⟩

/-- Every step of a scan traces an object, as long as there are any on the stack. -/
theorem scanUpTo_keeps (stacked : Stacked c₀) (whole : Whole c₀ r) (budget : Nat) :
    (scanUpTo budget).Ends r
      (fun _ r' => Whole c₀ r' ∧ ∃ more, r'.traced = r.traced ++ more
        ∧ (r'.cycle.marking.stack.entries = [] ∨ more.length = budget))
      fun _ r' => Orderly c₀ r' ∧ Cramped c₀ := by
  -- The stack may grow at any step, so what is counted is not its length but what was traced.
  induction budget generalizing r with
  | zero => exact ends_pure.2 ⟨whole, [], (List.append_nil _).symm, .inr rfl⟩
  | succ budget ih =>
    rw [scanUpTo, ends_bind, ends_look]
    cases pop : r.cycle.marking.stack.pop? with
    | none =>
      exact ends_pure.2 ⟨whole, [], (List.append_nil _).symm, .inl (MarkStack.entries_of_pop_none pop)⟩
    | some top =>
      obtain ⟨x, stack⟩ := top
      dsimp only
      rw [ends_bind, ends_within, ends_set, ends_bind]
      refine (visit_keeps stacked (whole.withTrace pop) whole.listed).mono ?_
      rintro - r₁ ⟨whole₁, traced₁⟩
      refine (ih whole₁).mono ?_
      rintro - r₂ ⟨whole₂, more, traced₂, ending⟩
      refine ⟨whole₂, x :: more, ?_, ending.imp_right (congrArg (· + 1))⟩
      rw [traced₂, traced₁, List.append_assoc]
      rfl

omit [ObjectModel] in
/-- More objects than are on the stack and live cannot be traced. -/
theorem Whole.length_lt_scanBudget {r' : Recorded} (whole : Whole c₀ r) (whole' : Whole c₀ r')
    (stacked : Stacked c₀) {more : List Nat} (traced : r'.traced = r.traced ++ more) :
    more.length < r.cycle.scanBudget := by
  have nodup := (List.nodup_append.1 (whole'.nodup stacked)).1
  rw [traced] at nodup
  obtain ⟨-, once, apart⟩ := List.nodup_append.1 nodup
  have inside : more ⊆ r.cycle.marking.stack.entries ++ r.cycle.liveObjects := by
    intro x member
    have known : x ∈ r'.traced ++ r'.cycle.marking.stack.entries := by
      rw [traced]
      exact List.mem_append_left _ (List.mem_append_right _ member)
    rcases whole'.known known with live | before
    · rw [← isLive_congr whole.bitmaps whole.live] at live
      exact List.mem_append_right _ (whole.charted.mem_liveObjects.2 live)
    · have waited := whole.stack.symm.subset (List.mem_append_right r.pushed before)
      refine List.mem_append_left _ ((List.mem_append.1 waited).resolve_left fun done => ?_)
      exact apart x done x member rfl
  have few := (once.subperm inside).length_le
  rw [List.length_append] at few
  rw [scanBudget_eq]
  exact Nat.lt_succ_of_le few

/-- A scan leaves nothing on the stack. -/
theorem scan_keeps (stacked : Stacked c₀) (whole : Whole c₀ r) : scan.Ends r
    (fun _ r' => Whole c₀ r' ∧ r'.cycle.marking.stack.entries = [])
    fun _ r' => Orderly c₀ r' ∧ Cramped c₀ := by
  rw [scan, ends_bind, ends_look]
  refine (scanUpTo_keeps stacked whole _).mono ?_
  rintro - r' ⟨whole', more, traced, empty | long⟩
  · exact ⟨whole', empty⟩
  · have short := whole.length_lt_scanBudget whole' stacked traced
    omega

end Recorded

end ManagedHeap
