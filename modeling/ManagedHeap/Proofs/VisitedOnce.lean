import Mathlib.Algebra.BigOperators.Group.List.Basic
import ManagedHeap.Object
import ManagedHeap.Proofs.Reachability
import ManagedHeap.Proofs.Visits

/-!
Every scan ends, however objects refer to each other, and all the scans of a collection together come
to no object twice.
-/

namespace ManagedHeap

namespace Cycle

open Action

variable {α : Type} {c c' c'' : Cycle} {x : Nat}

/-! ### What is done besides marking -/

/-- The marks, the live objects and the stack are the same. -/
structure StackedAlike (c c' : Cycle) : Prop extends MarkedAlike c c' where
  stack : c'.marking.stack = c.marking.stack

/-- The action leaves marks, live objects and the stack alone. -/
def Aside (a : Action Cycle α) : Prop := ∀ c, a.Preserves (StackedAlike c)

theorem StackedAlike.trans (first : StackedAlike c c') (second : StackedAlike c' c'') :
    StackedAlike c c'' where
  bitmaps := second.bitmaps.trans first.bitmaps
  live := second.live.trans first.live
  marks := second.marks.trans first.marks
  marked := second.marked.trans first.marked
  stack := second.stack.trans first.stack

theorem ignoresTables_stackedAlike (c : Cycle) : IgnoresTables (StackedAlike c) :=
  fun _ _ before => before.trans ⟨⟨rfl, rfl, rfl, rfl⟩, rfl⟩

theorem aside_get : Aside get := fun _ _ alike => ends_get.2 alike

theorem aside_modify {change : Cycle → Cycle} (alike : ∀ c, StackedAlike c (change c)) :
    Aside (modify change) := fun _ => preserves_modify fun c before => before.trans (alike c)

theorem aside_modifyTables (change : WorkTables → WorkTables) : Aside (modifyTables change) :=
  aside_modify fun _ => ⟨⟨rfl, rfl, rfl, rfl⟩, rfl⟩

theorem aside_latch : Aside latch := fun _ => preserves_get fun _ before =>
  ends_bind.2 (ends_modify.2 (ends_pure.2 (before.trans ⟨⟨rfl, rfl, rfl, rfl⟩, rfl⟩)))

theorem aside_clearReferent [ObjectModel] (x : Nat) :
    Aside (modify fun c => { c with source := c.source.clearReferent x }) :=
  aside_modify fun c => ⟨⟨c.source.bitmaps_setWords x _ 1 0, rfl, rfl, rfl⟩, rfl⟩

/-! ### Scans that end -/

/-- The mark stack of the context holds marked objects, each once, and there is room on it for all live
objects with those. -/
structure Scannable (c : Cycle) : Prop where
  charted : c.Charted
  stacked : c.Stacked
  exact : c.marking.stack.room + c.marking.stack.entries.length = c.marking.stack.capacity
  roomy : ¬ c.Cramped

/-- Where no two ranges overlap, it is enough that what is on the stack lives and has a mark somewhere. -/
theorem Charted.scannable (charted : c.Charted) (apart : ∀ x, ∀ i < c.marking.live.length,
      (c.liveAt i).mayContain x = true → c.place? x = some i)
    (distinct : c.marking.stack.entries.Nodup)
    (known : ∀ x ∈ c.marking.stack.entries, c.isLive x = true ∧ c.marking.isMarked x = true)
    (exact : c.marking.stack.room + c.marking.stack.entries.length = c.marking.stack.capacity)
    (ample : c.liveObjects.length ≤ c.marking.stack.capacity) : c.Scannable where
  charted := charted
  stacked := ⟨distinct, fun x waits =>
    (charted.hasMark_eq_isMarked (apart x)).trans (known x waits).2⟩
  exact := exact
  roomy := charted.not_cramped (fun x waits => (known x waits).1) ample

section

variable [ObjectModel]

theorem scanUpTo_of_empty (empty : c.marking.stack.entries = []) (budget : Nat) :
    scanUpTo budget c = .ok () c := by
  cases budget with
  | zero => rfl
  | succ budget =>
    rw [scanUpTo, bind_of_ok (show (get : Action Cycle Cycle) c = .ok c c from rfl)]
    simp only [MarkStack.pop?, empty]
    rfl

theorem scanUpTo_of_pop {stack : MarkStack} (pop : c.marking.stack.pop? = some (x, stack))
    (budget : Nat) : scanUpTo (budget + 1) c
      = (do visit x; scanUpTo budget) { c with marking := { c.marking with stack } } := by
  rw [scanUpTo, bind_of_ok (show (get : Action Cycle Cycle) c = .ok c c from rfl), pop]
  rfl

/-- A scan that has emptied the stack would go no further with more steps to take. -/
theorem scanUpTo_of_le {budget more : Nat} (run : scanUpTo budget c = .ok () c')
    (empty : c'.marking.stack.entries = []) (le : budget ≤ more) :
    scanUpTo more c = .ok () c' := by
  induction budget generalizing c more with
  | zero =>
    cases run
    exact scanUpTo_of_empty empty more
  | succ budget ih =>
    cases more with
    | zero => exact absurd le (Nat.not_succ_le_zero budget)
    | succ more =>
      cases pop : c.marking.stack.pop? with
      | none =>
        have nothing := MarkStack.entries_of_pop_none pop
        rw [scanUpTo_of_empty nothing] at run ⊢
        exact run
      | some top =>
        rw [scanUpTo_of_pop pop] at run ⊢
        cases visited : visit top.1 { c with marking := { c.marking with stack := top.2 } } with
        | ok _ c₁ =>
          rw [bind_of_ok visited] at run ⊢
          exact ih run (Nat.le_of_succ_le_succ le)
        | error cause c₁ =>
          rw [bind_of_error visited] at run
          cases run

end

end Cycle

namespace Recorded

open Action Cycle

variable {α β : Type} {c₀ : Cycle} {r : Recorded}

/-! ### All phases -/

/-- The action leaves nothing out where it comes to its end, and keeps all in order where it breaks
off. -/
def Keeps (c₀ : Cycle) (a : Action Recorded α) : Prop :=
  ∀ r, Whole c₀ r → a.Ends r (fun _ r' => Whole c₀ r') fun _ r' => Orderly c₀ r'

theorem Keeps.ends_bind {a : Action Recorded α} {next : α → Action Recorded β}
    {done : β → Recorded → Prop} (first : Keeps c₀ a) (whole : Whole c₀ r)
    (rest : ∀ value r', Whole c₀ r' → (next value).Ends r' done fun _ r'' => Orderly c₀ r'') :
    (a >>= next).Ends r done fun _ r' => Orderly c₀ r' :=
  Action.ends_bind.2 ((first r whole).mono rest)

theorem Keeps.then {a : Action Recorded α} {next : α → Action Recorded β} (first : Keeps c₀ a)
    (rest : ∀ value, Keeps c₀ (next value)) : Keeps c₀ (a >>= next) :=
  fun _ whole => first.ends_bind whole rest

theorem keeps_pure (value : α) : Keeps c₀ (pure value) := fun _ whole => ends_pure.2 whole

theorem keeps_throw (cause : Failure) : Keeps c₀ (throw cause : Action Recorded α) :=
  fun _ whole => ends_throw.2 whole.toOrderly

theorem Keeps.ite {p : Prop} [Decidable p] {a b : Action Recorded α} (yes : Keeps c₀ a)
    (no : Keeps c₀ b) : Keeps c₀ (if p then a else b) := by
  split
  · exact yes
  · exact no

theorem keeps_within {a : Action Cycle α} (aside : Aside a) : Keeps c₀ (within a) := by
  intro r whole
  have same : StackedAlike r.cycle r.cycle := ⟨⟨rfl, rfl, rfl, rfl⟩, rfl⟩
  have alike {c : Cycle} (alike : StackedAlike r.cycle c) : Whole c₀ ⟨c, r.deeds⟩ :=
    whole.of_alike alike.toMarkedAlike alike.stack
  exact ends_within.2 ((aside r.cycle r.cycle same).imp (fun _ _ => alike)
    fun _ _ broken => (alike broken).toOrderly)

variable (stacked : Stacked c₀)
include stacked

theorem keeps_mark (x : Nat) : Keeps c₀ (mark x) := fun _ whole =>
  (mark_keeps stacked whole x).imp (fun _ _ marked => marked.1) fun _ _ broken => broken.1

theorem keeps_markAll (objects : List Nat) : Keeps c₀ (markAll objects) := fun _ whole =>
  (markAll_keeps stacked whole objects).imp (fun _ _ marked => marked.1) fun _ _ broken => broken.1

theorem keeps_makePending (objects : List Nat) : Keeps c₀ (makePending objects) := by
  induction objects with
  | nil => exact keeps_pure ()
  | cons x rest ih =>
    refine (keeps_within aside_get).then fun c => ?_
    cases c.tables.pending.push? x with
    | none => exact (keeps_throw _).then fun _ => (keeps_mark stacked x).then fun _ => ih
    | some pending => exact (keeps_within (aside_modifyTables _)).then fun _ =>
        (keeps_mark stacked x).then fun _ => ih

variable [ObjectModel]

theorem keeps_scan : Keeps c₀ scan := fun _ whole =>
  (scan_keeps stacked whole).imp (fun _ _ scanned => scanned.1) fun _ _ broken => broken.1

theorem keeps_release (x referent : Nat) (kind : ReferenceKind) :
    Keeps c₀ (release x referent kind) := by
  refine (keeps_within aside_get).then fun c => ?_
  dsimp only
  generalize (if kind = .phantom then _ else _ : Bool) = needed
  cases needed with
  | true => exact (keeps_mark stacked referent).then fun _ => keeps_pure _
  | false => exact (keeps_within (aside_clearReferent x)).then fun _ => keeps_pure _

theorem keeps_handleReference (kind : ReferenceKind) (policy : SoftPolicy) (x : Nat) :
    Keeps c₀ (handleReference kind policy x) := by
  have decides : ∀ referent, Keeps c₀ (do
      let work ← release x referent kind
      within (Cycle.queueWork x work)) := fun referent =>
    (keeps_release stacked x referent kind).then fun work =>
      keeps_within fun c => (ignoresTables_stackedAlike c).queueWork x work
  have turn : Keeps c₀ (within takeTurn) :=
    keeps_within fun c => (ignoresTables_stackedAlike c).takeTurn
  refine (keeps_within aside_get).then fun c => ?_
  cases c.source.referent? x with
  | none => exact keeps_pure ()
  | some referent =>
    refine Keeps.ite (keeps_pure ()) (Keeps.ite (turn.then fun mine => ?_) (decides referent))
    exact Keeps.ite ((keeps_mark stacked referent).then fun _ => keeps_pure ()) (decides referent)

theorem keeps_handleEach (kind : ReferenceKind) (policy : SoftPolicy) (references : List Nat) :
    Keeps c₀ (handleEach kind policy references) := by
  induction references with
  | nil => exact keeps_pure ()
  | cons x rest ih => exact (keeps_handleReference stacked kind policy x).then fun _ => ih

theorem keeps_handleReferences (kind : ReferenceKind) (policy : SoftPolicy) (references : List Nat) :
    Keeps c₀ (handleReferences kind policy references) :=
  (keeps_handleEach stacked kind policy references).then fun _ => keeps_scan stacked

theorem keeps_handleSoft (policy : SoftPolicy) (references : List Nat) :
    Keeps c₀ (handleSoft policy references) := by
  have decided : Aside (modify fun c => { c with softDecided := true }) :=
    aside_modify fun _ => ⟨⟨rfl, rfl, rfl, rfl⟩, rfl⟩
  unfold handleSoft
  exact Keeps.ite (keeps_pure ()) ((keeps_handleReferences stacked .soft policy references).then
    fun _ => keeps_within decided)

theorem keeps_scheduleFinalizations : Keeps c₀ scheduleFinalizations :=
  (keeps_within aside_get).then fun _ => (keeps_within (aside_modifyTables _)).then fun _ =>
    (keeps_makePending stacked _).then fun _ => (keeps_scan stacked).then fun _ => keeps_pure _

/-- The last thing that tracing does is to scan. -/
theorem trace_keeps (whole : Whole c₀ r) (roots : List Nat) (policy : SoftPolicy) :
    (trace roots policy).Ends r
      (fun _ r' => Whole c₀ r' ∧ r'.cycle.marking.stack.entries = []) fun _ r' => Orderly c₀ r' := by
  have deferred : Aside (modifyMarking fun m => { m with deferSoft := policy != .preserve }) :=
    aside_modify fun _ => ⟨⟨rfl, rfl, rfl, rfl⟩, rfl⟩
  refine (keeps_markAll stacked roots).ends_bind whole fun _ r whole => ?_
  refine (keeps_within deferred).ends_bind whole fun _ r whole => ?_
  refine (keeps_scan stacked).ends_bind whole fun _ r whole => ?_
  refine (keeps_within aside_latch).ends_bind whole fun found r whole => ?_
  refine (keeps_handleSoft stacked policy found.soft).ends_bind whole fun _ r whole => ?_
  refine (keeps_handleReferences stacked .weak policy found.weak).ends_bind whole fun _ r whole => ?_
  refine (keeps_scheduleFinalizations stacked).ends_bind whole fun _ r whole => ?_
  refine (keeps_handleEach stacked .phantom policy found.phantom).ends_bind whole fun _ r whole => ?_
  exact (scan_keeps stacked whole).imp (fun _ _ scanned => scanned) fun _ _ broken => broken.1

/-! ### Nothing twice -/

/-- Since the state `c₀` no object was marked, pushed, traced or listed twice, and those marked were live
and had no mark. The marks and their count are those of that state and what was added to them. -/
structure Once (c₀ : Cycle) (r : Recorded) : Prop where
  marked : r.marked.Nodup
  pushed : r.pushed.Nodup
  traced : r.traced.Nodup
  listed : r.listed.Nodup
  fresh : ∀ x ∈ r.marked, c₀.isLive x = true ∧ c₀.hasMark x = false
  pushed_marked : r.pushed ⊆ r.marked
  traced_known : ∀ x ∈ r.traced, x ∈ r.pushed ∨ x ∈ c₀.marking.stack.entries
  listed_traced : r.listed ⊆ r.traced
  marks : ∀ x, r.cycle.marking.isMarked x = true ↔ c₀.marking.isMarked x = true ∨ x ∈ r.marked
  count : c₀.marking.bits + r.cycle.marking.marked = c₀.marking.marked + r.cycle.marking.bits
  counted : ∀ x m, .marked x m ∈ r.deeds → c₀.marking.bits + m.marked = c₀.marking.marked + m.bits

omit [ObjectModel] in
theorem Orderly.each_once (orderly : Orderly c₀ r) (charted : c₀.Charted) :
    Once c₀ r where
  marked := orderly.toMarked.once
  pushed := orderly.toMarked.once.sublist orderly.pushed
  traced := (List.nodup_append.1 (orderly.nodup stacked)).1
  listed := (List.nodup_append.1 (orderly.nodup stacked)).1.sublist orderly.listed
  fresh := orderly.fresh
  pushed_marked := orderly.pushed.subset
  traced_known x member :=
    List.mem_append.1 (orderly.stack.subset (List.mem_append_left _ member))
  listed_traced := orderly.listed.subset
  marks x := by
    have length : r.cycle.marking.marks.length = c₀.marking.marks.length := by
      rw [orderly.charted.length, orderly.live, charted.length]
    rw [isMarked_iff, isMarked_iff, length]
    constructor
    · rintro ⟨i, bound, mark⟩
      exact ((orderly.marks i x).1 mark).imp (fun old => ⟨i, bound, old⟩) And.right
    · rintro (⟨i, bound, old⟩ | new)
      · exact ⟨i, bound, (orderly.marks i x).2 (.inl old)⟩
      · obtain ⟨i, place⟩ := exists_place (orderly.fresh x new).1
        exact ⟨i, charted.length ▸ (place_spec place).1, (orderly.marks i x).2 (.inr ⟨place, new⟩)⟩
  count := orderly.count
  counted := orderly.counted

/-- A collection since its beginning: what was done to objects was done to live ones, and a mark is set and
counted for each that was marked. -/
structure Tidy (begun : Cycle) (r : Recorded) : Prop where
  once : Once begun r
  live : ∀ x ∈ r.traced, begun.isLive x = true
  marks : ∀ x, r.cycle.marking.isMarked x = true ↔ x ∈ r.marked
  count : r.cycle.marking.marked = r.cycle.marking.bits
  counted : ∀ x m, .marked x m ∈ r.deeds → m.marked = m.bits

end Recorded

/-! ### The beginning -/

/-- A collection of what lives in the arenas, with nothing marked. -/
def Source.beginCycle (s : Source) (tables : WorkTables) : Cycle :=
  { source := s, tables, marking := Marking.start s }

namespace Cycle

variable {s : Source} {tables : WorkTables}

theorem charted_beginCycle (sound : ∀ a ∈ s.arenas, (s.bitmap a.live).Sound) :
    (s.beginCycle tables).Charted where
  length := List.length_map ..
  live := by
    intro number member
    obtain ⟨a, arena, rfl⟩ := List.mem_map.1 member
    exact sound a arena
  marks := by
    intro map member
    obtain ⟨number, known, rfl⟩ := List.mem_map.1 member
    obtain ⟨a, arena, rfl⟩ := List.mem_map.1 known
    exact Bitmap.sound_blank (sound a arena).positive (sound a arena).aligned
  range := by
    intro i bound x
    have number : (s.arenas.map Arena.live)[i]? = some ((s.arenas.map Arena.live).getD i 0) := by
      have short : i < (s.arenas.map Arena.live).length := bound
      rw [List.getD_eq_getElem?_getD, List.getElem?_eq_getElem short, Option.getD_some]
    have marks : (s.beginCycle tables).marksAt i
        = Bitmap.blank "mark" ((s.beginCycle tables).liveAt i).base
          (((s.beginCycle tables).liveAt i).limit - ((s.beginCycle tables).liveAt i).base) := by
      rw [marksAt, List.getD_eq_getElem?_getD, Source.beginCycle, Marking.start, List.getElem?_map,
        number]
      rfl
    rw [marks, Bool.eq_iff_iff, Bitmap.mayContain_iff, Bitmap.mayContain_iff, Bitmap.blank]
    dsimp only
    omega

theorem bits_start (sound : ∀ a ∈ s.arenas, (s.bitmap a.live).Sound) : (Marking.start s).bits = 0 := by
  have blank : ∀ size ∈ (Marking.start s).marks.map fun map => map.members.length, size = 0 := by
    intro size member
    obtain ⟨map, marks, rfl⟩ := List.mem_map.1 member
    have charted : (s.beginCycle {}).Charted := charted_beginCycle sound
    have whole := charted.marks map marks
    obtain ⟨number, -, rfl⟩ := List.mem_map.1 marks
    rw [List.length_eq_zero_iff, List.eq_nil_iff_forall_not_mem]
    intro x
    rw [whole.mem_members, Bitmap.test_blank]
    exact Bool.false_ne_true
  exact List.sum_eq_zero blank

end Cycle

namespace Recorded

open Action Cycle

variable {s : Source} {tables : WorkTables} {begun : Cycle} {r r' : Recorded}

/-- At the beginning there is no mark to take into account. -/
theorem Once.tidy (sound : ∀ a ∈ s.arenas, (s.bitmap a.live).Sound) (once : Once (s.beginCycle tables) r) :
    Tidy (s.beginCycle tables) r := by
  have bits : (s.beginCycle tables).marking.bits = 0 := bits_start sound
  have none : (s.beginCycle tables).marking.marked = 0 := rfl
  have count := once.count
  rw [bits, none, Nat.zero_add, Nat.zero_add] at count
  refine ⟨once, fun x traced => ?_, fun x => ?_, count, fun x m deed => ?_⟩
  · rcases once.traced_known x traced with pushed | before
    · exact (once.fresh x (once.pushed_marked pushed)).1
    · cases before
  · have bare : ¬ (s.beginCycle tables).marking.isMarked x = true := by
      rw [Source.beginCycle, isMarked_start]
      exact Bool.false_ne_true
    rw [once.marks x]
    exact ⟨fun either => either.resolve_left bare, .inr⟩
  · have counted := once.counted x m deed
    rw [bits, none, Nat.zero_add, Nat.zero_add] at counted
    exact counted

/-- Nothing was done to objects meanwhile, and the marks are the same. -/
theorem Tidy.of_same (tidy : Tidy begun r) (deeds : r'.deeds = r.deeds)
    (marking : r'.cycle.marking = r.cycle.marking) : Tidy begun r' := by
  obtain ⟨c', deeds'⟩ := r'
  cases deeds
  obtain ⟨once, live, marks, count, counted⟩ := tidy
  have marks' : ∀ x, c'.marking.isMarked x = r.cycle.marking.isMarked x :=
    fun x => congrArg (·.isMarked x) marking
  refine ⟨⟨once.marked, once.pushed, once.traced, once.listed, once.fresh, once.pushed_marked,
    once.traced_known, once.listed_traced, fun x => ?_, ?_, once.counted⟩, live, fun x => ?_, ?_,
    counted⟩
  · exact (marks' x).symm ▸ once.marks x
  · exact marking.symm ▸ once.count
  · exact (marks' x).symm ▸ marks x
  · exact marking.symm ▸ count

/-- The sweep changes no mark and does nothing that is written down. -/
theorem sweep_same (r : Recorded) : (within (Cycle.sweep >>= fun freed => do
      Cycle.finish
      return freed)).Ends r
    (fun _ r' => r'.deeds = r.deeds ∧ r'.cycle.marking = r.cycle.marking)
    fun _ r' => r'.deeds = r.deeds ∧ r'.cycle.marking = r.cycle.marking := by
  have tables : IgnoresTables fun c => c.marking = r.cycle.marking := fun _ _ same => same
  have swept := (tables.sweep fun x => fun _ same => ends_on.2 ⟨fun _ => same, fun _ => same⟩).then
    fun freed => preserves_finish.then fun _ => preserves_pure freed
  exact ends_within.2 ((swept r.cycle rfl).imp (fun _ _ same => ⟨rfl, same⟩) fun _ _ same => ⟨rfl, same⟩)

section

variable [ObjectModel]

theorem run_tidy (sound : ∀ a ∈ s.arenas, (s.bitmap a.live).Sound) (roots : List Nat)
    (policy : SoftPolicy) : (run roots policy).Ends ⟨s.beginCycle tables, []⟩
      (fun _ r => Tidy (s.beginCycle tables) r ∧ r.traced.Perm r.pushed ∧ r.pushed = r.marked)
      fun _ r => Tidy (s.beginCycle tables) r := by
  have charted : (s.beginCycle tables).Charted := charted_beginCycle sound
  have stacked : Stacked (s.beginCycle tables) := ⟨List.nodup_nil, List.forall_mem_nil _⟩
  have tidy {r : Recorded} (orderly : Orderly (s.beginCycle tables) r) :
      Tidy (s.beginCycle tables) r := (orderly.each_once stacked charted).tidy sound
  rw [run, ends_bind]
  refine (trace_keeps stacked (whole_start charted rfl) roots policy).imp ?_ fun _ _ => tidy
  rintro - r ⟨whole, empty⟩
  -- All that concerns objects is done by now; the sweep frees what has no mark.
  have all : r.traced.Perm r.pushed := by
    have stack := whole.stack
    rw [empty, List.append_nil] at stack
    exact stack.trans (.of_eq (List.append_nil _))
  refine (sweep_same r).imp ?_ ?_
  · rintro - r' ⟨deeds, marking⟩
    have same (pick : Deed → Option Nat) : r'.deeds.filterMap pick = r.deeds.filterMap pick :=
      congrArg _ deeds
    refine ⟨(tidy whole.toOrderly).of_same deeds marking, ?_, ?_⟩
    · rw [traced, same, pushed, same]
      exact all
    · rw [pushed, same, marked, same]
      exact whole.all
  · rintro - r' ⟨deeds, marking⟩
    exact (tidy whole.toOrderly).of_same deeds marking

/-- Scanning comes to an end with nothing left to scan, however objects refer to each other, and comes to
no object twice. The same is true of all scans of a collection taken together, from its beginning to where
it is over or breaks off; and no object is marked, traced or put on a list but live ones. -/
theorem scans_once :
    (∀ c : Cycle, c.Scannable → ∃ r, scan ⟨c, []⟩ = .ok () r
      ∧ (∀ budget, c.scanBudget ≤ budget → Cycle.scanUpTo budget c = .ok () r.cycle)
      ∧ r.cycle.marking.stack.entries = [] ∧ r.cycle.marking.stack.isEmpty = true
      ∧ Once c r ∧ r.traced.Perm (r.pushed ++ c.marking.stack.entries) ∧ r.pushed = r.marked)
    ∧ ∀ (s : Source) (tables : WorkTables) (roots : List Nat) (policy : SoftPolicy),
      (∀ a ∈ s.arenas, (s.bitmap a.live).Sound) →
      (run roots policy).Ends ⟨s.beginCycle tables, []⟩
        (fun freed r => Cycle.run roots policy (s.beginCycle tables) = .ok freed r.cycle
          ∧ Tidy (s.beginCycle tables) r ∧ r.traced.Perm r.pushed ∧ r.pushed = r.marked)
        fun cause r => Cycle.run roots policy (s.beginCycle tables) = .error cause r.cycle
          ∧ Tidy (s.beginCycle tables) r := by
  refine ⟨fun c scannable => ?_, fun s tables roots policy sound =>
    (erases_run roots policy _).and (run_tidy sound roots policy)⟩
  have ends := (scan_keeps scannable.stacked
    (whole_start scannable.charted scannable.exact)).imp (fun _ _ scanned => scanned)
    fun _ _ broken => scannable.roomy broken.2
  obtain ⟨_, r, run, whole, empty⟩ := ends.exists_ok
  have erased : Cycle.scan c = .ok () r.cycle := (erases_scan ⟨c, []⟩).ok run
  rw [Cycle.scan, bind_of_ok (show (get : Action Cycle Cycle) c = .ok c c from rfl)] at erased
  have perm := whole.stack
  rw [empty, List.append_nil] at perm
  refine ⟨r, run, fun budget le => scanUpTo_of_le erased empty le, empty, ?_,
    whole.each_once scannable.stacked scannable.charted, perm, whole.all⟩
  have room := whole.room
  rw [empty, List.length_nil, Nat.add_zero, ← whole.capacity] at room
  exact beq_iff_eq.2 room

end

/-- An object refers to itself, to its own second word and to another object. That one refers back to it,
to an address where no object can be, and to a weak reference to an object that nothing holds. -/
def web : List Heap.Operation :=
  let first := Region.arenaBase 0
  let second := first + 56
  let reference := first + 112
  [.attach 0 "main", .request 0 48 {}, .request 0 48 {}, .request 0 24 {}, .request 0 24 {},
    .write first 1 1 3, .write first 3 1 first, .write first 4 1 (first + 8), .write first 5 1 second,
    .write second 1 1 3, .write second 3 1 first, .write second 4 1 12345,
    .write second 5 1 reference,
    .write reference 0 1 (Tag.make (some .weak) false false false 0),
    .write reference Object.referentWord 1 (reference + 32)]

/-- The arenas with the objects that refer to each other. -/
def webbed : Source := (Heap.small.afterAll web).source

/-- The first object is marked and waits on the stack. -/
def waiting : Cycle :=
  ((webbed.beginCycle {}).putMark 0 (Region.arenaBase 0)).push (Region.arenaBase 0)

theorem sound_webbed : ∀ a ∈ webbed.arenas, (webbed.bitmap a.live).Sound :=
  fun _ arena => (Heap.reachable_small.afterAll web).sound.1.1.bitmap_sound arena

theorem scannable_waiting : waiting.Scannable := by
  have begun : (webbed.beginCycle {}).Charted := charted_beginCycle sound_webbed
  have place : (webbed.beginCycle {}).place? (Region.arenaBase 0) = some 0 := by decide +kernel
  have alike : MarkedAlike ((webbed.beginCycle {}).putMark 0 (Region.arenaBase 0)) waiting :=
    ⟨rfl, rfl, rfl, rfl⟩
  have charted : waiting.Charted := alike.charted (begun.putMark place)
  refine charted.scannable ?_ (by decide +kernel) (by decide +kernel) (by decide +kernel)
    (by decide +kernel)
  intro x i bound covered
  have single : waiting.marking.live = [0] := by decide +kernel
  rw [single, List.length_singleton, Nat.lt_one_iff] at bound
  subst bound
  rw [place?, single, List.findIdx?_cons, if_pos]
  simpa [liveAt, single] using covered

theorem webbed_scanned_once :
    (∃ r, scan ⟨waiting, []⟩ = .ok () r ∧ r.cycle.marking.stack.isEmpty = true ∧ Once waiting r
      ∧ r.traced = [Region.arenaBase 0, Region.arenaBase 0 + 56, Region.arenaBase 0 + 112]
      ∧ r.listed = [Region.arenaBase 0 + 112])
    ∧ ∃ r, run [Region.arenaBase 0] .clearAll ⟨webbed.beginCycle {}, []⟩ = .ok (1, 32) r
      ∧ Tidy (webbed.beginCycle {}) r ∧ r.traced.Perm r.pushed ∧ r.cycle.marking.marked = 3 := by
  obtain ⟨scans, collects⟩ := scans_once
  refine ⟨?_, ?_⟩
  · obtain ⟨r, run, -, -, empty, once, -⟩ := scans waiting scannable_waiting
    have reached : scan.after ⟨waiting, []⟩ = r := by rw [Action.after, run]
    refine ⟨r, run, empty, once, ?_, ?_⟩
    · rw [← reached]
      decide +kernel
    · rw [← reached]
      decide +kernel
  · have run := Action.eq_ok_of_result (show (run [Region.arenaBase 0] .clearAll).result?
      ⟨webbed.beginCycle {}, []⟩ = some (1, 32) by decide +kernel)
    obtain ⟨-, tidy, perm, -⟩ :=
      (collects webbed {} [Region.arenaBase 0] .clearAll sound_webbed).ok run
    exact ⟨_, run, tidy, perm, by decide +kernel⟩

end Recorded

end ManagedHeap
