import Mathlib.Data.List.Nodup
import Mathlib.Data.List.Perm.Subperm
import ManagedHeap.Proofs.Reachability

/-!
How many objects the mark stack has to hold. A heap whose absolute maximum is in whole pages never
has more live objects than the stack has entries. Where more objects are roots than that, a
collection runs out of stack.
-/

namespace ManagedHeap

namespace Source

variable {s : Source} {objects : List Nat}

/-- The chunks of an arena are at least as far apart as the least chunk is long. -/
theorem length_le_of_chunks {a : Arena} (laid : a.space.Laid) (nodup : objects.Nodup)
    (inside : ∀ x ∈ objects, a.space.region.contains x = true)
    (chunks : ∀ x ∈ objects, x - a.space.base ∈ a.space.chunks) :
    objects.length * Size.minChunk ≤ a.space.top := by
  let slot (x : Nat) : Nat := (x - a.space.base) / Size.minChunk
  have slots : (objects.map slot).Nodup := by
    refine nodup.map_on fun x hx y hy same => ?_
    have offset := laid.slot_inj (chunks x hx) (chunks y hy) same
    have above := (region_contains.1 (inside x hx)).1
    have above' := (region_contains.1 (inside y hy)).1
    simp only [Space.base] at offset
    omega
  have few : objects.map slot ⊆ List.range (a.space.top / Size.minChunk) := by
    intro i member
    obtain ⟨x, hx, rfl⟩ := List.mem_map.1 member
    have below := laid.offset_lt (chunks x hx)
    rw [List.mem_range]
    simp only [slot, Size.minChunk] at *
    omega
  have count := (slots.subperm few).length_le
  rw [List.length_map, List.length_range] at count
  exact Nat.le_trans (Nat.mul_le_mul_right _ count) (Nat.div_mul_le_self _ _)

theorem length_le_of_arenas (arenas : List Arena) (nodup : objects.Nodup)
    (laid : ∀ a ∈ arenas, a.space.Laid)
    (chunks : ∀ x ∈ objects, ∃ a ∈ arenas, a.space.region.contains x = true
      ∧ x - a.space.base ∈ a.space.chunks)
    (apart : ∀ a ∈ arenas, ∀ b ∈ arenas, ∀ x, a.space.region.contains x = true →
      b.space.region.contains x = true → a = b) :
    objects.length * Size.minChunk ≤ Word.total (arenas.map fun a => a.space.top) := by
  induction arenas generalizing objects with
  | nil =>
    cases objects with
    | nil => exact Nat.zero_le _
    | cons x rest =>
      obtain ⟨a, none, -⟩ := chunks x List.mem_cons_self
      exact absurd none List.not_mem_nil
  | cons a rest ih =>
    let here (x : Nat) : Bool := a.space.region.contains x
    have first : (objects.filter here).length * Size.minChunk ≤ a.space.top := by
      refine length_le_of_chunks (laid a List.mem_cons_self) (nodup.filter _) ?_ ?_
      · exact fun x member => (List.mem_filter.1 member).2
      · intro x member
        obtain ⟨known, inside⟩ := List.mem_filter.1 member
        obtain ⟨b, arena, inside', chunk⟩ := chunks x known
        cases apart a List.mem_cons_self b arena x inside inside'
        exact chunk
    have others := ih (nodup.filter (fun x => !here x))
      (fun b later => laid b (List.mem_cons_of_mem _ later)) (fun x member => by
        obtain ⟨known, outside⟩ := List.mem_filter.1 member
        obtain ⟨b, arena, inside, chunk⟩ := chunks x known
        rcases List.mem_cons.1 arena with rfl | later
        · rw [show here x = true from inside] at outside
          cases outside
        · exact ⟨b, later, inside, chunk⟩)
      fun b hb c hc => apart b (List.mem_cons_of_mem _ hb) c (List.mem_cons_of_mem _ hc)
    rw [List.map_cons, Word.total_cons, List.length_eq_length_filter_add here, Nat.add_mul]
    exact Nat.add_le_add first others

/-- Live objects take up no more than the arenas may obtain together. -/
theorem Sound.length_le (sound : s.Sound) (nodup : objects.Nodup)
    (live : ∀ x ∈ objects, s.isPublished x = true) :
    objects.length * Size.minChunk ≤ s.ceiling := by
  have tops : Word.total (s.arenas.map fun a => a.space.top) ≤ s.ceiling := by
    have frozen : ∀ l : List Arena, (∀ a ∈ l, a.space.Laid) →
        Word.total (l.map fun a => a.space.top) ≤ Word.total (l.map Arena.footprint) := by
      intro l laid
      induction l with
      | nil => exact Nat.le_refl _
      | cons a rest ih =>
        rw [List.map_cons, Word.total_cons, List.map_cons, Word.total_cons]
        exact Nat.add_le_add (laid a List.mem_cons_self).top_le
          (ih fun b later => laid b (List.mem_cons_of_mem _ later))
    have old := frozen s.frozen fun a member =>
      (sound.fits a (List.mem_cons_of_mem _ member)).laid
    have active := (sound.fits s.active s.active_mem).laid
    have young := Nat.le_trans active.top_le active.footprint_le
    have budget := sound.budget
    rw [arenas, List.map_cons, Word.total_cons]
    rw [frozenFootprint] at budget
    omega
  refine Nat.le_trans (length_le_of_arenas s.arenas nodup
    (fun a member => (sound.fits a member).laid) ?_ ?_) tops
  · intro x member
    obtain ⟨i, a, here, -, inside, -, chunk⟩ := sound.live_cases (live x member)
    exact ⟨a, mem_arenas_of_getElem here, inside, chunk⟩
  · intro a ha b hb x inside inside'
    obtain ⟨i, found⟩ := List.getElem?_of_mem ha
    obtain ⟨j, found'⟩ := List.getElem?_of_mem hb
    cases sound.index_unique found found' inside inside'
    exact Option.some.inj (found.symm.trans found')

theorem Sound.not_crowded (sound : s.Sound) (whole : s.absoluteMax % Size.page = 0) :
    ¬ s.Crowded := by
  rintro ⟨objects, nodup, live, many⟩
  by_cases nothing : s.absoluteMax = 0
  · cases objects with
    | nil => exact absurd many (Nat.not_lt_zero _)
    | cons x rest =>
      have lives := live x List.mem_cons_self
      rw [sound.idle nothing x] at lives
      cases lives
  · have bound := sound.length_le nodup live
    simp only [ceiling, Size.page, Size.minChunk] at *
    omega

end Source

/-! ### Running out of stack -/

namespace Cycle

open Action

variable [ObjectModel] {s₀ : Source} {start : Nat → Prop} {c c' : Cycle} {x : Nat}
  {objects roots : List Nat}

omit [ObjectModel] in
/-- Marking fails for want of stack and for no other reason. -/
theorem mark_fails (x : Nat) (c : Cycle) : (mark x).Ends c
    (fun _ c' => c'.marking.stack.capacity = c.marking.stack.capacity)
    fun cause _ => cause = .fatal (.markStackOverflow c.marking.stack.capacity) := by
  refine ends_mark rfl (fun {_ stack _} push => ?_) fun _ _ _ => rfl
  rcases c.marking.stack.push_cases x with ⟨-, push'⟩ | ⟨-, push'⟩
  · cases push.symm.trans push'
  · cases push.symm.trans push'
    rfl

omit [ObjectModel] in
theorem markAll_fails (objects : List Nat) (c : Cycle) : (markAll objects).Ends c
    (fun _ _ => True) fun cause _ =>
      cause = .fatal (.markStackOverflow c.marking.stack.capacity) := by
  induction objects generalizing c with
  | nil => exact ends_pure.2 trivial
  | cons x rest ih =>
    simp only [markAll, ends_bind]
    refine (mark_fails x c).mono fun _ c₁ capacity => ?_
    rw [← capacity]
    exact ih c₁

/-- Before any object is scanned all marked ones are on the stack, and these may be too many. -/
theorem markAll_overflows (sound : c.source.Sound) (fresh : c.marking = Marking.start c.source)
    (nodup : objects.Nodup) (live : ∀ x ∈ objects, c.source.isPublished x = true)
    (known : objects ⊆ roots) (many : c.source.absoluteMax / Size.minChunk < objects.length) :
    (markAll roots).Ends c (fun _ _ => False) fun cause _ =>
      cause = .fatal (.markStackOverflow (c.source.absoluteMax / Size.minChunk)) := by
  have begun : Tracing c.source (fun _ => True) c := (tracing_start sound fresh).1
  have reached : ∀ x ∈ roots, c.source.isPublished x = true →
      c.source.Reached (fun _ => True) x := fun x _ live => .start trivial live
  refine ((markAll_spec sound roots begun reached).and (markAll_fails roots c)).imp ?_ ?_
  · rintro - c' ⟨⟨marks, marked⟩, -⟩
    have stacked : objects ⊆ c'.marking.stack.entries := by
      intro x member
      by_contra taken
      have black := marks.black x ⟨marked x (known member) (live x member), taken⟩
      have before := black.1
      rw [fresh, isMarked_start] at before
      cases before
    have count := (nodup.subperm stacked).length_le
    have room := marks.tracing.room
    omega
  · rintro cause c' ⟨-, rfl⟩
    rw [begun.capacity]

theorem run_overflows (sound : c.source.Sound) (fresh : c.marking = Marking.start c.source)
    (nodup : objects.Nodup) (live : ∀ x ∈ objects, c.source.isPublished x = true)
    (known : objects ⊆ roots) (many : c.source.absoluteMax / Size.minChunk < objects.length)
    (policy : SoftPolicy) : (run roots policy).Ends c (fun _ _ => False) fun cause _ =>
      cause = .fatal (.markStackOverflow (c.source.absoluteMax / Size.minChunk)) := by
  simp only [run, trace]
  rw [ends_bind, ends_bind]
  exact (markAll_overflows sound fresh nodup live known many).imp (fun _ _ => False.elim)
    fun _ _ overflow => overflow

end Cycle

namespace Heap

open Action

variable [ObjectModel] {h : Heap} {objects : List Nat}

/-- A collection overflows its stack when more live objects are roots than the stack holds. -/
theorem collect_overflows (sound : h.Sound) (idle : h.collecting = false)
    (quiet : h.worker.current = none) (nodup : objects.Nodup)
    (live : ∀ x ∈ objects, h.isValid x = true) (roots : objects ⊆ h.rootSet)
    (many : h.config.maximumSize / Size.minChunk < objects.length) (collectSoft : Bool) :
    (collect collectSoft).Ends h (fun _ _ => False) fun cause _ =>
      cause = .fatal (.markStackOverflow (h.config.maximumSize / Size.minChunk)) := by
  rw [← sound.maximum] at many ⊢
  simp only [collect, ends_bind, ends_get, ends_ite, ends_pure, ends_modify]
  refine ⟨fun busy => ?_, fun _ => ?_⟩
  · rw [idle] at busy
    cases busy
  have watched : checkWatchdog.Ends { h with collecting := true }
      (fun _ h' => h' = { h with collecting := true }) fun _ _ => False := by
    simp only [checkWatchdog, ends_bind, ends_get, quiet, ends_pure]
  refine watched.imp ?_ fun _ _ => False.elim
  rintro - _ rfl
  simp only [runCycle, ends_bind, ends_get, ends_on]
  have alike : Alike h (retainScheduled { h with collecting := true }) :=
    ⟨rfl, rfl, rfl, rfl, rfl, rfl, rfl, rfl, rfl⟩
  rw [alike.rootSet]
  refine (Cycle.run_overflows ?_ rfl nodup ?_ roots ?_ _).imp
    (fun _ _ => False.elim) fun _ _ overflow => overflow
  · exact sound.source
  · exact live
  · exact many

end Heap

end ManagedHeap
