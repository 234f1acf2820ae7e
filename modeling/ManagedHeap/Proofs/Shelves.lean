import ManagedHeap.Bitmap.Shelf
import ManagedHeap.Proofs.Walks

/-!
Bitmaps as finite sets. Whatever is done with the bitmaps on a shelf, they answer as finite sets of
addresses do.
-/

namespace ManagedHeap

namespace Bitmap

/-- Is an address that the operation sets or clears a covered one? -/
def Operation.Covered (base capacity : Nat) : Operation → Prop
  | .set _ address | .clear _ address =>
    base ≤ address ∧ address < base + capacity ∧ address % Size.granule = 0
  | _ => True

instance (base capacity : Nat) (op : Operation) : Decidable (op.Covered base capacity) := by
  cases op <;> unfold Operation.Covered <;> infer_instance

/-- Sets of addresses, told by their places. -/
abbrev Sets := List (Finset Nat)

namespace Sets

/-- Acts on the set at a place. -/
def act (sets : Sets) (number : Nat) (change : Finset Nat → Answer × Finset Nat) : Answer × Sets :=
  match sets[number]? with
  | none => (.missing, sets)
  | some set => ((change set).1, List.set sets number (change set).2)

/-- What an operation means for sets. -/
def perform (sets : Sets) : Operation → Answer × Sets
  | .create _ => (.nothing, sets ++ [∅])
  | .snapshot number =>
    match sets[number]? with
    | none => (.missing, sets)
    | some set => (.nothing, sets ++ [set])
  | .test number address => sets.act number fun set => (.member (decide (address ∈ set)), set)
  | .set number address => sets.act number fun set =>
    (.member (decide (address ∈ set)), set ∪ {address})
  | .clear number address => sets.act number fun set =>
    (.member (decide (address ∈ set)), set.erase address)
  | .clearAll number => sets.act number fun _ => (.nothing, ∅)
  | .count number => sets.act number fun set => (.count set.card, set)
  | .walk number clearing => sets.act number fun set =>
    (.visited (set.sort (· ≤ ·)), if clearing then ∅ else set)
  | .sweep number marks clearing =>
    match sets[marks]? with
    | none => (.missing, sets)
    | some marks => sets.act number fun set =>
      (.visited ((set \ marks).sort (· ≤ ·)), if clearing then set ∩ marks else set)

/-- Does one thing after the other. -/
def run (sets : Sets) : List Operation → List Answer × Sets
  | [] => ([], sets)
  | op :: rest =>
    let (answer, sets) := sets.perform op
    let (answers, sets) := sets.run rest
    (answer :: answers, sets)

end Sets

variable {base capacity number : Nat} {b marks : Bitmap} {content marked : Finset Nat} {x y : Nat}

/-- The bitmap is over the range and has the members of the set. -/
structure Shows (base capacity : Nat) (b : Bitmap) (content : Finset Nat) : Prop where
  sound : b.Sound
  walkable : b.Walkable
  starts : b.base = base
  stops : b.limit = base + capacity
  members : ∀ x, b.test x = true ↔ x ∈ content

namespace Shows

variable (shows : Shows base capacity b content)

include shows

theorem covers (above : base ≤ x) (below : x < base + capacity) (aligned : x % Size.granule = 0) :
    b.mayContain x = true := by
  rw [mayContain_iff, shows.starts, shows.stops]
  exact ⟨above, below, aligned⟩

theorem covered (member : x ∈ content) :
    base ≤ x ∧ x < base + capacity ∧ x % Size.granule = 0 := by
  have inside := mayContain_of_test ((shows.members x).2 member)
  rwa [mayContain_iff, shows.starts, shows.stops] at inside

theorem test_eq (x : Nat) : b.test x = decide (x ∈ content) := by
  rw [Bool.eq_iff_iff, decide_eq_true_eq]
  exact shows.members x

theorem bitAt_eq (covered : b.mayContain x = true) : b.bitAt x = decide (x ∈ content) := by
  rw [← shows.test_eq, test, covered, Bool.true_and]

theorem walks : b.requireWalkable = .ok () := requireWalkable_eq shows.walkable

theorem sort_eq : content.sort (· ≤ ·) = b.members := by
  have listed : content = b.members.toFinset := by
    ext x
    rw [List.mem_toFinset, shows.sound.mem_members, shows.members]
  rw [listed, List.toFinset_sort (· ≤ ·) b.nodup_members]
  exact b.members_sorted.imp Nat.le_of_lt

theorem card_eq : content.card = b.members.length := by
  rw [← shows.sort_eq, Finset.length_sort]

theorem insert (covered : b.mayContain x = true) :
    Shows base capacity (b.insert x) (content ∪ {x}) where
  sound := shows.sound.insert covered
  walkable := shows.walkable.insert covered
  starts := (base_insert b x).trans shows.starts
  stops := (limit_insert b x).trans shows.stops
  members := by
    intro y
    rw [shows.sound.test_insert covered, shows.members, Finset.mem_union, Finset.mem_singleton,
      or_comm]

theorem erase (covered : b.mayContain x = true) :
    Shows base capacity (b.erase x) (content.erase x) where
  sound := shows.sound.erase
  walkable := shows.walkable.erase
  starts := (base_erase b x).trans shows.starts
  stops := (limit_erase b x).trans shows.stops
  members := by
    intro y
    rw [shows.sound.test_erase covered, shows.members, Finset.mem_erase]

theorem reset : Shows base capacity b.reset ∅ where
  sound := shows.sound.reset
  walkable := walkable_reset shows.sound.positive
  starts := shows.starts
  stops := shows.stops
  members := by
    intro y
    simp [shows.sound.test_reset]

theorem range : b.base ≤ b.limit := by
  rw [shows.starts, shows.stops]
  exact Nat.le_add_right _ _

theorem copy : Shows base capacity b.copy content where
  sound := shows.sound.copy
  walkable := shows.walkable.copy shows.range
  starts := shows.starts
  stops := (limit_copy shows.range).trans shows.stops
  members := by
    intro y
    rw [shows.sound.test_copy shows.range, shows.members]

/-- Erasing some of the members leaves the others. -/
theorem foldl_erase {l : List Nat} (some : ∀ x ∈ l, b.mayContain x = true) {left : Finset Nat}
    (others : ∀ x, x ∈ left ↔ x ∉ l ∧ x ∈ content) :
    Shows base capacity (l.foldl Bitmap.erase b) left := by
  obtain ⟨sound, walkable, base, limit, tests⟩ :=
    Bitmap.foldl_erase shows.sound shows.walkable some
  refine ⟨sound, walkable, base.trans shows.starts, limit.trans shows.stops, fun x => ?_⟩
  rw [tests, shows.members, others]

variable (shows_marks : Shows base capacity marks marked)

include shows_marks

theorem mem_unmarked : x ∈ b.unmarked marks ↔ x ∈ content \ marked := by
  rw [shows.sound.mem_unmarked, shows.members, Finset.mem_sdiff]
  refine and_congr_right fun member => ?_
  obtain ⟨above, below, aligned⟩ := shows.covered member
  rw [shows_marks.bitAt_eq (shows_marks.covers above below aligned), decide_eq_false_iff_not]

theorem sort_sdiff_eq : (content \ marked).sort (· ≤ ·) = b.unmarked marks := by
  have sorted : (b.unmarked marks).Pairwise (· < ·) := b.members_sorted.filter _
  have distinct : (b.unmarked marks).Nodup := b.nodup_members.filter _
  have listed : content \ marked = (b.unmarked marks).toFinset := by
    ext x
    rw [List.mem_toFinset, shows.mem_unmarked shows_marks]
  rw [listed, List.toFinset_sort (· ≤ ·) distinct]
  exact sorted.imp Nat.le_of_lt

end Shows

/-! ### Single operations -/

/-- The bitmaps on the shelf show the sets at the same places. -/
abbrev Agree (base capacity : Nat) : Shelf → Sets → Prop := List.Forall₂ (Shows base capacity)

/-- An outcome is that of the sets, and leaves bitmaps that show the sets. -/
def Follows (base capacity : Nat) (outcome : Except Defect (Answer × Shelf))
    (meant : Answer × Sets) : Prop :=
  ∃ shelf, outcome = .ok (meant.1, shelf) ∧ Agree base capacity shelf meant.2

variable {shelf : Shelf} {sets : Sets}

theorem Agree.getElem? (agree : Agree base capacity shelf sets) (number : Nat) :
    (shelf[number]? = none ∧ sets[number]? = none) ∨ ∃ b content, shelf[number]? = some b
      ∧ sets[number]? = some content ∧ Shows base capacity b content := by
  induction agree generalizing number with
  | nil => exact .inl ⟨rfl, rfl⟩
  | cons shows _ ih =>
    cases number with
    | zero => exact .inr ⟨_, _, rfl, rfl, shows⟩
    | succ number =>
      rw [List.getElem?_cons_succ, List.getElem?_cons_succ]
      exact ih number

theorem Agree.set (agree : Agree base capacity shelf sets) (number : Nat)
    (shows : Shows base capacity b content) :
    Agree base capacity (shelf.set number b) (sets.set number content) := by
  induction agree generalizing number with
  | nil => exact .nil
  | cons first rest ih =>
    cases number with
    | zero => exact .cons shows rest
    | succ number => exact .cons first (ih number)

theorem Agree.add (agree : Agree base capacity shelf sets) (shows : Shows base capacity b content) :
    Agree base capacity (shelf ++ [b]) (sets ++ [content]) :=
  List.rel_append agree (.cons shows .nil)

/-- What is done with one bitmap is done with one set. -/
theorem Agree.act (agree : Agree base capacity shelf sets)
    {change : Bitmap → Except Defect (Answer × Bitmap)} {meant : Finset Nat → Answer × Finset Nat}
    (one : ∀ {b content}, Shows base capacity b content → ∃ b', change b = .ok ((meant content).1, b')
      ∧ Shows base capacity b' (meant content).2) :
    Follows base capacity (shelf.act number change) (sets.act number meant) := by
  rcases agree.getElem? number with ⟨none, none'⟩ | ⟨b, content, some, some', shows⟩
  · refine ⟨shelf, ?_, ?_⟩
    · rw [Shelf.act, Sets.act, none, none']
      rfl
    · rw [Sets.act, none']
      exact agree
  · obtain ⟨b', run, shows'⟩ := one shows
    refine ⟨shelf.set number b', ?_, ?_⟩
    · rw [Shelf.act, Sets.act, some, some']
      simp only [run]
      rfl
    · rw [Sets.act, some']
      exact agree.set number shows'

theorem Agree.walk_follows (agree : Agree base capacity shelf sets) (number : Nat) (clearing : Bool) :
    Follows base capacity (shelf.perform base capacity (.walk number clearing))
      (sets.perform (.walk number clearing)) := by
  cases clearing with
  | false =>
    refine agree.act fun {b content} shows => ⟨b, ?_, shows⟩
    rw [walk_eq shows.walks, shows.sort_eq]
    rfl
  | true =>
    refine agree.act fun {b content} shows => ⟨b.members.foldl erase b, ?_, ?_⟩
    · rw [walkClearing_eq shows.sound shows.walks, shows.sort_eq]
      rfl
    · refine shows.foldl_erase ?_ ?_
      · intro x member
        exact mayContain_of_test (shows.sound.mem_members.1 member)
      · intro x
        simp [shows.sound.mem_members, shows.members]

theorem Agree.sweep_follows (agree : Agree base capacity shelf sets) (number marks : Nat)
    (clearing : Bool) : Follows base capacity
      (shelf.perform base capacity (.sweep number marks clearing))
      (sets.perform (.sweep number marks clearing)) := by
  rcases agree.getElem? marks with ⟨none, none'⟩ | ⟨marks', marked, some, some', shows_marks⟩
  · refine ⟨shelf, ?_, ?_⟩
    · rw [Shelf.perform, Sets.perform, none, none']
      rfl
    · rw [Sets.perform, none']
      exact agree
  · rw [Shelf.perform, Sets.perform, some, some']
    refine agree.act fun {b content} shows => ?_
    have base_eq : marks'.base = b.base := shows_marks.starts.trans shows.starts.symm
    have size_eq : marks'.size = b.size := by
      rw [size, size, base_eq, shows_marks.stops, shows.stops]
    rw [shows.sort_sdiff_eq shows_marks]
    cases clearing with
    | false =>
      refine ⟨b, ?_, shows⟩
      rw [sweepWalk_eq shows.walks base_eq size_eq]
      rfl
    | true =>
      refine ⟨(b.unmarked marks').foldl erase b, ?_, ?_⟩
      · rw [sweepClearing_eq shows.sound shows.walks base_eq size_eq]
        rfl
      · refine shows.foldl_erase ?_ ?_
        · intro x member
          exact mayContain_of_test (shows.sound.mem_unmarked.1 member).1
        · intro x
          rw [shows.mem_unmarked shows_marks, Finset.mem_sdiff]
          simp
          tauto

section Range

variable (positive : 0 < base) (aligned : base % Size.granule = 0) (small : capacity < 2 ^ 60)
  (fits : base + capacity < 2 ^ 64)

include positive aligned in
theorem shows_blank (name : String) : Shows base capacity (blank name base capacity) ∅ where
  sound := sound_blank positive aligned
  walkable := walkable_blank positive
  starts := rfl
  stops := rfl
  members := by
    intro x
    simp [test_blank]

include small fits in
/-- Over such a range a bitmap can always be had. -/
theorem create_eq (name : String) :
    create name base capacity = .ok (.ok (blank name base capacity)) := by
  have padded : Word.add capacity (Size.granule * wordBits) = .ok (capacity + 512) :=
    if_pos (by simp only [Size.granule, wordBits, Word.limit]; omega)
  have rounded : Word.sub (capacity + 512) 1 = .ok (capacity + 511) :=
    if_pos (by omega)
  have words : Word.div (capacity + 511) (Size.granule * wordBits) = .ok ((capacity + 511) / 512) :=
    rfl
  have size : Word.mul ((capacity + 511) / 512) 8 = .ok ((capacity + 511) / 512 * 8) :=
    if_pos (by simp only [Word.limit]; omega)
  have room : ¬ Size.unreservable ≤ capacity := by
    simp only [Size.unreservable]
    omega
  have range : Word.add base capacity = .ok (base + capacity) := if_pos fits
  simp only [create, sizeFor, padded, rounded, words, size, range, bind, Except.bind,
    if_neg room]
  rfl

include small fits in
theorem Walkable.snapshot_eq (walkable : b.Walkable) (starts : b.base = base)
    (stops : b.limit = base + capacity) : b.snapshot = .ok (.ok b.copy) := by
  have extent : Word.sub b.limit b.base = .ok capacity := by
    rw [starts, stops, Word.sub, if_pos (Nat.le_add_right _ _), Nat.add_sub_cancel_left]
  have had : create b.name b.base capacity = .ok (.ok (blank b.name base capacity)) := by
    rw [starts]
    exact create_eq small fits b.name
  simp only [snapshot, extent, had, requireWalkable_eq walkable, bind, Except.bind]
  rfl

include small fits in
theorem Shows.snapshot_eq (shows : Shows base capacity b content) : b.snapshot = .ok (.ok b.copy) :=
  shows.walkable.snapshot_eq small fits shows.starts shows.stops

include positive aligned small fits

/-- Every operation does with the bitmaps what it means for the sets. -/
theorem perform_follows (agree : Agree base capacity shelf sets) {op : Operation}
    (covered : op.Covered base capacity) :
    Follows base capacity (shelf.perform base capacity op) (sets.perform op) := by
  cases op with
  | create name =>
    refine ⟨shelf ++ [blank name base capacity], ?_, agree.add (shows_blank positive aligned name)⟩
    rw [Shelf.perform, create_eq small fits]
    rfl
  | snapshot number =>
    rcases agree.getElem? number with ⟨none, none'⟩ | ⟨b, content, some, some', shows⟩
    · refine ⟨shelf, ?_, ?_⟩
      · rw [Shelf.perform, Sets.perform, none, none']
        rfl
      · rw [Sets.perform, none']
        exact agree
    · refine ⟨shelf ++ [b.copy], ?_, ?_⟩
      · rw [Shelf.perform, Sets.perform, some, some']
        simp only [shows.snapshot_eq small fits]
        rfl
      · rw [Sets.perform, some']
        exact agree.add shows.copy
  | test number address =>
    refine agree.act fun {b content} shows => ⟨b, ?_, shows⟩
    rw [shows.test_eq]
    rfl
  | set number address =>
    refine agree.act fun {b content} shows => ?_
    have inside := shows.covers covered.1 covered.2.1 covered.2.2
    refine ⟨b.insert address, ?_, shows.insert inside⟩
    rw [Bitmap.set, Word.require, if_pos inside, shows.bitAt_eq inside]
    rfl
  | clear number address =>
    refine agree.act fun {b content} shows => ?_
    have inside := shows.covers covered.1 covered.2.1 covered.2.2
    refine ⟨b.erase address, ?_, shows.erase inside⟩
    rw [clear_eq inside, shows.bitAt_eq inside]
    rfl
  | clearAll number =>
    refine agree.act fun {b content} shows => ⟨b.reset, ?_, shows.reset⟩
    rw [clearAll, shows.walks]
    rfl
  | count number =>
    refine agree.act fun {b content} shows => ⟨b, ?_, shows⟩
    rw [count_eq shows.walks, shows.card_eq]
    rfl
  | walk number clearing => exact agree.walk_follows number clearing
  | sweep number marks clearing => exact agree.sweep_follows number marks clearing

/-- So does every run of operations. -/
theorem run_agrees (ops : List Operation) (covered : ∀ op ∈ ops, op.Covered base capacity)
    (agree : Agree base capacity shelf sets) :
    ∃ shelf', shelf.run base capacity ops = .ok ((sets.run ops).1, shelf')
      ∧ Agree base capacity shelf' (sets.run ops).2 := by
  induction ops generalizing shelf sets with
  | nil => exact ⟨shelf, rfl, agree⟩
  | cons op rest ih =>
    obtain ⟨middle, first, agree'⟩ := perform_follows positive aligned small fits agree
      (covered op List.mem_cons_self)
    obtain ⟨shelf', later, agree''⟩ :=
      ih (fun op member => covered op (List.mem_cons_of_mem _ member)) agree'
    refine ⟨shelf', ?_, agree''⟩
    rw [Shelf.run, first]
    change (middle.run base capacity rest >>= _) = _
    rw [later]
    rfl

/-- A shelf of bitmaps answers as finite sets of addresses do. No operation fails, what is tested,
set, cleared, counted, walked over or swept is answered as for the sets, and in the end a bitmap
has the members of the set at its place: addresses of the range at the start of a granule. -/
theorem run_refines_sets (ops : List Operation)
    (covered : ∀ op ∈ ops, op.Covered base capacity) :
    ∃ shelf, Shelf.run base capacity [] ops = .ok ((Sets.run [] ops).1, shelf)
      ∧ List.Forall₂ (fun b set => ∀ x, b.test x = true ↔ x ∈ set) shelf (Sets.run [] ops).2
      ∧ ∀ set ∈ (Sets.run [] ops).2, ∀ x ∈ set,
        base ≤ x ∧ x < base + capacity ∧ x % Size.granule = 0 := by
  obtain ⟨shelf, run, agree⟩ :=
    run_agrees positive aligned small fits ops covered (List.Forall₂.nil)
  refine ⟨shelf, run, agree.imp fun b set shows => shows.members, ?_⟩
  intro set member x inside
  obtain ⟨number, there⟩ := List.getElem?_of_mem member
  rcases Agree.getElem? agree number with ⟨-, none⟩ | ⟨b, set', -, some, shows⟩
  · cases none.symm.trans there
  · cases some.symm.trans there
    exact shows.covered inside

end Range

/-- A bitmap of three addresses, one of them marked in a second bitmap. A copy is made, the others
are swept away, and the copy is walked over. -/
def sweptShelf : List Operation :=
  [.create "live", .create "mark", .set 0 1049088, .set 0 1048576, .set 0 1114104, .set 1 1049088,
    .snapshot 0, .sweep 0 1 true, .count 0, .clear 0 1048576, .walk 2 false, .test 2 1114112]

theorem sweptShelf_refines_sets :
    0 < 1048576 ∧ 1048576 % Size.granule = 0 ∧ 65536 < 2 ^ 60 ∧ 1048576 + 65536 < 2 ^ 64
      ∧ (∀ op ∈ sweptShelf, op.Covered 1048576 65536)
      ∧ ∃ shelf, Shelf.run 1048576 65536 [] sweptShelf = .ok ((Sets.run [] sweptShelf).1, shelf)
        ∧ List.Forall₂ (fun b set => ∀ x, b.test x = true ↔ x ∈ set) shelf
          (Sets.run [] sweptShelf).2
        ∧ ∀ set ∈ (Sets.run [] sweptShelf).2, ∀ x ∈ set,
          1048576 ≤ x ∧ x < 1048576 + 65536 ∧ x % Size.granule = 0 := by
  have covered : ∀ op ∈ sweptShelf, op.Covered 1048576 65536 := by decide
  refine ⟨by decide, by decide, by decide, by decide, covered, ?_⟩
  exact run_refines_sets (by decide) (by decide) (by decide) (by decide) sweptShelf covered

example : (Shelf.run 1048576 65536 [] sweptShelf).map Prod.fst = .ok [.nothing, .nothing,
    .member false, .member false, .member false, .member false, .nothing,
    .visited [1048576, 1114104], .count 1, .member false, .visited [1048576, 1049088, 1114104],
    .member false] := by
  decide +kernel

end Bitmap

end ManagedHeap
