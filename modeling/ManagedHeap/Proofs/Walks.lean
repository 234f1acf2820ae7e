import Mathlib.Data.Finset.Sort
import ManagedHeap.Proofs.Bitmaps

/-!
Walks over a bitmap. A walk goes through the words one by one, and a visitor may change the bitmap
meanwhile; as long as it leaves alone the words that lie ahead, what it is handed are the members
that the bitmap had at the start.
-/

namespace ManagedHeap

namespace Bitmap

variable {α : Type} {b : Bitmap} {x y index word : Nat}

/-! ### Members in order -/

theorem mem_wordMembers : x ∈ b.wordMembers index word ↔ ∃ bit, bit < wordBits
    ∧ word.testBit bit = true ∧ x = b.base + (index * wordBits + bit) * Size.granule := by
  simp only [wordMembers, List.mem_filterMap, List.mem_range]
  constructor
  · rintro ⟨bit, small, here⟩
    split at here
    · exact ⟨bit, small, ‹_›, (Option.some.inj here).symm⟩
    · cases here
  · rintro ⟨bit, small, set, rfl⟩
    exact ⟨bit, small, if_pos set⟩

@[simp]
theorem wordMembers_zero (b : Bitmap) (index : Nat) : b.wordMembers index 0 = [] := by
  simp [wordMembers]

/-- The members in a word have their bits there. -/
theorem index_of_mem (member : x ∈ b.wordMembers index word) :
    offsetToIndex Size.granule (x - b.base) = index := by
  obtain ⟨bit, small, -, rfl⟩ := mem_wordMembers.1 member
  simp only [offsetToIndex, wordBits, Size.granule] at *
  omega

theorem wordMembers_sorted (b : Bitmap) (index word : Nat) :
    (b.wordMembers index word).Pairwise (· < ·) := by
  refine List.Pairwise.filterMap _ ?_ List.pairwise_lt_range
  intro bit bit' lower x here y here'
  split at here <;> cases here
  split at here' <;> cases here'
  simp only [Size.granule]
  omega

/-- The words of a bitmap, one after the other, give a list in order. -/
theorem flatMap_wordMembers_sorted {l : List Nat} (content : Nat → Nat)
    (sorted : l.Pairwise (· < ·)) :
    (l.flatMap fun index => b.wordMembers index (content index)).Pairwise (· < ·) := by
  refine List.pairwise_flatMap.2 ⟨fun index _ => b.wordMembers_sorted index _, ?_⟩
  refine sorted.imp ?_
  intro index index' lower x here y here'
  obtain ⟨bit, small, -, rfl⟩ := mem_wordMembers.1 here
  obtain ⟨bit', -, -, rfl⟩ := mem_wordMembers.1 here'
  simp only [wordBits, Size.granule] at *
  omega

/-- The members are those of the words in use, one word after the other. -/
theorem members_eq (b : Bitmap) : b.members
    = (List.range b.wordsInUse).flatMap fun index => b.wordMembers index (b.word index) := by
  have sorted : b.members.Pairwise (· < ·) := by
    refine List.pairwise_flatMap.2 ⟨fun entry _ => b.wordMembers_sorted _ _, ?_⟩
    refine (Std.ExtTreeMap.ordered_keys_toList.filter _).imp ?_
    rintro ⟨index, word⟩ ⟨index', word'⟩ lower x here y here'
    rw [Nat.compare_eq_lt] at lower
    obtain ⟨bit, small, -, rfl⟩ := mem_wordMembers.1 here
    obtain ⟨bit', -, -, rfl⟩ := mem_wordMembers.1 here'
    simp only [wordBits, Size.granule] at *
    omega
  refine sorted.eq_of_mem_iff (flatMap_wordMembers_sorted _ List.pairwise_lt_range) fun x => ?_
  simp only [members, List.mem_flatMap, List.mem_filter, List.mem_range, Prod.exists,
    decide_eq_true_eq, Std.ExtTreeMap.mem_toList_iff_getElem?_eq_some]
  constructor
  · rintro ⟨index, word, ⟨found, used⟩, here⟩
    refine ⟨index, used, ?_⟩
    rwa [Bitmap.word, Std.ExtTreeMap.getD_eq_getD_getElem?, found, Option.getD_some]
  · rintro ⟨index, used, here⟩
    rw [Bitmap.word, Std.ExtTreeMap.getD_eq_getD_getElem?] at here
    cases found : b.words[index]? with
    | none => simp [found] at here
    | some word =>
      rw [found] at here
      exact ⟨index, word, ⟨found, used⟩, here⟩

/-- A walk comes to the members in the order of their addresses. -/
theorem members_sorted (b : Bitmap) : b.members.Pairwise (· < ·) := by
  rw [members_eq]
  exact flatMap_wordMembers_sorted _ List.pairwise_lt_range

theorem length_wordMembers (b : Bitmap) (index word : Nat) :
    (b.wordMembers index word).length = wordCount word := by
  rw [wordMembers, wordCount]
  generalize List.range wordBits = bits
  induction bits with
  | nil => rfl
  | cons bit rest ih =>
    by_cases set : word.testBit bit = true
    · simp [set, ih]
    · simp [set, ih]

/-- What a word has that another has not. -/
theorem wordMembers_without (b marks : Bitmap) (base : marks.base = b.base) (index : Nat) :
    b.wordMembers index (Word.without (b.word index) (marks.word index))
      = (b.wordMembers index (b.word index)).filter fun x => !marks.bitAt x := by
  refine (wordMembers_sorted b _ _).eq_of_mem_iff ((wordMembers_sorted b _ _).filter _) fun x => ?_
  have bitAt : ∀ bit, bit < wordBits →
      marks.bitAt (b.base + (index * wordBits + bit) * Size.granule)
        = (marks.word index).testBit bit := by
    intro bit small
    have parts : (index * wordBits + bit) / wordBits = index
        ∧ (index * wordBits + bit) % wordBits = bit := by
      simp only [wordBits] at *
      omega
    have granule : (b.base + (index * wordBits + bit) * Size.granule - marks.base) / Size.granule
        = index * wordBits + bit := by
      rw [base]
      simp only [Size.granule]
      omega
    rw [bitAt_eq_hasBit, granule, hasBit, parts.1, parts.2]
  rw [List.mem_filter, mem_wordMembers, mem_wordMembers]
  constructor
  · rintro ⟨bit, small, both, rfl⟩
    rw [Word.testBit_without small, Bool.and_eq_true] at both
    rw [bitAt bit small]
    exact ⟨⟨bit, small, both.1, rfl⟩, both.2⟩
  · rintro ⟨⟨bit, small, set, rfl⟩, unmarked⟩
    rw [bitAt bit small] at unmarked
    refine ⟨bit, small, ?_, rfl⟩
    rw [Word.testBit_without small, set, unmarked, Bool.true_and]

theorem unmarked_eq (b marks : Bitmap) (base : marks.base = b.base) : b.unmarked marks
    = (List.range b.wordsInUse).flatMap fun index =>
      b.wordMembers index (Word.without (b.word index) (marks.word index)) := by
  rw [unmarked, members_eq, List.filter_flatMap]
  simp only [wordMembers_without b marks base]

/-! ### What a walk does -/

/-- The visitor leaves alone the words behind which the walk has not come yet. -/
def Trails (map : α → Bitmap) (visit : α → Nat → Except Defect α) : Prop :=
  ∀ state x state', visit state x = .ok state' → (map state').base = (map state).base
    ∧ ∀ index, offsetToIndex Size.granule (x - (map state).base) < index →
      (map state').word index = (map state).word index

variable {map : α → Bitmap} {visit : α → Nat → Except Defect α} {state state' : α}

/-- One word's worth of visits. -/
theorem Trails.foldlM (trails : Trails map visit) {l : List Nat}
    (behind : ∀ x ∈ l, offsetToIndex Size.granule (x - (map state).base) = index)
    (run : l.foldlM visit state = .ok state') : (map state').base = (map state).base
      ∧ ∀ ahead, index < ahead → (map state').word ahead = (map state).word ahead := by
  induction l generalizing state with
  | nil =>
    cases run
    exact ⟨rfl, fun _ _ => rfl⟩
  | cons x rest ih =>
    rw [List.foldlM_cons] at run
    cases first : visit state x with
    | error cause =>
      rw [first] at run
      cases run
    | ok middle =>
      rw [first] at run
      obtain ⟨base, same⟩ := trails state x middle first
      rw [behind x List.mem_cons_self] at same
      have later : ∀ y ∈ rest, offsetToIndex Size.granule (y - (map middle).base) = index := by
        intro y member
        rw [base]
        exact behind y (List.mem_cons_of_mem _ member)
      obtain ⟨base', same'⟩ := ih later run
      exact ⟨base'.trans base, fun ahead further =>
        (same' ahead further).trans (same ahead further)⟩

theorem visitWord_eq (b : Bitmap) (index word : Nat) (visit : α → Nat → Except Defect α)
    (state : α) :
    b.visitWord index word visit state = (b.wordMembers index word).foldlM visit state := by
  unfold visitWord
  split
  case isTrue zero =>
    rw [zero, wordMembers_zero]
    rfl
  case isFalse => rfl

/-- A walk through words visits what they had at the start. -/
theorem visitWords_eq (trails : Trails map visit) (base : (map state).base = b.base)
    (use : Nat → Nat → Nat) (index count : Nat) :
    b.visitWords (fun state index => use index ((map state).word index)) visit state index count
      = ((List.range' index count).flatMap fun index =>
        b.wordMembers index (use index ((map state).word index))).foldlM visit state := by
  induction count generalizing state index with
  | zero => rfl
  | succ count ih =>
    rw [visitWords, visitWord_eq, List.range'_succ, List.flatMap_cons, List.foldlM_append]
    cases run : (b.wordMembers index (use index ((map state).word index))).foldlM visit state with
    | error cause => rfl
    | ok middle =>
      have behind : ∀ x ∈ b.wordMembers index (use index ((map state).word index)),
          offsetToIndex Size.granule (x - (map state).base) = index := by
        intro x member
        rw [base]
        exact index_of_mem member
      obtain ⟨base', same⟩ := trails.foldlM behind run
      have rest : (List.range' (index + 1) count).flatMap (fun index =>
            b.wordMembers index (use index ((map middle).word index)))
          = (List.range' (index + 1) count).flatMap fun index =>
            b.wordMembers index (use index ((map state).word index)) := by
        refine List.flatMap_congr fun later member => ?_
        rw [same later (by have := List.mem_range'_1.1 member; omega)]
      exact (ih (base'.trans base) (index + 1)).trans (by rw [rest]; rfl)

/-- The words that a walk comes to exist. -/
structure Walkable (b : Bitmap) : Prop where
  below : b.highest < b.base ∨ b.highest < b.limit

theorem requireWalkable_eq (walkable : b.Walkable) : b.requireWalkable = .ok () := by
  refine if_pos (decide_eq_true ?_)
  have below := walkable.below
  simp only [wordsInUse, size, offsetToIndex, wordBits, Size.granule]
  split <;> omega

/-- Whatever the visitor does behind it, a walk visits the members that there were at the start,
lowest first. -/
theorem walkWith_eq (trails : Trails map visit) (walks : (map state).requireWalkable = .ok ()) :
    walkWith map visit state = (map state).members.foldlM visit state := by
  have walk := visitWords_eq trails (b := map state) rfl (fun _ word => word) 0
    (map state).wordsInUse
  rw [walkWith, walks, members_eq, List.range_eq_range', ← walk]
  rfl

/-- Whatever the visitor does behind it, a sweep visits what at the start was in the bitmap and not
among the marks, lowest first. -/
theorem sweepWith_eq {marks : Bitmap} (trails : Trails map visit)
    (walks : (map state).requireWalkable = .ok ()) (base : marks.base = (map state).base)
    (size : marks.size = (map state).size) :
    sweepWith map marks visit state = ((map state).unmarked marks).foldlM visit state := by
  have range : ((map state).base == marks.base && (map state).size == marks.size) = true := by
    rw [base, size]
    simp
  have walk := visitWords_eq trails (b := map state) rfl
    (fun index word => Word.without word (marks.word index)) 0 (map state).wordsInUse
  rw [sweepWith, range, walks, unmarked_eq _ _ base, List.range_eq_range',
    ← walk]
  rfl

/-! ### How far a walk goes -/

theorem walkable_blank {name : String} {base capacity : Nat} (positive : 0 < base) :
    (blank name base capacity).Walkable := by
  refine ⟨.inl ?_⟩
  simp only [blank, Word.wrappingPred]
  split <;> omega

theorem Walkable.insert (walkable : b.Walkable) (covered : b.mayContain x = true) :
    (b.insert x).Walkable := by
  refine ⟨?_⟩
  have below := walkable.below
  have limit := (mayContain_iff.1 covered).2.1
  rw [base_insert, limit_insert]
  unfold Bitmap.insert
  split
  · exact below
  · rcases below with unused | below
    · right
      exact Nat.max_lt.2 ⟨by have := (mayContain_iff.1 covered).1; omega, limit⟩
    · exact .inr (Nat.max_lt.2 ⟨below, limit⟩)

theorem Walkable.erase (walkable : b.Walkable) : (b.erase x).Walkable := by
  refine ⟨?_⟩
  rw [highest_erase, base_erase, limit_erase]
  exact walkable.below

/-! ### Visitors -/

theorem trails_note : Trails Prod.snd note := by
  intro state x state' run
  cases run
  exact ⟨rfl, fun _ _ => rfl⟩

theorem word_erase (ahead : offsetToIndex Size.granule (x - b.base) < index) :
    (b.erase x).word index = b.word index := by
  unfold erase
  split
  · simp only [word, Std.ExtTreeMap.getD_insert, Nat.compare_eq_eq, if_neg (Nat.ne_of_lt ahead)]
  · rfl

theorem clear_eq (covered : b.mayContain x = true) :
    b.clear x = .ok (b.bitAt x, b.erase x) := by
  rw [clear, Word.require, if_pos covered]
  rfl

theorem trails_noteClearing : Trails Prod.snd noteClearing := by
  intro state x state' run
  by_cases covered : state.2.mayContain x = true
  · rw [noteClearing, clear_eq covered] at run
    cases run
    exact ⟨base_erase _ _, fun _ ahead => word_erase ahead⟩
  · rw [noteClearing, clear, Word.require, if_neg covered] at run
    cases run

theorem foldlM_note (l : List Nat) (seen : Array Nat) (b : Bitmap) :
    l.foldlM note (seen, b) = .ok (seen ++ l.toArray, b) := by
  induction l generalizing seen with
  | nil => simp [pure, Except.pure]
  | cons x rest ih =>
    rw [List.foldlM_cons]
    refine (ih (seen.push x)).trans ?_
    simp

theorem foldlM_noteClearing {l : List Nat} (seen : Array Nat)
    (covered : ∀ x ∈ l, b.mayContain x = true) :
    l.foldlM noteClearing (seen, b) = .ok (seen ++ l.toArray, l.foldl erase b) := by
  induction l generalizing seen b with
  | nil => simp [pure, Except.pure]
  | cons x rest ih =>
    have one : noteClearing (seen, b) x = .ok (seen.push x, b.erase x) := by
      rw [noteClearing, clear_eq (covered x List.mem_cons_self)]
      rfl
    have later : ∀ y ∈ rest, (b.erase x).mayContain y = true := by
      intro y member
      rw [mayContain_erase]
      exact covered y (List.mem_cons_of_mem _ member)
    rw [List.foldlM_cons, one]
    refine (ih (seen.push x) later).trans ?_
    simp

/-- What erasing addresses one after the other leaves. -/
theorem foldl_erase (sound : b.Sound) (walkable : b.Walkable) {l : List Nat}
    (covered : ∀ x ∈ l, b.mayContain x = true) :
    (l.foldl erase b).Sound ∧ (l.foldl erase b).Walkable
      ∧ (l.foldl erase b).base = b.base ∧ (l.foldl erase b).limit = b.limit
      ∧ ∀ y, (l.foldl erase b).test y = true ↔ y ∉ l ∧ b.test y = true := by
  induction l generalizing b with
  | nil => simp [sound, walkable]
  | cons x rest ih =>
    have later : ∀ y ∈ rest, (b.erase x).mayContain y = true := by
      intro y member
      rw [mayContain_erase]
      exact covered y (List.mem_cons_of_mem _ member)
    obtain ⟨whole, walks, base, limit, tests⟩ := ih sound.erase walkable.erase later
    rw [base_erase] at base
    rw [limit_erase] at limit
    refine ⟨whole, walks, base, limit, fun y => ?_⟩
    rw [List.foldl_cons, tests, sound.test_erase (covered x List.mem_cons_self), List.mem_cons]
    tauto

theorem walk_eq (walks : b.requireWalkable = .ok ()) : b.walk = .ok b.members := by
  have walked : walkWith Prod.snd note (#[], b) = b.members.foldlM note (#[], b) :=
    walkWith_eq trails_note walks
  rw [foldlM_note] at walked
  simp [walk, walked, bind, Except.bind, pure, Except.pure]

/-- A walk that clears each bit on its way comes to the same addresses as one that does not. -/
theorem walkClearing_eq (sound : b.Sound) (walks : b.requireWalkable = .ok ()) :
    b.walkClearing = .ok (b.members, b.members.foldl erase b) := by
  have walked : walkWith Prod.snd noteClearing (#[], b) = b.members.foldlM noteClearing (#[], b) :=
    walkWith_eq trails_noteClearing walks
  rw [foldlM_noteClearing _ fun x member => mayContain_of_test (sound.mem_members.1 member)]
    at walked
  simp [walkClearing, walked, bind, Except.bind, pure, Except.pure]

variable {marks : Bitmap}

theorem sweepWalk_eq (walks : b.requireWalkable = .ok ()) (base : marks.base = b.base)
    (size : marks.size = b.size) : b.sweepWalk marks = .ok (b.unmarked marks) := by
  have walked : sweepWith Prod.snd marks note (#[], b) = (b.unmarked marks).foldlM note (#[], b) :=
    sweepWith_eq trails_note walks base size
  rw [foldlM_note] at walked
  simp [sweepWalk, walked, bind, Except.bind, pure, Except.pure]

/-- A sweep that clears each bit on its way comes to the same addresses as one that does not. -/
theorem sweepClearing_eq (sound : b.Sound) (walks : b.requireWalkable = .ok ())
    (base : marks.base = b.base) (size : marks.size = b.size) : b.sweepClearing marks
      = .ok (b.unmarked marks, (b.unmarked marks).foldl erase b) := by
  have walked : sweepWith Prod.snd marks noteClearing (#[], b)
      = (b.unmarked marks).foldlM noteClearing (#[], b) :=
    sweepWith_eq trails_noteClearing walks base size
  rw [foldlM_noteClearing _ fun x member => mayContain_of_test (sound.mem_unmarked.1 member).1]
    at walked
  simp [sweepClearing, walked, bind, Except.bind, pure, Except.pure]

/-- A sweep that comes to its end answers what is not marked. -/
theorem eq_unmarked_of_sweepWalk {garbage : List Nat} (sweep : b.sweepWalk marks = .ok garbage) :
    garbage = b.unmarked marks := by
  by_cases range : (b.base == marks.base && b.size == marks.size) = true
  · have parts := Bool.and_eq_true_iff.1 range
    cases walks : b.requireWalkable with
    | error cause =>
      rw [sweepWalk, sweepWith, range, walks] at sweep
      cases sweep
    | ok =>
      rw [sweepWalk_eq walks (eq_of_beq parts.1).symm (eq_of_beq parts.2).symm] at sweep
      exact (Except.ok.inj sweep).symm
  · rw [sweepWalk, sweepWith, Word.require, if_neg range] at sweep
    cases sweep

/-- To count the bits of each word is to count the members. -/
theorem count_eq (walks : b.requireWalkable = .ok ()) : b.count = .ok b.members.length := by
  have total : Word.total ((List.range b.wordsInUse).map fun index => wordCount (b.word index))
      = b.members.length := by
    rw [members_eq]
    generalize List.range b.wordsInUse = indices
    induction indices with
    | nil => rfl
    | cons index rest ih =>
      rw [List.map_cons, Word.total_cons, List.flatMap_cons, List.length_append,
        length_wordMembers, ih]
  rw [count, walks, ← total]
  rfl

/-! ### Emptying and copying -/

theorem getD_filter_key (words : Std.ExtTreeMap Nat Nat) (keep : Nat → Bool) (index : Nat) :
    (words.filter fun index _ => keep index).getD index 0
      = if keep index then words.getD index 0 else 0 := by
  rw [Std.ExtTreeMap.getD_eq_getD_getElem?, Std.ExtTreeMap.getD_eq_getD_getElem?,
    Std.ExtTreeMap.getElem?_filter']
  cases words[index]? with
  | none => simp
  | some word => by_cases kept : keep index = true <;> simp [Option.filter, kept]

/-- A bit that is set stands in a word in use. -/
theorem Sound.index_lt (sound : b.Sound) {number : Nat} (bit : b.hasBit number = true) :
    number / wordBits < b.wordsInUse := by
  have highest := (sound.covered number bit).2
  simp only [wordsInUse, offsetToIndex, wordBits, Size.granule] at *
  split <;> omega

/-- Zeroing the words in use zeroes all. -/
theorem Sound.hasBit_reset (sound : b.Sound) (number : Nat) : b.reset.hasBit number = false := by
  have word : b.reset.word (number / wordBits)
      = if b.wordsInUse ≤ number / wordBits then b.word (number / wordBits) else 0 := by
    simp only [reset, Bitmap.word, getD_filter_key, decide_eq_true_eq]
  rw [hasBit, word]
  split
  case isTrue unused =>
    by_contra set
    exact Nat.not_lt.2 unused (sound.index_lt (Bool.not_eq_false _ ▸ set))
  case isFalse => exact Nat.zero_testBit _

theorem Sound.reset (sound : b.Sound) : b.reset.Sound where
  positive := sound.positive
  aligned := sound.aligned
  covered := by
    intro number bit
    rw [sound.hasBit_reset] at bit
    cases bit

theorem Sound.test_reset (sound : b.Sound) (x : Nat) : b.reset.test x = false := by
  rw [test, bitAt_eq_hasBit, sound.hasBit_reset, Bool.and_false]

/-- Copying the words in use copies all. -/
theorem Sound.hasBit_copy (sound : b.Sound) (number : Nat) :
    b.copy.hasBit number = b.hasBit number := by
  have word : b.copy.word (number / wordBits)
      = if number / wordBits < b.wordsInUse then b.word (number / wordBits) else 0 := by
    simp only [copy, Bitmap.word, getD_filter_key, decide_eq_true_eq]
  rw [hasBit, word]
  split
  case isTrue => rfl
  case isFalse unused =>
    rw [Nat.zero_testBit]
    by_contra set
    exact unused (sound.index_lt (Bool.not_eq_false _ ▸ Ne.symm set))

theorem limit_copy (range : b.base ≤ b.limit) : b.copy.limit = b.limit :=
  Nat.add_sub_cancel' range

theorem Sound.copy (sound : b.Sound) : b.copy.Sound where
  positive := sound.positive
  aligned := sound.aligned
  covered := by
    intro number bit
    rw [sound.hasBit_copy] at bit
    obtain ⟨below, reached⟩ := sound.covered number bit
    refine ⟨?_, reached⟩
    change b.base + number * Size.granule < b.base + (b.limit - b.base)
    omega

theorem Sound.test_copy (sound : b.Sound) (range : b.base ≤ b.limit) (x : Nat) :
    b.copy.test x = b.test x := by
  have covered : b.copy.mayContain x = b.mayContain x := by
    rw [mayContain, mayContain, limit_copy range]
    rfl
  rw [test, test, covered, bitAt_eq_hasBit, bitAt_eq_hasBit, sound.hasBit_copy]
  rfl

theorem walkable_reset (positive : 0 < b.base) : b.reset.Walkable := by
  refine ⟨.inl ?_⟩
  simp only [reset, Word.wrappingPred]
  split <;> omega

theorem Walkable.copy (walkable : b.Walkable) (range : b.base ≤ b.limit) : b.copy.Walkable := by
  refine ⟨?_⟩
  rw [limit_copy range]
  exact walkable.below

end Bitmap

end ManagedHeap
