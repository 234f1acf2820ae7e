import Mathlib.Data.List.Nodup
import ManagedHeap.Bitmap

/-!
A bitmap as a set of addresses. What is in it is told by `test`, and each operation is described by
what it does to that.
-/

namespace ManagedHeap

namespace Bitmap

/-- Is the bit set that stands for the granule with a number? -/
def hasBit (b : Bitmap) (number : Nat) : Bool :=
  (b.word (number / wordBits)).testBit (number % wordBits)

/-- The bitmap starts at a granule, and every bit set stands for a covered address that a walk
comes to. -/
structure Sound (b : Bitmap) : Prop where
  positive : 0 < b.base
  aligned : b.base % Size.granule = 0
  covered : ∀ number, b.hasBit number = true →
    b.base + number * Size.granule < b.limit ∧ b.base + number * Size.granule ≤ b.highest

variable {b : Bitmap} {x y number : Nat}

theorem bitAt_eq_hasBit (b : Bitmap) (x : Nat) :
    b.bitAt x = b.hasBit ((x - b.base) / Size.granule) := rfl

theorem mayContain_iff :
    b.mayContain x = true ↔ b.base ≤ x ∧ x < b.limit ∧ x % Size.granule = 0 := by
  simp [mayContain, and_assoc]

theorem test_iff : b.test x = true ↔ b.mayContain x = true ∧ b.bitAt x = true := by
  simp [test]

theorem mayContain_of_test (member : b.test x = true) : b.mayContain x = true :=
  (test_iff.1 member).1

/-- A covered address is told from its granule. -/
theorem Sound.address_eq (sound : b.Sound) (covered : b.mayContain x = true) :
    b.base + (x - b.base) / Size.granule * Size.granule = x := by
  have aligned := sound.aligned
  rw [mayContain_iff] at covered
  simp only [Size.granule] at *
  omega

theorem Sound.granule_inj (sound : b.Sound) (hx : b.mayContain x = true)
    (hy : b.mayContain y = true)
    (same : (x - b.base) / Size.granule = (y - b.base) / Size.granule) : x = y := by
  rw [← sound.address_eq hx, ← sound.address_eq hy, same]

/-- The members are the addresses of the bits that are set. -/
theorem Sound.test_iff_hasBit (sound : b.Sound) : b.test x = true
    ↔ ∃ number, b.hasBit number = true ∧ x = b.base + number * Size.granule := by
  constructor
  · intro member
    have covered := mayContain_of_test member
    exact ⟨_, (test_iff.1 member).2, (sound.address_eq covered).symm⟩
  · rintro ⟨number, bit, rfl⟩
    have aligned := sound.aligned
    have bound := (sound.covered number bit).1
    have granule : (b.base + number * Size.granule - b.base) / Size.granule = number := by
      simp only [Size.granule]
      omega
    refine test_iff.2 ⟨mayContain_iff.2 ⟨Nat.le_add_right _ _, bound, ?_⟩, ?_⟩
    · simp only [Size.granule] at *
      omega
    · rw [bitAt_eq_hasBit, granule]
      exact bit

theorem eq_of_div_mod {m n : Nat} (index : m / wordBits = n / wordBits)
    (bit : m % wordBits = n % wordBits) : m = n := by
  simp only [wordBits] at *
  omega

theorem hasBit_of_words {b' : Bitmap} {index value : Nat}
    (words : b'.words = b.words.insert index value) : b'.hasBit number
      = if number / wordBits = index then value.testBit (number % wordBits)
        else b.hasBit number := by
  simp only [hasBit, word, words, Std.ExtTreeMap.getD_insert, Nat.compare_eq_eq]
  by_cases here : number / wordBits = index
  · rw [if_pos here, if_pos here.symm]
  · rw [if_neg here, if_neg fun same => here same.symm]

@[simp]
theorem base_insert (b : Bitmap) (x : Nat) : (b.insert x).base = b.base := by
  unfold insert
  split <;> rfl

@[simp]
theorem limit_insert (b : Bitmap) (x : Nat) : (b.insert x).limit = b.limit := by
  unfold insert
  split <;> rfl

@[simp]
theorem base_erase (b : Bitmap) (x : Nat) : (b.erase x).base = b.base := by
  unfold erase
  split <;> rfl

@[simp]
theorem limit_erase (b : Bitmap) (x : Nat) : (b.erase x).limit = b.limit := by
  unfold erase
  split <;> rfl

@[simp]
theorem mayContain_insert (b : Bitmap) (x y : Nat) :
    (b.insert x).mayContain y = b.mayContain y := by
  simp [mayContain]

@[simp]
theorem mayContain_erase (b : Bitmap) (x y : Nat) :
    (b.erase x).mayContain y = b.mayContain y := by
  simp [mayContain]

theorem hasBit_insert (b : Bitmap) (x number : Nat) : (b.insert x).hasBit number = true
    ↔ number = (x - b.base) / Size.granule ∨ b.hasBit number = true := by
  unfold insert
  split
  case isTrue present =>
    rw [bitAt_eq_hasBit] at present
    constructor
    · exact .inr
    · rintro (rfl | bit)
      · exact present
      · exact bit
  case isFalse absent =>
    rw [hasBit_of_words rfl]
    by_cases index : number / wordBits = offsetToIndex Size.granule (x - b.base)
    · have mask : (offsetToMask Size.granule (x - b.base)).testBit (number % wordBits) = true
          ↔ number = (x - b.base) / Size.granule := by
        simp only [offsetToMask, offsetToBit, Word.testBit_bit, decide_eq_true_eq]
        constructor
        · intro bit
          exact eq_of_div_mod index bit.symm
        · rintro rfl
          rfl
      rw [if_pos index, Nat.testBit_or, Bool.or_eq_true, mask, ← index]
      exact or_comm
    · have other : number ≠ (x - b.base) / Size.granule := by
        rintro rfl
        exact index rfl
      rw [if_neg index]
      simp [other, hasBit]

theorem hasBit_erase (b : Bitmap) (x number : Nat) : (b.erase x).hasBit number = true
    ↔ number ≠ (x - b.base) / Size.granule ∧ b.hasBit number = true := by
  unfold erase
  split
  case isFalse absent =>
    rw [bitAt_eq_hasBit] at absent
    constructor
    · intro bit
      refine ⟨?_, bit⟩
      rintro rfl
      exact absent bit
    · exact And.right
  case isTrue present =>
    rw [bitAt_eq_hasBit] at present
    rw [hasBit_of_words rfl]
    by_cases index : number / wordBits = offsetToIndex Size.granule (x - b.base)
    · rw [if_pos index, Nat.testBit_xor, ← index]
      by_cases same : number = (x - b.base) / Size.granule
      · subst same
        have mask : (offsetToMask Size.granule (x - b.base)).testBit
            ((x - b.base) / Size.granule % wordBits) = true := by
          rw [offsetToMask, offsetToBit, Word.testBit_bit, decide_eq_true_eq]
        have old : (b.word ((x - b.base) / Size.granule / wordBits)).testBit
            ((x - b.base) / Size.granule % wordBits) = true := present
        rw [mask, old]
        simp
      · have mask : (offsetToMask Size.granule (x - b.base)).testBit (number % wordBits)
            = false := by
          rw [offsetToMask, Word.testBit_bit, decide_eq_false_iff_not]
          intro bit
          exact same (eq_of_div_mod index bit.symm)
        simp [mask, same, hasBit]
    · have other : number ≠ (x - b.base) / Size.granule := by
        rintro rfl
        exact index rfl
      rw [if_neg index]
      simp [other, hasBit]

theorem le_highest_insert (b : Bitmap) (x : Nat) : b.highest ≤ (b.insert x).highest := by
  unfold insert
  split
  · exact Nat.le_refl _
  · exact Nat.le_max_left _ _

theorem highest_erase (b : Bitmap) (x : Nat) : (b.erase x).highest = b.highest := by
  unfold erase
  split <;> rfl

theorem Sound.test_insert (sound : b.Sound) (covered : b.mayContain x = true) :
    (b.insert x).test y = true ↔ y = x ∨ b.test y = true := by
  rw [test_iff, test_iff, mayContain_insert, bitAt_eq_hasBit, hasBit_insert, base_insert,
    bitAt_eq_hasBit]
  constructor
  · rintro ⟨range, same | bit⟩
    · exact .inl (sound.granule_inj range covered same)
    · exact .inr ⟨range, bit⟩
  · rintro (rfl | ⟨range, bit⟩)
    · exact ⟨covered, .inl rfl⟩
    · exact ⟨range, .inr bit⟩

theorem Sound.test_erase (sound : b.Sound) (covered : b.mayContain x = true) :
    (b.erase x).test y = true ↔ y ≠ x ∧ b.test y = true := by
  rw [test_iff, test_iff, mayContain_erase, bitAt_eq_hasBit, hasBit_erase, base_erase,
    bitAt_eq_hasBit]
  constructor
  · rintro ⟨range, other, bit⟩
    refine ⟨?_, range, bit⟩
    rintro rfl
    exact other rfl
  · rintro ⟨other, range, bit⟩
    exact ⟨range, fun same => other (sound.granule_inj range covered same), bit⟩

theorem Sound.insert (sound : b.Sound) (covered : b.mayContain x = true) :
    (b.insert x).Sound where
  positive := by
    rw [base_insert]
    exact sound.positive
  aligned := by
    rw [base_insert]
    exact sound.aligned
  covered := by
    intro number bit
    rw [base_insert, limit_insert]
    have highest := le_highest_insert b x
    rw [hasBit_insert] at bit
    rcases bit with rfl | bit
    · rw [sound.address_eq covered]
      refine ⟨(mayContain_iff.1 covered).2.1, ?_⟩
      unfold Bitmap.insert
      split
      case isTrue present =>
        have old := (sound.covered _ present).2
        rwa [show b.base + _ * Size.granule = x from sound.address_eq covered] at old
      case isFalse => exact Nat.le_max_right _ _
    · have old := sound.covered number bit
      exact ⟨old.1, Nat.le_trans old.2 highest⟩

theorem Sound.erase (sound : b.Sound) : (b.erase x).Sound where
  positive := by
    rw [base_erase]
    exact sound.positive
  aligned := by
    rw [base_erase]
    exact sound.aligned
  covered := by
    intro number bit
    rw [base_erase, limit_erase, highest_erase]
    rw [hasBit_erase] at bit
    exact sound.covered number bit.2

theorem hasBit_blank (name : String) (base capacity : Nat) :
    (blank name base capacity).hasBit number = false := by
  have empty : (blank name base capacity).word (number / wordBits) = 0 :=
    Std.ExtTreeMap.getD_empty
  rw [hasBit, empty, Nat.zero_testBit]

theorem test_blank (name : String) (base capacity : Nat) :
    (blank name base capacity).test x = false := by
  rw [test, bitAt_eq_hasBit, hasBit_blank, Bool.and_false]

theorem sound_blank {name : String} {base capacity : Nat} (positive : 0 < base)
    (aligned : base % Size.granule = 0) : (blank name base capacity).Sound where
  positive := positive
  aligned := aligned
  covered := by
    intro number bit
    rw [hasBit_blank] at bit
    cases bit

/-- A walk comes to the members and to nothing else. -/
theorem Sound.mem_members (sound : b.Sound) : x ∈ b.members ↔ b.test x = true := by
  rw [sound.test_iff_hasBit]
  simp only [members, wordMembers, List.mem_flatMap, List.mem_filter, List.mem_filterMap,
    List.mem_range, Prod.exists, decide_eq_true_eq,
    Std.ExtTreeMap.mem_toList_iff_getElem?_eq_some]
  constructor
  · rintro ⟨index, word, ⟨found, -⟩, bit, small, here⟩
    split at here
    case isFalse => cases here
    case isTrue set =>
      have parts : (index * wordBits + bit) / wordBits = index
          ∧ (index * wordBits + bit) % wordBits = bit := by
        simp only [wordBits] at *
        omega
      refine ⟨index * wordBits + bit, ?_, (Option.some.inj here).symm⟩
      have content : b.word index = word := by
        rw [Bitmap.word, Std.ExtTreeMap.getD_eq_getD_getElem?, found, Option.getD_some]
      rw [hasBit, parts.1, parts.2, content]
      exact set
  · rintro ⟨number, bit, rfl⟩
    have parts : number / wordBits * wordBits + number % wordBits = number :=
      Nat.div_add_mod' number wordBits
    have reached : number / wordBits < b.wordsInUse := by
      have highest := (sound.covered number bit).2
      simp only [wordsInUse, offsetToIndex, wordBits, Size.granule] at *
      split <;> omega
    cases found : b.words[number / wordBits]? with
    | none =>
      have content : b.word (number / wordBits) = 0 := by
        rw [Bitmap.word, Std.ExtTreeMap.getD_eq_getD_getElem?, found, Option.getD_none]
      rw [hasBit, content, Nat.zero_testBit] at bit
      cases bit
    | some word =>
      have content : b.word (number / wordBits) = word := by
        rw [Bitmap.word, Std.ExtTreeMap.getD_eq_getD_getElem?, found, Option.getD_some]
      rw [hasBit, content] at bit
      refine ⟨_, word, ⟨found, reached⟩, number % wordBits, Nat.mod_lt _ (by decide), ?_⟩
      rw [if_pos bit, parts]

theorem nodup_wordMembers (b : Bitmap) (index word : Nat) : (b.wordMembers index word).Nodup := by
  refine List.nodup_range.filterMap fun bit bit' x here here' => ?_
  rw [Option.mem_def] at here here'
  split at here <;> cases here
  split at here' <;> simp only [Option.some.injEq, reduceCtorEq, Size.granule] at here'
  omega

/-- No walk comes to a member twice. -/
theorem nodup_members (b : Bitmap) : b.members.Nodup := by
  refine List.nodup_flatMap.2 ⟨fun entry _ => b.nodup_wordMembers _ _, ?_⟩
  refine (Std.ExtTreeMap.distinct_keys_toList.filter _).imp ?_
  rintro ⟨index, word⟩ ⟨index', word'⟩ different x here here'
  rw [Nat.compare_eq_eq] at different
  simp only [wordMembers, List.mem_filterMap, List.mem_range, wordBits, Size.granule] at here here'
  obtain ⟨bit, small, here⟩ := here
  obtain ⟨bit', small', here'⟩ := here'
  split at here <;> cases here
  split at here' <;> simp only [Option.some.injEq, reduceCtorEq] at here'
  omega

theorem Sound.members_insert (sound : b.Sound) (covered : b.mayContain x = true)
    (absent : b.test x = false) : (b.insert x).members.Perm (x :: b.members) := by
  have fresh : x ∉ b.members := by
    rw [sound.mem_members, absent]
    exact Bool.false_ne_true
  refine (List.perm_ext_iff_of_nodup (b.insert x).nodup_members
    (List.nodup_cons.2 ⟨fresh, b.nodup_members⟩)).2 fun y => ?_
  rw [(sound.insert covered).mem_members, sound.test_insert covered, List.mem_cons,
    sound.mem_members]

theorem Sound.members_erase (sound : b.Sound) (present : b.test x = true) :
    b.members.Perm (x :: (b.erase x).members) := by
  have covered := mayContain_of_test present
  have gone : x ∉ (b.erase x).members := by
    rw [sound.erase.mem_members, sound.test_erase covered]
    exact fun both => both.1 rfl
  refine (List.perm_ext_iff_of_nodup b.nodup_members
    (List.nodup_cons.2 ⟨gone, (b.erase x).nodup_members⟩)).2 fun y => ?_
  rw [List.mem_cons, sound.erase.mem_members, sound.test_erase covered, sound.mem_members]
  by_cases same : y = x
  · simp [same, present]
  · simp [same]

/-- What a sweep comes to is in the bitmap and not among the marks. -/
theorem Sound.mem_unmarked (sound : b.Sound) {marks : Bitmap} :
    x ∈ b.unmarked marks ↔ b.test x = true ∧ marks.bitAt x = false := by
  simp [unmarked, sound.mem_members]

end Bitmap

end ManagedHeap
