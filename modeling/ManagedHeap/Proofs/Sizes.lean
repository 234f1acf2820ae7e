import ManagedHeap.Size

/-!
What the rounding of sizes comes to, where it succeeds.
-/

namespace ManagedHeap

namespace Word

variable {a b value : Nat}

theorem add_eq_ok : add a b = .ok value ↔ a + b < limit ∧ value = a + b := by
  unfold add
  split
  case isTrue small => simp [small, eq_comm]
  case isFalse large => simp [large]

theorem sub_eq_ok : sub a b = .ok value ↔ b ≤ a ∧ value = a - b := by
  unfold sub
  split
  case isTrue small => simp [small, eq_comm]
  case isFalse large => simp [large]

end Word

namespace Size

variable {value rounded : Nat}

/-- The mask of page multiples cuts a word down to whole pages. -/
theorem and_pageMask (small : value < Word.limit) :
    value &&& (Word.largest - (page - 1)) = value / page * page := by
  have mask : Word.largest - (page - 1) = (2 ^ 52 - 1) * 2 ^ 12 := by decide
  have pages : page = 2 ^ 12 := by decide
  rw [mask, pages]
  apply Nat.eq_of_testBit_eq
  intro i
  rw [Nat.testBit_and, Nat.testBit_mul_two_pow, Nat.testBit_mul_two_pow,
    Nat.testBit_two_pow_sub_one, Nat.testBit_div_two_pow]
  by_cases low : 12 ≤ i
  · have index : i - 12 + 12 = i := by omega
    by_cases high : i < 64
    · have inside : i - 12 < 52 := by omega
      simp [low, inside, index]
    · have zero : value.testBit i = false := by
        apply Nat.testBit_lt_two_pow
        have more : 2 ^ 64 ≤ 2 ^ i := Nat.pow_le_pow_right (by decide) (by omega)
        exact Nat.lt_of_lt_of_le small more
      simp [low, index, zero]
  · simp [low]

/-- Rounding up to pages gives the least page multiple that is not below. -/
theorem pagesUp_eq_ok : pagesUp value = .ok rounded
    ↔ value + page < Word.limit ∧ rounded = (value + (page - 1)) / page * page := by
  have mask : alignMask page = .ok (Word.largest - (page - 1)) := rfl
  simp only [pagesUp, alignUp, bind, Except.bind, mask]
  cases sum : Word.add value page with
  | error cause =>
    have large : ¬ value + page < Word.limit := by
      intro small
      rw [Word.add, if_pos small] at sum
      cases sum
    simp [large]
  | ok total =>
    obtain ⟨small, rfl⟩ := Word.add_eq_ok.1 sum
    have less : Word.sub (value + page) 1 = .ok (value + (page - 1)) := by
      rw [Word.sub_eq_ok]
      simp only [page]
      omega
    have below : value + (page - 1) < Word.limit := by
      simp only [page] at *
      omega
    simp only [less, pure, Except.pure, and_pageMask below, Except.ok.injEq]
    exact ⟨fun same => ⟨small, same.symm⟩, fun ⟨_, same⟩ => same.symm⟩

theorem pagesUp_bounds (up : pagesUp value = .ok rounded) :
    value ≤ rounded ∧ rounded < value + page ∧ rounded % page = 0 := by
  obtain ⟨-, rfl⟩ := pagesUp_eq_ok.1 up
  simp only [page]
  omega

end Size

end ManagedHeap
