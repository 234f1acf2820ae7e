/-!
Machine words. Sizes and addresses are natural numbers below `2 ^ 64`. An operation whose exact
result leaves that range is a defect of the caller: nothing wraps around unless its name says so.
-/

namespace ManagedHeap

/-- A broken assumption of the program itself, as opposed to a request that cannot be served. -/
inductive Defect where
  /-- A sum, product or difference left the range of a word. -/
  | overflow
  /-- A quotient by zero was asked for. -/
  | divisionByZero
  /-- A condition that always has to hold did not. -/
  | assertion
deriving DecidableEq, Repr, Inhabited

namespace Word

/-- The number of words; every word is below it. -/
def limit : Nat := 18446744073709551616

/-- The largest word. -/
def largest : Nat := 18446744073709551615

/-- The sum, if it is a word. -/
def add (a b : Nat) : Except Defect Nat :=
  if a + b < limit then .ok (a + b) else .error .overflow

/-- The difference, if it is not negative. -/
def sub (a b : Nat) : Except Defect Nat :=
  if b ≤ a then .ok (a - b) else .error .overflow

/-- The product, if it is a word. -/
def mul (a b : Nat) : Except Defect Nat :=
  if a * b < limit then .ok (a * b) else .error .overflow

/-- The quotient rounded down, unless the divisor is zero. -/
def div (a b : Nat) : Except Defect Nat :=
  if b = 0 then .error .divisionByZero else .ok (a / b)

/-- The sum, or the largest word where the sum is larger. -/
def saturatingAdd (a b : Nat) : Nat := min (a + b) largest

/-- The value that comes before `a` when words are read in a circle. -/
def wrappingPred (a : Nat) : Nat := if a = 0 then largest else a - 1

/-- The sum of a list, if every partial sum is a word. -/
def sum (values : List Nat) : Except Defect Nat :=
  values.foldlM add 0

/-- The exact sum of a list. -/
def total (values : List Nat) : Nat := values.foldr (· + ·) 0

@[simp]
theorem total_nil : total [] = 0 := rfl

@[simp]
theorem total_cons (first : Nat) (rest : List Nat) :
    total (first :: rest) = first + total rest := rfl

/-- Another value in the place of one changes the sum by as much. -/
theorem total_set {values : List Nat} {i old : Nat} (here : values[i]? = some old) (new : Nat) :
    total (values.set i new) + old = total values + new := by
  induction values generalizing i with
  | nil => cases here
  | cons first rest ih =>
    cases i with
    | zero =>
      cases here
      simp only [List.set_cons_zero, total_cons]
      omega
    | succ i =>
      have later := ih here
      simp only [List.set_cons_succ, total_cons]
      omega

/-- The number whose only binary digit 1 stands at a place. -/
def bit (place : Nat) : Nat := 1 <<< place

theorem testBit_bit (place other : Nat) : (bit place).testBit other = decide (place = other) := by
  rw [bit, Nat.one_shiftLeft, Nat.testBit_two_pow]

/-- The digits 1 of a word where another has the digit 0. -/
def without (a b : Nat) : Nat := a &&& (largest ^^^ b)

theorem testBit_without {place : Nat} (small : place < 64) (a b : Nat) :
    (without a b).testBit place = (a.testBit place && !b.testBit place) := by
  have ones : largest.testBit place = true := by
    rw [show largest = 2 ^ 64 - 1 from rfl, Nat.testBit_two_pow_sub_one]
    exact decide_eq_true small
  rw [without, Nat.testBit_and, Nat.testBit_xor, ones, Bool.true_xor]

/-- Holds the program to a condition. -/
def require (condition : Bool) : Except Defect Unit :=
  if condition then .ok () else .error .assertion

end Word

end ManagedHeap
