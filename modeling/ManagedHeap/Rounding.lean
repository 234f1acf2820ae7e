import ManagedHeap.Word

/-!
Rounding of exact quotients. A tie goes to the even neighbour everywhere in this library.
-/

namespace ManagedHeap

namespace Rounding

/-- The integer nearest to `num / den`; of two equally near ones the even one. -/
def nearest (num den : Nat) : Nat :=
  let quotient := num / den
  let rest := num % den
  if 2 * rest < den then quotient
  else if den < 2 * rest then quotient + 1
  else if quotient % 2 = 0 then quotient else quotient + 1

/-- The nearest number that has at most `bits` significant binary digits. -/
def toBits (bits n : Nat) : Nat :=
  if n < Word.bit bits then n
  else
    let unit := Word.bit (n.log2 + 1 - bits)
    nearest n unit * unit

end Rounding

end ManagedHeap
