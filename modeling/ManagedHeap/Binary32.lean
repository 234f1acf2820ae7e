import ManagedHeap.Rounding

/-!
Single-precision numbers as exact values: a sign, a significand and a power of two. Only the few
operations that a utilization ratio goes through are here.
-/

namespace ManagedHeap

/-- A single-precision number. A finite one stands for `± significand * 2 ^ exponent`. -/
inductive Binary32 where
  | nan
  | infinite (negative : Bool)
  | finite (negative : Bool) (significand : Nat) (exponent : Int)
deriving DecidableEq, Repr, Inhabited

namespace Binary32

/-- Reads the interchange format: one sign bit, eight exponent bits, 23 fraction bits. -/
def ofBits (bits : Nat) : Binary32 :=
  let negative := bits / Word.bit 31 % 2 == 1
  let biased : Nat := bits / Word.bit 23 % Word.bit 8
  let fraction := bits % Word.bit 23
  if biased = 255 then
    if fraction = 0 then .infinite negative else .nan
  else if biased = 0 then .finite negative fraction (-149)
  else .finite negative (Word.bit 23 + fraction) (Int.ofNat biased - 150)

/-- The value in units of `2 ^ unit`, for a finite number whose exponent is not below `unit`. -/
def scaledTo (unit : Int) (negative : Bool) (significand : Nat) (exponent : Int) : Int :=
  let magnitude : Int := significand * Word.bit (exponent - unit).toNat
  if negative then -magnitude else magnitude

/-- The order of the numbers. It is false wherever a NaN takes part. -/
def lt : Binary32 → Binary32 → Bool
  | .nan, _ => false
  | _, .nan => false
  | .infinite negative, .infinite negative' => negative && !negative'
  | .infinite negative, .finite .. => negative
  | .finite .., .infinite negative => !negative
  | .finite s m e, .finite s' m' e' =>
    let unit := min e e'
    scaledTo unit s m e < scaledTo unit s' m' e'

/-- The number itself, or the bound that it lies beyond. A NaN lies beyond neither. -/
def clamp (x lower upper : Binary32) : Binary32 :=
  if lt x lower then lower else if lt upper x then upper else x

/-- `2 ^ power * x` cut down to a natural number; 0 for a negative number and for a NaN. -/
def floorScaled (power : Nat) : Binary32 → Nat
  | .nan => 0
  | .infinite negative => if negative then 0 else 18446744073709551615
  | .finite true _ _ => 0
  | .finite false m e =>
    let shifted := e + power
    if 0 ≤ shifted then min (m * Word.bit shifted.toNat) 18446744073709551615
    else m / Word.bit (-shifted).toNat

/-- `count / 2 ^ power`, exact for counts below `2 ^ 24`. -/
def ofScaled (power count : Nat) : Binary32 := .finite false count (-power)

/-- The single-precision number nearest to `± n * 2 ^ exponent`. -/
def round (negative : Bool) (n : Nat) (exponent : Int) : Binary32 :=
  let excess : Int := n.log2 + 1 - 24
  let shift := (max excess (-149 - exponent)).toNat
  let m := Rounding.nearest n (Word.bit shift)
  let e := exponent + shift
  if m ≠ 0 ∧ 128 ≤ m.log2 + e then .infinite negative else .finite negative m e

/-- The nearest single-precision number to the product with a small whole number. -/
def mulNat : Binary32 → Nat → Binary32
  | .nan, _ => .nan
  | .infinite negative, k => if k = 0 then .nan else .infinite negative
  | .finite negative m e, k => round negative (m * k) e

/-- The number rounded to an integer and written in decimal, with its sign even when it is zero. -/
def wholeText : Binary32 → String
  | .nan => "NaN"
  | .infinite negative => if negative then "-inf" else "inf"
  | .finite negative m e =>
    let magnitude :=
      if 0 ≤ e then m * Word.bit e.toNat else Rounding.nearest m (Word.bit (-e).toNat)
    (if negative then "-" else "") ++ toString magnitude

end Binary32

end ManagedHeap
