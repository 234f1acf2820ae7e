import ManagedHeap.Rounding

/-!
Byte counts as people read them: whole bytes below a kilobyte, else one decimal place and the
letter K, M or G.
-/

namespace ManagedHeap

namespace Text

/-- `count / unit` with one decimal place. -/
def oneDecimal (count unit : Nat) : String :=
  let tenths := Rounding.nearest (count * 10) unit
  s!"{tenths / 10}.{tenths % 10}"

/-- A byte count in the largest of the units byte, K, M and G that it reaches. The count is held
with 53 significant binary digits, so a count just below a unit may be written in that unit. -/
def byteCount (count : Nat) : String :=
  let held := Rounding.toBits 53 count
  if held < 1024 then s!"{count}B"
  else if held < 1048576 then oneDecimal held 1024 ++ "K"
  else if held < 1073741824 then oneDecimal held 1048576 ++ "M"
  else oneDecimal held 1073741824 ++ "G"

/-- A number in lower-case hexadecimal digits. -/
def hexDigits (n : Nat) : String := String.ofList (Nat.toDigits 16 n)

/-- An address as people read it. -/
def address (n : Nat) : String := "0x" ++ hexDigits n

end Text

end ManagedHeap
