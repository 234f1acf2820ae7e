import ManagedHeap.Text.ByteCount
import ManagedHeap.Text.Graphic

/-!
Text in double quotes on one line. Quote, backslash and the usual controls have short escapes; any
other character without a glyph of its own is written by its code point.
-/

namespace ManagedHeap

namespace Text

/-- The written form of one character between double quotes. -/
def quoteChar (c : Char) : String :=
  if c = '\x00' then "\\0"
  else if c = '\t' then "\\t"
  else if c = '\r' then "\\r"
  else if c = '\n' then "\\n"
  else if c = '"' then "\\\""
  else if c = '\\' then "\\\\"
  else if isGraphic c then c.toString
  else "\\u\x7b" ++ hexDigits c.toNat ++ "\x7d"

/-- The text between double quotes. -/
def quote (text : String) : String :=
  "\"" ++ String.join (text.toList.map quoteChar) ++ "\""

end Text

end ManagedHeap
