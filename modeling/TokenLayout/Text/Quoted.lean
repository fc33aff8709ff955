/-
# TokenLayout.Text.Quoted -- a text in quotes, for a message

In a message a text stands in quotes, and what would not show is escaped: the
quote and the backslash by a backslash, the usual control characters by a letter
or digit, and every other character that does not show on its own by its number.
-/
import TokenLayout.Text.Printing

namespace TokenLayout.Text

set_option autoImplicit false

/-- A number in hexadecimal. -/
def hexadecimal (n : Nat) : String :=
  String.ofList (Nat.toDigits 16 n)

/-- A character within quotes. -/
def quotedChar (c : Char) : String :=
  if c = '"' then "\\\""
  else if c = '\\' then "\\\\"
  else if c = '\x00' then "\\0"
  else if c = '\t' then "\\t"
  else if c = '\n' then "\\n"
  else if c = '\r' then "\\r"
  else if isPrinting c then c.toString
  else "\\u\x7b" ++ hexadecimal c.toNat ++ "\x7d"

/-- A text in quotes. -/
def quoted (s : String) : String :=
  "\"" ++ String.join (s.toList.map quotedChar) ++ "\""

end TokenLayout.Text
