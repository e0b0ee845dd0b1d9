import ClassUnit.Text.Visible

/-! # Quoted text

Characters and strings as messages show them: in quotes, with the quote, the backslash and every
character that would not be seen written as an escape. -/

namespace ClassUnit.Text

/-- Lower-case hexadecimal digits, without padding. -/
def hex (n : Nat) : String := String.ofList (Nat.toDigits 16 n)

/-- One character of a text that stands between two `quote`s. -/
def escape (quote c : Char) : String :=
  if c = '\x00' then "\\0"
  else if c = '\t' then "\\t"
  else if c = '\n' then "\\n"
  else if c = '\r' then "\\r"
  else if c = quote || c = '\\' then String.ofList ['\\', c]
  else if visible c then c.toString
  else "\\u\x7b" ++ hex c.toNat ++ "\x7d"

/-- A character in single quotes. -/
def quoteChar (c : Char) : String := "'" ++ escape '\'' c ++ "'"

/-- A string in double quotes. -/
def quote (s : String) : String := "\"" ++ String.join (s.toList.map (escape '"')) ++ "\""

end ClassUnit.Text
