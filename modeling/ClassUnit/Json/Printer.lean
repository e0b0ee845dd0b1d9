import ClassUnit.Decimal.Shortest
import ClassUnit.Json.Value
import ClassUnit.Text.Quoted

/-! # Printing JSON

Text in two layouts: without any blanks, and with one member or item a line, indented by two
spaces for each level. -/

namespace ClassUnit.Json

/-- Quotes, backslashes and control characters are escaped, those with a short form in it. -/
def escape (c : Char) : List Char :=
  if c = '"' then ['\\', '"']
  else if c = '\\' then ['\\', '\\']
  else if c = '\x08' then ['\\', 'b']
  else if c = '\x0c' then ['\\', 'f']
  else if c = '\n' then ['\\', 'n']
  else if c = '\r' then ['\\', 'r']
  else if c = '\t' then ['\\', 't']
  else if c.toNat < 0x20 then
    ['\\', 'u', '0', '0', Nat.digitChar (c.toNat / 16), Nat.digitChar (c.toNat % 16)]
  else [c]

def quote (s : String) : String := String.ofList ('"' :: s.toList.flatMap escape ++ ['"'])

/-- The text of a value that holds no other. -/
def Value.scalar : Value → String
  | .bool true => "true"
  | .bool false => "false"
  | .integer n => toString n
  | .float x => Decimal.text x
  | .string s => quote s
  | _ => "null"

mutual

def Value.compact : Value → String
  | .array [] => "[]"
  | .array (v :: vs) => "[" ++ v.compact ++ compactItems vs ++ "]"
  | .object [] => "\x7b\x7d"
  | .object ((k, v) :: ms) => "\x7b" ++ quote k ++ ":" ++ v.compact ++ compactMembers ms ++ "\x7d"
  | v => v.scalar

def compactItems : List Value → String
  | [] => ""
  | v :: vs => "," ++ v.compact ++ compactItems vs

def compactMembers : List (String × Value) → String
  | [] => ""
  | (k, v) :: ms => "," ++ quote k ++ ":" ++ v.compact ++ compactMembers ms

end

/-- The start of a line at the given level. -/
def newline (level : Nat) : String := String.ofList ('\n' :: List.replicate (2 * level) ' ')

mutual

def Value.pretty (level : Nat) : Value → String
  | .array [] => "[]"
  | .array (v :: vs) =>
    "[" ++ newline (level + 1) ++ v.pretty (level + 1) ++ prettyItems (level + 1) vs ++
      newline level ++ "]"
  | .object [] => "\x7b\x7d"
  | .object ((k, v) :: ms) =>
    "\x7b" ++ newline (level + 1) ++ quote k ++ ": " ++ v.pretty (level + 1) ++
      prettyMembers (level + 1) ms ++ newline level ++ "\x7d"
  | v => v.scalar

def prettyItems (level : Nat) : List Value → String
  | [] => ""
  | v :: vs => "," ++ newline level ++ v.pretty level ++ prettyItems level vs

def prettyMembers (level : Nat) : List (String × Value) → String
  | [] => ""
  | (k, v) :: ms =>
    "," ++ newline level ++ quote k ++ ": " ++ v.pretty level ++ prettyMembers level ms

end

end ClassUnit.Json
