import ClassUnit.Text.Quoted

/-! # Showing values

A value is shown as a tree of named records, tuples and lists, in one line or with one field or
item a line, indented by four spaces for each level. -/

namespace ClassUnit.Text

inductive Shown
  /-- Anything that is shown as it is. -/
  | atom (text : String)
  /-- Named fields; two dots stand for those that a partial record leaves out. -/
  | record (name : String) (fields : List (String × Shown)) (whole : Bool)
  | tuple (name : String) (items : List Shown)
  | list (items : List Shown)

namespace Shown

def string (s : String) : Shown := .atom (quote s)

def char (c : Char) : Shown := .atom (quoteChar c)

def bool (b : Bool) : Shown := .atom (toString b)

def nat (n : Nat) : Shown := .atom (toString n)

def option (encode : α → Shown) : Option α → Shown
  | none => .atom "None"
  | some a => .tuple "Some" [encode a]

mutual

def compact : Shown → String
  | .atom text => text
  | .record name [] true => name
  | .record name [] false => name ++ " \x7b .. \x7d"
  | .record name ((field, v) :: rest) whole =>
    name ++ " \x7b " ++ field ++ ": " ++ v.compact ++ compactFields rest ++
      (if whole then " \x7d" else ", .. \x7d")
  | .tuple name items => name ++ "(" ++ compactItems items ++ ")"
  | .list items => "[" ++ compactItems items ++ "]"

def compactItems : List Shown → String
  | [] => ""
  | [v] => v.compact
  | v :: vs => v.compact ++ ", " ++ compactItems vs

def compactFields : List (String × Shown) → String
  | [] => ""
  | (field, v) :: rest => ", " ++ field ++ ": " ++ v.compact ++ compactFields rest

end

/-- A new line at the given level. -/
def line (level : Nat) : String := String.ofList ('\n' :: List.replicate (4 * level) ' ')

mutual

def pretty (level : Nat) : Shown → String
  | .atom text => text
  | .record name [] true => name
  | .record name [] false => name ++ " \x7b .. \x7d"
  | .record name fields whole =>
    name ++ " \x7b" ++ prettyFields (level + 1) fields ++
      (if whole then "" else line (level + 1) ++ "..") ++ line level ++ "\x7d"
  | .tuple name items => name ++ "(" ++ prettyItems (level + 1) items ++ line level ++ ")"
  | .list [] => "[]"
  | .list items => "[" ++ prettyItems (level + 1) items ++ line level ++ "]"

def prettyItems (level : Nat) : List Shown → String
  | [] => ""
  | v :: vs => line level ++ v.pretty level ++ "," ++ prettyItems level vs

def prettyFields (level : Nat) : List (String × Shown) → String
  | [] => ""
  | (field, v) :: rest =>
    line level ++ field ++ ": " ++ v.pretty level ++ "," ++ prettyFields level rest

end

end Shown

end ClassUnit.Text
