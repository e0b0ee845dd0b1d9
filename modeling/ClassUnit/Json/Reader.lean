import ClassUnit.Json.Value

/-! # Reading JSON

A text is read in one pass, with the open arrays and objects on a stack. It is one value with
blanks around its tokens and nothing else, and its strings hold no raw control characters.

Some values have the form that is asked for and cannot be taken in all the same: a number that is
too great, a string with half a surrogate pair, an object with such a key, and an array or object
inside `maxNesting` others. The reader goes on behind them and puts `Value.unread` in their place;
who decodes the text says whether they matter. -/

namespace ClassUnit.Json

namespace Reader

def maxNesting : Nat := 127

/-- The members of an object so far, newest first; none once it has a key that cannot be taken
in. -/
abbrev Members := Option (List (String × Value))

/-- An open array or object; what it holds so far is kept newest first. -/
inductive Frame
  | array (items : List Value)
  | object (members : Members) (key : String)

/-- What a string under way is for: a value, or the next key of an object. -/
inductive Use
  | value
  | key (members : Members)

/-- Where a string under way stands: between escapes, after a backslash, within the digits of a
code unit, or after the first half of a surrogate pair. -/
inductive Escape
  | none
  | begun (high : Option Nat)
  | digits (count unit : Nat) (high : Option Nat)
  | half (high : Nat)

/-- Where a reader stands. Characters under way are kept in reverse; a string has none once half
a surrogate pair stands in it. -/
inductive State
  | value
  | itemOrEnd
  | keyOrEnd
  | key (members : Members)
  | colon (members : Members) (key : String)
  | text (use : Use) (read : Option (List Char)) (escape : Escape)
  | word (read : List Char)
  | rest (v : Value)

def isBlank (c : Char) : Bool := c = ' ' || c = '\t' || c = '\n' || c = '\r'

/-! ## Numbers -/

/-- Splits off the digits in front. -/
def digits (cs : List Char) : List Char × List Char := cs.span Char.isDigit

def digit (c : Char) : Nat := c.toNat - '0'.toNat

def decimal (cs : List Char) : Nat := cs.foldl (fun n c => 10 * n + digit c) 0

/-- What no unsigned word of 64 bits reaches. -/
def wordLimit : Nat := 0x10000000000000000

/-- The magnitude of the least signed word of 64 bits. -/
def signedLimit : Nat := 0x8000000000000000

/-- Appends digits to a significand as long as it fits into 64 bits; also how many were left out. -/
def gather (significand : Nat) : List Char → Nat × Nat
  | [] => (significand, 0)
  | c :: rest =>
    let next := 10 * significand + digit c
    if next < wordLimit then gather next rest else (significand, rest.length + 1)

def powerOfTen (n : Nat) : Float := OfScientific.ofScientific 1 false n

/-- The greatest power of ten that is a double. -/
def maxPower : Nat := 308

/-- The number `significand * 10 ^ exponent`, unless it is too great. The significand is rounded
before it is scaled, and each scaling rounds again. -/
def scaled? (significand : Nat) (exponent : Int) : Option Float :=
  let x : Float := OfScientific.ofScientific significand false 0
  let power := exponent.natAbs
  if significand = 0 then some 0
  else if 0 ≤ exponent then
    if maxPower < power then none
    else
      let y := x * powerOfTen power
      if y.isInf then none else some y
  else if power ≤ maxPower then some (x / powerOfTen power)
  else if power ≤ 2 * maxPower then
    some (x / powerOfTen maxPower / powerOfTen (power - maxPower))
  else some 0

/-- A number with the given digits before and after the point. -/
def float (negative : Bool) (front back : List Char) (exponent : Int) : Value :=
  let (significand, leftBefore) := gather 0 front
  let (significand, leftAfter) := gather significand back
  match scaled? significand (exponent + leftBefore + leftAfter - back.length) with
  | some x => .float (if negative then -x else x)
  | none => .unread

/-- A number of 64 bits stays an integer; zero with a sign does not, since it is not zero. -/
def whole (negative : Bool) (front : List Char) : Value :=
  let n := decimal front
  if negative then
    if n = 0 ∨ signedLimit < n then float negative front [] 0 else .integer (-n)
  else if wordLimit ≤ n then float negative front [] 0
  else .integer n

/-- Reads the exponent of a number, after its fraction. -/
def exponent? : List Char → Option Int
  | [] => some 0
  | e :: rest =>
    if e = 'e' ∨ e = 'E' then
      let (negative, rest) :=
        match rest with
        | '-' :: rest => (true, rest)
        | '+' :: rest => (false, rest)
        | rest => (false, rest)
      match digits rest with
      | ([], _) => none
      | (ds, []) => some (if negative then -decimal ds else decimal ds)
      | (_, _ :: _) => none
    else none

/-- Reads the fraction of a number: its digits and what follows them. -/
def fraction? : List Char → Option (List Char × List Char)
  | '.' :: rest =>
    match digits rest with
    | ([], _) => none
    | (ds, rest) => some (ds, rest)
  | rest => some ([], rest)

def number? (word : List Char) : Option Value := do
  let (negative, word) :=
    match word with
    | '-' :: word => (true, word)
    | word => (false, word)
  let (front, word) := digits word
  if front.isEmpty then none
  else if front.head? = some '0' ∧ 1 < front.length then none
  else if word.isEmpty then return whole negative front
  else
    let (back, word) ← fraction? word
    let exponent ← exponent? word
    return float negative front back exponent

def isWordChar (c : Char) : Bool := c.isAlphanum || c = '-' || c = '+' || c = '.'

def word? (word : List Char) : Option Value :=
  if word = ['n', 'u', 'l', 'l'] then some .null
  else if word = ['t', 'r', 'u', 'e'] then some (.bool true)
  else if word = ['f', 'a', 'l', 's', 'e'] then some (.bool false)
  else number? word

/-! ## Strings -/

def simpleEscape? (c : Char) : Option Char :=
  if c = '"' ∨ c = '\\' ∨ c = '/' then some c
  else if c = 'b' then some '\x08'
  else if c = 'f' then some '\x0c'
  else if c = 'n' then some '\n'
  else if c = 'r' then some '\r'
  else if c = 't' then some '\t'
  else none

def hexDigit? (c : Char) : Option Nat :=
  if c.isDigit then some (c.toNat - '0'.toNat)
  else if 'a' ≤ c ∧ c ≤ 'f' then some (c.toNat - 'a'.toNat + 10)
  else if 'A' ≤ c ∧ c ≤ 'F' then some (c.toNat - 'A'.toNat + 10)
  else none

def isHigh (unit : Nat) : Bool := 0xd800 ≤ unit && unit < 0xdc00

def isLow (unit : Nat) : Bool := 0xdc00 ≤ unit && unit < 0xe000

/-- Adds a complete code unit to a string, which half a surrogate pair breaks. -/
def addUnit (read : Option (List Char)) (unit : Nat) : Option Nat → Option (List Char) × Escape
  | some high =>
    if isLow unit then
      (read.map (Char.ofNat (0x10000 + (high - 0xd800) * 0x400 + (unit - 0xdc00)) :: ·), .none)
    else (none, .none)
  | none =>
    if isHigh unit then (read, .half unit)
    else if isLow unit then (none, .none)
    else (read.map (Char.ofNat unit :: ·), .none)

/-- Reads one character of a string other than its closing quote. The first half of a pair that no
other escape follows breaks the string. -/
def readChar (read : Option (List Char)) (c : Char) :
    Escape → Option (Option (List Char) × Escape)
  | .none => plain read
  | .begun high =>
    if c = 'u' then some (read, .digits 0 0 high)
    else (simpleEscape? c).map fun d => (if high.isSome then none else read.map (d :: ·), .none)
  | .digits count unit high => do
    let unit := 16 * unit + (← hexDigit? c)
    return if count = 3 then addUnit read unit high else (read, .digits (count + 1) unit high)
  | .half high => if c = '\\' then some (read, .begun (some high)) else plain none
where
  plain (read : Option (List Char)) : Option (Option (List Char) × Escape) :=
    if c = '\\' then some (read, .begun none)
    else if c.toNat < 0x20 then none
    else some (read.map (c :: ·), .none)

/-- A string that is complete where a quote stands, if it is. -/
def closed? (read : Option (List Char)) : Escape → Option (Option String)
  | .none => some (read.map fun cs => String.ofList cs.reverse)
  | .half _ => some none
  | _ => none

/-- What a complete string is to its reader. -/
def Use.take : Use → Option String → State
  | .value, some s => .rest (.string s)
  | .value, none => .rest .unread
  | .key members, some s => .colon members s
  | .key _, none => .colon none ""

/-! ## Values -/

/-- A complete array or object, unless too many are open around it. -/
def nested (v : Value) (stack : List Frame) : Value :=
  if stack.length < maxNesting then v else .unread

/-- A complete object with the given members. -/
def object (members : Members) : Value := members.elim .unread fun ms => .object ms.reverse

/-- Closes the innermost array or object. -/
def close (v : Value) (c : Char) : List Frame → Option (State × List Frame)
  | .array items :: stack =>
    if c = ']' then some (.rest (nested (.array (v :: items).reverse) stack), stack) else none
  | .object members key :: stack =>
    if c = '}' then some (.rest (nested (object (members.map ((key, v) :: ·))) stack), stack)
    else none
  | [] => none

/-- Reads a character after a complete value. -/
def afterValue (v : Value) (c : Char) (stack : List Frame) : Option (State × List Frame) :=
  if isBlank c then some (.rest v, stack)
  else if c = ',' then
    match stack with
    | .array items :: stack => some (.value, .array (v :: items) :: stack)
    | .object members key :: stack => some (.key (members.map ((key, v) :: ·)), stack)
    | [] => none
  else close v c stack

/-- Reads the first character of a value. -/
def beginValue (c : Char) (stack : List Frame) : Option (State × List Frame) :=
  if c = '[' then some (.itemOrEnd, .array [] :: stack)
  else if c = '{' then some (.keyOrEnd, stack)
  else if c = '"' then some (.text .value (some []) .none, stack)
  else if isWordChar c then some (.word [c], stack)
  else none

def State.step (c : Char) (stack : List Frame) : State → Option (State × List Frame)
  | .value => if isBlank c then some (.value, stack) else beginValue c stack
  | .itemOrEnd =>
    if isBlank c then some (.itemOrEnd, stack)
    else if c = ']' then
      match stack with
      | .array items :: stack => some (.rest (nested (.array items.reverse) stack), stack)
      | _ => none
    else beginValue c stack
  | .keyOrEnd =>
    if isBlank c then some (.keyOrEnd, stack)
    else if c = '}' then some (.rest (nested (.object []) stack), stack)
    else if c = '"' then some (.text (.key (some [])) (some []) .none, stack)
    else none
  | .key members =>
    if isBlank c then some (.key members, stack)
    else if c = '"' then some (.text (.key members) (some []) .none, stack)
    else none
  | .colon members name =>
    if isBlank c then some (.colon members name, stack)
    else if c = ':' then some (.value, .object members name :: stack)
    else none
  | .text use read escape =>
    match if c = '"' then closed? read escape else none with
    | some s => some (use.take s, stack)
    | none =>
      (readChar read c escape).map fun (read, escape) => (.text use read escape, stack)
  | .word read =>
    if isWordChar c then some (.word (c :: read), stack)
    else do afterValue (← word? read.reverse) c stack
  | .rest v => afterValue v c stack

/-- The value of a text that ends here. -/
def State.finish (stack : List Frame) (state : State) : Option Value :=
  if !stack.isEmpty then none
  else
    match state with
    | .rest v => some v
    | .word read => word? read.reverse
    | _ => none

def run (state : State) (stack : List Frame) : List Char → Option Value
  | [] => state.finish stack
  | c :: rest =>
    match state.step c stack with
    | some (state, stack) => run state stack rest
    | none => none

end Reader

/-- The value of a JSON text. -/
def read (text : String) : Option Value := Reader.run .value [] text.toList

end ClassUnit.Json
