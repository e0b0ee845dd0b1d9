import ClassUnit.Run
import ClassUnit.Signature.Reader

/-! # Scanning signature texts byte by byte

A scanner reads a signature text without decoding it. It keeps an offset into the bytes of the text,
looks at one byte at a time, searches for the delimiter behind a name, and cuts the name out between
two offsets. Each production is a function from the offset at which it begins to an offset behind
it, so that the scan of a type calls itself for the types inside.

A text that ends too early is at fault. An offset that the scanner itself has got wrong is another
matter: what it asks for then lies outside of the text or cuts a character in two, and it halts as
`Halt.stray`. -/

namespace ClassUnit.Signature
open Reader

namespace Scanner

/-- Why a scanner does not come to its end. -/
inductive Halt
  | refused (e : Error)
  | stray
  deriving DecidableEq

/-- A part of a scan. What it delivers is added to the deliveries so far. -/
abbrev Scan := Run Halt (List Delivery)

def refuse (offset : Nat) (reason : Reason) : Scan α :=
  throw (.refused (.invalidSignature ⟨offset, reason⟩))

def tell (level : Nat) (event : Event) : Scan Unit := modify (· ++ [⟨level, event⟩])

/-- The UTF-8 encoding of a text. -/
def bytes (text : String) : List UInt8 := text.toByteArray.data.toList

/-- An offset behind `start`. -/
abbrev Past (start : Nat) := {stop : Nat // start < stop}

section

variable (text : String)

/-! ## Bytes, characters and names -/

/-- The byte at an offset, as the character of that number, with the fact that there is one. -/
def byteAt (offset : Nat) : Scan {_c : Char // offset < (bytes text).length} :=
  if h : offset < (bytes text).length then pure ⟨.ofUInt8 (bytes text)[offset], h⟩
  else refuse offset .unexpectedEnd

/-- The character at an offset, or a substitute where none begins. -/
def charAt (offset : Nat) : Char :=
  if h : String.Pos.Raw.IsValid text ⟨offset⟩ then (text.pos ⟨offset⟩ h).get?.getD '\uFFFD'
  else '\uFFFD'

/-- The offset of the first `needle` from `start` on. -/
def find (start : Nat) (needle : Char) :
    Scan {stop : Nat // start ≤ stop ∧ stop < (bytes text).length} :=
  if (bytes text).length < start then throw .stray
  else
    match h : ((bytes text).drop start).findIdx? (Char.ofUInt8 · == needle) with
    | some i => pure ⟨start + i, by
        have hi := (List.findIdx?_eq_some_iff_findIdx_eq.1 h).1
        rw [List.length_drop] at hi
        omega⟩
    | none => refuse start (.missing needle)

/-- The text between two offsets. -/
def name (start stop : Nat) : Scan String :=
  if stop ≤ start then refuse start .emptyName
  else if h : String.Pos.Raw.IsValid text ⟨start⟩ ∧ String.Pos.Raw.IsValid text ⟨stop⟩ then
    pure (text.extract (text.pos ⟨start⟩ h.1) (text.pos ⟨stop⟩ h.2))
  else throw .stray

/-- The name that begins at `start` and ends at a delimiter, with the offset behind that. -/
def delimited (start : Nat) (delimiter : Char) : Scan (String × Past start) := do
  let ⟨stop, _⟩ ← find text start delimiter
  let inside ← name text start stop
  return (inside, ⟨stop + 1, by omega⟩)

/-- Delivers the name of a segment. -/
def announce (place : Place) (inner : Bool) (start stop : Nat) : Scan Unit := do
  let segment ← name text start stop
  tell place.level (if inner then .innerClass segment else .classType segment)

/-! ## Types -/

mutual

/-- The type that begins at `start`. -/
def type (place : Place) (start : Nat) : Scan (Past start) :=
  if maxNesting < place.depth then refuse start .nestingTooDeep
  else do
    let ⟨c, _⟩ ← byteAt text start
    if isBaseCode c then
      tell place.level (.base c)
      return ⟨start + 1, by omega⟩
    else if c = '[' then
      tell place.level .array
      array ⟨place.level + 1, place.depth⟩ 1 start
    else if c = 'T' then
      let (variableName, ⟨stop, _⟩) ← delimited text (start + 1) ';'
      tell place.level (.typeVariable variableName)
      return ⟨stop, by omega⟩
    else if c = 'L' then
      let ⟨stop, _⟩ ← segments place false false (start + 1) (start + 1)
      return ⟨stop, by omega⟩
    else refuse start (.unexpectedCharacter (charAt text start))
termination_by 4 * ((bytes text).length - start) + 1

/-- The elements of the array whose last bracket so far is at `bracket`. The place has the level of
the elements, but the depth of the array. -/
def array (place : Place) (dimensions bracket : Nat) : Scan (Past bracket) :=
  if maxDimensions < dimensions then refuse bracket .tooManyDimensions
  else do
    let ⟨c, _⟩ ← byteAt text (bracket + 1)
    if c = '[' then
      tell place.level .array
      let ⟨stop, _⟩ ← array place.inside (dimensions + 1) (bracket + 1)
      return ⟨stop, by omega⟩
    else
      let ⟨stop, _⟩ ← type ⟨place.level, place.depth + 1⟩ (bracket + 1)
      return ⟨stop, by omega⟩
termination_by 4 * ((bytes text).length - bracket)

/-- A class type from `offset` on, inside of the segment whose name begins at `nameStart`; `visited`
tells whether that name has been delivered. -/
def segments (place : Place) (inner visited : Bool) (nameStart offset : Nat) :
    Scan (Past offset) := do
  let ⟨c, _⟩ ← byteAt text offset
  if c = '.' then
    unless visited do announce text place inner nameStart offset
    let ⟨stop, _⟩ ← segments place true false (offset + 1) (offset + 1)
    return ⟨stop, by omega⟩
  else if c = ';' then
    unless visited do announce text place inner nameStart offset
    tell place.level .close
    return ⟨offset + 1, by omega⟩
  else if c = '<' then
    announce text place inner nameStart offset
    let ⟨next, _⟩ ← arguments place (offset + 1)
    let ⟨d, _⟩ ← byteAt text next
    if d = '.' ∨ d = ';' then
      let ⟨stop, _⟩ ← segments place inner true nameStart next
      return ⟨stop, by omega⟩
    else refuse next .openArguments
  else
    let ⟨stop, _⟩ ← segments place inner visited nameStart (offset + 1)
    return ⟨stop, by omega⟩
termination_by 4 * ((bytes text).length - offset)

/-- The argument list of the class type at `place`, behind its opening bracket. -/
def arguments (place : Place) (start : Nat) : Scan (Past start) := do
  let ⟨c, _⟩ ← byteAt text start
  if c = '>' then refuse start .emptyArguments
  else moreArguments place start
termination_by 4 * ((bytes text).length - start) + 3

/-- What is left of an argument list, with its closing bracket. -/
def moreArguments (place : Place) (start : Nat) : Scan (Past start) := do
  let ⟨c, _⟩ ← byteAt text start
  if c = '>' then return ⟨start + 1, by omega⟩
  else if c = '*' then
    tell place.level .unbounded
    let ⟨stop, _⟩ ← moreArguments place (start + 1)
    return ⟨stop, by omega⟩
  else if c = '=' then
    tell place.level .tagged
    let ⟨next, _⟩ ← type place.inside (start + 1)
    let ⟨stop, _⟩ ← moreArguments place next
    return ⟨stop, by omega⟩
  else if c = '+' ∨ c = '-' then
    let variance ← Run.of ((Variance.ofTag c).mapError .refused)
    tell place.level (.argument variance)
    let ⟨next, _⟩ ← type place.inside (start + 1)
    let ⟨stop, _⟩ ← moreArguments place next
    return ⟨stop, by omega⟩
  else
    tell place.level (.argument .exact)
    let ⟨next, _⟩ ← type place.inside start
    let ⟨stop, _⟩ ← moreArguments place next
    return ⟨stop, by omega⟩
termination_by 4 * ((bytes text).length - start) + 2

end

/-! ## Signatures -/

/-- The class bound, if one begins at `start`. -/
def classBound (start : Nat) : Scan {stop : Nat // start ≤ stop} := do
  let ⟨c, _⟩ ← byteAt text start
  if c = 'L' ∨ c = '[' ∨ c = 'T' then
    tell 0 .classBound
    let ⟨stop, _⟩ ← type text rootPlace start
    return ⟨stop, by omega⟩
  else return ⟨start, Nat.le_refl _⟩

/-- The interface bounds, each behind a colon. -/
def interfaceBounds (start : Nat) : Scan {stop : Nat // start ≤ stop} := do
  let ⟨c, _⟩ ← byteAt text start
  if c = ':' then
    tell 0 .interfaceBound
    let ⟨next, _⟩ ← type text rootPlace (start + 1)
    let ⟨stop, _⟩ ← interfaceBounds next
    return ⟨stop, by omega⟩
  else return ⟨start, Nat.le_refl _⟩
termination_by (bytes text).length - start

/-- The formal type parameters from `start` on, with the bracket behind them. -/
def formals (start : Nat) : Scan Nat := do
  let (formalName, ⟨bound, _⟩) ← delimited text start ':'
  tell 0 (.formal formalName)
  let ⟨bounds, _⟩ ← classBound text bound
  let ⟨stop, _⟩ ← interfaceBounds text bounds
  let ⟨c, _⟩ ← byteAt text stop
  if c = '>' then return stop + 1
  else formals stop
termination_by (bytes text).length - start

/-- The parameters up to the bracket behind them. -/
def parameters (start : Nat) : Scan Nat := do
  let ⟨c, _⟩ ← byteAt text start
  if c = ')' then return start
  else
    tell 0 .parameter
    let ⟨next, _⟩ ← type text rootPlace start
    parameters next
termination_by (bytes text).length - start

def exceptions (start : Nat) : Scan Unit :=
  if start < (bytes text).length then do
    let ⟨c, _⟩ ← byteAt text start
    if c = '^' then
      tell 0 .exception
      let ⟨next, _⟩ ← type text rootPlace (start + 1)
      exceptions next
    else refuse start .unmarkedException
  else pure ()
termination_by (bytes text).length - start

def interfaces (start : Nat) : Scan Unit :=
  if start < (bytes text).length then do
    tell 0 .interface
    let ⟨next, _⟩ ← type text rootPlace start
    interfaces next
  else pure ()
termination_by (bytes text).length - start

/-- What follows the formal type parameters. -/
def body (start : Nat) : Scan Unit := do
  let ⟨c, _⟩ ← byteAt text start
  if c = '(' then
    let stop ← parameters text (start + 1)
    tell 0 .result
    let ⟨next, _⟩ ← type text rootPlace (stop + 1)
    exceptions text next
  else
    tell 0 .superclass
    let ⟨next, _⟩ ← type text rootPlace start
    interfaces text next

def declaration : Scan Unit := do
  let ⟨c, _⟩ ← byteAt text 0
  if c = '<' then
    let stop ← formals text 1
    body text stop
  else body text 0

def bareType : Scan Unit := do
  let ⟨stop, _⟩ ← type text ⟨0, 0⟩ 0
  if stop = (bytes text).length then pure ()
  else refuse stop .trailingCharacters

end

/-- Scans a text as a signature of the given kind. -/
def ofKind (kind : Kind) (text : String) : Scan Unit :=
  match kind with
  | .ofType => bareType text
  | .ofClass | .ofMethod => declaration text

end Scanner

end ClassUnit.Signature
