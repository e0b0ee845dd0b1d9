import ClassUnit.Error

/-! # Type paths

A type path leads from a type to the part of it that an annotation stands on. Its text has one
item for each step: `[` into an array, `.` into an inner class, `*` into the bound of a wildcard,
and `N;` into type argument `N`. -/

namespace ClassUnit

inductive TypePath.Step
  | arrayElement
  | innerType
  | wildcardBound
  | typeArgument (index : UInt8)
  deriving DecidableEq

structure TypePath where
  steps : List TypePath.Step
  deriving DecidableEq

namespace TypePath

def Step.text : Step → String
  | .arrayElement => "["
  | .innerType => "."
  | .wildcardBound => "*"
  | .typeArgument index => toString index.toNat ++ ";"

def text (p : TypePath) : String := String.join (p.steps.map Step.text)

/-- Reads the steps of a path. While an index is being read, `index` holds its value so far. -/
def readSteps (index : Option Nat) : List Char → Option (List Step)
  | [] => if index.isSome then none else some []
  | c :: rest =>
    if c.isDigit then readSteps (some (10 * index.getD 0 + (c.toNat - '0'.toNat))) rest
    else
      match index with
      | some n =>
        if c = ';' ∧ n < 256 then
          (readSteps none rest).map (.typeArgument n.toUInt8 :: ·)
        else none
      | none =>
        if c = '[' then (readSteps none rest).map (.arrayElement :: ·)
        else if c = '.' then (readSteps none rest).map (.innerType :: ·)
        else if c = '*' then (readSteps none rest).map (.wildcardBound :: ·)
        else none

def parse (text : String) : Except Error TypePath :=
  match readSteps none text.toList with
  | some steps => .ok ⟨steps⟩
  | none => .error (.invalidTypePath text)

end TypePath

end ClassUnit
