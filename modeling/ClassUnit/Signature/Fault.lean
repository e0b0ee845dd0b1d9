import ClassUnit.Signature.Kind
import ClassUnit.Text.Quoted

/-! # Faults in signature texts -/

namespace ClassUnit.Signature

/-- Why a text is not the signature that was asked for. -/
inductive Reason
  | unexpectedEnd
  | missing (delimiter : Char)
  | emptyName
  | unexpectedCharacter (c : Char)
  | nestingTooDeep
  | tooManyDimensions
  | emptyArguments
  | openArguments
  | unmarkedException
  | trailingCharacters
  | unknownKind (name : String)
  | otherKind (expected found : Kind)
  | genericDescriptor
  | variableInDescriptor
  | argumentsInDescriptor
  | innerClassInDescriptor
  deriving DecidableEq

def Reason.message : Reason → String
  | .unexpectedEnd => "unexpected end of signature"
  | .missing delimiter => "missing '" ++ delimiter.toString ++ "'"
  | .emptyName => "empty name"
  | .unexpectedCharacter c => "unexpected character " ++ Text.quoteChar c
  | .nestingTooDeep => "nesting too deep"
  | .tooManyDimensions => "too many array dimensions"
  | .emptyArguments => "empty type argument list"
  | .openArguments => "expected '.' or ';' after type arguments"
  | .unmarkedException => "expected '^' before exception type"
  | .trailingCharacters => "trailing characters after type signature"
  | .unknownKind name => "unknown signature kind: " ++ name
  | .otherKind expected found =>
    "expected a " ++ expected.name ++ " signature, found a " ++ found.name ++ " signature"
  | .genericDescriptor => "generic signatures are not method descriptors"
  | .variableInDescriptor => "type variables are not allowed in descriptors"
  | .argumentsInDescriptor => "type arguments are not allowed in descriptors"
  | .innerClassInDescriptor => "inner classes are separated by '$' in descriptors"

/-- A reason and the place it applies to, counted in UTF-8 bytes from the start of the text. -/
structure Fault where
  offset : Nat
  reason : Reason
  deriving DecidableEq

def Fault.message (f : Fault) : String :=
  "Invalid signature at offset " ++ toString f.offset ++ ": " ++ f.reason.message

end ClassUnit.Signature
