import ClassUnit.Level
import ClassUnit.Signature.Fault
import ClassUnit.Signature.Variance

/-! # Errors

What visitors, readers and generators report: each error is its cause, and `Error.message` is the
one place that words it. -/

namespace ClassUnit

/-- The calls that a field visitor takes. -/
inductive FieldCall
  | annotate
  | annotateType
  | attach
  | finish
  deriving DecidableEq

def FieldCall.name : FieldCall → String
  | .annotate => "visit_annotation"
  | .annotateType => "visit_type_annotation"
  | .attach => "visit_attribute"
  | .finish => "visit_end"

/-- How a sequence of calls can break the order that its visitor expects. -/
inductive Breach
  | openType
  | noSuperclass
  | noResult
  | looseFormals
  | emptySignature
  | mixedShapes
  | looseArgument
  | bareTypeInClass
  | looseType
  | secondClassBound
  | looseClassBound
  | looseInterfaceBound
  | secondSuperclass
  | secondResult
  | looseInnerClass
  | looseClose
  | afterFinish (call : FieldCall)
  | secondHeader
  | refused (reason : String)
  deriving DecidableEq

def Breach.message : Breach → String
  | .openType => "signature ended with an unterminated type"
  | .noSuperclass => "class signature without superclass"
  | .noResult => "method signature without return type"
  | .looseFormals => "formal type parameters without a class or method signature"
  | .emptySignature => "empty signature"
  | .mixedShapes => "class and method productions mixed in one signature"
  | .looseArgument => "type argument outside of a class type"
  | .bareTypeInClass => "type inside a class type must be a type argument"
  | .looseType => "type signature outside of any slot"
  | .secondClassBound => "formal type parameter with two class bounds"
  | .looseClassBound => "class bound without a formal type parameter"
  | .looseInterfaceBound => "interface bound without a formal type parameter"
  | .secondSuperclass => "class signature with two superclasses"
  | .secondResult => "method signature with two return types"
  | .looseInnerClass => "inner class type outside of a class type"
  | .looseClose => "visit_end without an open class type"
  | .afterFinish call => call.name ++ " called after visit_end"
  | .secondHeader => "visit_header called twice"
  | .refused reason => reason

inductive Error
  | unsupportedLevel (raw : Nat)
  | unknownLevelName (name : String)
  | unsupportedFeature (feature : String) (required : Level)
  | invalidTag (tag : Char)
  | invalidSignature (fault : Signature.Fault)
  | invalidTypePath (text : String)
  | visitOrder (breach : Breach)
  deriving DecidableEq

def Error.message : Error → String
  | .unsupportedLevel raw => "Unsupported api 0x" ++ Text.hex raw
  | .unknownLevelName name => "Unknown api version: " ++ name
  | .unsupportedFeature feature required =>
    "This feature requires " ++ required.name ++ ": " ++ feature
  | .invalidTag tag => "Invalid wildcard tag: " ++ Text.quoteChar tag
  | .invalidSignature fault => fault.message
  | .invalidTypePath text => "Invalid type path: " ++ text
  | .visitOrder breach => "Visit order violated: " ++ breach.message

namespace Level

def ofRaw (raw : Nat) : Except Error Level :=
  match ofRaw? raw with
  | some level => .ok level
  | none => .error (.unsupportedLevel raw)

def ofName (text : String) : Except Error Level :=
  match ofName? text with
  | some level => .ok level
  | none => .error (.unknownLevelName text)

/-- Refuses a feature that came after this level. -/
def require (level needed : Level) (feature : String) : Except Error Unit :=
  if level < needed then .error (.unsupportedFeature feature needed) else .ok ()

end Level

namespace Signature

def Kind.ofName (text : String) : Except Error Kind :=
  match ofName? text with
  | some kind => .ok kind
  | none => .error (.invalidSignature ⟨0, .unknownKind text⟩)

def Variance.ofTag (c : Char) : Except Error Variance :=
  match ofTag? c with
  | some variance => .ok variance
  | none => .error (.invalidTag c)

end Signature

end ClassUnit
