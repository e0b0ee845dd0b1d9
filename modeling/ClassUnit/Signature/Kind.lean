/-! # Signature kinds

A signature describes a class, a method, or a bare type as used for fields and locals. -/

namespace ClassUnit.Signature

inductive Kind
  | ofClass
  | ofMethod
  | ofType
  deriving DecidableEq

namespace Kind

def all : List Kind := [.ofClass, .ofMethod, .ofType]

def name : Kind → String
  | .ofClass => "class"
  | .ofMethod => "method"
  | .ofType => "type"

def ofName? (text : String) : Option Kind := all.find? (·.name == text)

/-- The kind that a text looks like: parameters make a method, formal type parameters without
them a class, and anything else is a bare type. -/
def infer (text : String) : Kind :=
  if text.toList.contains '(' then .ofMethod
  else if text.toList.head? = some '<' then .ofClass
  else .ofType

end Kind

end ClassUnit.Signature
