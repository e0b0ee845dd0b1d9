import ClassUnit.Field.Node

/-! # Class visitors

A visitor of one class takes the header, then fields and methods in any order, and then the end.
Method bodies are not visited. -/

namespace ClassUnit

/-- How a class is declared. -/
structure ClassHeader where
  access : UInt32
  name : String
  superName : Option String
  signature : Option String
  deriving DecidableEq

/-- How a method is declared. -/
structure MethodHeader where
  access : UInt32
  name : String
  descriptor : String
  deriving DecidableEq

/-- A visitor that acts on a state `σ`. It answers a field with a visitor for its contents, or
with none if they are of no interest. -/
structure ClassVisitor (σ : Type) where
  level : Level
  header (h : ClassHeader) : Visit σ Unit
  field (h : FieldHeader) : Visit σ (Option (FieldVisitor σ))
  method (h : MethodHeader) : Visit σ Unit
  finish : Visit σ Unit

/-- Acts on a part of the state. -/
def ClassVisitor.on (part : Part τ σ) (v : ClassVisitor σ) : ClassVisitor τ where
  level := v.level
  header h := (v.header h).on part
  field h := Option.map (·.on part) <$> (v.field h).on part
  method h := (v.method h).on part
  finish := v.finish.on part

/-- A link of a chain: it passes every call on to the next visitor, and accepts it where the chain
ends. -/
structure ClassLink (σ : Type) where
  level : Level
  next : Option (ClassVisitor σ)

def ClassLink.visitor (l : ClassLink σ) : ClassVisitor σ where
  level := l.level
  header h :=
    match l.next with
    | some v => v.header h
    | none => pure ()
  field h :=
    match l.next with
    | some v => v.field h
    | none => pure none
  method h :=
    match l.next with
    | some v => v.method h
    | none => pure ()
  finish :=
    match l.next with
    | some v => v.finish
    | none => pure ()

end ClassUnit
