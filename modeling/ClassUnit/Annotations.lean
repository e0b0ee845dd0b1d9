import ClassUnit.Run

/-! # Annotations

A visitor of an annotation takes its elements and then the end. Whoever visits several things at
once can hand out one visitor for all of them, and a node keeps what it is sent. -/

namespace ClassUnit

/-- The value that an annotation gives to an element. It is carried as it is. -/
inductive ElementValue
  | bool (b : Bool)
  | char (c : Char)
  | int (n : Int64)
  | float (x : Float)
  | string (s : String)
  /-- A class literal, as a field descriptor. -/
  | classLiteral (descriptor : String)
  | enumConstant (descriptor value : String)
  | array (items : List ElementValue)
  deriving Inhabited

/-- An element value and the name of its element; values inside an array have none. -/
structure Element where
  name : Option String
  value : ElementValue

/-! ## Visitors -/

structure AnnotationVisitor (σ : Type) where
  visit : Element → Visit σ Unit
  finish : Visit σ Unit

namespace AnnotationVisitor

/-- Accepts everything and does nothing. -/
def silent : AnnotationVisitor σ where
  visit _ := pure ()
  finish := pure ()

/-- Acts on a part of the state. -/
def on (part : Part τ σ) (v : AnnotationVisitor σ) : AnnotationVisitor τ where
  visit e := (v.visit e).on part
  finish := v.finish.on part

/-- Passes each call to every target in order, up to the first that refuses it. -/
def fanOut (targets : List (AnnotationVisitor σ)) : AnnotationVisitor σ where
  visit e := targets.forM (·.visit e)
  finish := targets.forM (·.finish)

/-- One visitor for all targets; for a single target that is the target itself. -/
def collapse : List (AnnotationVisitor σ) → Option (AnnotationVisitor σ)
  | [] => none
  | [target] => some target
  | targets => some (fanOut targets)

end AnnotationVisitor

/-! ## Recorded annotations -/

/-- An annotation kept in memory, with its elements in the order of the visit. -/
structure AnnotationNode where
  /-- The descriptor of the annotation's class. -/
  descriptor : String
  /-- The annotation can be seen at run time. -/
  visible : Bool
  elements : List Element := []
  finished : Bool := false

instance : Inhabited AnnotationNode := ⟨{ descriptor := "", visible := false }⟩

namespace AnnotationNode

/-- Records what it is sent. -/
def recorder : AnnotationVisitor AnnotationNode where
  visit e := modify fun n => { n with elements := n.elements ++ [e] }
  finish := modify fun n => { n with finished := true }

/-- Sends the elements, and then the end. -/
def replay (n : AnnotationNode) (v : AnnotationVisitor σ) : Visit σ Unit := do
  n.elements.forM v.visit
  v.finish

end AnnotationNode

end ClassUnit
