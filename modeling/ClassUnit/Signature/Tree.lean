import ClassUnit.Signature.Event
import ClassUnit.Signature.Kind

/-! # Signature trees

The structure that a signature text stands for, and the events that describe it. A tree need not
have a text that reads back: names and codes are arbitrary. -/

namespace ClassUnit.Signature

mutual

inductive TypeTree
  | base (code : Char)
  | typeVariable (name : String)
  | array (element : TypeTree)
  | classType (outer : Segment) (inners : List Segment)

/-- One segment of a class type: the outermost class, or an inner class of the one before it. -/
inductive Segment
  | mk (name : String) (arguments : List Argument)

/-- A type argument; a tagged one is written with the tag of an exact bound. -/
inductive Argument
  | unbounded
  | bounded (variance : Variance) (bound : TypeTree) (tagged : Bool)

end

def Segment.name : Segment → String
  | .mk name _ => name

def Segment.arguments : Segment → List Argument
  | .mk _ arguments => arguments

/-- A formal type parameter and its bounds. -/
structure Formal where
  name : String
  classBound : Option TypeTree := none
  interfaceBounds : List TypeTree := []

structure ClassTree where
  formals : List Formal := []
  superclass : TypeTree
  interfaces : List TypeTree := []

structure MethodTree where
  formals : List Formal := []
  parameters : List TypeTree := []
  result : TypeTree
  exceptions : List TypeTree := []

/-- A signature of any kind. -/
inductive Document
  | ofClass (tree : ClassTree)
  | ofMethod (tree : MethodTree)
  | ofType (tree : TypeTree)

def Document.kind : Document → Kind
  | .ofClass _ => .ofClass
  | .ofMethod _ => .ofMethod
  | .ofType _ => .ofType

/-! ## Events of a tree -/

mutual

def TypeTree.deliveries (level : Nat) : TypeTree → List Delivery
  | .base code => [⟨level, .base code⟩]
  | .typeVariable name => [⟨level, .typeVariable name⟩]
  | .array element => ⟨level, .array⟩ :: element.deliveries (level + 1)
  | .classType outer inners =>
    outer.deliveries level .classType ++ (segmentDeliveries level inners ++ [⟨level, .close⟩])

/-- The events of a segment, where `announce` tells an outermost class from an inner one. -/
def Segment.deliveries (level : Nat) (announce : String → Event) : Segment → List Delivery
  | .mk name arguments => ⟨level, announce name⟩ :: argumentDeliveries level arguments

def Argument.deliveries (level : Nat) : Argument → List Delivery
  | .unbounded => [⟨level, .unbounded⟩]
  | .bounded _ bound true => ⟨level, .tagged⟩ :: bound.deliveries (level + 1)
  | .bounded variance bound false =>
    ⟨level, .argument variance⟩ :: bound.deliveries (level + 1)

def argumentDeliveries (level : Nat) : List Argument → List Delivery
  | [] => []
  | a :: as => a.deliveries level ++ argumentDeliveries level as

/-- The events of the inner classes of a class type. -/
def segmentDeliveries (level : Nat) : List Segment → List Delivery
  | [] => []
  | s :: ss => s.deliveries level .innerClass ++ segmentDeliveries level ss

end

/-- A type that `event` announces to the root listener. -/
def announced (event : Event) (tree : TypeTree) : List Delivery :=
  ⟨0, event⟩ :: tree.deliveries 1

def Formal.deliveries (f : Formal) : List Delivery :=
  ⟨0, .formal f.name⟩ :: (f.classBound.toList.flatMap (announced .classBound) ++
    f.interfaceBounds.flatMap (announced .interfaceBound))

def ClassTree.deliveries (t : ClassTree) : List Delivery :=
  t.formals.flatMap Formal.deliveries ++ announced .superclass t.superclass ++
    t.interfaces.flatMap (announced .interface)

def MethodTree.deliveries (t : MethodTree) : List Delivery :=
  t.formals.flatMap Formal.deliveries ++ t.parameters.flatMap (announced .parameter) ++
    announced .result t.result ++ t.exceptions.flatMap (announced .exception)

def Document.deliveries : Document → List Delivery
  | .ofClass tree => tree.deliveries
  | .ofMethod tree => tree.deliveries
  | .ofType tree => tree.deliveries 0

def Document.events (d : Document) : List Event := d.deliveries.map (·.event)

/-! ## Equality -/

mutual

def TypeTree.beq : TypeTree → TypeTree → Bool
  | .base c, .base d => c == d
  | .typeVariable m, .typeVariable n => m == n
  | .array s, .array t => s.beq t
  | .classType s ss, .classType t ts => s.beq t && segmentsBeq ss ts
  | _, _ => false

def Segment.beq : Segment → Segment → Bool
  | .mk m as, .mk n bs => m == n && argumentsBeq as bs

def Argument.beq : Argument → Argument → Bool
  | .unbounded, .unbounded => true
  | .bounded v s p, .bounded w t q => v == w && s.beq t && p == q
  | _, _ => false

def argumentsBeq : List Argument → List Argument → Bool
  | [], [] => true
  | a :: as, b :: bs => a.beq b && argumentsBeq as bs
  | _, _ => false

def segmentsBeq : List Segment → List Segment → Bool
  | [], [] => true
  | s :: ss, t :: ts => s.beq t && segmentsBeq ss ts
  | _, _ => false

end

instance : BEq TypeTree := ⟨TypeTree.beq⟩

deriving instance BEq for Formal, ClassTree, MethodTree, Document

end ClassUnit.Signature
