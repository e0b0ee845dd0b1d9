import ClassUnit.Field.Visitor

/-! # Recorded fields

A field kept in memory records what it is sent, and replays it in the order of its kinds:
annotations, type annotations, attributes, and one end. -/

namespace ClassUnit

/-- How a field is declared. -/
structure FieldHeader where
  access : UInt32
  name : String
  descriptor : String
  signature : Option String
  deriving DecidableEq

structure TypeAnnotationNode where
  target : TypeTarget
  node : AnnotationNode

instance : Inhabited TypeAnnotationNode := ⟨⟨⟨⟨0⟩, none⟩, default⟩⟩

structure FieldNode where
  header : FieldHeader
  annotations : List AnnotationNode := []
  typeAnnotations : List TypeAnnotationNode := []
  attributes : List Attribute := []
  finished : Bool := false

instance : Inhabited FieldNode := ⟨{ header := ⟨0, "", "", none⟩ }⟩

namespace FieldNode

/-- The annotation at a position. -/
def annotationAt (i : Nat) : Part FieldNode AnnotationNode :=
  (Part.item i).within
    ⟨FieldNode.annotations, fun annotations n => { n with annotations }⟩

/-- The type annotation at a position, without where it stands. -/
def typeAnnotationAt (i : Nat) : Part FieldNode AnnotationNode :=
  (Part.within ⟨TypeAnnotationNode.node, fun node n => { n with node }⟩ (Part.item i)).within
    ⟨FieldNode.typeAnnotations, fun typeAnnotations n => { n with typeAnnotations }⟩

/-- Records what it is sent. -/
def recorder (level : Level) : FieldVisitor FieldNode where
  level := level
  annotate descriptor visible := do
    let position := (← get).annotations.length
    modify fun n => { n with annotations := n.annotations ++ [{ descriptor, visible }] }
    return some (AnnotationNode.recorder.on (annotationAt position))
  annotateType target descriptor visible := do
    requireTypeAnnotations level
    let position := (← get).typeAnnotations.length
    modify fun n =>
      { n with typeAnnotations := n.typeAnnotations ++ [⟨target, { descriptor, visible }⟩] }
    return some (AnnotationNode.recorder.on (typeAnnotationAt position))
  attach a := modify fun n => { n with attributes := n.attributes ++ [a] }
  finish := modify fun n => { n with finished := true }

/-- Sends an annotation to the visitor that was handed out for it, if one was. -/
def replayOnto (node : AnnotationNode) (handed : Option (AnnotationVisitor σ)) : Visit σ Unit :=
  match handed with
  | some v => node.replay v
  | none => pure ()

def replay (n : FieldNode) (v : FieldVisitor σ) : Visit σ Unit := do
  n.annotations.forM fun a => do replayOnto a (← v.annotate a.descriptor a.visible)
  n.typeAnnotations.forM fun a => do
    replayOnto a.node (← v.annotateType a.target a.node.descriptor a.node.visible)
  n.attributes.forM v.attach
  v.finish

/-- Replays several fields onto one visitor, up to the first refusal. -/
def replayAll (nodes : List FieldNode) (v : FieldVisitor σ) : Visit σ Unit :=
  nodes.forM (·.replay v)

end FieldNode

end ClassUnit
