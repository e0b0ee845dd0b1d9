import ClassUnit.Class.Visitor

/-! # Recorded classes -/

namespace ClassUnit

/-- A class kept in memory. Until it has a name it has no header. -/
structure ClassNode where
  header : ClassHeader := ⟨0, "", none, none⟩
  fields : List FieldNode := []
  methods : List MethodHeader := []
  finished : Bool := false

instance : Inhabited ClassNode := ⟨{}⟩

namespace ClassNode

/-- The field at a position. -/
def fieldAt (i : Nat) : Part ClassNode FieldNode :=
  (Part.item i).within ⟨ClassNode.fields, fun fields n => { n with fields }⟩

/-- Records what it is sent. Its fields are recorded at its own level. -/
def recorder (level : Level) : ClassVisitor ClassNode where
  level := level
  header h := do
    if (← get).header.name.isEmpty then modify fun n => { n with header := h }
    else throw (.visitOrder .secondHeader)
  field h := do
    let position := (← get).fields.length
    modify fun n => { n with fields := n.fields ++ [{ header := h }] }
    return some ((FieldNode.recorder level).on (fieldAt position))
  method h := modify fun n => { n with methods := n.methods ++ [h] }
  finish := modify fun n => { n with finished := true }

/-- The first field of the given name. -/
def field? (n : ClassNode) (name : String) : Option FieldNode :=
  n.fields.find? (·.header.name == name)

/-- Sends a field to the visitor that was handed out for it, if one was. -/
def replayOnto (node : FieldNode) (handed : Option (FieldVisitor σ)) : Visit σ Unit :=
  match handed with
  | some v => node.replay v
  | none => pure ()

def replay (n : ClassNode) (v : ClassVisitor σ) : Visit σ Unit := do
  v.header n.header
  n.fields.forM fun f => do replayOnto f (← v.field f.header)
  n.methods.forM v.method
  v.finish

/-- Replays several classes onto one visitor, up to the first refusal. -/
def replayAll (nodes : List ClassNode) (v : ClassVisitor σ) : Visit σ Unit :=
  nodes.forM (·.replay v)

end ClassNode

end ClassUnit
