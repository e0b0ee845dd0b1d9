import ClassUnit.Annotations
import ClassUnit.TypePath

/-! # Field visitors

A visitor of one field takes annotations, type annotations and attributes in any order, and then
the end. Visitors are combined from others: a `Link` passes calls on to a next visitor, `ordered`
guards one against calls after the end, and `observers` drives several at once. -/

namespace ClassUnit

/-- An attribute that the class file format does not define, as raw bytes. -/
structure Attribute where
  name : String
  content : List UInt8
  deriving DecidableEq

/-- Which type of a member a type annotation stands on: a 32-bit word with its sort in the highest
byte. -/
structure TypeReference where
  raw : UInt32
  deriving DecidableEq

namespace TypeReference

/-- The sort of references to the type of a field. -/
def fieldSort : UInt8 := 0x13

/-- The sort of references to the result type of a method. -/
def methodReturnSort : UInt8 := 0x14

def ofSort (sort : UInt8) : TypeReference := ⟨sort.toUInt32 <<< 24⟩

def sort (r : TypeReference) : UInt8 := (r.raw >>> 24).toUInt8

end TypeReference

/-- Where a type annotation stands. -/
structure TypeTarget where
  reference : TypeReference
  path : Option TypePath
  deriving DecidableEq

/-- A visitor that acts on a state `σ`. It answers an annotation with a visitor for its elements,
or with none if they are of no interest. -/
structure FieldVisitor (σ : Type) where
  level : Level
  annotate (descriptor : String) (visible : Bool) : Visit σ (Option (AnnotationVisitor σ))
  annotateType (target : TypeTarget) (descriptor : String) (visible : Bool) :
    Visit σ (Option (AnnotationVisitor σ))
  attach (a : Attribute) : Visit σ Unit
  finish : Visit σ Unit

/-- Type annotations came with the second level. -/
def requireTypeAnnotations (level : Level) : Visit σ Unit :=
  .of (level.require .asm5 "type annotations")

namespace FieldVisitor

/-- Acts on a part of the state. -/
def on (part : Part τ σ) (v : FieldVisitor σ) : FieldVisitor τ where
  level := v.level
  annotate descriptor visible :=
    Option.map (·.on part) <$> (v.annotate descriptor visible).on part
  annotateType target descriptor visible :=
    Option.map (·.on part) <$> (v.annotateType target descriptor visible).on part
  attach a := (v.attach a).on part
  finish := v.finish.on part

/-- Drives each call over all observers in order, up to the first that refuses it. -/
def observers (level : Level) (list : List (FieldVisitor σ)) : FieldVisitor σ where
  level := level
  annotate descriptor visible := do
    let targets ← list.mapM (·.annotate descriptor visible)
    return AnnotationVisitor.collapse (targets.filterMap id)
  annotateType target descriptor visible := do
    requireTypeAnnotations level
    let targets ← list.mapM (·.annotateType target descriptor visible)
    return AnnotationVisitor.collapse (targets.filterMap id)
  attach a := list.forM (·.attach a)
  finish := list.forM (·.finish)

/-! ## Order -/

/-- How far a visit has come: the field counts as ended once its end was accepted. -/
inductive Phase
  | members
  | ended
  deriving DecidableEq

/-- Refuses a call once the field has ended. -/
def stillOpen (call : FieldCall) : Visit (Phase × σ) Unit := do
  let (phase, _) ← get
  if phase = .ended then throw (.visitOrder (.afterFinish call))

/-- The part of a state beside the phase. -/
def besidePhase : Part (Phase × σ) σ where
  get := Prod.snd
  put s t := (t.1, s)

/-- Guards a visitor against calls that come after the end. They are not passed on. -/
def ordered (v : FieldVisitor σ) : FieldVisitor (Phase × σ) where
  level := v.level
  annotate descriptor visible := do
    stillOpen .annotate
    (v.on besidePhase).annotate descriptor visible
  annotateType target descriptor visible := do
    stillOpen .annotateType
    (v.on besidePhase).annotateType target descriptor visible
  attach a := do
    stillOpen .attach
    (v.on besidePhase).attach a
  finish := do
    stillOpen .finish
    (v.on besidePhase).finish
    modify fun (_, s) => (.ended, s)

end FieldVisitor

/-! ## Links -/

/-- A link of a chain: it passes every call on to the next visitor, and accepts it where the chain
ends. Only its level is its own. -/
structure FieldLink (σ : Type) where
  level : Level
  next : Option (FieldVisitor σ)

namespace FieldLink

/-- A link whose level is given in its numeric form. -/
def ofRaw (raw : Nat) (next : Option (FieldVisitor σ)) : Except Error (FieldLink σ) := do
  return ⟨← Level.ofRaw raw, next⟩

def visitor (l : FieldLink σ) : FieldVisitor σ where
  level := l.level
  annotate descriptor visible :=
    match l.next with
    | some v => v.annotate descriptor visible
    | none => pure none
  annotateType target descriptor visible := do
    requireTypeAnnotations l.level
    match l.next with
    | some v => v.annotateType target descriptor visible
    | none => pure none
  attach a :=
    match l.next with
    | some v => v.attach a
    | none => pure ()
  finish :=
    match l.next with
    | some v => v.finish
    | none => pure ()

end FieldLink

end ClassUnit
