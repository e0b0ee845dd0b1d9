import ClassUnit.Error
import ClassUnit.Signature.Tree

/-! # Building signature trees

A builder takes events in any order and keeps what they describe so far. What an unfinished type
is for stands on a stack of frames; a type that is complete goes to the frame on top. The first
event that does not fit ends the building, and `finish` tells a complete document from one that
was broken off. -/

namespace ClassUnit.Signature

namespace Builder

/-- What a type outside of all class types and arrays is for. -/
inductive Role
  | classBound
  | interfaceBound
  | superclass
  | interface
  | parameter
  | result
  | exception
  deriving DecidableEq

/-- A class type that may still grow. The inner classes that are complete and the arguments of
the innermost segment are kept newest first. -/
structure OpenClass where
  name : String
  arguments : List Argument := []
  /-- The segments before the innermost one, newest first. -/
  earlier : List Segment := []

namespace OpenClass

def add (c : OpenClass) (a : Argument) : OpenClass := { c with arguments := a :: c.arguments }

/-- The innermost segment as it stands. -/
def innermost (c : OpenClass) : Segment := .mk c.name c.arguments.reverse

def enter (c : OpenClass) (name : String) : OpenClass := ⟨name, [], c.innermost :: c.earlier⟩

def close (c : OpenClass) : TypeTree :=
  match (c.innermost :: c.earlier).reverse with
  | outer :: inners => .classType outer inners
  | [] => .classType c.innermost []

end OpenClass

/-- What waits for a type to be complete, or a class type for its next event. -/
inductive Frame
  | role (role : Role)
  | array
  | argument (variance : Variance) (tagged : Bool)
  | openClass (c : OpenClass)

/-- What the events so far say of the kind of the signature. -/
inductive Shape
  | unknown
  | ofClass
  | ofMethod
  deriving DecidableEq

end Builder

open Builder in
/-- A signature under construction. All lists are kept newest first. -/
structure Builder where
  frames : List Frame := []
  shape : Shape := .unknown
  formals : List Formal := []
  superclass : Option TypeTree := none
  interfaces : List TypeTree := []
  parameters : List TypeTree := []
  result : Option TypeTree := none
  exceptions : List TypeTree := []
  bare : Option TypeTree := none

namespace Builder

def push (b : Builder) (frame : Frame) : Builder := { b with frames := frame :: b.frames }

/-- Waits for a type of this role, which belongs to signatures of the given shape. -/
def enter (b : Builder) (shape : Shape) (role : Role) : Except Breach Builder :=
  if shape = .unknown then .ok (b.push (.role role))
  else if b.shape = .unknown ∨ b.shape = shape then
    .ok ({ b with shape := shape }.push (.role role))
  else .error .mixedShapes

/-- Puts a complete type where its role says. -/
def store (b : Builder) (tree : TypeTree) : Role → Except Breach Builder
  | .classBound =>
    match b.formals with
    | [] => .error .looseClassBound
    | f :: rest =>
      match f.classBound with
      | some _ => .error .secondClassBound
      | none => .ok { b with formals := { f with classBound := some tree } :: rest }
  | .interfaceBound =>
    match b.formals with
    | [] => .error .looseInterfaceBound
    | f :: rest =>
      .ok { b with formals := { f with interfaceBounds := tree :: f.interfaceBounds } :: rest }
  | .superclass =>
    match b.superclass with
    | some _ => .error .secondSuperclass
    | none => .ok { b with superclass := some tree }
  | .interface => .ok { b with interfaces := tree :: b.interfaces }
  | .parameter => .ok { b with parameters := tree :: b.parameters }
  | .result =>
    match b.result with
    | some _ => .error .secondResult
    | none => .ok { b with result := some tree }
  | .exception => .ok { b with exceptions := tree :: b.exceptions }

/-- Hands a complete type to the frames that wait for it. -/
def deliver (b : Builder) : List Frame → TypeTree → Except Breach Builder
  | .array :: rest, tree => b.deliver rest (.array tree)
  | .argument variance tagged :: .openClass c :: rest, tree =>
    .ok { b with frames := .openClass (c.add (.bounded variance tree tagged)) :: rest }
  | .argument _ _ :: _, _ => .error .looseArgument
  | .role role :: rest, tree => { b with frames := rest }.store tree role
  | .openClass _ :: _, _ => .error .bareTypeInClass
  | [], tree =>
    if b.bare.isSome ∨ b.shape ≠ .unknown then .error .looseType
    else .ok { b with frames := [], bare := some tree }

def complete (b : Builder) (tree : TypeTree) : Except Breach Builder := b.deliver b.frames tree

def step (b : Builder) : Event → Except Breach Builder
  | .formal name => .ok { b with formals := { name } :: b.formals }
  | .classBound => b.enter .unknown .classBound
  | .interfaceBound => b.enter .unknown .interfaceBound
  | .superclass => b.enter .ofClass .superclass
  | .interface => b.enter .ofClass .interface
  | .parameter => b.enter .ofMethod .parameter
  | .result => b.enter .ofMethod .result
  | .exception => b.enter .ofMethod .exception
  | .base code => b.complete (.base code)
  | .typeVariable name => b.complete (.typeVariable name)
  | .array => .ok (b.push .array)
  | .classType name => .ok (b.push (.openClass { name }))
  | .innerClass name =>
    match b.frames with
    | .openClass c :: rest => .ok { b with frames := .openClass (c.enter name) :: rest }
    | _ => .error .looseInnerClass
  | .unbounded =>
    match b.frames with
    | .openClass c :: rest => .ok { b with frames := .openClass (c.add .unbounded) :: rest }
    | _ => .error .looseArgument
  | .argument variance => .ok (b.push (.argument variance false))
  | .tagged => .ok (b.push (.argument .exact true))
  | .close =>
    match b.frames with
    | .openClass c :: rest => { b with frames := rest }.complete c.close
    | _ => .error .looseClose

def build (b : Builder) (events : List Event) : Except Breach Builder := events.foldlM step b

/-- A formal type parameter with its bounds in order. -/
def settle (f : Formal) : Formal := { f with interfaceBounds := f.interfaceBounds.reverse }

def finish (b : Builder) : Except Breach Document :=
  if !b.frames.isEmpty then .error .openType
  else
    let formals := (b.formals.map settle).reverse
    match b.shape with
    | .ofClass =>
      match b.superclass with
      | none => .error .noSuperclass
      | some superclass => .ok (.ofClass ⟨formals, superclass, b.interfaces.reverse⟩)
    | .ofMethod =>
      match b.result with
      | none => .error .noResult
      | some result =>
        .ok (.ofMethod ⟨formals, b.parameters.reverse, result, b.exceptions.reverse⟩)
    | .unknown =>
      if !b.formals.isEmpty then .error .looseFormals
      else
        match b.bare with
        | none => .error .emptySignature
        | some tree => .ok (.ofType tree)

end Builder

namespace Document

/-- The document that a sequence of events describes. -/
def ofEvents (events : List Event) : Except Error Document :=
  match ({} : Builder).build events with
  | .error breach => .error (.visitOrder breach)
  | .ok b =>
    match b.finish with
    | .error breach => .error (.visitOrder breach)
    | .ok d => .ok d

end Document

end ClassUnit.Signature
