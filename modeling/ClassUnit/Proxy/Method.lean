import ClassUnit.Proxy.Config
import ClassUnit.Signature.Document

/-! # Methods

A method is identified by its name and its descriptor: a method signature without anything
generic. -/

namespace ClassUnit.Proxy

open Signature (MethodTree TypeTree Fault Reason)
open Json (Decoded Form Value once present)

/-- Why a proxy cannot be described or made. -/
inductive Refusal
  | config (fault : ConfigFault)
  | invalidDescriptor (descriptor : String) (cause : Error)
  | invalidMethodName (name : String)
  | indexOutOfRange (key : String) (index count : Nat)
  | duplicateMember (key : String)

def Refusal.message : Refusal → String
  | .config fault => "Configuration error: " ++ fault.message
  | .invalidDescriptor descriptor cause =>
    "Invalid method descriptor '" ++ descriptor ++ "': " ++ cause.message
  | .invalidMethodName name => "Invalid method name: '" ++ name ++ "'"
  | .indexOutOfRange key index count =>
    "Callback filter returned index " ++ toString index ++ " for " ++ key ++ ", but only " ++
      toString count ++ " callbacks are set"
  | .duplicateMember key => "Duplicate member: " ++ key

/-- A method, with its descriptor both as text and as read. -/
structure Method where
  name : String
  descriptor : String
  signature : MethodTree

namespace Method

/-- A method name is not empty and holds none of the characters that separate names. -/
def validName (name : String) : Bool :=
  !name.isEmpty && !name.toList.any fun c => ['.', ';', '[', '/'].contains c

/-- What keeps a type from standing in a descriptor. -/
def genericPart : TypeTree → Option Reason
  | .base _ => none
  | .typeVariable _ => some .variableInDescriptor
  | .array element => genericPart element
  | .classType outer inners =>
    if !outer.arguments.isEmpty then some .argumentsInDescriptor
    else if !inners.isEmpty then some .innerClassInDescriptor
    else none

/-- What keeps a method signature from being a descriptor. -/
def genericReason (signature : MethodTree) : Option Reason :=
  if !signature.formals.isEmpty || !signature.exceptions.isEmpty then some .genericDescriptor
  else (signature.parameters ++ [signature.result]).findSome? genericPart

def ofNameAndDescriptor (name descriptor : String) : Except Refusal Method :=
  if !validName name then .error (.invalidMethodName name)
  else
    match MethodTree.parse descriptor with
    | .error cause => .error (.invalidDescriptor descriptor cause)
    | .ok signature =>
      match genericReason signature with
      | some reason => .error (.invalidDescriptor descriptor (.invalidSignature ⟨0, reason⟩))
      | none => .ok { name, descriptor, signature }

/-- What a method is looked up by. -/
def key (m : Method) : String := m.name ++ m.descriptor

def parameters (m : Method) : List TypeTree := m.signature.parameters

def result (m : Method) : TypeTree := m.signature.result

def returnsVoid (m : Method) : Bool := m.result == .base 'V'

/-! ## JSON -/

def toJson (m : Method) : Value :=
  .object [("name", .string m.name), ("descriptor", .string m.descriptor)]

/-- The members of a method so far. -/
structure Fields where
  name : Option String := none
  descriptor : Option String := none

def form : Form := ⟨"struct RawMethodDescriptor", ["name", "descriptor"], false⟩

def ofJson (v : Value) : Decoded Method := do
  let (name, descriptor) ←
    form.decode .inPlace ({} : Fields)
      (fun s name v =>
        if name = "name" then return { s with name := ← once name s.name (Json.string v) }
        else return { s with descriptor := ← once name s.descriptor (Json.string v) })
      (fun s absent => do
        let name ← present (absent "name") s.name
        let descriptor ← present (absent "descriptor") s.descriptor
        return (name, descriptor)) v
  match ofNameAndDescriptor name descriptor with
  | .ok m => .ok m
  | .error refusal => .error (.rejected refusal.message)

end Method

end ClassUnit.Proxy
