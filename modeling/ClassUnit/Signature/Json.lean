import ClassUnit.Error
import ClassUnit.Json.Decode
import ClassUnit.Signature.Tree

/-! # Signature trees as JSON

Each tree is an object whose `kind`, or for a document whose `shape`, says what it is. Lists that
are empty, an absent class bound and the tag of an argument that has none are left out, except
that the parameters of a method are always written. All that may be left out may be absent when a
tree is read. -/

namespace ClassUnit.Signature

open Json (Value Decoded Failure Form Origin once present)

/-! ## Writing -/

/-- A member that is left out when its list is empty. -/
def listMember (name : String) (items : List Value) : List (String × Value) :=
  if items.isEmpty then [] else [(name, .array items)]

mutual

def TypeTree.toJson : TypeTree → Value
  | .base code => .object [("kind", .string "base"), ("code", .string code.toString)]
  | .typeVariable name => .object [("kind", .string "typeVariable"), ("name", .string name)]
  | .array element => .object [("kind", .string "array"), ("element", element.toJson)]
  | .classType outer inners =>
    .object (("kind", .string "class") :: outer.toMembers ++
      listMember "innerClasses" (segmentsToJson inners))

def Segment.toMembers : Segment → List (String × Value)
  | .mk name arguments =>
    ("name", .string name) :: listMember "typeArguments" (argumentsToJson arguments)

def Argument.toJson : Argument → Value
  | .unbounded => .object [("kind", .string "unbounded")]
  | .bounded variance bound tagged =>
    .object ([("kind", .string "bounded"), ("variance", .string variance.name),
      ("bound", bound.toJson)] ++ if tagged then [("tagged", .bool true)] else [])

def argumentsToJson : List Argument → List Value
  | [] => []
  | a :: as => a.toJson :: argumentsToJson as

def segmentsToJson : List Segment → List Value
  | [] => []
  | s :: ss => .object s.toMembers :: segmentsToJson ss

end

def Formal.toJson (f : Formal) : Value :=
  .object (("name", .string f.name) ::
    (f.classBound.toList.map fun bound => ("classBound", bound.toJson)) ++
    listMember "interfaceBounds" (f.interfaceBounds.map TypeTree.toJson))

def ClassTree.toJson (t : ClassTree) : Value :=
  .object (listMember "typeParameters" (t.formals.map Formal.toJson) ++
    ("superclass", t.superclass.toJson) ::
    listMember "interfaces" (t.interfaces.map TypeTree.toJson))

def MethodTree.toJson (t : MethodTree) : Value :=
  .object (listMember "typeParameters" (t.formals.map Formal.toJson) ++
    ("parameters", .array (t.parameters.map TypeTree.toJson)) ::
    ("returnType", t.result.toJson) ::
    listMember "exceptions" (t.exceptions.map TypeTree.toJson))

/-- The tree of a document, without its shape. -/
def Document.treeToJson : Document → Value
  | .ofClass tree => tree.toJson
  | .ofMethod tree => tree.toJson
  | .ofType tree => tree.toJson

def Document.toJson (d : Document) : Value :=
  .object [("shape", .string d.kind.name), ("signature", d.treeToJson)]

/-! ## Reading -/

def Variance.ofJson (origin : Origin) (v : Value) : Decoded Variance := do
  let name ← Json.choice origin (all.map Variance.name) v
  present .expectedValue (all.find? (·.name == name))

def Kind.ofJson (origin : Origin) (v : Value) : Decoded Kind := do
  let name ← Json.choice origin (all.map Kind.name) v
  present .expectedValue (ofName? name)

/-- The fields of a type so far, of whichever kind it is. -/
structure TypeFields where
  code : Option Char := none
  name : Option String := none
  element : Option TypeTree := none
  arguments : Option (List Argument) := none
  inners : Option (List Segment) := none

/-- The fields of a bounded argument so far. -/
structure ArgumentFields where
  variance : Option Variance := none
  bound : Option TypeTree := none
  tagged : Option Bool := none

def baseForm : Form := ⟨"struct variant TypeSignature::Base", ["code"], false⟩

def variableForm : Form := ⟨"struct variant TypeSignature::TypeVariable", ["name"], false⟩

def arrayForm : Form := ⟨"struct variant TypeSignature::Array", ["element"], false⟩

def classTypeForm : Form :=
  ⟨"struct ClassType", ["name", "typeArguments", "innerClasses"], false⟩

def segmentForm : Form := ⟨"struct InnerClass", ["name", "typeArguments"], false⟩

def boundedForm : Form :=
  ⟨"struct variant TypeArgument::Bounded", ["variance", "bound", "tagged"], false⟩

mutual

/-- Decodes a type that is nested less deep than the bound. -/
def typeOfJson (bound : Nat) (origin : Origin) (v : Value) : Decoded TypeTree :=
  match bound with
  | 0 => .error .malformed
  | bound + 1 => do
    let (kind, rest) ←
      Json.tagged origin "TypeSignature" "kind" ["base", "typeVariable", "array", "class"] v
    if kind = "base" then
      baseForm.decode .setAside ({} : TypeFields)
        (fun s name v => return { s with code := ← once name s.code (Json.character v) })
        (fun s absent => return .base (← present (absent "code") s.code)) rest
    else if kind = "typeVariable" then
      variableForm.decode .setAside ({} : TypeFields)
        (fun s name v => return { s with name := ← once name s.name (Json.string v) })
        (fun s absent => return .typeVariable (← present (absent "name") s.name)) rest
    else if kind = "array" then
      arrayForm.decode .setAside ({} : TypeFields)
        (fun s name v =>
          return { s with element := ← once name s.element (typeOfJson bound .setAside v) })
        (fun s absent => return .array (← present (absent "element") s.element)) rest
    else
      classTypeForm.decode .setAside ({} : TypeFields)
        (fun s name v =>
          if name = "name" then
            return { s with name := ← once name s.name (Json.string v) }
          else if name = "typeArguments" then
            return { s with
              arguments := ← once name s.arguments (Json.list (argumentOfJson bound .setAside) v) }
          else
            return { s with
              inners := ← once name s.inners (Json.list (segmentOfJson bound .setAside) v) })
        (fun s absent => do
          let name ← present (absent "name") s.name
          return .classType (.mk name (s.arguments.getD [])) (s.inners.getD [])) rest

def segmentOfJson (bound : Nat) (origin : Origin) (v : Value) : Decoded Segment :=
  match bound with
  | 0 => .error .malformed
  | bound + 1 =>
    segmentForm.decode origin ({} : TypeFields)
      (fun s name v =>
        if name = "name" then
          return { s with name := ← once name s.name (Json.string v) }
        else
          return { s with
            arguments := ← once name s.arguments (Json.list (argumentOfJson bound .setAside) v) })
      (fun s absent => do
        let name ← present (absent "name") s.name
        return .mk name (s.arguments.getD [])) v

def argumentOfJson (bound : Nat) (origin : Origin) (v : Value) : Decoded Argument :=
  match bound with
  | 0 => .error .malformed
  | bound + 1 => do
    let (kind, rest) ← Json.tagged origin "TypeArgument" "kind" ["unbounded", "bounded"] v
    if kind = "unbounded" then
      Json.nothing rest
      return .unbounded
    else
      boundedForm.decode .setAside ({} : ArgumentFields)
        (fun s name v =>
          if name = "variance" then
            return { s with variance := ← once name s.variance (Variance.ofJson .setAside v) }
          else if name = "bound" then
            return { s with bound := ← once name s.bound (typeOfJson bound .setAside v) }
          else
            return { s with tagged := ← once name s.tagged (Json.bool v) })
        (fun s absent => do
          let variance ← present (absent "variance") s.variance
          let bound ← present (absent "bound") s.bound
          return .bounded variance bound (s.tagged.getD false)) rest

end

def TypeTree.ofJson (origin : Origin) (v : Value) : Decoded TypeTree :=
  typeOfJson (v.depth + 1) origin v

def Argument.ofJson (origin : Origin) (v : Value) : Decoded Argument :=
  argumentOfJson (v.depth + 1) origin v

/-- The fields of a formal type parameter so far. -/
structure FormalFields where
  name : Option String := none
  classBound : Option (Option TypeTree) := none
  interfaceBounds : Option (List TypeTree) := none

def formalForm : Form :=
  ⟨"struct FormalTypeParameter", ["name", "classBound", "interfaceBounds"], false⟩

def Formal.ofJson (origin : Origin) : Value → Decoded Formal :=
  formalForm.decode origin ({} : FormalFields)
    (fun s name v =>
      if name = "name" then
        return { s with name := ← once name s.name (Json.string v) }
      else if name = "classBound" then
        return { s with
          classBound := ← once name s.classBound (Json.optional (TypeTree.ofJson origin) v) }
      else
        return { s with
          interfaceBounds :=
            ← once name s.interfaceBounds (Json.list (TypeTree.ofJson origin) v) })
    (fun s absent => do
      let name ← present (absent "name") s.name
      return ⟨name, s.classBound.join, s.interfaceBounds.getD []⟩)

/-- The fields of a class or method signature so far. -/
structure DeclarationFields where
  formals : Option (List Formal) := none
  superclass : Option TypeTree := none
  interfaces : Option (List TypeTree) := none
  parameters : Option (List TypeTree) := none
  result : Option TypeTree := none
  exceptions : Option (List TypeTree) := none

def classForm : Form :=
  ⟨"struct ClassSignature", ["typeParameters", "superclass", "interfaces"], false⟩

def ClassTree.ofJson (origin : Origin) : Value → Decoded ClassTree :=
  classForm.decode origin ({} : DeclarationFields)
    (fun s name v =>
      if name = "typeParameters" then
        return { s with formals := ← once name s.formals (Json.list (Formal.ofJson origin) v) }
      else if name = "superclass" then
        return { s with superclass := ← once name s.superclass (TypeTree.ofJson origin v) }
      else
        return { s with
          interfaces := ← once name s.interfaces (Json.list (TypeTree.ofJson origin) v) })
    (fun s absent => do
      let superclass ← present (absent "superclass") s.superclass
      return ⟨s.formals.getD [], superclass, s.interfaces.getD []⟩)

def methodForm : Form :=
  ⟨"struct MethodSignature", ["typeParameters", "parameters", "returnType", "exceptions"], false⟩

def MethodTree.ofJson (origin : Origin) : Value → Decoded MethodTree :=
  methodForm.decode origin ({} : DeclarationFields)
    (fun s name v =>
      if name = "typeParameters" then
        return { s with formals := ← once name s.formals (Json.list (Formal.ofJson origin) v) }
      else if name = "parameters" then
        return { s with
          parameters := ← once name s.parameters (Json.list (TypeTree.ofJson origin) v) }
      else if name = "returnType" then
        return { s with result := ← once name s.result (TypeTree.ofJson origin v) }
      else
        return { s with
          exceptions := ← once name s.exceptions (Json.list (TypeTree.ofJson origin) v) })
    (fun s absent => do
      let result ← present (absent "returnType") s.result
      return ⟨s.formals.getD [], s.parameters.getD [], result, s.exceptions.getD []⟩)

def Document.ofJson : Value → Decoded Document :=
  Json.adjacent "adjacently tagged enum SignatureDocument" "shape" "signature"
    (Kind.all.map Kind.name) fun shape origin v =>
      if shape = "class" then (ClassTree.ofJson origin v).map .ofClass
      else if shape = "method" then (MethodTree.ofJson origin v).map .ofMethod
      else (TypeTree.ofJson origin v).map .ofType

end ClassUnit.Signature
