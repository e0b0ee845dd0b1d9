import ClassUnit.Signature.Tree
import ClassUnit.Text.Shown

/-! # Showing signature trees -/

namespace ClassUnit.Signature

open Text (Shown)

def Variance.shown : Variance → Shown
  | .extending => .atom "Extends"
  | .superOf => .atom "Super"
  | .exact => .atom "Exact"

mutual

def TypeTree.shown : TypeTree → Shown
  | .base code => .record "Base" [("code", .char code)] true
  | .typeVariable name => .record "TypeVariable" [("name", .string name)] true
  | .array element => .record "Array" [("element", element.shown)] true
  | .classType outer inners =>
    .tuple "Class" [.record "ClassType"
      (outer.shownFields ++ [("inner_classes", .list (shownSegments inners))]) true]

def Segment.shownFields : Segment → List (String × Shown)
  | .mk name arguments =>
    [("name", .string name), ("type_arguments", .list (shownArguments arguments))]

def Argument.shown : Argument → Shown
  | .unbounded => .atom "Unbounded"
  | .bounded variance bound tagged =>
    .record "Bounded"
      [("variance", variance.shown), ("bound", bound.shown), ("tagged", .bool tagged)] true

def shownArguments : List Argument → List Shown
  | [] => []
  | a :: as => a.shown :: shownArguments as

def shownSegments : List Segment → List Shown
  | [] => []
  | s :: ss => .record "InnerClass" s.shownFields true :: shownSegments ss

end

def shownTypes (trees : List TypeTree) : Shown := .list (trees.map TypeTree.shown)

def Formal.shown (f : Formal) : Shown :=
  .record "FormalTypeParameter"
    [("name", .string f.name), ("class_bound", .option TypeTree.shown f.classBound),
      ("interface_bounds", shownTypes f.interfaceBounds)] true

def ClassTree.shown (t : ClassTree) : Shown :=
  .record "ClassSignature"
    [("type_parameters", .list (t.formals.map Formal.shown)),
      ("superclass", t.superclass.shown), ("interfaces", shownTypes t.interfaces)] true

def MethodTree.shown (t : MethodTree) : Shown :=
  .record "MethodSignature"
    [("type_parameters", .list (t.formals.map Formal.shown)),
      ("parameters", shownTypes t.parameters), ("return_type", t.result.shown),
      ("exceptions", shownTypes t.exceptions)] true

def Document.shown : Document → Shown
  | .ofClass tree => .tuple "Class" [tree.shown]
  | .ofMethod tree => .tuple "Method" [tree.shown]
  | .ofType tree => .tuple "Type" [tree.shown]

end ClassUnit.Signature
