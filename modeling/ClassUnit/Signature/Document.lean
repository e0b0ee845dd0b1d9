import ClassUnit.Signature.Builder
import ClassUnit.Signature.Reader
import ClassUnit.Signature.Writer

/-! # Signature documents

From a text to its tree, by the events of one reading. -/

namespace ClassUnit.Signature

namespace Document

/-- Parses a text as a signature of the given kind. A class and a method signature are read alike;
which of the two a text is shows only in the document. -/
def parse (text : String) (kind : Kind) : Except Error Document :=
  let reading := Reading.ofKind kind text
  match reading.fault with
  | some fault => .error (.invalidSignature fault)
  | none =>
    match ofEvents reading.events with
    | .error e => .error e
    | .ok d =>
      if d.kind = kind then .ok d
      else .error (.invalidSignature ⟨0, .otherKind kind d.kind⟩)

end Document

def TypeTree.parse (text : String) : Except Error TypeTree :=
  match Document.parse text .ofType with
  | .error e => .error e
  | .ok (.ofType tree) => .ok tree
  | .ok d => .error (.invalidSignature ⟨0, .otherKind .ofType d.kind⟩)

def ClassTree.parse (text : String) : Except Error ClassTree :=
  match Document.parse text .ofClass with
  | .error e => .error e
  | .ok (.ofClass tree) => .ok tree
  | .ok d => .error (.invalidSignature ⟨0, .otherKind .ofClass d.kind⟩)

def MethodTree.parse (text : String) : Except Error MethodTree :=
  match Document.parse text .ofMethod with
  | .error e => .error e
  | .ok (.ofMethod tree) => .ok tree
  | .ok d => .error (.invalidSignature ⟨0, .otherKind .ofMethod d.kind⟩)

end ClassUnit.Signature
