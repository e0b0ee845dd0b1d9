import ClassUnit.Json.Decode
import ClassUnit.Run

/-! # Outcomes of calls

A call ends with a value or with a failure. Both are data: whoever mediates a call can inspect,
replace or pass on either. -/

namespace ClassUnit.Proxy

open Json (Decoded Form Value once present)

structure Failure where
  /-- The category of the failure. -/
  kind : String
  message : String
  deriving DecidableEq

/-- A call acts on a state and ends with an outcome. -/
abbrev Call (σ : Type) := Run Failure σ

namespace Failure

def noSuchMethodKind : String := "NoSuchMethod"

def illegalArgumentKind : String := "IllegalArgument"

def illegalStateKind : String := "IllegalState"

/-- There is no member of the name and descriptor that were asked for. -/
def noSuchMethod (message : String) : Failure := ⟨noSuchMethodKind, message⟩

/-- The arguments do not fit the member. -/
def illegalArgument (message : String) : Failure := ⟨illegalArgumentKind, message⟩

/-- A participant is not in the state that the call needs. -/
def illegalState (message : String) : Failure := ⟨illegalStateKind, message⟩

def text (f : Failure) : String := f.kind ++ ": " ++ f.message

def toJson (f : Failure) : Value :=
  .object [("kind", .string f.kind), ("message", .string f.message)]

/-- The members of a failure so far. -/
structure Fields where
  kind : Option String := none
  message : Option String := none

def form : Form := ⟨"struct Failure", ["kind", "message"], false⟩

def ofJson : Value → Decoded Failure :=
  form.decode .inPlace ({} : Fields)
    (fun s name v =>
      if name = "kind" then return { s with kind := ← once name s.kind (Json.string v) }
      else return { s with message := ← once name s.message (Json.string v) })
    (fun s absent => do
      let kind ← present (absent "kind") s.kind
      let message ← present (absent "message") s.message
      return ⟨kind, message⟩)

end Failure

end ClassUnit.Proxy
