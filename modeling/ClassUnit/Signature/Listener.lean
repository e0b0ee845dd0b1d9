import ClassUnit.Signature.Event

/-! # Listeners

A listener handles each production of the grammar in its own way, told the level at which the
production reaches it, and acts on a state that all levels share. It may leave any production to
its default: a production that is left out changes nothing, and a tagged argument that is left
out is handled as an exact one. -/

namespace ClassUnit.Signature

/-- What is done at each production. -/
structure Listener (σ : Type) where
  formal (level : Nat) (name : String) (s : σ) : σ := s
  classBound (level : Nat) (s : σ) : σ := s
  interfaceBound (level : Nat) (s : σ) : σ := s
  superclass (level : Nat) (s : σ) : σ := s
  interface (level : Nat) (s : σ) : σ := s
  parameter (level : Nat) (s : σ) : σ := s
  result (level : Nat) (s : σ) : σ := s
  exception (level : Nat) (s : σ) : σ := s
  base (level : Nat) (code : Char) (s : σ) : σ := s
  typeVariable (level : Nat) (name : String) (s : σ) : σ := s
  array (level : Nat) (s : σ) : σ := s
  classType (level : Nat) (name : String) (s : σ) : σ := s
  innerClass (level : Nat) (name : String) (s : σ) : σ := s
  unbounded (level : Nat) (s : σ) : σ := s
  argument (level : Nat) (variance : Variance) (s : σ) : σ := s
  tagged (level : Nat) (s : σ) : σ := argument level .exact s
  close (level : Nat) (s : σ) : σ := s

namespace Listener

def hear (l : Listener σ) (s : σ) (d : Delivery) : σ :=
  match d.event with
  | .formal name => l.formal d.level name s
  | .classBound => l.classBound d.level s
  | .interfaceBound => l.interfaceBound d.level s
  | .superclass => l.superclass d.level s
  | .interface => l.interface d.level s
  | .parameter => l.parameter d.level s
  | .result => l.result d.level s
  | .exception => l.exception d.level s
  | .base code => l.base d.level code s
  | .typeVariable name => l.typeVariable d.level name s
  | .array => l.array d.level s
  | .classType name => l.classType d.level name s
  | .innerClass name => l.innerClass d.level name s
  | .unbounded => l.unbounded d.level s
  | .argument variance => l.argument d.level variance s
  | .tagged => l.tagged d.level s
  | .close => l.close d.level s

/-- The state that a sequence of deliveries leaves. -/
def attend (l : Listener σ) (s : σ) (ds : List Delivery) : σ := ds.foldl l.hear s

/-- Keeps what it hears in full, and leaves only tagged arguments to the default. -/
def record : Listener (List Delivery) where
  formal level name heard := heard ++ [⟨level, .formal name⟩]
  classBound level heard := heard ++ [⟨level, .classBound⟩]
  interfaceBound level heard := heard ++ [⟨level, .interfaceBound⟩]
  superclass level heard := heard ++ [⟨level, .superclass⟩]
  interface level heard := heard ++ [⟨level, .interface⟩]
  parameter level heard := heard ++ [⟨level, .parameter⟩]
  result level heard := heard ++ [⟨level, .result⟩]
  exception level heard := heard ++ [⟨level, .exception⟩]
  base level code heard := heard ++ [⟨level, .base code⟩]
  typeVariable level name heard := heard ++ [⟨level, .typeVariable name⟩]
  array level heard := heard ++ [⟨level, .array⟩]
  classType level name heard := heard ++ [⟨level, .classType name⟩]
  innerClass level name heard := heard ++ [⟨level, .innerClass name⟩]
  unbounded level heard := heard ++ [⟨level, .unbounded⟩]
  argument level variance heard := heard ++ [⟨level, .argument variance⟩]
  close level heard := heard ++ [⟨level, .close⟩]

end Listener

end ClassUnit.Signature
