import ClassUnit.Signature.Variance

/-! # Signature events

A signature is described, left to right, by a sequence of events, one for each production of its
grammar:

* a class: `(formal classBound? interfaceBound*)* superclass interface*`,
* a method: `(formal classBound? interfaceBound*)* parameter* result exception*`,
* a type: `base`, `typeVariable`, `array`, or
  `classType argument* (innerClass argument*)* close`,

where every production but `formal` is followed by the events of the type it announces. -/

namespace ClassUnit.Signature

inductive Event
  | formal (name : String)
  | classBound
  | interfaceBound
  | superclass
  | interface
  | parameter
  | result
  | exception
  | base (code : Char)
  | typeVariable (name : String)
  | array
  | classType (name : String)
  | innerClass (name : String)
  | unbounded
  | argument (variance : Variance)
  | tagged
  | close
  deriving DecidableEq

/-- A listener that does not keep how an exact argument was spelled takes a tagged one for an
exact one. -/
def Event.untagged : Event → Event
  | .tagged => .argument .exact
  | e => e

def Event.className? : Event → Option String
  | .classType name => some name
  | _ => none

/-- An event together with the level of the listener that it reaches. The root listener has level
0, and each event that announces a type hands it to a listener one level deeper. -/
structure Delivery where
  level : Nat
  event : Event
  deriving DecidableEq

end ClassUnit.Signature
