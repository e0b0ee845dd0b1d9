import ClassUnit.Proxy.Override

/-! # Proxy descriptions

A description names a class, its members and their overrides. The proxy that it stands for is laid
out and never called: the bodies of its members are not there, nor are any beans. -/

namespace ClassUnit.CommandLine

open Json (Decoded Form Value once present)
open Proxy (Method Override Target Body Container Enhancer Config ProxyClass Refusal)

structure Description where
  className : String
  members : List Method
  overrides : List Override

namespace Description

/-- The members of a description so far. -/
structure Fields where
  className : Option String := none
  members : Option (List Method) := none
  overrides : Option (List Override) := none

def form : Form := ⟨"struct ProxyDescription", ["class_name", "members", "overrides"], true⟩

def ofJson : Value → Decoded Description :=
  form.decode .inPlace ({} : Fields)
    (fun s name v =>
      if name = "class_name" then
        return { s with className := ← once name s.className (Json.string v) }
      else if name = "members" then
        return { s with members := ← once name s.members (Json.list Method.ofJson v) }
      else return { s with overrides := ← once name s.overrides (Override.listOfJson v) })
    (fun s absent => do
      let className ← present (absent "class_name") s.className
      return ⟨className, s.members.getD [], s.overrides.getD []⟩)

/-- A body that cannot run here. -/
def absentBody (m : Method) : Body Unit where
  method := m
  run _ := throw (.illegalState (m.key ++ " has no body outside a runtime"))

def target (d : Description) : Target Unit := .ofBodies d.className (d.members.map absentBody)

/-- A container in which nothing is registered. -/
def emptyContainer : Container Unit where
  bean name resultType :=
    throw (.illegalState ("no bean " ++ name.getD "<unnamed>" ++ " of type " ++ resultType))
  replacer _ := pure none

/-- Without overrides every member passes through; otherwise the overrides decide. -/
def enhancer (d : Description) (config : Config) : Enhancer Unit :=
  if d.overrides.isEmpty then { target := d.target, callbacks := [.passThrough], config }
  else { Proxy.injection d.target d.overrides emptyContainer with config }

def create (d : Description) (config : Config) : Except Refusal (ProxyClass Unit) :=
  (d.enhancer config).create

end Description

end ClassUnit.CommandLine
