import ClassUnit.Proxy.Failure
import ClassUnit.Proxy.Method

/-! # Targets and callbacks

A target has members, each with a body. A proxy of it routes the calls to a member in one of three
ways: straight to the body, through the pass-through callback, or to an interceptor, which decides
whether, how often and with which arguments the body runs. -/

namespace ClassUnit.Proxy

open Json (Value)

/-- The class that a proxy stands for. Its bodies act on a state `σ`. -/
structure Target (σ : Type) where
  className : String
  /-- In the order of their declaration. -/
  members : List Method
  invoke (m : Method) (args : List Value) : Call σ Value

/-- The text by which failures name a member. -/
def qualified (className key : String) : String := className ++ "." ++ key

/-- A member and its body. -/
structure Body (σ : Type) where
  method : Method
  run (args : List Value) : Call σ Value

/-- A target given by its bodies. Of two bodies for one key the later counts. -/
def Target.ofBodies (className : String) (bodies : List (Body σ)) : Target σ where
  className
  members := bodies.map (·.method)
  invoke m args :=
    match bodies.reverse.find? (·.method.key == m.key) with
    | some body => body.run args
    | none => throw (.noSuchMethod (qualified className m.key))

/-- The body of one member, to be run on demand. -/
structure SuperCall (σ : Type) where
  target : Target σ
  method : Method

def SuperCall.invoke (s : SuperCall σ) (args : List Value) : Call σ Value :=
  s.target.invoke s.method args

/-- Mediates the calls to the members that it is assigned to. -/
abbrev Interceptor (σ : Type) := Target σ → Method → List Value → SuperCall σ → Call σ Value

inductive Callback (σ : Type)
  | interceptor (run : Interceptor σ)
  | passThrough

/-- How the calls to one member are routed. -/
inductive Dispatch (σ : Type)
  | direct
  | intercepted (run : Interceptor σ)
  | passThrough

/-- Runs the body once, with the arguments as they came. -/
def passThrough : Interceptor σ := fun _ _ args body => body.invoke args

namespace Callback

def dispatch : Callback σ → Dispatch σ
  | .interceptor run => .intercepted run
  | .passThrough => .passThrough

/-- The type of the field that holds the callback in a proxy class. -/
def fieldDescriptor : Callback σ → String
  | .interceptor _ => "Lclassweave/proxy/MethodInterceptor;"
  | .passThrough => "Lclassweave/proxy/NoOp;"

/-- What the field of the callback says of its kind. -/
def kind : Callback σ → String
  | .interceptor _ => "interceptor"
  | .passThrough => "noOp"

end Callback

namespace Dispatch

def kind : Dispatch σ → String
  | .direct => "direct"
  | .intercepted _ => "intercepted"
  | .passThrough => "passThrough"

def call (d : Dispatch σ) (target : Target σ) (m : Method) (args : List Value) : Call σ Value :=
  match d with
  | .direct => target.invoke m args
  | .intercepted run => run target m args ⟨target, m⟩
  | .passThrough => Proxy.passThrough target m args ⟨target, m⟩

end Dispatch

end ClassUnit.Proxy
