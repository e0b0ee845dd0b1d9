import ClassUnit.Class.Node
import ClassUnit.Proxy.Callback

/-! # Synthesis of proxies

An enhancer turns a target, callbacks and a filter into a proxy class. The filter picks a callback
for each member by its position, once, when the proxy is made; from then on the routes are
fixed. -/

namespace ClassUnit.Proxy

open Json (Value)

/-- A member of a proxy, how it is routed, and the position of its callback if it has one. -/
structure Member (σ : Type) where
  method : Method
  dispatch : Dispatch σ
  callback : Option Nat

/-- The members that a proxy has so far, and where each of them stands, by its key. -/
structure Roster (σ : Type) where
  members : List (Member σ)
  /-- Of two entries for one key the first counts, which is the later one. -/
  index : List (String × Nat)

namespace Roster

def empty : Roster σ := ⟨[], []⟩

/-- Where the member of the given key stands. -/
def position? (r : Roster σ) (key : String) : Option Nat := r.index.lookup key

def enter (r : Roster σ) (member : Member σ) : Roster σ where
  members := r.members ++ [member]
  index := (member.method.key, r.members.length) :: r.index

end Roster

structure ProxyClass (σ : Type) extends Roster σ where
  name : String
  target : Target σ
  callbacks : List (Callback σ)
  config : Config

structure Enhancer (σ : Type) where
  target : Target σ
  callbacks : List (Callback σ) := []
  /-- The position of the callback for a member. -/
  filter : Method → Nat := fun _ => 0
  config : Config := {}

namespace Enhancer

/-- Assigns a member its route. Without callbacks the filter is not asked. -/
def assign [Monad m] (callbacks : List (Callback σ)) (ask : Method → m Nat) (method : Method) :
    ExceptT Refusal m (Member σ) :=
  if callbacks.isEmpty then pure ⟨method, .direct, none⟩
  else do
    let index ← ask method
    match callbacks[index]? with
    | some callback => pure ⟨method, callback.dispatch, some index⟩
    | none => throw (.indexOutOfRange method.key index callbacks.length)

/-- Assigns the members in order, given those that are assigned already. -/
def assignAll [Monad m] (callbacks : List (Callback σ)) (ask : Method → m Nat)
    (roster : Roster σ) : List Method → ExceptT Refusal m (Roster σ)
  | [] => pure roster
  | method :: rest =>
    if (roster.position? method.key).isSome then throw (.duplicateMember method.key)
    else do
      let member ← assign callbacks ask method
      assignAll callbacks ask (roster.enter member) rest

/-- The proxy with the given members. -/
def proxyOf (e : Enhancer σ) (roster : Roster σ) : ProxyClass σ where
  toRoster := roster
  name := e.target.className ++ e.config.suffix
  target := e.target
  callbacks := e.callbacks
  config := e.config

/-- Makes a proxy, with a filter that may itself have effects. -/
def createAsking [Monad m] (e : Enhancer σ) (ask : Method → m Nat) :
    ExceptT Refusal m (ProxyClass σ) := do
  return e.proxyOf (← assignAll e.callbacks ask .empty e.target.members)

def create (e : Enhancer σ) : Except Refusal (ProxyClass σ) :=
  (e.createAsking fun m => (pure (e.filter m) : Id Nat)).run

end Enhancer

namespace ProxyClass

/-- The member of the given key. -/
def member? (p : ProxyClass σ) (key : String) : Option (Member σ) :=
  (p.position? key).bind fun position => p.members[position]?

def dispatch? (p : ProxyClass σ) (key : String) : Option (Dispatch σ) :=
  (p.member? key).map (·.dispatch)

/-- Calls a member. A key that no member has and a wrong number of arguments reach no callback. -/
def invoke (p : ProxyClass σ) (name descriptor : String) (args : List Value) : Call σ Value :=
  let key := name ++ descriptor
  match p.member? key with
  | none => throw (.noSuchMethod (qualified p.name key))
  | some member =>
    let expected := member.method.parameters.length
    if args.length = expected then member.dispatch.call p.target member.method args
    else
      throw (.illegalArgument (qualified p.name key ++ " expects " ++ toString expected ++
        " arguments, got " ++ toString args.length))

/-! ## Class layout -/

/-- The name of the field that holds the callback at a position. -/
def fieldName (index : Nat) : String := "CALLBACK_" ++ toString index

/-- The attribute that tells what kind of callback a field holds. -/
def callbackAttribute (callback : Callback σ) : Attribute :=
  ⟨"ClassweaveCallback", callback.kind.toUTF8.toList⟩

/-- A public class that is called through its own members. -/
def classAccess : UInt32 := 0x0021

/-- A private field that no source declares. -/
def fieldAccess : UInt32 := 0x1002

/-- A public method. -/
def methodAccess : UInt32 := 0x0001

def fieldHeader (index : Nat) (callback : Callback σ) : FieldHeader :=
  ⟨fieldAccess, fieldName index, callback.fieldDescriptor, none⟩

/-- Visits the contents of a callback field. -/
def emitContents (callback : Callback τ) (v : FieldVisitor σ) : Visit σ Unit := do
  v.attach (callbackAttribute callback)
  v.finish

/-- Visits the field of a callback. Where strict order is asked for, the visitor handed out for
its contents is guarded. -/
def emitField (strict : Bool) (v : ClassVisitor σ) (callback : Callback τ) (index : Nat) :
    Visit σ Unit := do
  match ← v.field (fieldHeader index callback) with
  | none => pure ()
  | some f =>
    if strict then (emitContents callback f.ordered).withOwn FieldVisitor.Phase.members
    else emitContents callback f

/-- Visits the proxy class: its header, a field for each callback, and a method for each
member. -/
def emit (p : ProxyClass τ) (v : ClassVisitor σ) : Visit σ Unit := do
  Run.of (v.level.require p.config.level "proxy synthesis")
  v.header ⟨classAccess, p.name, some p.target.className, none⟩
  p.callbacks.zipIdx.forM fun (callback, index) =>
    emitField p.config.strictOrder v callback index
  p.members.forM fun member =>
    v.method ⟨methodAccess, member.method.name, member.method.descriptor⟩
  v.finish

end ProxyClass

end ClassUnit.Proxy
