import ClassUnit.Proxy.Synthesis

/-! # Method injection

The bodies of a target's members can be supplied from outside: a lookup override answers each call
with a bean, and a replace override hands it to a named replacer. Of several overrides that match
a member, the last one counts. -/

/-! ## Blank names -/

namespace ClassUnit.Text

/-- The characters with the Unicode property `White_Space`. -/
def isBlank (c : Char) : Bool :=
  let n := c.toNat
  (9 ≤ n && n ≤ 13) || n == 0x20 || n == 0x85 || n == 0xa0 || n == 0x1680 ||
    (0x2000 ≤ n && n ≤ 0x200a) || n == 0x2028 || n == 0x2029 || n == 0x202f || n == 0x205f ||
    n == 0x3000

/-- A text without any character that can be seen. -/
def blank (s : String) : Bool := s.toList.all isBlank

end ClassUnit.Text

/-! ## Overrides -/

namespace ClassUnit.Proxy

open Json (Decoded Form Origin Value once present)

/-- What an override does with a call. -/
inductive Action
  /-- Answers with the bean of a name, or with one of the method's result type. -/
  | lookup (bean : Option String)
  /-- Hands the call to a replacer. -/
  | replace (replacer : String)
  deriving DecidableEq

structure Override where
  method : String
  /-- Restricts the override to one overload. -/
  descriptor : Option String
  action : Action
  deriving DecidableEq

namespace Override

def appliesTo (o : Override) (m : Method) : Bool :=
  o.method == m.name && o.descriptor.all (· == m.descriptor)

/-- The override that counts for a method. -/
def select (overrides : List Override) (m : Method) : Option Override :=
  overrides.reverse.find? (·.appliesTo m)

/-- What is done with the calls to a method, if an override matches it. -/
def actionFor (overrides : List Override) (m : Method) : Option Action :=
  (select overrides m).map Override.action

/-! ## JSON -/

/-- A member that is left out when there is nothing to say. -/
def optionMember (name : String) (s : Option String) : List (String × Value) :=
  s.toList.map fun s => (name, .string s)

def toJson (o : Override) : Value :=
  match o.action with
  | .lookup bean =>
    .object ([("kind", .string "lookup"), ("method", .string o.method)] ++
      optionMember "descriptor" o.descriptor ++ optionMember "bean_name" bean)
  | .replace replacer =>
    .object ([("kind", .string "replace"), ("method", .string o.method)] ++
      optionMember "descriptor" o.descriptor ++ [("replacer", .string replacer)])

/-- The members of an override so far, of whichever kind it is. -/
structure Fields where
  method : Option String := none
  descriptor : Option (Option String) := none
  bean : Option (Option String) := none
  replacer : Option String := none

def lookupForm : Form :=
  ⟨"struct variant MethodOverride::Lookup", ["method", "descriptor", "bean_name"], false⟩

def replaceForm : Form :=
  ⟨"struct variant MethodOverride::Replace", ["method", "descriptor", "replacer"], false⟩

def Fields.take (s : Fields) (name : String) (v : Value) : Decoded Fields :=
  if name = "method" then return { s with method := ← once name s.method (Json.string v) }
  else if name = "descriptor" then
    return { s with descriptor := ← once name s.descriptor (Json.optional Json.string v) }
  else if name = "bean_name" then
    return { s with bean := ← once name s.bean (Json.optional Json.string v) }
  else return { s with replacer := ← once name s.replacer (Json.string v) }

def ofJson (v : Value) : Decoded Override := do
  let (kind, rest) ← Json.tagged .inPlace "MethodOverride" "kind" ["lookup", "replace"] v
  if kind = "lookup" then
    lookupForm.decode .setAside ({} : Fields) Fields.take (fun s absent => do
      let method ← present (absent "method") s.method
      return ⟨method, s.descriptor.join, .lookup s.bean.join⟩) rest
  else
    replaceForm.decode .setAside ({} : Fields) Fields.take (fun s absent => do
      let method ← present (absent "method") s.method
      let replacer ← present (absent "replacer") s.replacer
      return ⟨method, s.descriptor.join, .replace replacer⟩) rest

def listOfJson : Value → Decoded (List Override) := Json.list ofJson

end Override

/-! ## Interceptors -/

/-- A body supplied from outside. -/
abbrev Replacer (σ : Type) := Target σ → Method → List Value → Call σ Value

/-- Where beans and replacers come from. -/
structure Container (σ : Type) where
  /-- The bean of a name, or one of a result type if there is no name. -/
  bean (name : Option String) (resultType : String) : Call σ Value
  replacer (name : String) : StateM σ (Option (Replacer σ))

/-- The position of the callback for each kind of override, in the order in which `injection`
lists them. -/
def overrideFilter (overrides : List Override) (m : Method) : Nat :=
  match Override.actionFor overrides m with
  | none => 0
  | some (.lookup _) => 1
  | some (.replace _) => 2

/-- Answers with a bean and never runs the body. A blank name is no name. -/
def lookupInterceptor (overrides : List Override) (container : Container σ) : Interceptor σ :=
  fun target m _ _ =>
    match Override.actionFor overrides m with
    | some (.lookup bean) =>
      container.bean (bean.filter fun name => !Text.blank name) m.result.text
    | _ => throw (.illegalState ("no lookup override for " ++ qualified target.className m.key))

/-- Hands the call to a replacer and never runs the body itself. -/
def replaceInterceptor (overrides : List Override) (container : Container σ) : Interceptor σ :=
  fun target m args _ =>
    match Override.actionFor overrides m with
    | some (.replace name) => do
      match ← container.replacer name with
      | some replacer => replacer target m args
      | none => throw (.illegalState ("no method replacer named '" ++ name ++ "'"))
    | _ => throw (.illegalState ("no replace override for " ++ qualified target.className m.key))

/-- The enhancer that applies overrides to a target. -/
def injection (target : Target σ) (overrides : List Override) (container : Container σ) :
    Enhancer σ where
  target
  callbacks := [.passThrough, .interceptor (lookupInterceptor overrides container),
    .interceptor (replaceInterceptor overrides container)]
  filter := overrideFilter overrides

end ClassUnit.Proxy
