import ClassUnit.Json.Printer
import ClassUnit.Json.Reader

/-! # Decoding JSON values

Building blocks for reading a value of a known form. A decoder reports the first thing that is
wrong in the order of the text; members that are absent are found only after that, in the order
in which the form declares them.

A record is an object with named members, or an array of their values in declared order. A tagged
value is an object in which one member, wherever it stands, says what the others are, or an array
that starts with the tag. To find its tag the rest of such a value is set aside, and what is
decoded from values set aside is a little less strict about tags, and worded differently in two
places; `Origin` tells the two apart.

A record may allow members that are none of its fields. Their values are skipped and not taken in:
they must be spelled as values, and may otherwise be anything, a number that is too great or an
array that is nested too deep (`Form.decode`, and `adjacent` for what is neither tag nor content).
All the rest of a text has to be taken in. A decoder accepts no `Value.unread`, and values that are
set aside are taken in whatever becomes of them, so that inside them nothing is skipped. -/

namespace ClassUnit.Json

/-- Whether a value is decoded where it stands in the text, or after it was set aside. -/
inductive Origin
  | inPlace
  | setAside
  deriving DecidableEq

/-- Why a text does not decode. -/
inductive Failure
  | malformed
  | missingField (name : String)
  | duplicateField (name : String)
  | unknownField (name : String) (expected : List String)
  | unknownVariant (name : String) (expected : List String)
  | invalidType (found : Value) (expected : String)
  | invalidValue (found : Value) (expected : String)
  | invalidLength (length : Nat) (expected : String)
  | trailingCharacters
  | expectedValue
  /-- The value has the right form, and its own type refuses it. -/
  | rejected (message : String)

/-- A value as a failure describes it. -/
def Value.describe : Value → String
  | .null => "null"
  | .bool b => "boolean `" ++ toString b ++ "`"
  | .integer n => "integer `" ++ toString n ++ "`"
  | .float x => "floating point `" ++ Decimal.text x ++ "`"
  | .string s => "string " ++ Text.quote s
  | .array _ => "sequence"
  | .object _ => "map"
  -- Not for messages: a text with such a value is malformed before anything else.
  | .unread => "value"

/-- The names that could have stood in place of a wrong one. -/
def oneOf (names : List String) : String :=
  match names.map fun name => "`" ++ name ++ "`" with
  | [] => "there are none"
  | [a] => "expected " ++ a
  | [a, b] => "expected " ++ a ++ " or " ++ b
  | names => "expected one of " ++ String.intercalate ", " names

def Failure.message : Failure → String
  | .malformed => "<syntax>"
  | .missingField name => "missing field `" ++ name ++ "`"
  | .duplicateField name => "duplicate field `" ++ name ++ "`"
  | .unknownField name expected => "unknown field `" ++ name ++ "`, " ++ oneOf expected
  | .unknownVariant name expected => "unknown variant `" ++ name ++ "`, " ++ oneOf expected
  | .invalidType found expected => "invalid type: " ++ found.describe ++ ", expected " ++ expected
  | .invalidValue found expected =>
    "invalid value: " ++ found.describe ++ ", expected " ++ expected
  | .invalidLength length expected =>
    "invalid length " ++ toString length ++ ", expected " ++ expected
  | .trailingCharacters => "trailing characters"
  | .expectedValue => "expected value"
  | .rejected message => message

abbrev Decoded (α : Type) := Except Failure α

/-- Decodes a whole text. If that fails, a part of the text that cannot be taken in comes before
any other failure. -/
def decode (decoder : Value → Decoded α) (text : String) : Decoded α :=
  match read text with
  | some v => (decoder v).mapError fun failure => if v.legible then failure else .malformed
  | none => .error .malformed

/-- Sets a value aside, if everything in it was taken in. -/
def setAside (v : Value) : Decoded Value := if v.legible then .ok v else .error .malformed

/-! ## Simple values -/

def string : Value → Decoded String
  | .string s => .ok s
  | v => .error (.invalidType v "a string")

def bool : Value → Decoded Bool
  | .bool b => .ok b
  | v => .error (.invalidType v "a boolean")

def character : Value → Decoded Char
  | .string s =>
    match s.toList with
    | [c] => .ok c
    | _ => .error (.invalidValue (.string s) "a character")
  | v => .error (.invalidType v "a character")

def list (item : Value → Decoded α) : Value → Decoded (List α)
  | .array items => items.mapM item
  | v => .error (.invalidType v "a sequence")

/-- A value or null. -/
def optional (some_ : Value → Decoded α) : Value → Decoded (Option α)
  | .null => .ok none
  | v => (some_ v).map some

/-- A string that its type reads further. -/
def stringAs (parse : String → Except String α) (v : Value) : Decoded α := do
  match parse (← string v) with
  | .ok a => .ok a
  | .error message => .error (.rejected message)

/-! ## Names of variants -/

def variantNamed (variants : List String) (name : String) : Decoded String :=
  if variants.contains name then .ok name else .error (.unknownVariant name variants)

/-- Counts things of a kind, as in "1 element". -/
def counted (n : Nat) (noun : String) : String :=
  toString n ++ " " ++ noun ++ (if n = 1 then "" else "s")

/-- The tag of a tagged value. A tag set aside may also be the number of its variant. -/
def tagName (origin : Origin) (variants : List String) : Value → Decoded String
  | .string s => variantNamed variants s
  | v@(.integer n) =>
    if origin = .setAside ∧ 0 ≤ n then
      match variants[n.toNat]? with
      | some name => .ok name
      | none =>
        .error (.invalidValue v ("variant index 0 <= i < " ++ toString variants.length))
    else .error (.invalidType v "variant identifier")
  | v => .error (.invalidType v "variant identifier")

/-- The absent content of a variant that has none. -/
def noContent (origin : Origin) : Value → Decoded Unit
  | .null => .ok ()
  | v@(.object []) => if origin = .setAside then .ok () else .error (.invalidType v "unit")
  | v => .error (.invalidType v "unit")

/-- One of several names, given as a string or as the only key of an object. -/
def choice (origin : Origin) (variants : List String) : Value → Decoded String
  | .string s => variantNamed variants s
  | .object [(name, content)] => do
    let variant ← variantNamed variants name
    noContent origin content
    pure variant
  | v@(.object members) =>
    match origin, members with
    | .inPlace, (name, content) :: _ => do
      let _ ← variantNamed variants name
      noContent origin content
      .error .expectedValue
    | .inPlace, [] => .error .expectedValue
    | .setAside, _ => .error (.invalidValue v "map with a single key")
  | v =>
    match origin with
    | .inPlace => .error .expectedValue
    | .setAside => .error (.invalidType v "string or map")

/-! ## Records -/

/-- More items than a record of `fields` fields has. -/
def surplus (origin : Origin) (fields items : Nat) : Failure :=
  match origin with
  | .inPlace => .trailingCharacters
  | .setAside => .invalidLength items (counted fields "element" ++ " in sequence")

/-- The form of a record: what it is called, its fields in declared order, and whether it allows
others. -/
structure Form where
  title : String
  fields : List String
  closed : Bool := false

/-- Takes the value of a field that has not been seen yet. -/
def once (field : String) (seen : Option α) (value : Decoded α) : Decoded (Option α) :=
  if seen.isSome then .error (.duplicateField field) else value.map some

/-- What a field is if it was seen, and a failure if not. -/
def present (failure : Failure) : Option α → Decoded α
  | some a => .ok a
  | none => .error failure

/-- Decodes a record into `σ`, a state that takes one field after another, and then into its value.
Members that are none of its fields are skipped unless the record is closed. The last argument of
`finish` says what the absence of a field is called. -/
def Form.decode (form : Form) (origin : Origin) (start : σ)
    (take : σ → String → Value → Decoded σ) (finish : σ → (String → Failure) → Decoded α) :
    Value → Decoded α
  | .object members => do
    let seen ← members.foldlM (fun s (name, v) =>
      if form.fields.contains name then take s name v
      else if form.closed then .error (.unknownField name form.fields)
      else .ok s) start
    finish seen .missingField
  | .array items => do
    let seen ← (form.fields.zip items).foldlM (fun s (name, v) => take s name v) start
    let a ← finish seen fun name =>
      .invalidLength (form.fields.idxOf name)
        (form.title ++ " with " ++ counted form.fields.length "element")
    if form.fields.length < items.length then
      .error (surplus origin form.fields.length items.length)
    else pure a
  | v => .error (.invalidType v form.title)

/-! ## Tagged values -/

/-- Splits a tagged value that is set aside into its tag and what it is the tag of. -/
def untag (origin : Origin) (title tag : String) (variants : List String) :
    Value → Decoded (String × Value)
  | .object members =>
    match members.filter (·.1 == tag) with
    | [] => .error (.missingField tag)
    | (_, v) :: more => do
      let name ← tagName origin variants v
      if more.isEmpty then pure (name, .object (members.filter (·.1 != tag)))
      else .error (.duplicateField tag)
  | .array [] => .error (.missingField tag)
  | .array (v :: rest) => do pure (← tagName origin variants v, .array rest)
  | v => .error (.invalidType v ("internally tagged enum " ++ title))

/-- Sets a tagged value aside, if it is not yet, and splits it. -/
def tagged (origin : Origin) (title tag : String) (variants : List String) (v : Value) :
    Decoded (String × Value) :=
  match origin with
  | .inPlace => do untag .inPlace title tag variants (← setAside v)
  | .setAside => untag .setAside title tag variants v

/-- The rest of a tagged value whose variant holds nothing. -/
def nothing : Value → Decoded Unit
  | .array (v :: rest) =>
    .error (.invalidLength (v :: rest).length (counted 0 "element" ++ " in sequence"))
  | _ => .ok ()

/-- Decodes a value whose tag stands beside its content, in either order. Content that comes
first is set aside until the tag is known, and other members are skipped. -/
def adjacent (title tag content : String) (variants : List String)
    (decoder : String → Origin → Value → Decoded α) : Value → Decoded α
  | .object members =>
    match members.filter fun (name, _) => name == tag || name == content with
    | [] => .error (.missingField tag)
    | (first, v) :: rest =>
      if first = tag then do
        let variant ← choice .inPlace variants v
        match rest with
        | [] => .error (.missingField content)
        | (second, v) :: rest =>
          if second = tag then .error (.duplicateField tag)
          else
            let a ← decoder variant .inPlace v
            unrepeated a rest
      else
        match rest with
        | [] => .error (.missingField tag)
        | (second, w) :: rest =>
          if second = content then .error (.duplicateField content)
          else do
            let v ← setAside v
            let variant ← choice .inPlace variants w
            let a ← decoder variant .setAside v
            unrepeated a rest
  | .array items =>
    match items with
    | [] => .error (.invalidLength 0 title)
    | v :: rest => do
      let variant ← choice .inPlace variants v
      match rest with
      | [] => .error (.invalidLength 1 title)
      | v :: rest =>
        let a ← decoder variant .inPlace v
        if rest.isEmpty then pure a else .error .trailingCharacters
  | v => .error (.invalidType v title)
where
  /-- Neither the tag nor the content may come again. -/
  unrepeated (a : α) : List (String × Value) → Decoded α
    | [] => .ok a
    | (name, _) :: _ => .error (.duplicateField name)

end ClassUnit.Json
