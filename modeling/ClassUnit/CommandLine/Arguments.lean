import ClassUnit.Signature.Kind

/-! # Arguments of the command line

The arguments are read left to right. Options may stand before the command, if they are not its
own, and anywhere after it. A single dash is an argument like any other, and after two dashes
every argument stands for itself. -/

namespace ClassUnit.CommandLine

open Signature (Kind)

inductive Format
  | text
  | json
  deriving DecidableEq

inductive Command
  | parse (signature : String) (kind : Option Kind) (format : Format)
  | check (signatures : List String) (kind : Option Kind)
  | proxy (file : String) (format : Format)
  deriving DecidableEq

/-- What is asked for; a configuration file may be named with any command. -/
inductive Request
  | version
  | run (config : Option String) (command : Command)
  deriving DecidableEq

inductive Verb
  | parse
  | check
  | proxy
  deriving DecidableEq

inductive Flag
  | config
  | verbose
  | version
  | kind
  | format
  deriving DecidableEq

namespace Flag

def all : List Flag := [.config, .verbose, .version, .kind, .format]

def long : Flag → String
  | .config => "config"
  | .verbose => "verbose"
  | .version => "version"
  | .kind => "kind"
  | .format => "format"

def short : Flag → Char
  | .config => 'c'
  | .verbose => 'v'
  | .version => 'V'
  | .kind => 'k'
  | .format => 'f'

def takesValue : Flag → Bool
  | .verbose | .version => false
  | _ => true

/-- The flags that may stand after a verb, or before it. -/
def allowed : Option Verb → Flag → Bool
  | _, .config => true
  | _, .verbose => true
  | verb, .version => verb.isNone
  | verb, .kind => verb = some .parse || verb = some .check
  | verb, .format => verb = some .parse || verb = some .proxy

end Flag

def Verb.ofName? : String → Option Verb
  | "parse" => some .parse
  | "check" => some .check
  | "proxy" => some .proxy
  | _ => none

def Format.ofName? : String → Option Format
  | "text" => some .text
  | "json" => some .json
  | _ => none

/-- The values of flags; a flag without a value has an empty one. -/
abbrev Values := List (Flag × String)

/-- What the arguments read so far say. -/
structure Reading where
  verb : Option Verb := none
  /-- A flag that still needs its value. -/
  pending : Option Flag := none
  /-- Two dashes have been read. -/
  literal : Bool := false
  /-- Flags since the verb, or since the start. -/
  values : Values := []
  /-- Flags before the verb. -/
  earlier : Values := []
  /-- Newest first. -/
  operands : List String := []

/-- Why reading ends before the arguments do. -/
inductive Stop
  | misuse
  | version
  deriving DecidableEq

namespace Reading

/-- The values that a flag admits. -/
def admits : Flag → String → Bool
  | .config, value => !value.isEmpty
  | .kind, value => (Kind.ofName? value).isSome
  | .format, value => (Format.ofName? value).isSome
  | _, _ => true

/-- Sets a flag, which may be done once before the verb and once after it. -/
def set (r : Reading) (flag : Flag) (value : String) : Except Stop Reading :=
  if flag = .version then .error .version
  else if r.values.any (·.1 = flag) || !admits flag value then .error .misuse
  else .ok { r with values := (flag, value) :: r.values, pending := none }

def operand (r : Reading) (arg : String) : Except Stop Reading :=
  match r.verb with
  | none => .error .misuse
  | some verb =>
    if verb ≠ .check ∧ !r.operands.isEmpty then .error .misuse
    else .ok { r with operands := arg :: r.operands }

/-- Reads a flag given by its name, with its value after an equals sign if one is given. -/
def long (r : Reading) (arg : List Char) : Except Stop Reading :=
  let name := String.ofList (arg.takeWhile (· ≠ '='))
  let attached := (arg.dropWhile (· ≠ '=')).tail?
  match Flag.all.find? fun f => f.allowed r.verb && f.long == name with
  | none => .error .misuse
  | some flag =>
    if flag.takesValue then
      match attached with
      | some value => r.set flag (String.ofList value)
      | none => .ok { r with pending := some flag }
    else if attached.isSome then .error .misuse
    else r.set flag ""

/-- Reads flags given by their letters; the rest after one that needs a value is its value. -/
def short (r : Reading) : List Char → Except Stop Reading
  | [] => .ok r
  | c :: rest =>
    match Flag.all.find? fun f => f.allowed r.verb && f.short == c with
    | none => .error .misuse
    | some flag =>
      if flag.takesValue then
        match rest with
        | [] => .ok { r with pending := some flag }
        | '=' :: value => r.set flag (String.ofList value)
        | value => r.set flag (String.ofList value)
      else
        match r.set flag "" with
        | .ok r => r.short rest
        | .error stop => .error stop

/-- Reads an argument that starts with a dash. A flag that still needs its value does not get it
from there. -/
def dashed (r : Reading) (arg : List Char) : Except Stop Reading :=
  if r.pending.isSome then .error .misuse
  else
    match arg with
    | ['-'] => .ok { r with literal := true }
    | '-' :: name => r.long name
    | letters => r.short letters

def step (r : Reading) (arg : String) : Except Stop Reading :=
  if r.literal then r.operand arg
  else
    match arg.toList with
    | '-' :: c :: rest => r.dashed (c :: rest)
    | _ =>
      match r.pending with
      | some flag => r.set flag arg
      | none =>
        match r.verb, Verb.ofName? arg with
        | none, some verb => .ok { r with verb := some verb, values := [], earlier := r.values }
        | _, _ => r.operand arg

def value? (r : Reading) (flag : Flag) : Option String := r.values.lookup flag

def kind? (r : Reading) : Option Kind := (r.value? .kind).bind Kind.ofName?

def format (r : Reading) : Format := ((r.value? .format).bind Format.ofName?).getD .text

def command? (r : Reading) : Option Command :=
  match r.verb, r.operands.reverse with
  | some .parse, [signature] => some (.parse signature r.kind? r.format)
  | some .check, signature :: more => some (.check (signature :: more) r.kind?)
  | some .proxy, [file] => if file.isEmpty then none else some (.proxy file r.format)
  | _, _ => none

/-- A configuration file named after the verb replaces one named before it. -/
def finish (r : Reading) : Except Stop Request :=
  if r.pending.isSome then .error .misuse
  else
    match r.command? with
    | some command => .ok (.run (r.value? .config <|> r.earlier.lookup .config) command)
    | none => .error .misuse

end Reading

/-- What the arguments ask for, if they are used as they should be. -/
def Request.ofArguments (args : List String) : Option Request :=
  match args.foldlM Reading.step {} with
  | .error .version => some .version
  | .error .misuse => none
  | .ok r => r.finish.toOption

end ClassUnit.CommandLine
