import ClassUnit.CommandLine.Arguments
import ClassUnit.CommandLine.Description
import ClassUnit.Signature.Json
import ClassUnit.Signature.Shown

/-! # Commands

What each command prints, and the code that it ends with: 0, or 1 if `check` has found a
signature that does not parse, or 2 if the command could not do its work. -/

namespace ClassUnit.CommandLine

open Json (Value)
open Proxy (Config ConfigFault File ProxyClass)
open Signature (Document Kind)

structure Output where
  code : Nat
  /-- What is printed on standard output. -/
  stdout : String := ""
  /-- Why the command could not do its work. -/
  complaint : String := ""
  deriving DecidableEq

def Output.failed (complaint : String) : Output := { code := 2, complaint }

def unlines (lines : List String) : String := String.join (lines.map (· ++ "\n"))

/-! ## Signatures -/

def parse (signature : String) (kind : Option Kind) (format : Format) : Output :=
  match Document.parse signature (kind.getD (.infer signature)) with
  | .error e => .failed e.message
  | .ok d =>
    match format with
    | .text => { code := 0, stdout := unlines [d.shown.pretty 0] }
    | .json => { code := 0, stdout := unlines [d.toJson.pretty 0] }

/-- What `check` finds about one signature. -/
inductive Verdict
  | ok
  | mismatch (emitted : String)
  | invalid (error : Error)

def Verdict.isOk : Verdict → Bool
  | .ok => true
  | _ => false

def verdict (kind : Option Kind) (signature : String) : Verdict :=
  match Document.parse signature (kind.getD (.infer signature)) with
  | .error e => .invalid e
  | .ok d => if d.text = signature then .ok else .mismatch d.text

def Verdict.lines (signature : String) : Verdict → List String
  | .ok => ["ok       " ++ signature]
  | .mismatch emitted => ["mismatch " ++ signature, "  emitted " ++ emitted]
  | .invalid e => ["invalid  " ++ signature, "  " ++ e.message]

def check (signatures : List String) (kind : Option Kind) : Output :=
  let blocks := signatures.flatMap fun s => (verdict kind s).lines s
  let failures := (signatures.filter fun s => !(verdict kind s).isOk).length
  let summary := "Checked " ++ toString signatures.length ++ " signatures, " ++
    toString failures ++ " failed"
  { code := if 0 < failures then 1 else 0, stdout := unlines (blocks ++ ["", summary]) }

/-! ## Proxies -/

/-- The configuration that is used where none is named, if there is such a regular file. -/
def standardConfig : String := ".classweave.json"

def loadConfig (files : String → File) (named : Option String) : Except ConfigFault Config :=
  match named with
  | some path => Config.ofFile (files path)
  | none =>
    if (files standardConfig).isRegular then Config.ofFile (files standardConfig) else .ok {}

def layoutText (p : ProxyClass Unit) (layout : ClassNode) : String :=
  let head := layout.header.name ++ " extends " ++
    layout.header.superName.getD "java/lang/Object"
  let fields := layout.fields.map fun f =>
    "  field  " ++ f.header.name ++ " " ++ f.header.descriptor
  let methods := p.members.map fun m =>
    let callback := m.callback.elim "" fun index => " " ++ ProxyClass.fieldName index
    "  method " ++ m.method.key ++ " " ++ m.dispatch.kind ++ callback
  unlines (head :: fields ++ methods)

/-- The members of each object are in alphabetical order. -/
def layoutJson (p : ProxyClass Unit) (layout : ClassNode) : Value :=
  let fields := layout.fields.map fun f =>
    .object [("descriptor", .string f.header.descriptor), ("name", .string f.header.name)]
  let methods := p.members.map fun m =>
    .object [("callback", m.callback.elim .null fun index => .integer index),
      ("descriptor", .string m.method.descriptor), ("dispatch", .string m.dispatch.kind),
      ("name", .string m.method.name)]
  .object [("fields", .array fields), ("methods", .array methods),
    ("name", .string layout.header.name),
    ("superName", layout.header.superName.elim .null .string)]

/-- Lays out the proxy of a description. -/
def layout (description : String) (config : Config) :
    Except String (ProxyClass Unit × ClassNode) := do
  let d ← (Json.decode Description.ofJson description).mapError (·.message)
  let p ← (d.create config).mapError (·.message)
  match (p.emit (ClassNode.recorder .latest)).exec {} with
  | (.ok (), node) => pure (p, node)
  | (.error e, _) => throw e.message

def proxy (files : String → File) (config : Option String) (file : String) (format : Format) :
    Output :=
  let made : Except String (ProxyClass Unit × ClassNode) := do
    let config ← (loadConfig files config).mapError (·.message)
    let description ← (files file).text.mapError (·.message)
    layout description config
  match made with
  | .error complaint => .failed complaint
  | .ok (p, node) =>
    match format with
    | .text => { code := 0, stdout := layoutText p node }
    | .json => { code := 0, stdout := unlines [(layoutJson p node).pretty 0] }

/-! ## Requests -/

def versionText : String := "cweave 0.1.0"

namespace Request

/-- The paths whose files a request may need. -/
def paths : Request → List String
  | .run config (.proxy file _) => [config.getD standardConfig, file]
  | _ => []

def answer (files : String → File) : Request → Output
  | .version => { code := 0, stdout := unlines [versionText] }
  | .run _ (.parse signature kind format) => parse signature kind format
  | .run _ (.check signatures kind) => check signatures kind
  | .run config (.proxy file format) => proxy files config file format

end Request

/-- Runs a command line against the files that it may read. -/
def run (files : String → File) (args : List String) : Output :=
  match Request.ofArguments args with
  | none => .failed "usage: cweave [-v] [-c FILE] parse|check|proxy ..."
  | some request => request.answer files

end ClassUnit.CommandLine
