import ClassUnit.Error
import ClassUnit.Json.Decode

/-! # Configuration of proxies -/

namespace ClassUnit.Proxy

open Json (Decoded Form Value once)

structure Config where
  /-- The level that the visitor of a proxy must have. -/
  level : Level := .latest
  /-- What follows the name of the target in the name of its proxy. -/
  suffix : String := "$$EnhancerByClassweave"
  /-- Calls on the fields of a proxy are checked for their order. -/
  strictOrder : Bool := false
  deriving DecidableEq

/-- Why a file has no text. -/
inductive FileFault
  | missing
  | directory
  /-- The system does not let it be read, and says why. -/
  | unreadable (complaint : String)
  | notText

def FileFault.message : FileFault → String
  | .missing => "No such file or directory (os error 2)"
  | .directory => "Is a directory (os error 21)"
  | .unreadable complaint => complaint
  | .notText => "stream did not contain valid UTF-8"

/-- What stands at a path: where there is something to read, its bytes, or the complaint of the
system that does not let them be read. -/
inductive File
  | missing
  | directory
  | regular (bytes : Except String ByteArray)
  /-- A device, a pipe, or what the system keeps from sight. -/
  | special (bytes : Except String ByteArray)

namespace File

def isRegular : File → Bool
  | .regular _ => true
  | _ => false

def bytes : File → Except FileFault ByteArray
  | .missing => .error .missing
  | .directory => .error .directory
  | .regular bytes | .special bytes => bytes.mapError .unreadable

def text (file : File) : Except FileFault String := do
  match String.fromUTF8? (← file.bytes) with
  | some text => .ok text
  | none => .error .notText

end File

/-- Why there is no configuration. -/
inductive ConfigFault
  | unreadable (fault : FileFault)
  | invalid (failure : Json.Failure)
  | emptySuffix

def ConfigFault.message : ConfigFault → String
  | .unreadable fault => "Failed to read config: " ++ fault.message
  | .invalid failure => "Invalid config: " ++ failure.message
  | .emptySuffix => "naming_suffix must not be empty"

namespace Config

/-- The members of a configuration so far. -/
structure Fields where
  level : Option Level := none
  suffix : Option String := none
  strictOrder : Option Bool := none

def form : Form := ⟨"struct ProxyConfig", ["api", "naming_suffix", "strict_order"], true⟩

def levelOfJson : Value → Decoded Level :=
  Json.stringAs fun s => (Level.ofName s).mapError (·.message)

/-- Every member may be absent, and no other is allowed. -/
def ofJson : Value → Decoded Config :=
  form.decode .inPlace ({} : Fields)
    (fun s name v =>
      if name = "api" then return { s with level := ← once name s.level (levelOfJson v) }
      else if name = "naming_suffix" then
        return { s with suffix := ← once name s.suffix (Json.string v) }
      else return { s with strictOrder := ← once name s.strictOrder (Json.bool v) })
    (fun s _ =>
      let standard : Config := {}
      return { level := s.level.getD standard.level
               suffix := s.suffix.getD standard.suffix
               strictOrder := s.strictOrder.getD standard.strictOrder })

def ofText (text : String) : Except ConfigFault Config :=
  match Json.decode ofJson text with
  | .error failure => .error (.invalid failure)
  | .ok config => if config.suffix.isEmpty then .error .emptySuffix else .ok config

def ofFile (file : File) : Except ConfigFault Config :=
  match file.text with
  | .error fault => .error (.unreadable fault)
  | .ok text => ofText text

def toJson (c : Config) : Value :=
  .object [("api", .string c.level.name), ("naming_suffix", .string c.suffix),
    ("strict_order", .bool c.strictOrder)]

end Config

end ClassUnit.Proxy
