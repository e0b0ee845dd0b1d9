import ClassUnit.Proxy.Synthesis
import ClassUnit.Signature.Shown

/-! # Showing proxies -/

namespace ClassUnit.Proxy

open Text (Shown)

def Method.shown (m : Method) : Shown :=
  .record "MethodDescriptor" [("key", .string m.key), ("name_len", .nat m.name.utf8ByteSize),
    ("signature", m.signature.shown)] true

def levelShown : Level → Shown
  | .asm4 => .atom "Asm4"
  | .asm5 => .atom "Asm5"
  | .asm6 => .atom "Asm6"
  | .asm7 => .atom "Asm7"

def Config.shown (c : Config) : Shown :=
  .record "ProxyConfig" [("api", levelShown c.level), ("naming_suffix", .string c.suffix),
    ("strict_order", .bool c.strictOrder)] true

def Callback.shown : Callback σ → Shown
  | .interceptor _ => .atom "Callback::Interceptor(..)"
  | .passThrough => .atom "Callback::NoOp"

def Dispatch.shown (d : Dispatch σ) : Shown := .atom ("Dispatch::" ++ d.kind)

def Member.shown (m : Member σ) : Shown :=
  .record "ProxyMember" [("method", m.method.shown), ("dispatch", m.dispatch.shown),
    ("callback", .option Shown.nat m.callback)] true

/-- The bodies of a target cannot be shown. -/
def Target.shown (t : Target σ) : Shown :=
  .record "FnTarget" [("class_name", .string t.className),
    ("members", .list (t.members.map Method.shown))] false

def ProxyClass.shown (p : ProxyClass σ) : Shown :=
  .record "ProxyClass" [("name", .string p.name), ("target", .string p.target.className),
    ("callbacks", .list (p.callbacks.map Callback.shown)),
    ("members", .list (p.members.map Member.shown)), ("config", p.config.shown)] true

end ClassUnit.Proxy
