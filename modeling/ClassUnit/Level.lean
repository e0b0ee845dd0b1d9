/-! # Protocol levels

Every visitor is bound to one `Level`. A feature that a later level introduced is refused below
that level before anything else happens. -/

namespace ClassUnit

/-- A protocol level, oldest first. -/
inductive Level
  | asm4
  | asm5
  | asm6
  | asm7
  deriving DecidableEq

namespace Level

def all : List Level := [.asm4, .asm5, .asm6, .asm7]

def latest : Level := .asm7

instance : Inhabited Level := ⟨latest⟩

def number : Level → Nat
  | .asm4 => 4
  | .asm5 => 5
  | .asm6 => 6
  | .asm7 => 7

instance : LT Level := ⟨fun a b => a.number < b.number⟩

instance (a b : Level) : Decidable (a < b) := inferInstanceAs (Decidable (a.number < b.number))

instance : LE Level := ⟨fun a b => a.number ≤ b.number⟩

instance (a b : Level) : Decidable (a ≤ b) := inferInstanceAs (Decidable (a.number ≤ b.number))

/-- The numeric form of a level keeps its number in the upper half of a 32-bit word. -/
def raw (l : Level) : Nat := l.number <<< 16

def ofRaw? (raw : Nat) : Option Level := all.find? (·.raw == raw)

def name : Level → String
  | .asm4 => "ASM4"
  | .asm5 => "ASM5"
  | .asm6 => "ASM6"
  | .asm7 => "ASM7"

/-- Level names are read without regard to the case of ASCII letters. -/
def ofName? (text : String) : Option Level := all.find? (·.name == text.toUpper)

end Level

end ClassUnit
