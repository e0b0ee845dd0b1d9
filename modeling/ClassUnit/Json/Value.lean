/-! # JSON values

A value keeps the members of an object in the order of its text, repetitions included. What a text
holds is not always taken in, and then `Value.unread` stands for it. -/

namespace ClassUnit.Json

inductive Value
  | null
  | bool (b : Bool)
  /-- A number without fraction or exponent that fits into 64 bits, with or without a sign. -/
  | integer (n : Int)
  /-- Any other number. -/
  | float (x : Float)
  | string (s : String)
  | array (items : List Value)
  | object (members : List (String × Value))
  /-- What a text spells as a value but nothing can hold, such as a number that is too great. Only
  reading makes one. -/
  | unread

instance : Inhabited Value := ⟨.null⟩

mutual

/-- How deep objects and arrays are nested. -/
def Value.depth : Value → Nat
  | .array items => itemsDepth items + 1
  | .object members => membersDepth members + 1
  | _ => 0

def itemsDepth : List Value → Nat
  | [] => 0
  | v :: vs => max v.depth (itemsDepth vs)

def membersDepth : List (String × Value) → Nat
  | [] => 0
  | (_, v) :: ms => max v.depth (membersDepth ms)

end

mutual

/-- Everything in the value was taken in. -/
def Value.legible : Value → Bool
  | .array items => itemsLegible items
  | .object members => membersLegible members
  | .unread => false
  | _ => true

def itemsLegible : List Value → Bool
  | [] => true
  | v :: vs => v.legible && itemsLegible vs

def membersLegible : List (String × Value) → Bool
  | [] => true
  | (_, v) :: ms => v.legible && membersLegible ms

end

end ClassUnit.Json
