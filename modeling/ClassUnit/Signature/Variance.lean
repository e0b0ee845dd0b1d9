/-! # Variance of type arguments -/

namespace ClassUnit.Signature

/-- How a type argument relates to its bound. -/
inductive Variance
  | extending
  | superOf
  | exact
  deriving DecidableEq

namespace Variance

def all : List Variance := [.extending, .superOf, .exact]

/-- The character that announces a bound of this variance. -/
def tag : Variance → Char
  | .extending => '+'
  | .superOf => '-'
  | .exact => '='

def ofTag? (c : Char) : Option Variance := all.find? (·.tag == c)

def name : Variance → String
  | .extending => "extends"
  | .superOf => "super"
  | .exact => "exact"

end Variance

end ClassUnit.Signature
