import Mathlib.Data.List.Chain
import ClassUnit.Proofs.Signature.Spelling
import ClassUnit.Signature.Reader

/-! # Well-formed signature trees

The trees whose spelling reads back. The conditions are those of the text: a name does not hold
the character that ends it, and no name of a formal type parameter begins with a character that
stands for something else at its place. Two limits come on top, on the depth of a type and on the
number of array dimensions in a row. -/

namespace ClassUnit.Signature
open Reader (maxNesting maxDimensions isBaseCode)

/-- The number of arrays at the top of a type. -/
def TypeTree.dimensions : TypeTree → Nat
  | .array element => element.dimensions + 1
  | _ => 0

/-- The characters that end the name of a segment. -/
def endsSegment (c : Char) : Bool := c = '.' || c = ';' || c = '<'

mutual

/-- A type that reads back where a type of the given depth is expected. -/
def TypeTree.WellFormed (depth : Nat) : TypeTree → Prop
  | .base code => depth ≤ maxNesting ∧ isBaseCode code
  | .typeVariable name => depth ≤ maxNesting ∧ name ≠ "" ∧ ';' ∉ name.toList
  | .array element =>
    depth ≤ maxNesting ∧ (TypeTree.array element).dimensions ≤ maxDimensions ∧
      element.WellFormed (depth + 1)
  | .classType outer inners =>
    depth ≤ maxNesting ∧ outer.WellFormed depth ∧ segmentsWellFormed depth inners

def Segment.WellFormed (depth : Nat) : Segment → Prop
  | .mk name arguments =>
    name ≠ "" ∧ (∀ c ∈ name.toList, ¬endsSegment c) ∧ argumentsWellFormed depth arguments

/-- The bound of an argument is one deeper than the class type; an unbounded argument has no
depth. -/
def Argument.WellFormed (depth : Nat) : Argument → Prop
  | .unbounded => True
  | .bounded variance bound tagged =>
    (tagged → variance = .exact) ∧ bound.WellFormed (depth + 1)

def argumentsWellFormed (depth : Nat) : List Argument → Prop
  | [] => True
  | a :: as => a.WellFormed depth ∧ argumentsWellFormed depth as

def segmentsWellFormed (depth : Nat) : List Segment → Prop
  | [] => True
  | s :: ss => s.WellFormed depth ∧ segmentsWellFormed depth ss

end

/-- The characters that a class bound begins with. -/
def opensClassBound (c : Char) : Bool := c = 'L' || c = '[' || c = 'T'

def TypeTree.isBase : TypeTree → Bool
  | .base _ => true
  | _ => false

structure Formal.WellFormed (f : Formal) : Prop where
  name_ne : f.name ≠ ""
  colon_notMem : ':' ∉ f.name.toList
  classBound : ∀ t, f.classBound = some t → t.WellFormed 0 ∧ ¬t.isBase
  interfaceBounds : ∀ t ∈ f.interfaceBounds, t.WellFormed 0

def Formal.unbounded (f : Formal) : Bool := f.classBound.isNone && f.interfaceBounds.isEmpty

/-- The name of `g` is taken neither for the end of the formal type parameters nor, where `f` has
no bounds, for a class bound of `f`. -/
def Formal.Precedes (f g : Formal) : Prop :=
  ∀ c, g.name.toList.head? = some c → c ≠ '>' ∧ (f.unbounded → ¬opensClassBound c)

structure FormalsWellFormed (fs : List Formal) : Prop where
  all : ∀ f ∈ fs, f.WellFormed
  chain : fs.IsChain Formal.Precedes

structure ClassTree.WellFormed (t : ClassTree) : Prop where
  formals : FormalsWellFormed t.formals
  superclass : t.superclass.WellFormed 0
  interfaces : ∀ i ∈ t.interfaces, i.WellFormed 0

structure MethodTree.WellFormed (t : MethodTree) : Prop where
  formals : FormalsWellFormed t.formals
  parameters : ∀ p ∈ t.parameters, p.WellFormed 0
  result : t.result.WellFormed 0
  exceptions : ∀ e ∈ t.exceptions, e.WellFormed 0

def Document.WellFormed : Document → Prop
  | .ofClass tree => tree.WellFormed
  | .ofMethod tree => tree.WellFormed
  | .ofType tree => tree.WellFormed 0

/-! ## Depth and first character of a well-formed type -/

theorem TypeTree.WellFormed.depth_le : ∀ {t : TypeTree}, t.WellFormed depth → depth ≤ maxNesting
  | .base _, h | .typeVariable _, h | .array _, h | .classType _ _, h => h.1

theorem TypeTree.WellFormed.dimensions_le :
    ∀ {t : TypeTree}, t.WellFormed depth → t.dimensions ≤ maxDimensions
  | .base _, _ | .typeVariable _, _ | .classType _ _, _ => Nat.zero_le _
  | .array _, h => h.2.1

/-- The characters that a type begins with. -/
def opensType (c : Char) : Bool := c = '[' || c = 'T' || c = 'L' || isBaseCode c

/-- A character of a class differs from every character outside of the class. -/
theorem ne_of_class {p : Char → Bool} (h : p c) (hd : p d = false) : c ≠ d := by
  rintro rfl
  simp [hd] at h

/-- The spelling of a well-formed type begins with one of few characters. A bracket announces an
array, and what opens a class bound is not a base type. -/
theorem TypeTree.WellFormed.spelling_cons {t : TypeTree} (h : t.WellFormed depth) :
    ∃ c cs, t.spelling = c :: cs ∧ opensType c ∧ (c = '[' ↔ t.dimensions ≠ 0) ∧
      (opensClassBound c ↔ ¬t.isBase) := by
  cases t with
  | base code =>
    have hcode : isBaseCode code := h.2
    have h1 : code ≠ '[' := ne_of_class hcode rfl
    have h2 : code ≠ 'L' := ne_of_class hcode rfl
    have h3 : code ≠ 'T' := ne_of_class hcode rfl
    refine ⟨code, [], rfl, by simp [opensType, hcode], by simp [dimensions, h1], ?_⟩
    simp [opensClassBound, isBase, h1, h2, h3]
  | typeVariable name =>
    exact ⟨'T', _, rfl, rfl, by simp [dimensions], by simp [isBase, opensClassBound]⟩
  | array element =>
    exact ⟨'[', _, rfl, rfl, by simp [dimensions], by simp [isBase, opensClassBound]⟩
  | classType outer inners =>
    exact ⟨'L', _, rfl, rfl, by simp [dimensions], by simp [isBase, opensClassBound]⟩

theorem TypeTree.WellFormed.spelling_length_pos {t : TypeTree} (h : t.WellFormed depth) :
    0 < t.spelling.length := by
  obtain ⟨c, cs, hcs, -⟩ := h.spelling_cons
  simp [hcs]

end ClassUnit.Signature
