import ClassUnit.Error

/-! # Running on a state

Visitors and the members of a class act on a state that they share with their surroundings, and
may fail. A failed action leaves the state as it was when it failed: what was delivered before is
not taken back. -/

namespace ClassUnit

/-- An action on a state `σ` that may fail with an `ε`. -/
abbrev Run (ε σ : Type) := ExceptT ε (StateM σ)

/-- What a visitor does when it is called. -/
abbrev Visit (σ : Type) := Run Error σ

namespace Run

/-- The result of an action and the state that it leaves. -/
def exec (s : σ) (x : Run ε σ α) : Except ε α × σ := x.run.run s

end Run

/-- A part `σ` of a greater state `τ`. -/
structure Part (τ σ : Type) where
  get : τ → σ
  put : σ → τ → τ

namespace Part

/-- The item at a position of a list. -/
def item [Inhabited σ] (i : Nat) : Part (List σ) σ where
  get xs := xs[i]?.getD default
  put x xs := xs.set i x

/-- A part of a part. -/
def within (inner : Part σ ρ) (outer : Part τ σ) : Part τ ρ where
  get t := inner.get (outer.get t)
  put r t := outer.put (inner.put r (outer.get t)) t

end Part

namespace Run

/-- Acts on a part of a state. -/
def on (part : Part τ σ) (x : Run ε σ α) : Run ε τ α :=
  ExceptT.mk fun t =>
    let (result, s) := x.exec (part.get t)
    (result, part.put s t)

/-- Acts with a state of its own, which starts as given and is dropped at the end. -/
def withOwn (start : ρ) (x : Run ε (ρ × σ) α) : Run ε σ α :=
  ExceptT.mk fun s =>
    let (result, _, s) := x.exec (start, s)
    (result, s)

/-- Passes a value on, or fails. -/
def of (result : Except ε α) : Run ε σ α := ExceptT.mk (pure result)

end Run

end ClassUnit
