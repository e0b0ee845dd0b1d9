/-! # Shortest decimals

The fewest decimal digits that read back as a given binary number. A finite binary number is
`mantissa * 2 ^ exponent`; the reals that round to it form an interval, whose ends belong to it
when the mantissa is even. A grid of `n` significant digits has a point in that interval exactly
when one of the two grid points around the number lies in it, so the first grid with a hit gives
the fewest digits, and the nearer of two hits is taken. -/

namespace ClassUnit.Decimal

/-- The number `digits * 10 ^ exponent`. -/
structure Scaled where
  digits : Nat
  exponent : Int

/-- A positive binary number and the interval of reals that round to it. -/
structure Binary where
  value : Rat
  low : Rat
  high : Rat
  closed : Bool

/-- The lowest 52 bits of a double are its fraction. -/
def fractionLimit : Nat := 0x10000000000000

/-- The next 11 bits are its exponent. -/
def exponentLimit : Nat := 0x800

/-- The highest bit is its sign. -/
def signLimit : Nat := fractionLimit * exponentLimit

/-- Reads the mantissa and exponent from the bits of a finite positive number. Below a power of
two the neighbours are half as far away as above it. -/
def Binary.ofBits (bits : UInt64) : Binary :=
  let fraction := bits.toNat % fractionLimit
  let biased := bits.toNat / fractionLimit % exponentLimit
  let mantissa : Nat := if biased = 0 then fraction else fractionLimit + fraction
  let exponent : Int := (if biased = 0 then 1 else biased : Nat) - 1075
  let unit : Rat := (2 : Rat) ^ exponent
  let value := (mantissa : Rat) * unit
  { value
    low := value - (if fraction = 0 ∧ 1 < biased then unit / 4 else unit / 2)
    high := value + unit / 2
    closed := mantissa % 2 = 0 }

def Binary.contains (b : Binary) (x : Rat) : Bool :=
  if b.closed then b.low ≤ x && x ≤ b.high else b.low < x && x < b.high

/-- The exponent of the leading digit: the greatest `e` in the range of doubles with
`10 ^ e ≤ x`. -/
def leadingExponent (x : Rat) : Int :=
  let down := (List.range 700).find? fun k : Nat => decide ((10 : Rat) ^ (308 - (k : Int)) ≤ x)
  308 - ((down.getD 699 : Nat) : Int)

/-- The better of the two points around the number on the grid of spacing `10 ^ exponent`. -/
def Binary.onGrid (b : Binary) (exponent : Int) : Option Nat :=
  let spacing : Rat := (10 : Rat) ^ exponent
  let below := (b.value / spacing).floor.toNat
  let above := below + 1
  let nearBelow := b.value - below * spacing
  let nearAbove := above * spacing - b.value
  match b.contains (below * spacing), b.contains (above * spacing) with
  | true, true =>
    some (if nearBelow < nearAbove then below
      else if nearAbove < nearBelow then above
      else if below % 2 = 0 then below else above)
  | true, false => some below
  | false, true => some above
  | false, false => none

/-- Removes the zeros at the end of the digits. -/
def strip : Nat → Scaled → Scaled
  | 0, s => s
  | n + 1, s =>
    if s.digits ≠ 0 ∧ s.digits % 10 = 0 then strip n ⟨s.digits / 10, s.exponent + 1⟩ else s

/-- The fewest digits that read back; seventeen always do. -/
def shortest (b : Binary) : Scaled :=
  let leading := leadingExponent b.value
  let hit := (List.range 17).findSome? fun n : Nat =>
    let exponent := leading - (n : Int)
    (b.onGrid exponent).map (⟨·, exponent⟩ : Nat → Scaled)
  strip 17 (hit.getD ⟨0, 0⟩)

/-- Digits are written positionally, with at least one after the point, while the leading digit
stands within sixteen places before the point or five after it, and with an exponent otherwise. -/
def Scaled.text (s : Scaled) : String :=
  let digits := Nat.toDigits 10 s.digits
  let count : Int := digits.length
  let point := count + s.exponent
  let zeros (n : Int) : List Char := List.replicate n.toNat '0'
  if 0 ≤ s.exponent ∧ point ≤ 16 then
    String.ofList (digits ++ zeros s.exponent) ++ ".0"
  else if 0 < point ∧ point ≤ 16 then
    String.ofList (digits.take point.toNat ++ '.' :: digits.drop point.toNat)
  else if -5 < point ∧ point ≤ 0 then
    "0." ++ String.ofList (zeros (-point) ++ digits)
  else
    let fraction := digits.drop 1
    String.ofList (digits.take 1 ++ (if fraction.isEmpty then [] else '.' :: fraction)) ++ "e" ++
      toString (point - 1)

/-- The text of a finite number; a negative zero keeps its sign. -/
def text (x : Float) : String :=
  let bits := x.toBits
  let sign := if bits.toNat / signLimit = 1 then "-" else ""
  let size := (bits.toNat % signLimit).toUInt64
  sign ++ (if size = 0 then "0.0" else (shortest (.ofBits size)).text)

end ClassUnit.Decimal
