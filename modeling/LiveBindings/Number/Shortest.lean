import LiveBindings.Number.Rounding

namespace LiveBindings

namespace Number

/-- Quantities that round to a magnitude, in half units: all between the midpoints to the two
neighbouring magnitudes, with the midpoints themselves when the magnitude is even. -/
structure Basin where
  low : Nat
  high : Nat
  /-- Whether the midpoints belong to the basin. -/
  closed : Bool

def basin (magnitude : Nat) : Basin where
  low := unitsOf (magnitude - 1) + unitsOf magnitude
  high := unitsOf magnitude + unitsOf (magnitude + 1)
  closed := magnitude % 2 == 0

/-- Whether `numerator / denominator` half units lie in the basin. -/
def Basin.holds (b : Basin) (numerator denominator : Nat) : Bool :=
  if b.closed then b.low * denominator ≤ numerator && numerator ≤ b.high * denominator
  else b.low * denominator < numerator && numerator < b.high * denominator

/-- The point of the grid of spacing `10 ^ exponent` that stands for a magnitude: the nearer of its
two neighbours on the grid among those in its basin. -/
def onGrid? (magnitude : Nat) (exponent : Int) : Option Nat :=
  let scale := Nat.pow 10 (-exponent).toNat
  let spacing := 2 * one * Nat.pow 10 exponent.toNat
  let value := 2 * unitsOf magnitude * scale
  let below := value / spacing
  let fits := fun point => (basin magnitude).holds (point * spacing) scale
  if fits below && fits (below + 1) then
    some (if value - below * spacing < (below + 1) * spacing - value then below else below + 1)
  else if fits below then some below
  else if fits (below + 1) then some (below + 1)
  else none

/-- Tries the grids from `exponent` down to ever finer ones, as many as `tries` tells. -/
def firstGrid (magnitude : Nat) (exponent : Int) : (tries : Nat) → Nat × Int
  | 0 => (0, exponent)
  | tries + 1 =>
    match onGrid? magnitude exponent with
    | some point => (point, exponent)
    | none => firstGrid magnitude (exponent - 1) tries

/-- The digits and the power of ten of the shortest decimal that reads back as a positive finite
magnitude. The first grid tried is coarser than the number, and seventeen digits always suffice. -/
def shortest (magnitude : Nat) : Nat × Int :=
  let places : Int := ((Nat.log2 (unitsOf magnitude) : Int) - 1074) * 30103 / 100000
  firstGrid magnitude (places + 2) 22

end Number

end LiveBindings
