import LiveBindings.Number.Basic

namespace LiveBindings

namespace Number

/-- The whole number nearest to `numerator / denominator`, a tie going to the even one. -/
def nearestQuotient (numerator denominator : Nat) : Nat :=
  let quotient := numerator / denominator
  let twice := 2 * (numerator % denominator)
  if twice < denominator then quotient
  else if denominator < twice then quotient + 1
  else quotient + quotient % 2

/-- The magnitude nearest to `numerator / denominator` units. The bits of a magnitude are its
fifty-three leading bits plus `2 ^ 52` for every place that they were moved, so a carry out of the
leading bits lands in the exponent by itself; what would come out above the largest finite double
is infinite. -/
def nearestMagnitude (numerator denominator : Nat) : Nat :=
  let places := Nat.log2 (numerator / denominator) - 52
  min infiniteMagnitude
    (places * Nat.pow 2 52 + nearestQuotient numerator (denominator * Nat.pow 2 places))

def ofRatio (negative : Bool) (numerator denominator : Nat) : Number :=
  ofMagnitude negative (nearestMagnitude (numerator * one) denominator)

def ofInt (value : Int) : Number := ofRatio (decide (value < 0)) value.natAbs 1

def signedUnits (n : Number) : Int := if n.isNegative then -n.units else n.units

/-- The sum, rounded once. Opposite infinities have no sum, and a sum of nothing is a negative zero
only when both terms are. -/
def add (a b : Number) : Number :=
  if a.isNaN || b.isNaN then nan
  else if a.isInfinite then
    if b.isInfinite && a.isNegative != b.isNegative then nan else a
  else if b.isInfinite then b
  else
    let sum := a.signedUnits + b.signedUnits
    if sum = 0 then zero (a.isNegative && b.isNegative)
    else ofMagnitude (decide (sum < 0)) (nearestMagnitude sum.natAbs 1)

def sub (a b : Number) : Number := add a b.negate

/-- The magnitude of a product, rounded once. -/
def product (a b : Nat) : Nat := nearestMagnitude (unitsOf a * unitsOf b) one

/-- The magnitude of a quotient, rounded once. -/
def quotient (a b : Nat) : Nat := nearestMagnitude (unitsOf a * one) (unitsOf b)

end Number

end LiveBindings
