import LiveBindings.Number.Rounding

namespace LiveBindings

/-- A decimal number as it was read: `digits * 10 ^ exponent`, with a sign of its own so that a
negative zero can be written. -/
structure Decimal where
  negative : Bool
  digits : Nat
  exponent : Int
  deriving DecidableEq, Inhabited

namespace Decimal

/-- The whole number with one more digit, if it fits sixty-four bits. -/
def extend? (digits digit : Nat) : Option Nat :=
  if digits * 10 + digit < Nat.pow 2 64 then some (digits * 10 + digit) else none

/-- Puts the digits before a point after those that were gathered. From the first one that does not
fit on, each digit only multiplies by ten; the second result counts them. -/
def gatherWhole (gathered : Nat) : List Nat → Nat × Nat
  | [] => (gathered, 0)
  | digit :: rest =>
    match extend? gathered digit with
    | some more => gatherWhole more rest
    | none => (gathered, rest.length + 1)

/-- Puts the digits after a point after those that were gathered. From the first one that does not
fit on, none counts; the second result counts those that do. -/
def gatherFraction (gathered : Nat) : List Nat → Nat × Nat
  | [] => (gathered, 0)
  | digit :: rest =>
    match extend? gathered digit with
    | some more => ((gatherFraction more rest).1, (gatherFraction more rest).2 + 1)
    | none => (gathered, 0)

/-- The decimal of the digits before and after a point, and of an exponent. -/
def ofDigits (negative : Bool) (whole fraction : List Nat) (power : Int) : Decimal :=
  let (gathered, dropped) := gatherWhole 0 whole
  let (digits, places) := gatherFraction gathered fraction
  ⟨negative, digits, power + dropped - places⟩

/-- The magnitude of the double nearest to a power of ten. -/
def tenTo (places : Nat) : Nat := Number.nearestMagnitude (Nat.pow 10 places * Number.one) 1

/-- Divides a magnitude by a power of ten. No double holds a power above `10 ^ 308`, so a larger one
is divided by in two steps; two such steps leave nothing of a number of sixty-four bits. -/
def scaleDown (magnitude places : Nat) : Nat :=
  if places ≤ 308 then Number.quotient magnitude (tenTo places)
  else if places ≤ 616 then
    Number.quotient (Number.quotient magnitude (tenTo 308)) (tenTo (places - 308))
  else 0

/-- The number that is read. A decimal that is too large for a double reads as infinite. -/
def read (d : Decimal) : Number :=
  let whole := Number.nearestMagnitude (d.digits * Number.one) 1
  Number.ofMagnitude d.negative
    (if d.digits = 0 then 0
    else if 308 < d.exponent then Number.infiniteMagnitude
    else if 0 ≤ d.exponent then Number.product whole (tenTo d.exponent.toNat)
    else scaleDown whole (-d.exponent).toNat)

end Decimal

end LiveBindings
