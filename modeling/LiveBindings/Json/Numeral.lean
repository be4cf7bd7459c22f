import LiveBindings.Number.Decimal
import LiveBindings.Number.Text

namespace LiveBindings

/-- A number of a document. -/
inductive Numeral
  | whole (value : Int)
  | double (value : Number)
  deriving DecidableEq, Inhabited

namespace Numeral

/-- The number of a literal, where an absent exponent tells a literal without one from one with a
zero. A literal without a fraction and an exponent is a whole number if that fits sixty-four bits;
a negative zero is a double, since no whole number has its sign. -/
def ofLiteral (negative : Bool) (whole fraction : List Nat) (power : Option Int) : Numeral :=
  let decimal := Decimal.ofDigits negative whole fraction (power.getD 0)
  if fraction.isEmpty && power.isNone && decimal.exponent = 0 then
    if !negative then .whole decimal.digits
    else if 0 < decimal.digits && decimal.digits ≤ Nat.pow 2 63 then .whole (-decimal.digits)
    else .double decimal.read
  else .double decimal.read

def nearest : Numeral → Number
  | .whole value => .ofInt value
  | .double value => value

/-- Whether the number is a number that a document may hold. -/
def isFinite : Numeral → Bool
  | .whole _ => true
  | .double value => !value.isNaN && !value.isInfinite

/-- The text of the number. One that no document may hold is written as null. -/
def text : Numeral → String
  | .whole value => (if value < 0 then "-" else "") ++ Nat.repr value.natAbs
  | .double value => if (Numeral.double value).isFinite then value.spelled else "null"

end Numeral

end LiveBindings
