namespace LiveBindings

/-- A double precision number, as its bits. -/
structure Number where
  /-- Sign, exponent and fraction, from the highest bit down. -/
  bits : UInt64
  deriving DecidableEq, Inhabited

namespace Number

/-- The bits below the sign. They grow with the magnitude, and the infinite magnitude comes last
before those that are not numbers. -/
def magnitude (n : Number) : Nat := n.bits.toNat % Nat.pow 2 63

/-- Whether the sign bit is set, which tells the two zeros apart. -/
def isNegative (n : Number) : Bool := Nat.pow 2 63 ≤ n.bits.toNat

/-- The magnitude bits of the infinities. -/
def infiniteMagnitude : Nat := 2047 * Nat.pow 2 52

/-- Whether the bits stand for no number. -/
def isNaN (n : Number) : Bool := infiniteMagnitude < n.magnitude

def isInfinite (n : Number) : Bool := n.magnitude == infiniteMagnitude

def isZero (n : Number) : Bool := n.magnitude == 0

def ofMagnitude (negative : Bool) (magnitude : Nat) : Number :=
  ⟨UInt64.ofNat (if negative then Nat.pow 2 63 + magnitude else magnitude)⟩

/-- The pattern that stands for a result without a number. -/
def nan : Number := ⟨0x7ff8000000000000⟩

def infinity (negative : Bool) : Number := ofMagnitude negative infiniteMagnitude

/-- The zero of the given sign. -/
def zero (negative : Bool) : Number := ofMagnitude negative 0

/-- How many units of `2 ^ (-1074)` a magnitude holds. -/
def unitsOf (magnitude : Nat) : Nat :=
  if magnitude < Nat.pow 2 52 then magnitude
  else (Nat.pow 2 52 + magnitude % Nat.pow 2 52) * Nat.pow 2 (magnitude / Nat.pow 2 52 - 1)

/-- The count of units of a finite number, without its sign. -/
def units (n : Number) : Nat := unitsOf n.magnitude

/-- The number of units that make one. -/
def one : Nat := Nat.pow 2 1074

/-- The comparison of IEEE 754: what is not a number equals nothing, the two zeros are equal, and
any other numbers are equal when their bits are. -/
def equal (a b : Number) : Bool :=
  !a.isNaN && !b.isNaN && (a.bits == b.bits || (a.isZero && b.isZero))

/-- Whether two numbers are shown alike: by the same bits, or both as no number. -/
def alike (a b : Number) : Bool := a.bits == b.bits || (a.isNaN && b.isNaN)

def negate (n : Number) : Number := ofMagnitude (!n.isNegative) n.magnitude

/-- The whole number that `n` is, when it is one. Both zeros are `0`. -/
def toInt? (n : Number) : Option Int :=
  if infiniteMagnitude ≤ n.magnitude then none
  else if n.units % one = 0 then
    let whole : Int := (n.units / one : Nat)
    some (if n.isNegative then -whole else whole)
  else none

end Number

end LiveBindings
