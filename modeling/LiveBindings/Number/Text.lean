import LiveBindings.Number.Shortest

namespace LiveBindings

namespace Number

def zeros (count : Nat) : String := String.ofList (List.replicate count '0')

/-- The text of `digits * 10 ^ exponent` without an exponent. -/
def positional (digits : Nat) (exponent : Int) : String :=
  let text := Nat.repr digits
  if 0 ≤ exponent then text ++ zeros exponent.toNat
  else
    let places := (-exponent).toNat
    let padded := List.replicate (places + 1 - text.length) '0' ++ text.toList
    let whole := padded.length - places
    String.ofList (padded.take whole) ++ "." ++ String.ofList (padded.drop whole)

/-- The text of `digits * 10 ^ exponent` with one digit before the point and an exponent. -/
def scientific (digits : Nat) (exponent : Int) : String :=
  let text := (Nat.repr digits).toList
  let power := toString (exponent + ((text.length : Int) - 1))
  let fraction := text.drop 1
  String.ofList (text.take 1) ++
    (if fraction.isEmpty then "" else "." ++ String.ofList fraction) ++ "e" ++ power

/-- Writes a sign and what stands for a number without digits, or the digits as `finite` tells. -/
def written (finite : Nat → String) (n : Number) : String :=
  if n.isNaN then "NaN"
  else
    let sign := if n.isNegative then "-" else ""
    sign ++ (if n.isInfinite then "inf" else finite n.magnitude)

/-- The shown text: the shortest digits that read back, never with an exponent, and without a
fraction for a whole number. -/
def text : Number → String :=
  written fun magnitude =>
    if magnitude = 0 then "0"
    else
      let (digits, exponent) := shortest magnitude
      positional digits exponent

/-- The spelled-out text: the shortest digits that read back, with a fraction of at least one digit;
an exponent takes its place from `10 ^ 16` on and for a positive magnitude below `10 ^ (-4)`. -/
def spelled : Number → String :=
  written fun magnitude =>
    if magnitude = 0 then "0.0"
    else
      let (digits, exponent) := shortest magnitude
      let leading := exponent + ((Nat.repr digits).length : Int) - 1
      if leading < -4 || 16 ≤ leading then scientific digits exponent
      else positional digits exponent ++ (if 0 ≤ exponent then ".0" else "")

end Number

end LiveBindings
