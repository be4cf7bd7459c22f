namespace LiveBindings

/-- A range of code points, with its first and its last one. -/
abbrev CodeRange := Nat × Nat

/-- Whether a code point lies in one of some ranges, of which none after the first one that begins
beyond it is looked at. -/
def covered : List CodeRange → Nat → Bool
  | [], _ => false
  | range :: rest, point =>
    if point < range.1 then false else point ≤ range.2 || covered rest point

/-- Whether ranges stand in increasing order, each after a gap. -/
def increasing : List CodeRange → Bool
  | [] => true
  | [range] => range.1 ≤ range.2
  | range :: next :: rest =>
    range.1 ≤ range.2 && range.2 + 1 < next.1 && increasing (next :: rest)

end LiveBindings
