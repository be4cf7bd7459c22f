import LiveBindings.Proofs.Equality

namespace LiveBindings

namespace Number

variable {magnitude : Nat} {negative : Bool}

theorem magnitude_ofMagnitude (small : magnitude < 2 ^ 63) :
    (ofMagnitude negative magnitude).magnitude = magnitude := by
  cases negative <;>
    simp only [ofMagnitude, Number.magnitude, UInt64.toNat_ofNat', Nat.pow_eq, if_true,
      Bool.false_eq_true, if_false] <;> omega

theorem isNegative_ofMagnitude (small : magnitude < 2 ^ 63) :
    (ofMagnitude negative magnitude).isNegative = negative := by
  cases negative <;>
    simp only [ofMagnitude, isNegative, UInt64.toNat_ofNat', Nat.pow_eq, if_true,
      Bool.false_eq_true, if_false, decide_eq_true_eq, decide_eq_false_iff_not] <;> omega

theorem scaled_ofMagnitude (small : magnitude < 2 ^ 63) :
    (ofMagnitude negative magnitude).scaled =
      if negative then -(unitsOf magnitude : Int) else unitsOf magnitude := by
  rw [scaled, isNegative_ofMagnitude small, units, magnitude_ofMagnitude small]

theorem isNaN_ofMagnitude (finite : magnitude ≤ infiniteMagnitude) :
    (ofMagnitude negative magnitude).isNaN = false := by
  have small : magnitude < 2 ^ 63 := finite.trans_lt (by decide)
  rw [isNaN, magnitude_ofMagnitude small, decide_eq_false_iff_not]
  exact not_lt.mpr finite

theorem isNaN_ofInt (value : Int) : (ofInt value).isNaN = false :=
  isNaN_ofMagnitude (min_le_left _ _)

/-- How far two quantities are apart. -/
def gap (a b : Nat) : Nat := (a - b) + (b - a)

section Grid

variable {quantity spacing places : Nat}

theorem nearestQuotient_cases (quantity spacing : Nat) :
    nearestQuotient quantity spacing = quantity / spacing ∧ 2 * (quantity % spacing) ≤ spacing ∨
    nearestQuotient quantity spacing = quantity / spacing + 1 ∧
      spacing ≤ 2 * (quantity % spacing) := by
  unfold nearestQuotient
  grind

/-- A multiple of the spacing is at most the one below the quantity or at least the one above. -/
theorem gap_nearestQuotient_le (positive : 0 < spacing) (point : Nat) :
    gap quantity (nearestQuotient quantity spacing * spacing) ≤ gap quantity (point * spacing) := by
  have parts : quantity / spacing * spacing + quantity % spacing = quantity :=
    Nat.div_add_mod' quantity spacing
  have rest : quantity % spacing < spacing := Nat.mod_lt _ positive
  have side : point * spacing ≤ quantity / spacing * spacing ∨
      quantity / spacing * spacing + spacing ≤ point * spacing := by
    rcases Nat.lt_or_ge (quantity / spacing) point with above | below
    · exact .inr (Nat.succ_mul _ _ ▸ Nat.mul_le_mul_right spacing above)
    · exact .inl (Nat.mul_le_mul_right spacing below)
  unfold gap
  obtain ⟨low, half⟩ | ⟨high, half⟩ := nearestQuotient_cases quantity spacing
  · rw [low]
    omega
  · rw [high, Nat.succ_mul]
    omega

/-- A point of the grid of a number of places. A carry out of its fraction is the next exponent. -/
theorem unitsOf_places {point : Nat} (leading : places = 0 ∨ 2 ^ 52 ≤ point) (bound : point ≤ 2 ^ 53) :
    unitsOf (places * 2 ^ 52 + point) = point * 2 ^ places := by
  obtain fraction | inside | carry :
      point < 2 ^ 52 ∨ 2 ^ 52 ≤ point ∧ point < 2 ^ 53 ∨ point = 2 ^ 53 := by omega
  · obtain rfl : places = 0 := leading.resolve_right (by omega)
    rw [Nat.zero_mul, Nat.zero_add, unitsOf_fraction fraction, Nat.pow_zero, Nat.mul_one]
  · obtain ⟨rest, rfl⟩ := Nat.exists_eq_add_of_le inside.1
    have small : rest < 2 ^ 52 := by omega
    have split : places * 2 ^ 52 + (2 ^ 52 + rest) = 2 ^ 52 * (places + 1) + rest := by omega
    rw [split, unitsOf_parts small]
  · have split : places * 2 ^ 52 + point = 2 ^ 52 * (places + 1 + 1) + 0 := by omega
    rw [split, unitsOf_parts (by decide), carry, Nat.pow_succ 2 places]
    omega

/-- Every magnitude is on the grid of a number of places or below the range of that grid. -/
theorem unitsOf_on_or_below (places magnitude : Nat) :
    (∃ point, unitsOf magnitude = point * 2 ^ places) ∨
      0 < places ∧ unitsOf magnitude ≤ 2 ^ 52 * 2 ^ places := by
  obtain low | ⟨exponent, fraction, small, rfl⟩ := magnitude_cases magnitude
  · rw [unitsOf_fraction low]
    rcases places.eq_zero_or_pos with rfl | positive
    · exact .inl ⟨magnitude, (Nat.mul_one magnitude).symm⟩
    · exact .inr ⟨positive, low.le.trans (Nat.le_mul_of_pos_right _ (Nat.two_pow_pos places))⟩
  · rw [unitsOf_parts small]
    rcases Nat.lt_or_ge exponent places with finer | coarser
    · refine .inr ⟨exponent.zero_le.trans_lt finer, ?_⟩
      calc (2 ^ 52 + fraction) * 2 ^ exponent
          ≤ 2 ^ 53 * 2 ^ exponent := Nat.mul_le_mul_right _ (by omega)
        _ = 2 ^ 52 * 2 ^ (exponent + 1) := by rw [Nat.pow_succ 2 exponent]; omega
        _ ≤ 2 ^ 52 * 2 ^ places := Nat.mul_le_mul_left _ (Nat.pow_le_pow_right Nat.two_pos finer)
    · obtain ⟨more, rfl⟩ := Nat.exists_eq_add_of_le coarser
      exact .inl ⟨(2 ^ 52 + fraction) * 2 ^ more, by
        rw [Nat.pow_add, Nat.mul_comm (2 ^ places), ← Nat.mul_assoc]⟩

/-- The places of a quantity leave fifty-three digits of it, the first of which is not zero unless there
are no places. -/
theorem leading_digits (places_eq : places = quantity.log2 - 52) :
    quantity / 2 ^ places < 2 ^ 53 ∧ (places = 0 ∨ 2 ^ 52 ≤ quantity / 2 ^ places) := by
  have positive : 0 < 2 ^ places := Nat.two_pow_pos places
  constructor
  · rw [Nat.div_lt_iff_lt_mul positive, ← Nat.pow_add]
    exact Nat.lt_log2_self.trans_le (Nat.pow_le_pow_right Nat.two_pos (by omega))
  · rcases places.eq_zero_or_pos with none | some
    · exact .inl none
    · have nonzero : quantity ≠ 0 := by
        rintro rfl
        simp [places_eq] at some
      rw [Nat.le_div_iff_mul_le positive, ← Nat.pow_add]
      refine .inr ((Nat.pow_le_pow_right Nat.two_pos ?_).trans (Nat.log2_self_le nonzero))
      omega

theorem nearestQuotient_places (places_eq : places = quantity.log2 - 52) :
    nearestQuotient quantity (2 ^ places) ≤ 2 ^ 53 ∧
      (places = 0 ∨ 2 ^ 52 ≤ nearestQuotient quantity (2 ^ places)) := by
  have digits := leading_digits places_eq
  obtain ⟨same, -⟩ | ⟨next, -⟩ := nearestQuotient_cases quantity (2 ^ places) <;> omega

/-- The count of units of one stays a power of an unknown exponent here, since nothing is gained from
its digits. -/
theorem exists_one_eq : ∃ exponent ≤ 1074, one = 2 ^ exponent :=
  ⟨1074, Nat.le_refl _, by decide +kernel⟩

theorem log2_lt_of_sixtyFour (bound : quantity < 2 ^ 64 * one) : quantity.log2 < 64 + 1074 := by
  obtain ⟨exponent, few, same⟩ := exists_one_eq
  by_cases zero : quantity = 0
  · rw [zero, Nat.log2_zero]
    omega
  · rw [same, ← Nat.pow_add, ← Nat.log2_lt zero] at bound
    omega

/-- No quantity in the range of whole numbers of sixty-four bits is rounded to infinity. -/
theorem nearestMagnitude_eq (bound : quantity < 2 ^ 64 * one) (places_eq : places = quantity.log2 - 52) :
    nearestMagnitude quantity 1 = places * 2 ^ 52 + nearestQuotient quantity (2 ^ places) ∧
      nearestMagnitude quantity 1 < infiniteMagnitude := by
  have few := log2_lt_of_sixtyFour bound
  have infinite : infiniteMagnitude = 2047 * 2 ^ 52 := rfl
  obtain ⟨most, -⟩ := nearestQuotient_places places_eq
  have unfolded : nearestMagnitude quantity 1 =
      min infiniteMagnitude (places * 2 ^ 52 + nearestQuotient quantity (2 ^ places)) := by
    simp only [nearestMagnitude, Nat.div_one, Nat.one_mul, Nat.pow_eq, places_eq]
  rw [unfolded, infinite]
  omega

/-- No magnitude is nearer to a quantity than the one it is rounded to. Below the range of its grid the
least point of that range is nearer than any other. -/
theorem gap_nearestMagnitude_le (bound : quantity < 2 ^ 64 * one) (other : Nat) :
    gap quantity (unitsOf (nearestMagnitude quantity 1)) ≤ gap quantity (unitsOf other) := by
  obtain ⟨places, places_eq⟩ : ∃ places, places = quantity.log2 - 52 := ⟨_, rfl⟩
  have positive : 0 < 2 ^ places := Nat.two_pow_pos places
  obtain ⟨most, leading⟩ := nearestQuotient_places places_eq
  rw [(nearestMagnitude_eq bound places_eq).1, unitsOf_places leading most]
  obtain ⟨point, on⟩ | ⟨some, below⟩ := unitsOf_on_or_below places other
  · rw [on]
    exact gap_nearestQuotient_le positive point
  · have inside : 2 ^ 52 * 2 ^ places ≤ quantity :=
      (Nat.le_div_iff_mul_le positive).mp ((leading_digits places_eq).2.resolve_left some.ne')
    refine (gap_nearestQuotient_le positive (2 ^ 52)).trans ?_
    unfold gap
    omega

end Grid

/-- A whole number in units, by its sign and its magnitude. -/
theorem mul_one_eq (value : Int) : value * one =
    if value < 0 then -((value.natAbs * one : Nat) : Int) else ((value.natAbs * one : Nat) : Int) := by
  split
  · next negative => rw [Int.natCast_mul, Int.ofNat_natAbs_of_nonpos negative.le, Int.neg_mul, Int.neg_neg]
  · next natural => rw [Int.natCast_mul, Int.natAbs_of_nonneg (Int.not_lt.mp natural)]

/-- A whole number of sixty-four bits is rounded to a finite double, and no double stands for a number
that is nearer to it. -/
theorem ofInt_nearest {value : Int} (bound : value.natAbs < 2 ^ 64) :
    (ofInt value).isInfinite = false ∧ ∀ other : Number,
      ((ofInt value).scaled - value * one).natAbs ≤ (other.scaled - value * one).natAbs := by
  obtain ⟨exponent, -, power⟩ := exists_one_eq
  have positive : 0 < one := power ▸ Nat.two_pow_pos exponent
  have fits : value.natAbs * one < 2 ^ 64 * one := Nat.mul_lt_mul_of_pos_right bound positive
  have finite := (nearestMagnitude_eq fits rfl).2
  have small : nearestMagnitude (value.natAbs * one) 1 < 2 ^ 63 := finite.trans (by decide)
  refine ⟨?_, fun other => ?_⟩
  · rw [isInfinite, ofInt, ofRatio, magnitude_ofMagnitude small, beq_eq_false_iff_ne]
    exact finite.ne
  · -- Of the other sign, no number is nearer than zero is.
    have nearest := gap_nearestMagnitude_le fits other.magnitude
    have zero := gap_nearestMagnitude_le fits 0
    have none : unitsOf 0 = 0 := rfl
    rw [mul_one_eq, ofInt, ofRatio, scaled_ofMagnitude small, scaled, units]
    rw [none] at zero
    generalize value.natAbs * one = quantity at *
    generalize unitsOf (nearestMagnitude quantity 1) = rounded at *
    generalize unitsOf other.magnitude = units at *
    unfold gap at nearest zero
    by_cases negative : value < 0 <;> cases other.isNegative <;>
      simp only [negative, decide_true, decide_false, if_true, if_false, Bool.false_eq_true] <;> omega

end Number

end LiveBindings
