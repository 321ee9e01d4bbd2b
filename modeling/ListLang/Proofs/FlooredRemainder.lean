import ListLang.Proofs.Cells
import Mathlib.Data.Rat.Floor

/-! The remainder of integers. It is taken toward zero and then moved to the side of the divisor;
for all operands this is the remainder that belongs to the quotient rounded down, and the move stays
within 64 bits. -/

namespace ListLang

/-- The remainder of a division whose quotient is rounded down. -/
structure IsFlooredRemainder (x y r : Int) : Prop where
  value : r = x - y * ⌊(x : ℚ) / y⌋
  sign : r = 0 ∨ r.sign = y.sign
  size : |r| < |y|
  divides : y ∣ x - r

/-- The remainder lies between zero and the divisor, on its side. -/
def OnSideOf (y r : Int) : Prop := 0 ≤ r ∧ r < y ∨ y < r ∧ r ≤ 0

section Floor

variable {x y r : Int}

theorem floor_div_of_onSideOf (hr : OnSideOf y r) : ⌊(r : ℚ) / y⌋ = 0 := by
  rw [Int.floor_eq_zero_iff]
  rcases hr with ⟨hlow, hhigh⟩ | ⟨hlow, hhigh⟩
  · have hy : (0 : ℚ) < y := Int.cast_pos.2 (by omega)
    exact ⟨div_nonneg (Int.cast_nonneg hlow) hy.le, (div_lt_one hy).2 (Int.cast_lt.2 hhigh)⟩
  · have hy : (y : ℚ) < 0 := Int.cast_lt_zero.2 (by omega)
    exact ⟨div_nonneg_of_nonpos (Int.cast_nonpos.2 hhigh) hy.le,
      (div_lt_one_of_neg hy).2 (Int.cast_lt.2 hlow)⟩

theorem floor_div_of_dvd (hr : OnSideOf y r) (q : Int) : ⌊((y * q + r : Int) : ℚ) / y⌋ = q := by
  have hy : (y : ℚ) ≠ 0 := by
    rcases hr with h | h <;> exact Int.cast_ne_zero.2 (by omega)
  rw [Int.cast_add, Int.cast_mul, add_div, mul_div_cancel_left₀ _ hy, Int.floor_intCast_add,
    floor_div_of_onSideOf hr, add_zero]

theorem isFlooredRemainder_of_onSideOf (hdvd : y ∣ x - r) (hr : OnSideOf y r) :
    IsFlooredRemainder x y r := by
  obtain ⟨q, hq⟩ := hdvd
  obtain rfl : x = y * q + r := by omega
  refine ⟨?_, ?_, ?_, ⟨q, by omega⟩⟩
  · rw [floor_div_of_dvd hr]
    omega
  · rcases hr with ⟨hlow, hhigh⟩ | ⟨hlow, hhigh⟩
    · rcases hlow.eq_or_lt with hzero | hpos
      · exact Or.inl hzero.symm
      · exact Or.inr (by rw [Int.sign_eq_one_of_pos hpos, Int.sign_eq_one_of_pos (by omega)])
    · rcases hhigh.eq_or_lt with hzero | hneg
      · exact Or.inl hzero
      · exact Or.inr
          (by rw [Int.sign_eq_neg_one_of_neg hneg, Int.sign_eq_neg_one_of_neg (by omega)])
  · rcases hr with ⟨hlow, hhigh⟩ | ⟨hlow, hhigh⟩
    · rw [abs_of_nonneg hlow, abs_of_pos (by omega)]
      exact hhigh
    · rw [abs_of_nonpos hhigh, abs_of_neg (by omega)]
      omega

end Floor

/-! The remainder of the machine and its correction. -/

section Machine

variable {x y : Int64}

/-- The remainder toward zero stands on the other side of zero than the divisor. -/
def NeedsCorrection (x y : Int64) : Prop := x % y ≠ 0 ∧ (x % y < 0 ↔ ¬y < 0)

instance (x y : Int64) : Decidable (NeedsCorrection x y) :=
  inferInstanceAs (Decidable (x % y ≠ 0 ∧ (x % y < 0 ↔ ¬y < 0)))

theorem floorModInt_of_needs (h : NeedsCorrection x y) : floorModInt x y = x % y + y := by
  unfold floorModInt
  exact if_pos (by by_cases hy : y < 0 <;> simp [h.1, h.2, hy])

theorem floorModInt_of_not_needs (h : ¬NeedsCorrection x y) : floorModInt x y = x % y := by
  unfold floorModInt
  refine if_neg fun hcond => h ?_
  by_cases hy : y < 0 <;> simpa [NeedsCorrection, hy] using hcond

theorem toInt_add_of_fits (hlow : -9223372036854775808 ≤ x.toInt + y.toInt)
    (hhigh : x.toInt + y.toInt < 9223372036854775808) : (x + y).toInt = x.toInt + y.toInt := by
  rw [Int64.toInt_add]
  exact Int.bmod_eq_of_le (by omega) (by omega)

theorem toInt_ne_zero (h : y ≠ 0) : y.toInt ≠ 0 :=
  fun hzero => h (Int64.toInt_inj.1 (by simpa using hzero))

theorem needsCorrection_iff : NeedsCorrection x y ↔
    x.toInt.tmod y.toInt ≠ 0 ∧ (x.toInt.tmod y.toInt < 0 ↔ ¬y.toInt < 0) := by
  unfold NeedsCorrection
  rw [Int64.lt_iff_toInt_lt, Int64.lt_iff_toInt_lt, Int64.toInt_zero, ← Int64.toInt_mod,
    ne_eq, ne_eq, ← Int64.toInt_inj, Int64.toInt_zero]

theorem natAbs_tmod_lt (hy : y ≠ 0) : (x.toInt.tmod y.toInt).natAbs < y.toInt.natAbs := by
  rw [Int.natAbs_tmod]
  exact Nat.mod_lt _ (Int.natAbs_pos.2 (toInt_ne_zero hy))

/-- The remainder and the divisor have different signs, so their sum is no larger than either. -/
theorem correction_fits (hy : y ≠ 0) (h : NeedsCorrection x y) :
    (x % y + y).toInt = (x % y).toInt + y.toInt := by
  have hsigns := needsCorrection_iff.1 h
  have hsize : (x.toInt.tmod y.toInt).natAbs < y.toInt.natAbs := natAbs_tmod_lt hy
  have hlow := Int64.le_toInt y
  have hhigh := Int64.toInt_lt y
  refine toInt_add_of_fits ?_ ?_ <;> rw [Int64.toInt_mod] <;> omega

theorem floorModInt_onSideOf (hy : y ≠ 0) : OnSideOf y.toInt (floorModInt x y).toInt := by
  have hzero := toInt_ne_zero hy
  have hsize : (x.toInt.tmod y.toInt).natAbs < y.toInt.natAbs := natAbs_tmod_lt hy
  unfold OnSideOf
  by_cases h : NeedsCorrection x y
  · have hsigns := needsCorrection_iff.1 h
    rw [floorModInt_of_needs h, correction_fits hy h, Int64.toInt_mod]
    omega
  · have hsigns := mt needsCorrection_iff.2 h
    rw [floorModInt_of_not_needs h, Int64.toInt_mod]
    omega

theorem floorModInt_divides (hy : y ≠ 0) : y.toInt ∣ x.toInt - (floorModInt x y).toInt := by
  have hdvd : y.toInt ∣ x.toInt - x.toInt.tmod y.toInt := Int.dvd_self_sub_tmod
  by_cases h : NeedsCorrection x y
  · rw [floorModInt_of_needs h, correction_fits hy h, Int64.toInt_mod, ← Int.sub_sub]
    exact Int.dvd_sub hdvd (Int.dvd_refl _)
  · rwa [floorModInt_of_not_needs h, Int64.toInt_mod]

end Machine

/-- The remainder of two integers is that of the quotient rounded down, and where it is corrected
the sum does not wrap. By zero there is none: the operation fails, and so it does on cells, where
the remainder by zero would be a fault. -/
theorem remainder_is_floored (x y : Int64) :
    (y ≠ 0 → ∃ r, Operator.mod.apply (.int x) (.int y) = .ok (.int r) ∧
      IsFlooredRemainder x.toInt y.toInt r.toInt ∧
      (NeedsCorrection x y → r = x % y + y ∧ r.toInt = (x % y).toInt + y.toInt) ∧
      (¬NeedsCorrection x y → r = x % y)) ∧
    (y = 0 →
      Operator.mod.apply (.int x) (.int y) =
        .error (.divisionByZero .mod (Value.int x).display (Value.int y).display) ∧
      Cell.apply .mod (.ofValue (.int x)) (.ofValue (.int y)) =
        Cell.refuse (.divisionByZero .mod (Value.int x).display (Value.int y).display)) := by
  have happly := Cell.apply_toValue (.int x) (.int y) .mod
  constructor
  · intro hy
    have hcompute : Operator.mod.compute? (.int x) (.int y) = some (.int (floorModInt x y)) :=
      if_neg hy
    rw [hcompute] at happly
    refine ⟨floorModInt x y, happly, ?_, fun h => ?_, floorModInt_of_not_needs⟩
    · exact isFlooredRemainder_of_onSideOf (floorModInt_divides hy) (floorModInt_onSideOf hy)
    · rw [floorModInt_of_needs h]
      exact ⟨rfl, correction_fits hy h⟩
  · intro hy
    have hcompute : Operator.mod.compute? (.int x) (.int y) = none := if_pos hy
    rw [hcompute] at happly
    refine ⟨happly, ?_⟩
    rw [Cell.apply_ofValue]
    exact congrArg Cell.ofResult happly

theorem remainder_is_floored_limits :
    ((-1 : Int64) ≠ 0 ∧ ¬NeedsCorrection Int64.minValue (-1) ∧
      ∃ r, Operator.mod.apply (.int Int64.minValue) (.int (-1)) = .ok (.int r) ∧ r = 0 ∧
        IsFlooredRemainder Int64.minValue.toInt (-1) r.toInt) ∧
    (Int64.maxValue ≠ 0 ∧ NeedsCorrection Int64.minValue Int64.maxValue ∧
      ∃ r, Operator.mod.apply (.int Int64.minValue) (.int Int64.maxValue) = .ok (.int r) ∧
        r.toInt = 9223372036854775806 ∧
          IsFlooredRemainder Int64.minValue.toInt Int64.maxValue.toInt r.toInt) ∧
    Cell.apply .mod (.ofValue (.int Int64.minValue)) (.ofValue (.int 0)) =
      Cell.refuse (.divisionByZero .mod (Value.int Int64.minValue).display
        (Value.int 0).display) := by
  have hone : (-1 : Int64) ≠ 0 := by decide
  have hmax : Int64.maxValue ≠ 0 := by decide
  have hexact : ¬NeedsCorrection Int64.minValue (-1) := by decide
  have hneeds : NeedsCorrection Int64.minValue Int64.maxValue := by decide
  obtain ⟨r, hr, hfloored, -, hkept⟩ := (remainder_is_floored Int64.minValue (-1)).1 hone
  obtain ⟨r', hr', hfloored', hmoved, -⟩ :=
    (remainder_is_floored Int64.minValue Int64.maxValue).1 hmax
  have hzero := (remainder_is_floored Int64.minValue 0).2 rfl
  exact ⟨⟨hone, hexact, r, hr, hkept hexact, hfloored⟩,
    ⟨hmax, hneeds, r', hr', by rw [(hmoved hneeds).2]; decide, hfloored'⟩, hzero.2⟩

end ListLang
