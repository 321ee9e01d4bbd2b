import ListLang.Number.Binary64
import Mathlib

/-! Which fractions are too large for a double. The nearest double of a fraction is an infinity
exactly from the middle between the largest double and the power of two that would come next. -/

namespace ListLang.Binary64

open Float.Model UnpackedFloat

/-- From here on the nearest double is an infinity: 2^1024 less half of the last unit before it. -/
def overflowBound : ℚ := (2 ^ 54 - 1) * 2 ^ 970

/-! Quotients. -/

section Quotient

variable {n d k : Nat}

/-- An even number is reached from half a unit below it. -/
theorem le_roundDiv_iff (hd : 0 < d) (heven : k % 2 = 0) :
    k ≤ roundDiv n d ↔ 2 * (k * d) ≤ 2 * n + d := by
  have hdiv : d * (n / d) + n % d = n := Nat.div_add_mod n d
  have hmod : n % d < d := Nat.mod_lt n hd
  have hround : roundDiv n d = if d < 2 * (n % d) ∨ 2 * (n % d) = d ∧ n / d % 2 = 1 then n / d + 1
      else n / d := by
    simp [roundDiv]
  rw [Nat.mul_comm d] at hdiv
  rw [hround]
  generalize n / d = f at hdiv ⊢
  generalize n % d = r at hdiv hmod ⊢
  rcases Nat.lt_trichotomy k (f + 1) with hlow | rfl | hhigh
  · have hle : k * d ≤ f * d := Nat.mul_le_mul_right d (Nat.lt_succ_iff.1 hlow)
    split <;> omega
  · have hnext : (f + 1) * d = f * d + d := Nat.succ_mul f d
    split <;> omega
  · have hle : (f + 2) * d ≤ k * d := Nat.mul_le_mul_right d hhigh
    rw [Nat.add_mul] at hle
    split <;> omega

theorem le_roundDiv_iff_rat (hd : 0 < d) (heven : k % 2 = 0) :
    k ≤ roundDiv n d ↔ (k : ℚ) - 1 / 2 ≤ (n : ℚ) / d := by
  have hd' : (0 : ℚ) < d := Nat.cast_pos.2 hd
  rw [le_roundDiv_iff hd heven, le_div_iff₀ hd', ← Nat.cast_le (α := ℚ)]
  push_cast
  constructor <;> intro h <;> linarith

end Quotient

/-! Units. -/

section Unit

variable {num den : Nat}

theorem scale_den_pos (hden : 0 < den) (q : Int) : 0 < (scale num den q).2 := by
  unfold scale pow2
  split
  · exact Nat.mul_pos hden (Nat.two_pow_pos _)
  · exact hden

theorem scale_eq (q : Int) :
    ((scale num den q).1 : ℚ) / (scale num den q).2 = (num : ℚ) / den / 2 ^ q := by
  unfold scale pow2
  split
  · rename_i hq
    obtain ⟨k, rfl⟩ := Int.eq_ofNat_of_zero_le hq
    simp [div_div]
  · rename_i hq
    obtain ⟨k, hk⟩ := Int.eq_ofNat_of_zero_le (a := -q) (by omega)
    obtain rfl : q = -k := by omega
    simp [div_eq_mul_inv, mul_right_comm]

/-- The quotient of a number by its unit has 53 bits, or fewer where there is no smaller unit. -/
structure FitsUnit (x : ℚ) (q : Int) : Prop where
  below : x / 2 ^ q < 2 ^ 53
  least : q = -1074 ∨ 2 ^ 52 ≤ x / 2 ^ q

theorem log2_bounds {n : Nat} (h : 0 < n) : (2 : ℚ) ^ n.log2 ≤ n ∧ (n : ℚ) < 2 ^ n.log2 * 2 := by
  have hlow := Nat.log2_self_le h.ne'
  have hhigh : n < 2 ^ n.log2 * 2 := Nat.lt_log2_self
  exact ⟨by exact_mod_cast hlow, by exact_mod_cast hhigh⟩

/-- The exponents of numerator and denominator tell that of the fraction up to one. -/
theorem quotient_bounds (hnum : 0 < num) (hden : 0 < den) :
    2 ^ 52 < (num : ℚ) / den / 2 ^ ((num.log2 : Int) - den.log2 - 53) ∧
      (num : ℚ) / den / 2 ^ ((num.log2 : Int) - den.log2 - 53) < 2 ^ 54 := by
  obtain ⟨hnumLow, hnumHigh⟩ := log2_bounds hnum
  obtain ⟨hdenLow, hdenHigh⟩ := log2_bounds hden
  have hpow : (2 : ℚ) ^ ((num.log2 : Int) - den.log2 - 53) =
      2 ^ num.log2 / 2 ^ den.log2 / 2 ^ 53 := by
    rw [zpow_sub₀ two_ne_zero, zpow_sub₀ two_ne_zero, zpow_natCast, zpow_natCast]
    rfl
  rw [hpow, div_div_eq_mul_div, mul_comm, mul_div_assoc, div_div_div_comm]
  have hnumPos : (0 : ℚ) < 2 ^ num.log2 := by positivity
  have hdenPos : (0 : ℚ) < 2 ^ den.log2 := by positivity
  -- both scaled numbers are between one and two
  have hx : 1 ≤ (num : ℚ) / 2 ^ num.log2 ∧ (num : ℚ) / 2 ^ num.log2 < 2 :=
    ⟨(one_le_div hnumPos).2 hnumLow, (div_lt_iff₀' hnumPos).2 hnumHigh⟩
  have hy : 1 ≤ (den : ℚ) / 2 ^ den.log2 ∧ (den : ℚ) / 2 ^ den.log2 < 2 :=
    ⟨(one_le_div hdenPos).2 hdenLow, (div_lt_iff₀' hdenPos).2 hdenHigh⟩
  generalize (num : ℚ) / 2 ^ num.log2 = x at hx
  generalize (den : ℚ) / 2 ^ den.log2 = y at hy
  have hlow : 1 / 2 < x / y := by
    rw [lt_div_iff₀ (by linarith)]
    linarith
  have hhigh : x / y < 2 := by
    rw [div_lt_iff₀ (by linarith)]
    linarith
  constructor <;> linarith

theorem div_lt_iff_rat {n d k : Nat} (hd : 0 < d) : n / d < k ↔ (n : ℚ) / d < k := by
  rw [Nat.div_lt_iff_lt_mul hd, div_lt_iff₀ (Nat.cast_pos.2 hd)]
  exact_mod_cast Iff.rfl

theorem fitsUnit_max {x : ℚ} {q : Int} (hlow : 2 ^ 52 ≤ x / 2 ^ q) (hhigh : x / 2 ^ q < 2 ^ 53) :
    FitsUnit x (max q (-1074)) := by
  rcases le_total (-1074) q with hq | hq
  · rw [max_eq_left hq]
    exact ⟨hhigh, Or.inr hlow⟩
  · rw [max_eq_right hq]
    have hunit : (0 : ℚ) < 2 ^ q := by positivity
    have hx : 0 ≤ x := by
      rw [le_div_iff₀ hunit] at hlow
      exact le_trans (by positivity) hlow
    have hle : x / 2 ^ (-1074 : Int) ≤ x / 2 ^ q :=
      div_le_div_of_nonneg_left hx hunit (zpow_le_zpow_right₀ one_le_two hq)
    exact ⟨hle.trans_lt hhigh, Or.inl rfl⟩

theorem unitExponent_fits (hnum : 0 < num) (hden : 0 < den) :
    FitsUnit ((num : ℚ) / den) (unitExponent num den) := by
  obtain ⟨hlow, hhigh⟩ := quotient_bounds hnum hden
  have hunit : unitExponent num den =
      max (if (num : ℚ) / den / 2 ^ ((num.log2 : Int) - den.log2 - 53) < 2 ^ 53
        then (num.log2 : Int) - den.log2 - 53 else (num.log2 : Int) - den.log2 - 53 + 1)
          (-1074) := by
    have hscaled : 0 < (scale num den ((num.log2 : Int) - den.log2 - 53)).2 := scale_den_pos hden _
    have hcut :=
      div_lt_iff_rat (n := (scale num den ((num.log2 : Int) - den.log2 - 53)).1)
        (k := pow2 53) hscaled
    rw [scale_eq] at hcut
    unfold unitExponent
    simp only [hcut]
    norm_cast
  rw [hunit]
  generalize (num : ℚ) / den = x at hlow hhigh ⊢
  generalize (num.log2 : Int) - den.log2 - 53 = q at hlow hhigh ⊢
  split
  · rename_i hsmall
    exact fitsUnit_max hlow.le hsmall
  · rename_i hlarge
    have hnext : x / 2 ^ (q + 1) = x / 2 ^ q / 2 := by rw [zpow_add_one₀ two_ne_zero, div_div]
    exact fitsUnit_max (by rw [hnext]; linarith) (by rw [hnext]; linarith)

end Unit

/-! Bits. -/

section Bits

variable {num den bits : Nat}

theorem roundBits_eq (hnum : 0 < num) : roundBits num den =
    min ((unitExponent num den + 1074).toNat * 2 ^ 52 +
      roundDiv (scale num den (unitExponent num den)).1 (scale num den (unitExponent num den)).2)
        infinityBits := by
  unfold roundBits
  rw [if_neg hnum.ne']
  rfl

theorem roundBits_le (num den : Nat) : roundBits num den ≤ infinityBits := by
  unfold roundBits
  split
  · exact Nat.zero_le _
  · exact Nat.min_le_right _ _

/-- Where a quotient is rounded beyond the largest double, by the unit that it fits. -/
theorem infinityBits_le_iff {x : ℚ} {q : Int} {n d : Nat} (hd : 0 < d)
    (hx : (n : ℚ) / d = x / 2 ^ q) (hfits : FitsUnit x q) :
    infinityBits ≤ (q + 1074).toNat * 2 ^ 52 + roundDiv n d ↔ overflowBound ≤ x := by
  have hinfinity : infinityBits = 2047 * 2 ^ 52 := rfl
  have hunit : (0 : ℚ) < 2 ^ q := by positivity
  have hreach : ∀ {k : Nat}, k % 2 = 0 → (k ≤ roundDiv n d ↔ ((k : ℚ) - 1 / 2) * 2 ^ q ≤ x) := by
    intro k heven
    rw [le_roundDiv_iff_rat hd heven, hx, le_div_iff₀ hunit]
  obtain ⟨hbelow, hleast⟩ := hfits
  rw [div_lt_iff₀ hunit] at hbelow
  rw [le_div_iff₀ hunit] at hleast
  have hlimit : (2 : ℚ) ^ (970 : Int) = 2 ^ 970 := zpow_natCast 2 970
  have hbound : (0 : ℚ) < 2 ^ 970 := by positivity
  rw [hinfinity, overflowBound]
  -- only how the unit stands to 2^970 matters from here on
  generalize (2 : ℚ) ^ 970 = u at hlimit hbound ⊢
  rcases lt_trichotomy q 971 with hq | rfl | hq
  · -- a smaller unit than the last one: the number stays below 2^1023
    have hsmall : (2 : ℚ) ^ q ≤ u :=
      hlimit ▸ zpow_le_zpow_right₀ one_le_two (Int.le_sub_one_of_lt hq)
    have hround : ¬2 ^ 53 + 2 ≤ roundDiv n d := by
      rw [hreach rfl]
      push_cast
      linarith
    exact iff_of_false (by omega) (by linarith)
  · have hunit : (2 : ℚ) ^ (971 : Int) = u * 2 := by rw [← hlimit, ← zpow_add_one₀ two_ne_zero]; rfl
    have hlast : 2047 * 2 ^ 52 ≤ ((971 : Int) + 1074).toNat * 2 ^ 52 + roundDiv n d ↔ 2 ^ 53 ≤
        roundDiv n d := by
      omega
    rw [hlast, hreach rfl, hunit]
    push_cast
    constructor <;> intro h <;> linarith
  · -- a larger unit: the number is 2^1024 at least
    have hlarge : u * 2 * 2 ≤ (2 : ℚ) ^ q := by
      rw [← hlimit, ← zpow_add_one₀ two_ne_zero, ← zpow_add_one₀ two_ne_zero]
      exact zpow_le_zpow_right₀ one_le_two (by omega)
    have hnormal : 2 ^ 52 * (2 : ℚ) ^ q ≤ x := hleast.resolve_left (by omega)
    have hround : 2 ^ 52 ≤ roundDiv n d := by
      rw [hreach rfl]
      push_cast
      linarith
    exact iff_of_true (by omega) (by linarith)

/-- The bits are those of an infinity exactly from the bound on. -/
theorem roundBits_eq_infinityBits_iff (hden : 0 < den) :
    roundBits num den = infinityBits ↔ overflowBound ≤ (num : ℚ) / den := by
  rcases Nat.eq_zero_or_pos num with rfl | hnum
  · have hzero : roundBits 0 den = 0 := by simp [roundBits]
    rw [hzero]
    refine iff_of_false (by decide) ?_
    norm_num [overflowBound]
  · rw [roundBits_eq hnum, min_eq_right_iff]
    exact infinityBits_le_iff (scale_den_pos hden _) (scale_eq _) (unitExponent_fits hnum hden)

end Bits

/-! Words. -/

section Words

variable {w : UInt64} {bits : Nat} {negative : Bool}

/-- A word is the double of its own bits, unless they are those of a NaN. -/
theorem toBits_ofBits (h : w.toNat / 2 ^ 52 % 2 ^ 11 = 2047 → w.toNat % 2 ^ 52 = 0) :
    (Float.ofBits w).toBits = w := by
  have hvalid : Format.binary64.Valid w.toBitVec := by
    refine ⟨fun hexponent hmantissa => absurd ?_ hmantissa⟩
    have he := congrArg BitVec.toNat hexponent
    apply BitVec.eq_of_toNat_eq
    rw [unpackExponent_def] at he
    rw [unpackMantissa_def]
    simp [Nat.shiftRight_eq_div_pow] at he ⊢
    exact h he
  exact UInt64.toBitVec_inj.1 (pack_unpack_of_valid hvalid)

theorem toNat_toBits (h : bits ≤ infinityBits) :
    (ofBits negative bits).toBits.toNat = bits + if negative then 2 ^ 63 else 0 := by
  have hinfinity : infinityBits = 2047 * 2 ^ 52 := rfl
  have hword : (bits + if negative then pow2 63 else 0).toUInt64.toNat = bits + if negative
      then 2 ^ 63 else 0 := by
    rw [show pow2 63 = 2 ^ 63 from rfl]
    refine Nat.mod_eq_of_lt ?_
    cases negative <;> simp <;> omega
  rw [ofBits, toBits_ofBits, hword]
  rw [hword]
  cases negative <;> simp <;> omega

theorem isInfinite_iff (x : Float) :
    isInfinite x = true ↔ x.toBits.toNat / 2 ^ 52 % 2 ^ 11 = 2047 ∧
      x.toBits.toNat % 2 ^ 52 = 0 := by
  have hmagnitude : magnitude x = if x.toBits.toNat / 2 ^ 52 % 2 ^ 11 = 2047 then
      if x.toBits.toNat % 2 ^ 52 = 0 then .infinite else .nan
    else if x.toBits.toNat / 2 ^ 52 % 2 ^ 11 = 0 then .finite (x.toBits.toNat % 2 ^ 52) (-1074)
    else .finite (x.toBits.toNat % 2 ^ 52 + 2 ^ 52)
      ((x.toBits.toNat / 2 ^ 52 % 2 ^ 11 : Nat) - 1075) := rfl
  unfold isInfinite
  rw [hmagnitude]
  split_ifs <;> simp_all

theorem isInfinite_ofBits (h : bits ≤ infinityBits) :
    isInfinite (ofBits negative bits) = true ↔ bits = infinityBits := by
  have hinfinity : infinityBits = 2047 * 2 ^ 52 := rfl
  rw [isInfinite_iff, toNat_toBits h]
  cases negative <;> simp <;> omega

/-- A fraction whose nearest double is an infinity. -/
theorem isInfinite_nearest (negative : Bool) {num den : Nat} (hden : 0 < den) :
    isInfinite (nearest negative num den) = true ↔ overflowBound ≤ (num : ℚ) / den := by
  rw [nearest, isInfinite_ofBits (roundBits_le num den), roundBits_eq_infinityBits_iff hden]

end Words

end ListLang.Binary64
