import Devnet.Proofs.Number.Rounding
import Mathlib

namespace Devnet.Binary64

variable {x y z : Binary64}

theorem ratio_pos (x : Binary64) : 0 < x.ratio.2 := scaled_pos x.mantissa x.exponent

theorem ratio_eq (x : Binary64) : (x.ratio.1 : ℚ) / x.ratio.2 = x.magnitude := by
  have positive : (0 : ℚ) < x.ratio.2 := by exact_mod_cast x.ratio_pos
  rw [div_eq_iff positive.ne']
  exact scaled_eq x.mantissa x.exponent

theorem mul_ratio (x y : Binary64) :
    ((x.ratio.1 * y.ratio.1 : Nat) : ℚ) / (x.ratio.2 * y.ratio.2 : Nat) = x.magnitude * y.magnitude := by
  rw [← ratio_eq, ← ratio_eq, div_mul_div_comm]
  push_cast
  rfl

theorem div_ratio (x y : Binary64) :
    ((x.ratio.1 * y.ratio.2 : Nat) : ℚ) / (x.ratio.2 * y.ratio.1 : Nat) = x.magnitude / y.magnitude := by
  rw [← ratio_eq, ← ratio_eq, div_div_div_eq]
  push_cast
  rfl

theorem ratio_fst_pos (positive : 0 < y.magnitude) : 0 < y.ratio.1 := by
  rw [← ratio_eq] at positive
  apply Nat.pos_of_ne_zero
  intro zero
  rw [zero, Nat.cast_zero, zero_div] at positive
  exact absurd positive (lt_irrefl 0)

theorem canonical_mul (product : x.mul y = some z) : z.Canonical :=
  canonical_ofRatio (Nat.mul_pos x.ratio_pos y.ratio_pos) product

theorem isSome_mul (bounded : x.magnitude * y.magnitude < (2 ^ 54 - 1) * 2 ^ (970 : Int)) :
    (x.mul y).isSome = true := by
  apply isSome_ofRatio (Nat.mul_pos x.ratio_pos y.ratio_pos)
  rw [mul_ratio]
  exact bounded

section Div

variable (positive : 0 < y.magnitude)

include positive

theorem canonical_div (quotient : x.div y = some z) : z.Canonical :=
  canonical_ofRatio (Nat.mul_pos x.ratio_pos (ratio_fst_pos positive)) quotient

theorem isSome_div (bounded : x.magnitude / y.magnitude < (2 ^ 54 - 1) * 2 ^ (970 : Int)) :
    (x.div y).isSome = true := by
  apply isSome_ofRatio (Nat.mul_pos x.ratio_pos (ratio_fst_pos positive))
  rw [div_ratio]
  exact bounded

theorem magnitude_div_le (quotient : x.div y = some z) :
    z.magnitude ≤ 2 * (x.magnitude / y.magnitude) := by
  rw [← div_ratio]
  exact magnitude_ofRatio_le_two_mul (Nat.mul_pos x.ratio_pos (ratio_fst_pos positive)) quotient

end Div

theorem tenTo_inRange : (10 : ℚ) ^ 308 < (2 ^ 54 - 1) * 2 ^ (970 : Int) := by
  have unit : (0 : ℚ) < 2 ^ (970 : Int) := by positivity
  calc
    (10 : ℚ) ^ 308 = (10 ^ 77) ^ 4 := by rw [← pow_mul]
    _ ≤ (7 / 8 * 2 ^ 256) ^ 4 := by
        apply pow_le_pow_left₀ (by positivity)
        norm_num
    _ = (7 / 8) ^ 4 * 2 ^ 54 * 2 ^ (970 : Int) := by
        have power : (2 : ℚ) ^ (970 : Int) = 2 ^ 970 := zpow_natCast 2 970
        rw [mul_pow, ← pow_mul, mul_assoc, power, ← pow_add]
    _ < (2 ^ 54 - 1) * 2 ^ (970 : Int) := by
        apply mul_lt_mul_of_pos_right _ unit
        norm_num

theorem magnitude_powerOfTen {n : Nat} (small : n ≤ 308) :
    1 / 2 ≤ (powerOfTen n).magnitude ∧
      (powerOfTen n).magnitude ≤ 10 ^ n * (1 + 1 / 2 ^ 53) := by
  have value : ((tenTo n : Nat) : ℚ) / (1 : Nat) = 10 ^ n := by
    rw [Nat.cast_one, div_one]
    exact_mod_cast rfl
  have most : (10 : ℚ) ^ n ≤ 10 ^ 308 := pow_le_pow_right₀ (by norm_num) small
  have one : (1 : ℚ) ≤ 10 ^ n := one_le_pow₀ (by norm_num)
  have bounded : ((tenTo n : Nat) : ℚ) / (1 : Nat) < (2 ^ 54 - 1) * 2 ^ (970 : Int) := by
    rw [value]
    exact most.trans_lt tenTo_inRange
  obtain ⟨p, rounded⟩ := Option.isSome_iff_exists.mp (isSome_ofRatio Nat.one_pos bounded)
  have bounds := magnitude_ofRatio_of_one_le Nat.one_pos rounded (one.trans_eq value.symm)
  have power : powerOfTen n = p := by
    rw [powerOfTen, rounded]
    rfl
  rw [value] at bounds
  rw [power]
  exact ⟨by linarith, bounds.2⟩

theorem magnitude_powerOfTen_pos {n : Nat} (small : n ≤ 308) : 0 < (powerOfTen n).magnitude :=
  lt_of_lt_of_le (by norm_num) (magnitude_powerOfTen small).1

/-- A round that divides makes a number at most four times as large, so a few rounds stay in range. -/
theorem isSome_shrink {rounds : Nat} {exponent : Int} (negative : exponent < 0)
    (bounded : x.magnitude * 4 ^ rounds ≤ 2 ^ (1000 : Int)) :
    (shrink rounds x exponent).isSome = true := by
  induction rounds generalizing x exponent with
  | zero => rfl
  | succ rounds ih =>
      have unit : (0 : ℚ) < 2 ^ (970 : Int) := by positivity
      have nonneg := x.magnitude_nonneg
      have small : x.magnitude * 4 ≤ 2 ^ (1000 : Int) := by
        refine le_trans ?_ bounded
        apply mul_le_mul_of_nonneg_left _ nonneg
        rw [pow_succ]
        exact le_mul_of_one_le_left (by norm_num) (one_le_pow₀ (by norm_num))
      have quarter {n : Nat} (reached : n ≤ 308) :
          x.magnitude / (powerOfTen n).magnitude ≤ x.magnitude * 2 := by
        rw [div_le_iff₀ (magnitude_powerOfTen_pos reached), mul_assoc]
        have half := (magnitude_powerOfTen reached).1
        exact le_mul_of_one_le_right nonneg (by linarith)
      have inRange {n : Nat} (reached : n ≤ 308) :
          x.magnitude / (powerOfTen n).magnitude < (2 ^ 54 - 1) * 2 ^ (970 : Int) := by
        have power : (2 : ℚ) ^ (1000 : Int) = 2 ^ 30 * 2 ^ (970 : Int) := by
          rw [show (1000 : Int) = 30 + 970 from rfl, zpow_add₀ two_ne_zero]
          rfl
        have less := quarter reached
        rw [power] at small
        generalize (2 : ℚ) ^ (970 : Int) = inUnits at small unit ⊢
        linarith
      rw [shrink]
      split
      · rename_i reach
        have reached : exponent.natAbs ≤ 308 := by omega
        exact isSome_div (magnitude_powerOfTen_pos reached) (inRange reached)
      · split
        · rfl
        · -- the bound leaves a factor of four for each round that is still to come
          have positive := magnitude_powerOfTen_pos (Nat.le_refl 308)
          obtain ⟨y, quotient⟩ :=
            Option.isSome_iff_exists.mp (isSome_div positive (inRange (Nat.le_refl 308)))
          rw [quotient, Option.bind_some]
          apply ih (by omega)
          have less := magnitude_div_le positive quotient
          have twice := quarter (Nat.le_refl 308)
          calc
            y.magnitude * 4 ^ rounds ≤ x.magnitude * 4 * 4 ^ rounds := by
              apply mul_le_mul_of_nonneg_right _ (by positivity)
              linarith
            _ = x.magnitude * 4 ^ (rounds + 1) := by rw [pow_succ', mul_assoc]
            _ ≤ 2 ^ (1000 : Int) := bounded

theorem canonical_shrink {rounds : Nat} {exponent : Int} (negative : exponent < 0)
    (shrunk : shrink rounds x exponent = some z) : z.Canonical := by
  induction rounds generalizing x exponent with
  | zero =>
      cases shrunk
      exact canonical_zero
  | succ rounds ih =>
      rw [shrink] at shrunk
      split at shrunk
      · rename_i reach
        exact canonical_div (magnitude_powerOfTen_pos (by omega)) shrunk
      · split at shrunk
        · cases shrunk
          exact canonical_zero
        · obtain ⟨y, -, later⟩ := Option.bind_eq_some_iff.mp shrunk
          exact ih (by omega) later

section Scientific

variable {significand : Nat} {exponent : Int}

theorem canonical_ofScientific (read : ofScientific significand exponent = some z) : z.Canonical := by
  unfold ofScientific at read
  split at read
  · cases read
  · split at read
    · cases read
      exact canonical_zero
    · split at read
      · cases read
      · split at read
        · exact canonical_mul read
        · exact canonical_shrink (by omega) read

theorem isSome_ofScientific_of_neg (bits : significand < 2 ^ 64) (negative : exponent < 0) :
    (ofScientific significand exponent).isSome = true := by
  have small : ((significand : Nat) : ℚ) / (1 : Nat) ≤ 2 ^ 64 := by
    rw [Nat.cast_one, div_one]
    exact_mod_cast bits.le
  have power : (2 : ℚ) ^ (970 : Int) = 2 ^ 100 * 2 ^ (870 : Int) := by
    rw [show (970 : Int) = 100 + 870 from rfl, zpow_add₀ two_ne_zero]
    rfl
  have wide : (1 : ℚ) ≤ 2 ^ (870 : Int) := one_le_zpow₀ one_le_two (by decide)
  obtain ⟨x, rounded⟩ : ∃ x, ofRatio significand 1 = some x := by
    apply Option.isSome_iff_exists.mp
    apply isSome_ofRatio Nat.one_pos
    rw [power]
    generalize (2 : ℚ) ^ (870 : Int) = inUnits at wide ⊢
    linarith
  have bound := magnitude_ofRatio_le_two_mul Nat.one_pos rounded
  unfold ofScientific
  rw [rounded]
  simp only
  split
  · rfl
  · rw [if_neg (by omega), if_neg (by omega)]
    apply isSome_shrink negative
    have power : (2 : ℚ) ^ (1000 : Int) = 2 ^ 130 * 2 ^ (870 : Int) := by
      rw [show (1000 : Int) = 130 + 870 from rfl, zpow_add₀ two_ne_zero]
      rfl
    rw [power]
    generalize (2 : ℚ) ^ (870 : Int) = inUnits at wide ⊢
    linarith

/-- Scaled up, a number stays in range as long as two roundings do not take it out. -/
theorem isSome_ofScientific_of_bounded (reach : exponent ≤ 308)
    (positive : 0 ≤ exponent) (bounded : significand * 10 ^ exponent * (1 + 1 / 2 ^ 53) ^ 2 <
      ((2 : ℚ) ^ 54 - 1) * 2 ^ (970 : Int)) :
    (ofScientific significand exponent).isSome = true := by
  rcases Nat.eq_zero_or_pos significand with rfl | some
  · rfl
  obtain ⟨n, rfl⟩ := Int.eq_ofNat_of_zero_le positive
  have value : ((significand : Nat) : ℚ) / (1 : Nat) = significand := by rw [Nat.cast_one, div_one]
  have one : (1 : ℚ) ≤ significand := by exact_mod_cast some
  have scale : (1 : ℚ) ≤ 10 ^ n := one_le_pow₀ (by norm_num)
  rw [zpow_natCast] at bounded
  have least : (significand : ℚ) ≤ significand * 10 ^ n * (1 + 1 / 2 ^ 53) ^ 2 := by
    rw [mul_assoc]
    apply le_mul_of_one_le_right (by linarith)
    exact one_le_mul_of_one_le_of_one_le scale (by norm_num)
  obtain ⟨x, rounded⟩ : ∃ x, ofRatio significand 1 = .some x := by
    apply Option.isSome_iff_exists.mp
    apply isSome_ofRatio Nat.one_pos
    rw [value]
    exact least.trans_lt bounded
  have upper := (magnitude_ofRatio_of_one_le Nat.one_pos rounded (one.trans_eq value.symm)).2
  have power := (magnitude_powerOfTen (n := n) (by omega)).2
  rw [value] at upper
  unfold ofScientific
  rw [rounded]
  simp only
  split
  · rfl
  · rw [if_neg (by omega), Int.toNat_natCast]
    apply isSome_mul
    refine lt_of_le_of_lt ?_ bounded
    calc
      x.magnitude * (powerOfTen n).magnitude
          ≤ (significand * (1 + 1 / 2 ^ 53)) * (10 ^ n * (1 + 1 / 2 ^ 53)) :=
            mul_le_mul upper power (magnitude_nonneg _) (by positivity)
      _ = significand * 10 ^ n * (1 + 1 / 2 ^ 53) ^ 2 := by ring

end Scientific

end Devnet.Binary64
