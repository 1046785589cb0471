import Devnet.Proofs.Number.Digits
import Devnet.Proofs.Number.Scientific
import Mathlib

/-! The decimal that a double is printed as. It has seventeen digits at most and is not above the
numbers that round to the double, so no reader finds it out of range. -/

namespace Devnet

namespace Binary64

variable {x : Binary64}

namespace GridPoint

def value (p : GridPoint) : ℚ := p.digits * 10 ^ p.power

theorem ratio_pos (p : GridPoint) : 0 < p.ratio.2 := by
  unfold ratio
  split
  · exact Nat.one_pos
  · exact Nat.pow_pos (by decide)

theorem ratio_eq (p : GridPoint) : (p.ratio.1 : ℚ) = p.value * p.ratio.2 := by
  unfold ratio value
  split
  · rename_i nonneg
    obtain ⟨k, power⟩ := Int.eq_ofNat_of_zero_le nonneg
    rw [power, Int.toNat_natCast, Nat.cast_mul, Nat.cast_one, mul_one, zpow_natCast, tenTo]
    exact congrArg _ (Nat.cast_pow 10 k)
  · rename_i negative
    obtain ⟨k, power⟩ : ∃ k : Nat, p.power = -k := ⟨(-p.power).toNat, by omega⟩
    have scale : (10 : ℚ) ^ k ≠ 0 := by positivity
    have cast : ((tenTo k : Nat) : ℚ) = 10 ^ k := Nat.cast_pow 10 k
    rw [power, neg_neg, Int.toNat_natCast, cast, zpow_neg, zpow_natCast, mul_assoc,
      inv_mul_cancel₀ scale, mul_one]

end GridPoint

/-- The ends of the numbers that round to a double. Below a power of two the doubles are closer. -/
def lowerEnd (x : Binary64) : ℚ :=
  if x.mantissa = 2 ^ 52 ∧ -1074 < x.exponent then (4 * x.mantissa - 1) * 2 ^ (x.exponent - 2)
  else (2 * x.mantissa - 1) * 2 ^ (x.exponent - 1)

def upperEnd (x : Binary64) : ℚ := (2 * x.mantissa + 1) * 2 ^ (x.exponent - 1)

theorem lessRatio_iff {a b : Nat × Nat} {r s : ℚ} (first : (a.1 : ℚ) = r * a.2)
    (second : (b.1 : ℚ) = s * b.2) (below : 0 < a.2) (above : 0 < b.2) :
    lessRatio a b = true ↔ r < s := by
  have cast : (a.1 * b.2 < b.1 * a.2) ↔ (a.1 : ℚ) * b.2 < b.1 * a.2 := by
    exact_mod_cast Iff.rfl
  have unit : (0 : ℚ) < a.2 * b.2 := by exact_mod_cast Nat.mul_pos below above
  rw [lessRatio, decide_eq_true_eq, cast, first, second, mul_assoc, mul_assoc, mul_comm (b.2 : ℚ)]
  exact mul_lt_mul_iff_of_pos_right unit

section Interval

variable (some : x.mantissa ≠ 0)

include some

theorem magnitude_pos : 0 < x.magnitude := by
  have positive : (0 : ℚ) < x.mantissa := by exact_mod_cast Nat.pos_of_ne_zero some
  unfold magnitude
  positivity

theorem interval_eq :
    (x.interval.1.1 : ℚ) = x.lowerEnd * x.interval.1.2 ∧
      (x.interval.2.1 : ℚ) = x.upperEnd * x.interval.2.2 ∧
      0 < x.interval.1.2 ∧ 0 < x.interval.2.2 := by
  have positive := Nat.pos_of_ne_zero some
  have upper := scaled_eq (2 * x.mantissa + 1) (x.exponent - 1)
  push_cast at upper
  have limit : (x.mantissa = leadingBit && leastExponent < x.exponent) = true ↔
      x.mantissa = 2 ^ 52 ∧ -1074 < x.exponent := by
    have leading : leadingBit = 2 ^ 52 := by decide
    rw [Bool.and_eq_true, decide_eq_true_eq, decide_eq_true_eq, leading, leastExponent]
  unfold interval lowerEnd
  simp only
  by_cases binade : x.mantissa = 2 ^ 52 ∧ -1074 < x.exponent
  · rw [if_pos (limit.mpr binade), if_pos binade]
    have lower := scaled_eq (4 * x.mantissa - 1) (x.exponent - 2)
    rw [Nat.cast_sub (by omega)] at lower
    push_cast at lower
    exact ⟨lower, upper, scaled_pos _ _, scaled_pos _ _⟩
  · rw [if_neg (fun both => binade (limit.mp both)), if_neg binade]
    have lower := scaled_eq (2 * x.mantissa - 1) (x.exponent - 1)
    rw [Nat.cast_sub (by omega)] at lower
    push_cast at lower
    exact ⟨lower, upper, scaled_pos _ _, scaled_pos _ _⟩

/-- A decimal reads back between the ends; on one of them if the mantissa is even. -/
theorem readsBack_iff (p : GridPoint) :
    x.readsBack p = true ↔
      if x.mantissa % 2 = 0 then x.lowerEnd ≤ p.value ∧ p.value ≤ x.upperEnd
      else x.lowerEnd < p.value ∧ p.value < x.upperEnd := by
  obtain ⟨lower, upper, lowerPos, upperPos⟩ := interval_eq some
  have beneath := lessRatio_iff lower p.ratio_eq lowerPos p.ratio_pos
  have lessLower := lessRatio_iff p.ratio_eq lower p.ratio_pos lowerPos
  have within := lessRatio_iff p.ratio_eq upper p.ratio_pos upperPos
  have beyond := lessRatio_iff upper p.ratio_eq upperPos p.ratio_pos
  unfold readsBack
  simp only
  split
  · rw [Bool.and_eq_true, Bool.not_eq_true', Bool.not_eq_true', ← Bool.not_eq_true,
      ← Bool.not_eq_true, lessLower, beyond, not_lt, not_lt]
  · rw [Bool.and_eq_true, beneath, within]

theorem ends_apart (canonical : x.Canonical) :
    x.lowerEnd ≤ x.magnitude * (1 - 1 / 2 ^ 54) ∧ x.magnitude * (1 + 1 / 2 ^ 54) ≤ x.upperEnd := by
  have mantissa : (x.mantissa : ℚ) + 1 ≤ 2 ^ 53 := by
    exact_mod_cast Nat.succ_le_of_lt canonical.mantissa
  have positive : (1 : ℚ) ≤ x.mantissa := by exact_mod_cast Nat.pos_of_ne_zero some
  have unit : (0 : ℚ) < 2 ^ x.exponent := by positivity
  have half : (2 : ℚ) ^ (x.exponent - 1) = 2 ^ x.exponent / 2 := zpow_sub_one₀ two_ne_zero _
  have quarter : (2 : ℚ) ^ (x.exponent - 2) = 2 ^ x.exponent / 4 := by
    rw [zpow_sub₀ two_ne_zero]
    norm_num
  have scaled {a b : ℚ} (less : a ≤ b) : a * 2 ^ x.exponent ≤ b * 2 ^ x.exponent :=
    mul_le_mul_of_nonneg_right less unit.le
  unfold lowerEnd upperEnd magnitude
  rw [half, quarter]
  constructor
  · split
    · rename_i binade
      have full : (x.mantissa : ℚ) = 2 ^ 52 := by exact_mod_cast binade.1
      rw [full]
      have same := scaled (a := (4 * 2 ^ 52 - 1) / 4) (b := 2 ^ 52 * (1 - 1 / 2 ^ 54)) (by norm_num)
      linarith
    · have same := scaled (a := (2 * x.mantissa - 1) / 2) (b := x.mantissa * (1 - 1 / 2 ^ 54))
        (by linarith)
      linarith
  · have same := scaled (a := x.mantissa * (1 + 1 / 2 ^ 54)) (b := (2 * x.mantissa + 1) / 2)
      (by linarith)
    linarith

theorem lowerEnd_pos : 0 < x.lowerEnd := by
  have positive : (1 : ℚ) ≤ x.mantissa := by exact_mod_cast Nat.pos_of_ne_zero some
  unfold lowerEnd
  split
  · exact mul_pos (by linarith) (by positivity)
  · exact mul_pos (by linarith) (by positivity)

end Interval

section Leading

variable {num den : Nat} (denominator : 0 < den)

include denominator

theorem leading_whole (large : den ≤ num) :
    let lead : Int := (Nat.toDigits 10 (num / den)).length - 1
    (10 : ℚ) ^ lead ≤ num / den ∧ (num : ℚ) / den < 10 ^ (lead + 1) := by
  have unit : (0 : ℚ) < den := by exact_mod_cast denominator
  have whole := Nat.div_pos large denominator
  have least := Digits.pow_length_le whole
  have most := Digits.lt_pow_length (num / den)
  obtain ⟨k, length⟩ : ∃ k, (Nat.toDigits 10 (num / den)).length = k + 1 :=
    Nat.exists_eq_add_one.mpr Nat.length_toDigits_pos
  rw [length] at least most ⊢
  rw [Nat.add_sub_cancel, Nat.le_div_iff_mul_le denominator] at least
  rw [Nat.div_lt_iff_lt_mul denominator] at most
  push_cast
  rw [add_sub_cancel_right, zpow_natCast, ← Nat.cast_add_one, zpow_natCast, le_div_iff₀ unit,
    div_lt_iff₀ unit]
  exact ⟨by exact_mod_cast least, by exact_mod_cast most⟩

theorem leading_fraction (some : 0 < num) (small : num < den) :
    let lead : Int := -(Nat.toDigits 10 ((den + num - 1) / num - 1)).length
    (10 : ℚ) ^ lead ≤ num / den ∧ (num : ℚ) / den < 10 ^ (lead + 1) := by
  have unit : (0 : ℚ) < den := by exact_mod_cast denominator
  have two : 2 ≤ (den + num - 1) / num := by
    rw [Nat.le_div_iff_mul_le some]
    omega
  have inverse : ((den + num - 1) / num - 1) * num < den := by
    have rounded := Nat.div_mul_le_self (den + num - 1) num
    rw [Nat.sub_mul, Nat.one_mul]
    omega
  have above : den ≤ ((den + num - 1) / num - 1 + 1) * num := by
    have rounded := Nat.lt_div_mul_add (a := den + num - 1) some
    rw [Nat.sub_add_cancel (by omega)]
    omega
  have positive : 0 < (den + num - 1) / num - 1 := by omega
  generalize (den + num - 1) / num - 1 = q at inverse above positive ⊢
  have least := Digits.pow_length_le positive
  have most := Digits.lt_pow_length q
  obtain ⟨k, length⟩ : ∃ k, (Nat.toDigits 10 q).length = k + 1 :=
    Nat.exists_eq_add_one.mpr Nat.length_toDigits_pos
  rw [length] at least most ⊢
  rw [Nat.add_sub_cancel] at least
  have low : den ≤ num * 10 ^ (k + 1) := by
    rw [Nat.mul_comm]
    exact above.trans (Nat.mul_le_mul_right num most)
  have high : num * 10 ^ k < den := by
    rw [Nat.mul_comm]
    exact (Nat.mul_le_mul_right num least).trans_lt inverse
  have next : -((k + 1 : Nat) : Int) + 1 = -(k : Int) := by omega
  simp only
  rw [next, zpow_neg, zpow_neg, zpow_natCast, zpow_natCast, ← one_div, ← one_div,
    div_le_div_iff₀ (by positivity) unit, div_lt_div_iff₀ unit (by positivity), one_mul]
  exact ⟨by exact_mod_cast low, by exact_mod_cast high⟩

end Leading

theorem leadingPower_bounds (positive : 0 < x.magnitude) :
    10 ^ x.leadingPower ≤ x.magnitude ∧ x.magnitude < 10 ^ (x.leadingPower + 1) := by
  have some := ratio_fst_pos positive
  rw [← ratio_eq]
  unfold leadingPower
  simp only
  split
  · rename_i large
    exact leading_whole x.ratio_pos large
  · rename_i small
    exact leading_fraction x.ratio_pos some (Nat.lt_of_not_le small)

def gridSteps (x : Binary64) (power : Int) : Nat × Nat :=
  if 0 ≤ power then (x.ratio.1, x.ratio.2 * tenTo power.toNat)
  else (x.ratio.1 * tenTo (-power).toNat, x.ratio.2)

theorem gridSteps_eq (x : Binary64) (power : Int) :
    ((x.gridSteps power).1 : ℚ) / (x.gridSteps power).2 = x.magnitude / 10 ^ power := by
  have cast (k : Nat) : ((tenTo k : Nat) : ℚ) = 10 ^ k := Nat.cast_pow 10 k
  rw [← ratio_eq]
  unfold gridSteps
  split
  · rename_i nonneg
    obtain ⟨k, rfl⟩ := Int.eq_ofNat_of_zero_le nonneg
    rw [Int.toNat_natCast, Nat.cast_mul, cast, zpow_natCast, div_div]
  · rename_i negative
    obtain ⟨k, rfl⟩ : ∃ k : Nat, power = -k := ⟨(-power).toNat, by omega⟩
    rw [neg_neg, Int.toNat_natCast, Nat.cast_mul, cast, zpow_neg, zpow_natCast, div_inv_eq_mul,
      mul_div_right_comm]

def gridBelow (x : Binary64) (power : Int) : GridPoint :=
  ⟨(x.gridSteps power).1 / (x.gridSteps power).2, power⟩

def gridAbove (x : Binary64) (power : Int) : GridPoint :=
  ⟨(x.gridSteps power).1 / (x.gridSteps power).2 + 1, power⟩

theorem grid_around (x : Binary64) (power : Int) :
    (x.gridBelow power).value ≤ x.magnitude ∧ x.magnitude < (x.gridAbove power).value ∧
      (x.gridAbove power).value = (x.gridBelow power).value + 10 ^ power := by
  have unit : (0 : ℚ) < 10 ^ power := by positivity
  have steps := x.gridSteps_eq power
  have floor := Nat.floor_div_eq_div (K := ℚ) (x.gridSteps power).1 (x.gridSteps power).2
  rw [steps] at floor
  have nonneg : 0 ≤ x.magnitude / 10 ^ power := div_nonneg x.magnitude_nonneg unit.le
  have low := Nat.floor_le nonneg
  have high := Nat.lt_floor_add_one (x.magnitude / 10 ^ power)
  rw [floor] at low high
  rw [le_div_iff₀ unit] at low
  rw [div_lt_iff₀ unit] at high
  refine ⟨low, ?_, ?_⟩
  · rw [GridPoint.value, gridAbove, Nat.cast_add_one]
    exact high
  · rw [GridPoint.value, GridPoint.value, gridAbove, gridBelow, Nat.cast_add_one, add_mul, one_mul]

theorem onGrid_cases (x : Binary64) (power : Int) :
    (∃ p, x.onGrid power = some p ∧ x.readsBack p = true ∧
      (p = x.gridBelow power ∨ p = x.gridAbove power)) ∨
    (x.onGrid power = none ∧ x.readsBack (x.gridBelow power) = false ∧
      x.readsBack (x.gridAbove power) = false) := by
  unfold onGrid
  simp only
  rw [← gridSteps]
  split
  · rename_i below above
    refine Or.inl ⟨_, rfl, ?_⟩
    split
    · exact ⟨below, Or.inl rfl⟩
    · exact ⟨above, Or.inr rfl⟩
  · rename_i below _
    exact Or.inl ⟨_, rfl, below, Or.inl rfl⟩
  · rename_i _ above
    exact Or.inl ⟨_, rfl, above, Or.inr rfl⟩
  · rename_i below above
    exact Or.inr ⟨rfl, below, above⟩

structure Printable (x : Binary64) (p : GridPoint) : Prop where
  positive : 0 < p.digits
  digits : p.digits ≤ 10 ^ 17
  value : p.value ≤ x.upperEnd

section Shortest

variable (canonical : x.Canonical) (some : x.mantissa ≠ 0)

include some

theorem printable_onGrid {power : Int} (near : x.leadingPower - 16 ≤ power) {p : GridPoint}
    (found : x.onGrid power = .some p) : Printable x p := by
  rcases x.onGrid_cases power with ⟨q, same, back, neighbour⟩ | ⟨absent, -⟩
  · obtain rfl : q = p := Option.some.inj (same.symm.trans found)
    have ends : x.lowerEnd ≤ q.value ∧ q.value ≤ x.upperEnd := by
      rw [readsBack_iff some] at back
      split at back
      · exact back
      · exact ⟨back.1.le, back.2.le⟩
    have unit : (0 : ℚ) < 10 ^ power := by positivity
    have above : q.digits ≤ (x.gridBelow power).digits + 1 := by
      rcases neighbour with rfl | rfl
      · exact Nat.le_succ _
      · exact Nat.le_refl _
    have below : ((x.gridBelow power).digits : ℚ) < 10 ^ 17 := by
      refine lt_of_mul_lt_mul_right ?_ unit.le
      calc
        (x.gridBelow power).value ≤ x.magnitude := (x.grid_around power).1
        _ < 10 ^ (x.leadingPower + 1) := (leadingPower_bounds (magnitude_pos some)).2
        _ ≤ 10 ^ (17 + power) := zpow_le_zpow_right₀ (by norm_num) (by omega)
        _ = 10 ^ 17 * 10 ^ power := zpow_add₀ (by norm_num) 17 power
    have few : (x.gridBelow power).digits < 10 ^ 17 := by exact_mod_cast below
    refine ⟨?_, by omega, ends.2⟩
    apply Nat.pos_of_ne_zero
    intro zero
    have positive := (lowerEnd_pos some).trans_le ends.1
    rw [GridPoint.value, zero, Nat.cast_zero, zero_mul] at positive
    exact absurd positive (lt_irrefl 0)
  · rw [absent] at found
    cases found

include canonical

/-- Seventeen digits are enough: half a unit of the last one is less than what rounds to the number. -/
theorem isSome_onGrid : (x.onGrid (x.leadingPower - 16)).isSome = true := by
  have positive := magnitude_pos some
  obtain ⟨lower, upper⟩ := ends_apart some canonical
  obtain ⟨below, above, apart⟩ := x.grid_around (x.leadingPower - 16)
  have unit : (10 : ℚ) ^ (x.leadingPower - 16) * 10 ^ 16 ≤ x.magnitude := by
    have product : (10 : ℚ) ^ (x.leadingPower - 16 + 16) =
        10 ^ (x.leadingPower - 16) * 10 ^ 16 := zpow_add₀ (by norm_num) _ 16
    rw [← product, sub_add_cancel]
    exact (leadingPower_bounds positive).1
  have between {p : GridPoint} (low : x.lowerEnd < p.value) (high : p.value < x.upperEnd) :
      x.readsBack p = true := by
    rw [readsBack_iff some]
    split
    · exact ⟨low.le, high.le⟩
    · exact ⟨low, high⟩
  rcases x.onGrid_cases (x.leadingPower - 16) with ⟨p, found, -⟩ | ⟨-, notBelow, notAbove⟩
  · rw [found]
    rfl
  · exfalso
    rcases le_total (2 * (x.magnitude - (x.gridBelow (x.leadingPower - 16)).value))
        (10 ^ (x.leadingPower - 16)) with near | far
    · rw [between (by linarith) (by linarith)] at notBelow
      cases notBelow
    · rw [between (by linarith) (by linarith)] at notAbove
      cases notAbove

theorem printable_shortestFrom {rounds : Nat} {power : Int}
    (last : power - rounds = x.leadingPower - 16) : Printable x (x.shortestFrom rounds power) := by
  induction rounds generalizing power with
  | zero =>
      obtain rfl : power = x.leadingPower - 16 := by omega
      obtain ⟨p, found⟩ := Option.isSome_iff_exists.mp (isSome_onGrid canonical some)
      rw [shortestFrom, found]
      exact printable_onGrid some (Int.le_refl _) found
  | succ rounds ih =>
      rw [shortestFrom]
      cases found : x.onGrid power with
      | none => exact ih (by omega)
      | some p => exact printable_onGrid some (by omega) found

end Shortest

theorem Printable.dropZeros {p : GridPoint} (printable : Printable x p) (most : Nat) :
    Printable x (dropZeros most p) := by
  induction most generalizing p with
  | zero => exact printable
  | succ most ih =>
      rw [Binary64.dropZeros]
      split
      · rename_i last
        obtain ⟨positive, digits, value⟩ := printable
        obtain ⟨k, tens⟩ := Nat.dvd_of_mod_eq_zero last
        have tenth : p.digits / 10 = k := by omega
        rw [GridPoint.value, tens] at value
        push_cast at value
        rw [tenth]
        apply ih
        have some : 0 < k := by omega
        have few : k ≤ 10 ^ 17 := by omega
        refine ⟨some, few, ?_⟩
        rw [GridPoint.value, zpow_add_one₀ (by norm_num)]
        linarith
      · exact printable

def printed (x : Binary64) : GridPoint := dropZeros 18 x.shortest

theorem printable_printed (canonical : x.Canonical) (some : x.mantissa ≠ 0) :
    Printable x x.printed := by
  apply Printable.dropZeros
  apply printable_shortestFrom canonical some
  omega

/-- The two greatest doubles, which the bound on rounding twice does not cover. -/
theorem isSome_greatest (negative : Bool) (less : Nat) (few : less < 2) :
    let x : Binary64 := ⟨negative, 2 ^ 53 - 1 - less, 971⟩
    (ofScientific x.printed.digits x.printed.power).isSome = true := by
  have all : ∀ (negative : Bool) (less : Fin 2),
      let x : Binary64 := ⟨negative, 2 ^ 53 - 1 - less, 971⟩
      (ofScientific x.printed.digits x.printed.power).isSome = true := by decide +kernel
  exact all negative ⟨less, few⟩

/-- Below them two roundings leave the upper end in range. -/
theorem upperEnd_inRange (canonical : x.Canonical)
    (notGreatest : x.exponent = 971 → x.mantissa + 3 ≤ 2 ^ 53) :
    x.upperEnd * (1 + 1 / 2 ^ 53) ^ 2 < (2 ^ 54 - 1) * 2 ^ (970 : Int) := by
  have unit : (0 : ℚ) < 2 ^ (970 : Int) := by positivity
  unfold upperEnd
  rcases Int.lt_or_eq_of_le canonical.greatest with lower | last
  · have mantissa : (x.mantissa : ℚ) + 1 ≤ 2 ^ 53 := by
      exact_mod_cast Nat.succ_le_of_lt canonical.mantissa
    have half : (2 : ℚ) ^ (970 : Int) = 2 * 2 ^ (969 : Int) := zpow_add₀ two_ne_zero 1 969
    have power : (2 : ℚ) ^ (x.exponent - 1) ≤ 2 ^ (969 : Int) :=
      zpow_le_zpow_right₀ one_le_two (by omega)
    have product : (2 * (x.mantissa : ℚ) + 1) * 2 ^ (x.exponent - 1) ≤
        (2 ^ 54 - 1) * 2 ^ (969 : Int) :=
      mul_le_mul (by linarith) power (by positivity) (by norm_num)
    rw [half] at unit ⊢
    generalize (2 : ℚ) ^ (969 : Int) = inUnits at product unit ⊢
    linarith
  · have mantissa : (x.mantissa : ℚ) + 3 ≤ 2 ^ 53 := by exact_mod_cast notGreatest last
    rw [last]
    change (2 * (x.mantissa : ℚ) + 1) * 2 ^ (970 : Int) * _ < _
    rw [mul_right_comm]
    apply mul_lt_mul_of_pos_right _ unit
    linarith

theorem upperEnd_lt (canonical : x.Canonical) : x.upperEnd < 10 ^ (309 : Int) := by
  have mantissa : (x.mantissa : ℚ) + 1 ≤ 2 ^ 53 := by
    exact_mod_cast Nat.succ_le_of_lt canonical.mantissa
  have greatest := canonical.greatest
  have power : (2 : ℚ) ^ (x.exponent - 1) ≤ 2 ^ (970 : Int) :=
    zpow_le_zpow_right₀ one_le_two (by omega)
  have scale : (2 : ℚ) ^ (970 : Int) = 2 ^ 970 := zpow_natCast 2 970
  calc
    x.upperEnd ≤ 2 ^ 54 * 2 ^ (970 : Int) :=
      mul_le_mul (by linarith) power (by positivity) (by positivity)
    _ = (2 ^ 256) ^ 4 := by rw [scale, ← pow_add, ← pow_mul]
    _ ≤ (6 / 5 * 10 ^ 77) ^ 4 := by
      apply pow_le_pow_left₀ (by positivity)
      norm_num
    _ = (6 / 5) ^ 4 * 10 ^ 308 := by rw [mul_pow, ← pow_mul]
    _ < 10 * 10 ^ 308 := by
      apply mul_lt_mul_of_pos_right _ (by positivity)
      norm_num
    _ = 10 ^ (309 : Int) := by
      rw [← pow_succ', ← zpow_natCast]
      rfl

theorem isSome_ofScientific_printed (canonical : x.Canonical) (some : x.mantissa ≠ 0) :
    (ofScientific x.printed.digits x.printed.power).isSome = true := by
  obtain ⟨positive, digits, value⟩ := printable_printed canonical some
  rcases Int.lt_or_le x.printed.power 0 with negative | nonneg
  · exact isSome_ofScientific_of_neg (by omega) negative
  have one : (1 : ℚ) ≤ x.printed.digits := by exact_mod_cast positive
  have reach : x.printed.power ≤ 308 := by
    have scale : (10 : ℚ) ^ x.printed.power < 10 ^ (309 : Int) := by
      calc
        (10 : ℚ) ^ x.printed.power ≤ x.printed.value :=
          le_mul_of_one_le_left (by positivity) one
        _ ≤ x.upperEnd := value
        _ < 10 ^ (309 : Int) := upperEnd_lt canonical
    have less := (zpow_lt_zpow_iff_right₀ (by norm_num : (1 : ℚ) < 10)).mp scale
    omega
  by_cases greatest : x.exponent = 971 ∧ 2 ^ 53 < x.mantissa + 3
  · obtain ⟨sign, mantissa, exponent⟩ := x
    obtain ⟨last, top⟩ := greatest
    have below := canonical.mantissa
    simp only at last top below
    obtain ⟨less, few, rfl⟩ : ∃ less < 2, mantissa = 2 ^ 53 - 1 - less :=
      ⟨2 ^ 53 - 1 - mantissa, by omega, by omega⟩
    rw [last]
    exact isSome_greatest sign less few
  · apply isSome_ofScientific_of_bounded reach nonneg
    have inRange := upperEnd_inRange canonical (fun last => by
      by_contra more
      exact greatest ⟨last, by omega⟩)
    apply lt_of_le_of_lt _ inRange
    exact mul_le_mul_of_nonneg_right value (by positivity)

end Binary64
end Devnet
