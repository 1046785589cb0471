import Devnet.Number.Binary64
import Mathlib

/-! How a ratio is rounded to a double. The result is one of the format, it is at most half a step away
from the ratio, and it is there unless the ratio is nearly out of the range of the format. -/

namespace Devnet.Binary64

def magnitude (x : Binary64) : ℚ := x.mantissa * 2 ^ x.exponent

/-- A number of the format: as many bits of the mantissa are used as the exponent allows. -/
structure Canonical (x : Binary64) : Prop where
  mantissa : x.mantissa < 2 ^ 53
  least : -1074 ≤ x.exponent
  greatest : x.exponent ≤ 971
  normal : 2 ^ 52 ≤ x.mantissa ∨ x.exponent = -1074

theorem canonical_zero : zero.Canonical := ⟨by decide, by decide, by decide, Or.inr rfl⟩

theorem Canonical.neg {x : Binary64} (canonical : x.Canonical) : x.neg.Canonical :=
  ⟨canonical.mantissa, canonical.least, canonical.greatest, canonical.normal⟩

theorem magnitude_nonneg (x : Binary64) : 0 ≤ x.magnitude := by
  unfold magnitude
  positivity

theorem scaled_pos (n : Nat) (e : Int) : 0 < (scaled n e).2 := by
  unfold scaled
  split
  · exact Nat.one_pos
  · rw [Nat.one_shiftLeft]
    positivity

theorem scaled_eq (n : Nat) (e : Int) :
    ((scaled n e).1 : ℚ) = n * 2 ^ e * (scaled n e).2 := by
  unfold scaled
  split
  · rename_i nonneg
    obtain ⟨k, rfl⟩ := Int.eq_ofNat_of_zero_le nonneg
    simp [Nat.shiftLeft_eq]
  · rename_i negative
    obtain ⟨k, rfl⟩ : ∃ k : Nat, e = -k := ⟨(-e).toNat, by omega⟩
    simp [Nat.shiftLeft_eq]

def steps (num den : Nat) (e : Int) : ℚ := num / den / 2 ^ e

theorem steps_nonneg (num den : Nat) (e : Int) : 0 ≤ steps num den e := by
  unfold steps
  positivity

theorem steps_eq (num : Nat) {den : Nat} (some : 0 < den) (e : Int) :
    steps num den e = ((num * (scaled 1 e).2 : Nat) : ℚ) / (den * (scaled 1 e).1 : Nat) := by
  have up := scaled_eq 1 e
  have down : (0 : ℚ) < (scaled 1 e).2 := by exact_mod_cast scaled_pos 1 e
  have positive : (0 : ℚ) < den := by exact_mod_cast some
  have power : (0 : ℚ) < 2 ^ e := by positivity
  rw [steps, Nat.cast_mul, Nat.cast_mul, up, Nat.cast_one]
  field_simp

theorem whole_eq (num : Nat) {den : Nat} (some : 0 < den) (e : Int) :
    num * (scaled 1 e).2 / (den * (scaled 1 e).1) = ⌊steps num den e⌋₊ := by
  rw [steps_eq num some e, Nat.floor_div_eq_div]

theorem nearest_cases (num den : Nat) (e : Int) :
    nearest num den e = num * (scaled 1 e).2 / (den * (scaled 1 e).1) ∨
      nearest num den e = num * (scaled 1 e).2 / (den * (scaled 1 e).1) + 1 ∧
        den * (scaled 1 e).1 ≤ 2 * (num * (scaled 1 e).2 % (den * (scaled 1 e).1)) := by
  unfold nearest
  simp only
  split
  · exact Or.inl rfl
  · rename_i far
    rw [Bool.or_eq_true, decide_eq_true_eq, not_or] at far
    exact Or.inr ⟨rfl, Nat.le_of_not_lt far.1⟩

theorem nearest_le (num : Nat) {den : Nat} (some : 0 < den) (e : Int) :
    (nearest num den e : ℚ) ≤ steps num den e + 1 / 2 ∧
      (nearest num den e : ℚ) ≤ 2 * steps num den e := by
  have up := scaled_eq 1 e
  have down : (0 : ℚ) < (scaled 1 e).2 := by exact_mod_cast scaled_pos 1 e
  have upper : (0 : ℚ) < (scaled 1 e).1 := by
    rw [up]
    positivity
  have bottom : 0 < den * (scaled 1 e).1 := Nat.mul_pos some (by exact_mod_cast upper)
  have cases := nearest_cases num den e
  rw [steps_eq num some e]
  generalize nearest num den e = n at cases ⊢
  generalize num * (scaled 1 e).2 = top at cases ⊢
  generalize den * (scaled 1 e).1 = bottom' at cases bottom ⊢
  have split := Nat.div_add_mod' top bottom'
  have bounds : 2 * (n * bottom') ≤ 2 * top + bottom' ∧ n * bottom' ≤ 2 * top := by
    rcases cases with rfl | ⟨rfl, far⟩
    · omega
    · rw [Nat.add_mul, Nat.one_mul]
      omega
  have positive : (0 : ℚ) < bottom' := by exact_mod_cast bottom
  have half : 2 * ((n : ℚ) * bottom') ≤ 2 * top + bottom' := by exact_mod_cast bounds.1
  have twice : (n : ℚ) * bottom' ≤ 2 * top := by exact_mod_cast bounds.2
  constructor
  · rw [div_add_div _ _ positive.ne' two_ne_zero, le_div_iff₀ (by positivity)]
    linarith
  · rw [mul_div_assoc', le_div_iff₀ positive]
    exact twice

theorem floor_le_nearest (num : Nat) {den : Nat} (some : 0 < den) (e : Int) :
    ⌊steps num den e⌋₊ ≤ nearest num den e := by
  rw [← whole_eq num some e]
  rcases nearest_cases num den e with same | ⟨more, -⟩
  · exact same.ge
  · omega

def exponentOf (num den : Nat) : Int :=
  let guess := max leastExponent ((num.log2 : Int) - den.log2 - 53)
  if num * (scaled 1 guess).2 / (den * (scaled 1 guess).1) < mantissaLimit then guess else guess + 1

/-- A mantissa that has been rounded up to the limit loses its last bit. -/
theorem ofRatio_eq {num : Nat} (nonzero : num ≠ 0) (den : Nat) :
    ofRatio num den =
      if nearest num den (exponentOf num den) = 2 ^ 53 then
        if 971 < exponentOf num den + 1 then none
        else some ⟨false, 2 ^ 52, exponentOf num den + 1⟩
      else if 971 < exponentOf num den then none
      else some ⟨false, nearest num den (exponentOf num den), exponentOf num den⟩ := by
  have limit : mantissaLimit = 2 ^ 53 := by decide
  have leading : leadingBit = 2 ^ 52 := by decide
  have unfolded : ofRatio num den =
      let rounded := if nearest num den (exponentOf num den) = mantissaLimit then
        (leadingBit, exponentOf num den + 1)
      else (nearest num den (exponentOf num den), exponentOf num den)
      if greatestExponent < rounded.2 then none else some ⟨false, rounded.1, rounded.2⟩ := by
    unfold ofRatio
    rw [if_neg nonzero]
    rfl
  rw [unfolded, limit, leading]
  by_cases full : nearest num den (exponentOf num den) = 2 ^ 53
  · rw [if_pos full, if_pos full]
    rfl
  · rw [if_neg full, if_neg full]
    rfl

theorem steps_add_one (num den : Nat) (e : Int) :
    steps num den (e + 1) = steps num den e / 2 := by
  rw [steps, steps, zpow_add_one₀ two_ne_zero]
  field_simp

theorem steps_bounds {num den : Nat} (nonzero : num ≠ 0) (some : den ≠ 0) (e : Int) :
    (2 : ℚ) ^ ((num.log2 : Int) - den.log2 - 1 - e) < steps num den e ∧
      steps num den e < 2 ^ ((num.log2 : Int) - den.log2 + 1 - e) := by
  have numLow : (2 : ℚ) ^ (num.log2 : Int) ≤ num := by exact_mod_cast Nat.log2_self_le nonzero
  have numHigh : (num : ℚ) < 2 ^ ((num.log2 : Int) + 1) := by exact_mod_cast Nat.lt_log2_self
  have denLow : (2 : ℚ) ^ (den.log2 : Int) ≤ den := by exact_mod_cast Nat.log2_self_le some
  have denHigh : (den : ℚ) < 2 ^ ((den.log2 : Int) + 1) := by exact_mod_cast Nat.lt_log2_self
  have positive : (0 : ℚ) < den := by exact_mod_cast Nat.pos_of_ne_zero some
  constructor
  · calc
      (2 : ℚ) ^ ((num.log2 : Int) - den.log2 - 1 - e)
          = 2 ^ (num.log2 : Int) / 2 ^ ((den.log2 : Int) + 1) / 2 ^ e := by
            rw [← zpow_sub₀ two_ne_zero, ← zpow_sub₀ two_ne_zero]
            ring_nf
      _ < num / den / 2 ^ e := by
            apply div_lt_div_of_pos_right _ (by positivity)
            exact div_lt_div₀' numLow denHigh (by positivity) positive
  · calc
      (num : ℚ) / den / 2 ^ e
          < 2 ^ ((num.log2 : Int) + 1) / 2 ^ (den.log2 : Int) / 2 ^ e := by
            apply div_lt_div_of_pos_right _ (by positivity)
            exact div_lt_div₀ numHigh denLow (by positivity) (by positivity)
      _ = 2 ^ ((num.log2 : Int) - den.log2 + 1 - e) := by
            rw [← zpow_sub₀ two_ne_zero, ← zpow_sub₀ two_ne_zero]
            ring_nf

/-- In steps of the exponent that is chosen a ratio needs the bits of a mantissa; all of them, unless
the exponent is the least. -/
theorem steps_exponentOf {num den : Nat} (nonzero : num ≠ 0) (some : 0 < den) :
    -1074 ≤ exponentOf num den ∧ steps num den (exponentOf num den) < 2 ^ 53 ∧
      (2 ^ 52 ≤ steps num den (exponentOf num den) ∨ exponentOf num den = -1074) := by
  have limit : mantissaLimit = 2 ^ 53 := by decide
  have bounds := steps_bounds nonzero some.ne'
  unfold exponentOf
  simp only [leastExponent, limit, whole_eq num some]
  generalize guessed : max (-1074) ((num.log2 : Int) - den.log2 - 53) = guess
  obtain ⟨low, high⟩ := bounds guess
  have below : steps num den guess < 2 ^ 54 := by
    apply high.trans_le
    rw [show (2 : ℚ) ^ 54 = 2 ^ (54 : Int) from rfl]
    exact zpow_le_zpow_right₀ one_le_two (by omega)
  split
  · rename_i small
    refine ⟨by omega, (Nat.floor_lt' (by decide)).mp small, ?_⟩
    rcases Int.le_total ((num.log2 : Int) - den.log2 - 53) (-1074) with least | greater
    · exact Or.inr (by omega)
    · left
      apply le_of_lt
      refine lt_of_le_of_lt ?_ low
      rw [show (2 : ℚ) ^ 52 = 2 ^ (52 : Int) from rfl]
      exact zpow_le_zpow_right₀ one_le_two (by omega)
  · rename_i large
    have reached : (2 : ℚ) ^ 53 ≤ steps num den guess := by
      have whole := (Nat.le_floor_iff (steps_nonneg num den guess)).mp (Nat.le_of_not_lt large)
      exact_mod_cast whole
    rw [steps_add_one]
    refine ⟨by omega, by linarith, Or.inl (by linarith)⟩

theorem steps_mul (num den : Nat) (e : Int) : steps num den e * 2 ^ e = num / den :=
  div_mul_cancel₀ _ (by positivity)

theorem nearest_exponentOf {num den : Nat} (nonzero : num ≠ 0) (some : 0 < den) :
    nearest num den (exponentOf num den) ≤ 2 ^ 53 ∧
      (2 ^ 52 ≤ nearest num den (exponentOf num den) ∨ exponentOf num den = -1074) := by
  obtain ⟨-, below, normal⟩ := steps_exponentOf nonzero some
  constructor
  · have half := (nearest_le num some (exponentOf num den)).1
    have close : (nearest num den (exponentOf num den) : ℚ) < (2 ^ 53 + 1 : Nat) := by
      push_cast
      linarith
    exact Nat.le_of_lt_succ (by exact_mod_cast close)
  · apply normal.imp_left
    intro reached
    apply le_trans _ (floor_le_nearest num some _)
    exact Nat.le_floor (by exact_mod_cast reached)

theorem ofRatio_eq_some {num den : Nat} (nonzero : num ≠ 0) (some : 0 < den) {y : Binary64}
    (rounded : ofRatio num den = .some y) :
    y.Canonical ∧
      y.magnitude = nearest num den (exponentOf num den) * 2 ^ exponentOf num den := by
  obtain ⟨least, -, -⟩ := steps_exponentOf nonzero some
  obtain ⟨most, normal⟩ := nearest_exponentOf nonzero some
  rw [ofRatio_eq nonzero] at rounded
  split at rounded
  · rename_i full
    split at rounded
    · cases rounded
    · cases rounded
      have mantissa : 2 ^ 52 < 2 ^ 53 := by decide
      have lower : -1074 ≤ exponentOf num den + 1 := by omega
      have upper : exponentOf num den + 1 ≤ 971 := by omega
      refine ⟨⟨mantissa, lower, upper, Or.inl (Nat.le_refl _)⟩, ?_⟩
      rw [full, magnitude, zpow_add_one₀ two_ne_zero]
      push_cast
      ring
  · split at rounded
    · cases rounded
    · cases rounded
      have mantissa : nearest num den (exponentOf num den) < 2 ^ 53 := by omega
      have upper : exponentOf num den ≤ 971 := by omega
      exact ⟨⟨mantissa, least, upper, normal⟩, rfl⟩

theorem canonical_ofRatio {num den : Nat} (some : 0 < den) {y : Binary64}
    (rounded : ofRatio num den = .some y) : y.Canonical := by
  by_cases zero : num = 0
  · rw [ofRatio, if_pos zero] at rounded
    cases rounded
    exact canonical_zero
  · exact (ofRatio_eq_some zero some rounded).1

theorem magnitude_ofRatio_le_two_mul {num den : Nat} (some : 0 < den) {y : Binary64}
    (rounded : ofRatio num den = .some y) : y.magnitude ≤ 2 * (num / den) := by
  by_cases zero : num = 0
  · rw [ofRatio, if_pos zero] at rounded
    cases rounded
    simp [magnitude, Binary64.zero, zero]
  · rw [(ofRatio_eq_some zero some rounded).2, ← steps_mul num den (exponentOf num den), ← mul_assoc]
    exact mul_le_mul_of_nonneg_right (nearest_le num some _).2 (by positivity)

theorem steps_of_one_le {num den : Nat} (some : 0 < den) (one : (1 : ℚ) ≤ num / den) :
    num ≠ 0 ∧ 2 ^ 52 ≤ steps num den (exponentOf num den) := by
  have nonzero : num ≠ 0 := by
    rintro rfl
    norm_num at one
  refine ⟨nonzero, ?_⟩
  rcases (steps_exponentOf nonzero some).2.2 with reached | least
  · exact reached
  · rw [steps, least, zpow_neg, div_inv_eq_mul]
    have wide : (2 : ℚ) ^ 52 ≤ 2 ^ (1074 : Int) := by
      rw [show (2 : ℚ) ^ 52 = 2 ^ (52 : Int) from rfl]
      exact zpow_le_zpow_right₀ one_le_two (by decide)
    calc
      (2 : ℚ) ^ 52 ≤ 1 * 2 ^ (1074 : Int) := by rwa [one_mul]
      _ ≤ num / den * 2 ^ (1074 : Int) := mul_le_mul_of_nonneg_right one (by positivity)

theorem magnitude_ofRatio_of_one_le {num den : Nat} (some : 0 < den) {y : Binary64}
    (rounded : ofRatio num den = .some y) (one : (1 : ℚ) ≤ num / den) :
    num / den / 2 ≤ y.magnitude ∧ y.magnitude ≤ num / den * (1 + 1 / 2 ^ 53) := by
  obtain ⟨nonzero, reached⟩ := steps_of_one_le some one
  have power : (0 : ℚ) < 2 ^ exponentOf num den := by positivity
  rw [(ofRatio_eq_some nonzero some rounded).2, ← steps_mul num den (exponentOf num den)]
  constructor
  · rw [mul_div_right_comm]
    apply mul_le_mul_of_nonneg_right _ power.le
    have floor := Nat.sub_one_lt_floor (steps num den (exponentOf num den))
    have least : (⌊steps num den (exponentOf num den)⌋₊ : ℚ) ≤ nearest num den (exponentOf num den) := by
      exact_mod_cast floor_le_nearest num some _
    linarith
  · rw [mul_right_comm]
    apply mul_le_mul_of_nonneg_right _ power.le
    have half := (nearest_le num some (exponentOf num den)).1
    linarith

theorem isSome_ofRatio {num den : Nat} (some : 0 < den)
    (bounded : (num : ℚ) / den < (2 ^ 54 - 1) * 2 ^ (970 : Int)) : (ofRatio num den).isSome = true := by
  by_cases zero : num = 0
  · rw [ofRatio, if_pos zero]
    rfl
  obtain ⟨-, -, normal⟩ := steps_exponentOf zero some
  have half := (nearest_le num some (exponentOf num den)).1
  rw [← steps_mul num den (exponentOf num den)] at bounded
  have unit : (0 : ℚ) < 2 ^ (970 : Int) := by positivity
  have inner : exponentOf num den ≤ 971 := by
    by_contra beyond
    have reached := normal.resolve_right (by omega)
    have power : (4 : ℚ) * 2 ^ (970 : Int) ≤ 2 ^ exponentOf num den := by
      rw [show (4 : ℚ) = 2 ^ (2 : Int) by norm_num, ← zpow_add₀ two_ne_zero]
      exact zpow_le_zpow_right₀ one_le_two (by omega)
    have large := mul_le_mul reached power (by positivity) (steps_nonneg _ _ _)
    have less := large.trans_lt bounded
    rw [← mul_assoc] at less
    have impossible := lt_of_mul_lt_mul_right less unit.le
    norm_num at impossible
  rw [ofRatio_eq zero]
  split
  · rename_i full
    have fits : ¬971 < exponentOf num den + 1 := by
      intro beyond
      have last : exponentOf num den = 1 + 970 := by omega
      rw [last] at bounded half full
      rw [full] at half
      rw [zpow_add₀ two_ne_zero, ← mul_assoc] at bounded
      have less := lt_of_mul_lt_mul_right bounded unit.le
      norm_num at less half
      linarith
    rw [if_neg fits]
    rfl
  · rw [if_neg (by omega)]
    rfl

end Devnet.Binary64
