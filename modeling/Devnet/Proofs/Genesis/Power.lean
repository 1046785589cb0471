import Devnet.Proofs.Genesis.Updates
import Mathlib

namespace Devnet

namespace Integer

variable {n divisor quotient : Int}

/-- A quotient whose rest is smaller than the divisor, and has the sign of the dividend or is zero. -/
def IsQuotient (n divisor quotient : Int) : Prop :=
  ∃ rest, n = quotient * divisor + rest ∧ |rest| < divisor ∧ (rest = 0 ∨ rest.sign = n.sign)

theorem isQuotient_tdiv (n : Int) (positive : 0 < divisor) : IsQuotient n divisor (n.tdiv divisor) := by
  refine ⟨n.tmod divisor, (Int.tdiv_mul_add_tmod n divisor).symm, ?_, ?_⟩
  · exact abs_lt.mpr ⟨Int.lt_tmod_of_pos n positive, Int.tmod_lt_of_pos n positive⟩
  · have sign := Int.sign_tmod n divisor
    split at sign
    · exact .inl (Int.sign_eq_zero_iff_zero.mp sign)
    · exact .inr sign

/-- Two rests of one sign differ by less than the divisor, and so do not differ at all. -/
theorem IsQuotient.eq {other : Int} (first : IsQuotient n divisor quotient)
    (second : IsQuotient n divisor other) : quotient = other := by
  rcases first with ⟨rest, split, small, sign⟩
  rcases second with ⟨rest', split', small', sign'⟩
  have close : |rest' - rest| < divisor := by
    rw [abs_lt] at small small' ⊢
    rcases lt_trichotomy n 0 with negative | zero | positive
    · rw [Int.sign_eq_neg_one_of_neg negative, Int.sign_eq_neg_one_iff_neg] at sign sign'
      omega
    · rw [zero, Int.sign_zero, Int.sign_eq_zero_iff_zero] at sign sign'
      omega
    · rw [Int.sign_eq_one_of_pos positive, Int.sign_eq_one_iff_pos] at sign sign'
      omega
  -- Two quotients are apart by what their rests are, a multiple of the divisor and less than it.
  have multiple : rest' - rest = (quotient - other) * divisor := by
    rw [Int.sub_mul]
    omega
  have none : (quotient - other) * divisor = 0 := by
    rw [← multiple]
    exact Int.eq_zero_of_abs_lt_dvd ⟨quotient - other, by rw [multiple, Int.mul_comm]⟩ close
  have positive : 0 < divisor := lt_of_le_of_lt (abs_nonneg rest) small
  exact sub_eq_zero.mp ((mul_eq_zero.mp none).resolve_right positive.ne')

theorem isQuotient_iff (positive : 0 < divisor) :
    IsQuotient n divisor quotient ↔ quotient = n.tdiv divisor := by
  constructor
  · intro given
    exact given.eq (isQuotient_tdiv n positive)
  · rintro rfl
    exact isQuotient_tdiv n positive

theorem toInt64?_eq_none : toInt64? n = none ↔ n < Word.leastInt64 ∨ Word.greatestInt64 < n := by
  rw [toInt64?, ite_eq_right_iff]
  simp only [fitsInt64_iff, reduceCtorEq, imp_false]
  omega

end Integer

namespace Staking.Validator

variable {v w : Validator} {reduction : Int}

theorem consensusPower_eq_error (positive : 0 < reduction) (bonded : v.isBonded = true)
    {fault : Fault} : v.consensusPower reduction = .error fault ↔
      fault = .ofStaking (.powerOverflow v.operatorAddress) ∧
        (v.tokens.tdiv reduction < Word.leastInt64 ∨
          Word.greatestInt64 < v.tokens.tdiv reduction) := by
  have divides : Integer.quo v.tokens reduction = .ok (v.tokens.tdiv reduction) :=
    Integer.quo_eq_ok.mpr ⟨positive.ne', rfl⟩
  rw [← Integer.toInt64?_eq_none]
  unfold consensusPower
  rw [bonded, divides]
  cases read : Integer.toInt64? (v.tokens.tdiv reduction) with
  | some power => simp [Except.mapError, bind, Except.bind, read, pure, Except.pure]
  | none =>
      simp [Except.mapError, bind, Except.bind, read, throw, throwThe, MonadExceptOf.throw, eq_comm]

theorem consensusPower_mono (positive : 0 < reduction) (bonded : v.isBonded = true)
    (bonded' : w.isBonded = true) (more : v.tokens ≤ w.tokens) {power power' : Int64}
    (powered : v.consensusPower reduction = .ok power)
    (powered' : w.consensusPower reduction = .ok power') : power ≤ power' := by
  rw [consensusPower_eq_ok, if_pos bonded] at powered
  rw [consensusPower_eq_ok, if_pos bonded'] at powered'
  rw [Int64.le_iff_toInt_le, powered.2, powered'.2]
  exact Int.tdiv_le_tdiv positive more

theorem consensusPower_tokensOfPower (positive : 0 < reduction) (bonded : v.isBonded = true)
    {power : Int64} (tokens : v.tokens = Integer.tokensOfPower power reduction) :
    v.consensusPower reduction = .ok power := by
  rw [consensusPower_eq_ok, if_pos bonded, tokens, Integer.tokensOfPower]
  exact ⟨positive.ne', (Int.mul_tdiv_cancel _ positive.ne').symm⟩

/-- A bonded validator has the one quotient of its tokens as its power if that is a number of 64 bits,
and else the fault says that it overflows. Its power rises with its tokens, and the tokens of any power
give that power back. -/
theorem consensusPower_laws (positive : 0 < reduction) (bonded : v.isBonded = true) :
    (∃ quotient, (∀ other, Integer.IsQuotient v.tokens reduction other ↔ other = quotient) ∧
      ((∃ power, v.consensusPower reduction = .ok power ∧ power.toInt = quotient) ↔
        Word.leastInt64 ≤ quotient ∧ quotient ≤ Word.greatestInt64) ∧
      (v.consensusPower reduction = .error (.ofStaking (.powerOverflow v.operatorAddress)) ↔
        quotient < Word.leastInt64 ∨ Word.greatestInt64 < quotient)) ∧
    (∀ w : Validator, w.isBonded = true → v.tokens ≤ w.tokens → ∀ power power',
      v.consensusPower reduction = .ok power → w.consensusPower reduction = .ok power' →
        power ≤ power') ∧
    ∀ power, v.tokens = Integer.tokensOfPower power reduction →
      v.consensusPower reduction = .ok power := by
  refine ⟨⟨v.tokens.tdiv reduction, fun other => Integer.isQuotient_iff positive, ?_, ?_⟩,
    fun w bonded' more power power' => consensusPower_mono positive bonded bonded' more,
    fun power => consensusPower_tokensOfPower positive bonded⟩
  · simp only [consensusPower_eq_ok, if_pos bonded]
    constructor
    · intro given
      rcases given with ⟨power, ⟨-, value⟩, -⟩
      rw [← value, ← Integer.fitsInt64_iff]
      exact Integer.fitsInt64_toInt power
    · intro fits
      have value := Integer.toInt_ofInt (Integer.fitsInt64_iff.mpr fits)
      exact ⟨_, ⟨positive.ne', value⟩, value⟩
  · rw [consensusPower_eq_error positive bonded]
    exact and_iff_right rfl

def holding (tokens : Int) : Validator where
  operatorAddress := ""
  consensusKey := ⟨"", []⟩
  jailed := false
  status := .bonded
  tokens
  delegatorShares := .one
  description := .blank
  unbondingHeight := 0
  unbondingTime := noTime
  commission := .free
  minSelfDelegation := 0

theorem consensusPower_laws_holding :
    (∃ power, (holding (-7)).consensusPower 3 = .ok power ∧ power.toInt = -2) ∧
    (holding (-27670116110564327424)).consensusPower 3 = .ok (-9223372036854775808) ∧
    (holding (-27670116110564327427)).consensusPower 3 = .error (.ofStaking (.powerOverflow "")) := by
  have positive : (0 : Int) < 3 := by decide
  obtain ⟨⟨quotient, unique, fits, -⟩, -⟩ := consensusPower_laws (v := holding (-7)) positive rfl
  obtain ⟨-, -, inverse⟩ :=
    consensusPower_laws (v := holding (-27670116110564327424)) positive rfl
  obtain ⟨⟨beyond, unique', -, overflows⟩, -⟩ :=
    consensusPower_laws (v := holding (-27670116110564327427)) positive rfl
  obtain rfl := (unique (-2)).mp ⟨-1, by decide, by decide, .inr (by decide)⟩
  obtain rfl := (unique' (-9223372036854775809)).mp ⟨0, by decide, by decide, .inl rfl⟩
  exact ⟨fits.mpr (by decide), inverse _ (by decide), overflows.mpr (by decide)⟩

end Staking.Validator
end Devnet
