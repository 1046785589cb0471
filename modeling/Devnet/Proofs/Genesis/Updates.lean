import Devnet.Application.Verdict
import Devnet.Proofs.Consensus.Powers
import Devnet.Proofs.Fault.Outcome
import Mathlib

namespace Devnet

theorem Integer.quo_eq_ok {n divisor quotient : Int} :
    quo n divisor = .ok quotient ↔ divisor ≠ 0 ∧ quotient = n.tdiv divisor := by
  unfold quo
  split <;> simp [*, eq_comm]

theorem Integer.tdiv_nonpos_of_lt {n divisor : Int} (positive : 0 < divisor) (few : n < divisor) :
    n.tdiv divisor ≤ 0 := by
  rcases Int.lt_or_le n 0 with negative | enough
  · calc n.tdiv divisor ≤ (0 : Int).tdiv divisor := Int.tdiv_le_tdiv positive negative.le
      _ = 0 := Int.zero_tdiv divisor
  · exact (Int.tdiv_eq_zero_of_lt enough few).le

namespace Staking.Validator

theorem consensusPower_eq_ok {v : Validator} {reduction : Int} {power : Int64} :
    v.consensusPower reduction = .ok power ↔
      if v.isBonded then reduction ≠ 0 ∧ power.toInt = v.tokens.tdiv reduction else power = 0 := by
  unfold consensusPower
  by_cases bonded : v.isBonded = true
  · simp only [bonded, Bool.not_true, Bool.false_eq_true, if_false, if_true, bind_eq_ok,
      mapError_eq_ok, Integer.quo_eq_ok]
    constructor
    · intro given
      rcases given with ⟨quotient, ⟨divides, rfl⟩, read⟩
      split at read
      · rename_i found
        rw [Integer.toInt64?_eq_some] at found
        cases read
        exact ⟨divides, found⟩
      · cases read
    · intro given
      rcases given with ⟨divides, value⟩
      refine ⟨_, ⟨divides, rfl⟩, ?_⟩
      rw [Integer.toInt64?_eq_some.mpr value]
      rfl
  · simp only [bonded, Bool.not_false, Bool.false_eq_true, if_true, if_false, pure_eq_ok]
    exact eq_comm

/-- Only positive power makes an update; the key is not looked at otherwise. -/
theorem update?_eq_ok {v : Validator} {found : Option ValidatorUpdate} :
    v.update? = .ok found ↔
      ∃ power, v.consensusPower Integer.powerReduction = .ok power ∧
        if power ≤ 0 then found = none
        else ∃ key, v.publicKey = .ok key ∧ found = some ⟨key, power⟩ := by
  unfold update?
  simp only [bind_eq_ok]
  constructor
  · intro given
    rcases given with ⟨power, powered, read⟩
    refine ⟨power, powered, ?_⟩
    split at read
    · rename_i idle
      rw [if_pos idle]
      exact (pure_eq_ok.mp read).symm
    · rename_i active
      obtain ⟨key, unpacked, made⟩ := bind_eq_ok.mp read
      rw [if_neg active]
      exact ⟨key, unpacked, (pure_eq_ok.mp made).symm⟩
  · intro given
    rcases given with ⟨power, powered, result⟩
    refine ⟨power, powered, ?_⟩
    split at result
    · rename_i idle
      rw [if_pos idle, result]
      rfl
    · rename_i active
      obtain ⟨key, unpacked, rfl⟩ := result
      rw [if_neg active, unpacked]
      rfl

end Staking.Validator

namespace Staking.Section

theorem updates_eq_ok {s : Section} {updates : List ValidatorUpdate} :
    s.updates = .ok updates ↔
      ∃ found, List.Forall₂ (fun v result => v.update? = .ok result) s.validators found ∧
        updates = found.filterMap id := by
  simp only [Section.updates, map_eq_ok, mapM_eq_ok]
  constructor
  · intro given
    rcases given with ⟨found, each, rfl⟩
    exact ⟨found, each, rfl⟩
  · intro given
    rcases given with ⟨found, each, rfl⟩
    exact ⟨found, each, rfl⟩

theorem length_updates_le {s : Section} {updates : List ValidatorUpdate}
    (given : s.updates = .ok updates) : updates.length ≤ s.validators.length := by
  obtain ⟨found, each, rfl⟩ := updates_eq_ok.mp given
  rw [each.length_eq]
  exact List.length_filterMap_le _ _

theorem exists_validator_of_mem_updates {s : Section} {updates : List ValidatorUpdate}
    (given : s.updates = .ok updates) {update : ValidatorUpdate} (member : update ∈ updates) :
    ∃ v ∈ s.validators, v.publicKey = .ok update.publicKey := by
  obtain ⟨found, each, rfl⟩ := updates_eq_ok.mp given
  obtain ⟨result, inside, same⟩ := List.mem_filterMap.mp member
  obtain ⟨v, present, read⟩ := exists_of_forall₂ each inside
  obtain ⟨power, powered, outcome⟩ := Validator.update?_eq_ok.mp read
  have held : result = some update := same
  rw [held] at outcome
  split at outcome
  · cases outcome
  · obtain ⟨key, unpacked, made⟩ := outcome
    cases made
    exact ⟨v, present, unpacked⟩

end Staking.Section
end Devnet
