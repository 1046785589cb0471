import Devnet.Proofs.Coin.Held
import Devnet.Proofs.Genesis.Documents
import Mathlib

namespace Devnet.Coins

theorem single_of_ne_zero (denom : String) {amount : Int} (some : amount ≠ 0) :
    single ⟨denom, amount⟩ = ⟨[⟨denom, amount⟩]⟩ := by
  simp [single, Coin.isZero, some]

theorem single_zero (denom : String) : single ⟨denom, 0⟩ = empty := rfl

theorem single_injective {denom : String} {a b : Int}
    (same : single ⟨denom, a⟩ = single ⟨denom, b⟩) : a = b := by
  have left := amountOf_single ⟨denom, a⟩
  rw [same] at left
  exact left.symm.trans (amountOf_single ⟨denom, b⟩)

theorem add_single (denom : String) (a b : Int) :
    (single ⟨denom, a⟩).add (single ⟨denom, b⟩) = single ⟨denom, a + b⟩ := by
  by_cases none : a = 0
  · subst none
    rw [single_zero, Int.zero_add]
    by_cases other : b = 0
    · subst other
      rfl
    · rw [single_of_ne_zero denom other]
      simp [add, empty, merge, Coin.isZero, other]
  · by_cases other : b = 0
    · subst other
      rw [single_zero, Int.add_zero, single_of_ne_zero denom none]
      simp [add, empty, merge, mergeCoin, keep, Coin.isZero, none]
    · rw [single_of_ne_zero denom none, single_of_ne_zero denom other]
      simp only [add, merge, mergeCoin, if_true, keep, single, List.filter_nil]
      split <;> rfl

theorem foldl_add_single (denom : String) (start : Int) (amounts : List Int) :
    (amounts.map fun amount => single ⟨denom, amount⟩).foldl add (single ⟨denom, start⟩) =
      single ⟨denom, start + amounts.sum⟩ := by
  induction amounts generalizing start with
  | nil => simp
  | cons amount amounts ih =>
      rw [List.map_cons, List.foldl_cons, add_single, ih, List.sum_cons, Int.add_assoc]

theorem total_single (denom : String) (amounts : List Int) :
    total (amounts.map fun amount => single ⟨denom, amount⟩) = single ⟨denom, amounts.sum⟩ := by
  rw [total, ← single_zero denom, foldl_add_single, Int.zero_add]

theorem inRange_single {denom : String} {amount : Int} :
    (single ⟨denom, amount⟩).InRange ↔ Integer.InRange amount := by
  by_cases none : amount = 0
  · subst none
    simp [single_zero, InRange, empty, Integer.InRange, Integer.limit]
  · simp [single_of_ne_zero denom none, InRange, Coin.InRange]

end Devnet.Coins
