import Devnet.Proofs.Coin.Rounds
import Devnet.Proofs.Fault.Outcome
import Mathlib

/-! What a set of coins holds of a denomination. Adding sets up adds what they hold, whether or not
the sets are valid; a valid set that holds nothing has no coins. -/

namespace Devnet

theorem Denom.validate_eq_ok {denom : String} {done : Unit} :
    Denom.validate denom = .ok done ↔ Denom.isValid denom = true := by
  unfold Denom.validate
  split <;> simp [*]

theorem Coin.validate_eq_ok {coin : Coin} {done : Unit} :
    coin.validate = .ok done ↔ Denom.isValid coin.denom = true ∧ 0 ≤ coin.amount := by
  unfold Coin.validate
  simp [bind_eq_ok, check_eq_ok, pure_eq_ok, Denom.validate_eq_ok]

theorem Coin.make_eq_ok {denom : String} {amount : Int} {coin : Coin} :
    Coin.make denom amount = .ok coin ↔
      Denom.isValid denom = true ∧ 0 ≤ amount ∧ coin = ⟨denom, amount⟩ := by
  unfold Coin.make
  simp only [bind_eq_ok, pure_eq_ok, Coin.validate_eq_ok, exists_const, and_assoc,
    eq_comm (b := coin)]

namespace Coins

def held (denom : String) : List Coin → Int
  | [] => 0
  | coin :: coins => (if coin.denom = denom then coin.amount else 0) + held denom coins

@[simp]
theorem held_nil (denom : String) : held denom [] = 0 := rfl

@[simp]
theorem held_cons (denom : String) (coin : Coin) (coins : List Coin) :
    held denom (coin :: coins) =
      (if coin.denom = denom then coin.amount else 0) + held denom coins := rfl

@[simp]
theorem held_keep (denom : String) (coin : Coin) (coins : List Coin) :
    held denom (keep coin coins) =
      (if coin.denom = denom then coin.amount else 0) + held denom coins := by
  unfold keep
  by_cases nothing : coin.isZero = true
  · have zero : coin.amount = 0 := Coin.isZero_iff.mp nothing
    simp [nothing, zero]
  · simp [nothing]

/-- What a round takes off the lists is in the coin that it makes. -/
theorem held_next? (denom : String) {left right left' right' : List Coin} {coin : Coin}
    (made : next? left right = some (coin, left', right')) :
    held denom left + held denom right =
      (if coin.denom = denom then coin.amount else 0) + (held denom left' + held denom right') := by
  rcases next?_cases made with ⟨rfl, rfl, -⟩ | ⟨rfl, rfl, -⟩ | ⟨a, b, same, rfl, rfl, rfl⟩
  · rw [held_cons, Int.add_assoc]
  · rw [held_cons, Int.add_left_comm]
  · simp only [held_cons, ← same]
    split <;> omega

theorem held_merge (denom : String) (left right : List Coin) :
    held denom (merge left right) = held denom left + held denom right := by
  refine merge_induction
    (P := fun left right found => held denom found = held denom left + held denom right)
    rfl ?_ left right
  intro left right coin left' right' made ih
  rw [held_keep, ih, held_next? denom made]

/-- Adding up ends for any two sets, valid or not. No coin of the sum is zero, and the sum holds of each
denomination what both sets hold of it. -/
theorem add_conserves (a b : Coins) :
    ⟨[], [], (a.add b).entries⟩ ∈ StateTransition.eval Merging.round? ⟨a.entries, b.entries, []⟩ ∧
    (∀ coin ∈ (a.add b).entries, coin.amount ≠ 0) ∧
    ∀ denom, held denom (a.add b).entries = held denom a.entries + held denom b.entries :=
  ⟨mem_eval_round? a.entries b.entries [], nonzero_merge a.entries b.entries,
    fun denom => held_merge denom a.entries b.entries⟩

def looseCoins : Coins := ⟨[⟨"stake", 5⟩, ⟨"atom", -5⟩, ⟨"stake", 0⟩, ⟨"stake", 2⟩]⟩

theorem add_conserves_looseCoins :
    (looseCoins.add ⟨[⟨"atom", 5⟩, ⟨"uosmo", 0⟩, ⟨"stake", 1⟩]⟩).entries =
      [⟨"atom", 5⟩, ⟨"stake", 5⟩, ⟨"atom", -5⟩, ⟨"stake", 2⟩, ⟨"stake", 1⟩] ∧
    (⟨"atom", -5⟩ : Coin).amount ≠ 0 ∧
    held "stake" (looseCoins.add ⟨[⟨"atom", 5⟩, ⟨"uosmo", 0⟩, ⟨"stake", 1⟩]⟩).entries = 7 + 1 := by
  have sum : (looseCoins.add ⟨[⟨"atom", 5⟩, ⟨"uosmo", 0⟩, ⟨"stake", 1⟩]⟩).entries =
      [⟨"atom", 5⟩, ⟨"stake", 5⟩, ⟨"atom", -5⟩, ⟨"stake", 2⟩, ⟨"stake", 1⟩] := by decide
  obtain ⟨-, nonzero, held⟩ := add_conserves looseCoins ⟨[⟨"atom", 5⟩, ⟨"uosmo", 0⟩, ⟨"stake", 1⟩]⟩
  refine ⟨sum, nonzero _ ?_, (held "stake").trans (by decide)⟩
  rw [sum]
  decide

def heldByAll (denom : String) : List Coins → Int
  | [] => 0
  | coins :: sets => held denom coins.entries + heldByAll denom sets

theorem held_foldl_add (denom : String) (start : Coins) (sets : List Coins) :
    held denom (sets.foldl add start).entries =
      held denom start.entries + heldByAll denom sets := by
  induction sets generalizing start with
  | nil => simp [heldByAll]
  | cons coins sets ih =>
      rw [List.foldl_cons, ih, add, held_merge, heldByAll]
      omega

theorem held_total (denom : String) (sets : List Coins) :
    held denom (total sets).entries = heldByAll denom sets := by
  rw [total, held_foldl_add, empty, held_nil]
  omega

theorem held_single (denom : String) (coin : Coin) :
    held denom (single coin).entries = if coin.denom = denom then coin.amount else 0 := by
  unfold single
  by_cases nothing : coin.isZero = true
  · have zero : coin.amount = 0 := Coin.isZero_iff.mp nothing
    simp [nothing, zero, empty]
  · simp [nothing]

theorem amountOf_single_eq (coin : Coin) (denom : String) :
    (single coin).amountOf denom = if coin.denom = denom then coin.amount else 0 := by
  unfold single
  by_cases nothing : coin.isZero = true
  · have zero : coin.amount = 0 := Coin.isZero_iff.mp nothing
    simp [nothing, zero, amountOf, empty]
  · by_cases same : coin.denom = denom <;> simp [nothing, amountOf, same]

theorem amountOf_single (coin : Coin) : (single coin).amountOf coin.denom = coin.amount := by
  rw [amountOf_single_eq, if_pos rfl]

theorem validateEntry_eq_ok {coin : Coin} {done : Unit} :
    validateEntry coin = .ok done ↔ Denom.isValid coin.denom = true ∧ 0 < coin.amount := by
  unfold validateEntry
  simp only [bind_eq_ok, check_eq_ok, pure_eq_ok, Coin.validate_eq_ok, Coin.isZero_iff,
    exists_const]
  constructor
  · intro given
    rcases given with ⟨⟨valid, positive⟩, something, -⟩
    exact ⟨valid, by omega⟩
  · intro given
    rcases given with ⟨valid, positive⟩
    exact ⟨⟨valid, by omega⟩, by omega, trivial⟩

theorem validate_eq_ok {coins : Coins} {done : Unit} :
    coins.validate = .ok done ↔
      (∀ coin ∈ coins.entries, Denom.isValid coin.denom = true ∧ 0 < coin.amount) ∧
        isAscending coins.entries = true := by
  unfold validate
  simp only [bind_eq_ok, forM_eq_ok, validateEntry_eq_ok, check_eq_ok, pure_eq_ok]
  simp

theorem validate_single {coin : Coin} (valid : coin.validate = .ok ()) :
    (single coin).validate = .ok () := by
  obtain ⟨denom, nonneg⟩ := Coin.validate_eq_ok.mp valid
  unfold single
  by_cases nothing : coin.isZero = true
  · rw [if_pos nothing]
    rfl
  · have some : coin.amount ≠ 0 := mt Coin.isZero_iff.mpr nothing
    have positive : 0 < coin.amount := by omega
    rw [if_neg nothing]
    exact validate_eq_ok.mpr ⟨List.forall_mem_singleton.mpr ⟨denom, positive⟩, rfl⟩

theorem held_nonneg (denom : String) {coins : List Coin}
    (positive : ∀ coin ∈ coins, 0 < coin.amount) :
    0 ≤ held denom coins := by
  induction coins with
  | nil => exact Int.le_refl 0
  | cons coin coins ih =>
      have first := positive coin List.mem_cons_self
      have others := ih fun other member => positive other (List.mem_cons_of_mem _ member)
      rw [held_cons]
      split <;> omega

theorem eq_nil_of_held_eq_zero {coins : List Coin} (positive : ∀ coin ∈ coins, 0 < coin.amount)
    (nothing : ∀ denom, held denom coins = 0) : coins = [] := by
  cases coins with
  | nil => rfl
  | cons coin coins =>
      have first := positive coin List.mem_cons_self
      have others := held_nonneg coin.denom fun other member =>
        positive other (List.mem_cons_of_mem _ member)
      have both := nothing coin.denom
      rw [held_cons, if_pos rfl] at both
      omega

end Coins
end Devnet
