import Devnet.Coin.Coins
import Mathlib

/-! Merging goes in rounds. Each takes a coin off one of two lists, or one off both, and keeps what it
made unless that is zero. The lists need not be sorted: they get shorter in every round. -/

namespace Devnet

theorem Coin.isZero_iff {coin : Coin} : coin.isZero = true ↔ coin.amount = 0 := beq_iff_eq

namespace Coins

def next? : List Coin → List Coin → Option (Coin × List Coin × List Coin)
  | [], [] => none
  | a :: left, [] => some (a, left, [])
  | [], b :: right => some (b, [], right)
  | a :: left, b :: right =>
    if a.denom = b.denom then some (⟨a.denom, a.amount + b.amount⟩, left, right)
    else if a.denom < b.denom then some (a, left, b :: right)
    else some (b, a :: left, right)

theorem next?_eq_none_iff {left right : List Coin} :
    next? left right = none ↔ left = [] ∧ right = [] := by
  cases left <;> cases right <;> simp [next?]
  split_ifs <;> simp

variable {left right left' right' : List Coin} {coin : Coin}

theorem next?_cases (made : next? left right = some (coin, left', right')) :
    (left = coin :: left' ∧ right = right' ∧ ∀ b ∈ right.head?, coin.denom < b.denom) ∨
    (left = left' ∧ right = coin :: right' ∧ ∀ a ∈ left.head?, coin.denom < a.denom) ∨
    ∃ a b, a.denom = b.denom ∧ left = a :: left' ∧ right = b :: right' ∧
      coin = ⟨a.denom, a.amount + b.amount⟩ := by
  cases left with
  | nil =>
      cases right with
      | nil => cases made
      | cons b right =>
          cases made
          exact .inr (.inl ⟨rfl, rfl, by simp⟩)
  | cons a left =>
      cases right with
      | nil =>
          cases made
          exact .inl ⟨rfl, rfl, by simp⟩
      | cons b right =>
          rw [next?] at made
          split_ifs at made with same less
          · cases made
            exact .inr (.inr ⟨a, b, same, rfl, rfl, rfl⟩)
          · cases made
            exact .inl ⟨rfl, rfl, by simpa using less⟩
          · cases made
            have greater : coin.denom < a.denom := lt_of_le_of_ne (not_lt.mp less) (Ne.symm same)
            exact .inr (.inl ⟨rfl, rfl, by simpa using greater⟩)

theorem length_lt_of_next? (made : next? left right = some (coin, left', right')) :
    left'.length + right'.length < left.length + right.length := by
  rcases next?_cases made with ⟨rfl, rfl, -⟩ | ⟨rfl, rfl, -⟩ | ⟨a, b, -, rfl, rfl, -⟩ <;>
    simp only [List.length_cons] <;> omega

theorem merge_of_next? (made : next? left right = some (coin, left', right')) :
    merge left right = keep coin (merge left' right') := by
  cases left with
  | nil =>
      cases right with
      | nil => cases made
      | cons b right =>
          cases made
          simp only [merge, keep, List.filter_cons]
          cases coin.isZero <;> rfl
  | cons a left =>
      cases right with
      | nil =>
          cases made
          rfl
      | cons b right =>
          rw [next?] at made
          rw [merge, mergeCoin]
          split_ifs at made ⊢ <;> cases made <;> rfl

/-- What holds of nothing, and is kept when one more round goes before, holds of every merge. -/
theorem merge_induction {P : List Coin → List Coin → List Coin → Prop} (nothing : P [] [] [])
    (round : ∀ left right coin left' right', next? left right = some (coin, left', right') →
      P left' right' (merge left' right') → P left right (keep coin (merge left' right')))
    (left right : List Coin) : P left right (merge left right) := by
  -- Neither list gets shorter in every round, but both together do.
  induction size : left.length + right.length using Nat.strong_induction_on generalizing left right with
  | _ size ih =>
      cases made : next? left right with
      | none =>
          rcases next?_eq_none_iff.mp made with ⟨rfl, rfl⟩
          exact nothing
      | some result =>
          rcases result with ⟨coin, left', right'⟩
          have less := length_lt_of_next? made
          rw [merge_of_next? made]
          exact round _ _ _ _ _ made (ih _ (size ▸ less) left' right' rfl)

structure Merging where
  left : List Coin
  right : List Coin
  merged : List Coin

def Merging.round? (m : Merging) : Option Merging :=
  (next? m.left m.right).map fun (coin, left, right) => ⟨left, right, m.merged ++ keep coin []⟩

theorem mem_keep {coin other : Coin} {coins : List Coin} (member : other ∈ keep coin coins) :
    other = coin ∨ other ∈ coins := by
  unfold keep at member
  split at member
  · exact .inr member
  · exact List.mem_cons.mp member

theorem append_keep (merged : List Coin) (coin : Coin) (rest : List Coin) :
    merged ++ keep coin rest = merged ++ keep coin [] ++ rest := by
  unfold keep
  split <;> simp

/-- The rounds come to an end, and what they keep is the merge. -/
theorem mem_eval_round? (left right merged : List Coin) :
    ⟨[], [], merged ++ merge left right⟩ ∈ StateTransition.eval Merging.round? ⟨left, right, merged⟩ := by
  refine merge_induction (P := fun left right found => ∀ merged,
    ⟨[], [], merged ++ found⟩ ∈ StateTransition.eval Merging.round? ⟨left, right, merged⟩)
    ?_ ?_ left right merged
  · intro merged
    rw [List.append_nil]
    exact StateTransition.mem_eval.mpr ⟨.refl, rfl⟩
  · intro left right coin left' right' made ih merged
    have step : Merging.round? ⟨left, right, merged⟩ =
        some ⟨left', right', merged ++ keep coin []⟩ := by
      simp only [Merging.round?, made, Option.map_some]
    rw [StateTransition.reaches_eval (.single step), append_keep merged coin (merge left' right')]
    exact ih _

theorem nonzero_merge (left right : List Coin) : ∀ coin ∈ merge left right, coin.amount ≠ 0 := by
  refine merge_induction (P := fun _ _ found => ∀ coin ∈ found, coin.amount ≠ 0)
    (List.forall_mem_nil _) ?_ left right
  intro _ _ coin _ _ _ ih
  unfold keep
  split
  · exact ih
  · rename_i some
    exact List.forall_mem_cons.mpr ⟨mt Coin.isZero_iff.mpr some, ih⟩

end Coins
end Devnet
