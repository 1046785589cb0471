import Devnet.Proofs.Coin.Held
import Mathlib

namespace Devnet.Coins

structure Sound (coins : List Coin) : Prop where
  ascending : coins.Pairwise fun a b => a.denom < b.denom
  positive : ∀ coin ∈ coins, 0 < coin.amount

theorem sound_nil : Sound [] := ⟨.nil, List.forall_mem_nil _⟩

theorem sound_cons {coin : Coin} {coins : List Coin} :
    Sound (coin :: coins) ↔
      0 < coin.amount ∧ (∀ other ∈ coins, coin.denom < other.denom) ∧ Sound coins := by
  constructor
  · intro sound
    obtain ⟨above, ascending⟩ := List.pairwise_cons.mp sound.ascending
    obtain ⟨first, others⟩ := List.forall_mem_cons.mp sound.positive
    exact ⟨first, above, ascending, others⟩
  · intro given
    rcases given with ⟨first, above, sound⟩
    exact ⟨.cons above sound.ascending, List.forall_mem_cons.mpr ⟨first, sound.positive⟩⟩

theorem isAscending_iff (coins : List Coin) :
    isAscending coins = true ↔ coins.Pairwise fun a b => a.denom < b.denom := by
  induction coins with
  | nil => simp [isAscending]
  | cons a coins ih =>
      cases coins with
      | nil => simp [isAscending]
      | cons b coins =>
          rw [isAscending, Bool.and_eq_true, decide_eq_true_iff, ih, List.pairwise_cons (a := a),
            List.forall_mem_cons]
          constructor
          · intro given
            rcases given with ⟨less, ascending⟩
            have above := (List.pairwise_cons.mp ascending).1
            exact ⟨⟨less, fun c member => lt_trans less (above c member)⟩, ascending⟩
          · intro given
            rcases given with ⟨⟨less, -⟩, ascending⟩
            exact ⟨less, ascending⟩

theorem sound_of_validate {coins : Coins} (valid : coins.validate = .ok ()) : Sound coins.entries := by
  obtain ⟨each, ascending⟩ := validate_eq_ok.mp valid
  exact ⟨(isAscending_iff _).mp ascending, fun coin member => (each coin member).2⟩

theorem validate_eq_ok_iff_sound {coins : Coins} {done : Unit} :
    coins.validate = .ok done ↔
      Sound coins.entries ∧ ∀ coin ∈ coins.entries, Denom.isValid coin.denom = true := by
  rw [validate_eq_ok, isAscending_iff]
  constructor
  · intro given
    rcases given with ⟨each, ascending⟩
    exact ⟨⟨ascending, fun coin member => (each coin member).2⟩, fun coin member => (each coin member).1⟩
  · intro given
    rcases given with ⟨⟨ascending, positive⟩, denoms⟩
    exact ⟨fun coin member => ⟨denoms coin member, positive coin member⟩, ascending⟩

theorem Sound.nodup_denoms {coins : List Coin} (sound : Sound coins) :
    (coins.map Coin.denom).Nodup := by
  rw [List.Nodup, List.pairwise_map]
  exact sound.ascending.imp ne_of_lt

theorem held_eq_zero {denom : String} {coins : List Coin}
    (above : ∀ coin ∈ coins, denom < coin.denom) : held denom coins = 0 := by
  induction coins with
  | nil => rfl
  | cons coin coins ih =>
      obtain ⟨first, others⟩ := List.forall_mem_cons.mp above
      rw [held_cons, if_neg (ne_of_gt first), ih others, Int.add_zero]

theorem held_pos {coin : Coin} {coins : List Coin} (sound : Sound (coin :: coins)) :
    0 < held coin.denom (coin :: coins) := by
  obtain ⟨positive, above, -⟩ := sound_cons.mp sound
  rw [held_cons, if_pos rfl, held_eq_zero above, Int.add_zero]
  exact positive

theorem not_denom_lt {a b : Coin} {left right : List Coin} (sound : Sound (a :: left))
    (sound' : Sound (b :: right)) (same : held a.denom (a :: left) = held a.denom (b :: right)) :
    ¬a.denom < b.denom := by
  intro less
  have above : ∀ coin ∈ b :: right, a.denom < coin.denom := by
    refine List.forall_mem_cons.mpr ⟨less, fun coin member => ?_⟩
    exact lt_trans less ((sound_cons.mp sound').2.1 coin member)
  have positive := held_pos sound
  rw [same, held_eq_zero above] at positive
  exact lt_irrefl 0 positive

theorem eq_of_held_eq {left right : List Coin} (sound : Sound left) (sound' : Sound right)
    (same : ∀ denom, held denom left = held denom right) : left = right := by
  induction left generalizing right with
  | nil => exact (eq_nil_of_held_eq_zero sound'.positive fun denom => (same denom).symm).symm
  | cons a left ih =>
      cases right with
      | nil => exact eq_nil_of_held_eq_zero sound.positive same
      | cons b right =>
          -- A list that starts below the other holds something that the other does not.
          have denom : a.denom = b.denom := le_antisymm
            (not_lt.mp (not_denom_lt sound' sound (same b.denom).symm))
            (not_lt.mp (not_denom_lt sound sound' (same a.denom)))
          obtain ⟨-, above, soundLeft⟩ := sound_cons.mp sound
          obtain ⟨-, above', soundRight⟩ := sound_cons.mp sound'
          have amount := same a.denom
          rw [held_cons, held_cons, if_pos rfl, if_pos denom.symm, held_eq_zero above, denom,
            held_eq_zero above', Int.add_zero, Int.add_zero] at amount
          have rest : left = right := by
            apply ih soundLeft soundRight
            intro other
            have all := same other
            rw [held_cons, held_cons, denom, amount] at all
            omega
          rw [rest, show a = b from by cases a; cases b; cases denom; cases amount; rfl]

theorem denom_mem_of_merge (left right : List Coin) : ∀ coin ∈ merge left right,
    coin.denom ∈ left.map Coin.denom ∨ coin.denom ∈ right.map Coin.denom := by
  refine merge_induction (P := fun left right found => ∀ coin ∈ found,
    coin.denom ∈ left.map Coin.denom ∨ coin.denom ∈ right.map Coin.denom)
    (List.forall_mem_nil _) ?_ left right
  intro left right coin left' right' made ih other member
  rcases mem_keep member with rfl | later
  · rcases next?_cases made with ⟨rfl, -⟩ | ⟨-, rfl, -⟩ | ⟨a, b, -, rfl, rfl, rfl⟩ <;> simp
  · have source := ih other later
    rcases next?_cases made with ⟨rfl, rfl, -⟩ | ⟨rfl, rfl, -⟩ | ⟨a, b, -, rfl, rfl, -⟩
    · exact source.imp_left (List.mem_cons_of_mem _)
    · exact source.imp_right (List.mem_cons_of_mem _)
    · exact source.imp (List.mem_cons_of_mem _) (List.mem_cons_of_mem _)

theorem denom_lt_of_head? {denom : String} {coins : List Coin} (sound : Sound coins)
    (first : ∀ b ∈ coins.head?, denom < b.denom) : ∀ other ∈ coins, denom < other.denom := by
  cases coins with
  | nil => exact List.forall_mem_nil _
  | cons b coins =>
      have less : denom < b.denom := first b rfl
      exact List.forall_mem_cons.mpr
        ⟨less, fun other member => lt_trans less ((sound_cons.mp sound).2.1 other member)⟩

/-- A round takes the first denomination of all off sound lists, which stay sound. -/
theorem sound_next? {left right left' right' : List Coin} {coin : Coin}
    (made : next? left right = some (coin, left', right')) (sound : Sound left)
    (sound' : Sound right) : 0 < coin.amount ∧ (∀ other ∈ left', coin.denom < other.denom) ∧
      (∀ other ∈ right', coin.denom < other.denom) ∧ Sound left' ∧ Sound right' := by
  rcases next?_cases made with ⟨rfl, rfl, first⟩ | ⟨rfl, rfl, first⟩ | ⟨a, b, same, rfl, rfl, rfl⟩
  · rcases sound_cons.mp sound with ⟨positive, above, rest⟩
    exact ⟨positive, above, denom_lt_of_head? sound' first, rest, sound'⟩
  · rcases sound_cons.mp sound' with ⟨positive, above, rest⟩
    exact ⟨positive, denom_lt_of_head? sound first, above, sound, rest⟩
  · rcases sound_cons.mp sound with ⟨positive, above, rest⟩
    rcases sound_cons.mp sound' with ⟨positive', above', rest'⟩
    exact ⟨Int.add_pos positive positive', above, same ▸ above', rest, rest'⟩

theorem sound_merge {left right : List Coin} (sound : Sound left) (sound' : Sound right) :
    Sound (merge left right) := by
  refine merge_induction (P := fun left right found => Sound left → Sound right → Sound found)
    (fun _ _ => sound_nil) ?_ left right sound sound'
  intro left right coin left' right' made ih sound sound'
  rcases sound_next? made sound sound' with ⟨positive, above, above', rest, rest'⟩
  have some : coin.isZero = false :=
    Bool.eq_false_iff.mpr (mt Coin.isZero_iff.mp (ne_of_gt positive))
  rw [keep, some]
  refine sound_cons.mpr ⟨positive, fun other member => ?_, ih rest rest'⟩
  rcases denom_mem_of_merge left' right' other member with inside | inside <;>
    rcases List.mem_map.mp inside with ⟨source, present, same⟩ <;> rw [← same]
  · exact above source present
  · exact above' source present

theorem sound_foldl_add {start : Coins} {sets : List Coins} (first : Sound start.entries)
    (each : ∀ coins ∈ sets, Sound coins.entries) : Sound (sets.foldl add start).entries := by
  induction sets generalizing start with
  | nil => exact first
  | cons coins sets ih =>
      obtain ⟨next, others⟩ := List.forall_mem_cons.mp each
      exact ih (sound_merge first next) others

theorem heldByAll_perm (denom : String) {sets others : List Coins} (perm : sets.Perm others) :
    heldByAll denom sets = heldByAll denom others := by
  induction perm with
  | nil => rfl
  | cons coins _ ih => rw [heldByAll, heldByAll, ih]
  | swap a b sets =>
      simp only [heldByAll]
      omega
  | trans _ _ first second => rw [first, second]

/-- Sound sets add up to the same coins in any order. -/
theorem total_perm {sets others : List Coins} (each : ∀ coins ∈ sets, Sound coins.entries)
    (perm : sets.Perm others) : total sets = total others := by
  have sound : Sound (total sets).entries := sound_foldl_add sound_nil each
  have sound' : Sound (total others).entries :=
    sound_foldl_add sound_nil fun coins member => each coins (perm.mem_iff.mpr member)
  have same : (total sets).entries = (total others).entries := by
    apply eq_of_held_eq sound sound'
    intro denom
    rw [held_total, held_total, heldByAll_perm denom perm]
  exact congrArg Coins.mk same

end Devnet.Coins
