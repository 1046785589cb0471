import Devnet.Genesis.Bank
import Devnet.Proofs.Coin.Held
import Devnet.Proofs.Genesis.Seen
import Mathlib

namespace Devnet.Bank

namespace Section

theorem checkBalance_eq_ok (seen : List String) (balance : Balance) (after : List String) :
    checkBalance seen balance = .ok after ↔
      ((∃ account, Address.parse .account balance.address = .ok account) ∧
        balance.coins.validate = .ok ()) ∧
      balance.address ∉ seen ∧ after = balance.address :: seen := by
  unfold checkBalance
  simp only [bind_eq_ok, discard_eq_ok, mapError_eq_ok, Seen.add_eq_ok, pure_eq_ok]
  constructor
  · intro given
    rcases given with ⟨_, spelled, _, ⟨new, rfl⟩, _, valid, rfl⟩
    exact ⟨⟨spelled, valid⟩, new, rfl⟩
  · intro given
    rcases given with ⟨⟨spelled, valid⟩, new, rfl⟩
    exact ⟨(), spelled, _, ⟨new, rfl⟩, (), valid, rfl⟩

theorem checkMetadata_eq_ok (seen : List String) (metadata : Metadata) (after : List String) :
    checkMetadata seen metadata = .ok after ↔
      Denom.isValid metadata.base = true ∧ metadata.base ∉ seen ∧ after = metadata.base :: seen := by
  unfold checkMetadata
  simp only [bind_eq_ok, mapError_eq_ok, Denom.validate_eq_ok, Seen.add_eq_ok, exists_const]

theorem checkSupply_eq_ok {s : Section} {done : Unit} :
    s.checkSupply = .ok done ↔ s.supply.isEmpty = true ∨ s.supply = s.balancesTotal := by
  unfold checkSupply
  split <;> simp_all

structure Valid (s : Section) : Prop where
  sendEnabled : ∀ entry ∈ s.params.sendEnabled ++ s.sendEnabled, Denom.isValid entry.denom = true
  accounts : ∀ balance ∈ s.balances, ∃ account, Address.parse .account balance.address = .ok account
  coins : ∀ balance ∈ s.balances, balance.coins.validate = .ok ()
  addresses : (s.balances.map Balance.address).Nodup
  metadata : ∀ metadata ∈ s.denomMetadata, Denom.isValid metadata.base = true
  bases : (s.denomMetadata.map Metadata.base).Nodup
  supply : s.supply.isEmpty = true ∨ s.supply = s.balancesTotal

theorem validate_eq_ok {s : Section} {done : Unit} : s.validate = .ok done ↔ s.Valid := by
  unfold validate
  simp only [bind_eq_ok, forM_eq_ok, mapError_eq_ok, Denom.validate_eq_ok, checkSupply_eq_ok,
    Seen.discard_foldlM_eq_ok checkBalance_eq_ok, Seen.discard_foldlM_eq_ok checkMetadata_eq_ok,
    exists_const]
  constructor
  · intro given
    rcases given with ⟨sendEnabled, ⟨balances, addresses⟩, ⟨metadata, bases⟩, supply⟩
    exact ⟨sendEnabled, fun b member => (balances b member).1, fun b member => (balances b member).2,
      addresses, metadata, bases, supply⟩
  · intro given
    rcases given with ⟨sendEnabled, accounts, coins, addresses, metadata, bases, supply⟩
    exact ⟨sendEnabled, ⟨fun b member => ⟨accounts b member, coins b member⟩, addresses⟩,
      ⟨metadata, bases⟩, supply⟩

def heldBy (account : AccountAddress) (denom : String) : List Balance → Int
  | [] => 0
  | balance :: balances =>
    (if Address.parse .account balance.address = .ok account then
      Coins.held denom balance.coins.entries else 0) + heldBy account denom balances

def heldAside (account : AccountAddress) (denom : String) : List Balance → Int
  | [] => 0
  | balance :: balances =>
    (if Address.parse .account balance.address = .ok account ∧ balance.address ≠ account.render then
      Coins.held denom balance.coins.entries else 0) + heldAside account denom balances

/-- The balance of an account counts one of its spellings; the others stand aside. -/
theorem heldBy_eq (account : AccountAddress) (denom : String) (balances : List Balance)
    (reads : Address.parse .account account.render = .ok account) :
    heldBy account denom balances =
      Coins.heldByAll denom ((balances.filter fun balance => balance.address == account.render).map
        Balance.coins) + heldAside account denom balances := by
  induction balances with
  | nil => rfl
  | cons balance balances ih =>
      rw [heldBy, heldAside, ih]
      by_cases written : balance.address = account.render
      · rw [List.filter_cons_of_pos (by simpa using written), List.map_cons, Coins.heldByAll,
          written, if_pos reads, if_neg fun aside => aside.2 rfl]
        omega
      · rw [List.filter_cons_of_neg (by simpa using written)]
        by_cases spelled : Address.parse .account balance.address = .ok account
        · rw [if_pos spelled, if_pos ⟨spelled, written⟩]
          omega
        · rw [if_neg spelled, if_neg fun aside => spelled aside.1]
          omega

theorem heldAside_nonneg (account : AccountAddress) (denom : String) {balances : List Balance}
    (valid : ∀ balance ∈ balances, balance.coins.validate = .ok ()) :
    0 ≤ heldAside account denom balances := by
  induction balances with
  | nil => exact Int.le_refl 0
  | cons balance balances ih =>
      have amounts := (Coins.validate_eq_ok.mp (valid balance List.mem_cons_self)).1
      have first := Coins.held_nonneg denom fun coin member => (amounts coin member).2
      have others := ih fun other member => valid other (List.mem_cons_of_mem _ member)
      rw [heldAside]
      split <;> omega

def OneSpelling (account : AccountAddress) (balances : List Balance) : Prop :=
  ∀ balance ∈ balances, Address.parse .account balance.address = .ok account →
    balance.address ≠ account.render → balance.coins = .empty

/-- Since amounts are positive, nothing stands aside exactly when no coin does. -/
theorem heldAside_eq_zero_iff (account : AccountAddress) {balances : List Balance}
    (valid : ∀ balance ∈ balances, balance.coins.validate = .ok ()) :
    (∀ denom, heldAside account denom balances = 0) ↔ OneSpelling account balances := by
  induction balances with
  | nil => simp [heldAside, OneSpelling]
  | cons balance balances ih =>
      have validRest : ∀ other ∈ balances, other.coins.validate = .ok () :=
        fun other member => valid other (List.mem_cons_of_mem _ member)
      have amounts := (Coins.validate_eq_ok.mp (valid balance List.mem_cons_self)).1
      have positive : ∀ coin ∈ balance.coins.entries, 0 < coin.amount :=
        fun coin member => (amounts coin member).2
      rw [OneSpelling, List.forall_mem_cons, ← OneSpelling, ← ih validRest]
      constructor
      · intro nothing
        -- No balance holds less than nothing, so none of them makes up for another.
        have others : ∀ denom, heldAside account denom balances = 0 := by
          intro denom
          have all := nothing denom
          have rest := heldAside_nonneg account denom validRest
          have first := Coins.held_nonneg denom positive
          rw [heldAside] at all
          split at all <;> omega
        refine ⟨fun spelled aside => ?_, others⟩
        have entries : balance.coins.entries = [] := by
          apply Coins.eq_nil_of_held_eq_zero positive
          intro denom
          have all := nothing denom
          rw [heldAside, if_pos ⟨spelled, aside⟩, others denom] at all
          omega
        exact congrArg Coins.mk entries
      · rintro ⟨first, others⟩ denom
        rw [heldAside, others denom]
        split
        · rename_i aside
          rw [first aside.1 aside.2]
          rfl
        · rfl

end Section
end Devnet.Bank
