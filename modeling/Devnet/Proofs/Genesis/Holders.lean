import Devnet.Proofs.Genesis.Bank
import Devnet.Proofs.Genesis.Spelled
import Mathlib

/-! How many balances of a section can belong to one account. The texts of the balances differ, and an
account has four texts, so there are at most four balances, and exactly one if the section keeps to one
spelling. -/

namespace Devnet.Bank

open Bech32 (Spelling)

def Balance.SameAccount (a b : Balance) : Prop :=
  ∃ account, Address.parse .account a.address = .ok account ∧
    Address.parse .account b.address = .ok account

namespace Section

variable {s : Section}

def named (s : Section) (account : AccountAddress) : List Balance :=
  s.balances.filter fun balance => Address.parse .account balance.address = .ok account

def OnePerAccount (s : Section) : Prop :=
  s.balances.Pairwise fun a b => ¬a.SameAccount b

def SpelledAlike (s : Section) : Prop :=
  ∀ a ∈ s.balances, ∀ b ∈ s.balances, ∀ (account : AccountAddress) (first second : Spelling),
    a.address = first.write account → b.address = second.write account → first = second

theorem Valid.spelled_balances (valid : s.Valid) :
    Spelled (fun balance account => Address.parse .account balance.address = .ok account)
      Balance.address Spelling.write s.balances :=
  spelled_of_parse valid.addresses valid.accounts

theorem Valid.spelled (valid : s.Valid) {balance : Balance} (member : balance ∈ s.balances) :
    ∃ (account : AccountAddress) (spelling : Spelling),
      Address.parse .account balance.address = .ok account ∧ balance.address = spelling.write account :=
  valid.spelled_balances.exists_spelling member

theorem Valid.length_named_le (valid : s.Valid) (account : AccountAddress) :
    (s.named account).length ≤ Spelling.all.length :=
  valid.spelled_balances.length_filter_le account Spelling.mem_all

theorem Valid.onePerAccount_iff (valid : s.Valid) : s.OnePerAccount ↔ s.SpelledAlike :=
  valid.spelled_balances.pairwise_iff Address.write_injective2

def everySpelling (account : AccountAddress) (coins : Coins) : Section :=
  { standard with balances := Spelling.all.map fun spelling => ⟨spelling.write account, coins⟩ }

/-- The bound is reached for every account. -/
theorem validate_everySpelling {account : AccountAddress} {coins : Coins} (sized : account.Sized)
    (sound : coins.validate = .ok ()) : (everySpelling account coins).validate = .ok () := by
  have all : ∀ balance ∈ (everySpelling account coins).balances,
      Address.parse .account balance.address = .ok account ∧ balance.coins = coins := by
    intro balance member
    obtain ⟨spelling, -, rfl⟩ := List.mem_map.mp member
    exact ⟨Address.parse_eq_ok_iff.mpr ⟨sized, spelling, rfl⟩, rfl⟩
  have addresses : ((everySpelling account coins).balances.map Balance.address).Nodup := by
    rw [everySpelling, List.map_map]
    exact (show Spelling.all.Nodup by decide).map (Address.write_injective account)
  exact validate_eq_ok.mpr
    { sendEnabled := fun _ member => absurd member List.not_mem_nil
      accounts := fun balance member => ⟨account, (all balance member).1⟩
      coins := fun balance member => (all balance member).2 ▸ sound
      addresses
      metadata := fun _ member => absurd member List.not_mem_nil
      bases := List.nodup_nil
      supply := Or.inl rfl }

/-- The balances of an accepted section are told apart by their texts only: an account has as many as
four, one for each spelling, and no account has two exactly when none is written in two spellings. -/
theorem spellings_of_validate (accepted : s.validate = .ok ()) :
    (∀ balance ∈ s.balances, ∃ (account : AccountAddress) (spelling : Spelling),
      Address.parse .account balance.address = .ok account ∧
        balance.address = spelling.write account) ∧
    (∀ account, (s.named account).length ≤ 4) ∧
    (s.OnePerAccount ↔ s.SpelledAlike) := by
  have valid := validate_eq_ok.mp accepted
  exact ⟨fun _ member => valid.spelled member, valid.length_named_le, valid.onePerAccount_iff⟩

def sharedSection : Section := everySpelling ⟨List.replicate 20 1⟩ ⟨[⟨"stake", 5⟩]⟩

/-- The section is accepted, although the same account has more than one balance. -/
theorem not_onePerAccount_sharedSection :
    sharedSection.validate = .ok () ∧ ¬sharedSection.OnePerAccount := by
  refine ⟨validate_everySpelling (by decide) (by decide), fun single => ?_⟩
  have read : ∀ spelling : Spelling, Address.parse .account
      (spelling.write (⟨List.replicate 20 1⟩ : AccountAddress)) = .ok ⟨List.replicate 20 1⟩ :=
    fun spelling => Address.parse_eq_ok_iff.mpr ⟨by decide, spelling, rfl⟩
  exact (List.pairwise_cons.mp single).1 _ List.mem_cons_self ⟨_, read _, read _⟩

theorem spellings_of_validate_sharedSection : sharedSection.validate = .ok () ∧
    (∀ account, (sharedSection.named account).length ≤ 4) ∧
    (sharedSection.OnePerAccount ↔ sharedSection.SpelledAlike) := by
  have accepted : sharedSection.validate = .ok () := validate_everySpelling (by decide) (by decide)
  exact ⟨accepted, (spellings_of_validate accepted).2⟩

end Section
end Devnet.Bank
