import Devnet.Network.Basic
import Devnet.Proofs.Genesis.Updates
import Devnet.Proofs.Network.Counterparts
import Mathlib

namespace Devnet

def Validator.Drawn (v : Validator) : Prop := ∃ pair : KeyPair, v = .ofKey pair.consensusKey 1

namespace Validator

variable {v : Validator}

theorem Drawn.made (drawn : v.Drawn) : v.Made := by
  obtain ⟨pair, rfl⟩ := drawn
  exact ⟨_, _, rfl⟩

theorem Drawn.publicKey_eq (drawn : v.Drawn) : v.publicKey = ⟨.ed25519, v.publicKey.bytes⟩ := by
  obtain ⟨pair, rfl⟩ := drawn
  rfl

theorem Drawn.length_publicKey (drawn : v.Drawn) : v.publicKey.bytes.length = 32 := by
  obtain ⟨pair, rfl⟩ := drawn
  exact pair.length_publicKey

theorem Drawn.votingPower_eq (drawn : v.Drawn) : v.votingPower = 1 := by
  obtain ⟨pair, rfl⟩ := drawn
  rfl

end Validator

theorem Network.bondedTokens_eq : bondedTokens = 10 ^ 18 := by decide

namespace Staking

def Validator.founder (v : Devnet.Validator) : Validator where
  operatorAddress := v.operator.render
  consensusKey := (AppKey.ed25519 v.publicKey.bytes).pack
  jailed := false
  status := .bonded
  tokens := Network.bondedTokens
  delegatorShares := .one
  description := .blank
  unbondingHeight := 0
  unbondingTime := noTime
  commission := .free
  minSelfDelegation := 0

namespace Validator

variable {v : Devnet.Validator}

theorem ofConsensus_drawn (drawn : v.Drawn) :
    ofConsensus v Network.bondedTokens = .ok (founder v) := by
  have key : AppKey.ofPublicKey v.publicKey = .ok (.ed25519 v.publicKey.bytes) := by
    rw [drawn.publicKey_eq]
    exact AppKey.convert_sized.trans (if_pos drawn.length_publicKey)
  unfold ofConsensus
  rw [key]
  rfl

theorem counterpart_founder (drawn : v.Drawn) :
    Counterpart Network.bondedTokens v (founder v) :=
  ofConsensus_counterpart (ofConsensus_drawn drawn)

theorem update?_founder (drawn : v.Drawn) : (founder v).update? = .ok (some ⟨v.publicKey, 1⟩) := by
  have power : (founder v).consensusPower Integer.powerReduction = .ok 1 := rfl
  rw [update?_eq_ok]
  refine ⟨1, power, ?_⟩
  rw [if_neg (by decide)]
  exact ⟨v.publicKey, (counterpart_founder drawn).publicKey, rfl⟩

theorem inRange_founder (v : Devnet.Validator) : (founder v).InRange := by
  have tokens : Integer.InRange Network.bondedTokens := by decide
  exact ⟨tokens, Decimal.inRange_one, Commission.inRange_free, Integer.inRange_zero⟩

end Validator

theorem validatorsFrom_drawn {validators : List Devnet.Validator}
    (drawn : ∀ v ∈ validators, v.Drawn) :
    validatorsFrom validators Network.bondedTokens = .ok (validators.map Validator.founder) :=
  mapM_ok fun v member => Validator.ofConsensus_drawn (drawn v member)

theorem counterparts_drawn {validators : List Devnet.Validator}
    (drawn : ∀ v ∈ validators, v.Drawn) :
    List.Forall₂ (Validator.Counterpart Network.bondedTokens) validators
      (validators.map Validator.founder) :=
  counterparts (validatorsFrom_drawn drawn)

end Staking
end Devnet
