import Devnet.Network.Founding
import Devnet.Proofs.Consensus.AppKeys
import Devnet.Proofs.Consensus.Members
import Devnet.Proofs.Crypto.Lengths
import Devnet.Proofs.Genesis.Staking
import Mathlib

namespace Devnet

namespace Validator

variable {v : Validator}

theorem Made.sized_operator (made : v.Made) : v.operator.Sized := by
  have length : v.operator.bytes.length = 20 :=
    (congrArg (fun address => address.bytes.length) made.address_eq).trans (PublicKey.length_address _)
  rw [Address.Sized, length]
  decide

theorem nodup_publicKeys {validators : List Validator} (made : ∀ v ∈ validators, v.Made)
    (distinct : (validators.map address).Nodup) : (validators.map publicKey).Nodup := by
  apply List.Nodup.of_map PublicKey.address
  rw [List.map_map]
  rwa [List.map_congr_left fun v member => (made v member).address_eq] at distinct

theorem nodup_operators {validators : List Validator} (distinct : (validators.map address).Nodup) :
    (validators.map fun v => v.operator.render).Nodup := by
  have written : (validators.map fun v => v.operator.render) =
      (validators.map address).map fun address => (⟨address.bytes⟩ : OperatorAddress).render := by
    rw [List.map_map]
    rfl
  rw [written]
  apply distinct.map
  rintro ⟨a⟩ ⟨b⟩ same
  cases Address.render_injective same
  rfl

end Validator

namespace Staking

/-- What the application keeps for a consensus validator with some bonded tokens. -/
structure Validator.Counterpart (tokens : Int) (v : Devnet.Validator) (founder : Validator) :
    Prop where
  operatorAddress : founder.operatorAddress = v.operator.render
  publicKey : founder.publicKey = .ok v.publicKey
  tokens : founder.tokens = tokens
  bonded : founder.isBonded = true
  free : founder.jailed = false
  shares : founder.delegatorShares = .one
  commission : founder.commission = .free

namespace Validator

variable {tokens : Int} {v : Devnet.Validator} {founder : Validator}

theorem Counterpart.valid (backs : Counterpart tokens v founder) (made : v.Made) :
    founder.Valid where
  operator := ⟨v.operator, by
    rw [backs.operatorAddress]
    exact Address.parse_render_eq_ok.mpr ⟨made.sized_operator, rfl⟩⟩
  free := by simp [backs.free]
  shared := by simp [backs.shares, Decimal.isZero, Decimal.one, Decimal.scale, tenTo]
  commission := by
    rw [backs.commission]
    rfl

theorem ofConsensus_counterpart (converted : ofConsensus v tokens = .ok founder) :
    Counterpart tokens v founder := by
  obtain ⟨key, convertible, built⟩ := bind_eq_ok.mp converted
  obtain rfl := pure_eq_ok.mp built
  obtain ⟨-, same⟩ := PublicKey.convert_eq_ok.mp convertible
  refine ⟨rfl, ?_, rfl, rfl, rfl, rfl, rfl⟩
  rw [publicKey, AppKey.unpack_pack, ← same]
  rfl

end Validator

variable {tokens : Int} {validators : List Devnet.Validator} {founders : List Validator}

theorem counterparts (converted : validatorsFrom validators tokens = .ok founders) :
    List.Forall₂ (Validator.Counterpart tokens) validators founders :=
  (mapM_eq_ok.mp converted).imp fun _ _ => Validator.ofConsensus_counterpart

theorem operatorAddresses_counterparts
    (each : List.Forall₂ (Validator.Counterpart tokens) validators founders) :
    founders.map Validator.operatorAddress = validators.map fun v => v.operator.render := by
  induction each with
  | nil => rfl
  | cons first _ ih => rw [List.map_cons, List.map_cons, first.operatorAddress, ih]

theorem filter_counterparts
    (each : List.Forall₂ (Validator.Counterpart tokens) validators founders) :
    founders.filter Validator.isBonded = founders := by
  rw [List.filter_eq_self]
  intro founder member
  obtain ⟨v, -, backs⟩ := exists_of_forall₂ each member
  exact backs.bonded

theorem tokensOf_counterparts
    (each : List.Forall₂ (Validator.Counterpart tokens) validators founders) :
    tokensOf founders = validators.length * tokens := by
  induction each with
  | nil => simp [tokensOf]
  | cons first _ ih =>
      rw [tokensOf, first.tokens, ih, List.length_cons, Nat.cast_succ, Int.add_mul, Int.one_mul,
        Int.add_comm]

def startSection (denom : String) (delegator : AccountAddress) (validators : List Devnet.Validator)
    (founders : List Validator) : Section :=
  .make { Params.standard with bondDenom := denom } founders (delegationsFrom delegator validators)

variable {denom : String} {delegator : AccountAddress}

theorem bondedTokens_startSection
    (each : List.Forall₂ (Validator.Counterpart tokens) validators founders) :
    (startSection denom delegator validators founders).bondedTokens = validators.length * tokens :=
  (congrArg tokensOf (filter_counterparts each)).trans (tokensOf_counterparts each)

theorem validate_startSection (made : ∀ v ∈ validators, v.Made)
    (each : List.Forall₂ (Validator.Counterpart tokens) validators founders)
    (distinct : (validators.map Devnet.Validator.address).Nodup)
    (known : Denom.isValid denom = true) (sized : delegator.Sized) :
    (startSection denom delegator validators founders).validate = .ok () := by
  have operators := operatorAddresses_counterparts each
  have keys : List.Forall₂ (fun founder key => Validator.publicKey founder = .ok key) founders
      (validators.map Devnet.Validator.publicKey) := by
    rw [List.forall₂_map_right_iff]
    exact each.flip.imp fun _ _ backs => backs.publicKey
  refine Section.validate_eq_ok.mpr {
    params := Params.validate_standard known
    validators := ?_
    operators := operators.symm ▸ Devnet.Validator.nodup_operators distinct
    keys := ⟨_, keys, Devnet.Validator.nodup_publicKeys made distinct⟩
    delegators := ?_
    delegations := ?_ }
  · intro founder member
    obtain ⟨v, inside, backs⟩ := exists_of_forall₂ each member
    exact backs.valid (made v inside)
  · intro delegation member
    obtain ⟨v, -, rfl⟩ := List.mem_map.mp member
    exact ⟨delegator, Address.parse_render_eq_ok.mpr ⟨sized, rfl⟩⟩
  · intro delegation member
    obtain ⟨v, inside, rfl⟩ := List.mem_map.mp member
    exact operators.symm ▸ List.mem_map_of_mem inside

end Staking
end Devnet
