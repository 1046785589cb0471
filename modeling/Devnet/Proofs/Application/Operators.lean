import Devnet.Proofs.Application.Validators
import Devnet.Proofs.Genesis.Spelled
import Mathlib

/-! What tells the validators of a staking section apart. No two have the same consensus key. Their
operators are told apart by the texts only, so an operator can have a validator for each of its
spellings, and a delegation names one of them. -/

namespace Devnet.Staking

open Bech32 (Spelling)

def Validator.SameOperator (a b : Validator) : Prop :=
  ∃ operator, Address.parse .operator a.operatorAddress = .ok operator ∧
    Address.parse .operator b.operatorAddress = .ok operator

namespace Section

variable {s : Section}

def operatedBy (s : Section) (operator : OperatorAddress) : List Validator :=
  s.validators.filter fun v => Address.parse .operator v.operatorAddress = .ok operator

def OnePerOperator (s : Section) : Prop :=
  s.validators.Pairwise fun a b => ¬a.SameOperator b

def SpelledAlike (s : Section) : Prop :=
  ∀ a ∈ s.validators, ∀ b ∈ s.validators,
    ∀ (operator : OperatorAddress) (first second : Spelling),
      a.operatorAddress = first.write operator → b.operatorAddress = second.write operator →
        first = second

/-- The text of a delegation is that of one validator, and is read as its operator. The operator has no
other validator exactly when it has none under another spelling. -/
structure Backs (s : Section) (delegation : Delegation) (v : Validator) (operator : OperatorAddress) :
    Prop where
  validator : s.validators.filter (fun other =>
    other.operatorAddress == delegation.validatorAddress) = [v]
  read : Address.parse .operator delegation.validatorAddress = .ok operator
  operatedBy_iff : s.operatedBy operator = [v] ↔ ∀ other ∈ s.validators,
    Address.parse .operator other.operatorAddress = .ok operator →
      other.operatorAddress = delegation.validatorAddress

theorem Valid.spelled_validators (valid : s.Valid) :
    Spelled (fun v operator => Address.parse .operator v.operatorAddress = .ok operator)
      Validator.operatorAddress Spelling.write s.validators :=
  spelled_of_parse valid.operators fun v member => (valid.validators v member).operator

theorem Valid.exists_publicKey (valid : s.Valid) {v : Validator} (member : v ∈ s.validators) :
    ∃ key, v.publicKey = .ok key := by
  obtain ⟨keys, unpacked, -⟩ := valid.keys
  have found : v.publicKey ∈ keys.map .ok := by
    rw [← map_publicKey_eq unpacked]
    exact List.mem_map_of_mem member
  obtain ⟨key, -, same⟩ := List.mem_map.mp found
  exact ⟨key, same.symm⟩

theorem Valid.backs (valid : s.Valid) {delegation : Delegation} (member : delegation ∈ s.delegations) :
    ∃ v operator, s.Backs delegation v operator := by
  have spelled := valid.spelled_validators
  obtain ⟨v, present, same⟩ := List.mem_map.mp (valid.delegations delegation member)
  obtain ⟨operator, read⟩ := spelled.named v present
  refine ⟨v, operator, ?_, ?_, ?_⟩
  · rw [← same]
    exact filter_key_eq_singleton valid.operators present
  · rw [← same]
    exact read
  · rw [← same]
    exact spelled.filter_eq_singleton_iff present read

/-- In an accepted section no two validators have the same key. An operator has as many as four
validators, one for each spelling, and no operator has two exactly when none is written in two
spellings. A delegation goes to the one validator with its text. -/
theorem operators_of_validate (accepted : s.validate = .ok ()) :
    (∀ v ∈ s.validators, ∃ (operator : OperatorAddress) (spelling : Spelling) (key : PublicKey),
      Address.parse .operator v.operatorAddress = .ok operator ∧
        v.operatorAddress = spelling.write operator ∧ v.publicKey = .ok key) ∧
    (s.validators.Pairwise fun a b => a.publicKey ≠ b.publicKey) ∧
    (∀ operator, (s.operatedBy operator).length ≤ 4) ∧
    (s.OnePerOperator ↔ s.SpelledAlike) ∧
    ∀ delegation ∈ s.delegations, ∃ v operator, s.Backs delegation v operator := by
  have valid := validate_eq_ok.mp accepted
  have spelled := valid.spelled_validators
  refine ⟨fun v member => ?_, List.pairwise_map.mp valid.nodup_map_publicKey,
    fun operator => spelled.length_filter_le operator Spelling.mem_all,
    spelled.pairwise_iff Address.write_injective2, fun delegation => valid.backs⟩
  obtain ⟨operator, spelling, read, written⟩ := spelled.exists_spelling member
  obtain ⟨key, unpacked⟩ := valid.exists_publicKey member
  exact ⟨operator, spelling, key, read, written, unpacked⟩

theorem valid_withOperator {v : Validator} (valid : v.Valid) {text : String}
    (read : ∃ operator, Address.parse .operator text = .ok operator) :
    ({ v with operatorAddress := text } : Validator).Valid :=
  { valid with operator := read }

theorem publicKey_withOperator (v : Validator) (text : String) :
    ({ v with operatorAddress := text } : Validator).publicKey = v.publicKey := rfl

def spelledValidator (operator : OperatorAddress) (spelling : Spelling) (byte : UInt8) : Validator :=
  { Application.uniformValidator byte Integer.powerReduction with
    operatorAddress := spelling.write operator }

theorem parse_spelledValidator {operator : OperatorAddress} (sized : operator.Sized)
    (spelling : Spelling) (byte : UInt8) :
    Address.parse .operator (spelledValidator operator spelling byte).operatorAddress = .ok operator :=
  Address.parse_eq_ok_iff.mpr ⟨sized, spelling, rfl⟩

theorem valid_spelledValidator {operator : OperatorAddress} (sized : operator.Sized)
    (spelling : Spelling) (byte : UInt8) : (spelledValidator operator spelling byte).Valid :=
  valid_withOperator (Application.isSample_uniformValidator byte _).valid
    ⟨operator, parse_spelledValidator sized spelling byte⟩

theorem publicKey_spelledValidator (operator : OperatorAddress) (spelling : Spelling) (byte : UInt8) :
    (spelledValidator operator spelling byte).publicKey =
      .ok ⟨.ed25519, List.replicate AppKey.ed25519Size byte⟩ := by
  rw [spelledValidator, publicKey_withOperator]
  exact (Application.isSample_uniformValidator byte _).publicKey_eq

def inEverySpelling (operator : OperatorAddress) (delegator : AccountAddress) : Section :=
  .make .standard
    ((Spelling.all.zip [1, 2, 3, 4]).map fun entry => spelledValidator operator entry.1 entry.2)
    [⟨delegator.render, operator.render, .one⟩]

section InEverySpelling

variable {operator : OperatorAddress} {delegator : AccountAddress}

/-- The bound is reached by every operator. -/
theorem validate_inEverySpelling (sized : operator.Sized) (sized' : delegator.Sized) :
    (inEverySpelling operator delegator).validate = .ok () := by
  have texts : (inEverySpelling operator delegator).validators.map Validator.operatorAddress =
      Spelling.all.map fun spelling => spelling.write operator := rfl
  refine validate_eq_ok.mpr
    { params := Params.validate_standard (by decide)
      validators := List.forall_mem_map.mpr fun entry _ => valid_spelledValidator sized entry.1 entry.2
      operators := ?_
      keys := ⟨[1, 2, 3, 4].map fun byte => ⟨.ed25519, List.replicate AppKey.ed25519Size byte⟩,
        ?_, by decide⟩
      delegators := List.forall_mem_singleton.mpr
        ⟨delegator, Address.parse_render_eq_ok.mpr ⟨sized', rfl⟩⟩
      delegations := List.forall_mem_singleton.mpr ?_ }
  · rw [texts]
    exact (show Spelling.all.Nodup by decide).map (Address.write_injective operator)
  · have unpacked := publicKey_spelledValidator operator
    exact .cons (unpacked _ 1) (.cons (unpacked _ 2) (.cons (unpacked _ 3) (.cons (unpacked _ 4) .nil)))
  · rw [texts, Address.render_eq_write]
    exact List.mem_map.mpr ⟨.written, Spelling.mem_all _, rfl⟩

theorem operatedBy_inEverySpelling (sized : operator.Sized) :
    (inEverySpelling operator delegator).operatedBy operator =
      (inEverySpelling operator delegator).validators :=
  List.filter_eq_self.mpr (List.forall_mem_map.mpr fun entry _ =>
    decide_eq_true (parse_spelledValidator sized entry.1 entry.2))

theorem not_onePerOperator_inEverySpelling (sized : operator.Sized) :
    ¬(inEverySpelling operator delegator).OnePerOperator := by
  intro single
  have apart := (List.pairwise_cons.mp single).1 _ List.mem_cons_self
  exact apart ⟨operator, parse_spelledValidator sized _ _, parse_spelledValidator sized _ _⟩

end InEverySpelling

def sharedStaking : Section := inEverySpelling ⟨List.replicate 20 1⟩ ⟨List.replicate 20 2⟩

theorem validate_sharedStaking : sharedStaking.validate = .ok () :=
  validate_inEverySpelling (by decide) (by decide)

/-- The section is accepted, although all of its validators have the operator that its delegation
names. -/
theorem not_onePerOperator_sharedStaking : sharedStaking.validate = .ok () ∧
    ¬sharedStaking.OnePerOperator ∧
    ∃ delegation ∈ sharedStaking.delegations, ∃ operator,
      Address.parse .operator delegation.validatorAddress = .ok operator ∧
        (sharedStaking.operatedBy operator).length = 4 := by
  refine ⟨validate_sharedStaking, not_onePerOperator_inEverySpelling (by decide), _,
    List.mem_cons_self, ⟨List.replicate 20 1⟩, Address.parse_render_eq_ok.mpr ⟨by decide, rfl⟩, ?_⟩
  rw [sharedStaking, operatedBy_inEverySpelling (by decide)]
  rfl

theorem operators_of_validate_sharedStaking : sharedStaking.validate = .ok () ∧
    (∀ operator, (sharedStaking.operatedBy operator).length ≤ 4) ∧
    (sharedStaking.OnePerOperator ↔ sharedStaking.SpelledAlike) ∧
    ∀ delegation ∈ sharedStaking.delegations, ∃ v operator,
      sharedStaking.Backs delegation v operator :=
  ⟨validate_sharedStaking, (operators_of_validate validate_sharedStaking).2.2⟩

end Section
end Devnet.Staking
