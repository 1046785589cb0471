import Devnet.Proofs.Consensus.Powers
import Devnet.Proofs.Text.Hex
import Mathlib

namespace Devnet

theorem ConsensusAddress.render_injective : Function.Injective render := by
  rintro ⟨a⟩ ⟨b⟩ same
  cases Hex.encodeUpper_injective same
  rfl

namespace Validator

def Made (v : Validator) : Prop := ∃ key power, v = .ofKey key power

theorem Made.address_eq {v : Validator} (made : v.Made) : v.address = v.publicKey.address := by
  obtain ⟨key, power, rfl⟩ := made
  rfl

end Validator

namespace ValidatorSet

variable {validators others : List Validator}

theorem address_eq_of_precedes {a b : Validator} (first : a.precedes b = true)
    (second : b.precedes a = true) : a.address = b.address := by
  rcases precedes_iff.mp first with more | ⟨same, least⟩
  · rcases precedes_iff.mp second with more' | ⟨same, -⟩ <;> omega
  · rcases precedes_iff.mp second with more | ⟨-, least'⟩
    · omega
    · exact congrArg ConsensusAddress.mk (List.le_antisymm least least')

theorem sorted_eq_of_perm (perm : validators.Perm others)
    (distinct : (validators.map Validator.address).Nodup) :
    validators.mergeSort Validator.precedes = others.mergeSort Validator.precedes := by
  have sorted := List.mergeSort_perm validators Validator.precedes
  have sorted' := List.mergeSort_perm others Validator.precedes
  refine List.Perm.eq_of_pairwise (fun a b inside inside' first second => ?_)
    (List.pairwise_mergeSort precedes_trans precedes_total validators)
    (List.pairwise_mergeSort precedes_trans precedes_total others)
    (sorted.trans (perm.trans sorted'.symm))
  have present : a ∈ validators := sorted.mem_iff.mp inside
  have present' : b ∈ validators := perm.mem_iff.mpr (sorted'.mem_iff.mp inside')
  exact List.inj_on_of_nodup_map distinct present present' (address_eq_of_precedes first second)

theorem isSome_find?_iff {set : ValidatorSet} {text : String} :
    (set.find? text).isSome = true ↔ ∃ v ∈ set.validators, v.address.render = text := by
  rw [find?, List.find?_isSome]
  simp only [beq_iff_eq]

theorem of_find? {set : ValidatorSet} {text : String} {v : Validator}
    (found : set.find? text = some v) : v ∈ set.validators ∧ v.address.render = text := by
  unfold find? at found
  have written := List.find?_some found
  exact ⟨List.mem_of_find?_eq_some found, eq_of_beq written⟩

theorem find?_eq_some_iff {set : ValidatorSet} (distinct : (set.validators.map Validator.address).Nodup)
    {text : String} {v : Validator} :
    set.find? text = some v ↔ v ∈ set.validators ∧ v.address.render = text := by
  constructor
  · exact of_find?
  · rintro ⟨member, written⟩
    have present := isSome_find?_iff.mpr ⟨v, member, written⟩
    obtain ⟨other, found⟩ := Option.isSome_iff_exists.mp present
    obtain ⟨inside, written'⟩ := of_find? found
    have same := ConsensusAddress.render_injective (written'.trans written.symm)
    rw [found, List.inj_on_of_nodup_map distinct inside member same]

def Ordered (validators : List Validator) : Prop :=
  validators.Pairwise fun a b => b.votingPower.toInt < a.votingPower.toInt ∨
    a.votingPower.toInt = b.votingPower.toInt ∧ a.address.bytes ≤ b.address.bytes

theorem ordered_sorted (validators : List Validator) :
    Ordered (validators.mergeSort Validator.precedes) :=
  (List.pairwise_mergeSort precedes_trans precedes_total validators).imp fun order =>
    precedes_iff.mp order

/-- A set holds the validators that it is made of, in its order. Under a text it finds somebody if the
text is an address of theirs in capitals. If no two addresses are the same, then it finds the one with
the address, and the set is the same for every order in which the validators are given. -/
theorem ofList?_members (made : ∀ v ∈ validators, v.Made) (fits : ¬Overflows validators) :
    ∃ set, ofList? validators = some set ∧ set.validators.Perm validators ∧ Ordered set.validators ∧
      (∀ text, (set.find? text).isSome = true ↔ ∃ v ∈ validators,
        Hex.decode text = .ok v.publicKey.address.bytes ∧ text.toUpper = text) ∧
      ((validators.map Validator.address).Nodup →
        (∀ others, others.Perm validators → ofList? others = some set) ∧
        ∀ text v, set.find? text = some v ↔
          v ∈ validators ∧ text = Hex.encodeUpper v.publicKey.address.bytes) := by
  have perm := List.mergeSort_perm validators Validator.precedes
  have written : ∀ v ∈ validators, ∀ text,
      v.address.render = text ↔ text = Hex.encodeUpper v.publicKey.address.bytes := by
    intro v member text
    rw [(made v member).address_eq, eq_comm]
    rfl
  refine ⟨_, (ofList?_eq validators).trans (if_neg fits), perm, ordered_sorted validators,
    fun text => ?_, fun distinct => ⟨fun others swapped => ?_, fun text v => ?_⟩⟩
  · rw [isSome_find?_iff]
    refine exists_congr fun v => ?_
    rw [perm.mem_iff]
    exact and_congr_right fun member => (written v member text).trans Hex.eq_encodeUpper_iff
  · rw [ofList?_eq, if_neg (mt (overflows_perm swapped).mp fits), total_perm swapped,
      sorted_eq_of_perm swapped.symm distinct]
  · rw [find?_eq_some_iff ((perm.map _).nodup_iff.mpr distinct), perm.mem_iff]
    exact and_congr_right fun member => written v member text

def threeValidators : List Validator :=
  [.ofKey ⟨.ed25519, [1]⟩ 1, .ofKey ⟨.secp256k1, [2]⟩ 5, .ofKey ⟨.ed25519, [3]⟩ 1]

theorem ofList?_members_threeValidators : ∃ set, ofList? threeValidators = some set ∧
    ofList? threeValidators.reverse = some set ∧
    set.find? (Hex.encodeUpper (PublicKey.address ⟨.secp256k1, [2]⟩).bytes) =
      some (.ofKey ⟨.secp256k1, [2]⟩ 5) := by
  have made : ∀ v ∈ threeValidators, v.Made := by
    rw [threeValidators, List.forall_mem_cons, List.forall_mem_cons, List.forall_mem_singleton]
    exact ⟨⟨_, _, rfl⟩, ⟨_, _, rfl⟩, ⟨_, _, rfl⟩⟩
  have distinct : (threeValidators.map Validator.address).Nodup := by decide +kernel
  obtain ⟨set, given, -, -, -, apart⟩ := ofList?_members made (by decide +kernel)
  obtain ⟨orders, finds⟩ := apart distinct
  exact ⟨set, given, orders _ (List.reverse_perm _), (finds _ _).mpr ⟨.tail _ (.head _), rfl⟩⟩

end ValidatorSet
end Devnet
