import Devnet.Proofs.Genesis.Contents
import Devnet.Proofs.Json.Members
import Devnet.Proofs.Json.Steady
import Mathlib

namespace Devnet

open Codec Fields JsonNumber

theorem Envelope.Made.steady {envelope : Envelope} {depth more : Nat} (settled : envelope.Settled depth)
    (deeper : depth ≤ more) : envelope.Made Steady more where
  toFormed := settled.toFormed
  within field member := ((settled.within field member).imp fun _ => Whole.steady).mono deeper

theorem Auth.Section.returns_codec : Section.codec.Returns
    (fun room s => ∀ account ∈ s.accounts, account.Made Steady (room - 3)) 3 :=
  (returns_record (returns_cons Params.exact_codec.returns <|
    returns_cons (returns_list Envelope.returns_codec) returns_nil) (by decide)
    (fun _ => rfl) fun _ => rfl).congr fun _ _ => by simp [Always, Nat.sub_sub]

namespace Staking

theorem Validator.returns_codec : Validator.codec.Returns
    (fun room v => v.InRange ∧ v.consensusKey.Made Steady (room - 2)) 3 :=
  (returns_record (returns_cons exact_string.returns <| returns_cons Envelope.returns_codec <|
    returns_cons exact_bool.returns <| returns_cons BondStatus.exact_codec.returns <|
    returns_cons exact_integer.returns <| returns_cons exact_decimal.returns <|
    returns_cons Description.exact_codec.returns <| returns_cons exact_int64Text.returns <|
    returns_cons exact_string.returns <| returns_cons Commission.exact_codec.returns <|
    returns_cons exact_integer.returns returns_nil) (by decide) (fun _ => rfl) fun _ => rfl).congr
    fun _ _ => by simp [Always, InRange, Nat.sub_sub, and_comm]

theorem Section.returns_codec : Section.codec.Returns
    (fun room s => s.InRange ∧ ∀ v ∈ s.validators, v.consensusKey.Made Steady (room - 4)) 5 :=
  (returns_record (returns_cons Params.exact_codec.returns <| returns_cons exact_integer.returns <|
    returns_cons (returns_list LastPower.exact_codec.returns) <|
    returns_cons (returns_list Validator.returns_codec) <|
    returns_cons (returns_list Delegation.exact_codec.returns) <|
    returns_cons (returns_list UnbondingDelegation.exact_codec.returns) <|
    returns_cons (returns_list Redelegation.exact_codec.returns) <|
    returns_cons exact_bool.returns returns_nil) (by decide) (fun _ => rfl) fun _ => rfl).congr
    fun room s => by
      simp only [Always, Nat.sub_sub, forall_and, implies_true, true_and, and_true]
      constructor
      · rintro ⟨params, total, ⟨validators, keys⟩, delegations, unbonding, redelegations⟩
        exact ⟨⟨params, total, validators, delegations, unbonding, redelegations⟩, keys⟩
      · rintro ⟨⟨params, total, validators, delegations, unbonding, redelegations⟩, keys⟩
        exact ⟨params, total, ⟨validators, keys⟩, delegations, unbonding, redelegations⟩

end Staking

namespace Module

def levels : Module → Nat
  | .auth => 3
  | .staking => 4
  | _ => 0

variable {m : Module} {content : m.Content}

theorem decode_reading_eq_ok {room : Nat} (enough : leastRoom ≤ room) :
    m.codec.decode room (.reading (m.codec.encode content)) = .ok content ↔ m.InRange content ∧
      ∀ envelope ∈ m.envelopes content, envelope.Made Steady (room - m.levels) := by
  rw [leastRoom] at enough
  cases m with
  | auth =>
      exact (Auth.Section.returns_codec room content (by omega)).trans (and_iff_right trivial).symm
  | staking =>
      refine (Staking.Section.returns_codec room content (by omega)).trans ?_
      exact and_congr_right' List.forall_mem_map.symm
  | bank =>
      exact (Bank.Section.exact_codec.returns room content enough).trans
        (and_iff_left (List.forall_mem_nil _)).symm
  | inflation =>
      exact (Inflation.Section.exact_codec.returns room content (by omega)).trans
        (and_iff_left (List.forall_mem_nil _)).symm
  | evm =>
      exact (Evm.Section.exact_codec.returns room content (by omega)).trans
        (and_iff_left (List.forall_mem_nil _)).symm

def Proper (m : Module) (content : m.Content) : Prop :=
  ∃ depth, (m.codec.encode content).Within RawJson.Proper depth

/-- A section with numbers of the format comes back from its document exactly if its own numbers are in
range and the envelopes in it have no second type URL, are not nested too deeply and hold no number that
is read as another one. -/
theorem ofBytes_toBytes_eq_ok (proper : m.Proper content) :
    m.codec.ofBytes (m.codec.toBytes content) = .ok content ↔ m.InRange content ∧
      ∀ envelope ∈ m.envelopes content, envelope.Made Steady (Codec.maxDepth - m.levels) := by
  obtain ⟨depth, within⟩ := proper
  rw [← decode_reading_eq_ok (show leastRoom ≤ Codec.maxDepth by decide)]
  unfold Codec.ofBytes Codec.toBytes
  rw [(RawJson.readable_reading within).ofBytes_encode, Codec.ofDocument_eq_ok]
  exact and_iff_left rfl

end Module
end Devnet
