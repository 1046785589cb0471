import Devnet.Proofs.Genesis.Documents
import Devnet.Proofs.Genesis.Seen
import Mathlib

namespace Devnet.Auth

namespace BaseAccount

open Codec Fields

def Keyless (account : BaseAccount) : Prop := account.publicKey = none

def KeyFormed (account : BaseAccount) : Prop :=
  ∀ key ∈ account.publicKey, Envelope.Formed key.fields

theorem Keyless.keyFormed {account : BaseAccount} (keyless : account.Keyless) : account.KeyFormed := by
  intro key member
  rw [show account.publicKey = none from keyless] at member
  cases member

def members (account : BaseAccount) : List (String × Json) :=
  [("address", (Codec.address .account).encode account.address),
   ("pub_key", (Codec.option Envelope.codec).encode account.publicKey),
   ("account_number", Codec.uint64Text.encode account.accountNumber),
   ("sequence", Codec.uint64Text.encode account.sequence)]

theorem packs (account : BaseAccount) : Envelope.Packs message account account.members :=
  Envelope.packs_record account (by decide)

theorem settled_pack {account : BaseAccount} (keyless : account.Keyless) :
    (Envelope.pack message account).Settled 0 := by
  apply account.packs.settled
  simp only [members, show account.publicKey = none from keyless, List.forall_mem_cons]
  exact ⟨.string 0 _, .null 0, .string 0 _, .string 0 _, List.forall_mem_nil _⟩

/-- An account is read back from a document that holds it, whatever is in the envelope of its key. -/
theorem echoes_codec {good : JsonNumber → Prop} {a : Arrangement} {room : Nat} {account : BaseAccount}
    (formed : account.KeyFormed) (within : (a.apply (codec.encode account)).Within good (room + 1)) :
    codec.Echoes a (room + 1) account account.address.Sized := by
  have distinct : (account.members.map Prod.fst).Nodup := by
    change ["address", "pub_key", "account_number", "sequence"].Nodup
    decide
  obtain ⟨_, same, each⟩ := a.within_object distinct within
  obtain rfl := Nat.succ.inj same
  have key : (Codec.option Envelope.codec).Echoes a room account.publicKey
      (∀ key ∈ account.publicKey, True) := by
    refine echoes_option (fun key _ null => by cases a <;> cases null) fun key member => ?_
    have field := each ("pub_key", (Codec.option Envelope.codec).encode account.publicKey)
      (List.mem_cons_of_mem _ List.mem_cons_self)
    have held : account.publicKey = some key := member
    simp only [held] at field
    obtain ⟨_, rfl, made⟩ := (formed key member).made field
    exact made.echoes a
  have address : (Codec.address .account).Echoes a room account.address account.address.Sized :=
    (exact_address .account).echoes_of_fit (Nat.zero_le room) trivial
  have number : ∀ n, Codec.uint64Text.Echoes a room n True := fun _ =>
    exact_uint64Text.echoes_of_fit (Nat.zero_le room) trivial
  have record : codec.Echoes a (room + 1) account
      (account.address.Sized ∧ (∀ key ∈ account.publicKey, True) ∧ True ∧ True ∧ True) :=
    echoes_record (echoes_cons address <| echoes_cons key <|
      echoes_cons (number account.accountNumber) <| echoes_cons (number account.sequence) echoes_nil)
      (by decide) fun _ => rfl
  exact record.congr (by simp)

theorem unpack_pack {account found : BaseAccount} (formed : account.KeyFormed) :
    (Envelope.pack message account).unpack message = .ok found ↔
      account.address.Sized ∧ found = account :=
  account.packs.unpack_eq_ok fun _ within => echoes_codec formed within

theorem of_decode {room : Nat} {raw : RawJson} {account : BaseAccount}
    (read : codec.decode room raw = .ok account) : account.address.Sized ∧ account.KeyFormed := by
  obtain ⟨⟨_, _, _, _, ⟨⟩⟩, taken, rfl⟩ := map_eq_ok.mp read
  obtain ⟨_, -, address, key, -⟩ := Fields.from_decode taken
  constructor
  · rcases address with absent | ⟨raw, -, taken⟩
    · cases absent
    · exact (exact_address .account).sound _ raw _ taken
  · intro envelope member
    rcases key with absent | ⟨raw, -, taken⟩
    · cases absent
      cases member
    · obtain ⟨_, -, made⟩ :=
        Envelope.made_decode (RawJson.numbers_any raw) (decode_of_mem_option taken member)
      exact made.toFormed

end BaseAccount

namespace Section

theorem checkAccount_eq_ok (seen : List AccountAddress) (account : BaseAccount)
    (after : List AccountAddress) :
    checkAccount seen account = .ok after ↔
      True ∧ account.address ∉ seen ∧ after = account.address :: seen := by
  rw [checkAccount, Seen.add_eq_ok, true_and]

theorem baseAccounts_eq_ok {s : Section} {accounts : List BaseAccount} :
    s.baseAccounts = .ok accounts ↔
      List.Forall₂ (fun envelope account => envelope.unpack BaseAccount.message = .ok account)
        s.accounts accounts := by
  simp only [baseAccounts, mapM_eq_ok, mapError_eq_ok]

theorem validate_eq_ok {s : Section} {done : Unit} :
    s.validate = .ok done ↔
      s.params.validate = .ok () ∧ ∃ accounts, s.baseAccounts = .ok accounts ∧
        (accounts.map BaseAccount.address).Nodup := by
  unfold validate
  simp only [bind_eq_ok, Seen.discard_foldlM_eq_ok checkAccount_eq_ok, implies_true, true_and]
  constructor
  · intro given
    rcases given with ⟨⟨⟩, params, accounts⟩
    exact ⟨params, accounts⟩
  · intro given
    rcases given with ⟨params, accounts⟩
    exact ⟨(), params, accounts⟩

theorem baseAccounts_ofAccounts {params : Params} {accounts found : List BaseAccount}
    (keyless : ∀ account ∈ accounts, account.Keyless) :
    (ofAccounts params accounts).baseAccounts = .ok found ↔
      (∀ account ∈ accounts, account.address.Sized) ∧ found = accounts := by
  have each : ∀ account ∈ accounts, ∀ other,
      (Envelope.pack BaseAccount.message account).unpack BaseAccount.message = .ok other ↔
        account.address.Sized ∧ other = id account := fun account member _ =>
    BaseAccount.unpack_pack (keyless account member).keyFormed
  rw [baseAccounts_eq_ok, ofAccounts, List.forall₂_map_left_iff, forall₂_good_iff each, List.map_id]

end Section
end Devnet.Auth
