import Devnet.Proofs.Application.Verdict
import Devnet.Proofs.Consensus.AppKeys
import Devnet.Proofs.Genesis.Auth
import Devnet.Proofs.Genesis.Registry
import Devnet.Proofs.Genesis.RoundTrip
import Devnet.Proofs.Genesis.Staking
import Mathlib

namespace Devnet

theorem Staking.Validator.typeUrl_of_publicKey {v : Validator} {key : PublicKey}
    (unpacked : v.publicKey = .ok key) :
    v.consensusKey.typeUrl = AppKey.ed25519Message.typeUrl ∨
      v.consensusKey.typeUrl = AppKey.secp256k1Message.typeUrl := by
  unfold publicKey at unpacked
  obtain ⟨found, read, -⟩ := map_eq_ok.mp (mapError_eq_ok.mp unpacked)
  rw [← AppKey.typeUrl_pack_of_unpack read]
  cases found with
  | ed25519 bytes => exact Or.inl rfl
  | secp256k1 bytes => exact Or.inr rfl

namespace Auth

def Rekeyed (envelope other : Envelope) : Prop :=
  ∃ account key, envelope.unpack BaseAccount.message = .ok account ∧
    other.unpack BaseAccount.message = .ok { account with publicKey := key }

theorem exists_rekeyed {envelopes others : List Envelope} {accounts : List BaseAccount}
    (rekeyed : List.Forall₂ Rekeyed envelopes others)
    (unpacked : List.Forall₂ (fun envelope account =>
      envelope.unpack BaseAccount.message = .ok account) envelopes accounts) :
    ∃ found, List.Forall₂ (fun envelope account =>
        envelope.unpack BaseAccount.message = .ok account) others found ∧
      found.map BaseAccount.address = accounts.map BaseAccount.address := by
  induction rekeyed generalizing accounts with
  | nil =>
      cases unpacked
      exact ⟨[], .nil, rfl⟩
  | cons first _ ih =>
      cases unpacked with
      | cons read rest =>
          obtain ⟨account, key, before, after⟩ := first
          obtain rfl := Except.ok.inj (before.symm.trans read)
          obtain ⟨found, others, addresses⟩ := ih rest
          refine ⟨{ account with publicKey := key } :: found, .cons after others, ?_⟩
          rw [List.map_cons, List.map_cons, addresses]

end Auth

namespace Sections

/-- A registry knows the types of all envelopes: of the accounts, of the keys inside them, and of the
keys of the validators. -/
structure Registered (registry : Registry) (s : Sections) : Prop where
  accounts : ∀ envelope ∈ s.auth.accounts, envelope.typeUrl ∈ registry.typeUrls
  inner : ∀ accounts, s.auth.baseAccounts = .ok accounts →
    ∀ account ∈ accounts, ∀ key ∈ account.publicKey, key.typeUrl ∈ registry.typeUrls
  keys : ∀ v ∈ s.staking.validators, v.consensusKey.typeUrl ∈ registry.typeUrls

def withEnvelopes (s : Sections) (envelopes : List Envelope) : Sections :=
  { s with auth := { s.auth with accounts := envelopes } }

namespace Valid

variable {registry : Registry} {s : Sections}

theorem typeUrl_account (valid : s.Valid registry) {envelope : Envelope}
    (member : envelope ∈ s.auth.accounts) :
    envelope.typeUrl = Auth.BaseAccount.message.typeUrl ∧ envelope.typeUrl ∈ registry.typeUrls := by
  obtain ⟨account, unpacked⟩ := valid.accounts envelope member
  obtain ⟨known, read⟩ := Registry.unpack_eq_ok.mp unpacked
  exact ⟨Envelope.typeUrl_of_unpack read, known⟩

theorem typeUrl_key (valid : s.Valid registry) {v : Staking.Validator}
    (member : v ∈ s.staking.validators) :
    (v.consensusKey.typeUrl = AppKey.ed25519Message.typeUrl ∨
      v.consensusKey.typeUrl = AppKey.secp256k1Message.typeUrl) ∧
    v.consensusKey.typeUrl ∈ registry.typeUrls := by
  obtain ⟨keys, unpacked, -⟩ := (Staking.Section.validate_eq_ok.mp valid.staking).keys
  obtain ⟨key, -, read⟩ := exists_of_forall₂ unpacked.flip member
  exact ⟨Staking.Validator.typeUrl_of_publicKey read, Registry.check_eq_ok.mp (valid.keys v member)⟩

theorem standard (valid : s.Valid registry) : s.Valid .standard :=
  { valid with
    accounts := fun envelope member => by
      obtain ⟨account, unpacked⟩ := valid.accounts envelope member
      have known := (valid.typeUrl_account member).1
      exact ⟨account, Registry.unpack_eq_ok.mpr ⟨Registry.mem_typeUrls_standard.mpr
        (Or.inr (Or.inr known)), (Registry.unpack_eq_ok.mp unpacked).2⟩⟩
    keys := fun v member => by
      rw [Registry.check_eq_ok, Registry.mem_typeUrls_standard]
      rcases (valid.typeUrl_key member).1 with known | known
      · exact Or.inr (Or.inl known)
      · exact Or.inl known }

/-- The keys of accounts are not looked at. -/
theorem rekeyed (valid : s.Valid registry) {envelopes : List Envelope}
    (others : List.Forall₂ Auth.Rekeyed s.auth.accounts envelopes) :
    (s.withEnvelopes envelopes).Valid registry := by
  obtain ⟨params, accounts, unpacked, distinct⟩ := Auth.Section.validate_eq_ok.mp valid.auth
  have known : ∀ envelope ∈ envelopes,
      ∃ account, registry.unpack Auth.BaseAccount.message envelope = .ok account := by
    intro envelope member
    obtain ⟨source, inside, account, key, -, read⟩ := exists_of_forall₂ others member
    obtain ⟨type, registered⟩ := valid.typeUrl_account inside
    refine ⟨_, Registry.unpack_eq_ok.mpr ⟨?_, read⟩⟩
    rw [Envelope.typeUrl_of_unpack read, ← type]
    exact registered
  have auth : (s.withEnvelopes envelopes).auth.validate = .ok () := by
    obtain ⟨found, read, addresses⟩ :=
      Auth.exists_rekeyed others (Auth.Section.baseAccounts_eq_ok.mp unpacked)
    refine Auth.Section.validate_eq_ok.mpr
      ⟨params, found, Auth.Section.baseAccounts_eq_ok.mpr read, ?_⟩
    rw [addresses]
    exact distinct
  exact { valid with accounts := known, auth }

end Valid
end Sections

namespace Application

/-- In a genesis that is taken the registry knows the types of all accounts, which are base accounts,
and of the keys of all validators. It knows all types if and only if it knows those of the keys inside
the accounts; and these can be exchanged without any effect on the validators of the chain. -/
theorem initChain_registered {app : Application} {store next : Store} {request : InitRequest}
    {response : InitResponse} (taken : app.initChain store request = .ok (response, next)) :
    ∃ genesis sections accounts, Genesis.ofAppStateBytes request.appState = .ok genesis ∧
      genesis.sections = .ok sections ∧ sections.auth.baseAccounts = .ok accounts ∧
      (∀ envelope ∈ sections.auth.accounts, envelope.typeUrl = Auth.BaseAccount.message.typeUrl ∧
        envelope.typeUrl ∈ app.registry.typeUrls) ∧
      (∀ v ∈ sections.staking.validators, (v.consensusKey.typeUrl = AppKey.ed25519Message.typeUrl ∨
        v.consensusKey.typeUrl = AppKey.secp256k1Message.typeUrl) ∧
          v.consensusKey.typeUrl ∈ app.registry.typeUrls) ∧
      (sections.Registered app.registry ↔
        ∀ account ∈ accounts, ∀ key ∈ account.publicKey, key.typeUrl ∈ app.registry.typeUrls) ∧
      ∀ (other : InitRequest) (genesis' : Genesis) (envelopes : List Envelope),
        other.chainId = request.chainId → other.validators = request.validators →
        Genesis.ofAppStateBytes other.appState = .ok genesis' →
        genesis'.sections = .ok (sections.withEnvelopes envelopes) →
        List.Forall₂ Auth.Rekeyed sections.auth.accounts envelopes →
        ∃ next', app.initChain store other =
          .ok (⟨response.validators, Sha256.digest other.appState⟩, next') := by
  obtain ⟨chain, blank, genesis, sections, updates, approved, rfl, -⟩ := initChain_eq_ok.mp taken
  obtain ⟨-, accounts, unpacked, -⟩ := Auth.Section.validate_eq_ok.mp approved.valid.auth
  have envelopes := fun envelope (member : envelope ∈ sections.auth.accounts) =>
    approved.valid.typeUrl_account member
  have keys := fun v (member : v ∈ sections.staking.validators) => approved.valid.typeUrl_key member
  refine ⟨genesis, sections, accounts, approved.reads, approved.decodes, unpacked, envelopes, keys,
    ?_, ?_⟩
  · constructor
    · intro registered
      exact registered.inner accounts unpacked
    · intro known
      exact {
        accounts := fun envelope member => (envelopes envelope member).2
        inner := fun found read => by
          obtain rfl := Except.ok.inj (unpacked.symm.trans read)
          exact known
        keys := fun v member => (keys v member).2 }
  · intro other genesis' envelopes chain' expected reads decodes rekeyed
    have approved' : app.Approves other genesis' (sections.withEnvelopes envelopes) updates :=
      { reads
        decodes
        valid := approved.valid.rekeyed rekeyed
        powers := approved.powers
        expected := expected.symm ▸ approved.expected }
    exact ⟨_, initChain_eq_ok.mpr ⟨chain'.trans chain, blank, _, _, _, approved', rfl, rfl⟩⟩

def foreignAccount : Auth.BaseAccount := ⟨⟨List.replicate 20 1⟩, some ⟨"/foreign.Key", []⟩, 0, 0⟩

def foreignAuth : Auth.Section := .ofAccounts .standard [foreignAccount]

def foreignRequest : InitRequest where
  chainId := "evmos_9000-1"
  initialHeight := 1
  validators := []
  appState := Codec.members.toBytes [(Auth.moduleName, Auth.Section.codec.encode foreignAuth)]

def foreignGenesis : Genesis :=
  ⟨[(Auth.moduleName, Codec.json.toBytes (Auth.Section.codec.encode foreignAuth).normal)]⟩

def foreignSections : Sections := ⟨foreignAuth, .standard, .standard, .standard, .standard⟩

theorem settled_foreignAuth : ∀ envelope ∈ foreignAuth.accounts, envelope.Settled 1 := by
  have fields : (Envelope.pack Auth.BaseAccount.message foreignAccount).fields =
      [("account_number", .string "0"), ("address", .string foreignAccount.address.render),
        ("pub_key", .object [("@type", .string "/foreign.Key")]), ("sequence", .string "0")] := rfl
  have each : ∀ field ∈ (Envelope.pack Auth.BaseAccount.message foreignAccount).fields,
      field.2.normal = field.2 ∧ field.2.Within JsonNumber.Whole 1 := by
    rw [fields]
    intro field member
    simp only [List.mem_cons, List.not_mem_nil, or_false] at member
    rcases member with rfl | rfl | rfl | rfl
    · exact ⟨rfl, .string 1 _⟩
    · exact ⟨rfl, .string 1 _⟩
    · refine ⟨rfl, .object ?_⟩
      intro inner member
      rw [List.mem_singleton.mp member]
      exact .string 0 _
    · exact ⟨rfl, .string 1 _⟩
  intro envelope member
  rw [List.mem_singleton.mp member]
  refine ⟨⟨Table.ascending_ofEntries _, ?_, fun field inside => (each field inside).1⟩,
    fun field inside => (each field inside).2⟩
  rw [fields]
  decide

theorem reads_foreignRequest :
    Genesis.ofAppStateBytes foreignRequest.appState = .ok foreignGenesis := by
  apply Genesis.ofAppStateBytes_toBytes (List.pairwise_singleton _ _)
  intro entry member
  rw [List.mem_singleton.mp member]
  exact (Auth.Section.exact_codec.tidy foreignAuth settled_foreignAuth).mono (by decide)

theorem decodes_foreignGenesis : foreignGenesis.sections = .ok foreignSections := by
  have auth : foreignGenesis.sectionOrStandard .auth = .ok foreignAuth :=
    (Genesis.sectionOrStandard_eq_ok .auth Auth.Section.exact_codec (by decide) settled_foreignAuth
      rfl).mpr ⟨trivial, rfl⟩
  exact Genesis.sections_eq_ok.mpr ⟨auth, Genesis.sectionOrStandard_of_absent rfl,
    Genesis.sectionOrStandard_of_absent rfl, Genesis.sectionOrStandard_of_absent rfl,
    Genesis.sectionOrStandard_of_absent rfl⟩

theorem taken_foreignRequest : ∃ response next,
    (fresh "evmos_9000-1" ".evmosd" .dropped).initChain .empty foreignRequest =
      .ok (response, next) := by
  have checked : foreignSections.validate .standard = .ok () := by decide +kernel
  have approved : (fresh "evmos_9000-1" ".evmosd" .dropped).Approves foreignRequest foreignGenesis
      foreignSections [] :=
    { reads := reads_foreignRequest
      decodes := decodes_foreignGenesis
      valid := Sections.validate_eq_ok.mp checked
      powers := rfl
      expected := rfl }
  exact ⟨_, _, initChain_eq_ok.mpr ⟨rfl, rfl, _, _, _, approved, rfl, rfl⟩⟩

/-- The request is taken although the registry does not know the type of the key. -/
theorem not_registered_foreignRequest : ∃ response next genesis sections,
    (fresh "evmos_9000-1" ".evmosd" .dropped).initChain .empty foreignRequest =
      .ok (response, next) ∧
    Genesis.ofAppStateBytes foreignRequest.appState = .ok genesis ∧
    genesis.sections = .ok sections ∧
    ¬sections.Registered (fresh "evmos_9000-1" ".evmosd" .dropped).registry := by
  obtain ⟨response, next, taken⟩ := taken_foreignRequest
  refine ⟨response, next, _, _, taken, reads_foreignRequest, decodes_foreignGenesis, ?_⟩
  intro registered
  have keys : (foreignAuth.baseAccounts.map fun accounts =>
      accounts.map fun account => account.publicKey.map Envelope.typeUrl) =
        .ok [some "/foreign.Key"] := by decide +kernel
  obtain ⟨accounts, unpacked, types⟩ := map_eq_ok.mp keys
  obtain ⟨account, member, type⟩ := List.mem_map.mp (types ▸ List.mem_singleton_self _)
  obtain ⟨key, inner, url⟩ := Option.map_eq_some_iff.mp type
  have known := registered.inner accounts unpacked account member key inner
  rw [url, fresh, Registry.mem_typeUrls_standard] at known
  revert known
  decide

theorem initChain_registered_foreignRequest : ∃ response next,
    (fresh "evmos_9000-1" ".evmosd" .dropped).initChain .empty foreignRequest =
      .ok (response, next) ∧
    ∃ genesis sections accounts, Genesis.ofAppStateBytes foreignRequest.appState = .ok genesis ∧
      genesis.sections = .ok sections ∧ sections.auth.baseAccounts = .ok accounts ∧
      (∀ envelope ∈ sections.auth.accounts, envelope.typeUrl = Auth.BaseAccount.message.typeUrl ∧
        envelope.typeUrl ∈ Registry.standard.typeUrls) ∧
      (sections.Registered .standard ↔
        ∀ account ∈ accounts, ∀ key ∈ account.publicKey, key.typeUrl ∈ Registry.standard.typeUrls) := by
  obtain ⟨response, next, taken⟩ := taken_foreignRequest
  obtain ⟨genesis, sections, accounts, reads, decodes, unpacked, envelopes, -, registered, -⟩ :=
    initChain_registered taken
  exact ⟨response, next, taken, genesis, sections, accounts, reads, decodes, unpacked, envelopes,
    registered⟩

end Application
end Devnet
