import Devnet.Proofs.Application.Expected
import Devnet.Proofs.Genesis.NormalForm
import Devnet.Proofs.Genesis.Reordered
import Devnet.Proofs.Json.Twins
import Mathlib

namespace Devnet

namespace Module

def fieldNames : Module → List String
  | .auth => ["params", "accounts"]
  | .bank => ["params", "balances", "supply", "denom_metadata", "send_enabled"]
  | .staking => ["params", "last_total_power", "last_validator_powers", "validators", "delegations",
      "unbonding_delegations", "redelegations", "exported"]
  | .inflation => ["params", "period", "epoch_identifier", "epochs_per_period", "skipped_epochs"]
  | .evm => ["accounts", "params"]

def lists : Module → List String
  | .auth => ["accounts"]
  | .bank => ["balances"]
  | .staking => ["validators", "delegations"]
  | .inflation => []
  | .evm => ["accounts"]

theorem reordered_refl (m : Module) (content : m.Content) : m.Reordered content content := by
  cases m with
  | auth => exact ⟨rfl, .refl _⟩
  | bank => exact ⟨rfl, .refl _, rfl, rfl, rfl⟩
  | staking => exact ⟨rfl, rfl, rfl, .refl _, .refl _, rfl, rfl, rfl⟩
  | inflation => exact rfl
  | evm => exact ⟨.refl _, rfl⟩

theorem exists_decode (m : Module) {room : Nat} {raw other : RawJson} {content : m.Content}
    (rearranged : RawJson.Rearranged (Loose RawJson.array m.lists) m.fieldNames raw other)
    (read : m.codec.decode room raw = .ok content) :
    ∃ content', m.codec.decode room other = .ok content' ∧ m.Reordered content content' := by
  have fixed {α : Type} (c : Codec α) {name : String} {lists : List String} (apart : name ∉ lists) :
      c.Follows (Loose RawJson.array lists name) := c.follows_of_not_mem apart
  cases m with
  | auth =>
      obtain ⟨_, _, _, rfl, read', params, accounts, -⟩ := Codec.exists_record read rearranged
        ⟨fixed _ (by decide), Codec.follows_list _, trivial⟩
      exact ⟨_, read', params.eq_of_not_mem (by decide), accounts.perm⟩
  | bank =>
      obtain ⟨_, _, _, rfl, read', params, balances, supply, metadata, sendEnabled, -⟩ :=
        Codec.exists_record read rearranged ⟨fixed _ (by decide), Codec.follows_list _,
          fixed _ (by decide), fixed _ (by decide), fixed _ (by decide), trivial⟩
      exact ⟨_, read', params.eq_of_not_mem (by decide), balances.perm,
        supply.eq_of_not_mem (by decide), metadata.eq_of_not_mem (by decide),
        sendEnabled.eq_of_not_mem (by decide)⟩
  | staking =>
      obtain ⟨_, _, _, rfl, read', params, power, powers, validators, delegations, unbonding,
        redelegations, exported, -⟩ := Codec.exists_record read rearranged
          ⟨fixed _ (by decide), fixed _ (by decide), fixed _ (by decide), Codec.follows_list _,
            Codec.follows_list _, fixed _ (by decide), fixed _ (by decide), fixed _ (by decide),
            trivial⟩
      exact ⟨_, read', params.eq_of_not_mem (by decide), power.eq_of_not_mem (by decide),
        powers.eq_of_not_mem (by decide), validators.perm, delegations.perm,
        unbonding.eq_of_not_mem (by decide), redelegations.eq_of_not_mem (by decide),
        exported.eq_of_not_mem (by decide)⟩
  | inflation =>
      obtain ⟨_, ⟨params, period, epoch, epochs, skipped, ⟨⟩⟩, ⟨params', period', epoch', epochs',
        skipped', ⟨⟩⟩, rfl, read', twins⟩ := Codec.exists_record read rearranged
          ⟨fixed _ (by decide), fixed _ (by decide), fixed _ (by decide), fixed _ (by decide),
            fixed _ (by decide), trivial⟩
      obtain ⟨first, second, third, fourth, fifth, -⟩ := twins
      cases first.eq_of_not_mem (by decide)
      cases second.eq_of_not_mem (by decide)
      cases third.eq_of_not_mem (by decide)
      cases fourth.eq_of_not_mem (by decide)
      cases fifth.eq_of_not_mem (by decide)
      exact ⟨_, read', rfl⟩
  | evm =>
      obtain ⟨_, _, _, rfl, read', accounts, params, -⟩ := Codec.exists_record read rearranged
        ⟨Codec.follows_list _, fixed _ (by decide), trivial⟩
      exact ⟨_, read', accounts.perm, params.eq_of_not_mem (by decide)⟩

theorem rearranged_encode (m : Module) {content other : m.Content}
    (reordered : m.Reordered content other) :
    Json.Rearranged m.fieldNames m.lists (m.codec.encode content) (m.codec.encode other) := by
  have fixed {α : Type} (c : Codec α) (name : String) {value value' : α} (same : value' = value) :
      name = name ∧ Loose Json.array m.lists name (c.encode value) (c.encode value') :=
    ⟨rfl, Or.inl (congrArg c.encode same)⟩
  have listed {α : Type} (c : Codec α) (name : String) {values values' : List α}
      (known : name ∈ m.lists) (perm : values'.Perm values) :
      name = name ∧ Loose Json.array m.lists name ((Codec.list c).encode values)
        ((Codec.list c).encode values') :=
    ⟨rfl, Or.inr ⟨known, _, _, rfl, rfl, perm.map c.encode⟩⟩
  cases m with
  | auth =>
      exact .object (.cons (fixed Auth.Params.codec "params" reordered.params)
        (.cons (listed Envelope.codec "accounts" (by decide) reordered.accounts) .nil))
  | bank =>
      exact .object (.cons (fixed Bank.Params.codec "params" reordered.params)
        (.cons (listed Bank.Balance.codec "balances" (by decide) reordered.balances)
        (.cons (fixed Coins.codec "supply" reordered.supply)
        (.cons (fixed (.list Bank.Metadata.codec) "denom_metadata" reordered.denomMetadata)
        (.cons (fixed (.list Bank.SendEnabled.codec) "send_enabled" reordered.sendEnabled) .nil)))))
  | staking =>
      exact .object (.cons (fixed Staking.Params.codec "params" reordered.params)
        (.cons (fixed .integer "last_total_power" reordered.lastTotalPower)
        (.cons (fixed (.list Staking.LastPower.codec) "last_validator_powers"
          reordered.lastValidatorPowers)
        (.cons (listed Staking.Validator.codec "validators" (by decide) reordered.validators)
        (.cons (listed Staking.Delegation.codec "delegations" (by decide) reordered.delegations)
        (.cons (fixed (.list Staking.UnbondingDelegation.codec) "unbonding_delegations"
          reordered.unbondingDelegations)
        (.cons (fixed (.list Staking.Redelegation.codec) "redelegations" reordered.redelegations)
        (.cons (fixed .bool "exported" reordered.exported) .nil))))))))
  | inflation =>
      obtain rfl : content = other := reordered
      exact .same _
  | evm =>
      exact .object (.cons (listed Evm.Account.codec "accounts" (by decide) reordered.accounts)
        (.cons (fixed Evm.Params.codec "params" reordered.params) .nil))

/-- The value of a module, with the entries of its section in another order. The values of other
modules are the same. -/
def Rearranges (name : String) (value other : Json) : Prop :=
  match ofName? name with
  | some m => Json.Rearranged m.fieldNames m.lists value other
  | none => other = value

theorem ofName?_name (m : Module) : ofName? m.name = some m := by
  cases m <;> rfl

theorem Rearranges.symm {name : String} {value other : Json} (rearranges : Rearranges name value other) :
    Rearranges name other value := by
  unfold Rearranges at rearranges ⊢
  split at rearranges
  · exact Json.Rearranged.symm rearranges
  · exact rearranges.symm

end Module

namespace Genesis

theorem exists_section_reordered {values others : Table String Json}
    (each : Table.Keyed Module.Rearranges values others)
    (within : ∀ entry ∈ values, entry.2.Within RawJson.Proper innerDepth) (m : Module)
    {content : m.Content} (read : (ofValues values).sectionOrStandard m = .ok content) :
    ∃ content', (ofValues others).sectionOrStandard m = .ok content' ∧ m.Reordered content content' := by
  rw [sectionOrStandard_cases, get?_ofValues] at read
  simp only [sectionOrStandard_cases, get?_ofValues]
  rcases each.get? m.name with ⟨absent, absent'⟩ | ⟨value, other, present, present', rearranges⟩
  · rw [absent] at read
    rw [absent']
    rcases read with ⟨-, rfl⟩ | ⟨document, held, -⟩
    · exact ⟨_, Or.inl ⟨rfl, rfl⟩, m.reordered_refl _⟩
    · cases held
  · rw [present] at read
    rw [present']
    rcases read with ⟨missing, -⟩ | ⟨document, held, decoded⟩
    · cases missing
    · obtain rfl := Option.some.inj held
      have rearranged : Json.Rearranged m.fieldNames m.lists value other := by
        rw [Module.Rearranges, Module.ofName?_name] at rearranges
        exact rearranges
      obtain ⟨raw, raw', readable, readable', related⟩ :=
        RawJson.bothReadable_rearranged rearranged (within _ (Table.mem_of_get? present))
      rw [Codec.ofBytes, readable.ofBytes_encode, Codec.ofDocument_eq_ok] at decoded
      obtain ⟨content', decoded', reordered⟩ := m.exists_decode related decoded.1
      refine ⟨content', Or.inr ⟨_, rfl, ?_⟩, reordered⟩
      rw [Codec.ofBytes, readable'.ofBytes_encode, Codec.ofDocument_eq_ok]
      exact ⟨decoded', rfl⟩

end Genesis

/-- Both requests are for the same chain and name no validators, and the sections of the second one are
those of the first one with their entries in another order. -/
structure InitRequest.Reordered (request other : InitRequest) : Prop where
  chainId : other.chainId = request.chainId
  unnamed : request.validators = []
  unnamed' : other.validators = []
  values : ∃ values values', Codec.members.ofBytes request.appState = .ok values ∧
    Codec.members.ofBytes other.appState = .ok values' ∧ Table.Keyed Module.Rearranges values values'

theorem InitRequest.Reordered.symm {request other : InitRequest} (reordered : request.Reordered other) :
    other.Reordered request where
  chainId := reordered.chainId.symm
  unnamed := reordered.unnamed'
  unnamed' := reordered.unnamed
  values := by
    obtain ⟨values, values', taken, taken', each⟩ := reordered.values
    exact ⟨values', values, taken', taken, each.symm fun _ _ _ => Module.Rearranges.symm⟩

theorem Genesis.exists_sections_reordered {values others : Table String Json}
    (each : Table.Keyed Module.Rearranges values others)
    (within : ∀ entry ∈ values, entry.2.Within RawJson.Proper innerDepth) {sections : Sections}
    (read : (ofValues values).sections = .ok sections) :
    ∃ sections', (ofValues others).sections = .ok sections' ∧ sections.Reordered sections' := by
  obtain ⟨auth, bank, staking, inflation, evm⟩ := sections_eq_ok.mp read
  obtain ⟨auth', authRead, authReordered⟩ := exists_section_reordered each within .auth auth
  obtain ⟨bank', bankRead, bankReordered⟩ := exists_section_reordered each within .bank bank
  obtain ⟨staking', stakingRead, stakingReordered⟩ :=
    exists_section_reordered each within .staking staking
  obtain ⟨inflation', inflationRead, inflationSame⟩ :=
    exists_section_reordered each within .inflation inflation
  obtain ⟨evm', evmRead, evmReordered⟩ := exists_section_reordered each within .evm evm
  exact ⟨⟨auth', bank', staking', inflation', evm'⟩,
    sections_eq_ok.mpr ⟨authRead, bankRead, stakingRead, inflationRead, evmRead⟩,
    ⟨authReordered, bankReordered, stakingReordered, inflationSame, evmReordered⟩⟩

structure InitRequest.Answered (request : InitRequest) (sections : Sections) (response : InitResponse) :
    Prop where
  held : ∃ genesis, Genesis.ofAppStateBytes request.appState = .ok genesis ∧
    genesis.sections = .ok sections
  validators : response.validators =
    sections.staking.validators.filterMap Staking.Validator.granted?

namespace Application

variable {request other : InitRequest}

theorem Approves.answered {app : Application} {genesis : Genesis} {sections : Sections}
    {updates : List ValidatorUpdate} (approved : app.Approves request genesis sections updates)
    (appHash : Bytes) : request.Answered sections ⟨updates, appHash⟩ where
  held := ⟨genesis, approved.reads, approved.decodes⟩
  validators := Staking.Section.updates_eq_filterMap approved.powers

theorem Approves.exists_reordered {app : Application} {genesis : Genesis} {sections : Sections}
    {updates : List ValidatorUpdate} (approved : app.Approves request genesis sections updates)
    (reordered : request.Reordered other) (app' : Application)
    (registries : app'.registry = app.registry) :
    ∃ genesis' sections' updates', app'.Approves other genesis' sections' updates' ∧
      sections.Reordered sections' := by
  obtain ⟨values, values', taken, taken', each⟩ := reordered.values
  obtain ⟨found, read, rfl, -, within⟩ :=
    Genesis.exists_values approved.reads (RawJson.numbers_ofBytes request.appState)
  obtain rfl := Except.ok.inj (taken.symm.trans read)
  obtain ⟨sections', decodes', changed⟩ := Genesis.exists_sections_reordered each
    (fun entry member => (within entry member).1) approved.decodes
  obtain ⟨updates', powers'⟩ := changed.staking.exists_updates approved.powers
  have approved' : app'.Approves other (.ofValues values') sections' updates' :=
    { reads := Genesis.ofAppStateBytes_eq_ok.mpr ⟨values', taken', rfl⟩
      decodes := decodes'
      valid := registries ▸ changed.valid approved.valid
      powers := powers'
      expected := by
        rw [reordered.unnamed']
        rfl }
  exact ⟨_, sections', updates', approved', changed⟩

theorem exists_taken_reordered (reordered : request.Reordered other) (chainId home home' : String)
    (reports reports' : Reports) {response : InitResponse} {next : Store}
    (taken : (fresh chainId home reports).initChain .empty request = .ok (response, next)) :
    ∃ response' next' sections sections',
      (fresh chainId home' reports').initChain .empty other = .ok (response', next') ∧
      request.Answered sections response ∧ other.Answered sections' response' ∧
      sections.Reordered sections' := by
  obtain ⟨chain, blank, genesis, sections, updates, approved, rfl, -⟩ := initChain_eq_ok.mp taken
  obtain ⟨genesis', sections', updates', approved', changed⟩ :=
    approved.exists_reordered reordered (fresh chainId home' reports') rfl
  have taken' : ∃ next', (fresh chainId home' reports').initChain .empty other =
      .ok (⟨updates', Sha256.digest other.appState⟩, next') :=
    ⟨_, initChain_eq_ok.mpr
      ⟨reordered.chainId.trans chain, blank, genesis', sections', updates', approved', rfl, rfl⟩⟩
  obtain ⟨next', taken'⟩ := taken'
  exact ⟨_, next', sections, sections', taken', approved.answered _, approved'.answered _, changed⟩

/-- Of two requests that differ in the order of their entries, new applications take both or neither.
If they take them, each is answered with the updates of its validators in their order, so the one answer
has the same updates as the other one. -/
theorem initChain_order (reordered : request.Reordered other) (chainId home home' : String)
    (reports reports' : Reports) :
    (∃ response next response' next' sections sections',
      (fresh chainId home reports).initChain .empty request = .ok (response, next) ∧
      (fresh chainId home' reports').initChain .empty other = .ok (response', next') ∧
      request.Answered sections response ∧ other.Answered sections' response' ∧
      sections.Reordered sections' ∧ response'.validators.Perm response.validators) ∨
    (∃ fault fault',
      (fresh chainId home reports).initChain .empty request = .error fault ∧
      (fresh chainId home' reports').initChain .empty other = .error fault') := by
  cases first : (fresh chainId home reports).initChain .empty request with
  | ok answer =>
      obtain ⟨response, next⟩ := answer
      obtain ⟨response', next', sections, sections', second, answered, answered', changed⟩ :=
        exists_taken_reordered reordered chainId home home' reports reports' first
      have perm : response'.validators.Perm response.validators := by
        rw [answered.validators, answered'.validators]
        exact changed.staking.validators.filterMap _
      exact Or.inl ⟨response, next, response', next', sections, sections', rfl, second, answered,
        answered', changed, perm⟩
  | error fault =>
      cases second : (fresh chainId home' reports').initChain .empty other with
      | ok answer =>
          -- the first request would have been taken as well
          obtain ⟨_, _, _, _, taken, -⟩ :=
            exists_taken_reordered reordered.symm chainId home' home reports' reports second
          rw [taken] at first
          cases first
      | error fault' => exact Or.inr ⟨fault, fault', rfl, rfl⟩

theorem reordered_stakingRequest {bank bank' : Bank.Section} {staking staking' : Staking.Section}
    (settled : ∀ v ∈ staking.validators, v.consensusKey.Settled 0) (banks : bank.Reordered bank')
    (stakings : staking.Reordered staking') :
    (stakingRequest bank staking []).Reordered (stakingRequest bank' staking' []) where
  chainId := rfl
  unnamed := rfl
  unnamed' := rfl
  values := by
    have less : Bank.moduleName < Staking.moduleName := by decide
    have settled' := forall_mem_of_perm stakings.validators settled
    refine ⟨_, _, Genesis.members_ofBytes (List.pairwise_pair.mpr less) (tidy_stakingRequest settled),
      Genesis.members_ofBytes (List.pairwise_pair.mpr less) (tidy_stakingRequest settled'), ?_⟩
    exact .cons ⟨rfl, (Module.rearranged_encode .bank banks).normal⟩
      (.cons ⟨rfl, (Module.rearranged_encode .staking stakings).normal⟩ .nil)

def turnedBank : Bank.Section := { poolBank (2 * 10 ^ 18) 0 with
  balances := (poolBank (2 * 10 ^ 18) 0).balances.reverse }

def turnedStaking : Staking.Section := { twinStaking with
  validators := twinStaking.validators.reverse }

theorem reordered_twinRequest : twinRequest.Reordered (stakingRequest turnedBank turnedStaking []) :=
  reordered_stakingRequest (settled_samples samples_twinStaking)
    ⟨rfl, List.reverse_perm _, rfl, rfl, rfl⟩
    ⟨rfl, rfl, rfl, List.reverse_perm _, .refl _, rfl, rfl, rfl⟩

theorem initChain_order_twinRequest :
    twinRequest.Reordered (stakingRequest turnedBank turnedStaking []) ∧
    ∃ response next response' next',
      (fresh "evmos_9000-1" ".evmosd" .dropped).initChain .empty twinRequest = .ok (response, next) ∧
      (fresh "evmos_9000-1" ".evmosd" .dropped).initChain .empty
        (stakingRequest turnedBank turnedStaking []) = .ok (response', next') ∧
      response.validators = twinUpdates ∧ response'.validators.Perm twinUpdates := by
  obtain ⟨appHash, store, taken⟩ := taken_twinRequest
  refine ⟨reordered_twinRequest, ?_⟩
  rcases initChain_order reordered_twinRequest "evmos_9000-1" ".evmosd" ".evmosd" .dropped .dropped with
    ⟨response, next, response', next', _, _, first, second, -, -, -, perm⟩ | ⟨_, _, refused, -⟩
  · obtain ⟨rfl, rfl⟩ := Prod.mk.inj (Except.ok.inj (taken.symm.trans first))
    exact ⟨_, _, response', next', taken, second, rfl, perm⟩
  · rw [taken] at refused
    cases refused

end Application
end Devnet
