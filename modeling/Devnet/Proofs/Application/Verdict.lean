import Devnet.Application.Basic
import Devnet.Proofs.Coin.Held
import Devnet.Proofs.Json.Members
import Devnet.Proofs.Store.Export
import Mathlib

namespace Devnet

namespace Genesis

theorem sections_eq_ok {g : Genesis} {s : Sections} :
    g.sections = .ok s ↔
      g.sectionOrStandard .auth = .ok s.auth ∧ g.sectionOrStandard .bank = .ok s.bank ∧
      g.sectionOrStandard .staking = .ok s.staking ∧
      g.sectionOrStandard .inflation = .ok s.inflation ∧ g.sectionOrStandard .evm = .ok s.evm := by
  obtain ⟨auth, bank, staking, inflation, evm⟩ := s
  simp only [sections, bind_eq_ok, pure_eq_ok, Sections.mk.injEq]
  constructor
  · intro given
    rcases given with ⟨_, h1, _, h2, _, h3, _, h4, _, h5, rfl, rfl, rfl, rfl, rfl⟩
    exact ⟨h1, h2, h3, h4, h5⟩
  · intro given
    rcases given with ⟨h1, h2, h3, h4, h5⟩
    exact ⟨_, h1, _, h2, _, h3, _, h4, _, h5, rfl, rfl, rfl, rfl, rfl⟩

end Genesis

namespace Sections

theorem poolCoins_eq_ok {staking : Staking.Section} {tokens : Int} {coins : Coins} :
    poolCoins staking tokens = .ok coins ↔
      Denom.isValid staking.params.bondDenom = true ∧ 0 ≤ tokens ∧
        coins = .single ⟨staking.params.bondDenom, tokens⟩ := by
  unfold poolCoins
  simp only [mapError_eq_ok, map_eq_ok, Coin.make_eq_ok]
  constructor
  · intro given
    rcases given with ⟨_, ⟨valid, positive, rfl⟩, rfl⟩
    exact ⟨valid, positive, rfl⟩
  · intro given
    rcases given with ⟨valid, positive, rfl⟩
    exact ⟨_, ⟨valid, positive, rfl⟩, rfl⟩

theorem checkPools_eq_ok {s : Sections} {done : Unit} :
    s.checkPools = .ok done ↔
      Denom.isValid s.staking.params.bondDenom = true ∧
      (0 ≤ s.staking.bondedTokens ∧ s.bank.balanceOf Staking.bondedPool =
        .single ⟨s.staking.params.bondDenom, s.staking.bondedTokens⟩) ∧
      (0 ≤ s.staking.notBondedTokens ∧ s.bank.balanceOf Staking.notBondedPool =
        .single ⟨s.staking.params.bondDenom, s.staking.notBondedTokens⟩) := by
  unfold checkPools
  simp only [bind_eq_ok, check_bind_eq_ok, check_eq_ok, pure_eq_ok, poolCoins_eq_ok, ne_eq, not_not]
  constructor
  · intro given
    rcases given with ⟨_, ⟨valid, positive, rfl⟩, bonded, _, ⟨_, positive', rfl⟩, notBonded, _⟩
    exact ⟨valid, ⟨positive, bonded⟩, positive', notBonded⟩
  · intro given
    rcases given with ⟨valid, ⟨positive, bonded⟩, positive', notBonded⟩
    exact ⟨_, ⟨valid, positive, rfl⟩, bonded, _, ⟨valid, positive', rfl⟩, notBonded, trivial⟩

structure Valid (registry : Registry) (s : Sections) : Prop where
  accounts : ∀ account ∈ s.auth.accounts,
    ∃ found, registry.unpack Auth.BaseAccount.message account = .ok found
  auth : s.auth.validate = .ok ()
  bank : s.bank.validate = .ok ()
  keys : ∀ v ∈ s.staking.validators, registry.check v.consensusKey = .ok ()
  staking : s.staking.validate = .ok ()
  pools : s.checkPools = .ok ()
  inflation : s.inflation.validate = .ok ()
  evm : s.evm.validate = .ok ()

theorem validate_eq_ok {registry : Registry} {s : Sections} {done : Unit} :
    s.validate registry = .ok done ↔ s.Valid registry := by
  unfold validate
  simp only [bind_eq_ok, forM_eq_ok, discard_eq_ok, mapError_eq_ok]
  constructor
  · intro given
    rcases given with ⟨_, accounts, _, auth, _, bank, _, keys, _, staking, _, pools, _, inflation, evm⟩
    exact ⟨accounts, auth, bank, keys, staking, pools, inflation, evm⟩
  · intro given
    rcases given with ⟨accounts, auth, bank, keys, staking, pools, inflation, evm⟩
    exact ⟨(), accounts, (), auth, (), bank, (), keys, (), staking, (), pools, (), inflation, evm⟩

end Sections

namespace Application

/-- A genesis that is good for a request: its sections, and the updates that they give. -/
structure Approves (app : Application) (request : InitRequest) (genesis : Genesis)
    (sections : Sections) (updates : List ValidatorUpdate) : Prop where
  reads : Genesis.ofAppStateBytes request.appState = .ok genesis
  decodes : genesis.sections = .ok sections
  valid : sections.Valid app.registry
  powers : sections.staking.updates = .ok updates
  expected : checkExpected request.validators updates = .ok ()

theorem judge_eq_ok {app : Application} {request : InitRequest} {genesis : Genesis}
    {updates : List ValidatorUpdate} :
    app.judge request = .ok (genesis, updates) ↔
      ∃ sections, app.Approves request genesis sections updates := by
  unfold judge
  simp only [bind_eq_ok, mapError_eq_ok, pure_eq_ok, Sections.validate_eq_ok, Prod.mk.injEq]
  constructor
  · intro given
    rcases given with ⟨_, reads, sections, decodes, _, valid, _, powers, _, expected, rfl, rfl⟩
    exact ⟨sections, reads, decodes, valid, powers, expected⟩
  · intro given
    rcases given with ⟨sections, reads, decodes, valid, powers, expected⟩
    exact ⟨_, reads, sections, decodes, (), valid, _, powers, (), expected, rfl, rfl⟩

theorem initChain_eq_ok {app : Application} {store next : Store} {request : InitRequest}
    {response : InitResponse} :
    app.initChain store request = .ok (response, next) ↔
      request.chainId = app.chainId ∧ store.isInitialized = false ∧
      ∃ genesis sections updates, app.Approves request genesis sections updates ∧
        response = ⟨updates, Sha256.digest request.appState⟩ ∧
        next = store.record app.chainId request.initialHeight genesis updates
          (Sha256.digest request.appState) := by
  unfold initChain
  simp only [check_bind_eq_ok, bind_eq_ok, pure_eq_ok, ne_eq, not_not, Bool.not_eq_true,
    Prod.mk.injEq]
  constructor
  · intro given
    rcases given with ⟨chain, blank, ⟨genesis, updates⟩, judged, rfl, rfl⟩
    obtain ⟨sections, approved⟩ := judge_eq_ok.mp judged
    exact ⟨chain, blank, genesis, sections, updates, approved, rfl, rfl⟩
  · intro given
    rcases given with ⟨chain, blank, genesis, sections, updates, approved, rfl, rfl⟩
    exact ⟨chain, blank, (genesis, updates), judge_eq_ok.mpr ⟨sections, approved⟩, rfl, rfl⟩

theorem exportGenesis_of_initChain {app : Application} {next : Store} {request : InitRequest}
    {response : InitResponse} (taken : app.initChain .empty request = .ok (response, next)) :
    ∃ genesis, Genesis.ofAppStateBytes request.appState = .ok genesis ∧
      next.exportGenesis = .ok genesis := by
  obtain ⟨-, -, genesis, sections, updates, approved, -, rfl⟩ := initChain_eq_ok.mp taken
  have ascending := Genesis.ascending_documents approved.reads
  exact ⟨genesis, approved.reads, Store.exportGenesis_record _ _ _ _ _ ascending⟩

end Application
end Devnet
