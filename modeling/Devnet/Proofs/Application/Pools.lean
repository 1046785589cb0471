import Devnet.Proofs.Application.Verdict
import Devnet.Proofs.Coin.Single
import Devnet.Proofs.Crypto.Lengths
import Devnet.Proofs.Genesis.Bank
import Devnet.Proofs.Genesis.RoundTrip
import Mathlib

/-! What the pool accounts hold once a request is taken. The check of the pools looks each one up
under its written address, so it is exact up to coins that stand under another spelling. -/

namespace Devnet

namespace Sections

/-- Under all its spellings together a pool holds some tokens in the bond denomination, and nothing
of any other. -/
def Holds (s : Sections) (pool : AccountAddress) (tokens : Int) : Prop :=
  ∀ denom, Bank.Section.heldBy pool denom s.bank.balances =
    if denom = s.staking.params.bondDenom then tokens else 0

theorem holds_iff {s : Sections} {pool : AccountAddress} {tokens : Int}
    (reads : Address.parse .account pool.render = .ok pool) (valid : s.bank.Valid)
    (balance : s.bank.balanceOf pool = .single ⟨s.staking.params.bondDenom, tokens⟩) :
    s.Holds pool tokens ↔ Bank.Section.OneSpelling pool s.bank.balances := by
  rw [← Bank.Section.heldAside_eq_zero_iff pool valid.coins]
  have split : ∀ denom, Bank.Section.heldBy pool denom s.bank.balances =
      (if denom = s.staking.params.bondDenom then tokens else 0) +
        Bank.Section.heldAside pool denom s.bank.balances := by
    intro denom
    have counted := congrArg (fun coins => Coins.held denom coins.entries) balance
    simp only [Bank.Section.balanceOf, Bank.totalOf, Coins.held_total, Coins.held_single] at counted
    rw [Bank.Section.heldBy_eq pool denom s.bank.balances reads, counted]
    simp only [eq_comm]
  constructor
  · intro exactly denom
    have all := exactly denom
    rw [split denom] at all
    omega
  · intro nothing denom
    rw [split denom, nothing denom]
    omega

end Sections

theorem parse_moduleAddress (name : String) :
    Address.parse .account (moduleAddress name).render = .ok (moduleAddress name) :=
  Address.parse_render_eq_ok.mpr ⟨Address.sized_moduleAddress name, rfl⟩

namespace Application

/-- In a genesis that is taken each pool holds exactly the tokens of its validators if and only if no
coins stand under another spelling of its address. -/
theorem initChain_pools {app : Application} {store next : Store} {request : InitRequest}
    {response : InitResponse} (taken : app.initChain store request = .ok (response, next)) :
    ∃ genesis sections, Genesis.ofAppStateBytes request.appState = .ok genesis ∧
      genesis.sections = .ok sections ∧
      (sections.Holds Staking.bondedPool sections.staking.bondedTokens ↔
        Bank.Section.OneSpelling Staking.bondedPool sections.bank.balances) ∧
      (sections.Holds Staking.notBondedPool sections.staking.notBondedTokens ↔
        Bank.Section.OneSpelling Staking.notBondedPool sections.bank.balances) := by
  obtain ⟨-, -, genesis, sections, updates, approved, -, -⟩ := initChain_eq_ok.mp taken
  have bank := Bank.Section.validate_eq_ok.mp approved.valid.bank
  obtain ⟨-, ⟨-, bonded⟩, -, notBonded⟩ := Sections.checkPools_eq_ok.mp approved.valid.pools
  exact ⟨genesis, sections, approved.reads, approved.decodes,
    Sections.holds_iff (parse_moduleAddress _) bank bonded,
    Sections.holds_iff (parse_moduleAddress _) bank notBonded⟩

def capitalBank : Bank.Section :=
  let address := String.ofList (Staking.bondedPool.render.toList.map Char.toUpper)
  { Bank.Section.standard with balances := [⟨address, .single ⟨"stake", 5⟩⟩] }

def capitalRequest : InitRequest where
  chainId := "evmos_9000-1"
  initialHeight := 1
  validators := []
  appState := Codec.members.toBytes [(Bank.moduleName, Bank.Section.codec.encode capitalBank)]

def capitalGenesis : Genesis :=
  ⟨[(Bank.moduleName, Codec.json.toBytes (Bank.Section.codec.encode capitalBank).normal)]⟩

def capitalSections : Sections := ⟨.standard, capitalBank, .standard, .standard, .standard⟩

theorem reads_capitalRequest :
    Genesis.ofAppStateBytes capitalRequest.appState = .ok capitalGenesis := by
  apply Genesis.ofAppStateBytes_toBytes (List.pairwise_singleton _ _)
  intro entry member
  rw [List.mem_singleton.mp member]
  exact (Bank.Section.exact_codec.tidy capitalBank trivial).mono (by decide)

theorem decodes_capitalGenesis : capitalGenesis.sections = .ok capitalSections := by
  have bounded : capitalBank.InRange := by
    refine ⟨?_, List.forall_mem_nil _⟩
    intro balance member
    rw [List.mem_singleton.mp member]
    exact Coins.inRange_single.mpr (by decide)
  have bank : capitalGenesis.sectionOrStandard .bank = .ok capitalBank :=
    (Genesis.sectionOrStandard_eq_ok .bank Bank.Section.exact_codec (by decide) trivial rfl).mpr
      ⟨bounded, rfl⟩
  exact Genesis.sections_eq_ok.mpr ⟨Genesis.sectionOrStandard_of_absent rfl, bank,
    Genesis.sectionOrStandard_of_absent rfl, Genesis.sectionOrStandard_of_absent rfl,
    Genesis.sectionOrStandard_of_absent rfl⟩

theorem taken_capitalRequest : ∃ response next,
    (fresh "evmos_9000-1" ".evmosd" .dropped).initChain .empty capitalRequest =
      .ok (response, next) := by
  have checked : capitalSections.validate .standard = .ok () := by decide +kernel
  have approved : (fresh "evmos_9000-1" ".evmosd" .dropped).Approves capitalRequest capitalGenesis
      capitalSections [] :=
    { reads := reads_capitalRequest
      decodes := decodes_capitalGenesis
      valid := Sections.validate_eq_ok.mp checked
      powers := rfl
      expected := rfl }
  exact ⟨_, _, initChain_eq_ok.mpr ⟨rfl, rfl, _, _, _, approved, rfl, rfl⟩⟩

/-- The request is taken although the bonded pool then holds five coins and no validator has any. -/
theorem not_holds_capitalRequest : ∃ response next genesis sections,
    (fresh "evmos_9000-1" ".evmosd" .dropped).initChain .empty capitalRequest =
      .ok (response, next) ∧
    Genesis.ofAppStateBytes capitalRequest.appState = .ok genesis ∧
    genesis.sections = .ok sections ∧
    ¬sections.Holds Staking.bondedPool sections.staking.bondedTokens := by
  obtain ⟨response, next, taken⟩ := taken_capitalRequest
  refine ⟨response, next, _, _, taken, reads_capitalRequest, decodes_capitalGenesis, ?_⟩
  intro holds
  have five : Bank.Section.heldBy Staking.bondedPool "stake" capitalSections.bank.balances = 5 := by
    decide +kernel
  have none := holds "stake"
  rw [five] at none
  cases none

theorem initChain_pools_capitalRequest : ∃ response next,
    (fresh "evmos_9000-1" ".evmosd" .dropped).initChain .empty capitalRequest =
      .ok (response, next) ∧
    ∃ genesis sections, Genesis.ofAppStateBytes capitalRequest.appState = .ok genesis ∧
      genesis.sections = .ok sections ∧
      (sections.Holds Staking.bondedPool sections.staking.bondedTokens ↔
        Bank.Section.OneSpelling Staking.bondedPool sections.bank.balances) ∧
      (sections.Holds Staking.notBondedPool sections.staking.notBondedTokens ↔
        Bank.Section.OneSpelling Staking.notBondedPool sections.bank.balances) := by
  obtain ⟨response, next, taken⟩ := taken_capitalRequest
  exact ⟨response, next, taken, initChain_pools taken⟩

end Application
end Devnet
