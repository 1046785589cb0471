import Devnet.Consensus.Update
import Devnet.Genesis.Basic
import Devnet.Genesis.Registry

namespace Devnet

structure Sections where
  auth : Auth.Section
  bank : Bank.Section
  staking : Staking.Section
  inflation : Inflation.Section
  evm : Evm.Section

namespace Genesis

/-- A module without a section starts with the one that the standard genesis has for it. -/
def sectionOrStandard (g : Genesis) (m : Module) : Except Fault m.Content := do
  match ← (g.section? m).mapError .decode with
  | some content => return content
  | none =>
    match ← (standard.section? m).mapError .decode with
    | some content => return content
    | none => throw (.ofChain (.noStandard m.name))

def sections (g : Genesis) : Except Fault Sections := do
  let auth ← g.sectionOrStandard .auth
  let bank ← g.sectionOrStandard .bank
  let staking ← g.sectionOrStandard .staking
  let inflation ← g.sectionOrStandard .inflation
  let evm ← g.sectionOrStandard .evm
  return { auth, bank, staking, inflation, evm }

end Genesis

namespace Sections

def poolCoins (staking : Staking.Section) (tokens : Int) : Except Fault Coins :=
  ((Coin.make staking.params.bondDenom tokens).map Coins.single).mapError .coin

/-- Each pool has to hold the tokens of its validators, and nothing else. -/
def checkPools (s : Sections) : Except Fault Unit := do
  let bonded ← poolCoins s.staking s.staking.bondedTokens
  let balance := s.bank.balanceOf Staking.bondedPool
  if balance ≠ bonded then throw (.ofChain (.bondedPool balance.render bonded.render))
  let notBonded ← poolCoins s.staking s.staking.notBondedTokens
  let balance := s.bank.balanceOf Staking.notBondedPool
  if balance ≠ notBonded then throw (.ofChain (.notBondedPool balance.render notBonded.render))

def validate (registry : Registry) (s : Sections) : Except Fault Unit := do
  s.auth.accounts.forM fun account =>
    discard <| (registry.unpack Auth.BaseAccount.message account).mapError .envelope
  s.auth.validate
  s.bank.validate
  s.staking.validators.forM fun v => (registry.check v.consensusKey).mapError .envelope
  s.staking.validate
  s.checkPools
  s.inflation.validate
  s.evm.validate

end Sections

/-- A validator takes part in consensus if it has at least one unit of power. -/
def Staking.Validator.update? (v : Staking.Validator) : Except Fault (Option ValidatorUpdate) := do
  let power ← v.consensusPower Integer.powerReduction
  if power ≤ 0 then return none
  let key ← v.publicKey
  return some ⟨key, power⟩

def Staking.Section.updates (s : Staking.Section) : Except Fault (List ValidatorUpdate) :=
  (s.validators.mapM Staking.Validator.update?).map fun found => found.filterMap id

end Devnet
