import Devnet.Genesis.Basic

namespace Devnet

abbrev Overrides := Table String ModuleSection

namespace Overrides

def content? (overrides : Overrides) (m : Module) : Except Fault (Option m.Content) :=
  match overrides.get? m.name with
  | none => .ok none
  | some found =>
    if h : found.module = m then .ok (some (h ▸ found.content))
    else .error (.override m.name found.typeName)

end Overrides

namespace Genesis

def withAccounts (g : Genesis) (accounts : List Auth.BaseAccount) : Genesis :=
  g.withSection .auth (.ofAccounts .standard accounts)

/-- The supply is taken as it is given. -/
def withBalances (g : Genesis) (balances : List Bank.Balance) (supply : Coins) : Genesis :=
  g.withSection .bank { Bank.Section.standard with balances, supply }

def withValidators (g : Genesis) (bondDenom : String) (validators : List Staking.Validator)
    (delegations : List Staking.Delegation) : Genesis :=
  g.withSection .staking (.make { Staking.Params.standard with bondDenom } validators delegations)

/-- Inflation is switched off unless a section is given for it. -/
def withInflation (g : Genesis) (overrides : Overrides) : Except Fault Genesis := do
  let content ← overrides.content? .inflation
  return g.withSection .inflation (content.getD Inflation.Section.disabled)

def withEvm (g : Genesis) (overrides : Overrides) : Except Fault Genesis := do
  match ← overrides.content? .evm with
  | some content => return g.withSection .evm content
  | none => return g

end Genesis
end Devnet
