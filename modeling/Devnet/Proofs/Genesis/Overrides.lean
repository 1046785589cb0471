import Devnet.Genesis.Overrides
import Devnet.Proofs.Genesis.RoundTrip
import Mathlib

namespace Devnet

namespace Overrides

theorem content?_eq_ok {overrides : Overrides} {m : Module} {found : Option m.Content} :
    overrides.content? m = .ok found ↔
      overrides.get? m.name = found.map fun content => ⟨m, content⟩ := by
  unfold content?
  cases overrides.get? m.name with
  | none => cases found <;> simp
  | some given =>
      obtain ⟨module, content⟩ := given
      by_cases own : module = m
      · subst own
        cases found <;> simp [eq_comm]
      · have other : ∀ content' : m.Content,
            (⟨module, content⟩ : ModuleSection) ≠ ⟨m, content'⟩ := fun _ same =>
          own (congrArg ModuleSection.module same)
        cases found <;> simp [own, other]

/-- Whatever is meant for a module is a section of it that passes. -/
def Admits (overrides : Overrides) (m : Module) : Prop :=
  ∀ given, overrides.get? m.name = some given →
    ∃ content, given = ⟨m, content⟩ ∧ m.validate content = .ok ()

theorem admits_iff {overrides : Overrides} {m : Module} {fallback : m.Content}
    (good : m.validate fallback = .ok ()) :
    overrides.Admits m ↔
      ∃ found, overrides.content? m = .ok found ∧ m.validate (found.getD fallback) = .ok () := by
  simp only [Admits, content?_eq_ok]
  cases overrides.get? m.name with
  | none =>
      constructor
      · intro _
        exact ⟨none, rfl, good⟩
      · rintro - given absent
        cases absent
  | some given =>
      constructor
      · intro admits
        obtain ⟨content, rfl, valid⟩ := admits given rfl
        exact ⟨some content, rfl, valid⟩
      · rintro ⟨found, present, valid⟩ given' same
        cases found with
        | none => cases present
        | some content =>
            rw [← Option.some.inj same]
            exact ⟨content, Option.some.inj present, valid⟩

end Overrides

namespace Sections

theorem genesis_withAccounts (s : Sections) (accounts : List Auth.BaseAccount) :
    s.genesis.withAccounts accounts = { s with auth := .ofAccounts .standard accounts }.genesis :=
  s.genesis_withSection .auth _

theorem genesis_withValidators (s : Sections) (bondDenom : String)
    (validators : List Staking.Validator) (delegations : List Staking.Delegation) :
    s.genesis.withValidators bondDenom validators delegations =
      { s with
        staking := .make { Staking.Params.standard with bondDenom } validators delegations }.genesis :=
  s.genesis_withSection .staking _

theorem genesis_withBalances (s : Sections) (balances : List Bank.Balance) (supply : Coins) :
    s.genesis.withBalances balances supply =
      { s with bank := { Bank.Section.standard with balances, supply } }.genesis :=
  s.genesis_withSection .bank _

variable {s : Sections} {overrides : Overrides} {genesis : Genesis}

theorem genesis_withInflation_eq_ok :
    s.genesis.withInflation overrides = .ok genesis ↔
      ∃ found, overrides.content? .inflation = .ok found ∧
        genesis = { s with inflation := found.getD Inflation.Section.disabled }.genesis := by
  unfold Genesis.withInflation
  simp only [bind_eq_ok, pure_eq_ok, genesis_withSection, withContent, eq_comm (b := genesis)]

theorem genesis_withEvm_eq_ok :
    s.genesis.withEvm overrides = .ok genesis ↔
      ∃ found, overrides.content? .evm = .ok found ∧
        genesis = { s with evm := found.getD s.evm }.genesis := by
  unfold Genesis.withEvm
  rw [bind_eq_ok]
  refine exists_congr fun found => and_congr_right fun _ => ?_
  cases found with
  | none =>
      show pure s.genesis = _ ↔ _
      rw [pure_eq_ok]
      exact eq_comm
  | some content =>
      show pure (s.genesis.withSection .evm content) = _ ↔ _
      rw [pure_eq_ok, genesis_withSection]
      exact eq_comm

end Sections
end Devnet
