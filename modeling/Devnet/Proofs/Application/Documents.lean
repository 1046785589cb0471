import Devnet.Proofs.Application.Verdict
import Devnet.Proofs.Genesis.RoundTrip
import Mathlib

namespace Devnet.Application

variable {app : Application} {s : Sections} {updates : List ValidatorUpdate}

theorem Approves.of_appState {request : InitRequest} {genesis : Genesis} {found : Sections}
    (settled : s.Settled) (written : request.appState = s.appState)
    (approved : app.Approves request genesis found updates) :
    genesis = .ofValues s.sortedValues ∧ found = s ∧ s.InRange := by
  have reads := approved.reads
  rw [written, Sections.ofAppStateBytes_appState settled] at reads
  have decodes := approved.decodes
  rw [← Except.ok.inj reads, Sections.sections_appState settled] at decodes
  exact ⟨(Except.ok.inj reads).symm, decodes.2, decodes.1⟩

theorem initChain_appState {store : Store} {height : Int64} {expected : List ValidatorUpdate}
    (settled : s.Settled) (given : s.staking.updates = .ok updates) :
    (∃ response next, app.initChain store ⟨app.chainId, height, expected, s.appState⟩ =
        .ok (response, next)) ↔
      store.isInitialized = false ∧ s.Valid app.registry ∧ s.InRange ∧
        checkExpected expected updates = .ok () := by
  simp only [initChain_eq_ok, true_and]
  constructor
  · intro given
    rcases given with ⟨_, _, blank, genesis, found, powers, approved, -, -⟩
    obtain ⟨-, rfl, bounded⟩ := approved.of_appState settled rfl
    have same := approved.powers
    rw [given] at same
    exact ⟨blank, approved.valid, bounded, Except.ok.inj same ▸ approved.expected⟩
  · intro given
    rcases given with ⟨blank, valid, bounded, matching⟩
    have approved : app.Approves ⟨app.chainId, height, expected, s.appState⟩ _ s updates :=
      { reads := Sections.ofAppStateBytes_appState settled
        decodes := (Sections.sections_appState settled).mpr ⟨bounded, rfl⟩
        valid
        powers := given
        expected := matching }
    exact ⟨_, _, blank, _, _, _, approved, rfl, rfl⟩

theorem exportGenesis_appState {request : InitRequest} {response : InitResponse} {next : Store}
    (settled : s.Settled) (written : request.appState = s.appState)
    (taken : app.initChain .empty request = .ok (response, next)) :
    next.exportGenesis = .ok (.ofValues s.sortedValues) := by
  obtain ⟨genesis, reads, shown⟩ := exportGenesis_of_initChain taken
  rw [written, Sections.ofAppStateBytes_appState settled] at reads
  rwa [← Except.ok.inj reads] at shown

theorem checkExpected_self (updates : List ValidatorUpdate) : checkExpected updates updates = .ok () := by
  rw [checkExpected, decide_eq_true rfl, Bool.or_true]
  rfl

end Devnet.Application
