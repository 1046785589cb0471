import Devnet.Proofs.Application.Expected
import Devnet.Proofs.Application.Registered
import Devnet.Proofs.Application.Runs
import Devnet.Proofs.Genesis.NormalForm
import Devnet.Proofs.Network.Build
import Mathlib

/-! A store shows enough of a chain to set it up again: its genesis and its validators make up a request
that every new application for the chain takes, and this request comes back from there. -/

namespace Devnet

/-- The request that a store makes up: the genesis that it shows, and the validators. -/
def Store.replay (store : Store) (chainId : String) (height : Int64) : Except Fault InitRequest := do
  let genesis ← store.exportGenesis.mapError .store
  let validators ← store.validatorUpdates
  let appState ← genesis.toAppStateBytes
  return ⟨chainId, height, validators, appState⟩

theorem Genesis.exists_appState {bytes : Bytes} {g : Genesis} (read : ofAppStateBytes bytes = .ok g)
    (whole : (RawJson.Document.ofBytes bytes).body.Numbers JsonNumber.Whole) :
    ∃ appState, g.toAppStateBytes = .ok appState ∧ ofAppStateBytes appState = .ok g := by
  obtain ⟨values, -, rfl, ascending, each⟩ := exists_values read whole
  have tidy : ∀ entry ∈ values, entry.2.Tidy innerDepth := fun entry member => (each entry member).1
  have same : ∀ entry ∈ values, (entry.1, entry.2.normal) = entry := fun entry member =>
    Prod.ext rfl (each entry member).2
  have written := toAppStateBytes_ofValues tidy
  have again := ofAppStateBytes_toBytes ascending tidy
  rw [List.map_congr_left same, List.map_id'] at written again
  exact ⟨_, written, again⟩

theorem InitRequest.Bounded.of_reads {request other : InitRequest} (bounded : request.Bounded)
    {genesis : Genesis} (read : Genesis.ofAppStateBytes request.appState = .ok genesis)
    (again : Genesis.ofAppStateBytes other.appState = .ok genesis) : other.Bounded := by
  intro found staking reads decodes
  obtain rfl := Except.ok.inj (again.symm.trans reads)
  exact bounded genesis staking read decodes

namespace Application

variable {app : Application} {request : InitRequest} {response : InitResponse} {store : Store}
  {genesis : Genesis} {appState : Bytes}

theorem initChain_again (taken : app.initChain .empty request = .ok (response, store))
    (read : Genesis.ofAppStateBytes request.appState = .ok genesis)
    (again : Genesis.ofAppStateBytes appState = .ok genesis)
    (home : String) (reports : Reports) (height : Int64) :
    ∃ next, (fresh app.chainId home reports).initChain .empty
        ⟨app.chainId, height, response.validators, appState⟩ =
      .ok (⟨response.validators, Sha256.digest appState⟩, next) := by
  obtain ⟨-, -, found, sections, updates, approved, rfl, -⟩ := initChain_eq_ok.mp taken
  obtain rfl := Except.ok.inj (read.symm.trans approved.reads)
  have approved' : (fresh app.chainId home reports).Approves
      ⟨app.chainId, height, updates, appState⟩ genesis sections updates :=
    { reads := again
      decodes := approved.decodes
      valid := approved.valid.standard
      powers := approved.powers
      expected := checkExpected_self updates }
  exact ⟨_, initChain_eq_ok.mpr ⟨rfl, rfl, _, _, _, approved', rfl, rfl⟩⟩

theorem replay_eq (shows : store.Shows request response)
    (read : Genesis.ofAppStateBytes request.appState = .ok genesis)
    (written : genesis.toAppStateBytes = .ok appState) (chainId : String) (height : Int64) :
    store.replay chainId height = .ok ⟨chainId, height, response.validators, appState⟩ := by
  obtain ⟨found, reads, exported⟩ := shows.genesis
  obtain rfl := Except.ok.inj (read.symm.trans reads)
  unfold Store.replay
  rw [exported, shows.updates]
  change (genesis.toAppStateBytes >>= fun appState => pure _) = _
  rw [written]
  rfl

theorem exists_replay (bounded : request.Bounded)
    (taken : app.initChain .empty request = .ok (response, store))
    (read : Genesis.ofAppStateBytes request.appState = .ok genesis)
    (written : genesis.toAppStateBytes = .ok appState)
    (again : Genesis.ofAppStateBytes appState = .ok genesis)
    (home : String) (reports : Reports) (height : Int64) :
    ∃ other next, store.replay app.chainId height = .ok other ∧ other.appState = appState ∧
      (fresh app.chainId home reports).initChain .empty other =
        .ok (⟨response.validators, Sha256.digest appState⟩, next) ∧
      next.Shows other ⟨response.validators, Sha256.digest appState⟩ := by
  obtain ⟨next, replayed⟩ := initChain_again taken read again home reports height
  exact ⟨_, next, replay_eq (shows_of_initChain bounded taken) read written _ height, rfl, replayed,
    shows_of_initChain (bounded.of_reads read again) replayed⟩

/-- Whatever an application takes, without doubles in its document, a second application takes from
the store of the first, with the same validators; it shows the same genesis. A third one takes it from
the store of the second, under the same hash. -/
theorem initChain_replay (taken : app.initChain .empty request = .ok (response, store))
    (whole : (RawJson.Document.ofBytes request.appState).body.Numbers JsonNumber.Whole)
    (bounded : request.Bounded) (home home' : String) (reports reports' : Reports)
    (height height' : Int64) :
    ∃ second next, store.replay app.chainId height = .ok second ∧
      (fresh app.chainId home reports).initChain .empty second =
        .ok (⟨response.validators, Sha256.digest second.appState⟩, next) ∧
      next.validatorUpdates = store.validatorUpdates ∧ next.exportGenesis = store.exportGenesis ∧
      ∃ third last, next.replay app.chainId height' = .ok third ∧
        (fresh app.chainId home' reports').initChain .empty third =
          .ok (⟨response.validators, Sha256.digest second.appState⟩, last) ∧
        last.appHash? = next.appHash? ∧ next.appHash?.isSome = true := by
  have shows := shows_of_initChain bounded taken
  obtain ⟨genesis, read, exported⟩ := shows.genesis
  obtain ⟨appState, written, again⟩ := Genesis.exists_appState read whole
  obtain ⟨second, next, given, rfl, taken', shows'⟩ :=
    exists_replay bounded taken read written again home reports height
  obtain ⟨third, last, given', same, taken'', shows''⟩ :=
    exists_replay (bounded.of_reads read again) taken' again written again home' reports' height'
  obtain ⟨found, reads, exported'⟩ := shows'.genesis
  obtain rfl := Except.ok.inj (again.symm.trans reads)
  refine ⟨second, next, given, taken', shows'.updates.trans shows.updates.symm,
    exported'.trans exported.symm, third, last, given', taken'', ?_, ?_⟩
  · rw [shows''.appHash, shows'.appHash, same]
  · rw [shows'.appHash]
    rfl

theorem initChain_replay_twinRequest : ∃ response store,
    (fresh "evmos_9000-1" ".evmosd" .dropped).initChain .empty twinRequest = .ok (response, store) ∧
    ∃ second next, store.replay "evmos_9000-1" 1 = .ok second ∧
      (fresh "evmos_9000-1" ".evmosd" .dropped).initChain .empty second =
        .ok (⟨response.validators, Sha256.digest second.appState⟩, next) ∧
      next.validatorUpdates = store.validatorUpdates ∧ next.exportGenesis = store.exportGenesis := by
  obtain ⟨appHash, store, taken⟩ := taken_twinRequest
  have settled := settled_samples samples_twinStaking
  obtain ⟨second, next, given, taken', updates, exported, -⟩ := initChain_replay taken
    (whole_stakingRequest settled []) bounded_twinRequest ".evmosd" ".evmosd" .dropped .dropped 1 1
  exact ⟨_, store, taken, second, next, given, taken', updates, exported⟩

end Application
end Devnet
