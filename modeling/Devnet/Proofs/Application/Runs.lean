import Devnet.Proofs.Application.Expected
import Devnet.Proofs.Genesis.Updates
import Mathlib

/-! Any number of requests, one after the other. The store shows nothing until a request is taken;
from then on it shows that request and takes no other. -/

namespace Devnet

/-- Fewer validators than there are positions, and keys whose lengths are numbers of 64 bits, as the
length of every byte string in memory is. -/
def InitRequest.Bounded (request : InitRequest) : Prop :=
  ∀ (genesis : Genesis) (staking : Staking.Section),
    Genesis.ofAppStateBytes request.appState = .ok genesis →
    genesis.sectionOrStandard .staking = .ok staking →
    staking.validators.length < 2 ^ 32 ∧
    ∀ v ∈ staking.validators, ∀ key, v.publicKey = .ok key → key.bytes.length < 2 ^ 64

structure Store.Blank (store : Store) : Prop where
  initialized : store.isInitialized = false
  genesis : store.exportGenesis = .ok .empty
  updates : store.validatorUpdates = .ok []
  appHash : store.appHash? = none

structure Store.Shows (store : Store) (request : InitRequest) (response : InitResponse) : Prop where
  initialized : store.isInitialized = true
  genesis : ∃ genesis, Genesis.ofAppStateBytes request.appState = .ok genesis ∧
    store.exportGenesis = .ok genesis
  updates : store.validatorUpdates = .ok response.validators
  appHash : store.appHash? = some (Sha256.digest request.appState)

theorem Store.blank_empty : Store.empty.Blank := ⟨rfl, rfl, rfl, rfl⟩

namespace Application

def serve (app : Application) (store : Store) (request : InitRequest) :
    Except Fault InitResponse × Store :=
  match app.initChain store request with
  | .ok (response, next) => (.ok response, next)
  | .error fault => (.error fault, store)

def run (app : Application) : Store → List InitRequest → List (Except Fault InitResponse × Store)
  | _, [] => []
  | store, request :: requests =>
    app.serve store request :: app.run (app.serve store request).2 requests

def Refused (store : Store) (entry : Except Fault InitResponse × Store) : Prop :=
  entry.1.isOk = false ∧ entry.2 = store

/-- One request is refused and changes nothing, or it is taken by a store without a chain. -/
theorem serve_cases (app : Application) (store : Store) (request : InitRequest) :
    Refused store (app.serve store request) ∨
      ∃ response next, app.initChain store request = .ok (response, next) ∧
        app.serve store request = (.ok response, next) := by
  unfold serve
  cases served : app.initChain store request with
  | error fault => exact Or.inl ⟨rfl, rfl⟩
  | ok taken =>
      obtain ⟨response, next⟩ := taken
      exact Or.inr ⟨response, next, rfl, rfl⟩

theorem refused_of_isInitialized (app : Application) {store : Store} (request : InitRequest)
    (initialized : store.isInitialized = true) : Refused store (app.serve store request) := by
  rcases app.serve_cases store request with refused | ⟨response, next, taken, -⟩
  · exact refused
  · obtain ⟨-, blank, -⟩ := initChain_eq_ok.mp taken
    rw [initialized] at blank
    cases blank

theorem run_cons_of_refused {app : Application} {store : Store} {request : InitRequest}
    (refused : Refused store (app.serve store request)) (requests : List InitRequest) :
    app.run store (request :: requests) = app.serve store request :: app.run store requests := by
  rw [run, refused.2]

theorem run_of_isInitialized (app : Application) {store : Store} (requests : List InitRequest)
    (initialized : store.isInitialized = true) :
    ∀ entry ∈ app.run store requests, Refused store entry := by
  induction requests with
  | nil =>
      intro entry member
      cases member
  | cons request requests ih =>
      have first := app.refused_of_isInitialized request initialized
      intro entry member
      rw [run_cons_of_refused first] at member
      rcases List.mem_cons.mp member with rfl | later
      · exact first
      · exact ih entry later

theorem shows_of_initChain {app : Application} {request : InitRequest} {response : InitResponse}
    {next : Store} (bounded : request.Bounded)
    (taken : app.initChain .empty request = .ok (response, next)) : next.Shows request response := by
  obtain ⟨-, -, genesis, sections, updates, approved, rfl, rfl⟩ := initChain_eq_ok.mp taken
  have staking := (Genesis.sections_eq_ok.mp approved.decodes).2.2.1
  obtain ⟨few, keys⟩ := bounded genesis sections.staking approved.reads staking
  have count := Staking.Section.length_updates_le approved.powers
  have sizes : ∀ update ∈ updates, update.publicKey.bytes.length < 2 ^ 64 := by
    intro update member
    obtain ⟨v, present, unpacked⟩ :=
      Staking.Section.exists_validator_of_mem_updates approved.powers member
    exact keys v present update.publicKey unpacked
  exact {
    initialized := Store.isInitialized_record _ _ _ _ _
    genesis := exportGenesis_of_initChain taken
    updates := Store.validatorUpdates_record _ _ _ _ _ (by omega) sizes
    appHash := Store.appHash?_record _ _ _ _ _ }

/-- Of requests in a row to a new application at most one is taken. The ones before it leave the
store empty; the store that it leaves shows it, and all later ones are refused and leave that store. -/
theorem run_fresh (chainId home : String) (reports : Reports) (requests : List InitRequest)
    (bounded : ∀ request ∈ requests, request.Bounded) :
    Store.empty.Blank ∧
    ((∀ entry ∈ (fresh chainId home reports).run .empty requests, Refused .empty entry) ∨
      ∃ before request after response store,
        requests = before ++ request :: after ∧
        (fresh chainId home reports).run .empty requests =
          (fresh chainId home reports).run .empty before ++
            (.ok response, store) :: (fresh chainId home reports).run store after ∧
        (∀ entry ∈ (fresh chainId home reports).run .empty before, Refused .empty entry) ∧
        store.Shows request response ∧
        ∀ entry ∈ (fresh chainId home reports).run store after, Refused store entry) := by
  refine ⟨Store.blank_empty, ?_⟩
  generalize fresh chainId home reports = app
  -- a refused request leaves the store empty, so the ones behind it find it as the first one did
  induction requests with
  | nil =>
      left
      intro entry member
      cases member
  | cons request requests ih =>
      rcases app.serve_cases .empty request with refused | ⟨response, next, taken, served⟩
      · have unchanged := run_cons_of_refused refused
        rcases ih fun other member => bounded other (List.mem_cons_of_mem _ member) with
          none | ⟨before, accepted, after, response, store, split, trace, early, shows, late⟩
        · left
          intro entry member
          rw [unchanged] at member
          rcases List.mem_cons.mp member with rfl | later
          · exact refused
          · exact none entry later
        · right
          refine ⟨request :: before, accepted, after, response, store, ?_, ?_, ?_, shows, late⟩
          · rw [split, List.cons_append]
          · rw [unchanged, trace, unchanged, List.cons_append]
          · intro entry member
            rw [unchanged] at member
            rcases List.mem_cons.mp member with rfl | later
            · exact refused
            · exact early entry later
      · right
        have shows := shows_of_initChain (bounded request (by simp)) taken
        refine ⟨[], request, requests, response, next, rfl, ?_, ?_, shows, ?_⟩
        · conv_lhs => unfold run
          rw [served]
          rfl
        · intro entry member
          cases member
        · exact app.run_of_isInitialized requests shows.initialized

theorem bounded_twinRequest : twinRequest.Bounded := by
  intro genesis staking reads decodes
  obtain rfl := eq_of_reads_stakingRequest (settled_samples samples_twinStaking) reads decodes
  refine ⟨by decide, ?_⟩
  intro v member key unpacked
  obtain ⟨source, listed, sample⟩ := exists_of_forall₂ samples_twinStaking.flip member
  obtain rfl := Except.ok.inj (sample.publicKey_eq.symm.trans unpacked)
  clear sample unpacked
  revert source
  decide

def strangeRequest : InitRequest := { twinRequest with chainId := "evmos_9001-1" }

/-- A new application takes it, with the usual section for every module. -/
def emptyRequest : InitRequest := ⟨"evmos_9000-1", 1, [], Utf8.ofString "\x7b\x7d"⟩

theorem bounded_emptyRequest : emptyRequest.Bounded := by
  intro genesis staking reads decodes
  cases reads
  have absent : Genesis.get? ⟨[]⟩ Module.staking.name = none := rfl
  obtain rfl := Except.ok.inj ((Genesis.sectionOrStandard_of_absent absent).symm.trans decodes)
  exact ⟨by decide, List.forall_mem_nil _⟩

theorem serve_twinRequest : ∃ appHash store,
    (fresh "evmos_9000-1" ".evmosd" .dropped).serve .empty twinRequest =
      (.ok ⟨twinUpdates, appHash⟩, store) := by
  obtain ⟨appHash, store, taken⟩ := taken_twinRequest
  refine ⟨appHash, store, ?_⟩
  rw [serve, taken]

theorem refused_strangeRequest :
    Refused .empty ((fresh "evmos_9000-1" ".evmosd" .dropped).serve .empty strangeRequest) := by
  rcases serve_cases _ .empty strangeRequest with refused | ⟨response, next, taken, -⟩
  · exact refused
  · exact absurd (initChain_eq_ok.mp taken).1 (by decide)

/-- The first request is for another chain, the second one is taken and shown, and the third one comes
too late. -/
theorem run_threeRequests : ∃ appHash store first last,
    (fresh "evmos_9000-1" ".evmosd" .dropped).run .empty [strangeRequest, twinRequest, emptyRequest] =
      [first, (.ok ⟨twinUpdates, appHash⟩, store), last] ∧
    Refused .empty first ∧ store.Shows twinRequest ⟨twinUpdates, appHash⟩ ∧ Refused store last := by
  have bounded : ∀ request ∈ [strangeRequest, twinRequest, emptyRequest], request.Bounded := by
    rw [List.forall_mem_cons, List.forall_mem_cons, List.forall_mem_singleton]
    exact ⟨bounded_twinRequest, bounded_twinRequest, bounded_emptyRequest⟩
  obtain ⟨-, outcome⟩ := run_fresh "evmos_9000-1" ".evmosd" .dropped _ bounded
  obtain ⟨appHash, store, served⟩ := serve_twinRequest
  have strange := refused_strangeRequest
  generalize fresh "evmos_9000-1" ".evmosd" .dropped = app at outcome served strange ⊢
  have trace : app.run .empty [strangeRequest, twinRequest, emptyRequest] =
      [app.serve .empty strangeRequest, (.ok ⟨twinUpdates, appHash⟩, store),
        app.serve store emptyRequest] := by
    rw [run_cons_of_refused strange, run, served]
    rfl
  refine ⟨appHash, store, _, _, trace, strange, ?_⟩
  rcases outcome with none | ⟨before, request, after, response, next, split, parts, early, shows, late⟩
  · rw [trace] at none
    cases (none _ (.tail _ (.head _))).1
  · -- what is taken is the second request, as those before it have been refused
    rw [trace] at parts
    rcases before with _ | ⟨one, _ | ⟨two, others⟩⟩
    · obtain ⟨first, -⟩ := List.cons.inj parts
      rw [first] at strange
      cases strange.1
    · cases split
      obtain ⟨-, rest⟩ := List.cons.inj parts
      obtain ⟨second, -⟩ := List.cons.inj rest
      cases second
      exact ⟨shows, late _ (.head _)⟩
    · obtain ⟨rfl, rest⟩ := List.cons.inj split
      obtain ⟨rfl, -⟩ := List.cons.inj rest
      rw [run_cons_of_refused strange, run, served] at early
      cases (early _ (.tail _ (.head _))).1

end Application
end Devnet
