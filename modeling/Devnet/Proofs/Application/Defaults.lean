import Devnet.Proofs.Application.Expected
import Devnet.Proofs.Genesis.Additions
import Devnet.Proofs.Store.Export
import Mathlib

namespace Devnet

namespace Genesis

variable {g : Genesis} {m : Module} {document : Bytes}

theorem sectionOrStandard_insert (absent : g.get? m.name = none)
    (standard : m.codec.ofBytes document = .ok m.standard) (other : Module) :
    (g.insert m.name document).sectionOrStandard other = g.sectionOrStandard other := by
  by_cases same : other = m
  · subst same
    have held : (g.insert other.name document).get? other.name = some document :=
      Table.get?_insert_self _ _ _
    rw [sectionOrStandard_cases.mpr (Or.inr ⟨document, held, standard⟩),
      sectionOrStandard_of_absent absent]
  · have kept : (g.insert m.name document).get? other.name = g.get? other.name :=
      Table.get?_insert_of_ne _ _ (Module.name_injective.ne same)
    unfold sectionOrStandard section? decode?
    rw [kept]

theorem sections_insert (absent : g.get? m.name = none)
    (standard : m.codec.ofBytes document = .ok m.standard) :
    (g.insert m.name document).sections = g.sections := by
  unfold sections
  simp only [sectionOrStandard_insert absent standard]

theorem ofAppStateBytes_withStandard {bytes : Bytes} (ascending : g.documents.Ascending)
    (absent : g.get? m.name = none) (written : g.toAppStateBytes = .ok bytes) :
    ∃ bytes' document, (g.withSection m m.standard).toAppStateBytes = .ok bytes' ∧
      m.codec.ofBytes document = .ok m.standard ∧
      ofAppStateBytes bytes' = (ofAppStateBytes bytes).map (fun kept => kept.insert m.name document) ∧
      ∀ kept, ofAppStateBytes bytes = .ok kept → kept.get? m.name = none := by
  have fits : m.Fits innerDepth m.standard := m.fits_standard (by decide)
  have own : Codec.json.ofBytes (m.codec.toBytes m.standard) = .ok (m.codec.encode m.standard).normal :=
    Codec.json_ofBytes (fits.tidy.mono (by decide))
  have passes : RawJson.ReadAgain innerDepth (m.codec.encode m.standard).normal
      (m.codec.encode m.standard).normal := by
    have taken := RawJson.toJson_ofJson fits.tidy.normal
    rw [fits.tidy.normal_normal] at taken
    exact ⟨_, RawJson.readable_of_tidy fits.tidy.normal, taken⟩
  have standard : m.codec.ofBytes (Utf8.encode (m.codec.encode m.standard).normal.chars) =
      .ok m.standard :=
    ((m.exact_codec (by decide)).ofBytes_eq_ok (by decide) fits .sorted).mpr ⟨m.inRange_standard, rfl⟩
  obtain ⟨bytes', written', read, gone⟩ :=
    ofAppStateBytes_insert ascending absent written own passes
  exact ⟨bytes', _, written', standard, read, gone⟩

end Genesis

namespace Application

/-- Two runs give the same validators and leave the same documents, apart from that of one module. The
first leaves none for it, and the second one that spells the standard section. -/
structure SameButFor (m : Module) (first second : InitResponse × Store) : Prop where
  validators : second.1.validators = first.1.validators
  exports : ∃ exported document, first.2.exportGenesis = .ok exported ∧ exported.get? m.name = none ∧
    m.codec.ofBytes document = .ok m.standard ∧
    second.2.exportGenesis = .ok (exported.insert m.name document)

variable {m : Module} {document bytes bytes' : Bytes}

theorem judge_insert (standard : m.codec.ofBytes document = .ok m.standard)
    (read : Genesis.ofAppStateBytes bytes' =
      (Genesis.ofAppStateBytes bytes).map fun kept => kept.insert m.name document)
    (gone : ∀ kept, Genesis.ofAppStateBytes bytes = .ok kept → kept.get? m.name = none)
    (app : Application) (request : InitRequest) :
    Alike (fun first second => first.1.documents.Ascending ∧ first.1.get? m.name = none ∧
        second = (first.1.insert m.name document, first.2))
      (app.judge { request with appState := bytes }) (app.judge { request with appState := bytes' }) := by
  have documents : Alike (fun kept kept' => kept.documents.Ascending ∧ kept.get? m.name = none ∧
      kept' = kept.insert m.name document) (Genesis.ofAppStateBytes bytes)
        (Genesis.ofAppStateBytes bytes') := by
    rw [read]
    cases taken : Genesis.ofAppStateBytes bytes with
    | error fault => exact .refused fault
    | ok kept => exact .taken ⟨Genesis.ascending_documents taken, gone kept taken, rfl⟩
  unfold judge
  apply (documents.mapError Fault.decode).bind
  rintro kept _ ⟨ascending, absent, rfl⟩
  rw [Genesis.sections_insert absent standard]
  apply Alike.step
  intro sections _
  apply Alike.step
  intro _ _
  apply Alike.step
  intro updates _
  apply Alike.step
  intro _ _
  exact .taken ⟨ascending, absent, rfl⟩

/-- Leaving the section of a module out is the same as giving the standard one. -/
theorem initChain_withStandard {g : Genesis} (ascending : g.documents.Ascending)
    (absent : g.get? m.name = none) (written : g.toAppStateBytes = .ok bytes) :
    ∃ bytes', (g.withSection m m.standard).toAppStateBytes = .ok bytes' ∧
      ∀ (app : Application) (request : InitRequest),
        Alike (SameButFor m) (app.initChain .empty { request with appState := bytes })
          (app.initChain .empty { request with appState := bytes' }) := by
  obtain ⟨bytes', document, written', standard, read, gone⟩ :=
    Genesis.ofAppStateBytes_withStandard ascending absent written
  refine ⟨bytes', written', fun app request => ?_⟩
  unfold initChain
  apply Alike.check
  apply Alike.check
  apply (judge_insert standard read gone app request).bind
  rintro ⟨kept, updates⟩ _ ⟨sorted, missing, rfl⟩
  refine .taken ⟨rfl, kept, document, Store.exportGenesis_record _ _ _ _ _ sorted, missing, standard, ?_⟩
  exact Store.exportGenesis_record _ _ _ _ _ (Table.ascending_insert _ _ sorted)

def twinGenesis : Genesis := .ofValues
  [(Bank.moduleName, Bank.Section.codec.encode (poolBank (2 * 10 ^ 18) 0)),
   (Staking.moduleName, Staking.Section.codec.encode twinStaking)]

theorem ascending_twinGenesis : twinGenesis.documents.Ascending := by
  have less : Bank.moduleName < Staking.moduleName := by decide
  exact List.Pairwise.map _ (fun _ _ less => less) (List.pairwise_pair.mpr less)

theorem absent_twinGenesis : twinGenesis.get? Module.evm.name = none := by
  rw [twinGenesis, Genesis.get?_ofValues]
  rfl

theorem written_twinGenesis : ∃ bytes, twinGenesis.toAppStateBytes = .ok bytes ∧
    Genesis.ofAppStateBytes bytes = Genesis.ofAppStateBytes twinRequest.appState := by
  have settled := settled_samples samples_twinStaking
  have tidy := @tidy_stakingRequest (poolBank (2 * 10 ^ 18) 0) _ settled
  have less : Bank.moduleName < Staking.moduleName := by decide
  refine ⟨_, Genesis.toAppStateBytes_ofValues tidy, ?_⟩
  rw [Genesis.ofAppStateBytes_normal (List.pairwise_pair.mpr less) tidy, twinRequest,
    reads_stakingRequest settled []]
  rfl

theorem initChain_withStandard_twinGenesis : ∃ bytes bytes' first second,
    twinGenesis.toAppStateBytes = .ok bytes ∧
    (twinGenesis.withSection .evm Evm.Section.standard).toAppStateBytes = .ok bytes' ∧
    (fresh "evmos_9000-1" ".evmosd" .dropped).initChain .empty { twinRequest with appState := bytes } =
      .ok first ∧
    (fresh "evmos_9000-1" ".evmosd" .dropped).initChain .empty { twinRequest with appState := bytes' } =
      .ok second ∧
    first.1.validators = twinUpdates ∧ SameButFor .evm first second := by
  obtain ⟨bytes, written, reads⟩ := written_twinGenesis
  obtain ⟨bytes', written', alike⟩ :=
    initChain_withStandard ascending_twinGenesis absent_twinGenesis written
  obtain ⟨appHash, next, taken⟩ := taken_twinRequest
  obtain ⟨chain, blank, genesis, sections, updates, approved, same, -⟩ := initChain_eq_ok.mp taken
  have approved' : (fresh "evmos_9000-1" ".evmosd" .dropped).Approves
      { twinRequest with appState := bytes } genesis sections updates :=
    { approved with reads := reads.trans approved.reads }
  have first : ∃ next, (fresh "evmos_9000-1" ".evmosd" .dropped).initChain .empty
      { twinRequest with appState := bytes } = .ok (⟨updates, Sha256.digest bytes⟩, next) :=
    ⟨_, initChain_eq_ok.mpr ⟨chain, blank, genesis, sections, updates, approved', rfl, rfl⟩⟩
  obtain ⟨next, first⟩ := first
  have outcome := alike (fresh "evmos_9000-1" ".evmosd" .dropped) twinRequest
  rw [first] at outcome
  obtain ⟨second, taken', but⟩ := outcome.exists_ok
  refine ⟨bytes, bytes', _, second, written, written', first, taken', ?_, but⟩
  exact (congrArg InitResponse.validators same).symm

end Application
end Devnet
