import Devnet.Proofs.Application.Documents
import Devnet.Proofs.Genesis.Contents
import Devnet.Proofs.Genesis.Evm
import Devnet.Proofs.Genesis.Overrides
import Mathlib

namespace Devnet

namespace Evm

structure Contract where
  address : Bytes
  code : Bytes
  storage : List (Bytes × Bytes)
  sized : address.length = addressSize
  slots : ∀ slot ∈ storage, slot.1.length = hashSize ∧ slot.2.length = hashSize

namespace Contract

def account (contract : Contract) : Account :=
  .ofBytes contract.address contract.code (contract.storage.map fun slot => .ofBytes slot.1 slot.2)

theorem nodup_map_encodeHex {α : Type} {entries : List α} {bytes : α → Bytes} :
    (entries.map fun entry => (encodeHex (bytes entry)).toLower).Nodup ↔ (entries.map bytes).Nodup := by
  have lowered : ∀ bytes, (encodeHex bytes).toLower = encodeHex bytes := Form.toLower_write .marked
  have injective : Function.Injective encodeHex := fun a b same =>
    (@Form.write_injective .marked .marked a b same).2
  simp only [lowered]
  rw [← List.nodup_map_iff injective, List.map_map]
  rfl

theorem decodeHex_encodeHex (bytes : Bytes) : decodeHex (encodeHex bytes) = .ok bytes :=
  decodeHex_write .marked bytes

theorem validate_account {contract : Contract} :
    contract.account.validate = .ok () ↔ (contract.storage.map Prod.fst).Nodup := by
  have slots : ∀ slot ∈ contract.account.storage, slot.Valid := by
    refine List.forall_mem_map.mpr fun slot member => ?_
    exact ⟨⟨_, decodeHex_encodeHex _, (contract.slots slot member).1⟩, _, decodeHex_encodeHex _⟩
  have keys : (contract.account.storage.map fun slot => slot.key.toLower).Nodup ↔
      (contract.storage.map Prod.fst).Nodup := by
    rw [← nodup_map_encodeHex, account, Account.ofBytes, List.map_map]
    rfl
  rw [Account.validate_eq_ok, ← keys]
  exact ⟨fun valid => valid.keys, fun distinct =>
    ⟨⟨_, decodeHex_encodeHex _, contract.sized⟩, ⟨_, decodeHex_encodeHex _⟩, slots, distinct⟩⟩

end Contract

def Section.ofContracts (contracts : List Contract) (params : Params) : Section :=
  ⟨contracts.map Contract.account, params⟩

structure Contract.Apart (contracts : List Contract) : Prop where
  addresses : (contracts.map Contract.address).Nodup
  keys : ∀ contract ∈ contracts, (contract.storage.map Prod.fst).Nodup

theorem Section.validate_ofContracts {contracts : List Contract} {params : Params}
    (accepted : params.validate = .ok ()) :
    (Section.ofContracts contracts params).validate = .ok () ↔ Contract.Apart contracts := by
  have addresses : ((contracts.map Contract.account).map fun account => account.address.toLower).Nodup ↔
      (contracts.map Contract.address).Nodup := by
    rw [← Contract.nodup_map_encodeHex, List.map_map]
    rfl
  rw [Section.validate_eq_ok, Section.ofContracts, addresses, List.forall_mem_map]
  simp only [Contract.validate_account]
  exact ⟨fun given => ⟨given.1.2, given.1.1⟩, fun apart => ⟨⟨apart.keys, apart.addresses⟩, accepted⟩⟩

end Evm

namespace Sections

def ofEvm (evm : Evm.Section) : Sections := { standard with evm }

variable {evm : Evm.Section}

theorem settled_ofEvm (evm : Evm.Section) : (ofEvm evm).Settled :=
  ⟨List.forall_mem_nil _, List.forall_mem_nil _⟩

theorem inRange_ofEvm (inRange : evm.InRange) : (ofEvm evm).InRange where
  bank := Module.inRange_standard .bank
  staking := Module.inRange_standard .staking
  inflation := Module.inRange_standard .inflation
  evm := inRange

theorem valid_standard : standard.Valid .standard := by
  have accepted : standard.validate .standard = .ok () := by decide +kernel
  exact validate_eq_ok.mp accepted

theorem valid_ofEvm (accepted : evm.validate = .ok ()) : (ofEvm evm).Valid .standard :=
  { valid_standard with evm := accepted }

theorem section?_ofEvm (inRange : evm.InRange) :
    (Genesis.ofValues (ofEvm evm).sortedValues).section? .evm = .ok (some evm) := by
  have read : Module.evm.codec.ofBytes (Utf8.encode (Module.evm.codec.encode evm).normal.chars) =
      .ok evm :=
    (Evm.Section.exact_codec.ofBytes_eq_ok (by decide) trivial .sorted).mpr ⟨inRange, rfl⟩
  exact (Genesis.section?_eq_ok rfl).mpr read

end Sections

namespace Application

variable {evm : Evm.Section}

theorem initChain_ofEvm (accepted : evm.validate = .ok ()) (inRange : evm.InRange) (chainId home : String)
    (reports : Reports) (height : Int64) :
    ∃ response next, (fresh chainId home reports).initChain .empty
        ⟨chainId, height, [], (Sections.ofEvm evm).appState⟩ = .ok (response, next) ∧
      ∃ exported, next.exportGenesis = .ok exported ∧ exported.section? .evm = .ok (some evm) := by
  have settled := Sections.settled_ofEvm evm
  have updates : (Sections.ofEvm evm).staking.updates = .ok [] := rfl
  have succeeds : ∃ response next, (fresh chainId home reports).initChain .empty
      ⟨chainId, height, [], (Sections.ofEvm evm).appState⟩ = .ok (response, next) :=
    (initChain_appState settled updates).mpr
      ⟨rfl, Sections.valid_ofEvm accepted, Sections.inRange_ofEvm inRange, checkExpected_self []⟩
  obtain ⟨response, next, taken⟩ := succeeds
  exact ⟨response, next, taken, _, exportGenesis_appState settled rfl taken,
    Sections.section?_ofEvm inRange⟩

/-- Contracts make a section that passes exactly if their addresses differ and the keys of each of them
differ. In the place of the usual section it then gets through a new application, and is shown as it
was. -/
theorem initChain_contracts {contracts : List Evm.Contract} {params : Evm.Params}
    (accepted : params.validate = .ok ())
    (bounded : ∀ scheduled ∈ params.chainConfig.heights, ∀ height ∈ scheduled,
      height.natAbs < 2 ^ 256) :
    ((Evm.Section.ofContracts contracts params).validate = .ok () ↔ Evm.Contract.Apart contracts) ∧
    (Evm.Contract.Apart contracts →
      ∀ (overrides : Overrides) (chainId home : String) (reports : Reports) (height : Int64),
        overrides.get? Evm.moduleName = some ⟨.evm, Evm.Section.ofContracts contracts params⟩ →
        ∃ genesis appState response next exported,
          Genesis.standard.withEvm overrides = .ok genesis ∧
          genesis.toAppStateBytes = .ok appState ∧
          (fresh chainId home reports).initChain .empty ⟨chainId, height, [], appState⟩ =
            .ok (response, next) ∧
          next.exportGenesis = .ok exported ∧
          exported.section? .evm = .ok (some (Evm.Section.ofContracts contracts params))) := by
  have passes : (Evm.Section.ofContracts contracts params).validate = .ok () ↔
      Evm.Contract.Apart contracts := Evm.Section.validate_ofContracts accepted
  have inRange : (Evm.Section.ofContracts contracts params).InRange := by
    intro scheduled member height present
    rw [Integer.InRange, Integer.limit_eq]
    exact bounded scheduled member height present
  refine ⟨passes, fun apart overrides chainId home reports height given => ?_⟩
  obtain ⟨response, next, taken, exported, shown, found⟩ :=
    initChain_ofEvm (passes.mpr apart) inRange chainId home reports height
  have installed : Genesis.standard.withEvm overrides =
      .ok (Sections.ofEvm (Evm.Section.ofContracts contracts params)).genesis := by
    rw [Sections.genesis_standard, Sections.genesis_withEvm_eq_ok]
    exact ⟨some _, Overrides.content?_eq_ok.mpr given, rfl⟩
  exact ⟨_, _, response, next, exported, installed,
    Sections.toAppStateBytes_genesis (Sections.settled_ofEvm _), taken, shown, found⟩

def twoContracts : List Evm.Contract :=
  [⟨List.replicate 20 0xAA, [0x60, 0x80], [(List.replicate 32 1, List.replicate 32 2),
      (List.replicate 32 3, List.replicate 32 0)], by decide, by decide⟩,
   ⟨List.replicate 20 0xBB, [], [], by decide, by decide⟩]

theorem initChain_contracts_twoContracts :
    let evm : Evm.Section := .ofContracts twoContracts .standard
    ∃ genesis appState response next exported,
      Genesis.standard.withEvm [(Evm.moduleName, ⟨.evm, evm⟩)] = .ok genesis ∧
      genesis.toAppStateBytes = .ok appState ∧
      (fresh "evmos_9000-1" ".evmosd" .dropped).initChain .empty ⟨"evmos_9000-1", 1, [], appState⟩ =
        .ok (response, next) ∧
      next.exportGenesis = .ok exported ∧ exported.section? .evm = .ok (some evm) := by
  have bounded : ∀ scheduled ∈ Evm.Params.standard.chainConfig.heights, ∀ height ∈ scheduled,
      height.natAbs < 2 ^ 256 := by decide
  have apart : Evm.Contract.Apart twoContracts := ⟨by decide, by decide⟩
  exact (initChain_contracts Evm.Params.validate_standard bounded).2 apart _ "evmos_9000-1" ".evmosd"
    .dropped 1 rfl

end Application
end Devnet
