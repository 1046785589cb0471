import Devnet.Proofs.Application.Verdict
import Devnet.Proofs.Genesis.Contents
import Devnet.Proofs.Json.Doubles
import Devnet.Proofs.Json.Members
import Devnet.Proofs.Table.Matches
import Mathlib

/-! A genesis that is put together from sections goes through one document and gives the same
sections again. The document holds sorted sections, so the bytes of a section change on the way. -/

namespace Devnet

theorem Codec.json_ofBytes {value : Json} (tidy : value.Tidy maxDepth) :
    json.ofBytes (Utf8.encode value.chars) = .ok value.normal := by
  unfold ofBytes
  rw [RawJson.ofBytes_encode tidy, ofDocument_eq_ok]
  exact ⟨RawJson.toJson_ofJson tidy, rfl⟩

theorem Codec.Exact.ofBytes_eq_ok {α : Type} {c : Codec α} {fit legal : α → Prop} {depth : Nat}
    (exact : c.Exact fit legal depth) (shallow : depth ≤ maxDepth) {value found : α}
    (fits : fit value) (a : Arrangement) :
    c.ofBytes (Utf8.encode (a.apply (c.encode value)).chars) = .ok found ↔
      legal value ∧ found = value := by
  rw [← exact.echoes a maxDepth value found shallow fits, ofBytes,
    RawJson.ofBytes_encode (a.within_apply (exact.tidy value fits)), ofDocument_eq_ok]
  exact and_iff_left rfl

namespace Genesis

def ofValues (values : Table String Json) : Genesis :=
  ⟨values.map fun entry => (entry.1, Utf8.encode entry.2.chars)⟩

theorem get?_ofValues (values : Table String Json) (name : String) :
    (ofValues values).get? name = (values.get? name).map fun value => Utf8.encode value.chars :=
  Table.get?_map (fun value : Json => Utf8.encode value.chars) values name

def innerDepth : Nat := 126

theorem toAppStateBytes_eq_ok {g : Genesis} {bytes : Bytes} :
    g.toAppStateBytes = .ok bytes ↔ ∃ values, Table.Matches
      (fun document value => Codec.json.ofBytes document = .ok value) g.documents values ∧
      bytes = Codec.json.toBytes (.object values) := by
  have entry_eq_ok : ∀ entry named, valueOf entry = .ok named ↔
      named.1 = entry.1 ∧ Codec.json.ofBytes entry.2 = .ok named.2 := by
    intro entry named
    unfold valueOf
    split
    · rename_i value read
      simp [read, Prod.ext_iff, eq_comm]
    · rename_i read
      simp [read]
  simp only [toAppStateBytes, toAppState, map_eq_ok, mapM_eq_ok, entry_eq_ok]
  constructor
  · rintro ⟨_, ⟨values, each, rfl⟩, rfl⟩
    exact ⟨values, each, rfl⟩
  · rintro ⟨values, each, rfl⟩
    exact ⟨_, ⟨values, each, rfl⟩, rfl⟩

theorem toAppStateBytes_ofValues {values : Table String Json}
    (tidy : ∀ entry ∈ values, entry.2.Tidy innerDepth) :
    (ofValues values).toAppStateBytes = .ok (Codec.json.toBytes
      (.object (values.map fun entry => (entry.1, entry.2.normal)))) := by
  refine toAppStateBytes_eq_ok.mpr ⟨_, ?_, rfl⟩
  rw [Table.Matches, ofValues, List.forall₂_map_left_iff, List.forall₂_map_right_iff,
    List.forall₂_same]
  intro entry member
  exact ⟨rfl, Codec.json_ofBytes ((tidy entry member).mono (by decide))⟩

theorem members_ofBytes_of_readable {values : Table String Json}
    {raws : List (Option String × RawJson)}
    (readable : RawJson.Readable (.object values) (.object raws)) :
    Codec.members.ofBytes (Codec.json.toBytes (.object values)) =
      RawJson.toMembers innerDepth [] raws := by
  unfold Codec.ofBytes Codec.toBytes
  change Codec.members.ofDocument (.ofBytes (Utf8.encode (Json.object values).chars)) = _
  rw [readable.ofBytes_encode]
  exact bind_pure _

/-- The values of a document are sorted while it is read. -/
theorem members_ofBytes {values : Table String Json} (ascending : values.Ascending)
    (tidy : ∀ entry ∈ values, entry.2.Tidy innerDepth) :
    Codec.members.ofBytes (Codec.members.toBytes values) =
      .ok (values.map fun entry => (entry.1, entry.2.normal)) := by
  have sorted : Table.Ascending (values.map fun entry => (entry.1, entry.2.normal)) :=
    List.Pairwise.map _ (fun _ _ less => less) ascending
  have readable := RawJson.readable_of_tidy (.object tidy)
  rw [RawJson.ofJson_object] at readable
  change Codec.members.ofBytes (Codec.json.toBytes (.object values)) = _
  rw [members_ofBytes_of_readable readable, RawJson.toMembers_ofMembers [] fun member inside =>
    RawJson.toJson_ofJson (tidy member inside)]
  exact congrArg Except.ok (Table.ofEntries_of_ascending sorted)

theorem ofAppStateBytes_toBytes {values : Table String Json} (ascending : values.Ascending)
    (tidy : ∀ entry ∈ values, entry.2.Tidy innerDepth) :
    ofAppStateBytes (Codec.members.toBytes values) =
      .ok (ofValues (values.map fun entry => (entry.1, entry.2.normal))) :=
  ofAppStateBytes_eq_ok.mpr ⟨_, members_ofBytes ascending tidy, rfl⟩

theorem ofAppStateBytes_normal {values : Table String Json} (ascending : values.Ascending)
    (tidy : ∀ entry ∈ values, entry.2.Tidy innerDepth) :
    ofAppStateBytes (Codec.json.toBytes
        (.object (values.map fun entry => (entry.1, entry.2.normal)))) =
      .ok (ofValues (values.map fun entry => (entry.1, entry.2.normal))) := by
  have sorted : Table.Ascending (values.map fun entry => (entry.1, entry.2.normal)) :=
    List.Pairwise.map _ (fun _ _ less => less) ascending
  have tidyNormal : ∀ entry ∈ values.map (fun entry => (entry.1, entry.2.normal)),
      entry.2.Tidy innerDepth := by
    intro entry member
    rcases List.mem_map.mp member with ⟨source, inside, rfl⟩
    exact (tidy source inside).normal
  have fixed : ∀ entry ∈ values.map (fun entry => (entry.1, entry.2.normal)),
      (entry.1, entry.2.normal) = entry := by
    intro entry member
    rcases List.mem_map.mp member with ⟨source, inside, rfl⟩
    exact Prod.ext rfl (tidy source inside).normal_normal
  have read := ofAppStateBytes_toBytes sorted tidyNormal
  rw [List.map_congr_left fixed, List.map_id'] at read
  exact read

end Genesis

namespace Sections

def values (s : Sections) : Table String Json :=
  [(Auth.moduleName, Auth.Section.codec.encode s.auth),
   (Bank.moduleName, Bank.Section.codec.encode s.bank),
   (Evm.moduleName, Evm.Section.codec.encode s.evm),
   (Inflation.moduleName, Inflation.Section.codec.encode s.inflation),
   (Staking.moduleName, Staking.Section.codec.encode s.staking)]

def genesis (s : Sections) : Genesis := .ofValues s.values

theorem ascending_values (s : Sections) : s.values.Ascending := by
  have names : [Auth.moduleName, Bank.moduleName, Evm.moduleName, Inflation.moduleName,
      Staking.moduleName].Pairwise (· < ·) := by decide
  exact List.pairwise_map.mp names

theorem ascending_documents (s : Sections) : s.genesis.documents.Ascending :=
  List.Pairwise.map _ (fun _ _ less => less) s.ascending_values

def withContent (s : Sections) : (m : Module) → m.Content → Sections
  | .auth, auth => { s with auth }
  | .bank, bank => { s with bank }
  | .staking, staking => { s with staking }
  | .inflation, inflation => { s with inflation }
  | .evm, evm => { s with evm }

theorem genesis_withSection (s : Sections) (m : Module) (content : m.Content) :
    s.genesis.withSection m content = (s.withContent m content).genesis := by
  have sorted := s.ascending_documents
  refine congrArg Genesis.mk ?_
  cases m with
  | auth => exact Table.insert_middle [] sorted
  | bank => exact Table.insert_middle (s.genesis.documents.take 1) sorted
  | evm => exact Table.insert_middle (s.genesis.documents.take 2) sorted
  | inflation => exact Table.insert_middle (s.genesis.documents.take 3) sorted
  | staking => exact Table.insert_middle (s.genesis.documents.take 4) sorted

def standard : Sections := ⟨.standard, .standard, .standard, .standard, .standard⟩

/-- The modules come in another order than their documents. -/
theorem genesis_standard : Genesis.standard = standard.genesis := by
  have perm : (Module.all.map fun m => (m.name, m.codec.toBytes m.standard)).Perm
      standard.genesis.documents :=
    (List.reverse_perm (standard.genesis.documents.drop 2)).append_left
      (standard.genesis.documents.take 2)
  exact congrArg Genesis.mk (Table.ofEntries_of_perm perm standard.ascending_documents)

end Sections

namespace Genesis

theorem get?_standard (m : Module) :
    standard.get? m.name = some (m.codec.toBytes m.standard) := by
  rw [Sections.genesis_standard, Sections.genesis, get?_ofValues]
  cases m <;> rfl

theorem section?_eq_ok {g : Genesis} {m : Module} {document : Bytes} {content : m.Content}
    (held : g.get? m.name = some document) :
    g.section? m = .ok (some content) ↔ m.codec.ofBytes document = .ok content := by
  unfold section? decode?
  rw [held, Option.mapM_some]
  cases m.codec.ofBytes document <;> simp

theorem section?_standard (m : Module) : standard.section? m = .ok (some m.standard) := by
  have exact_codec := m.exact_codec (show Module.leastRoom ≤ Codec.maxDepth by decide)
  have fits : m.Fits Codec.maxDepth m.standard := m.fits_standard (by decide)
  rw [section?_eq_ok (get?_standard m)]
  exact (exact_codec.ofBytes_eq_ok (Nat.le_refl _) fits .written).mpr ⟨m.inRange_standard, rfl⟩

theorem sectionOrStandard_cases {g : Genesis} {m : Module} {content : m.Content} :
    g.sectionOrStandard m = .ok content ↔
      (g.get? m.name = none ∧ content = m.standard) ∨
        ∃ document, g.get? m.name = some document ∧ m.codec.ofBytes document = .ok content := by
  unfold sectionOrStandard
  cases held : g.get? m.name with
  | none =>
      have missing : g.section? m = .ok none := by
        rw [section?, decode?, held]
        rfl
      rw [missing, section?_standard]
      change Except.ok m.standard = Except.ok content ↔ _
      simp [eq_comm]
  | some document =>
      have found : g.section? m = (m.codec.ofBytes document).map some := by
        rw [section?, decode?, held, Option.mapM_some]
        cases m.codec.ofBytes document <;> rfl
      rw [found]
      cases read : m.codec.ofBytes document with
      | error fault =>
          change Except.error (Fault.decode fault) = Except.ok content ↔ _
          simp [read]
      | ok value =>
          change Except.ok value = Except.ok content ↔ _
          simp [read]

theorem sectionOrStandard_of_absent {g : Genesis} {m : Module} (absent : g.get? m.name = none) :
    g.sectionOrStandard m = .ok m.standard :=
  sectionOrStandard_cases.mpr (Or.inl ⟨absent, rfl⟩)

theorem sectionOrStandard_eq_ok {g : Genesis} (m : Module) {content found : m.Content}
    {fit legal : m.Content → Prop} {depth : Nat} (exact : m.codec.Exact fit legal depth)
    (shallow : depth ≤ Codec.maxDepth) (fits : fit content)
    (held : g.get? m.name = some (Utf8.encode (m.codec.encode content).normal.chars)) :
    g.sectionOrStandard m = .ok found ↔ legal content ∧ found = content := by
  have read : m.codec.ofBytes (Utf8.encode (m.codec.encode content).normal.chars) = .ok found ↔
      legal content ∧ found = content := exact.ofBytes_eq_ok shallow fits .sorted
  rw [sectionOrStandard_cases]
  constructor
  · intro given
    rcases given with ⟨absent, -⟩ | ⟨document, present, taken⟩
    · rw [held] at absent
      cases absent
    · obtain rfl := Option.some.inj (held.symm.trans present)
      exact read.mp taken
  · intro given
    exact Or.inr ⟨_, held, read.mpr given⟩

end Genesis

namespace Sections

structure Settled (s : Sections) : Prop where
  accounts : ∀ account ∈ s.auth.accounts, account.Settled 0
  keys : ∀ v ∈ s.staking.validators, v.consensusKey.Settled 0

structure InRange (s : Sections) : Prop where
  bank : s.bank.InRange
  staking : s.staking.InRange
  inflation : s.inflation.InRange
  evm : s.evm.InRange

variable {s : Sections}

theorem tidy_values (settled : s.Settled) : ∀ entry ∈ s.values, entry.2.Tidy Genesis.innerDepth := by
  have auth := Auth.Section.exact_codec.tidy s.auth settled.accounts
  have bank := Bank.Section.exact_codec.tidy s.bank trivial
  have evm := Evm.Section.exact_codec.tidy s.evm trivial
  have inflation := Inflation.Section.exact_codec.tidy s.inflation trivial
  have staking := Staking.Section.exact_codec.tidy s.staking settled.keys
  simp only [values, List.forall_mem_cons, List.not_mem_nil, false_implies, implies_true, and_true]
  exact ⟨auth.mono (by decide), bank.mono (by decide), evm.mono (by decide),
    inflation.mono (by decide), staking.mono (by decide)⟩

def sortedValues (s : Sections) : Table String Json :=
  s.values.map fun entry => (entry.1, entry.2.normal)

def appState (s : Sections) : Bytes := Codec.json.toBytes (.object s.sortedValues)

theorem toAppStateBytes_genesis (settled : s.Settled) : s.genesis.toAppStateBytes = .ok s.appState :=
  Genesis.toAppStateBytes_ofValues (tidy_values settled)

theorem ofAppStateBytes_appState (settled : s.Settled) :
    Genesis.ofAppStateBytes s.appState = .ok (.ofValues s.sortedValues) :=
  Genesis.ofAppStateBytes_normal s.ascending_values (tidy_values settled)

/-- All sections come back through the one document, unless a number in them is too large. -/
theorem sections_appState (settled : s.Settled) {found : Sections} :
    (Genesis.ofValues s.sortedValues).sections = .ok found ↔ s.InRange ∧ found = s := by
  rw [Genesis.sections_eq_ok,
    Genesis.sectionOrStandard_eq_ok .auth Auth.Section.exact_codec (by decide) settled.accounts rfl,
    Genesis.sectionOrStandard_eq_ok .bank Bank.Section.exact_codec (by decide) trivial rfl,
    Genesis.sectionOrStandard_eq_ok .staking Staking.Section.exact_codec (by decide) settled.keys rfl,
    Genesis.sectionOrStandard_eq_ok .inflation Inflation.Section.exact_codec (by decide) trivial rfl,
    Genesis.sectionOrStandard_eq_ok .evm Evm.Section.exact_codec (by decide) trivial rfl]
  obtain ⟨auth, bank, staking, inflation, evm⟩ := s
  obtain ⟨auth', bank', staking', inflation', evm'⟩ := found
  constructor
  · intro given
    rcases given with ⟨⟨-, rfl⟩, ⟨bank, rfl⟩, ⟨staking, rfl⟩, ⟨inflation, rfl⟩, evm, rfl⟩
    exact ⟨⟨bank, staking, inflation, evm⟩, rfl⟩
  · intro given
    rcases given with ⟨⟨bank, staking, inflation, evm⟩, same⟩
    cases same
    exact ⟨⟨trivial, rfl⟩, ⟨bank, rfl⟩, ⟨staking, rfl⟩, ⟨inflation, rfl⟩, evm, rfl⟩

end Sections
end Devnet
