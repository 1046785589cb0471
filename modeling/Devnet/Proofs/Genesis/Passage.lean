import Devnet.Proofs.Genesis.Contents
import Devnet.Proofs.Genesis.RoundTrip
import Devnet.Proofs.Json.Doubles
import Mathlib

namespace Devnet

namespace Genesis

/-- A document of one value, which leaves a level for the application state around it. -/
def WellFormed (document : Bytes) : Prop :=
  ∃ value, Codec.json.ofBytes document = .ok value ∧ value.Within (fun _ => True) innerDepth

theorem WellFormed.proper {document : Bytes} (wellFormed : WellFormed document) :
    ∃ value, Codec.json.ofBytes document = .ok value ∧ value.Within RawJson.Proper innerDepth := by
  obtain ⟨value, read, levels⟩ := wellFormed
  have decoded := (Codec.ofDocument_eq_ok.mp read).1
  have numbers := (RawJson.within_toJson (RawJson.numbers_ofBytes document) decoded).1
  exact ⟨value, read, numbers.within levels⟩

theorem wellFormed_number {n : JsonNumber} (proper : RawJson.Proper n) :
    WellFormed (Codec.json.toBytes (.number n)) := by
  obtain ⟨m, readable⟩ := RawJson.readable_proper proper
  refine ⟨.number m, ?_, .number innerDepth trivial⟩
  unfold Codec.ofBytes Codec.toBytes
  change Codec.json.ofDocument (.ofBytes (Utf8.encode (Json.number n).chars)) = _
  rw [readable.ofBytes_encode, Codec.ofDocument_eq_ok]
  exact ⟨rfl, rfl⟩

theorem exists_passage {g : Genesis} (ascending : g.documents.Ascending)
    (each : ∀ entry ∈ g.documents, WellFormed entry.2) :
    ∃ (values again : Table String Json) (bytes : Bytes),
      Table.Matches (fun document value => Codec.json.ofBytes document = .ok value) g.documents values ∧
      Table.Matches (RawJson.ReadAgain innerDepth) values again ∧
      g.toAppStateBytes = .ok bytes ∧ ofAppStateBytes bytes = .ok (ofValues again) := by
  have given : ∀ entry ∈ g.documents, ∃ value, Codec.json.ofBytes entry.2 = .ok value ∧
      value.Within RawJson.Proper innerDepth := fun entry member => (each entry member).proper
  obtain ⟨values, read⟩ := Table.exists_matches
    (R := fun document value => Codec.json.ofBytes document = .ok value ∧
      value.Within RawJson.Proper innerDepth) given
  have proper : ∀ entry ∈ values, entry.2.Within RawJson.Proper innerDepth := by
    intro entry member
    obtain ⟨document, -, -, -, within⟩ := exists_of_forall₂ read member
    exact within
  obtain ⟨again, passed⟩ := Table.exists_matches fun entry member =>
    RawJson.exists_readAgain (proper entry member)
  have taken : Table.Matches (fun document value => Codec.json.ofBytes document = .ok value)
      g.documents values := read.imp fun _ _ both => ⟨both.1, both.2.1⟩
  obtain ⟨raws, readable, back⟩ := RawJson.exists_readMembers passed
  rw [Table.ofEntries_of_ascending (passed.ascending (read.ascending ascending))] at back
  exact ⟨values, again, Codec.json.toBytes (.object values), taken, passed,
    toAppStateBytes_eq_ok.mpr ⟨values, taken, rfl⟩,
    ofAppStateBytes_eq_ok.mpr ⟨again, (members_ofBytes_of_readable readable).trans back, rfl⟩⟩

theorem exists_section {g : Genesis} {m : Module} {content : m.Content} (inRange : m.InRange content)
    (fits : m.Fits innerDepth content) (ascending : g.documents.Ascending)
    (others : ∀ entry ∈ g.documents, entry.1 ≠ m.name → WellFormed entry.2) :
    ∃ bytes again, (g.withSection m content).toAppStateBytes = .ok bytes ∧
      ofAppStateBytes bytes = .ok again ∧ again.section? m = .ok (some content) := by
  have exact : m.codec.Exact (m.Fits innerDepth) m.InRange innerDepth := m.exact_codec (by decide)
  have own : Codec.json.ofBytes (m.codec.toBytes content) = .ok (m.codec.encode content).normal :=
    Codec.json_ofBytes (fits.tidy.mono (by decide))
  have each : ∀ entry ∈ (g.withSection m content).documents, WellFormed entry.2 := by
    intro entry member
    by_cases same : entry = (m.name, m.codec.toBytes content)
    · have levels := (RawJson.within_toJson (RawJson.numbers_any _)
        (Codec.ofDocument_eq_ok.mp own).1).1.within fits.tidy.normal
      rw [same]
      exact ⟨_, own, levels⟩
    · obtain ⟨old, name⟩ := Table.mem_insert_of_ne ascending member same
      exact others entry old name
  obtain ⟨values, again, bytes, read, passed, written, taken⟩ :=
    exists_passage (Table.ascending_insert m.name _ ascending) each
  refine ⟨bytes, ofValues again, written, taken, ?_⟩
  obtain ⟨value, found, decoded⟩ := read.get? (Table.get?_insert_self m.name _ g.documents)
  obtain rfl : (m.codec.encode content).normal = value := Except.ok.inj (own.symm.trans decoded)
  obtain ⟨value, found, passes⟩ := passed.get? found
  rw [passes.eq_normal fits.tidy.normal, fits.tidy.normal_normal] at found
  have held : (ofValues again).get? m.name =
      some (Utf8.encode (m.codec.encode content).normal.chars) := by
    rw [get?_ofValues, found]
    rfl
  have back := (exact.ofBytes_eq_ok (by decide) fits .sorted).mpr ⟨inRange, rfl⟩
  exact (section?_eq_ok held).mpr back

end Genesis

/-- The sections of every module come back from their documents and from application states, as long
as their numbers can be read and their envelopes hold no doubles. Documents give no other sections, so
whatever is read from one without doubles comes back from its own. -/
theorem Module.content_returns (m : Module) :
    (∀ content, m.InRange content → m.Fits Codec.maxDepth content →
      m.codec.ofBytes (m.codec.toBytes content) = .ok content) ∧
    (∀ content (g : Genesis), m.InRange content → m.Fits Genesis.innerDepth content →
      g.documents.Ascending →
      (∀ entry ∈ g.documents, entry.1 ≠ m.name → Genesis.WellFormed entry.2) →
      ∃ bytes again, (g.withSection m content).toAppStateBytes = .ok bytes ∧
        Genesis.ofAppStateBytes bytes = .ok again ∧ again.section? m = .ok (some content)) ∧
    ∀ bytes content, m.codec.ofBytes bytes = .ok content →
      m.InRange content ∧ (∀ envelope ∈ m.envelopes content, Envelope.Formed envelope.fields) ∧
      ((RawJson.Document.ofBytes bytes).body.Numbers JsonNumber.Whole →
        m.codec.ofBytes (m.codec.toBytes content) = .ok content) := by
  have exact : m.codec.Exact (m.Fits Codec.maxDepth) m.InRange Codec.maxDepth :=
    m.exact_codec (by decide)
  have back (content : m.Content) (inRange : m.InRange content)
      (fits : m.Fits Codec.maxDepth content) :
      m.codec.ofBytes (m.codec.toBytes content) = .ok content :=
    (exact.ofBytes_eq_ok (Nat.le_refl _) fits .written).mpr ⟨inRange, rfl⟩
  refine ⟨back, fun content g inRange fits => Genesis.exists_section inRange fits, ?_⟩
  intro bytes content read
  have decoded := (Codec.ofDocument_eq_ok.mp read).1
  have inRange := inRange_of_decode decoded
  refine ⟨inRange, formed_of_decode decoded, fun whole => ?_⟩
  exact back content inRange (fits_of_decode (by decide) whole decoded)

namespace Staking

def foreignValidator : Validator where
  operatorAddress := "operator"
  consensusKey := ⟨"/foreign.Key", [("bits", .ofNat 8), ("name", .string "\t")]⟩
  jailed := true
  status := .unbonding
  tokens := 2 ^ 256 - 1
  delegatorShares := .one
  description := .blank
  unbondingHeight := -1
  unbondingTime := noTime
  commission := .free
  minSelfDelegation := 0

def foreignSection : Section := .make .standard [foreignValidator] []

theorem inRange_foreignSection : foreignSection.InRange := by
  apply Section.inRange_make Decimal.inRange_zero _ (List.forall_mem_nil _)
  rw [List.forall_mem_singleton]
  exact ⟨by decide, Decimal.inRange_one, Commission.inRange_free, Integer.inRange_zero⟩

theorem fits_foreignSection : Module.staking.Fits 6 foreignSection := by
  have formed : Envelope.Formed foreignValidator.consensusKey.fields := by
    have bits : "bits" ≠ Envelope.urlKey := by decide
    have name : "name" ≠ Envelope.urlKey := by decide
    exact (Envelope.formed_nil.insert name rfl).insert bits rfl
  have settled : ∀ v ∈ [foreignValidator], v.consensusKey.Settled 0 := by
    rw [List.forall_mem_singleton]
    refine ⟨formed, ?_⟩
    rw [foreignValidator, List.forall_mem_cons, List.forall_mem_singleton]
    exact ⟨Json.Tidy.integer 0 ⟨by decide, by decide⟩, .string 0 "\t"⟩
  refine ⟨?_, (Section.exact_codec.tidy foreignSection settled).mono (by decide)⟩
  exact List.forall_mem_singleton.mpr formed

end Staking

theorem Module.content_returns_foreignSection :
    let g : Genesis := ⟨[("other", Codec.json.toBytes (.number (.double ⟨false, 2 ^ 52, -53⟩)))]⟩
    let document := Module.staking.codec.toBytes Staking.foreignSection
    ∃ bytes again, (g.withSection .staking Staking.foreignSection).toAppStateBytes = .ok bytes ∧
      Genesis.ofAppStateBytes bytes = .ok again ∧
      again.section? .staking = .ok (some Staking.foreignSection) ∧
      Module.staking.codec.ofBytes document = .ok Staking.foreignSection := by
  intro g document
  obtain ⟨back, passage, sound⟩ := Module.content_returns .staking
  have fits {room : Nat} (enough : 6 ≤ room) : Module.staking.Fits room Staking.foreignSection :=
    ⟨Staking.fits_foreignSection.formed, Staking.fits_foreignSection.tidy.mono enough⟩
  have decoded := back _ Staking.inRange_foreignSection (fits (by decide))
  have half : Genesis.WellFormed (Codec.json.toBytes (.number (.double ⟨false, 2 ^ 52, -53⟩))) :=
    Genesis.wellFormed_number ⟨by decide, by decide, by decide, Or.inl (Nat.le_refl _)⟩
  obtain ⟨bytes, again, written, read, found⟩ := passage _ g Staking.inRange_foreignSection
    (fits (by decide)) (List.pairwise_singleton _ _) (List.forall_mem_singleton.mpr fun _ => half)
  have whole : (RawJson.Document.ofBytes document).body.Numbers JsonNumber.Whole := by
    have spelled : RawJson.Document.ofBytes document =
        ⟨.ofJson (Module.staking.codec.encode Staking.foreignSection), true⟩ :=
      RawJson.ofBytes_encode (fits (Nat.le_refl 6)).tidy
    rw [spelled]
    exact RawJson.numbers_ofJson (fits (Nat.le_refl 6)).tidy
  exact ⟨bytes, again, written, read, found, (sound document _ decoded).2.2 whole⟩

end Devnet
