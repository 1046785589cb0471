import Devnet.Proofs.Address.Texts
import Mathlib

/-! Entries that name their owner by a text, where an owner can be spelled in more than one way. As long
as the texts differ, an owner has at most one entry for each spelling, and a second entry is always
another spelling of an owner that is there. -/

namespace Devnet

theorem filter_key_eq_singleton {α κ : Type} [DecidableEq κ] {key : α → κ} {entries : List α}
    (distinct : (entries.map key).Nodup) {entry : α} (member : entry ∈ entries) :
    entries.filter (fun other => key other == key entry) = [entry] := by
  induction entries with
  | nil => cases member
  | cons first entries ih =>
      obtain ⟨apart, distinctRest⟩ := List.nodup_cons.mp distinct
      rcases List.mem_cons.mp member with rfl | later
      · have none : entries.filter (fun other => key other == key entry) = [] := by
          rw [List.filter_eq_nil_iff]
          intro other inside same
          exact apart (List.mem_map.mpr ⟨other, inside, eq_of_beq same⟩)
        rw [List.filter_cons_of_pos (by simp), none]
      · have other : key first ≠ key entry := fun same =>
          apart (List.mem_map.mpr ⟨entry, later, same.symm⟩)
        rw [List.filter_cons_of_neg (by simpa using other), ih distinctRest later]

variable {α ι σ κ : Type}

/-- Entries with different texts, each of which spells the owner that the entry names. -/
structure Spelled (names : α → ι → Prop) (text : α → κ) (write : σ → ι → κ) (entries : List α) :
    Prop where
  distinct : (entries.map text).Nodup
  named : ∀ entry ∈ entries, ∃ owner, names entry owner
  spelled : ∀ entry ∈ entries, ∀ owner, names entry owner → ∃ spelling, text entry = write spelling owner

namespace Spelled

variable {names : α → ι → Prop} {text : α → κ} {write : σ → ι → κ} {entries : List α}

theorem exists_spelling (each : Spelled names text write entries) {entry : α} (member : entry ∈ entries) :
    ∃ owner spelling, names entry owner ∧ text entry = write spelling owner := by
  obtain ⟨owner, named⟩ := each.named entry member
  obtain ⟨spelling, written⟩ := each.spelled entry member owner named
  exact ⟨owner, spelling, named, written⟩

theorem length_filter_le (each : Spelled names text write entries) (owner : ι)
    [DecidablePred fun entry => names entry owner] {all : List σ} (complete : ∀ s, s ∈ all) :
    (entries.filter fun entry => names entry owner).length ≤ all.length := by
  have distinct : ((entries.filter fun entry => names entry owner).map text).Nodup :=
    each.distinct.sublist (List.filter_sublist.map _)
  have taken : (entries.filter fun entry => names entry owner).map text ⊆
      all.map fun spelling => write spelling owner := by
    intro key member
    rcases List.mem_map.mp member with ⟨entry, inside, rfl⟩
    have chosen := List.mem_filter.mp inside
    obtain ⟨spelling, written⟩ := each.spelled entry chosen.1 owner (of_decide_eq_true chosen.2)
    exact List.mem_map.mpr ⟨spelling, complete spelling, written.symm⟩
  have fewer := (distinct.subperm taken).length_le
  rwa [List.length_map, List.length_map] at fewer

/-- No owner has two entries exactly when none is spelled in two ways. -/
theorem pairwise_iff (each : Spelled names text write entries) (tells : Function.Injective2 write) :
    entries.Pairwise (fun a b => ¬∃ owner, names a owner ∧ names b owner) ↔
      ∀ a ∈ entries, ∀ b ∈ entries, ∀ owner first second,
        text a = write first owner → text b = write second owner → first = second := by
  constructor
  · intro apart a memberA b memberB owner first second writtenA writtenB
    obtain ⟨ownerA, spellingA, namedA, spelledA⟩ := each.exists_spelling memberA
    obtain ⟨ownerB, spellingB, namedB, spelledB⟩ := each.exists_spelling memberB
    obtain ⟨rfl, rfl⟩ := tells (spelledA.symm.trans writtenA)
    obtain ⟨rfl, rfl⟩ := tells (spelledB.symm.trans writtenB)
    by_cases same : a = b
    · subst same
      exact (tells (spelledA.symm.trans spelledB)).1
    · have symmetric : Std.Symm fun a b => ¬∃ owner, names a owner ∧ names b owner :=
        ⟨fun _ _ apart ⟨owner, namedB, namedA⟩ => apart ⟨owner, namedA, namedB⟩⟩
      exact absurd ⟨_, namedA, namedB⟩ (List.Pairwise.forall apart memberA memberB same)
  · intro alike
    refine (List.pairwise_map.mp each.distinct).imp_of_mem ?_
    rintro a b memberA memberB different ⟨owner, namedA, namedB⟩
    obtain ⟨first, writtenA⟩ := each.spelled a memberA owner namedA
    obtain ⟨second, writtenB⟩ := each.spelled b memberB owner namedB
    obtain rfl := alike a memberA b memberB owner first second writtenA writtenB
    exact different (writtenA.trans writtenB.symm)

theorem filter_eq_singleton_iff (each : Spelled names text write entries) {owner : ι} {entry : α}
    [DecidablePred fun entry => names entry owner] (member : entry ∈ entries)
    (named : names entry owner) :
    entries.filter (fun other => names other owner) = [entry] ↔
      ∀ other ∈ entries, names other owner → text other = text entry := by
  classical
  constructor
  · intro single other inside owned
    have found : other ∈ entries.filter fun other => names other owner :=
      List.mem_filter.mpr ⟨inside, decide_eq_true owned⟩
    rw [single] at found
    rw [List.mem_singleton.mp found]
  · intro alike
    rw [← filter_key_eq_singleton each.distinct member]
    refine List.filter_congr fun other inside => ?_
    rw [Bool.eq_iff_iff, decide_eq_true_iff, beq_iff_eq]
    refine ⟨alike other inside, fun same => ?_⟩
    rw [List.inj_on_of_nodup_map each.distinct inside member same]
    exact named

end Spelled

theorem spelled_of_parse {kind : AddressKind} {text : α → String} {entries : List α}
    (distinct : (entries.map text).Nodup)
    (read : ∀ entry ∈ entries, ∃ address, Address.parse kind (text entry) = .ok address) :
    Spelled (fun entry address => Address.parse kind (text entry) = .ok address) text
      Bech32.Spelling.write entries where
  distinct
  named := read
  spelled := fun _ _ _ parsed => (Address.parse_eq_ok_iff.mp parsed).2

end Devnet
