import Devnet.Proofs.Fault.Outcome
import Devnet.Proofs.Table.Ascending
import Mathlib

namespace Devnet.Table

variable {κ α β : Type} {R : α → β → Prop} {table : Table κ α} {other : Table κ β}

def Matches (R : α → β → Prop) : Table κ α → Table κ β → Prop :=
  List.Forall₂ fun entry entry' => entry'.1 = entry.1 ∧ R entry.2 entry'.2

theorem exists_matches (each : ∀ entry ∈ table, ∃ value, R entry.2 value) :
    ∃ other, Matches R table other := by
  apply exists_forall₂
  intro entry member
  obtain ⟨value, related⟩ := each entry member
  exact ⟨(entry.1, value), rfl, related⟩

theorem Matches.keys (each : Matches R table other) : other.map Prod.fst = table.map Prod.fst := by
  induction each with
  | nil => rfl
  | cons first _ ih => rw [List.map_cons, List.map_cons, first.1, ih]

theorem Matches.ascending [LT κ] (each : Matches R table other) (ascending : table.Ascending) :
    other.Ascending := by
  rw [Ascending, ← List.pairwise_map] at ascending ⊢
  rwa [each.keys]

theorem Matches.get? [BEq κ] (each : Matches R table other) {key : κ} {value : α}
    (found : table.get? key = some value) : ∃ value', other.get? key = some value' ∧ R value value' := by
  induction each with
  | nil => cases found
  | @cons entry entry' table other first _ ih =>
      obtain ⟨name, old⟩ := entry
      obtain ⟨name', new⟩ := entry'
      obtain ⟨rfl, related⟩ := first
      unfold Table.get? at found ih ⊢
      rw [List.lookup_cons] at found ⊢
      cases same : key == name' with
      | true =>
          rw [same] at found
          cases found
          exact ⟨new, rfl, related⟩
      | false =>
          rw [same] at found
          exact ih found

def Keyed (R : κ → α → β → Prop) : Table κ α → Table κ β → Prop :=
  List.Forall₂ fun entry entry' => entry'.1 = entry.1 ∧ R entry.1 entry.2 entry'.2

section Keyed

variable {R : κ → α → β → Prop}

theorem Keyed.symm {S : κ → β → α → Prop} (turn : ∀ key value value', R key value value' →
    S key value' value) (each : Keyed R table other) : Keyed S other table := by
  apply each.flip.imp
  rintro ⟨name, value'⟩ ⟨name', value⟩ ⟨rfl, related⟩
  exact ⟨rfl, turn _ value value' related⟩

theorem Keyed.get? [BEq κ] [LawfulBEq κ] (each : Keyed R table other) (key : κ) :
    (table.get? key = none ∧ other.get? key = none) ∨
      ∃ value value', table.get? key = some value ∧ other.get? key = some value' ∧
        R key value value' := by
  induction each with
  | nil => exact Or.inl ⟨rfl, rfl⟩
  | @cons entry entry' table other first _ ih =>
      obtain ⟨name, value⟩ := entry
      obtain ⟨name', value'⟩ := entry'
      obtain ⟨rfl, related⟩ := first
      unfold Table.get? at ih ⊢
      rw [List.lookup_cons, List.lookup_cons]
      cases same : key == name' with
      | true =>
          obtain rfl := eq_of_beq same
          exact Or.inr ⟨value, value', rfl, rfl, related⟩
      | false => exact ih

theorem Keyed.insert [LT κ] [DecidableLT κ] (each : Keyed R table other) (key : κ) {value : α}
    {value' : β} (related : R key value value') :
    Keyed R (table.insert key value) (other.insert key value') := by
  induction each with
  | nil => exact .cons ⟨rfl, related⟩ .nil
  | @cons entry entry' table other first rest ih =>
      obtain ⟨name, old⟩ := entry
      obtain ⟨name', old'⟩ := entry'
      obtain ⟨rfl, held⟩ := first
      simp only [Table.insert]
      split
      · exact .cons ⟨rfl, related⟩ (.cons ⟨rfl, held⟩ rest)
      · split
        · exact .cons ⟨rfl, held⟩ ih
        · exact .cons ⟨rfl, related⟩ rest

theorem Keyed.insertAll [LT κ] [DecidableLT κ] {entries : List (κ × α)} {entries' : List (κ × β)}
    (more : Keyed R entries entries') (each : Keyed R table other) :
    Keyed R (entries.foldl (fun table entry => table.insert entry.1 entry.2) table)
      (entries'.foldl (fun table entry => table.insert entry.1 entry.2) other) := by
  induction more generalizing table other with
  | nil => exact each
  | @cons entry entry' entries entries' first _ ih =>
      obtain ⟨name, value⟩ := entry
      obtain ⟨name', value'⟩ := entry'
      obtain ⟨rfl, related⟩ := first
      exact ih (each.insert name' related)

theorem Keyed.ofEntries [LT κ] [DecidableLT κ] {entries : List (κ × α)} {entries' : List (κ × β)}
    (each : Keyed R entries entries') : Keyed R (ofEntries entries) (ofEntries entries') :=
  each.insertAll .nil

end Keyed

theorem Matches.insert [LT κ] [DecidableLT κ] (each : Matches R table other) (key : κ) {value : α}
    {value' : β} (related : R value value') :
    Matches R (table.insert key value) (other.insert key value') :=
  Keyed.insert (R := fun _ => R) each key related

theorem Matches.get?_eq_none [BEq κ] [LawfulBEq κ] (each : Matches R table other) {key : κ}
    (absent : table.get? key = none) : other.get? key = none := by
  rcases Keyed.get? (R := fun _ => R) each key with ⟨-, absent'⟩ | ⟨_, _, present, -, -⟩
  · exact absent'
  · rw [absent] at present
    cases present

theorem get?_map [BEq κ] (f : α → β) (table : Table κ α) (key : κ) :
    Table.get? key (table.map fun entry => (entry.1, f entry.2)) = (table.get? key).map f := by
  induction table with
  | nil => rfl
  | cons entry table ih =>
      unfold Table.get? at ih ⊢
      rw [List.map_cons, List.lookup_cons, List.lookup_cons, ih]
      cases key == entry.1 <;> rfl

theorem map_insert [LT κ] [DecidableLT κ] (f : α → β) (key : κ) (value : α) (table : Table κ α) :
    (table.insert key value).map (fun entry => (entry.1, f entry.2)) =
      Table.insert key (f value) (table.map fun entry => (entry.1, f entry.2)) := by
  induction table with
  | nil => rfl
  | cons entry table ih =>
      simp only [Table.insert, List.map_cons]
      split
      · rfl
      · split
        · rw [List.map_cons, ih]
        · rfl

end Devnet.Table
