import Devnet.Table
import Mathlib

/-! Tables whose keys ascend. Inserting keeps them so, and such a table is the only one with its
entries: whatever order the entries come in, `ofEntries` gives the same table. -/

namespace Devnet.Table

variable {κ α : Type} [LT κ]

def Ascending (table : Table κ α) : Prop := table.Pairwise fun a b => a.1 < b.1

theorem ascending_nil : Ascending ([] : Table κ α) := List.Pairwise.nil

theorem ascending_cons (entry : κ × α) (table : Table κ α) :
    Ascending (entry :: table) ↔ (∀ other ∈ table, entry.1 < other.1) ∧ Ascending table :=
  List.pairwise_cons

theorem Ascending.keys_nodup [Std.Irrefl (α := κ) (· < ·)] {table : Table κ α}
    (ascending : Ascending table) : (table.map Prod.fst).Nodup := by
  rw [List.Nodup, List.pairwise_map]
  apply List.Pairwise.imp _ ascending
  intro a b less same
  rw [same] at less
  exact Std.Irrefl.irrefl _ less

theorem Ascending.eq_of_perm [Std.Irrefl (α := κ) (· < ·)] [Trans (α := κ) (· < ·) (· < ·) (· < ·)]
    {left right : Table κ α} (ascending : Ascending left) (ascending' : Ascending right)
    (perm : left.Perm right) : left = right := by
  apply perm.eq_of_pairwise _ ascending ascending'
  intro a b _ _ less greater
  exact absurd (Trans.trans less greater) (Std.Irrefl.irrefl _)

private theorem same_of_not_less [Std.Trichotomous (α := κ) (· < ·)] {a b : κ} (before : ¬a < b)
    (after : ¬b < a) : a = b :=
  Std.Trichotomous.trichotomous a b before after

variable [DecidableLT κ]

theorem mem_insert {key : κ} {value : α} {table : Table κ α} {entry : κ × α}
    (member : entry ∈ insert key value table) : entry = (key, value) ∨ entry ∈ table := by
  induction table with
  | nil => simpa [insert] using member
  | cons head tail ih =>
      obtain ⟨k, v⟩ := head
      unfold insert at member
      split at member
      · exact List.mem_cons.mp member
      · split at member
        · rcases List.mem_cons.mp member with same | later
          · exact Or.inr (by simp [same])
          · rcases ih later with fresh | old
            · exact Or.inl fresh
            · exact Or.inr (List.mem_cons_of_mem _ old)
        · rcases List.mem_cons.mp member with same | later
          · exact Or.inl same
          · exact Or.inr (List.mem_cons_of_mem _ later)

theorem mem_insert_of_mem [Std.Trichotomous (α := κ) (· < ·)] {key : κ} (value : α)
    {table : Table κ α} {entry : κ × α} (member : entry ∈ table) (different : entry.1 ≠ key) :
    entry ∈ insert key value table := by
  induction table with
  | nil => cases member
  | cons head tail ih =>
      obtain ⟨k, v⟩ := head
      unfold insert
      split
      · exact List.mem_cons_of_mem _ member
      · rename_i before
        split
        · rcases List.mem_cons.mp member with rfl | later
          · exact List.mem_cons_self
          · exact List.mem_cons_of_mem _ (ih later)
        · rename_i after
          rcases List.mem_cons.mp member with rfl | later
          · exact absurd (same_of_not_less after before) different
          · exact List.mem_cons_of_mem _ later

theorem mem_keys_insert [Std.Trichotomous (α := κ) (· < ·)] {key other : κ} {value : α}
    {table : Table κ α} :
    other ∈ (insert key value table).map Prod.fst ↔ other = key ∨ other ∈ table.map Prod.fst := by
  induction table with
  | nil => simp [insert]
  | cons head tail ih =>
      obtain ⟨k, v⟩ := head
      unfold insert
      by_cases before : key < k
      · simp [if_pos before]
      · by_cases after : k < key
        · rw [if_neg before, if_pos after]
          simp only [List.map_cons, List.mem_cons, ih]
          exact or_left_comm
        · rw [if_neg before, if_neg after, same_of_not_less after before]
          simp

theorem insert_middle [Std.Asymm (α := κ) (· < ·)] (before : Table κ α) {after : Table κ α} {key : κ}
    {old value : α} (ascending : Ascending (before ++ (key, old) :: after)) :
    insert key value (before ++ (key, old) :: after) = before ++ (key, value) :: after := by
  induction before with
  | nil =>
      have equal : ¬key < key := fun strict => Std.Asymm.asymm _ _ strict strict
      rw [List.nil_append, insert, if_neg equal, if_neg equal]
      rfl
  | cons entry before ih =>
      obtain ⟨less, rest⟩ := (ascending_cons entry _).mp ascending
      have first := less (key, old) (List.mem_append_right _ List.mem_cons_self)
      rw [List.cons_append, insert, if_neg (Std.Asymm.asymm _ _ first), if_pos first, ih rest]
      rfl

theorem mem_ofEntries {entries : List (κ × α)} {entry : κ × α}
    (member : entry ∈ ofEntries entries) :
    entry ∈ entries := by
  have walk : ∀ (entries : List (κ × α)) (table : Table κ α),
      entry ∈ entries.foldl (fun table entry => table.insert entry.1 entry.2) table →
        entry ∈ entries ∨ entry ∈ table := by
    intro entries
    induction entries with
    | nil => exact fun _ member => Or.inr member
    | cons first entries ih =>
        intro table member
        rcases ih _ member with later | inserted
        · exact Or.inl (List.mem_cons_of_mem _ later)
        · rcases mem_insert inserted with same | old
          · exact Or.inl (same ▸ List.mem_cons_self)
          · exact Or.inr old
  rcases walk entries [] member with found | none
  · exact found
  · cases none

theorem get?_insert_self [BEq κ] [LawfulBEq κ] [Std.Irrefl (α := κ) (· < ·)] (key : κ) (value : α)
    (table : Table κ α) : (insert key value table).get? key = some value := by
  induction table with
  | nil => simp [insert, get?]
  | cons head tail ih =>
      obtain ⟨k, v⟩ := head
      simp only [get?] at ih
      unfold insert get?
      split
      · simp [List.lookup]
      · split
        · rename_i after
          have different : key ≠ k := by
            intro same
            rw [same] at after
            exact Std.Irrefl.irrefl _ after
          simp [List.lookup, beq_false_of_ne different, ih]
        · simp [List.lookup]

theorem get?_insert_of_ne [BEq κ] [LawfulBEq κ] [Std.Trichotomous (α := κ) (· < ·)] {key other : κ}
    (value : α) (table : Table κ α) (different : other ≠ key) :
    (insert key value table).get? other = table.get? other := by
  induction table with
  | nil => simp [insert, get?, List.lookup, beq_false_of_ne different]
  | cons head tail ih =>
      obtain ⟨k, v⟩ := head
      simp only [get?] at ih
      unfold insert get?
      split
      · simp [List.lookup, beq_false_of_ne different]
      · split
        · simp only [List.lookup, ih]
        · rename_i before after
          have same := same_of_not_less before after
          subst same
          simp [List.lookup, beq_false_of_ne different]

variable [Std.Trichotomous (α := κ) (· < ·)]

theorem insert_perm {key : κ} {value : α} {table : Table κ α}
    (fresh : key ∉ table.map Prod.fst) : (insert key value table).Perm ((key, value) :: table) := by
  induction table with
  | nil => exact List.Perm.refl _
  | cons head tail ih =>
      obtain ⟨k, v⟩ := head
      simp only [List.map_cons, List.mem_cons, not_or] at fresh
      unfold insert
      split
      · exact List.Perm.refl _
      · split
        · exact ((ih fresh.2).cons _).trans (List.Perm.swap _ _ _)
        · rename_i before after
          exact absurd (same_of_not_less before after) fresh.1

theorem insertAll_perm {entries : List (κ × α)} {table : Table κ α}
    (distinct : ((entries ++ table).map Prod.fst).Nodup) :
    (entries.foldl (fun table entry => table.insert entry.1 entry.2) table).Perm
      (entries ++ table) := by
  induction entries generalizing table with
  | nil => exact List.Perm.refl _
  | cons entry entries ih =>
      simp only [List.cons_append, List.map_cons, List.nodup_cons] at distinct
      have fresh : entry.1 ∉ table.map Prod.fst := by
        intro member
        exact distinct.1 (by simp only [List.map_append, List.mem_append, member, or_true])
      have inserted : (insert entry.1 entry.2 table).Perm ((entry.1, entry.2) :: table) :=
        insert_perm fresh
      have moved : (entries ++ insert entry.1 entry.2 table).Perm (entry :: (entries ++ table)) :=
        (inserted.append_left entries).trans List.perm_middle
      have distinct' : ((entries ++ insert entry.1 entry.2 table).map Prod.fst).Nodup := by
        rw [(moved.map Prod.fst).nodup_iff]
        exact List.nodup_cons.mpr distinct
      exact (ih distinct').trans moved

theorem ofEntries_perm {entries : List (κ × α)} (distinct : (entries.map Prod.fst).Nodup) :
    (ofEntries entries).Perm entries := by
  have inserted : (ofEntries entries).Perm (entries ++ []) :=
    insertAll_perm (by simpa using distinct)
  simpa using inserted

variable [Trans (α := κ) (· < ·) (· < ·) (· < ·)]

theorem ascending_insert (key : κ) (value : α) {table : Table κ α} (ascending : Ascending table) :
    Ascending (insert key value table) := by
  induction table with
  | nil => simp [insert, Ascending]
  | cons head tail ih =>
      obtain ⟨k, v⟩ := head
      obtain ⟨first, rest⟩ := (ascending_cons _ _).mp ascending
      unfold insert
      split
      · rename_i before
        refine (ascending_cons _ _).mpr ⟨?_, ascending⟩
        intro other member
        rcases List.mem_cons.mp member with rfl | later
        · exact before
        · exact Trans.trans before (first other later)
      · split
        · rename_i after
          refine (ascending_cons _ _).mpr ⟨?_, ih rest⟩
          intro other member
          rcases mem_insert member with rfl | later
          · exact after
          · exact first other later
        · rename_i before after
          have same := same_of_not_less before after
          subst same
          exact (ascending_cons _ _).mpr ⟨first, rest⟩

theorem ascending_insertAll (entries : List (κ × α)) {table : Table κ α}
    (ascending : Ascending table) :
    Ascending (entries.foldl (fun table entry => table.insert entry.1 entry.2) table) := by
  induction entries generalizing table with
  | nil => exact ascending
  | cons entry entries ih => exact ih (ascending_insert _ _ ascending)

theorem ascending_ofEntries (entries : List (κ × α)) : Ascending (ofEntries entries) :=
  ascending_insertAll entries ascending_nil

variable [Std.Irrefl (α := κ) (· < ·)]

theorem ofEntries_of_perm {entries : List (κ × α)} {table : Table κ α}
    (perm : entries.Perm table) (ascending : Ascending table) : ofEntries entries = table := by
  have distinct : (entries.map Prod.fst).Nodup := by
    rw [(perm.map Prod.fst).nodup_iff]
    exact ascending.keys_nodup
  exact (ascending_ofEntries entries).eq_of_perm ascending ((ofEntries_perm distinct).trans perm)

theorem ofEntries_of_ascending {table : Table κ α} (ascending : Ascending table) :
    ofEntries table = table := ofEntries_of_perm (List.Perm.refl _) ascending

theorem mem_of_get? {κ α : Type} [BEq κ] [LawfulBEq κ] {key : κ} {value : α} {table : Table κ α}
    (found : table.get? key = some value) : (key, value) ∈ table := by
  obtain ⟨before, after, split, -⟩ := List.lookup_eq_some_iff.mp found
  rw [split]
  exact List.mem_append_right before List.mem_cons_self

theorem get?_eq_none_iff {κ α : Type} [BEq κ] [LawfulBEq κ] {key : κ} {table : Table κ α} :
    table.get? key = none ↔ ∀ entry ∈ table, entry.1 ≠ key := by
  unfold get?
  rw [List.lookup_eq_none_iff]
  refine forall₂_congr fun entry _ => ?_
  rw [bne_iff_ne, ne_comm]

theorem get?_eq_some_iff {κ α : Type} [BEq κ] [LawfulBEq κ] {key : κ} {value : α} {table : Table κ α}
    (distinct : (table.map Prod.fst).Nodup) : table.get? key = some value ↔ (key, value) ∈ table := by
  constructor
  · exact mem_of_get?
  · intro member
    cases found : table.get? key with
    | none => exact absurd rfl (get?_eq_none_iff.mp found (key, value) member)
    | some other =>
        have same := List.inj_on_of_nodup_map distinct (mem_of_get? found) member rfl
        rw [(Prod.mk.inj same).2]

/-- Look-ups say everything about an ascending table. -/
theorem Ascending.eq_of_get? {κ α : Type} [BEq κ] [LawfulBEq κ] [LT κ]
    [Std.Irrefl (α := κ) (· < ·)] [Trans (α := κ) (· < ·) (· < ·) (· < ·)] {left right : Table κ α}
    (ascending : Ascending left) (ascending' : Ascending right)
    (same : ∀ key, left.get? key = right.get? key) : left = right := by
  have distinct := ascending.keys_nodup
  have distinct' := ascending'.keys_nodup
  apply ascending.eq_of_perm ascending'
  rw [List.perm_ext_iff_of_nodup distinct.of_map distinct'.of_map]
  rintro ⟨key, value⟩
  rw [← get?_eq_some_iff distinct, same, get?_eq_some_iff distinct']

theorem mem_insert_of_ne [BEq κ] [LawfulBEq κ] {key : κ} {value : α} {table : Table κ α}
    {entry : κ × α} (ascending : Ascending table) (member : entry ∈ insert key value table)
    (different : entry ≠ (key, value)) : entry ∈ table ∧ entry.1 ≠ key := by
  refine ⟨(mem_insert member).resolve_left different, fun same => different ?_⟩
  have present := mem_of_get? (get?_insert_self key value table)
  exact List.inj_on_of_nodup_map (ascending_insert key value ascending).keys_nodup member present same

end Devnet.Table
