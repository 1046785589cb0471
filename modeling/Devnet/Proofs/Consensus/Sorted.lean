import Devnet.Consensus.Update
import Mathlib

/-! When two lists of updates are the same once they are sorted. Sorting looks at the bytes of the keys
alone, and leaves updates with equal bytes in the order in which they came. -/

namespace Devnet.ValidatorUpdate

def withBytes (bytes : Bytes) (updates : List ValidatorUpdate) : List ValidatorUpdate :=
  updates.filter fun update => update.publicKey.bytes = bytes

def NoDescent (updates : List ValidatorUpdate) : Prop :=
  updates.Pairwise fun a b => a.publicKey.bytes ≤ b.publicKey.bytes

theorem not_lt_iff (a b : ValidatorUpdate) :
    (!decide (b.publicKey.bytes < a.publicKey.bytes)) = true ↔
      a.publicKey.bytes ≤ b.publicKey.bytes := by
  rw [Bool.not_eq_true', decide_eq_false_iff_not]
  exact Iff.rfl

theorem sorted_perm (updates : List ValidatorUpdate) : (sorted updates).Perm updates :=
  List.mergeSort_perm updates _

private theorem trans (a b c : ValidatorUpdate)
    (first : (!decide (b.publicKey.bytes < a.publicKey.bytes)) = true)
    (second : (!decide (c.publicKey.bytes < b.publicKey.bytes)) = true) :
    (!decide (c.publicKey.bytes < a.publicKey.bytes)) = true := by
  rw [not_lt_iff] at first second ⊢
  exact List.le_trans first second

private theorem total (a b : ValidatorUpdate) :
    ((!decide (b.publicKey.bytes < a.publicKey.bytes)) ||
      !decide (a.publicKey.bytes < b.publicKey.bytes)) = true := by
  rw [Bool.or_eq_true, not_lt_iff, not_lt_iff]
  exact List.le_total _ _

theorem noDescent_sorted (updates : List ValidatorUpdate) : NoDescent (sorted updates) :=
  (List.pairwise_mergeSort trans total updates).imp fun order => (not_lt_iff _ _).mp order

/-- Sorting is stable: updates with the same bytes are never swapped. -/
theorem withBytes_sorted (bytes : Bytes) (updates : List ValidatorUpdate) :
    withBytes bytes (sorted updates) = withBytes bytes updates := by
  have level : (withBytes bytes updates).Pairwise fun a b =>
      (!decide (b.publicKey.bytes < a.publicKey.bytes)) = true := by
    apply List.pairwise_of_forall_mem_list
    intro a inside b inside'
    have first := of_decide_eq_true (List.mem_filter.mp inside).2
    have second := of_decide_eq_true (List.mem_filter.mp inside').2
    rw [not_lt_iff, first, second]
    exact List.le_refl bytes
  have kept : (withBytes bytes updates).Sublist (sorted updates) :=
    List.sublist_mergeSort trans total level List.filter_sublist
  have inner : (withBytes bytes updates).Sublist (withBytes bytes (sorted updates)) := by
    have filtered := kept.filter fun update => decide (update.publicKey.bytes = bytes)
    rw [withBytes, List.filter_filter] at filtered
    simpa [withBytes] using filtered
  have length : (withBytes bytes updates).length = (withBytes bytes (sorted updates)).length :=
    ((sorted_perm updates).filter _).length_eq.symm
  exact (inner.eq_of_length length).symm

theorem mem_of_withBytes_eq {update : ValidatorUpdate} {updates others : List ValidatorUpdate}
    (same : ∀ bytes, withBytes bytes updates = withBytes bytes others) (member : update ∈ updates) :
    update ∈ others := by
  have inside : update ∈ withBytes update.publicKey.bytes updates :=
    List.mem_filter.mpr ⟨member, decide_eq_true rfl⟩
  rw [same] at inside
  exact (List.mem_filter.mp inside).1

/-- Lists without descents are put together from their parts with equal bytes in one way only. -/
theorem eq_of_withBytes_eq {left right : List ValidatorUpdate} (order : NoDescent left)
    (order' : NoDescent right) (same : ∀ bytes, withBytes bytes left = withBytes bytes right) :
    left = right := by
  induction left generalizing right with
  | nil =>
      cases right with
      | nil => rfl
      | cons b right => cases mem_of_withBytes_eq (fun bytes => (same bytes).symm) List.mem_cons_self
  | cons a left ih =>
      cases right with
      | nil => cases mem_of_withBytes_eq same List.mem_cons_self
      | cons b right =>
          obtain ⟨first, rest⟩ := List.pairwise_cons.mp order
          obtain ⟨first', rest'⟩ := List.pairwise_cons.mp order'
          -- Each head stands somewhere in the other list, so neither is below the other.
          have least : a.publicKey.bytes ≤ b.publicKey.bytes := by
            have inside := mem_of_withBytes_eq (fun bytes => (same bytes).symm)
              (List.mem_cons_self (a := b) (l := right))
            rcases List.mem_cons.mp inside with rfl | later
            · exact List.le_refl _
            · exact first b later
          have least' : b.publicKey.bytes ≤ a.publicKey.bytes := by
            have inside := mem_of_withBytes_eq same (List.mem_cons_self (a := a) (l := left))
            rcases List.mem_cons.mp inside with rfl | later
            · exact List.le_refl _
            · exact first' a later
          have bytes := List.le_antisymm least least'
          have heads := same a.publicKey.bytes
          rw [withBytes, withBytes, List.filter_cons_of_pos (by simp),
            List.filter_cons_of_pos (by simp [bytes])] at heads
          obtain ⟨rfl, -⟩ := List.cons.inj heads
          congr 1
          apply ih rest rest'
          intro bytes
          have both := same bytes
          by_cases here : a.publicKey.bytes = bytes
          · rw [withBytes, withBytes, List.filter_cons_of_pos (by simpa using here),
              List.filter_cons_of_pos (by simpa using here)] at both
            exact (List.cons.inj both).2
          · rw [withBytes, withBytes, List.filter_cons_of_neg (by simpa using here),
              List.filter_cons_of_neg (by simpa using here)] at both
            exact both

theorem sorted_eq_iff {left right : List ValidatorUpdate} :
    sorted left = sorted right ↔ ∀ bytes, withBytes bytes left = withBytes bytes right := by
  constructor
  · intro same bytes
    rw [← withBytes_sorted bytes left, same, withBytes_sorted]
  · intro same
    apply eq_of_withBytes_eq (noDescent_sorted left) (noDescent_sorted right)
    intro bytes
    rw [withBytes_sorted, withBytes_sorted, same]

theorem sorted_eq_of_perm {left right : List ValidatorUpdate} (perm : left.Perm right)
    (distinct : (right.map fun update => update.publicKey.bytes).Nodup) :
    sorted left = sorted right := by
  apply List.Perm.eq_of_pairwise _ (noDescent_sorted left) (noDescent_sorted right)
    ((sorted_perm left).trans (perm.trans (sorted_perm right).symm))
  intro a b inside inside' least least'
  have present : a ∈ right := perm.mem_iff.mp ((sorted_perm left).mem_iff.mp inside)
  have present' : b ∈ right := (sorted_perm right).mem_iff.mp inside'
  exact List.inj_on_of_nodup_map distinct present present' (List.le_antisymm least least')

end Devnet.ValidatorUpdate
