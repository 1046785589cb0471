import Devnet.Consensus.ValidatorSet
import Mathlib

/-! Voting powers are numbers of 64 bits, and a set adds them up from the greatest to the least. The
sums rise up to that of the positive powers and fall from there to the total, so these two decide
whether a sum leaves the range, in whatever order the validators were given. -/

namespace Devnet

namespace Integer

theorem fitsInt64_iff {n : Int} :
    fitsInt64 n = true ↔ Word.leastInt64 ≤ n ∧ n ≤ Word.greatestInt64 := by
  simp [fitsInt64]

theorem toInt_ofInt {n : Int} (fits : fitsInt64 n = true) : (Int64.ofInt n).toInt = n := by
  rw [fitsInt64_iff, Word.leastInt64, Word.greatestInt64] at fits
  exact Int64.toInt_ofInt_of_le (by omega) (by omega)

theorem fitsInt64_toInt (n : Int64) : fitsInt64 n.toInt = true := by
  have low := n.le_toInt
  have high := n.toInt_lt
  rw [fitsInt64_iff, Word.leastInt64, Word.greatestInt64]
  omega

theorem toInt64?_eq_some {n : Int} {m : Int64} : toInt64? n = some m ↔ m.toInt = n := by
  unfold toInt64?
  constructor
  · intro found
    split at found
    · rename_i fits
      rw [← Option.some.inj found]
      exact toInt_ofInt fits
    · cases found
  · rintro rfl
    rw [if_pos (fitsInt64_toInt m), Int64.ofInt_toInt]

end Integer

namespace ValidatorSet

open Word

/-! ### Sums one after the other -/

theorem sumFrom?_append (sum : Int) (front back : List Int) :
    sumFrom? sum (front ++ back) = (sumFrom? sum front).bind fun reached => sumFrom? reached back := by
  induction front generalizing sum with
  | nil => rfl
  | cons n front ih =>
      simp only [List.cons_append, sumFrom?]
      split
      · exact ih (sum + n)
      · rfl

theorem sum_nonpos {powers : List Int} (nonpos : ∀ n ∈ powers, n ≤ 0) : powers.sum ≤ 0 := by
  simpa using List.sum_le_card_nsmul powers 0 nonpos

theorem sumFrom?_of_sameSign {sum : Int} {powers : List Int} (start : Integer.fitsInt64 sum = true)
    (sameSign : (∀ n ∈ powers, 0 ≤ n) ∨ ∀ n ∈ powers, n ≤ 0) :
    sumFrom? sum powers =
      if Integer.fitsInt64 (sum + powers.sum) then some (sum + powers.sum) else none := by
  induction powers generalizing sum with
  | nil => simp [sumFrom?, start]
  | cons n powers ih =>
      have assoc : sum + (n :: powers).sum = sum + n + powers.sum := by
        rw [List.sum_cons, add_assoc]
      have others := sameSign.imp List.forall_mem_of_forall_mem_cons List.forall_mem_of_forall_mem_cons
      rw [assoc, sumFrom?]
      by_cases fits : Integer.fitsInt64 (sum + n) = true
      · rw [if_pos fits, ih fits others]
      · -- what is beyond the range does not come back
        have away : 0 ≤ n ∧ 0 ≤ powers.sum ∨ n ≤ 0 ∧ powers.sum ≤ 0 :=
          (sameSign.imp List.forall_mem_cons.mp List.forall_mem_cons.mp).imp
            (And.imp_right List.sum_nonneg) (And.imp_right sum_nonpos)
        have beyond : ¬Integer.fitsInt64 (sum + n + powers.sum) = true := by
          rw [Integer.fitsInt64_iff] at start fits ⊢
          omega
        rw [if_neg fits, if_neg beyond]

theorem filter_append_filter_of_descending {powers : List Int}
    (descending : powers.Pairwise (· ≥ ·)) :
    powers.filter (0 < ·) ++ powers.filter (· ≤ 0) = powers := by
  induction powers with
  | nil => rfl
  | cons n powers ih =>
      obtain ⟨first, others⟩ := List.pairwise_cons.mp descending
      by_cases positive : 0 < n
      · simp [positive, ih others]
      · have below : ∀ m ∈ powers, m ≤ 0 := fun m member => by
          have := first m member
          omega
        have none : powers.filter (0 < ·) = [] := by simpa using below
        have all : (n :: powers).filter (· ≤ 0) = n :: powers := by
          simpa using And.intro (Int.not_lt.mp positive) below
        rw [List.filter_cons_of_neg (by simpa using positive), none, all, List.nil_append]

/-- The greatest sum is that of the positive numbers, and the least is the total. -/
theorem sumFrom?_of_descending {powers : List Int} (descending : powers.Pairwise (· ≥ ·)) :
    sumFrom? 0 powers =
      if greatestInt64 < (powers.filter (0 < ·)).sum ∨ powers.sum < leastInt64 then none
      else some powers.sum := by
  have parts := filter_append_filter_of_descending descending
  have total : (powers.filter (0 < ·)).sum + (powers.filter (· ≤ 0)).sum = powers.sum := by
    rw [← List.sum_append, parts]
  have positive : ∀ n ∈ powers.filter (0 < ·), 0 ≤ n := fun n member =>
    Int.le_of_lt (of_decide_eq_true (List.mem_filter.mp member).2)
  have negative : ∀ n ∈ powers.filter (· ≤ 0), n ≤ 0 := fun n member =>
    of_decide_eq_true (List.mem_filter.mp member).2
  have start : Integer.fitsInt64 0 = true := by decide
  have up : 0 ≤ (powers.filter (0 < ·)).sum := List.sum_nonneg positive
  have down : (powers.filter (· ≤ 0)).sum ≤ 0 := sum_nonpos negative
  have least : leastInt64 ≤ 0 := by decide
  have rising := sumFrom?_of_sameSign start (Or.inl positive)
  rw [zero_add] at rising
  rw [← parts, sumFrom?_append, rising, parts]
  by_cases fits : Integer.fitsInt64 (powers.filter (0 < ·)).sum = true
  · rw [if_pos fits, Option.bind_some, sumFrom?_of_sameSign fits (Or.inr negative), total]
    have low : Integer.fitsInt64 powers.sum = true ↔
        ¬(greatestInt64 < (powers.filter (0 < ·)).sum ∨ powers.sum < leastInt64) := by
      rw [Integer.fitsInt64_iff] at fits ⊢
      omega
    rw [if_congr low rfl rfl, ite_not]
  · rw [if_neg fits, Option.bind_none, if_pos]
    rw [Integer.fitsInt64_iff] at fits
    omega

/-! ### The order of a set -/

theorem precedes_iff {a b : Validator} :
    a.precedes b = true ↔ b.votingPower.toInt < a.votingPower.toInt ∨
      a.votingPower.toInt = b.votingPower.toInt ∧ a.address.bytes ≤ b.address.bytes := by
  simp [Validator.precedes, Int64.lt_iff_toInt_lt, Int64.toInt_inj, List.not_lt]

theorem precedes_trans (a b c : Validator) (first : a.precedes b = true)
    (second : b.precedes c = true) : a.precedes c = true := by
  rw [precedes_iff] at first second ⊢
  rcases first with less | ⟨same, least⟩
  · left
    omega
  · rcases second with less | ⟨same', least'⟩
    · left
      omega
    · exact Or.inr ⟨same.trans same', List.le_trans least least'⟩

theorem precedes_total (a b : Validator) : (a.precedes b || b.precedes a) = true := by
  rw [Bool.or_eq_true, precedes_iff, precedes_iff]
  have powers := Int.lt_trichotomy a.votingPower.toInt b.votingPower.toInt
  have addresses := List.le_total a.address.bytes b.address.bytes
  grind

def powers (validators : List Validator) : List Int := validators.map fun v => v.votingPower.toInt

theorem descending_powers (validators : List Validator) :
    (powers (validators.mergeSort Validator.precedes)).Pairwise (· ≥ ·) := by
  have sorted := List.pairwise_mergeSort precedes_trans precedes_total validators
  refine List.Pairwise.map _ (fun a b order => ?_) sorted
  rcases precedes_iff.mp order with less | ⟨same, -⟩
  · exact Int.le_of_lt less
  · exact Int.le_of_eq same.symm

def total (validators : List Validator) : Int := (powers validators).sum

def positiveTotal (validators : List Validator) : Int := ((powers validators).filter (0 < ·)).sum

def Overflows (validators : List Validator) : Prop :=
  greatestInt64 < positiveTotal validators ∨ total validators < leastInt64

instance (validators : List Validator) : Decidable (Overflows validators) :=
  inferInstanceAs (Decidable (_ ∨ _))

variable {validators others : List Validator}

theorem total_perm (perm : validators.Perm others) : total validators = total others :=
  (perm.map _).sum_eq

theorem positiveTotal_perm (perm : validators.Perm others) :
    positiveTotal validators = positiveTotal others :=
  ((perm.map _).filter _).sum_eq

theorem overflows_perm (perm : validators.Perm others) : Overflows validators ↔ Overflows others := by
  rw [Overflows, Overflows, total_perm perm, positiveTotal_perm perm]

theorem total_le_positiveTotal (validators : List Validator) :
    total validators ≤ positiveTotal validators := by
  unfold total positiveTotal
  generalize powers validators = numbers
  induction numbers with
  | nil => exact Int.le_refl 0
  | cons n numbers ih =>
      by_cases positive : 0 < n
      · simpa [positive] using ih
      · simp [positive]
        omega

theorem ofList?_eq (validators : List Validator) :
    ofList? validators = if Overflows validators then none
      else some ⟨validators.mergeSort Validator.precedes, Int64.ofInt (total validators)⟩ := by
  have perm := List.mergeSort_perm validators Validator.precedes
  have added := sumFrom?_of_descending (descending_powers validators)
  change _ = if Overflows (validators.mergeSort Validator.precedes) then none
    else some (total (validators.mergeSort Validator.precedes)) at added
  rw [total_perm perm, if_congr (overflows_perm perm) rfl rfl] at added
  unfold ofList?
  change Option.map _ (sumFrom? 0 (powers (validators.mergeSort Validator.precedes))) = _
  rw [added]
  by_cases overflow : Overflows validators
  · rw [if_pos overflow, if_pos overflow, Option.map_none]
  · rw [if_neg overflow, if_neg overflow, Option.map_some]

theorem ofList?_eq_none_iff : ofList? validators = none ↔ Overflows validators := by
  rw [ofList?_eq]
  split <;> simp [*]

theorem totalPower_of_ofList? {set : ValidatorSet} (made : ofList? validators = some set) :
    set.totalPower.toInt = total validators := by
  rw [ofList?_eq] at made
  split at made
  · cases made
  · rename_i fine
    obtain ⟨high, low⟩ := not_or.mp fine
    have most := total_le_positiveTotal validators
    have fits : Integer.fitsInt64 (total validators) = true :=
      Integer.fitsInt64_iff.mpr ⟨by omega, by omega⟩
    rw [← Option.some.inj made]
    exact Integer.toInt_ofInt fits

def powered (powers : List Int64) : List Validator := powers.map (.ofKey ⟨.ed25519, []⟩)

/-- The first two powers are too much together, and the third takes the total back. -/
def steepValidators : List Validator := powered [9223372036854775807, 1, -1]

/-- A set cannot be made exactly if its positive powers come to too much or all its powers to too
little; else it holds the exact total. Neither depends on the order of the validators, and a total that
fits is not enough. -/
theorem ofList?_totalPower :
    (∀ validators, ofList? validators = none ↔
      greatestInt64 < positiveTotal validators ∨ total validators < leastInt64) ∧
    (∀ validators set, ofList? validators = some set → set.totalPower.toInt = total validators) ∧
    (∀ validators others, validators.Perm others →
      (ofList? validators = none ↔ ofList? others = none)) ∧
    ∃ validators, Integer.fitsInt64 (total validators) = true ∧ ofList? validators = none := by
  refine ⟨fun validators => ofList?_eq_none_iff, fun validators set => totalPower_of_ofList?,
    fun validators others perm => ?_, steepValidators, by decide, ?_⟩
  · rw [ofList?_eq_none_iff, ofList?_eq_none_iff, overflows_perm perm]
  · exact ofList?_eq_none_iff.mpr (by decide)

theorem ofList?_totalPower_steepValidators :
    steepValidators.Perm (powered [1, -1, 9223372036854775807]) ∧
      ofList? (powered [1, -1, 9223372036854775807]) = none ∧
      ∃ set, ofList? (powered [-9223372036854775808, 5, -5]) = some set ∧
        set.totalPower.toInt = -9223372036854775808 := by
  obtain ⟨overflow, sums, order, -⟩ := ofList?_totalPower
  have turned : steepValidators.Perm (powered [1, -1, 9223372036854775807]) :=
    List.Perm.map _ (by decide)
  have refused : ofList? steepValidators = none := (overflow _).mpr (by decide)
  have made := ofList?_eq (powered [-9223372036854775808, 5, -5])
  rw [if_neg (by decide)] at made
  exact ⟨turned, (order _ _ turned).mp refused, _, made, (sums _ _ made).trans (by decide)⟩

end ValidatorSet
end Devnet
