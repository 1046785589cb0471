import Devnet.Proofs.Coin.Lists
import Mathlib

namespace Devnet.Coins

theorem amountOf_eq_held {coins : Coins} (sound : Sound coins.entries) (denom : String) :
    coins.amountOf denom = held denom coins.entries := by
  obtain ⟨entries⟩ := coins
  unfold amountOf
  induction entries with
  | nil => rfl
  | cons coin entries ih =>
      obtain ⟨-, above, rest⟩ := sound_cons.mp sound
      rw [List.find?_cons, held_cons]
      by_cases same : coin.denom = denom
      · rw [if_pos same, ← same, held_eq_zero above, Int.add_zero]
        simp
      · rw [if_neg same, Int.zero_add, beq_false_of_ne same]
        exact ih rest

theorem amountOf_add {a b : Coins} (left : Sound a.entries) (right : Sound b.entries)
    (denom : String) : (a.add b).amountOf denom = a.amountOf denom + b.amountOf denom := by
  have sound : Sound (a.add b).entries := sound_merge left right
  rw [amountOf_eq_held sound, amountOf_eq_held left, amountOf_eq_held right, add, held_merge]

theorem eq_iff_amountOf {a b : Coins} (left : Sound a.entries) (right : Sound b.entries) :
    a = b ↔ ∀ denom, a.amountOf denom = b.amountOf denom := by
  constructor
  · rintro rfl denom
    rfl
  · intro same
    have entries : a.entries = b.entries := by
      apply eq_of_held_eq left right
      intro denom
      rw [← amountOf_eq_held left, ← amountOf_eq_held right, same]
    exact congrArg Coins.mk entries

theorem validate_add {a b : Coins} (left : a.validate = .ok ()) (right : b.validate = .ok ()) :
    (a.add b).validate = .ok () := by
  obtain ⟨soundLeft, denoms⟩ := validate_eq_ok_iff_sound.mp left
  obtain ⟨soundRight, denoms'⟩ := validate_eq_ok_iff_sound.mp right
  refine validate_eq_ok_iff_sound.mpr ⟨sound_merge soundLeft soundRight, ?_⟩
  intro coin member
  rcases denom_mem_of_merge a.entries b.entries coin member with inside | inside <;>
    rcases List.mem_map.mp inside with ⟨source, present, same⟩ <;> rw [← same]
  · exact denoms source present
  · exact denoms' source present

theorem validate_foldl_add {start : Coins} {sets : List Coins} (first : start.validate = .ok ())
    (each : ∀ coins ∈ sets, coins.validate = .ok ()) : (sets.foldl add start).validate = .ok () := by
  induction sets generalizing start with
  | nil => exact first
  | cons coins sets ih =>
      obtain ⟨next, others⟩ := List.forall_mem_cons.mp each
      exact ih (validate_add first next) others

theorem amountOf_foldl_add {start : Coins} {sets : List Coins} (first : start.validate = .ok ())
    (each : ∀ coins ∈ sets, coins.validate = .ok ()) (denom : String) :
    (sets.foldl add start).amountOf denom =
      start.amountOf denom + (sets.map fun coins => coins.amountOf denom).sum := by
  induction sets generalizing start with
  | nil => exact (Int.add_zero _).symm
  | cons coins sets ih =>
      obtain ⟨next, others⟩ := List.forall_mem_cons.mp each
      have both : (start.add coins).amountOf denom = start.amountOf denom + coins.amountOf denom :=
        amountOf_add (sound_of_validate first) (sound_of_validate next) denom
      calc
        (sets.foldl add (start.add coins)).amountOf denom =
            (start.add coins).amountOf denom + (sets.map fun coins => coins.amountOf denom).sum :=
          ih (validate_add first next) others
        _ = start.amountOf denom +
            ((coins :: sets).map fun coins => coins.amountOf denom).sum := by
          rw [both, List.map_cons, List.sum_cons, Int.add_assoc]

section Total

variable {sets : List Coins} (each : ∀ coins ∈ sets, coins.validate = .ok ())

include each

theorem validate_total : (total sets).validate = .ok () := validate_foldl_add rfl each

theorem amountOf_total (denom : String) :
    (total sets).amountOf denom = (sets.map fun coins => coins.amountOf denom).sum := by
  rw [total, amountOf_foldl_add rfl each]
  exact Int.zero_add _

theorem eq_total_iff {set : Coins} :
    set = total sets ↔ set.validate = .ok () ∧
      ∀ denom, set.amountOf denom = (sets.map fun coins => coins.amountOf denom).sum := by
  constructor
  · rintro rfl
    exact ⟨validate_total each, amountOf_total each⟩
  · intro given
    rcases given with ⟨valid, amounts⟩
    apply (eq_iff_amountOf (sound_of_validate valid) (sound_of_validate (validate_total each))).mpr
    intro denom
    rw [amounts, amountOf_total each]

end Total

/-- Sets that are put together: from nothing, from lists that are taken, from single valid coins, and
from other such sets by adding them. -/
inductive Composed : Coins → Prop
  | empty : Composed .empty
  | ofList {coins : List Coin} {set : Coins} (taken : Coins.ofList coins = .ok set) : Composed set
  | single {coin : Coin} (valid : coin.validate = .ok ()) : Composed (.single coin)
  | add {a b : Coins} (left : Composed a) (right : Composed b) : Composed (a.add b)

theorem Composed.validate {coins : Coins} (composed : Composed coins) : coins.validate = .ok () := by
  induction composed with
  | empty => rfl
  | ofList taken => exact (ofList_eq_ok.mp taken).1
  | single valid => exact validate_single valid
  | add _ _ left right => exact validate_add left right

theorem Composed.sound {coins : Coins} (composed : Composed coins) : Sound coins.entries :=
  (validate_eq_ok_iff_sound.mp composed.validate).1

/-- Sets that are put together are valid, and adding them is adding their amounts, which tell them
apart. So the order and the grouping in which they are added do not matter, and the empty set adds
nothing. -/
theorem composed_laws {a b c : Coins} (left : Composed a) (right : Composed b) (last : Composed c) :
    (a.validate = .ok () ∧ (a.entries.Pairwise fun x y => x.denom < y.denom) ∧
      ∀ coin ∈ a.entries, Denom.isValid coin.denom = true ∧ 0 < coin.amount) ∧
    (∀ denom, (a.add b).amountOf denom = a.amountOf denom + b.amountOf denom) ∧
    (a = b ↔ ∀ denom, a.amountOf denom = b.amountOf denom) ∧
    a.add b = b.add a ∧ (a.add b).add c = a.add (b.add c) ∧ a.add empty = a ∧ empty.add a = a := by
  have amounts {x y : Coins} (first : Composed x) (second : Composed y) (denom : String) :
      (x.add y).amountOf denom = x.amountOf denom + y.amountOf denom :=
    amountOf_add first.sound second.sound denom
  have same {x y : Coins} (first : Composed x) (second : Composed y)
      (equal : ∀ denom, x.amountOf denom = y.amountOf denom) : x = y :=
    (eq_iff_amountOf first.sound second.sound).mpr equal
  have nothing : ∀ denom, empty.amountOf denom = 0 := fun denom => rfl
  refine ⟨⟨left.validate, left.sound.ascending, (validate_eq_ok.mp left.validate).1⟩,
    amounts left right, eq_iff_amountOf left.sound right.sound, ?_, ?_, ?_, ?_⟩
  · apply same (left.add right) (right.add left)
    intro denom
    rw [amounts left right, amounts right left, Int.add_comm]
  · apply same ((left.add right).add last) (left.add (right.add last))
    intro denom
    rw [amounts (left.add right) last, amounts left right, amounts left (right.add last),
      amounts right last, Int.add_assoc]
  · apply same (left.add .empty) left
    intro denom
    rw [amounts left .empty, nothing, Int.add_zero]
  · apply same (Composed.empty.add left) left
    intro denom
    rw [amounts .empty left, nothing, Int.zero_add]

theorem composed_laws_threeDenoms : ∃ a b,
    ofList [⟨"stake", 1⟩, ⟨"atom", 0⟩, ⟨"aevmos", 10⟩] = .ok a ∧
    ofList [⟨"atom", 3⟩, ⟨"aevmos", 5⟩] = .ok b ∧
    (a.add b).entries = [⟨"aevmos", 15⟩, ⟨"atom", 3⟩, ⟨"stake", 1⟩] ∧
    a.add b = b.add a ∧ (a.add b).add (single ⟨"atom", 7⟩) = a.add (b.add (single ⟨"atom", 7⟩)) := by
  have first : ofList [⟨"stake", 1⟩, ⟨"atom", 0⟩, ⟨"aevmos", 10⟩] =
      .ok ⟨[⟨"aevmos", 10⟩, ⟨"stake", 1⟩]⟩ := ofList_eq_ok.mpr (by decide)
  have second : ofList [⟨"atom", 3⟩, ⟨"aevmos", 5⟩] = .ok ⟨[⟨"aevmos", 5⟩, ⟨"atom", 3⟩]⟩ :=
    ofList_eq_ok.mpr (by decide)
  obtain ⟨-, -, -, comm, assoc, -⟩ := composed_laws (.ofList first) (.ofList second)
    (.single (show (⟨"atom", 7⟩ : Coin).validate = .ok () by decide))
  exact ⟨_, _, first, second, by decide, comm, assoc⟩

end Devnet.Coins
