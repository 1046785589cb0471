import Devnet.Network.Founding
import Devnet.Proofs.Address.Texts
import Devnet.Proofs.Coin.Algebra
import Devnet.Proofs.Genesis.Reordered
import Mathlib

namespace Devnet.Bank

section Total

variable {balances : List Balance} (valid : ∀ balance ∈ balances, balance.coins.validate = .ok ())

include valid

/-- The total of valid balances is the one valid set whose amounts are the sums of theirs. -/
theorem eq_totalOf_iff {set : Coins} :
    set = totalOf balances ↔ set.validate = .ok () ∧
      ∀ denom, set.amountOf denom = (balances.map fun balance => balance.coins.amountOf denom).sum := by
  have each : ∀ coins ∈ balances.map Balance.coins, coins.validate = .ok () :=
    List.forall_mem_map.mpr valid
  rw [totalOf, Coins.eq_total_iff each]
  simp only [List.map_map, Function.comp_def]

theorem amountOf_totalOf_withBonded {coin : Coin} (sound : coin.validate = .ok ()) (denom : String) :
    (totalOf (withBonded balances coin)).amountOf denom =
      (totalOf balances).amountOf denom + if coin.denom = denom then coin.amount else 0 := by
  have bonded : ∀ balance ∈ withBonded balances coin, balance.coins.validate = .ok () := by
    intro balance member
    rcases List.mem_append.mp member with inside | added
    · exact valid balance inside
    · obtain rfl := List.mem_singleton.mp added
      exact Coins.validate_single sound
  calc
    (totalOf (withBonded balances coin)).amountOf denom =
        ((withBonded balances coin).map fun balance => balance.coins.amountOf denom).sum :=
      ((eq_totalOf_iff bonded).mp rfl).2 denom
    _ = (balances.map fun balance => balance.coins.amountOf denom).sum +
        (Coins.single coin).amountOf denom := by
      simp [withBonded, Balance.make]
    _ = (totalOf balances).amountOf denom + if coin.denom = denom then coin.amount else 0 := by
      rw [((eq_totalOf_iff valid).mp rfl).2 denom, Coins.amountOf_single_eq]

/-- Valid balances have a valid total, with the sums of their amounts. It is the same in any order, it
is the total that a section with these balances is checked against, and a valid coin for the bonded
pool adds exactly its amount to it. -/
theorem totalOf_laws :
    (totalOf balances).validate = .ok () ∧
    (∀ denom, (totalOf balances).amountOf denom =
      (balances.map fun balance => balance.coins.amountOf denom).sum) ∧
    (∀ others, others.Perm balances → totalOf others = totalOf balances) ∧
    (∀ s : Section, s.balances = balances → s.balancesTotal = totalOf balances ∧
      ({ s with supply := totalOf balances } : Section).checkSupply = .ok ()) ∧
    ∀ coin, coin.validate = .ok () → ∀ denom,
      (totalOf (withBonded balances coin)).amountOf denom =
        (totalOf balances).amountOf denom + if coin.denom = denom then coin.amount else 0 := by
  obtain ⟨sound, amounts⟩ := (eq_totalOf_iff valid).mp rfl
  refine ⟨sound, amounts, fun others perm => totalOf_perm valid perm, ?_,
    fun coin => amountOf_totalOf_withBonded valid⟩
  rintro s rfl
  exact ⟨rfl, Section.checkSupply_eq_ok.mpr (Or.inr rfl)⟩

end Total

def mixedBalances : List Balance :=
  [.make ⟨List.replicate 20 1⟩ ⟨[⟨"aevmos", 10⟩, ⟨"stake", 2⟩]⟩,
    .make ⟨List.replicate 20 2⟩ ⟨[⟨"aevmos", 5⟩, ⟨"atom", 3⟩]⟩]

theorem coins_mixedBalances : ∀ balance ∈ mixedBalances, balance.coins.validate = .ok () := by decide

theorem totalOf_mixedBalances :
    totalOf mixedBalances = ⟨[⟨"aevmos", 15⟩, ⟨"atom", 3⟩, ⟨"stake", 2⟩]⟩ := by decide

theorem totalOf_laws_mixedBalances :
    (∀ balance ∈ mixedBalances, balance.coins.validate = .ok ()) ∧
    totalOf mixedBalances.reverse = ⟨[⟨"aevmos", 15⟩, ⟨"atom", 3⟩, ⟨"stake", 2⟩]⟩ ∧
    (⟨"photon", 7⟩ : Coin).validate = .ok () ∧
    (totalOf (withBonded mixedBalances ⟨"photon", 7⟩)).amountOf "photon" = 7 ∧
    (totalOf (withBonded mixedBalances ⟨"photon", 7⟩)).amountOf "atom" = 3 := by
  obtain ⟨-, -, reordered, -, bonded⟩ := totalOf_laws coins_mixedBalances
  have sound : (⟨"photon", 7⟩ : Coin).validate = .ok () := by decide
  refine ⟨coins_mixedBalances, ?_, sound, ?_, ?_⟩
  · rw [reordered _ mixedBalances.reverse_perm, totalOf_mixedBalances]
  · rw [bonded _ sound, totalOf_mixedBalances]
    decide
  · rw [bonded _ sound, totalOf_mixedBalances]
    decide

namespace Section

variable {s : Section}

theorem Valid.withSupply_iff (valid : s.Valid) {supply : Coins} :
    ({ s with supply } : Section).Valid ↔ supply.isEmpty = true ∨ supply = totalOf s.balances := by
  constructor
  · exact fun changed => changed.supply
  · intro given
    exact { valid with supply := given }

/-- In an accepted section a supply that is not empty can be put in exactly when it is a valid set with
the sums of the amounts of all balances. -/
theorem validate_withSupply_iff (accepted : s.validate = .ok ()) {supply : Coins}
    (given : supply.isEmpty = false) :
    ({ s with supply } : Section).validate = .ok () ↔
      supply.validate = .ok () ∧ ∀ denom, supply.amountOf denom =
        (s.balances.map fun balance => balance.coins.amountOf denom).sum := by
  have valid := validate_eq_ok.mp accepted
  rw [validate_eq_ok, valid.withSupply_iff, given, eq_totalOf_iff valid.coins]
  simp

def mixedSection (supply : Coins) : Section := { standard with balances := mixedBalances, supply }

theorem validate_mixedSection : (mixedSection .empty).validate = .ok () := by
  have reads : ∀ account : AccountAddress, account.Sized →
      ∃ found, Address.parse .account account.render = .ok found :=
    fun account sized => ⟨account, Address.parse_render_eq_ok.mpr ⟨sized, rfl⟩⟩
  have different : (⟨List.replicate 20 1⟩ : AccountAddress).render ≠
      (⟨List.replicate 20 2⟩ : AccountAddress).render :=
    fun same => absurd (Address.render_injective same) (by decide)
  exact validate_eq_ok.mpr
    { sendEnabled := List.forall_mem_nil _
      accounts := List.forall_mem_cons.mpr
        ⟨reads _ (by decide), List.forall_mem_singleton.mpr (reads _ (by decide))⟩
      coins := coins_mixedBalances
      addresses := List.pairwise_pair.mpr different
      metadata := List.forall_mem_nil _
      bases := List.nodup_nil
      supply := Or.inl rfl }

theorem validate_withSupply_mixedSection :
    (mixedSection .empty).validate = .ok () ∧
    (mixedSection ⟨[⟨"aevmos", 15⟩, ⟨"atom", 3⟩, ⟨"stake", 2⟩]⟩).validate = .ok () ∧
    (mixedSection ⟨[⟨"stake", 2⟩, ⟨"atom", 3⟩, ⟨"aevmos", 15⟩]⟩).validate ≠ .ok () ∧
    (mixedSection ⟨[⟨"aevmos", 15⟩, ⟨"atom", 2⟩, ⟨"stake", 3⟩]⟩).validate ≠ .ok () := by
  refine ⟨validate_mixedSection, ?_, fun taken => ?_, fun taken => ?_⟩
  · apply (validate_withSupply_iff validate_mixedSection (by decide)).mpr
    exact (eq_totalOf_iff coins_mixedBalances).mp totalOf_mixedBalances.symm
  · have sound := ((validate_withSupply_iff validate_mixedSection (by decide)).mp taken).1
    exact absurd sound (by decide)
  · have amounts := ((validate_withSupply_iff validate_mixedSection (by decide)).mp taken).2 "atom"
    exact absurd amounts (by decide)

end Section
end Devnet.Bank
