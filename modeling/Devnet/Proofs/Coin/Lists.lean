import Devnet.Proofs.Coin.Totals
import Mathlib

namespace Devnet.Coins

theorem firstRepeat?_eq_none_iff {coins : List Coin}
    (sorted : coins.Pairwise fun a b => a.denom ≤ b.denom) :
    firstRepeat? coins = none ↔ coins.Pairwise fun a b => a.denom < b.denom := by
  induction coins with
  | nil => simp [firstRepeat?]
  | cons a coins ih =>
      obtain ⟨above, rest⟩ := List.pairwise_cons.mp sorted
      cases coins with
      | nil => simp [firstRepeat?]
      | cons b coins =>
          have step := ih rest
          rw [firstRepeat?, List.pairwise_cons]
          constructor
          · intro none
            split at none
            · cases none
            · rename_i different
              have ascending := step.mp none
              have first : a.denom < b.denom := lt_of_le_of_ne (above b List.mem_cons_self) different
              refine ⟨List.forall_mem_cons.mpr ⟨first, fun c member => ?_⟩, ascending⟩
              exact lt_trans first ((List.pairwise_cons.mp ascending).1 c member)
          · intro given
            rcases given with ⟨less, ascending⟩
            rw [if_neg (ne_of_lt (less b List.mem_cons_self))]
            exact step.mpr ascending

def nonzero (coins : List Coin) : List Coin := coins.filter fun coin => !coin.isZero

theorem mem_nonzero {coins : List Coin} {coin : Coin} :
    coin ∈ nonzero coins ↔ coin ∈ coins ∧ coin.amount ≠ 0 := by
  simp [nonzero, ← Coin.isZero_iff]

private def noLater (a b : Coin) : Bool := !decide (b.denom < a.denom)

private theorem noLater_iff (a b : Coin) : noLater a b = true ↔ a.denom ≤ b.denom := by
  rw [noLater, Bool.not_eq_true', decide_eq_false_iff_not]
  exact not_lt

private def arranged (coins : List Coin) : List Coin := (nonzero coins).mergeSort noLater

private theorem arranged_perm (coins : List Coin) : (arranged coins).Perm (nonzero coins) :=
  List.mergeSort_perm _ noLater

private theorem sorted_arranged (coins : List Coin) :
    (arranged coins).Pairwise fun a b => a.denom ≤ b.denom := by
  have trans : ∀ a b c : Coin, noLater a b = true → noLater b c = true → noLater a c = true := by
    intro a b c first second
    rw [noLater_iff] at first second ⊢
    exact le_trans first second
  have total : ∀ a b : Coin, (noLater a b || noLater b a) = true := by
    intro a b
    rw [Bool.or_eq_true, noLater_iff, noLater_iff]
    exact le_total _ _
  exact (List.pairwise_mergeSort trans total _).imp fun order => (noLater_iff _ _).mp order

private theorem ofList_eq (coins : List Coin) :
    ofList coins = ((arranged coins).forM Coin.validate >>= fun _ =>
      match firstRepeat? (arranged coins) with
      | some denom => throw (.duplicateDenom denom)
      | none => return ⟨arranged coins⟩) := rfl

theorem Sound.eq_of_perm {entries sorted : List Coin} (sound : Sound entries)
    (perm : sorted.Perm entries) (order : sorted.Pairwise fun a b => a.denom ≤ b.denom) :
    sorted = entries := by
  apply perm.eq_of_pairwise _ order (sound.ascending.imp le_of_lt)
  intro a b member member' first second
  have same := le_antisymm first second
  exact List.inj_on_of_nodup_map sound.nodup_denoms (perm.mem_iff.mp member) member' same

theorem ofList_eq_ok {coins : List Coin} {set : Coins} :
    ofList coins = .ok set ↔ set.validate = .ok () ∧ set.entries.Perm (nonzero coins) := by
  have perm := arranged_perm coins
  have order := sorted_arranged coins
  rw [ofList_eq]
  generalize arranged coins = sorted at perm order ⊢
  simp only [bind_eq_ok, forM_eq_ok, validate_eq_ok_iff_sound]
  constructor
  · intro given
    rcases given with ⟨-, each, taken⟩
    have valid : ∀ coin ∈ sorted, Denom.isValid coin.denom = true ∧ 0 ≤ coin.amount :=
      fun coin member => Coin.validate_eq_ok.mp (each coin member)
    have positive : ∀ coin ∈ sorted, 0 < coin.amount := by
      intro coin member
      have some := (mem_nonzero.mp (perm.mem_iff.mp member)).2
      have nonneg := (valid coin member).2
      omega
    split at taken
    · cases taken
    · rename_i none
      obtain rfl := pure_eq_ok.mp taken
      have ascending := (firstRepeat?_eq_none_iff order).mp none
      exact ⟨⟨⟨ascending, positive⟩, fun coin member => (valid coin member).1⟩, perm⟩
  · intro given
    rcases given with ⟨⟨sound, denoms⟩, arranged⟩
    obtain rfl := sound.eq_of_perm (perm.trans arranged.symm) order
    have each : ∀ coin ∈ set.entries, coin.validate = .ok () := fun coin member =>
      Coin.validate_eq_ok.mpr ⟨denoms coin member, (sound.positive coin member).le⟩
    refine ⟨(), each, ?_⟩
    rw [(firstRepeat?_eq_none_iff order).mpr sound.ascending]
    rfl

theorem exists_ofList_iff {coins : List Coin} : (∃ set, ofList coins = .ok set) ↔
    (∀ coin ∈ nonzero coins, Denom.isValid coin.denom = true ∧ 0 < coin.amount) ∧
      ((nonzero coins).map Coin.denom).Nodup := by
  constructor
  · intro given
    rcases given with ⟨set, taken⟩
    rcases ofList_eq_ok.mp taken with ⟨valid, perm⟩
    rcases validate_eq_ok_iff_sound.mp valid with ⟨sound, denoms⟩
    refine ⟨fun coin member => ?_, (perm.map _).nodup_iff.mp sound.nodup_denoms⟩
    have inside := perm.mem_iff.mpr member
    exact ⟨denoms coin inside, sound.positive coin inside⟩
  · intro given
    rcases given with ⟨each, distinct⟩
    have perm := arranged_perm coins
    have inside : ∀ coin ∈ arranged coins, Denom.isValid coin.denom = true ∧ 0 < coin.amount :=
      fun coin member => each coin (perm.mem_iff.mp member)
    have apart : (arranged coins).Pairwise fun a b => a.denom ≠ b.denom :=
      List.pairwise_map.mp ((perm.map Coin.denom).nodup_iff.mpr distinct)
    have ascending : (arranged coins).Pairwise fun a b => a.denom < b.denom :=
      ((sorted_arranged coins).and apart).imp fun order => lt_of_le_of_ne order.1 order.2
    refine ⟨⟨arranged coins⟩, ofList_eq_ok.mpr ⟨validate_eq_ok_iff_sound.mpr ?_, perm⟩⟩
    exact ⟨⟨ascending, fun coin member => (inside coin member).2⟩,
      fun coin member => (inside coin member).1⟩

theorem amountOf_of_mem {set : Coins} (distinct : (set.entries.map Coin.denom).Nodup) {coin : Coin}
    (member : coin ∈ set.entries) : set.amountOf coin.denom = coin.amount := by
  unfold amountOf
  cases found : set.entries.find? fun other => other.denom == coin.denom with
  | none => simpa using List.find?_eq_none.mp found coin member
  | some other =>
      have same : other.denom = coin.denom := by simpa using List.find?_some found
      rw [List.inj_on_of_nodup_map distinct (List.mem_of_find?_eq_some found) member same]

theorem amountOf_of_notMem {set : Coins} {denom : String}
    (absent : denom ∉ set.entries.map Coin.denom) : set.amountOf denom = 0 := by
  have none : (set.entries.find? fun coin => coin.denom == denom) = none := by
    rw [List.find?_eq_none]
    intro coin member same
    exact absent (eq_of_beq same ▸ List.mem_map_of_mem member)
  rw [amountOf, none]

/-- A list of coins makes a set exactly if those that are not zero have valid denominations, positive
amounts, and no denomination twice. The set is valid, and holds of a denomination what the one coin
that counts holds of it, or nothing. It is made by just the lists with the same coins that count: those
in another order, with coins of amount zero put in or left out. -/
theorem ofList_laws (coins : List Coin) :
    ((∃ set, ofList coins = .ok set) ↔
      (∀ coin ∈ nonzero coins, Denom.isValid coin.denom = true ∧ 0 < coin.amount) ∧
        ((nonzero coins).map Coin.denom).Nodup) ∧
    ∀ set, ofList coins = .ok set → set.validate = .ok () ∧
      (∀ coin ∈ nonzero coins, set.amountOf coin.denom = coin.amount) ∧
      (∀ denom, denom ∉ (nonzero coins).map Coin.denom → set.amountOf denom = 0) ∧
      ∀ others, ofList others = .ok set ↔ (nonzero others).Perm (nonzero coins) := by
  refine ⟨exists_ofList_iff, fun set taken => ?_⟩
  rcases ofList_eq_ok.mp taken with ⟨valid, perm⟩
  have distinct := (sound_of_validate valid).nodup_denoms
  refine ⟨valid, fun coin member => ?_, fun denom absent => ?_, fun others => ?_⟩
  · exact amountOf_of_mem distinct (perm.mem_iff.mpr member)
  · exact amountOf_of_notMem fun inside => absent ((perm.map Coin.denom).mem_iff.mp inside)
  · rw [ofList_eq_ok]
    constructor
    · intro given
      exact given.2.symm.trans perm
    · intro same
      exact ⟨valid, perm.trans same.symm⟩

def paddedCoins : List Coin := [⟨"stake", 5⟩, ⟨"!", 0⟩, ⟨"atom", 2⟩, ⟨"stake", 0⟩]

theorem ofList_laws_paddedCoins : ∃ set, ofList paddedCoins = .ok set ∧ set.validate = .ok () ∧
    set.amountOf "stake" = 5 ∧ set.amountOf "!" = 0 ∧
    ofList [⟨"", 0⟩, ⟨"atom", 2⟩, ⟨"stake", 5⟩] = .ok set ∧
    ¬∃ other, ofList (⟨"atom", 2⟩ :: paddedCoins) = .ok other := by
  obtain ⟨accepted, given⟩ := ofList_laws paddedCoins
  obtain ⟨set, taken⟩ := accepted.mpr (by decide)
  obtain ⟨valid, amounts, nothing, lists⟩ := given set taken
  have stake : set.amountOf "stake" = 5 := amounts ⟨"stake", 5⟩ (by decide)
  refine ⟨set, taken, valid, stake, nothing "!" (by decide), (lists _).mpr (by decide), ?_⟩
  rw [(ofList_laws _).1]
  decide

end Devnet.Coins
