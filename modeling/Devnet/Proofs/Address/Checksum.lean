import Devnet.Address.Bech32
import Mathlib

/-! For each constant there is one checksum that leaves it. The step over a symbol is linear in the
state and the symbol, so the state after six symbols is the one after six zeros with the symbols laid
over it, and these are told apart by the number that they lead to. -/

namespace Devnet.Bech32

def tap (state index generator : Nat) : Nat :=
  if (state >>> 25).testBit index then generator else 0

theorem tap_xor (a b index generator : Nat) :
    tap (a ^^^ b) index generator = tap a index generator ^^^ tap b index generator := by
  unfold tap
  rw [Nat.shiftRight_xor_distrib, Nat.testBit_xor]
  cases (a >>> 25).testBit index <;> cases (b >>> 25).testBit index <;> simp

theorem tap_lt (state index : Nat) {generator : Nat} (small : generator < 2 ^ 30) :
    tap state index generator < 2 ^ 30 := by
  unfold tap
  split
  · exact small
  · decide

theorem tap_of_lt {state : Nat} (small : state < 2 ^ 25) (index generator : Nat) :
    tap state index generator = 0 := by
  have top : state >>> 25 = 0 := by
    rw [Nat.shiftRight_eq_div_pow]
    exact Nat.div_eq_of_lt small
  simp [tap, top]

theorem polymodStep_eq (state symbol : Nat) :
    polymodStep state symbol = ((state % (1 <<< 25)) <<< 5) ^^^ symbol ^^^
      tap state 0 0x3b6a57b2 ^^^ tap state 1 0x26508e6d ^^^ tap state 2 0x1ea119fa ^^^
      tap state 3 0x3d4233dd ^^^ tap state 4 0x2a1462b3 := by
  have choose : ∀ (on : Bool) (value generator : Nat),
      (if on = true then value ^^^ generator else value) =
        value ^^^ (if on = true then generator else 0) := by
    intro on value generator
    cases on <;> simp
  simp only [polymodStep, generators, List.zipIdx, List.foldl_cons, List.foldl_nil, choose, tap]

theorem polymodStep_xor (a b x y : Nat) :
    polymodStep (a ^^^ b) (x ^^^ y) = polymodStep a x ^^^ polymodStep b y := by
  have low : (a ^^^ b) % (1 <<< 25) = a % (1 <<< 25) ^^^ b % (1 <<< 25) := by
    rw [Nat.one_shiftLeft, Nat.xor_mod_two_pow]
  simp only [polymodStep_eq, tap_xor, low, Nat.shiftLeft_xor_distrib]
  ac_rfl

theorem foldl_polymodStep_xor (a b : Nat) (xs ys : List Nat) (same : xs.length = ys.length) :
    (List.zipWith (· ^^^ ·) xs ys).foldl polymodStep (a ^^^ b) =
      xs.foldl polymodStep a ^^^ ys.foldl polymodStep b := by
  induction xs generalizing a b ys with
  | nil =>
      cases ys with
      | nil => rfl
      | cons y ys => cases same
  | cons x xs ih =>
      cases ys with
      | nil => cases same
      | cons y ys =>
          rw [List.zipWith_cons_cons, List.foldl_cons, polymodStep_xor,
            ih _ _ ys (Nat.succ.inj same), List.foldl_cons, List.foldl_cons]

theorem polymodStep_lt (state : Nat) {symbol : Nat} (small : symbol < 2 ^ 30) :
    polymodStep state symbol < 2 ^ 30 := by
  have shifted : (state % (1 <<< 25)) <<< 5 < 2 ^ 30 := by
    have := Nat.mod_lt state (show 0 < 1 <<< 25 by decide)
    rw [Nat.one_shiftLeft] at this ⊢
    rw [Nat.shiftLeft_eq]
    omega
  rw [polymodStep_eq]
  repeat' apply Nat.xor_lt_two_pow
  all_goals first
    | exact shifted
    | exact small
    | exact tap_lt _ _ (by decide)

theorem polymodStep_shiftRight {n shift : Nat} (small : n < 2 ^ (30 + shift)) :
    polymodStep (n >>> (shift + 5)) ((n >>> shift) % 32) = n >>> shift := by
  have top : n >>> (shift + 5) < 2 ^ 25 := by
    rw [Nat.shiftRight_eq_div_pow]
    apply Nat.div_lt_of_lt_mul
    rw [← Nat.pow_add, show shift + 5 + 25 = 30 + shift by omega]
    exact small
  have low : n >>> (shift + 5) % (1 <<< 25) = n >>> (shift + 5) := by
    rw [Nat.one_shiftLeft]
    exact Nat.mod_eq_of_lt top
  rw [polymodStep_eq]
  simp only [tap_of_lt top, Nat.xor_zero, low]
  apply Nat.eq_of_testBit_eq
  intro i
  rw [Nat.testBit_xor, Nat.testBit_shiftLeft, show (32 : Nat) = 2 ^ 5 from rfl,
    Nat.testBit_mod_two_pow]
  simp only [Nat.testBit_shiftRight]
  by_cases lower : i < 5
  · have notHigher : ¬5 ≤ i := by omega
    simp [lower, notHigher]
  · have higher : 5 ≤ i := by omega
    have index : shift + 5 + (i - 5) = shift + i := by omega
    simp [lower, higher, index]

def spread (n : Nat) : List Nat := [25, 20, 15, 10, 5, 0].map fun shift => (n >>> shift) % 32

theorem foldl_spread {n : Nat} (small : n < 2 ^ 30) : (spread n).foldl polymodStep 0 = n := by
  have bounded : ∀ shift, n < 2 ^ (30 + shift) := fun shift =>
    Nat.lt_of_lt_of_le small (Nat.pow_le_pow_right (by decide) (by omega))
  have nothing : n >>> 30 = 0 := by
    rw [Nat.shiftRight_eq_div_pow]
    exact Nat.div_eq_of_lt small
  have first := polymodStep_shiftRight (bounded 25)
  rw [nothing] at first
  simp only [spread, List.map_cons, List.map_nil, List.foldl_cons, List.foldl_nil, first,
    polymodStep_shiftRight (bounded 20), polymodStep_shiftRight (bounded 15),
    polymodStep_shiftRight (bounded 10), polymodStep_shiftRight (bounded 5),
    polymodStep_shiftRight (bounded 0)]
  exact Nat.shiftRight_zero

theorem polymodStep_of_lt {state symbol : Nat} (low : state < 2 ^ 25) (small : symbol < 32) :
    polymodStep state symbol = 32 * state + symbol := by
  have shifted := polymodStep_shiftRight (show 32 * state + symbol < 2 ^ (30 + 0) by omega)
  have before : (32 * state + symbol) >>> (0 + 5) = state := by
    rw [Nat.shiftRight_eq_div_pow]
    omega
  have last : (32 * state + symbol) >>> 0 % 32 = symbol := by
    rw [Nat.shiftRight_zero]
    omega
  rw [before, last, Nat.shiftRight_zero] at shifted
  exact shifted

theorem spread_foldl {symbols : List Nat} (six : symbols.length = checksumLength)
    (small : ∀ n ∈ symbols, n < 32) : spread (symbols.foldl polymodStep 0) = symbols := by
  obtain ⟨a, b, c, d, e, f, rfl⟩ : ∃ a b c d e f, symbols = [a, b, c, d, e, f] := by
    match symbols, six with
    | [a, b, c, d, e, f], _ => exact ⟨a, b, c, d, e, f, rfl⟩
  simp only [List.forall_mem_cons, List.not_mem_nil, false_imp_iff, implies_true, and_true] at small
  obtain ⟨ha, hb, hc, hd, he, hf⟩ := small
  simp only [List.foldl_cons, List.foldl_nil]
  rw [polymodStep_of_lt (by decide) ha, polymodStep_of_lt (by omega) hb,
    polymodStep_of_lt (by omega) hc, polymodStep_of_lt (by omega) hd,
    polymodStep_of_lt (by omega) he, polymodStep_of_lt (by omega) hf]
  simp only [spread, List.map_cons, List.map_nil, Nat.shiftRight_eq_div_pow, List.cons.injEq, and_true]
  omega

def checksumFor (constant : Nat) (hrp : String) (data : List Nat) : List Nat :=
  spread (polymod (expand hrp ++ data ++ List.replicate checksumLength 0) ^^^ constant)

theorem checksumFor_lt (constant : Nat) (hrp : String) (data : List Nat) :
    ∀ n ∈ checksumFor constant hrp data, n < 32 := by
  intro n member
  rcases List.mem_map.mp member with ⟨shift, -, rfl⟩
  exact Nat.mod_lt _ (by decide)

theorem length_checksumFor (constant : Nat) (hrp : String) (data : List Nat) :
    (checksumFor constant hrp data).length = checksumLength := rfl

theorem polymod_append (symbols others : List Nat) :
    polymod (symbols ++ others) = others.foldl polymodStep (polymod symbols) := List.foldl_append

theorem polymod_six {hrp : String} {data check : List Nat} (six : check.length = checksumLength) :
    polymod (expand hrp ++ (data ++ check)) =
      polymod (expand hrp ++ data ++ List.replicate checksumLength 0) ^^^ check.foldl polymodStep 0 := by
  have laid : List.zipWith (· ^^^ ·) (List.replicate checksumLength 0) check = check := by
    rw [← six, ← List.map_const', List.zipWith_map_left, List.zipWith_self]
    simp
  have split := foldl_polymodStep_xor (polymod (expand hrp ++ data)) 0
    (List.replicate checksumLength 0) check (by rw [List.length_replicate, six])
  rw [laid, Nat.xor_zero] at split
  rw [← List.append_assoc, polymod_append, split, ← polymod_append]

theorem polymod_zeros_lt (hrp : String) (data : List Nat) :
    polymod (expand hrp ++ data ++ List.replicate checksumLength 0) < 2 ^ 30 := by
  rw [polymod_append]
  exact polymodStep_lt _ (by decide)

/-- Data with its checksum leaves the constant. -/
theorem polymod_checksumFor {constant : Nat} (small : constant < 2 ^ 30) (hrp : String)
    (data : List Nat) : polymod (expand hrp ++ (data ++ checksumFor constant hrp data)) = constant := by
  have target : polymod (expand hrp ++ data ++ List.replicate checksumLength 0) ^^^ constant < 2 ^ 30 :=
    Nat.xor_lt_two_pow (polymod_zeros_lt hrp data) small
  rw [polymod_six (length_checksumFor constant hrp data), checksumFor, foldl_spread target,
    ← Nat.xor_assoc, Nat.xor_self, Nat.zero_xor]

/-- No other six symbols leave what a checksum leaves. -/
theorem eq_checksumFor (hrp : String) (data : List Nat) {check : List Nat}
    (six : check.length = checksumLength) (small : ∀ n ∈ check, n < 32) :
    check = checksumFor (polymod (expand hrp ++ (data ++ check))) hrp data := by
  rw [checksumFor, polymod_six six, ← Nat.xor_assoc, Nat.xor_self, Nat.zero_xor,
    spread_foldl six small]

end Devnet.Bech32
