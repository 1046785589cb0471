import Devnet.Address.Bech32
import Mathlib

/-! Bytes regrouped into symbols of five bits and back. Both directions keep the bits in their order;
the zeros that fill up the last symbol are too few for a byte, and too few for another symbol. -/

namespace Devnet.Bech32

theorem bits_succ (width n : Nat) (bit : Bool) :
    bits (width + 1) (2 * n + bit.toNat) = bits width n ++ [bit] := by
  induction width with
  | zero =>
      have lowest : (2 * n + bit.toNat).testBit 0 = bit := by
        rw [Nat.testBit_zero]
        cases bit <;> simp
      rw [bits, bits, bits, lowest]
      rfl
  | succ width ih =>
      have higher : (2 * n + bit.toNat).testBit (width + 1) = n.testBit width := by
        have half : (2 * n + bit.toNat) / 2 = n := by
          have := Bool.toNat_le bit
          omega
        rw [Nat.testBit_succ, half]
      rw [bits, higher, ih, bits, List.cons_append]

/-- Groups keep all bits: those that were started, those that came, and those that are left over. -/
theorem bits_group {width : Nat} (filled value : Nat) (room : filled < width)
    (bounded : value < 2 ^ filled) (input : List Bool) :
    (group width filled value input).1.flatMap (bits width) ++
        bits (group width filled value input).2.1 (group width filled value input).2.2 =
      bits filled value ++ input ∧
    (∀ n ∈ (group width filled value input).1, n < 2 ^ width) ∧
    (group width filled value input).2.1 < width ∧
    (group width filled value input).2.2 < 2 ^ (group width filled value input).2.1 := by
  induction input generalizing filled value with
  | nil =>
      refine ⟨?_, ?_, room, bounded⟩
      · simp [group]
      · intro n member
        cases member
  | cons bit input ih =>
      have grown : 2 * value + bit.toNat < 2 ^ (filled + 1) := by
        have := Bool.toNat_le bit
        rw [Nat.pow_succ]
        omega
      unfold group
      by_cases full : filled + 1 = width
      · -- the bit completes a group, and the next one starts with nothing
        obtain ⟨kept, small, left, value'⟩ := ih 0 0 (by omega) (by omega)
        simp only [if_pos full]
        refine ⟨?_, ?_, left, value'⟩
        · have group_bits := bits_succ filled value bit
          rw [full] at group_bits
          rw [List.flatMap_cons, List.append_assoc, kept, group_bits]
          simp [bits]
        · intro n member
          rcases List.mem_cons.mp member with rfl | later
          · exact full ▸ grown
          · exact small n later
      · obtain ⟨kept, small, left, value'⟩ := ih (filled + 1)
          (2 * value + bit.toNat) (by omega) grown
        simp only [if_neg full]
        refine ⟨?_, small, left, value'⟩
        rw [kept, bits_succ, List.append_assoc, List.singleton_append]

theorem bits_shiftLeft (width n fill : Nat) :
    bits (width + fill) (n <<< fill) = bits width n ++ List.replicate fill false := by
  induction fill with
  | zero => simp
  | succ fill ih =>
      have doubled : n <<< (fill + 1) = 2 * (n <<< fill) + Bool.toNat false := by
        simp only [Nat.shiftLeft_eq, Nat.pow_succ, Bool.toNat_false]
        ring
      rw [doubled, ← Nat.add_assoc, bits_succ, ih, List.replicate_succ', List.append_assoc]

theorem bits_toSymbols (bytes : Bytes) : ∃ fill < 5,
    (toSymbols bytes).flatMap (bits 5) =
      bytes.flatMap (fun b => bits 8 b.toNat) ++ List.replicate fill false := by
  obtain ⟨kept, -, left, value⟩ := bits_group 0 0 (show 0 < 5 by decide)
    (by decide) (bytes.flatMap fun b => bits 8 b.toNat)
  revert kept left value
  unfold toSymbols
  generalize bytes.flatMap (fun b => bits 8 b.toNat) = input
  generalize group 5 0 0 input = result
  obtain ⟨symbols, filled, value⟩ := result
  intro kept left bounded
  cases filled with
  | zero =>
      refine ⟨0, by decide, ?_⟩
      rw [bits, bits, List.append_nil] at kept
      rw [List.replicate_zero, List.append_nil]
      exact kept
  | succ filled =>
      refine ⟨5 - (filled + 1), by omega, ?_⟩
      have width : filled + 1 + (5 - (filled + 1)) = 5 := by
        simp only at left
        omega
      have last := bits_shiftLeft (filled + 1) value (5 - (filled + 1))
      rw [width] at last
      simp only [List.flatMap_append, List.flatMap_cons, List.flatMap_nil, List.append_nil, last]
      rw [← List.append_assoc]
      exact congrArg (· ++ _) kept

theorem toSymbols_lt (bytes : Bytes) : ∀ n ∈ toSymbols bytes, n < 32 := by
  obtain ⟨-, small, left, value⟩ := bits_group 0 0 (show 0 < 5 by decide)
    (by decide) (bytes.flatMap fun b => bits 8 b.toNat)
  revert small left value
  unfold toSymbols
  generalize group 5 0 0 (bytes.flatMap fun b => bits 8 b.toNat) = result
  obtain ⟨symbols, filled, value⟩ := result
  intro small left bounded n member
  cases filled with
  | zero => exact small n member
  | succ filled =>
      rcases List.mem_append.mp member with inside | last
      · exact small n inside
      · rw [List.mem_singleton.mp last]
        simp only at left bounded
        calc value <<< (5 - (filled + 1)) = value * 2 ^ (5 - (filled + 1)) := Nat.shiftLeft_eq _ _
          _ < 2 ^ (filled + 1) * 2 ^ (5 - (filled + 1)) :=
            Nat.mul_lt_mul_of_pos_right bounded (Nat.two_pow_pos _)
          _ = 2 ^ 5 := by rw [← Nat.pow_add, show filled + 1 + (5 - (filled + 1)) = 5 by omega]

theorem group_bits (width : Nat) (missing filled value n : Nat) (fits : filled + (missing + 1) = width)
    (rest : List Bool) :
    group width filled value (bits (missing + 1) n ++ rest) =
      ((value * 2 ^ (missing + 1) + n % 2 ^ (missing + 1)) :: (group width 0 0 rest).1,
        (group width 0 0 rest).2) := by
  induction missing generalizing filled value with
  | zero =>
      have bit : (n.testBit 0).toNat = n % 2 := by
        rw [Nat.toNat_testBit, Nat.pow_zero, Nat.div_one]
      rw [bits, bits, List.cons_append, group, if_pos (by omega), bit]
      simp [Nat.mul_comm]
  | succ missing ih =>
      have bit := Nat.toNat_testBit n (missing + 1)
      rw [bits, List.cons_append, group, if_neg (by omega), ih (filled + 1) _ (by omega), bit]
      congr 2
      have high := Nat.mod_mul (x := n) (a := 2 ^ (missing + 1)) (b := 2)
      rw [← Nat.pow_succ] at high
      rw [high, Nat.pow_succ]
      ring

theorem group_zeros (width filled count : Nat) (room : filled + count < width) :
    group width filled 0 (List.replicate count false) = ([], filled + count, 0) := by
  induction count generalizing filled with
  | zero => rfl
  | succ count ih =>
      rw [List.replicate_succ, group, if_neg (by omega)]
      have next := ih (filled + 1) (by omega)
      rw [show filled + (count + 1) = filled + 1 + count by omega]
      exact next

theorem group_flatMap_bits {width fill : Nat} (room : fill < width + 1) {symbols : List Nat}
    (small : ∀ n ∈ symbols, n < 2 ^ (width + 1)) :
    group (width + 1) 0 0 (symbols.flatMap (bits (width + 1)) ++ List.replicate fill false) =
      (symbols, fill, 0) := by
  induction symbols with
  | nil =>
      have zeros := group_zeros (width + 1) 0 fill (by omega)
      rw [Nat.zero_add] at zeros
      exact zeros
  | cons n symbols ih =>
      obtain ⟨bound, others⟩ := List.forall_mem_cons.mp small
      rw [List.flatMap_cons, List.append_assoc, group_bits (width + 1) width 0 0 n (Nat.zero_add _),
        ih others, Nat.zero_mul, Nat.zero_add, Nat.mod_eq_of_lt bound]

theorem flatMap_bytes (bytes : Bytes) :
    bytes.flatMap (fun b => bits 8 b.toNat) = (bytes.map UInt8.toNat).flatMap (bits 8) :=
  (List.flatMap_map ..).symm

theorem map_toUInt8_toNat (bytes : Bytes) : (bytes.map UInt8.toNat).map Nat.toUInt8 = bytes := by
  rw [List.map_map, List.map_congr_left fun b _ =>
    show (Nat.toUInt8 ∘ UInt8.toNat) b = b from UInt8.ofNat_toNat, List.map_id']

theorem ofSymbols_toSymbols (bytes : Bytes) : ofSymbols (toSymbols bytes) = .ok bytes := by
  obtain ⟨fill, small, kept⟩ := bits_toSymbols bytes
  have bounded : ∀ n ∈ bytes.map UInt8.toNat, n < 2 ^ 8 := by
    intro n member
    obtain ⟨b, -, rfl⟩ := List.mem_map.mp member
    exact b.toNat_lt
  have few : ¬5 ≤ fill := by omega
  unfold ofSymbols
  rw [kept, flatMap_bytes, group_flatMap_bits (show fill < 7 + 1 by omega) bounded]
  simp only [few, decide_false, bne_self_eq_false, Bool.or_self, Bool.false_eq_true, if_false,
    map_toUInt8_toNat]

theorem length_bits (width n : Nat) : (bits width n).length = width := by
  induction width with
  | zero => rfl
  | succ width ih => rw [bits, List.length_cons, ih]

theorem length_flatMap_bits (width : Nat) (symbols : List Nat) :
    (symbols.flatMap (bits width)).length = symbols.length * width := by
  induction symbols with
  | nil => simp
  | cons n symbols ih =>
      rw [List.flatMap_cons, List.length_append, length_bits, ih, List.length_cons]
      ring

theorem bits_zero (width : Nat) : bits width 0 = List.replicate width false := by
  induction width with
  | zero => rfl
  | succ width ih => rw [bits, ih, Nat.zero_testBit, List.replicate_succ]

theorem bits_ofSymbols {symbols : List Nat} {bytes : Bytes} (read : ofSymbols symbols = .ok bytes) :
    ∃ fill < 5, symbols.flatMap (bits 5) =
      bytes.flatMap (fun b => bits 8 b.toNat) ++ List.replicate fill false := by
  obtain ⟨kept, small, -, -⟩ := bits_group 0 0 (show 0 < 8 by decide) (by decide)
    (symbols.flatMap (bits 5))
  revert read kept small
  unfold ofSymbols
  generalize symbols.flatMap (bits 5) = input
  generalize group 8 0 0 input = result
  obtain ⟨groups, filled, value⟩ := result
  intro read kept small
  simp only [Bool.or_eq_true, decide_eq_true_eq, bne_iff_ne, ne_eq] at read
  split at read
  · cases read
  · rename_i clear
    obtain ⟨few, zero⟩ := not_or.mp clear
    obtain rfl := not_not.mp zero
    have bytes_eq : (groups.map Nat.toUInt8).map UInt8.toNat = groups := by
      rw [List.map_map]
      refine (List.map_congr_left fun n member => ?_).trans (List.map_id _)
      exact UInt8.toNat_ofNat_of_lt' (small n member)
    cases read
    refine ⟨filled, by omega, ?_⟩
    rw [flatMap_bytes, bytes_eq, ← bits_zero]
    exact kept.symm

/-- The bytes that are read from symbols have no other symbols. -/
theorem toSymbols_ofSymbols {symbols : List Nat} {bytes : Bytes} (small : ∀ n ∈ symbols, n < 32)
    (read : ofSymbols symbols = .ok bytes) : toSymbols bytes = symbols := by
  obtain ⟨fill, few, written⟩ := bits_toSymbols bytes
  obtain ⟨fill', few', given⟩ := bits_ofSymbols read
  have lengths := congrArg List.length written
  have lengths' := congrArg List.length given
  rw [flatMap_bytes, List.length_append, length_flatMap_bits, length_flatMap_bits,
    List.length_replicate] at lengths lengths'
  -- Both fill up the same number of bits to a multiple of five.
  have same : fill = fill' := by omega
  have bits_eq : (toSymbols bytes).flatMap (bits 5) = symbols.flatMap (bits 5) := by
    rw [written, given, same]
  have grouped := group_flatMap_bits (show 0 < 4 + 1 by decide) (toSymbols_lt bytes)
  rw [bits_eq, group_flatMap_bits (show 0 < 4 + 1 by decide) small] at grouped
  exact (Prod.mk.inj grouped).1.symm

end Devnet.Bech32
