import Devnet.Text.Base64
import Mathlib

namespace Devnet.Base64

theorem value?_symbol {n : Nat} (small : n < 64) : value? (symbol n) = some n := by
  have all : ∀ n < 64, value? (symbol n) = some n := by decide +kernel
  exact all n small

theorem symbol_ne_pad {n : Nat} (small : n < 64) : symbol n ≠ '=' := by
  have all : ∀ n < 64, symbol n ≠ '=' := by decide +kernel
  exact all n small

private theorem toUInt8_eq {n : Nat} {b : UInt8} (same : n = b.toNat) : n.toUInt8 = b := by
  rw [same]
  exact UInt8.ofNat_toNat

theorem decodeBlock_one (a : UInt8) :
    decodeBlock (symbol (a.toNat / 4)) (symbol (a.toNat % 4 * 16)) '=' '=' = some [a] := by
  have bound := a.toNat_lt
  unfold decodeBlock
  rw [value?_symbol (by omega), value?_symbol (by omega)]
  have first : (a.toNat / 4 * 4 + a.toNat % 4 * 16 / 16).toUInt8 = a := toUInt8_eq (by omega)
  have left : a.toNat % 4 * 16 % 16 = 0 := by omega
  simp only [Option.bind_eq_bind, Option.bind_some, if_true, first, left]
  rfl

theorem decodeBlock_two (a b : UInt8) :
    decodeBlock (symbol (a.toNat / 4)) (symbol (a.toNat % 4 * 16 + b.toNat / 16))
      (symbol (b.toNat % 16 * 4)) '=' = some [a, b] := by
  have bound := a.toNat_lt
  have bound' := b.toNat_lt
  unfold decodeBlock
  rw [value?_symbol (by omega), value?_symbol (by omega), value?_symbol (by omega)]
  have third := symbol_ne_pad (show b.toNat % 16 * 4 < 64 by omega)
  have first : (a.toNat / 4 * 4 + (a.toNat % 4 * 16 + b.toNat / 16) / 16).toUInt8 = a :=
    toUInt8_eq (by omega)
  have second : ((a.toNat % 4 * 16 + b.toNat / 16) % 16 * 16 + b.toNat % 16 * 4 / 4).toUInt8 = b :=
    toUInt8_eq (by omega)
  have left : b.toNat % 16 * 4 % 4 = 0 := by omega
  simp only [Option.bind_eq_bind, Option.bind_some, third, if_false, if_true, first, second, left]
  rfl

theorem decodeBlock_three (a b c : UInt8) :
    decodeBlock (symbol (a.toNat / 4)) (symbol (a.toNat % 4 * 16 + b.toNat / 16))
      (symbol (b.toNat % 16 * 4 + c.toNat / 64)) (symbol (c.toNat % 64)) = some [a, b, c] := by
  have bound := a.toNat_lt
  have bound' := b.toNat_lt
  have bound'' := c.toNat_lt
  unfold decodeBlock
  rw [value?_symbol (by omega), value?_symbol (by omega), value?_symbol (by omega),
    value?_symbol (by omega)]
  have mark := symbol_ne_pad (show b.toNat % 16 * 4 + c.toNat / 64 < 64 by omega)
  have mark' := symbol_ne_pad (show c.toNat % 64 < 64 by omega)
  have first : (a.toNat / 4 * 4 + (a.toNat % 4 * 16 + b.toNat / 16) / 16).toUInt8 = a :=
    toUInt8_eq (by omega)
  have second : ((a.toNat % 4 * 16 + b.toNat / 16) % 16 * 16 +
      (b.toNat % 16 * 4 + c.toNat / 64) / 4).toUInt8 = b := toUInt8_eq (by omega)
  have third : ((b.toNat % 16 * 4 + c.toNat / 64) % 4 * 64 + c.toNat % 64).toUInt8 = c :=
    toUInt8_eq (by omega)
  simp only [Option.bind_eq_bind, Option.bind_some, mark, mark', if_false, first, second, third]

theorem decodeChars_encodeChars (bytes : Bytes) : decodeChars (encodeChars bytes) = some bytes := by
  fun_induction encodeChars bytes with
  | case1 => rfl
  | case2 a =>
      rw [decodeChars, decodeBlock_one]
      rfl
  | case3 a b =>
      rw [decodeChars, decodeBlock_two]
      rfl
  | case4 a b c rest ih =>
      rw [decodeChars, decodeBlock_three, ih]
      rfl

theorem decode_encode (bytes : Bytes) : decode (encode bytes) = some bytes := by
  rw [decode, encode, String.toList_ofList, decodeChars_encodeChars]

end Devnet.Base64
