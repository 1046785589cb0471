import Devnet.Text.Utf8

/-! Base64 with the standard alphabet. Reading goes by blocks of four characters, each of which may be
padded; the bits that padding leaves over have to be zero. -/
namespace Devnet.Base64

def alphabet : List Char :=
  "ABCDEFGHIJKLMNOPQRSTUVWXYZabcdefghijklmnopqrstuvwxyz0123456789+/".toList

def symbol (n : Nat) : Char := alphabet.getD n 'A'

def value? (c : Char) : Option Nat := alphabet.idxOf? c

def encodeChars : Bytes → List Char
  | [] => []
  | [a] => [symbol (a.toNat / 4), symbol (a.toNat % 4 * 16), '=', '=']
  | [a, b] =>
    [symbol (a.toNat / 4), symbol (a.toNat % 4 * 16 + b.toNat / 16), symbol (b.toNat % 16 * 4), '=']
  | a :: b :: c :: rest =>
    symbol (a.toNat / 4) :: symbol (a.toNat % 4 * 16 + b.toNat / 16) ::
      symbol (b.toNat % 16 * 4 + c.toNat / 64) :: symbol (c.toNat % 64) :: encodeChars rest

def encode (bytes : Bytes) : String := String.ofList (encodeChars bytes)

def decodeBlock (p q r s : Char) : Option Bytes := do
  let a ← value? p
  let b ← value? q
  let first := (a * 4 + b / 16).toUInt8
  if r = '=' then
    if s = '=' && b % 16 == 0 then some [first] else none
  else
    let c ← value? r
    let second := (b % 16 * 16 + c / 4).toUInt8
    if s = '=' then
      if c % 4 == 0 then some [first, second] else none
    else
      let d ← value? s
      some [first, second, (c % 4 * 64 + d).toUInt8]

def decodeChars : List Char → Option Bytes
  | [] => some []
  | p :: q :: r :: s :: rest => do
    let block ← decodeBlock p q r s
    let others ← decodeChars rest
    some (block ++ others)
  | _ => none

def decode (text : String) : Option Bytes := decodeChars text.toList

end Devnet.Base64
