/-! UTF-8: characters written as bytes, and bytes read back with every undecodable byte kept visible. -/
namespace Devnet

abbrev Bytes := List UInt8

/-- Where a byte string stops being UTF-8: the first offending byte, and how many bytes are at fault;
no width means that the end cuts a character short. -/
structure Utf8Fault where
  index : Nat
  width : Option Nat
  deriving DecidableEq, Repr

def Utf8Fault.message (fault : Utf8Fault) : String :=
  match fault.width with
  | some width => s!"invalid utf-8 sequence of {width} bytes from index {fault.index}"
  | none => s!"incomplete utf-8 byte sequence from index {fault.index}"

namespace Utf8

/-- What stands at the head of a byte string: a character and its width, bytes that start no
character, or a character that the end cuts short. -/
inductive Head
  | char (value : Char) (width : Nat)
  | bad (width : Nat)
  | cut
  deriving DecidableEq, Repr

def isTail (b : UInt8) : Bool := 0x80 ≤ b && b ≤ 0xBF

/-- Some lead bytes narrow their second byte, so that no character has two spellings and none is a surrogate. -/
def isSecond (lead b : UInt8) : Bool :=
  if lead = 0xE0 then 0xA0 ≤ b && b ≤ 0xBF
  else if lead = 0xED then 0x80 ≤ b && b ≤ 0x9F
  else if lead = 0xF0 then 0x90 ≤ b && b ≤ 0xBF
  else if lead = 0xF4 then 0x80 ≤ b && b ≤ 0x8F
  else isTail b

def tailBits (b : UInt8) : Nat := b.toNat - 0x80

def head (lead : UInt8) (rest : Bytes) : Head :=
  if lead < 0x80 then .char (Char.ofNat lead.toNat) 1
  else if lead < 0xC2 then .bad 1
  else if lead < 0xE0 then
    match rest with
    | [] => .cut
    | b :: _ => if isTail b then .char (Char.ofNat ((lead.toNat - 0xC0) * 0x40 + tailBits b)) 2 else .bad 1
  else if lead < 0xF0 then
    match rest with
    | [] => .cut
    | [b] => if isSecond lead b then .cut else .bad 1
    | b :: c :: _ =>
      if !isSecond lead b then .bad 1
      else if !isTail c then .bad 2
      else .char (Char.ofNat ((lead.toNat - 0xE0) * 0x1000 + tailBits b * 0x40 + tailBits c)) 3
  else if lead < 0xF5 then
    match rest with
    | [] => .cut
    | [b] => if isSecond lead b then .cut else .bad 1
    | [b, c] => if !isSecond lead b then .bad 1 else if isTail c then .cut else .bad 2
    | b :: c :: d :: _ =>
      if !isSecond lead b then .bad 1
      else if !isTail c then .bad 2
      else if !isTail d then .bad 3
      else .char (Char.ofNat ((lead.toNat - 0xF0) * 0x40000 + tailBits b * 0x1000 + tailBits c * 0x40 + tailBits d)) 4
  else .bad 1

def scan : Nat → Bytes → List (Option Char)
  | _, [] => []
  | skip + 1, _ :: rest => scan skip rest
  | 0, lead :: rest =>
    match head lead rest with
    | .char c width => some c :: scan (width - 1) rest
    | _ => none :: scan 0 rest

def decode (bytes : Bytes) : List (Option Char) := scan 0 bytes

def encode (text : List Char) : Bytes := text.flatMap String.utf8EncodeChar

def firstFault : (skip index : Nat) → Bytes → Option Utf8Fault
  | _, _, [] => none
  | skip + 1, index, _ :: rest => firstFault skip (index + 1) rest
  | 0, index, lead :: rest =>
    match head lead rest with
    | .char _ width => firstFault (width - 1) (index + 1) rest
    | .bad width => some ⟨index, some width⟩
    | .cut => some ⟨index, none⟩

def text (bytes : Bytes) : Except Utf8Fault String :=
  match firstFault 0 0 bytes with
  | some fault => .error fault
  | none => .ok (String.ofList ((decode bytes).filterMap id))

def ofString (text : String) : Bytes := encode text.toList

end Utf8
end Devnet
