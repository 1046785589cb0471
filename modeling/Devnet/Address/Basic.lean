import Devnet.Address.Bech32
import Devnet.Crypto.Sha256
import Devnet.Fault.Kind
import Devnet.Text.Hex

namespace Devnet

inductive AddressFault
  | notBech32 (text : String) (cause : Bech32Fault)
  | wrongHrp (text expected found : String)
  | wrongLength (text : String) (length : Nat)
  | notHex (text : String) (cause : HexFault)
  | wrongHexLength (text : String)
  deriving DecidableEq, Repr

def AddressFault.message : AddressFault → String
  | .notBech32 text cause => s!"{text}: {cause.message}"
  | .wrongHrp text expected found => s!"{text}: expected prefix {expected}, got {found}"
  | .wrongLength text length => s!"{text}: invalid address length {length}"
  | .notHex text cause => s!"{text}: {cause.message}"
  | .wrongHexLength text => s!"invalid EVM address length: {text}"

inductive AddressKind
  | account
  | operator
  deriving DecidableEq, Repr

def AddressKind.hrp : AddressKind → String
  | .account => "evmos"
  | .operator => "evmosvaloper"

structure Address (kind : AddressKind) where
  bytes : Bytes
  deriving DecidableEq, Repr

abbrev AccountAddress := Address .account

abbrev OperatorAddress := Address .operator

namespace Address

def render {kind : AddressKind} (address : Address kind) : String :=
  Bech32.encode kind.hrp address.bytes

/-- An address that is read has 1 to 255 bytes. -/
def parse (kind : AddressKind) (text : String) : Except AddressFault (Address kind) :=
  match Bech32.decode text with
  | .error cause => .error (.notBech32 text cause)
  | .ok (hrp, symbols) =>
    if hrp ≠ kind.hrp then .error (.wrongHrp text kind.hrp hrp)
    else
      match Bech32.ofSymbols symbols with
      | .error cause => .error (.notBech32 text cause)
      | .ok bytes =>
        if bytes.isEmpty || 255 < bytes.length then .error (.wrongLength text bytes.length)
        else .ok ⟨bytes⟩

end Address

def addressHash (bytes : Bytes) : Bytes := (Sha256.digest bytes).take 20

def moduleAddress (name : String) : AccountAddress := ⟨addressHash (Utf8.ofString name)⟩

end Devnet
