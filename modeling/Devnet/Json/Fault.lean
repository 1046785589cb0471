import Devnet.Address.Basic
import Devnet.Json.Raw
import Devnet.Number.Fault
import Devnet.Number.Word
import Devnet.Text.Quoted

namespace Devnet

inductive ValueFault
  | number (cause : NumberFault)
  | address (cause : AddressFault)
  | word (cause : WordFault)
  | base64
  deriving DecidableEq, Repr

def ValueFault.message : ValueFault → String
  | .number cause => FaultKind.number.message cause.message
  | .address cause => FaultKind.address.message cause.message
  | .word cause => cause.message
  | .base64 => "<base64 error>"

inductive DecodeFault
  | malformed
  | missingField (name : String)
  | duplicateField (name : String)
  | unknownVariant (found : String) (known : List String)
  | wrongType (found wanted : String)
  | outOfRange (found : Int) (wanted : String)
  | wrongLength (length : Nat) (wanted : String)
  | refused (cause : ValueFault)
  deriving DecidableEq, Repr

def DecodeFault.message : DecodeFault → String
  | .malformed => "<json syntax error>"
  | .missingField name => s!"missing field `{name}`"
  | .duplicateField name => s!"duplicate field `{name}`"
  | .unknownVariant found known =>
    let names := ", ".intercalate (known.map fun name => s!"`{name}`")
    s!"unknown variant `{found}`, expected one of {names}"
  | .wrongType found wanted => s!"invalid type: {found}, expected {wanted}"
  | .outOfRange found wanted => s!"invalid value: integer `{found}`, expected {wanted}"
  | .wrongLength length wanted => s!"invalid length {length}, expected {wanted}"
  | .refused cause => cause.message

/-- What is said of a value that stands where another type is wanted. A scalar is read before it is
named, so its own defect comes first; an array or object is not looked into. -/
def RawJson.mismatch (wanted : String) : RawJson → DecodeFault
  | .null => .wrongType "null" wanted
  | .bool value => .wrongType s!"boolean `{value}`" wanted
  | .number none => .malformed
  | .number (some (.integer n)) => .wrongType s!"integer `{n}`" wanted
  | .number (some (.double x)) => .wrongType s!"floating point `{x.render}`" wanted
  | .string none => .malformed
  | .string (some text) => .wrongType s!"string {Text.quoted text}" wanted
  | .array _ => .wrongType "sequence" wanted
  | .object _ => .wrongType "map" wanted
  | .broken => .malformed

end Devnet
