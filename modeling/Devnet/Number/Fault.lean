namespace Devnet

inductive NumberFault
  | invalidInteger (text : String)
  | integerOutOfRange (text : String)
  | invalidDecimal (text : String)
  | decimalOutOfRange (text : String)
  | tooManyPlaces (places : Nat)
  | divisionByZero
  deriving DecidableEq, Repr

def NumberFault.message : NumberFault → String
  | .invalidInteger text => s!"invalid integer: {text}"
  | .integerOutOfRange text => s!"integer out of range: {text}"
  | .invalidDecimal text => s!"invalid decimal: {text}"
  | .decimalOutOfRange text => s!"decimal out of range: {text}"
  | .tooManyPlaces places => s!"precision {places} exceeds 18"
  | .divisionByZero => "division by zero"

end Devnet
