namespace Devnet

inductive FaultKind
  | crypto
  | keyConversion
  | override
  | genesis
  | coin
  | number
  | address
  | serialization
  | database
  | config
  | io
  /-- Voting powers that 64 bits cannot sum: the run ends without a text. -/
  | overflow
  deriving DecidableEq, Repr

def FaultKind.heading : FaultKind → String
  | .crypto => "Cryptographic error: "
  | .keyConversion => "Public key conversion error: "
  | .override => ""
  | .genesis => "Invalid genesis: "
  | .coin => "Invalid coin: "
  | .number => "Invalid number: "
  | .address => "Invalid address: "
  | .serialization => "Serialization error: "
  | .database => "Database error: "
  | .config => "Configuration error: "
  | .io => "I/O error: "
  | .overflow => ""

def FaultKind.message (kind : FaultKind) (cause : String) : String := kind.heading ++ cause

/-- A section of one module was given under the name of another. -/
def overrideCause (module found : String) : String :=
  s!"invalid type {found} for {module} genesis state"

end Devnet
