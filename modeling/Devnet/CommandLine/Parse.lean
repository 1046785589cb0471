import Devnet.CommandLine.Command
import Devnet.Number.Word

/-! Reading the arguments of the command line. An option takes its value from behind an equals sign or
from the next argument. A value is looked at when the next option comes, so a fault after it may win. -/
namespace Devnet.Command

inductive ValueKind
  | text
  | path
  | count
  deriving DecidableEq, Repr

structure OptionSpec where
  name : String
  kind : ValueKind
  deriving DecidableEq, Repr

def genesisSpecs : List OptionSpec :=
  [⟨"config", .path⟩, ⟨"validators", .count⟩, ⟨"accounts", .count⟩, ⟨"chain-id", .text⟩]

def validatorsSpecs : List OptionSpec := [⟨"count", .count⟩]

/-- An option that has come but has not been looked at, with its value if there is one. -/
structure Pending where
  spec : OptionSpec
  value : Option String

structure Progress where
  values : List (String × String)
  pending : Option Pending

def checkValue (spec : OptionSpec) (value : String) : Except UsageFault Unit :=
  match spec.kind with
  | .text => .ok ()
  | .path => if value.isEmpty then .error (.missingValue spec.name) else .ok ()
  | .count =>
    match Word.parseUInt64 value with
    | .ok _ => .ok ()
    | .error _ => .error (.invalidValue spec.name value)

/-- Takes a value over; an option may be given once. -/
def addValue (values : List (String × String)) (spec : OptionSpec) (value : String) :
    Except UsageFault (List (String × String)) := do
  if (values.lookup spec.name).isSome then throw (.givenTwice spec.name)
  checkValue spec value
  return values ++ [(spec.name, value)]

def settle (progress : Progress) : Except UsageFault (List (String × String)) :=
  match progress.pending with
  | none => .ok progress.values
  | some ⟨spec, some value⟩ => addValue progress.values spec value
  | some ⟨spec, none⟩ => .error (.missingValue spec.name)

inductive Argument
  | divider
  | long (name : List Char) (value : Option String)
  | short (letter : Char)
  | plain

def splitEquals (text : List Char) : List Char × Option String :=
  match text.span (· != '=') with
  | (name, _ :: value) => (name, some (String.ofList value))
  | (name, []) => (name, none)

def Argument.ofString (argument : String) : Argument :=
  match argument.toList with
  | ['-', '-'] => .divider
  | '-' :: '-' :: rest => let (name, value) := splitEquals rest; .long name value
  | '-' :: letter :: _ => .short letter
  | _ => .plain

def isHelp (name : List Char) : Bool := name == "help".toList

def askHelp (progress : Progress) : Except UsageFault Progress := do
  discard <| settle progress
  throw .helpWanted

def step (specs : List OptionSpec) (progress : Progress) (argument : String) :
    Except UsageFault Progress :=
  match Argument.ofString argument with
  | .long name value =>
    if isHelp name then
      if value.isSome then .error (.valueNotWanted "help") else askHelp progress
    else
      match specs.find? fun spec => spec.name.toList == name with
      | none => .error (.unknownArgument argument)
      | some spec => do
        let values ← settle progress
        match value with
        | some value =>
          let values ← addValue values spec value
          return ⟨values, none⟩
        | none => return ⟨values, some ⟨spec, none⟩⟩
  | .short letter => if letter = 'h' then askHelp progress else .error (.unknownArgument argument)
  | .divider | .plain =>
    match progress.pending with
    | some ⟨spec, none⟩ => .ok { progress with pending := some ⟨spec, some argument⟩ }
    | _ => .error (.unknownArgument argument)

/-- The values of the options of a command. After two dashes nothing may follow. -/
def readOptions (specs : List OptionSpec) : Progress → List String →
    Except UsageFault (List (String × String))
  | progress, [] => settle progress
  | progress, "--" :: rest =>
    match rest with
    | [] => settle progress
    | argument :: _ => .error (.unknownArgument argument)
  | progress, argument :: rest => do
    let progress ← step specs progress argument
    readOptions specs progress rest

def countOf (values : List (String × String)) (name : String) : Option Nat :=
  (values.lookup name).bind fun value => (Word.parseUInt64 value).toOption.map UInt64.toNat

def readGenesis (arguments : List String) : Except UsageFault Command := do
  let values ← readOptions genesisSpecs ⟨[], none⟩ arguments
  return .genesis ⟨values.lookup "config", countOf values "validators", countOf values "accounts",
    values.lookup "chain-id"⟩

def readValidators (arguments : List String) : Except UsageFault Command := do
  let values ← readOptions validatorsSpecs ⟨[], none⟩ arguments
  return .validators ((countOf values "count").getD 1)

def names : List String := ["genesis", "validators", "help"]

/-- Help is there for each command; the commands have no commands of their own. -/
def readHelp : List String → UsageFault
  | [] => .helpWanted
  | name :: rest =>
    if name ∉ names then .unknownCommand name
    else
      match rest with
      | [] => .helpWanted
      | other :: _ => .unknownCommand other

def readDivided : List String → UsageFault
  | [] => .noCommand
  | name :: _ => if name ∈ names then .unknownArgument name else .unknownCommand name

def ofArguments : List String → Except UsageFault Command
  | [] => .error .noCommand
  | "genesis" :: rest => readGenesis rest
  | "validators" :: rest => readValidators rest
  | "help" :: rest => .error (readHelp rest)
  | argument :: rest =>
    match Argument.ofString argument with
    | .divider => .error (readDivided rest)
    | .long name value =>
      if isHelp name then .error (if value.isSome then .valueNotWanted "help" else .helpWanted)
      else .error (.unknownArgument argument)
    | .short letter => .error (if letter = 'h' then .helpWanted else .unknownArgument argument)
    | .plain => .error (.unknownCommand argument)

end Devnet.Command
