import Devnet.Genesis.Auth
import Devnet.Genesis.Bank
import Devnet.Genesis.Evm
import Devnet.Genesis.Inflation
import Devnet.Genesis.Staking

namespace Devnet

inductive Module
  | auth
  | bank
  | staking
  | inflation
  | evm
  deriving DecidableEq, Repr

namespace Module

def all : List Module := [.auth, .bank, .staking, .inflation, .evm]

def name : Module → String
  | .auth => Auth.moduleName
  | .bank => Bank.moduleName
  | .staking => Staking.moduleName
  | .inflation => Inflation.moduleName
  | .evm => Evm.moduleName

def ofName? (name : String) : Option Module := all.find? fun m => m.name == name

abbrev Content : Module → Type
  | .auth => Auth.Section
  | .bank => Bank.Section
  | .staking => Staking.Section
  | .inflation => Inflation.Section
  | .evm => Evm.Section

def codec : (m : Module) → Codec m.Content
  | .auth => Auth.Section.codec
  | .bank => Bank.Section.codec
  | .staking => Staking.Section.codec
  | .inflation => Inflation.Section.codec
  | .evm => Evm.Section.codec

def standard : (m : Module) → m.Content
  | .auth => Auth.Section.standard
  | .bank => Bank.Section.standard
  | .staking => Staking.Section.standard
  | .inflation => Inflation.Section.standard
  | .evm => Evm.Section.standard

def validate : (m : Module) → m.Content → Except Fault Unit
  | .auth => Auth.Section.validate
  | .bank => Bank.Section.validate
  | .staking => Staking.Section.validate
  | .inflation => Inflation.Section.validate
  | .evm => Evm.Section.validate

end Module

structure ModuleSection where
  module : Module
  content : module.Content

namespace ModuleSection

def moduleName (s : ModuleSection) : String := s.module.name

def typeName (s : ModuleSection) : String := s!"{s.module.name}::GenesisState"

end ModuleSection
end Devnet
