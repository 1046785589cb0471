import Devnet.Fault.Basic
import Devnet.Genesis.Seen

namespace Devnet.Auth

def moduleName : String := "auth"

structure Params where
  maxMemoCharacters : UInt64
  txSigLimit : UInt64
  txSizeCostPerByte : UInt64
  sigVerifyCostEd25519 : UInt64
  sigVerifyCostSecp256k1 : UInt64
  deriving DecidableEq, Repr

namespace Params

def standard : Params := ⟨256, 7, 10, 590, 1000⟩

def values (params : Params) : List (String × UInt64) :=
  [("max memo characters", params.maxMemoCharacters),
   ("tx sig limit", params.txSigLimit),
   ("tx size cost per byte", params.txSizeCostPerByte),
   ("ed25519 verification cost", params.sigVerifyCostEd25519),
   ("secp256k1 verification cost", params.sigVerifyCostSecp256k1)]

def validate (params : Params) : Except Fault Unit :=
  match params.values.find? fun entry => entry.2 == 0 with
  | some (name, _) => .error (.ofAuth (.zeroParameter name))
  | none => .ok ()

def codec : Codec Params :=
  .record "Params"
    (.cons "max_memo_characters" .uint64Text <| .cons "tx_sig_limit" .uint64Text <|
      .cons "tx_size_cost_per_byte" .uint64Text <| .cons "sig_verify_cost_ed25519" .uint64Text <|
      .cons "sig_verify_cost_secp256k1" .uint64Text .nil)
    (fun p => (p.maxMemoCharacters, p.txSigLimit, p.txSizeCostPerByte, p.sigVerifyCostEd25519,
      p.sigVerifyCostSecp256k1, ()))
    fun (memo, sigs, size, ed25519, secp256k1, ()) => ⟨memo, sigs, size, ed25519, secp256k1⟩

end Params

structure BaseAccount where
  address : AccountAddress
  publicKey : Option Envelope
  accountNumber : UInt64
  sequence : UInt64
  deriving Repr

namespace BaseAccount

def ofAddress (address : AccountAddress) : BaseAccount := ⟨address, none, 0, 0⟩

def codec : Codec BaseAccount :=
  .record "BaseAccount"
    (.cons "address" (.address .account) <| .cons "pub_key" (.option Envelope.codec) <|
      .cons "account_number" .uint64Text <| .cons "sequence" .uint64Text .nil)
    (fun a => (a.address, a.publicKey, a.accountNumber, a.sequence, ()))
    fun (address, publicKey, accountNumber, sequence, ()) => ⟨address, publicKey, accountNumber, sequence⟩

def message : Message BaseAccount := ⟨"/cosmos.auth.v1beta1.BaseAccount", codec⟩

end BaseAccount

structure Section where
  params : Params
  accounts : List Envelope
  deriving Repr

namespace Section

def standard : Section := ⟨.standard, []⟩

def ofAccounts (params : Params) (accounts : List BaseAccount) : Section :=
  ⟨params, accounts.map (.pack BaseAccount.message)⟩

def baseAccounts (s : Section) : Except Fault (List BaseAccount) :=
  s.accounts.mapM fun envelope => (envelope.unpack BaseAccount.message).mapError .envelope

def checkAccount (seen : List AccountAddress) (account : BaseAccount) :
    Except Fault (List AccountAddress) :=
  Seen.add seen account.address (.ofAuth (.duplicateAccount account.address.render))

def validate (s : Section) : Except Fault Unit := do
  s.params.validate
  let accounts ← s.baseAccounts
  discard <| accounts.foldlM checkAccount []

def codec : Codec Section :=
  .record "GenesisState" (.cons "params" Params.codec <| .cons "accounts" (.list Envelope.codec) .nil)
    (fun s => (s.params, s.accounts, ())) fun (params, accounts, ()) => ⟨params, accounts⟩

end Section
end Devnet.Auth
