import Devnet.Text.Utf8
import Devnet.Text.Blank
import Devnet.Text.Hex
import Devnet.Text.Base64
import Devnet.Number.Decimal
import Devnet.Number.Word
import Devnet.Number.Binary64
import Devnet.Json.Printer
import Devnet.Json.Reader
import Devnet.Fault.Kind
import Devnet.Crypto.Sha256
import Devnet.Crypto.Ripemd160
import Devnet.Crypto.Ed25519
import Devnet.Crypto.KeyPair
import Devnet.Address.Basic
import Devnet.Json.Envelope
import Devnet.Coin.Coins
import Devnet.Consensus.Signer
import Devnet.Application.Basic
import Devnet.Network.FileTree
import Devnet.Main
import Devnet.Proofs.Table.Ascending
import Devnet.Proofs.Text.Utf8
import Devnet.Proofs.Store.Record
import Devnet.Proofs.Store.Export
import Devnet.Proofs.Application.Verdict
import Devnet.Proofs.Genesis.Updates
import Devnet.Proofs.Json.Members
import Devnet.Proofs.Application.Runs
import Devnet.Proofs.Genesis.Seen
import Devnet.Proofs.Genesis.Bank
import Devnet.Proofs.Application.Pools
import Devnet.Proofs.Application.Backing
import Devnet.Proofs.Application.Registered
import Devnet.Proofs.Application.Replay
import Devnet.Proofs.Json.Strings
import Devnet.Proofs.Number.Digits
import Devnet.Proofs.Number.Texts
import Devnet.Proofs.Json.Numbers
import Devnet.Proofs.Json.Normal
import Devnet.Proofs.Json.Reading
import Devnet.Proofs.Json.Exact
import Devnet.Proofs.Json.Records
import Devnet.Proofs.Address.Checksum
import Devnet.Proofs.Address.Symbols
import Devnet.Proofs.Address.Spellings
import Devnet.Proofs.Text.Base64
import Devnet.Proofs.Address.Texts
import Devnet.Proofs.Json.Envelopes
import Devnet.Proofs.Genesis.Documents
import Devnet.Proofs.Genesis.RoundTrip
import Devnet.Proofs.Crypto.Lengths
import Devnet.Proofs.Coin.Single
import Devnet.Proofs.Genesis.Auth
import Devnet.Proofs.Genesis.Staking
import Devnet.Proofs.Consensus.AppKeys
import Devnet.Proofs.Genesis.Registry
import Devnet.Proofs.Network.Founders
import Devnet.Proofs.Genesis.Overrides
import Devnet.Proofs.Network.Founding
import Devnet.Proofs.Network.Build
import Devnet.Proofs.Text.Hex
import Devnet.Proofs.Network.Views
import Devnet.Proofs.Application.Validators
import Devnet.Proofs.Application.Requests
import Devnet.Proofs.Consensus.Sorted
import Devnet.Proofs.Application.Expected
import Devnet.Proofs.Json.Values
import Devnet.Proofs.Genesis.NormalForm
import Devnet.Proofs.Genesis.Contents
import Devnet.Proofs.Number.Rounding
import Devnet.Proofs.Number.Scientific
import Devnet.Proofs.Number.Shortest
import Devnet.Proofs.Table.Matches
import Devnet.Proofs.Json.Doubles
import Devnet.Proofs.Genesis.Passage
import Devnet.Proofs.Coin.Totals
import Devnet.Proofs.Genesis.Reordered
import Devnet.Proofs.Json.Shuffles
import Devnet.Proofs.Json.Twins
import Devnet.Proofs.Application.Order
import Devnet.Proofs.Coin.Algebra
import Devnet.Proofs.Application.Conversion
import Devnet.Proofs.Genesis.Holders
import Devnet.Proofs.Genesis.Additions
import Devnet.Proofs.Application.Defaults
import Devnet.Proofs.Text.Ascii
import Devnet.Proofs.Genesis.Spelled
import Devnet.Proofs.Genesis.Supply
import Devnet.Proofs.Genesis.Evm
import Devnet.Proofs.Application.Operators
import Devnet.Proofs.Number.Literals
import Devnet.Proofs.Network.Counterparts
import Devnet.Proofs.Genesis.Nesting
import Devnet.Proofs.Genesis.Placements
import Devnet.Proofs.Consensus.Powers
import Devnet.Proofs.Genesis.Messages
import Devnet.Proofs.Consensus.Members
import Devnet.Proofs.Genesis.Forks
import Devnet.Proofs.Application.Documents
import Devnet.Proofs.Application.Contracts
import Devnet.Proofs.Coin.Rounds
import Devnet.Proofs.Coin.Lists
import Devnet.Proofs.Network.Signers
import Devnet.Proofs.Genesis.Power
import Devnet.Proofs.Number.Spellings
import Devnet.Proofs.Text.Pieces
import Devnet.Proofs.Json.Occurrences
import Devnet.Proofs.Consensus.KeyTexts
