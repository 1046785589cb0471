import Devnet.Proofs.Consensus.AppKeys
import Devnet.Proofs.Genesis.Auth
import Devnet.Proofs.Genesis.RoundTrip
import Mathlib

namespace Devnet

theorem Envelope.ofBytes_toBytes {envelope : Envelope} (formed : Formed envelope.fields)
    (tidy : (codec.encode envelope).Tidy Codec.maxDepth) :
    codec.ofBytes (codec.toBytes envelope) = .ok envelope := by
  have settled : ∃ room, Codec.maxDepth = room + 1 ∧ envelope.Settled room :=
    formed.made (a := .written) tidy
  obtain ⟨room, levels, made⟩ := settled
  exact ((exact_codec room).ofBytes_eq_ok (Nat.le_of_eq levels.symm) made .written).mpr ⟨trivial, rfl⟩

inductive MessageKind
  | account
  | ed25519
  | secp256k1
  deriving DecidableEq

namespace MessageKind

abbrev Content : MessageKind → Type
  | .account => Auth.BaseAccount
  | .ed25519 => Bytes
  | .secp256k1 => Bytes

def message : (kind : MessageKind) → Message kind.Content
  | .account => Auth.BaseAccount.message
  | .ed25519 => AppKey.ed25519Message
  | .secp256k1 => AppKey.secp256k1Message

/-- An account has an address of the right length, and no field of the envelope of its key is in the
place of the type URL. Any bytes are a key. -/
def Packable : (kind : MessageKind) → kind.Content → Prop
  | .account, content => content.address.Sized ∧ content.KeyFormed
  | .ed25519, _ => True
  | .secp256k1, _ => True

variable {kind : MessageKind} {content : kind.Content}

theorem typeUrl_ne {other : MessageKind} (different : other ≠ kind) :
    kind.message.typeUrl ≠ other.message.typeUrl := by
  revert different
  cases kind <;> cases other <;> decide

theorem formed_pack (kind : MessageKind) (content : kind.Content) :
    Envelope.Formed (Envelope.pack kind.message content).fields := by
  cases kind with
  | account => exact (Auth.BaseAccount.packs content).formed
  | ed25519 => exact (AppKey.packs _ _ content).formed
  | secp256k1 => exact (AppKey.packs _ _ content).formed

theorem Packable.unpack_eq (packable : kind.Packable content) :
    (Envelope.pack kind.message content).unpack kind.message = .ok content := by
  cases kind with
  | account => exact (Auth.BaseAccount.unpack_pack packable.2).mpr ⟨packable.1, rfl⟩
  | ed25519 => exact AppKey.unpack_message _ _ content
  | secp256k1 => exact AppKey.unpack_message _ _ content

theorem packable_of_unpack {envelope : Envelope}
    (unpacked : envelope.unpack kind.message = .ok content) : kind.Packable content := by
  cases kind with
  | account => exact Auth.BaseAccount.of_decode (Envelope.unpack_eq_ok.mp unpacked).2
  | ed25519 => trivial
  | secp256k1 => trivial

/-- Messages are unpacked as what was packed, through a document too, and as no other kind; what was
unpacked is packed and unpacked again; and a consensus key that the application takes survives the way
through an envelope. -/
theorem unpack_packed :
    (∀ (kind : MessageKind) (content : kind.Content), kind.Packable content →
      (Envelope.pack kind.message content).unpack kind.message = .ok content ∧
      ((Envelope.codec.encode (.pack kind.message content)).Tidy Codec.maxDepth →
        ∃ again, Envelope.codec.ofBytes (Envelope.codec.toBytes (.pack kind.message content)) =
            .ok again ∧ again.unpack kind.message = .ok content) ∧
      ∀ other, other ≠ kind → (Envelope.pack kind.message content).unpack other.message =
        .error (.wrongType kind.message.typeUrl other.message.typeUrl)) ∧
    (∀ (kind : MessageKind) (envelope : Envelope) (content : kind.Content),
      envelope.unpack kind.message = .ok content →
        (Envelope.pack kind.message content).unpack kind.message = .ok content) ∧
    ∀ key made, AppKey.ofPublicKey key = .ok made →
      (AppKey.unpack made.pack).map AppKey.toPublicKey = .ok key := by
  refine ⟨fun kind content packable => ⟨packable.unpack_eq, fun tidy => ?_, fun other different => ?_⟩,
    fun kind envelope content unpacked => (packable_of_unpack unpacked).unpack_eq,
    fun key made converted => ?_⟩
  · exact ⟨_, Envelope.ofBytes_toBytes (formed_pack kind content) tidy, packable.unpack_eq⟩
  · exact if_pos (typeUrl_ne different)
  · rw [AppKey.unpack_pack, ← (PublicKey.convert_eq_ok.mp converted).2]
    rfl

def foreignAccount : Auth.BaseAccount :=
  ⟨⟨List.replicate 20 1⟩, some ⟨"/foreign.Key", [("key", .string "AQ=="), ("meta", .object [])]⟩, 7, 0⟩

def looseKey : Envelope :=
  ⟨AppKey.ed25519Message.typeUrl, [("note", .null), ("key", .string "AQ==")]⟩

def compressedKey : PublicKey := ⟨.secp256k1, List.replicate 33 2⟩

theorem keyFormed_foreignAccount : foreignAccount.KeyFormed := by
  rintro _ ⟨⟩
  exact {
    ascending := List.pairwise_pair.mpr (by decide)
    apart := by decide
    normal := by simp [Json.normal, Json.normalMembers, Table.ofEntries] }

theorem tidy_foreignAccount : (Envelope.codec.encode
    (.pack Auth.BaseAccount.message foreignAccount)).Tidy Codec.maxDepth := by
  have settled : (Envelope.pack Auth.BaseAccount.message foreignAccount).Settled 2 := by
    apply foreignAccount.packs.settled
    simp only [Auth.BaseAccount.members, List.forall_mem_cons]
    refine ⟨.string 2 _, .object ?_, .string 2 _, .string 2 _, List.forall_mem_nil _⟩
    simp only [List.forall_mem_cons]
    exact ⟨.string 1 _, .string 1 _, .object (List.forall_mem_nil _), List.forall_mem_nil _⟩
  exact ((Envelope.exact_codec 2).tidy _ settled).mono (by decide)

theorem unpack_packed_foreignAccount :
    Packable .account foreignAccount ∧
      (∃ again, Envelope.codec.ofBytes (Envelope.codec.toBytes
          (.pack Auth.BaseAccount.message foreignAccount)) = .ok again ∧
        again.unpack Auth.BaseAccount.message = .ok foreignAccount) ∧
      (Envelope.pack Auth.BaseAccount.message foreignAccount).unpack AppKey.ed25519Message =
        .error (.wrongType "/cosmos.auth.v1beta1.BaseAccount" "/cosmos.crypto.ed25519.PubKey") ∧
      looseKey.unpack AppKey.ed25519Message = .ok [1] ∧
      (Envelope.pack AppKey.ed25519Message [1]).unpack AppKey.ed25519Message = .ok [1] ∧
      AppKey.ofPublicKey compressedKey = .ok (.secp256k1 compressedKey.bytes) ∧
      (AppKey.unpack (AppKey.secp256k1 compressedKey.bytes).pack).map AppKey.toPublicKey =
        .ok compressedKey := by
  have packable : Packable .account foreignAccount := ⟨by decide, keyFormed_foreignAccount⟩
  have loose : looseKey.unpack AppKey.ed25519Message = .ok [1] := by decide +kernel
  have converted : AppKey.ofPublicKey compressedKey = .ok (.secp256k1 compressedKey.bytes) := by decide
  obtain ⟨packed, unpacked, keys⟩ := unpack_packed
  obtain ⟨-, throughDocument, others⟩ := packed .account foreignAccount packable
  exact ⟨packable, throughDocument tidy_foreignAccount, others .ed25519 (by decide), loose,
    unpacked .ed25519 looseKey [1] loose, converted, keys _ _ converted⟩

end MessageKind
end Devnet
