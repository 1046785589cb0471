import Devnet.Proofs.Genesis.Messages
import Devnet.Proofs.Json.Occurrences
import Devnet.Proofs.Text.Pieces
import Mathlib

/-! Keys as they are written: a tag and a text for the bytes, which stand in an object or an array, or
the text alone in an envelope. A key comes back from its own document. The text of any document that is
read as a key is the one that is written for the key if it has padding at its end only. -/

namespace Devnet

theorem KeyScheme.lookUpName_eq_ok {name : String} {scheme : KeyScheme} :
    Codec.lookUpName tags name = .ok scheme ↔ name = scheme.tag := by
  constructor
  · intro read
    unfold Codec.lookUpName at read
    split at read
    · rename_i found known
      cases read
      obtain ⟨before, after, split, -⟩ := List.lookup_eq_some_iff.mp known
      have member : (name, scheme) ∈ tags := by
        rw [split]
        exact List.mem_append_right _ List.mem_cons_self
      obtain ⟨other, -, same⟩ := List.mem_map.mp member
      cases same
      rfl
    · cases read
  · rintro rfl
    cases scheme <;> rfl

namespace PublicKey

open RawJson

variable {room : Nat} {key : PublicKey} {seen after : Progress} {raw : RawJson}
  {tags values : List RawJson}

/-- What is still to come, of tags and of values, when something of a key has been read. -/
inductive Progress.Leaves (room : Nat) (key : PublicKey) :
    Progress → (tags values : List RawJson) → Prop
  | nothing {tag value : RawJson} (scheme : Codec.decodeName KeyScheme.tags room tag = .ok key.scheme)
      (bytes : Codec.base64.decode room value = .ok key.bytes) :
      Leaves room key .nothing [tag] [value]
  | tag {value : RawJson} (bytes : Codec.base64.decode room value = .ok key.bytes) :
      Leaves room key (.tag key.scheme) [] [value]
  | value {tag value : RawJson} (scheme : Codec.decodeName KeyScheme.tags room tag = .ok key.scheme)
      (bytes : Codec.base64.decode room value = .ok key.bytes) :
      Leaves room key (.value value) [tag] []
  | both : Leaves room key (.both key) [] []

theorem leaves_readTag (read : readTag room raw seen = .ok after)
    (leaves : after.Leaves room key tags values) : seen.Leaves room key (raw :: tags) values := by
  cases seen with
  | nothing =>
      obtain ⟨scheme, tag, rfl⟩ := map_eq_ok.mp read
      cases leaves with
      | tag bytes => exact .nothing tag bytes
  | value written =>
      simp only [readTag, bind_eq_ok, pure_eq_ok] at read
      obtain ⟨scheme, tag, found, bytes, rfl⟩ := read
      cases leaves with
      | both => exact .value tag bytes
  | tag scheme => cases read
  | both found => cases read

theorem leaves_readBytes (read : readBytes room raw seen = .ok after)
    (leaves : after.Leaves room key tags values) : seen.Leaves room key tags (raw :: values) := by
  cases seen with
  | nothing =>
      obtain ⟨json, -, rfl⟩ := map_eq_ok.mp read
      cases leaves with
      | value tag bytes => exact .nothing tag bytes
  | tag scheme =>
      obtain ⟨found, bytes, rfl⟩ := map_eq_ok.mp read
      cases leaves with
      | both => exact .tag bytes
  | value written => cases read
  | both found => cases read

theorem leaves_decodeMembers {members : List (Option String × RawJson)}
    (read : decodeMembers room seen members = .ok key) :
    seen.Leaves room key (under tagKey members) (under valueKey members) := by
  induction members generalizing seen with
  | nil =>
      rw [decodeMembers] at read
      cases seen <;> cases read
      exact .both
  | cons member members ih =>
      obtain ⟨name, raw⟩ := member
      cases name with
      | none => cases read
      | some name =>
          have different : tagKey ≠ valueKey := by decide
          rw [decodeMembers] at read
          split at read
          · rename_i same
            subst same
            obtain ⟨after, first, others⟩ := bind_eq_ok.mp read
            rw [under_cons_self, under_cons_of_ne different]
            exact leaves_readTag first (ih others)
          · rename_i noTag
            split at read
            · rename_i same
              subst same
              obtain ⟨after, first, others⟩ := bind_eq_ok.mp read
              rw [under_cons_of_ne noTag, under_cons_self]
              exact leaves_readBytes first (ih others)
            · rename_i noValue
              split at read
              · rw [under_cons_of_ne noTag, under_cons_of_ne noValue]
                exact ih read
              · cases read

/-- A tag and a text where a document has those of a key: under their keys in an object, or as the items
of an array. -/
inductive Written (tag text : String) : RawJson → Prop
  | object {members : List (Option String × RawJson)} {raw : RawJson}
      (tagged : (some tagKey, raw) ∈ members) (names : raw.Names tag)
      (valued : (some valueKey, .string (some text)) ∈ members) : Written tag text (.object members)
  | array : Written tag text (.array [.string (some tag), .string (some text)])

theorem scheme_of_decodeName {tag : RawJson} {scheme : KeyScheme}
    (read : Codec.decodeName KeyScheme.tags room tag = .ok scheme) : tag.Names scheme.tag := by
  obtain ⟨name, names, known⟩ := Codec.exists_names_of_decodeName read
  exact KeyScheme.lookUpName_eq_ok.mp known ▸ names

theorem exists_under {members : List (Option String × RawJson)}
    (read : decodeMembers room .nothing members = .ok key) : ∃ tag value,
      under tagKey members = [tag] ∧ under valueKey members = [value] ∧
      Codec.decodeName KeyScheme.tags room tag = .ok key.scheme ∧
      Codec.base64.decode room value = .ok key.bytes := by
  have leaves := leaves_decodeMembers read
  revert leaves
  generalize under tagKey members = tags
  generalize under valueKey members = values
  intro leaves
  cases leaves with
  | nothing scheme bytes => exact ⟨_, _, rfl, rfl, scheme, bytes⟩

theorem written_iff_of_decodeMembers {members : List (Option String × RawJson)}
    (read : decodeMembers room .nothing members = .ok key) :
    ∃ text, Base64.decode text = some key.bytes ∧
      ∀ tag other, Written tag other (.object members) ↔ tag = key.scheme.tag ∧ other = text := by
  obtain ⟨raw, value, oneTag, oneValue, scheme, bytes⟩ := exists_under read
  obtain ⟨text, rfl, decoded⟩ := Codec.base64_eq_ok.mp bytes
  have names := scheme_of_decodeName scheme
  refine ⟨text, decoded, fun tag other => ⟨fun written => ?_, ?_⟩⟩
  · cases written with
    | object tagged names' valued =>
        rw [← mem_under, oneTag, List.mem_singleton] at tagged
        rw [← mem_under, oneValue, List.mem_singleton] at valued
        subst tagged
        cases valued
        exact ⟨names.unique names', rfl⟩
  · rintro ⟨rfl, rfl⟩
    refine .object (mem_under.mp ?_) names (mem_under.mp ?_)
    · rw [oneTag]
      exact List.mem_singleton_self raw
    · rw [oneValue]
      exact List.mem_singleton_self _

theorem items_of_decodeItems {items : List RawJson} (read : decodeItems room items = .ok key) :
    ∃ text, Base64.decode text = some key.bytes ∧
      items = [.string (some key.scheme.tag), .string (some text)] := by
  cases items with
  | nil => cases read
  | cons tag items =>
      obtain ⟨scheme, known, rest⟩ := bind_eq_ok.mp read
      cases items with
      | nil => exact absurd rest throw_ne_ok
      | cons value others =>
          obtain ⟨bytes, found, finished⟩ := bind_eq_ok.mp rest
          obtain ⟨text, rfl, decoded⟩ := Codec.base64_eq_ok.mp found
          split at finished
          · rename_i nothing
            cases finished
            unfold Codec.decodeVariant at known
            split at known
            · rw [KeyScheme.lookUpName_eq_ok.mp known, List.isEmpty_iff.mp nothing]
              exact ⟨text, decoded, rfl⟩
            · cases known
          · exact absurd finished throw_ne_ok

theorem written_iff_of_decode (read : codec.decode room raw = .ok key) :
    ∃ text, Base64.decode text = some key.bytes ∧
      ∀ tag other, Written tag other raw ↔ tag = key.scheme.tag ∧ other = text := by
  simp only [codec] at read
  split at read
  · cases read
  · exact written_iff_of_decodeMembers read
  · cases read
  · obtain ⟨text, decoded, rfl⟩ := items_of_decodeItems read
    refine ⟨text, decoded, fun tag other => ⟨fun written => ?_, ?_⟩⟩
    · cases written
      exact ⟨rfl, rfl⟩
    · rintro ⟨rfl, rfl⟩
      exact .array
  · cases read

structure Shows (document : RawJson.Document) (tag text : String) (key : PublicKey) : Prop where
  read : codec.ofDocument document = .ok key
  written : Written tag text document.body

theorem Shows.spells {document : RawJson.Document} {tag text : String}
    (shows : Shows document tag text key) :
    tag = key.scheme.tag ∧ Base64.decode text = some key.bytes := by
  obtain ⟨other, decoded, only⟩ := written_iff_of_decode (Codec.ofDocument_eq_ok.mp shows.read).1
  obtain ⟨rfl, rfl⟩ := (only tag text).mp shows.written
  exact ⟨rfl, decoded⟩

end PublicKey

namespace AppKey

open RawJson

variable {envelope : Envelope} {key : AppKey} {bytes : Bytes} {url name : String}

def bytesKey : String := "key"

theorem exists_text_of_message (unpacked : envelope.unpack ⟨url, keyCodec name⟩ = .ok bytes) :
    ∃ text, Base64.decode text = some bytes ∧
      ∀ json, (bytesKey, json) ∈ envelope.fields ↔ json = .string text := by
  have read := (Envelope.unpack_eq_ok.mp unpacked).2
  obtain ⟨room, deep⟩ := exists_depth_object
    (envelope.fields.map fun field => (some field.1, ofJson field.2))
  rw [Codec.ofJson, ofJson_object, deep] at read
  obtain ⟨⟨found, ⟨⟩⟩, record, rfl⟩ := map_eq_ok.mp read
  obtain ⟨raw, one, decoded⟩ := Fields.under_of_decode rfl record
  obtain ⟨text, rfl, spelled⟩ := Codec.base64_eq_ok.mp decoded
  exact ⟨text, spelled, fun json => mem_iff_of_under json one⟩

theorem exists_text_of_unpack (unpacked : unpack envelope = .ok key) :
    ∃ text, Base64.decode text = some key.toPublicKey.bytes ∧
      (∀ json, (bytesKey, json) ∈ envelope.fields ↔ json = .string text) ∧
      key.pack = ⟨envelope.typeUrl,
        [(bytesKey, .string (Base64.encode key.toPublicKey.bytes))]⟩ := by
  have url := typeUrl_pack_of_unpack unpacked
  unfold unpack at unpacked
  split at unpacked
  · obtain ⟨bytes, message, rfl⟩ := map_eq_ok.mp (mapError_eq_ok.mp unpacked)
    obtain ⟨text, decoded, only⟩ := exists_text_of_message message
    exact ⟨text, decoded, only, url ▸ rfl⟩
  · split at unpacked
    · obtain ⟨bytes, message, rfl⟩ := map_eq_ok.mp (mapError_eq_ok.mp unpacked)
      obtain ⟨text, decoded, only⟩ := exists_text_of_message message
      exact ⟨text, decoded, only, url ▸ rfl⟩
    · cases unpacked

structure Shows (envelope : Envelope) (text : String) (key : AppKey) : Prop where
  unpacked : unpack envelope = .ok key
  held : (bytesKey, .string text) ∈ envelope.fields

theorem Shows.spells {text : String} (shows : Shows envelope text key) :
    Base64.decode text = some key.toPublicKey.bytes ∧
      key.pack = ⟨envelope.typeUrl,
        [(bytesKey, .string (Base64.encode key.toPublicKey.bytes))]⟩ := by
  obtain ⟨other, decoded, only, packed⟩ := exists_text_of_unpack shows.unpacked
  cases (only _).mp shows.held
  exact ⟨decoded, packed⟩

theorem exists_envelope (key : AppKey) : ∃ envelope,
    Envelope.codec.ofBytes (Envelope.codec.toBytes key.pack) = .ok envelope ∧
      unpack envelope = .ok key := by
  have settled := key.settled_pack
  have tidy := ((Envelope.exact_codec 0).tidy key.pack settled).mono (show 1 ≤ Codec.maxDepth by decide)
  exact ⟨key.pack, Envelope.ofBytes_toBytes settled.toFormed tidy, key.unpack_pack⟩

end AppKey

namespace PublicKey

def document (tag text : String) : RawJson.Document :=
  .ofBytes (Codec.json.toBytes (.object [(tagKey, .string tag), (valueKey, .string text)]))

theorem shows_document (scheme : KeyScheme) {text : String} {bytes : Bytes}
    (decoded : Base64.decode text = some bytes) :
    Shows (document scheme.tag text) scheme.tag text ⟨scheme, bytes⟩ := by
  have tidy : (Json.object [(tagKey, .string scheme.tag), (valueKey, .string text)]).Tidy 1 := by
    apply Json.Within.object
    simp only [List.forall_mem_cons]
    exact ⟨.string 0 _, .string 0 _, List.forall_mem_nil _⟩
  have body : document scheme.tag text =
      ⟨.object [(some tagKey, .string (some scheme.tag)), (some valueKey, .string (some text))],
        true⟩ := RawJson.ofBytes_encode tidy
  rw [body]
  have tag : Codec.decodeName KeyScheme.tags 126 (.string (some scheme.tag)) = .ok scheme :=
    KeyScheme.lookUpName_eq_ok.mpr rfl
  have value : Codec.base64.decode 126 (.string (some text)) = .ok bytes :=
    Codec.base64_eq_ok.mpr ⟨text, rfl, decoded⟩
  refine ⟨Codec.ofDocument_eq_ok.mpr ⟨?_, rfl⟩, .object List.mem_cons_self .text
    (List.mem_cons_of_mem _ List.mem_cons_self)⟩
  change decodeMembers 126 .nothing _ = _
  rw [decodeMembers, if_pos rfl, readTag, tag]
  change decodeMembers 126 (.tag scheme) _ = _
  rw [decodeMembers, if_neg (by decide), if_pos rfl, readBytes, value]
  rfl

theorem ofBytes_toBytes (key : PublicKey) : codec.ofBytes (codec.toBytes key) = .ok key :=
  (shows_document key.scheme (Base64.decode_encode key.bytes)).read

/-- A key comes back from its own document, and from the document of the envelope that it is packed in.
Any document that is read as a key has one tag and one text; the key is written under the same tag, and
with the same text exactly if that has padding at its end only. Otherwise the text is made of several
ones. So two texts with padding at their ends only never stand for the same key. All of this holds of
the text in an envelope too. -/
theorem kept_texts :
    (∀ key, codec.ofBytes (codec.toBytes key) = .ok key) ∧
    (∀ document key, codec.ofDocument document = .ok key → ∃ tag text, ∀ tag' text',
      Written tag' text' document.body ↔ tag' = tag ∧ text' = text) ∧
    (∀ document tag text key, Shows document tag text key → ∃ again,
      codec.encode key = .object [(tagKey, .string tag), (valueKey, .string again)] ∧
        Base64.Respelled text again key.bytes) ∧
    (∀ document document' tag tag' text text' key, Shows document tag text key →
      Shows document' tag' text' key → Base64.PadsLast text.toList → Base64.PadsLast text'.toList →
        text' = text) ∧
    (∀ key : AppKey, ∃ envelope, Envelope.codec.ofBytes (Envelope.codec.toBytes key.pack) =
      .ok envelope ∧ AppKey.unpack envelope = .ok key) ∧
    (∀ envelope key, AppKey.unpack envelope = .ok key → ∃ text, ∀ json,
      (AppKey.bytesKey, json) ∈ envelope.fields ↔ json = .string text) ∧
    (∀ document envelope text, Envelope.codec.ofDocument document = .ok envelope →
      ((AppKey.bytesKey, .string text) ∈ envelope.fields ↔
        document.body.HasText AppKey.bytesKey text)) ∧
    (∀ envelope text key, AppKey.Shows envelope text key → ∃ again,
      key.pack = ⟨envelope.typeUrl, [(AppKey.bytesKey, .string again)]⟩ ∧
        Base64.Respelled text again key.toPublicKey.bytes) ∧
    ∀ envelope envelope' text text' key, AppKey.Shows envelope text key →
      AppKey.Shows envelope' text' key → Base64.PadsLast text.toList →
        Base64.PadsLast text'.toList → text' = text := by
  refine ⟨ofBytes_toBytes, fun document key read => ?_, fun document tag text key shows => ?_,
    fun _ _ _ _ _ _ key shows shows' last last' => ?_, AppKey.exists_envelope,
    fun envelope key unpacked => ?_, fun document envelope text read => ?_,
    fun envelope text key shows => ?_, fun _ _ _ _ key shows shows' last last' => ?_⟩
  · obtain ⟨text, -, only⟩ := written_iff_of_decode (Codec.ofDocument_eq_ok.mp read).1
    exact ⟨key.scheme.tag, text, only⟩
  · obtain ⟨rfl, decoded⟩ := shows.spells
    exact ⟨Base64.encode key.bytes, rfl, Base64.respelled_of_decode decoded⟩
  · exact Base64.eq_of_padsLast shows'.spells.2 shows.spells.2 last' last
  · obtain ⟨text, -, only, -⟩ := AppKey.exists_text_of_unpack unpacked
    exact ⟨text, only⟩
  · have apart : Envelope.urlKey ≠ AppKey.bytesKey := by decide
    exact Envelope.mem_fields_iff_of_decode apart (Codec.ofDocument_eq_ok.mp read).1
  · obtain ⟨decoded, packed⟩ := shows.spells
    exact ⟨_, packed, Base64.respelled_of_decode decoded⟩
  · exact Base64.eq_of_padsLast shows'.spells.1 shows.spells.1 last' last

/-- Two bytes, each padded by itself, are a key that is written with one padding. -/
theorem not_kept_paddedTwice :
    Shows (document "tendermint/PubKeyEd25519" "AQ==AQ==") "tendermint/PubKeyEd25519" "AQ==AQ=="
        ⟨.ed25519, [1, 1]⟩ ∧
      Shows (document "tendermint/PubKeyEd25519" "AQE=") "tendermint/PubKeyEd25519" "AQE="
        ⟨.ed25519, [1, 1]⟩ ∧
      codec.encode ⟨.ed25519, [1, 1]⟩ =
        .object [(tagKey, .string "tendermint/PubKeyEd25519"), (valueKey, .string "AQE=")] ∧
      "AQE=" ≠ "AQ==AQ==" := by
  have twice : Base64.decode "AQ==AQ==" = some [1, 1] := by decide +kernel
  have once : Base64.decode "AQE=" = some [1, 1] := by decide +kernel
  exact ⟨shows_document .ed25519 twice, shows_document .ed25519 once, rfl, by decide⟩

def looseDocument : RawJson.Document :=
  .ofBytes (Codec.json.toBytes (.object [(valueKey, .string "AQ==AQ=="), ("note", .null),
    (tagKey, .object [("tendermint/PubKeySecp256k1", .null)])]))

def shortDocument : RawJson.Document :=
  .ofBytes (Codec.json.toBytes
    (.array [.string "tendermint/PubKeySecp256k1", .string "AQE="]))

theorem shows_looseDocument :
    Shows looseDocument "tendermint/PubKeySecp256k1" "AQ==AQ==" ⟨.secp256k1, [1, 1]⟩ := by
  have tidy : (Json.object [(valueKey, .string "AQ==AQ=="), ("note", .null),
      (tagKey, .object [("tendermint/PubKeySecp256k1", .null)])]).Tidy 2 := by
    apply Json.Within.object
    simp only [List.forall_mem_cons]
    refine ⟨.string 1 _, .null 1, .object ?_, List.forall_mem_nil _⟩
    exact List.forall_mem_singleton.mpr (.null 0)
  have body : looseDocument = ⟨.object [(some valueKey, .string (some "AQ==AQ==")),
      (some "note", .null), (some tagKey, .object [(some "tendermint/PubKeySecp256k1", .null)])],
        true⟩ := RawJson.ofBytes_encode tidy
  rw [body]
  refine ⟨by decide +kernel, .object ?_ .key List.mem_cons_self⟩
  exact List.mem_cons_of_mem _ (List.mem_cons_of_mem _ List.mem_cons_self)

theorem shows_shortDocument :
    Shows shortDocument "tendermint/PubKeySecp256k1" "AQE=" ⟨.secp256k1, [1, 1]⟩ := by
  have tidy : (Json.array [.string "tendermint/PubKeySecp256k1", .string "AQE="]).Tidy 1 := by
    apply Json.Within.array
    simp only [List.forall_mem_cons]
    exact ⟨.string 0 _, .string 0 _, List.forall_mem_nil _⟩
  have body : shortDocument = ⟨.array [.string (some "tendermint/PubKeySecp256k1"),
      .string (some "AQE=")], true⟩ := RawJson.ofBytes_encode tidy
  rw [body]
  exact ⟨by decide +kernel, .array⟩

theorem kept_texts_looseDocument :
    Shows looseDocument "tendermint/PubKeySecp256k1" "AQ==AQ==" ⟨.secp256k1, [1, 1]⟩ ∧
      (∃ tag text, ∀ tag' text', Written tag' text' looseDocument.body ↔ tag' = tag ∧ text' = text) ∧
      (∃ again, codec.encode ⟨.secp256k1, [1, 1]⟩ = .object
          [(tagKey, .string "tendermint/PubKeySecp256k1"), (valueKey, .string again)] ∧
        Base64.Respelled "AQ==AQ==" again [1, 1]) ∧
      Shows shortDocument "tendermint/PubKeySecp256k1" "AQE=" ⟨.secp256k1, [1, 1]⟩ ∧
      Base64.encode [1, 1] = "AQE=" ∧
      AppKey.Shows MessageKind.looseKey "AQ==" (.ed25519 [1]) ∧
      (∃ text, ∀ json, (AppKey.bytesKey, json) ∈ MessageKind.looseKey.fields ↔ json = .string text) ∧
      (∃ again, (AppKey.ed25519 [1]).pack =
          ⟨MessageKind.looseKey.typeUrl, [(AppKey.bytesKey, .string again)]⟩ ∧
        Base64.Respelled "AQ==" again [1]) ∧
      Base64.encode [1] = "AQ==" ∧
      ∃ envelope : Envelope, ((AppKey.bytesKey, .string "AQ==") ∈ envelope.fields ↔
        (RawJson.Document.ofBytes (Envelope.codec.toBytes (AppKey.ed25519 [1]).pack)).body.HasText
          AppKey.bytesKey "AQ==") := by
  obtain ⟨-, one, rewritten, single, comesBack, oneField, stands, repacked, singleField⟩ := kept_texts
  have loose := shows_looseDocument
  have short := shows_shortDocument
  have plain := shows_document .secp256k1 (Base64.decode_encode [1, 1])
  have unpacked : AppKey.unpack MessageKind.looseKey = .ok (.ed25519 [1]) := by
    have message : MessageKind.looseKey.unpack AppKey.ed25519Message = .ok [1] := by decide +kernel
    have url : MessageKind.looseKey.typeUrl = AppKey.ed25519Message.typeUrl := rfl
    rw [AppKey.unpack, if_pos url, message]
    rfl
  have held : AppKey.Shows MessageKind.looseKey "AQ==" (.ed25519 [1]) :=
    ⟨unpacked, List.mem_cons_of_mem _ List.mem_cons_self⟩
  have packed : AppKey.Shows (AppKey.ed25519 [1]).pack (Base64.encode [1]) (.ed25519 [1]) :=
    ⟨AppKey.unpack_pack _, List.mem_cons_self⟩
  obtain ⟨envelope, read, -⟩ := comesBack (.ed25519 [1])
  exact ⟨loose, one _ _ loose.read, rewritten _ _ _ _ loose, short,
    single _ _ _ _ _ _ _ short plain (by decide) (by decide +kernel), held, oneField _ _ unpacked,
    repacked _ _ _ held, singleField _ _ _ _ _ held packed (by decide) (by decide +kernel),
    envelope, stands _ envelope "AQ==" read⟩

end PublicKey
end Devnet
