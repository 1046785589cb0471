import Devnet.Json.Envelope
import Devnet.Proofs.Json.Records
import Mathlib

namespace Devnet

namespace Envelope

/-- Fields as every document gives them: sorted, each a normal form, and none in the place of the type
URL. -/
structure Formed (fields : Table String Json) : Prop where
  ascending : fields.Ascending
  apart : urlKey ∉ fields.map Prod.fst
  normal : ∀ field ∈ fields, field.2.normal = field.2

structure Made (good : JsonNumber → Prop) (depth : Nat) (envelope : Envelope) : Prop extends
    Formed envelope.fields where
  within : ∀ field ∈ envelope.fields, field.2.Within good depth

abbrev Settled : Nat → Envelope → Prop := Made JsonNumber.Whole

theorem decodeMembers_field {good : JsonNumber → Prop} {room : Nat} {url : Option String}
    {field : String × Json} (other : field.1 ≠ urlKey) (within : field.2.Within good room)
    (normal : field.2.normal = field.2) (table : Table String Json)
    (rest : List (Option String × RawJson)) :
    decodeMembers room url table ((some field.1, RawJson.ofJson field.2) :: rest) =
      decodeMembers room url (table.insert field.1 field.2) rest := by
  rw [decodeMembers, if_neg other, RawJson.toJson_ofJson within, normal]
  rfl

theorem decodeMembers_fields {good : JsonNumber → Prop} {room : Nat} {url : String}
    {members : List (String × Json)} (apart : urlKey ∉ members.map Prod.fst)
    (within : ∀ member ∈ members, member.2.Within good room)
    (normal : ∀ member ∈ members, member.2.normal = member.2) (table : Table String Json) :
    decodeMembers room (some url) table
        (members.map fun member => (some member.1, RawJson.ofJson member.2)) =
      .ok ⟨url, members.foldl (fun table entry => table.insert entry.1 entry.2) table⟩ := by
  induction members generalizing table with
  | nil => rfl
  | cons member members ih =>
      obtain ⟨other, apartRest⟩ := not_or.mp fun either => apart (List.mem_cons.mpr either)
      obtain ⟨inside, withinRest⟩ := List.forall_mem_cons.mp within
      obtain ⟨fixed, normalRest⟩ := List.forall_mem_cons.mp normal
      rw [List.map_cons, decodeMembers_field (Ne.symm other) inside fixed]
      exact ih apartRest withinRest normalRest _

theorem decodeMembers_url {good : JsonNumber → Prop} {room : Nat} {url : String}
    {before after : List (String × Json)} (apart : urlKey ∉ (before ++ after).map Prod.fst)
    (within : ∀ member ∈ before ++ after, member.2.Within good room)
    (normal : ∀ member ∈ before ++ after, member.2.normal = member.2) (table : Table String Json) :
    decodeMembers room none table ((before ++ (urlKey, .string url) :: after).map
        fun member => (some member.1, RawJson.ofJson member.2)) =
      .ok ⟨url, (before ++ after).foldl (fun table entry => table.insert entry.1 entry.2) table⟩ := by
  induction before generalizing table with
  | nil =>
      rw [List.nil_append, List.map_cons, decodeMembers, if_pos rfl]
      exact decodeMembers_fields apart within normal table
  | cons member before ih =>
      obtain ⟨other, apartRest⟩ := not_or.mp fun either => apart (List.mem_cons.mpr either)
      obtain ⟨inside, withinRest⟩ := List.forall_mem_cons.mp within
      obtain ⟨fixed, normalRest⟩ := List.forall_mem_cons.mp normal
      rw [List.cons_append, List.map_cons, decodeMembers_field (Ne.symm other) inside fixed]
      exact ih apartRest withinRest normalRest _

theorem Formed.nodup_keys {envelope : Envelope} (formed : Formed envelope.fields) :
    (((urlKey, Json.string envelope.typeUrl) :: envelope.fields).map Prod.fst).Nodup :=
  List.nodup_cons.mpr ⟨formed.apart, formed.ascending.keys_nodup⟩

/-- Fields in their normal form are arranged among themselves only. -/
theorem apply_encode {envelope : Envelope} (formed : Formed envelope.fields)
    (a : Arrangement) : ∃ arranged, a.apply (codec.encode envelope) = .object arranged ∧
      arranged.Perm ((urlKey, .string envelope.typeUrl) :: envelope.fields) := by
  obtain ⟨arranged, shape, perm⟩ := a.apply_object formed.nodup_keys
  refine ⟨arranged, shape, perm.trans (List.Perm.of_eq ?_)⟩
  have fixed : ∀ field ∈ envelope.fields, (field.1, a.apply field.2) = field := by
    intro field member
    cases a with
    | written => rfl
    | sorted => exact Prod.ext rfl (formed.normal field member)
  rw [List.map_cons, a.apply_string, List.map_congr_left fixed, List.map_id']

theorem Formed.made {good : JsonNumber → Prop} {room : Nat} {envelope : Envelope}
    (formed : Formed envelope.fields) {a : Arrangement}
    (within : (a.apply (codec.encode envelope)).Within good room) :
    ∃ room', room = room' + 1 ∧ envelope.Made good room' := by
  obtain ⟨arranged, shape, perm⟩ := apply_encode formed a
  rw [shape] at within
  cases within with
  | object each =>
      exact ⟨_, rfl, formed, fun field inside =>
        each field (perm.mem_iff.mpr (List.mem_cons_of_mem _ inside))⟩

theorem formed_nil : Formed [] := ⟨Table.ascending_nil, List.not_mem_nil, List.forall_mem_nil _⟩

theorem Formed.insert {fields : Table String Json} (formed : Formed fields) {key : String}
    (other : key ≠ urlKey) {value : Json} (normal : value.normal = value) :
    Formed (Table.insert key value fields) where
  ascending := Table.ascending_insert key value formed.ascending
  apart member := by
    rcases Table.mem_keys_insert.mp member with same | old
    · exact other same.symm
    · exact formed.apart old
  normal field member := by
    rcases Table.mem_insert member with rfl | old
    · exact normal
    · exact formed.normal field old

theorem formed_decodeMembers {good : JsonNumber → Prop} {room : Nat} {url : Option String}
    {sorted : Table String Json} {members : List (Option String × RawJson)} {envelope : Envelope}
    (numbers : ∀ member ∈ members, member.2.Numbers good) (formed : Formed sorted)
    (within : ∀ field ∈ sorted, field.2.Within good room)
    (read : decodeMembers room url sorted members = .ok envelope) :
    Formed envelope.fields ∧ ∀ field ∈ envelope.fields, field.2.Within good room := by
  induction members generalizing url sorted with
  | nil =>
      cases url with
      | none => cases read
      | some url =>
          cases read
          exact ⟨formed, within⟩
  | cons member members ih =>
      obtain ⟨key, raw⟩ := member
      obtain ⟨first, others⟩ := List.forall_mem_cons.mp numbers
      cases key with
      | none => cases url <;> cases read
      | some key =>
          rw [decodeMembers] at read
          split at read
          · split at read
            · cases read
            · obtain ⟨found, -, rest⟩ := bind_eq_ok.mp read
              exact ih others formed within rest
          · rename_i other
            obtain ⟨value, taken, rest⟩ := bind_eq_ok.mp read
            obtain ⟨inside, normal⟩ := RawJson.within_toJson first taken
            refine ih others (formed.insert other normal) ?_ rest
            intro field member
            rcases Table.mem_insert member with rfl | old
            · exact inside
            · exact within field old

theorem made_decode {good : JsonNumber → Prop} {room : Nat} {raw : RawJson} {envelope : Envelope}
    (numbers : raw.Numbers good) (read : codec.decode room raw = .ok envelope) :
    ∃ room', room = room' + 1 ∧ envelope.Made good room' := by
  simp only [codec] at read
  split at read
  · cases read
  · cases numbers with
    | object each =>
        obtain ⟨formed, within⟩ :=
          formed_decodeMembers each formed_nil (List.forall_mem_nil _) read
        exact ⟨_, rfl, ⟨formed, within⟩⟩
  · cases read

theorem Made.echo_eq {good : JsonNumber → Prop} {room : Nat} {envelope : Envelope}
    (made : envelope.Made good room) (a : Arrangement) :
    codec.echo a (room + 1) envelope = .ok envelope := by
  obtain ⟨arranged, shape, perm⟩ := apply_encode made.toFormed a
  obtain ⟨before, after, rfl⟩ := List.append_of_mem (perm.mem_iff.mpr List.mem_cons_self)
  have fields : (before ++ after).Perm envelope.fields :=
    (List.perm_middle.symm.trans perm).cons_inv
  rw [Codec.echo, shape, RawJson.ofJson_object]
  change decodeMembers room none [] _ = _
  rw [decodeMembers_url
    (fun member => made.apart ((fields.map Prod.fst).mem_iff.mp member))
    (fun member inside => made.within member (fields.mem_iff.mp inside))
    (fun member inside => made.normal member (fields.mem_iff.mp inside))]
  have sorted : Table.ofEntries (before ++ after) = envelope.fields :=
    Table.ofEntries_of_perm fields made.ascending
  exact congrArg (fun table => Except.ok (Envelope.mk envelope.typeUrl table)) sorted

theorem Made.mono {good : JsonNumber → Prop} {room more : Nat} {envelope : Envelope}
    (made : envelope.Made good room) (wider : room ≤ more) : envelope.Made good more where
  toFormed := made.toFormed
  within field inside := (made.within field inside).mono wider

theorem Made.echoes {good : JsonNumber → Prop} {room : Nat} {envelope : Envelope}
    (made : envelope.Made good room) (a : Arrangement) :
    codec.Echoes a (room + 1) envelope True := by
  intro found
  rw [made.echo_eq a, Except.ok.injEq, true_and, eq_comm]

theorem exact_codec (depth : Nat) : codec.Exact (Settled depth) Codec.Always (depth + 1) where
  tidy envelope settled := by
    apply Json.Within.object
    intro member inside
    rcases List.mem_cons.mp inside with rfl | field
    · exact .string depth envelope.typeUrl
    · exact settled.within member field
  echoes a room envelope found enough settled := by
    obtain ⟨room, rfl⟩ := Nat.exists_eq_add_one_of_ne_zero (show room ≠ 0 by omega)
    exact (settled.mono (show depth ≤ room by omega)).echoes a found
  sound _ _ _ _ := trivial
  absent _ _ := trivial

variable {α : Type} {message : Message α} {value found : α} {members : List (String × Json)}

theorem unpack_eq_ok {envelope : Envelope} : envelope.unpack message = .ok found ↔
    envelope.typeUrl = message.typeUrl ∧ message.codec.ofJson (.object envelope.fields) = .ok found := by
  unfold unpack
  by_cases same : envelope.typeUrl = message.typeUrl <;> simp [same, mapError_eq_ok]

theorem typeUrl_of_unpack {envelope : Envelope} (unpacked : envelope.unpack message = .ok found) :
    envelope.typeUrl = message.typeUrl := (unpack_eq_ok.mp unpacked).1

theorem fields_pack (written : message.codec.encode value = .object members) :
    (pack message value).fields =
      Table.ofEntries (members.map fun member => (member.1, member.2.normal)) := by
  rw [pack, written, Json.normal_object]
  rfl

theorem mem_fields_pack (written : message.codec.encode value = .object members)
    (distinct : (members.map Prod.fst).Nodup) {field : String × Json} :
    field ∈ (pack message value).fields ↔
      ∃ member ∈ members, (member.1, member.2.normal) = field := by
  have perm : (Table.ofEntries (members.map fun member => (member.1, member.2.normal))).Perm
      (members.map fun member => (member.1, member.2.normal)) := by
    apply Table.ofEntries_perm
    rwa [List.map_map]
  rw [fields_pack written, perm.mem_iff, List.mem_map]

/-- A message whose document is an object, no member of it in the place of the type URL. -/
structure Packs (message : Message α) (value : α) (members : List (String × Json)) : Prop where
  written : message.codec.encode value = .object members
  apart : urlKey ∉ members.map Prod.fst

theorem Packs.mem_members (packs : Packs message value members) {field : String × Json}
    (inside : field ∈ (pack message value).fields) :
    ∃ member ∈ members, (member.1, member.2.normal) = field := by
  rw [fields_pack packs.written] at inside
  exact List.mem_map.mp (Table.mem_ofEntries inside)

theorem Packs.formed (packs : Packs message value members) : Formed (pack message value).fields where
  ascending := by
    rw [fields_pack packs.written]
    exact Table.ascending_ofEntries _
  apart key := by
    obtain ⟨field, inside, same⟩ := List.mem_map.mp key
    obtain ⟨member, present, rfl⟩ := packs.mem_members inside
    exact packs.apart (List.mem_map.mpr ⟨member, present, same⟩)
  normal field inside := by
    obtain ⟨member, -, rfl⟩ := packs.mem_members inside
    exact Json.normal_normal member.2

theorem Packs.settled (packs : Packs message value members) {depth : Nat}
    (tidy : ∀ member ∈ members, member.2.Tidy depth) : (pack message value).Settled depth where
  toFormed := packs.formed
  within field inside := by
    obtain ⟨member, present, rfl⟩ := packs.mem_members inside
    exact (tidy member present).normal

theorem Packs.unpack_eq_ok (packs : Packs message value members) {legal : Prop}
    (echoes : ∀ room, (message.codec.encode value).normal.Within (fun _ => True) (room + 1) →
      message.codec.Echoes .sorted (room + 1) value legal) :
    (pack message value).unpack message = .ok found ↔ legal ∧ found = value := by
  have document : Json.object (pack message value).fields = (message.codec.encode value).normal := by
    rw [fields_pack packs.written, packs.written, Json.normal_object]
  have within := Json.within_depth (message.codec.encode value).normal
  obtain ⟨room, deep⟩ : ∃ room, (RawJson.ofJson (message.codec.encode value).normal).depth = room + 1 := by
    rw [packs.written, Json.normal_object, RawJson.ofJson_object, RawJson.depth]
    exact ⟨_, Nat.add_comm _ _⟩
  rw [deep] at within
  have url : (pack message value).typeUrl = message.typeUrl := rfl
  rw [Envelope.unpack_eq_ok, and_iff_right url, Codec.ofJson, document, deep]
  exact echoes room within found

end Envelope

theorem Envelope.packs_record {α τ : Type} {url name : String} {fields : Fields τ} {values : α → τ}
    {build : τ → α} (value : α) (apart : urlKey ∉ fields.names) :
    Packs ⟨url, .record name fields values build⟩ value (fields.encode (values value)) where
  written := rfl
  apart := (fields.map_fst_encode (values value)).symm ▸ apart

end Devnet
