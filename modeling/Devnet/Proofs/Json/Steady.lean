import Devnet.Proofs.Json.Doubles
import Devnet.Proofs.Json.Envelopes
import Mathlib

/-! Which values come back from their own document, as an equivalence: those whose numbers are read as
themselves and whose objects are sorted, on the levels that are left for them. Only envelopes hold
values of any kind, so for a value of some type this is a matter of the envelopes in it. -/

namespace Devnet

namespace RawJson

open JsonNumber

variable {room : Nat} {value : Json}

theorem forall_mem_of_toItems {items : List Json}
    (read : toItems room (items.map reading) = .ok items) :
    ∀ item ∈ items, toJson room (reading item) = .ok item := by
  rw [toItems_eq_ok, List.forall₂_map_left_iff, List.forall₂_same] at read
  exact read

theorem forall_mem_of_toMembers {members : Table String Json}
    (read : toMembers room [] (members.map fun member => (some member.1, reading member.2)) =
      .ok members) :
    ∀ member ∈ members, toJson room (reading member.2) = .ok member.2 := by
  have ascending := ascending_toMembers read
  obtain ⟨entries, gives, sorted⟩ := toMembers_eq_ok.mp read
  have each : Table.Matches (fun value found => toJson room (reading value) = .ok found)
      members entries :=
    (List.forall₂_map_left_iff.mp gives).imp fun _ _ given =>
      ⟨(Option.some.inj given.1).symm, given.2⟩
  have same : members = entries :=
    sorted.trans (Table.ofEntries_of_ascending (each.ascending ascending))
  rw [← same] at each
  exact fun member inside => (List.forall₂_same.mp each member inside).2

theorem toJson_reading_eq_ok :
    toJson room (reading value) = .ok value ↔ value.Within Steady room ∧ value.normal = value := by
  constructor
  · intro read
    obtain ⟨levels, fixed⟩ := within_toJson (numbers_any _) read
    refine ⟨?_, fixed⟩
    clear fixed
    induction levels with
    | null room => exact .null room
    | bool room value => exact .bool room value
    | @number room n _ =>
        apply Json.Within.number
        rw [reading] at read
        unfold Steady
        cases found : n.again with
        | none =>
            rw [found] at read
            cases read
        | some other =>
            rw [found] at read
            cases read
            rfl
    | string room text => exact .string room text
    | array _ ih =>
        rw [reading_array] at read
        obtain ⟨_, inner, ⟨⟩⟩ := map_eq_ok.mp read
        exact .array fun item member => ih item member (forall_mem_of_toItems inner item member)
    | object _ ih =>
        rw [reading_object] at read
        obtain ⟨_, inner, ⟨⟩⟩ := map_eq_ok.mp read
        exact .object fun member inside =>
          ih member inside (forall_mem_of_toMembers inner member inside)
  · rintro ⟨steady, fixed⟩
    rw [reading_eq_ofJson steady, toJson_ofJson steady, fixed]

end RawJson

namespace Envelope

open RawJson

variable {room : Nat}

theorem decodeMembers_apart {url : String} {members : List (Option String × RawJson)}
    (apart : ∀ member ∈ members, member.1 ≠ some urlKey) (sorted : Table String Json) :
    decodeMembers room (some url) sorted members =
      (toMembers room sorted members).map fun fields => ⟨url, fields⟩ := by
  induction members generalizing sorted with
  | nil => rfl
  | cons member members ih =>
      obtain ⟨key, raw⟩ := member
      obtain ⟨other, others⟩ := List.forall_mem_cons.mp apart
      cases key with
      | none => rfl
      | some key =>
          have different : key ≠ urlKey := fun same => other (congrArg some same)
          rw [decodeMembers, if_neg different, toMembers]
          cases toJson room raw with
          | error => rfl
          | ok value => exact ih others _

/-- An envelope comes back exactly if its fields are formed as every document gives them, and their
numbers are steady. -/
theorem decode_reading_eq_ok {envelope : Envelope} :
    codec.decode (room + 1) (reading (codec.encode envelope)) = .ok envelope ↔
      envelope.Made JsonNumber.Steady room := by
  have fields (formed : Formed envelope.fields) :
      codec.decode (room + 1) (reading (codec.encode envelope)) = .ok envelope ↔
        toJson (room + 1) (reading (.object envelope.fields)) = .ok (.object envelope.fields) := by
    have apart : ∀ member ∈ envelope.fields.map fun member => (some member.1, reading member.2),
        member.1 ≠ some urlKey := by
      refine List.forall_mem_map.mpr fun member inside same => formed.apart ?_
      exact List.mem_map.mpr ⟨member, inside, Option.some.inj same⟩
    change codec.decode (room + 1) (reading (.object (_ :: envelope.fields))) = _ ↔ _
    rw [reading_object, reading_object, List.map_cons]
    change decodeMembers room (some envelope.typeUrl) [] _ = _ ↔
      (toMembers room [] _).map Json.object = _
    rw [decodeMembers_apart apart, map_eq_ok, map_eq_ok]
    constructor
    · rintro ⟨found, read, same⟩
      exact ⟨found, read, congrArg (fun envelope => Json.object envelope.fields) same⟩
    · rintro ⟨found, read, same⟩
      cases same
      exact ⟨_, read, rfl⟩
  constructor
  · intro read
    obtain ⟨_, -, made⟩ := made_decode (numbers_any _) read
    obtain ⟨steady, -⟩ := toJson_reading_eq_ok.mp ((fields made.toFormed).mp read)
    cases steady with
    | object within => exact ⟨made.toFormed, within⟩
  · intro made
    have fixed : ∀ field ∈ envelope.fields, (field.1, field.2.normal) = field :=
      fun field inside => Prod.ext rfl (made.normal field inside)
    refine (fields made.toFormed).mpr (toJson_reading_eq_ok.mpr ⟨.object made.within, ?_⟩)
    rw [Json.normal_object, List.map_congr_left fixed, List.map_id',
      Table.ofEntries_of_ascending made.ascending]

end Envelope

namespace Codec

variable {α τ : Type} {keeps keeps' : Nat → α → Prop} {depth : Nat}

/-- A value comes back from its own document exactly if it is one that is kept on this level. -/
def Returns (c : Codec α) (keeps : Nat → α → Prop) (depth : Nat) : Prop :=
  ∀ room value, depth ≤ room →
    (c.decode room (.reading (c.encode value)) = .ok value ↔ keeps room value)

theorem Returns.congr {c : Codec α} (returns : c.Returns keeps depth)
    (same : ∀ room value, keeps room value ↔ keeps' room value) : c.Returns keeps' depth :=
  fun room value enough => (returns room value enough).trans (same room value)

theorem Exact.returns {c : Codec α} {legal : α → Prop} (exact : c.Exact Always legal depth) :
    c.Returns (fun _ => legal) depth := by
  intro room value enough
  have steady := (exact.tidy value trivial).imp fun _ => JsonNumber.Whole.steady
  rw [RawJson.reading_eq_ofJson steady]
  exact (exact.echoes .written room value value enough trivial).trans (and_iff_left rfl)

theorem returns_list {c : Codec α} (returns : c.Returns keeps depth) :
    (list c).Returns (fun room values => ∀ value ∈ values, keeps (room - 1) value) (depth + 1) := by
  intro room values enough
  obtain ⟨room, rfl⟩ := Nat.exists_eq_add_one_of_ne_zero (show room ≠ 0 by omega)
  change (list c).decode (room + 1) (.reading (.array (values.map c.encode))) = _ ↔ _
  rw [RawJson.reading_array, List.map_map]
  change decodeItems (c.decode room) _ = _ ↔ _
  rw [decodeItems_eq_ok, List.forall₂_map_left_iff, List.forall₂_same]
  exact forall₂_congr fun value _ => returns room value (by omega)

end Codec

theorem Envelope.returns_codec : codec.Returns
    (fun room envelope => envelope.Made JsonNumber.Steady (room - 1)) 1 := by
  intro room envelope enough
  obtain ⟨room, rfl⟩ := Nat.exists_eq_add_one_of_ne_zero (show room ≠ 0 by omega)
  exact decode_reading_eq_ok

namespace Fields

variable {α τ : Type} {keeps : Nat → τ → Prop} {depth : Nat}

def Returns (fields : Fields τ) (keeps : Nat → τ → Prop) (depth : Nat) : Prop :=
  ∀ room values, depth ≤ room → (fields.Echo RawJson.reading room values values ↔ keeps room values)

theorem returns_nil : Fields.nil.Returns (fun _ _ => True) 0 := fun _ _ _ => Iff.rfl

theorem returns_cons {name : String} {codec : Codec α} {rest : Fields τ} {keep : Nat → α → Prop}
    {depths : Nat} (first : codec.Returns keep depth) (others : rest.Returns keeps depths) :
    (Fields.cons name codec rest).Returns
      (fun room values => keep room values.1 ∧ keeps room values.2) (max depth depths) :=
  fun room values enough =>
    and_congr (first room values.1 (by omega)) (others room values.2 (by omega))

end Fields

theorem Codec.returns_record {α τ : Type} {name : String} {fields : Fields τ} {values : α → τ}
    {build : τ → α} {keeps : Nat → τ → Prop} {depth : Nat} (returns : fields.Returns keeps depth)
    (distinct : fields.names.Nodup) (inverse : ∀ value, build (values value) = value)
    (built : ∀ tuple, values (build tuple) = tuple) :
    (Codec.record name fields values build).Returns
      (fun room value => keeps (room - 1) (values value)) (depth + 1) := by
  intro room value enough
  obtain ⟨room, rfl⟩ := Nat.exists_eq_add_one_of_ne_zero (show room ≠ 0 by omega)
  have kept : fields.decode name (room + 1) (.reading (.object (fields.encode (values value)))) =
      .ok (values value) ↔ keeps room (values value) := by
    have members := Fields.decode_members RawJson.reading room distinct name (values value)
      (values value) (List.Perm.refl _)
    rw [List.map_map] at members
    rw [RawJson.reading_object]
    exact members.trans (returns room (values value) (by omega))
  refine Iff.trans ?_ kept
  change (fields.decode name (room + 1) (.reading (.object (fields.encode (values value))))).map
    build = _ ↔ _
  rw [map_eq_ok]
  constructor
  · rintro ⟨tuple, read, rfl⟩
    rw [built] at read ⊢
    exact read
  · exact fun read => ⟨values value, read, inverse value⟩

end Devnet
