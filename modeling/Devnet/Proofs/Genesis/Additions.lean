import Devnet.Proofs.Genesis.Passage
import Devnet.Proofs.Json.Shuffles
import Mathlib

/-! A document that is added to a genesis. It has no part in whether the application state of the other
documents can be read, and what is read differs by that document only. -/

namespace Devnet

namespace RawJson

theorem toMembers_of_ascending {room : Nat} {raws : Table String RawJson} (ascending : raws.Ascending)
    {table : Table String Json} :
    toMembers room [] (raws.map fun member => (some member.1, member.2)) = .ok table ↔
      Table.Matches (fun raw value => toJson room raw = .ok value) raws table := by
  rw [toMembers_eq_ok]
  constructor
  · rintro ⟨entries, gives, rfl⟩
    have each : Table.Matches (fun raw value => toJson room raw = .ok value) raws entries :=
      (List.forall₂_map_left_iff.mp gives).imp fun _ _ both =>
        ⟨(Option.some.inj both.1).symm, both.2⟩
    change Table.Matches _ raws (Table.ofEntries entries)
    rw [Table.ofEntries_of_ascending (each.ascending ascending)]
    exact each
  · intro each
    refine ⟨table, List.forall₂_map_left_iff.mpr ?_,
      (Table.ofEntries_of_ascending (each.ascending ascending)).symm⟩
    exact each.imp fun _ _ both => ⟨congrArg some both.1.symm, both.2⟩

theorem toMembers_insert {room : Nat} {raws : Table String RawJson} (ascending : raws.Ascending)
    {key : String} (absent : ∀ member ∈ raws, member.1 ≠ key) {raw : RawJson} {value : Json}
    (read : toJson room raw = .ok value) :
    toMembers room [] ((raws.insert key raw).map fun member => (some member.1, member.2)) =
      (toMembers room [] (raws.map fun member => (some member.1, member.2))).map
        (Table.insert key value) := by
  have more := Table.ascending_insert key raw ascending
  have refused : ∀ {members fault}, toMembers room [] members = .error fault → fault = .malformed :=
    eq_malformed_of_toMembers fun _ _ _ => eq_malformed_of_toJson
  cases taken : toMembers room [] (raws.map fun member => (some member.1, member.2)) with
  | ok table =>
      have each := (toMembers_of_ascending ascending).mp taken
      exact (toMembers_of_ascending more).mpr (each.insert key read)
  | error fault =>
      cases taken' : toMembers room []
          ((raws.insert key raw).map fun member => (some member.1, member.2)) with
      | ok table =>
          -- Then the other members can be read as well, each on its own.
          have each := (toMembers_of_ascending more).mp taken'
          have values : ∀ member ∈ raws, ∃ value, toJson room member.2 = .ok value := by
            intro member inside
            obtain ⟨entry, -, -, found⟩ := exists_of_forall₂ each.flip
              (Table.mem_insert_of_mem raw inside (absent member inside))
            exact ⟨entry.2, found⟩
          obtain ⟨table, each⟩ :=
            Table.exists_matches (R := fun raw value => toJson room raw = .ok value) values
          rw [(toMembers_of_ascending ascending).mpr each] at taken
          cases taken
      | error fault' => rw [refused taken, refused taken', Except.map]

end RawJson

namespace Genesis

theorem exists_readable_of_ofBytes {document : Bytes} {value : Json}
    (read : Codec.json.ofBytes document = .ok value) : ∃ raw, RawJson.Readable value raw := by
  have decoded := (Codec.ofDocument_eq_ok.mp read).1
  exact RawJson.exists_readable (RawJson.within_toJson (RawJson.numbers_ofBytes document) decoded).1

theorem ofValues_insert (values : Table String Json) (name : String) (value : Json) :
    ofValues (values.insert name value) = (ofValues values).insert name (Utf8.encode value.chars) :=
  congrArg Genesis.mk (Table.map_insert (fun value : Json => Utf8.encode value.chars) name value values)

theorem ofAppStateBytes_eq (bytes : Bytes) :
    ofAppStateBytes bytes = (Codec.members.ofBytes bytes).map ofValues := by
  unfold ofAppStateBytes
  cases Codec.members.ofBytes bytes <;> rfl

/-- With a document more the application state is read as before, and that document as it is read
again; without it there is none of its name. -/
theorem ofAppStateBytes_insert {g : Genesis} {name : String} {document bytes : Bytes}
    (ascending : g.documents.Ascending) (absent : g.get? name = none)
    (written : g.toAppStateBytes = .ok bytes) {value again : Json}
    (own : Codec.json.ofBytes document = .ok value) (passes : RawJson.ReadAgain innerDepth value again) :
    ∃ bytes', (g.insert name document).toAppStateBytes = .ok bytes' ∧
      ofAppStateBytes bytes' =
        (ofAppStateBytes bytes).map (fun kept => kept.insert name (Utf8.encode again.chars)) ∧
      ∀ kept, ofAppStateBytes bytes = .ok kept → kept.get? name = none := by
  obtain ⟨values, read, rfl⟩ := toAppStateBytes_eq_ok.mp written
  obtain ⟨raws, readable⟩ : ∃ raws, Table.Matches RawJson.Readable values raws := by
    apply Table.exists_matches
    intro entry member
    obtain ⟨source, -, -, decoded⟩ := exists_of_forall₂ read member
    exact exists_readable_of_ofBytes decoded
  obtain ⟨raw, readableOwn, taken⟩ := passes
  have sorted := readable.ascending (read.ascending ascending)
  have missing := readable.get?_eq_none (read.get?_eq_none absent)
  refine ⟨_, toAppStateBytes_eq_ok.mpr ⟨_, read.insert name own, rfl⟩, ?_, ?_⟩
  · rw [ofAppStateBytes_eq, ofAppStateBytes_eq, members_ofBytes_of_readable (RawJson.readable_members readable),
      members_ofBytes_of_readable (RawJson.readable_members (readable.insert name readableOwn)),
      RawJson.toMembers_insert sorted (Table.get?_eq_none_iff.mp missing) taken]
    cases RawJson.toMembers innerDepth [] (raws.map fun member => (some member.1, member.2)) with
    | error fault => rfl
    | ok table => exact congrArg Except.ok (ofValues_insert table name again)
  · intro kept found
    rw [ofAppStateBytes_eq,
      members_ofBytes_of_readable (RawJson.readable_members readable)] at found
    obtain ⟨table, members, rfl⟩ := map_eq_ok.mp found
    have gone := ((RawJson.toMembers_of_ascending sorted).mp members).get?_eq_none missing
    rw [get?_ofValues, gone]
    rfl

end Genesis
end Devnet
