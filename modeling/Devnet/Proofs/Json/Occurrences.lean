import Devnet.Proofs.Json.Envelopes
import Mathlib

namespace Devnet

namespace RawJson

def under (key : String) (members : List (Option String × RawJson)) : List RawJson :=
  members.filterMap fun member => if member.1 = some key then some member.2 else none

variable {key other : String} {raw : RawJson} {members : List (Option String × RawJson)}

theorem under_cons_self : under key ((some key, raw) :: members) = raw :: under key members := by
  simp [under]

theorem under_cons_of_ne (different : other ≠ key) :
    under key ((some other, raw) :: members) = under key members := by
  simp [under, different]

theorem mem_under : raw ∈ under key members ↔ (some key, raw) ∈ members := by
  simp [under]

/-- A text under a key of an object, where no other member under the key follows. -/
def HasText (key text : String) : RawJson → Prop
  | .object members => (under key members).getLast? = some (.string (some text))
  | _ => False

/-- A name by itself, or as the only key of an object with nothing under it. -/
inductive Names (name : String) : RawJson → Prop
  | text : Names name (.string (some name))
  | key : Names name (.object [(some name, .null)])

theorem Names.unique {name name' : String} (names : raw.Names name) (names' : raw.Names name') :
    name' = name := by
  cases names <;> cases names' <;> rfl

theorem ofJson_eq_string {json : Json} {text : String} :
    ofJson json = .string (some text) ↔ json = .string text := by
  cases json <;> simp [ofJson]

theorem mem_under_ofJson {fields : List (String × Json)} :
    raw ∈ under key (fields.map fun field => (some field.1, ofJson field.2)) ↔
      ∃ json, (key, json) ∈ fields ∧ ofJson json = raw := by
  simp [mem_under]

theorem mem_iff_of_under {fields : List (String × Json)} {text : String} (json : Json)
    (one : under key (fields.map fun field => (some field.1, ofJson field.2)) =
      [.string (some text)]) : (key, json) ∈ fields ↔ json = .string text := by
  constructor
  · intro inside
    have member := mem_under_ofJson.mpr ⟨json, inside, rfl⟩
    rw [one, List.mem_singleton] at member
    exact ofJson_eq_string.mp member
  · rintro rfl
    obtain ⟨json, inside, same⟩ := mem_under_ofJson.mp (one ▸ List.mem_singleton_self _)
    exact ofJson_eq_string.mp same ▸ inside

theorem toJson_eq_string {room : Nat} {json : Json} {text : String}
    (read : raw.toJson room = .ok json) : json = .string text ↔ raw = .string (some text) := by
  unfold toJson at read
  split at read
  case h_5 | h_6 =>
    obtain ⟨inner, -, rfl⟩ := map_eq_ok.mp read
    simp
  all_goals cases read <;> simp

theorem exists_depth_object (members : List (Option String × RawJson)) :
    ∃ room, (object members).depth = room + 1 :=
  ⟨depthMembers members, by rw [depth, Nat.add_comm]⟩

end RawJson

namespace Codec

theorem text_eq_ok {α : Type} {render : α → String} {parse : String → Except ValueFault α}
    {room : Nat} {raw : RawJson} {value : α} : (text render parse).decode room raw = .ok value ↔
      ∃ written, raw = .string (some written) ∧ parse written = .ok value := by
  constructor
  · intro read
    unfold text at read
    simp only at read
    split at read
    · exact ⟨_, rfl, mapError_eq_ok.mp read⟩
    · cases read
  · rintro ⟨written, rfl, read⟩
    exact mapError_eq_ok.mpr read

theorem base64_eq_ok {room : Nat} {raw : RawJson} {bytes : Bytes} :
    base64.decode room raw = .ok bytes ↔
      ∃ written, raw = .string (some written) ∧ Base64.decode written = some bytes := by
  unfold base64
  rw [text_eq_ok]
  refine exists_congr fun written => and_congr_right' ?_
  cases Base64.decode written <;> simp

theorem exists_names_of_decodeName {α : Type} {known : List (String × α)} {room : Nat} {raw : RawJson}
    {value : α} (read : decodeName known room raw = .ok value) :
    ∃ name, raw.Names name ∧ lookUpName known name = .ok value := by
  unfold decodeName at read
  split at read
  · exact ⟨_, .text, read⟩
  · cases read
  · obtain ⟨found, known, read⟩ := bind_eq_ok.mp read
    split at read
    · cases read
      exact ⟨_, .key, known⟩
    · exact absurd read throw_ne_ok
    · exact absurd read throw_ne_ok
  · cases read

end Codec

namespace Fields

open RawJson

section Single

variable {α : Type} {name : String} {codec : Codec α} {room : Nat} {raw : RawJson}
  {members : List (Option String × RawJson)} {slots after : Option α × Unit}

theorem exists_value_of_fillAll
    (filled : (cons name codec nil).fillAll room ((some name, raw) :: members) slots = .ok after) :
    slots.1 = none ∧ ∃ value, codec.decode room raw = .ok value ∧
      (cons name codec nil).fillAll room members (some value, ()) = .ok after := by
  rw [fillAll, fill_cons, if_pos rfl] at filled
  cases empty : slots.1 with
  | some old =>
      simp only [empty, Option.isSome_some, if_true] at filled
      cases filled
  | none =>
      cases read : codec.decode room raw with
      | error fault =>
          simp only [empty, read] at filled
          cases filled
      | ok value =>
          simp only [empty, read] at filled
          exact ⟨rfl, value, rfl, filled⟩

theorem fillAll_of_ne {key : String} (different : key ≠ name)
    (filled : (cons name codec nil).fillAll room ((some key, raw) :: members) slots = .ok after) :
    (cons name codec nil).fillAll room members slots = .ok after := by
  have skipped : (cons name codec nil).fill room key raw slots = none := by
    rw [fill_cons, if_neg different]
    rfl
  rw [fillAll, skipped] at filled
  simp only at filled
  split at filled
  · exact filled
  · cases filled

theorem under_of_fillAll
    (filled : (cons name codec nil).fillAll room members slots = .ok after) :
    under name members = [] ∧ after.1 = slots.1 ∨
      slots.1 = none ∧ ∃ raw value, under name members = [raw] ∧
        codec.decode room raw = .ok value ∧ after.1 = some value := by
  induction members generalizing slots with
  | nil =>
      cases filled
      exact .inl ⟨rfl, rfl⟩
  | cons member members ih =>
      obtain ⟨key, raw⟩ := member
      cases key with
      | none => cases filled
      | some key =>
          by_cases same : key = name
          · subst same
            obtain ⟨empty, value, read, rest⟩ := exists_value_of_fillAll filled
            rcases ih rest with ⟨none, kept⟩ | ⟨taken, -⟩
            · exact .inr ⟨empty, raw, value, by rw [under_cons_self, none], read, kept⟩
            · cases taken
          · rw [under_cons_of_ne same]
            exact ih (fillAll_of_ne same filled)

end Single

theorem under_of_decode {α : Type} {key name : String} {codec : Codec α} (required : codec.absent = none)
    {room : Nat} {members : List (Option String × RawJson)} {value : α}
    (read : (cons key codec nil).decode name (room + 1) (.object members) = .ok (value, ())) :
    ∃ raw, under key members = [raw] ∧ codec.decode room raw = .ok value := by
  obtain ⟨slots, filled, finished⟩ := bind_eq_ok.mp read
  simp only [finish, required] at finished
  rcases under_of_fillAll filled with ⟨-, empty⟩ | ⟨-, raw, found, one, decoded, held⟩
  · rw [empty] at finished
    cases finished
  · rw [held] at finished
    cases finished
    exact ⟨raw, one, decoded⟩

end Fields

namespace Envelope

open RawJson

variable {room : Nat} {key : String} {envelope : Envelope}

theorem get?_decodeMembers {url : Option String} {sorted : Table String Json}
    {members : List (Option String × RawJson)} (apart : urlKey ≠ key)
    (read : decodeMembers room url sorted members = .ok envelope) :
    (under key members).getLast? = none ∧ envelope.fields.get? key = sorted.get? key ∨
      ∃ raw json, (under key members).getLast? = some raw ∧ raw.toJson room = .ok json ∧
        envelope.fields.get? key = some json := by
  induction members generalizing url sorted with
  | nil =>
      cases url with
      | none => cases read
      | some url =>
          cases read
          exact .inl ⟨rfl, rfl⟩
  | cons member members ih =>
      obtain ⟨name, raw⟩ := member
      cases name with
      | none => cases url <;> cases read
      | some name =>
          rw [decodeMembers] at read
          split at read
          · rename_i same
            subst same
            rw [under_cons_of_ne apart]
            split at read
            · cases read
            · obtain ⟨found, -, rest⟩ := bind_eq_ok.mp read
              exact ih rest
          · obtain ⟨value, taken, rest⟩ := bind_eq_ok.mp read
            have later := ih rest
            by_cases here : name = key
            · -- what comes later under the key takes the place of this value
              subst here
              rw [under_cons_self, List.getLast?_cons]
              rcases later with ⟨nothing, kept⟩ | ⟨last, json, found, taken', held⟩
              · rw [Table.get?_insert_self] at kept
                exact .inr ⟨raw, value, by rw [nothing]; rfl, taken, kept⟩
              · exact .inr ⟨last, json, by rw [found]; rfl, taken', held⟩
            · rwa [under_cons_of_ne here, ← Table.get?_insert_of_ne value sorted (Ne.symm here)]

theorem mem_fields_iff_of_decode {raw : RawJson} {text : String} (apart : urlKey ≠ key)
    (read : codec.decode room raw = .ok envelope) :
    (key, .string text) ∈ envelope.fields ↔ raw.HasText key text := by
  obtain ⟨_, -, made⟩ := made_decode raw.numbers_any read
  rw [← Table.get?_eq_some_iff made.ascending.keys_nodup]
  simp only [codec] at read
  split at read
  · cases read
  · rename_i members
    rw [HasText]
    rcases get?_decodeMembers apart read with ⟨nothing, empty⟩ | ⟨raw, json, last, taken, held⟩
    · rw [nothing, empty]
      exact iff_of_false (fun found => by cases found) fun found => by cases found
    · rw [last, held, Option.some.injEq, Option.some.injEq, toJson_eq_string taken]
  · cases read

end Envelope

end Devnet
