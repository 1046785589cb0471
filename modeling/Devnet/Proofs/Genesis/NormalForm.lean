import Devnet.Proofs.Genesis.RoundTrip
import Mathlib

namespace Devnet.Genesis

theorem exists_values {bytes : Bytes} {g : Genesis} (read : ofAppStateBytes bytes = .ok g)
    {good : JsonNumber → Prop} (numbers : (RawJson.Document.ofBytes bytes).body.Numbers good) :
    ∃ values : Table String Json, Codec.members.ofBytes bytes = .ok values ∧ g = ofValues values ∧
      values.Ascending ∧
      ∀ entry ∈ values, entry.2.Within good innerDepth ∧ entry.2.normal = entry.2 := by
  obtain ⟨values, taken, documents⟩ := ofAppStateBytes_eq_ok.mp read
  have decoded := (Codec.ofDocument_eq_ok.mp taken).1
  obtain ⟨room, written, room_eq, body, inner⟩ := Codec.members_eq_ok.mp decoded
  obtain rfl : room = innerDepth := (Nat.succ.inj room_eq).symm
  rw [body] at numbers
  cases numbers with
  | object each =>
      exact ⟨values, taken, congrArg Genesis.mk documents, Codec.ascending_members decoded,
        RawJson.within_toMembers each inner⟩

def unsortedState : Json := .object
  [("b", .object [("y", .ofInt Word.greatestUInt64), ("x", .array [.ofInt Word.leastInt64])]),
   ("a", .string "\t")]

theorem tidy_unsortedState : unsortedState.Tidy 3 := by
  have greatest : (Json.ofInt Word.greatestUInt64).Tidy 1 := .integer 1 ⟨by decide, by decide⟩
  have least : (Json.ofInt Word.leastInt64).Tidy 0 := .integer 0 ⟨by decide, by decide⟩
  have inner : (Json.object [("y", .ofInt Word.greatestUInt64),
      ("x", .array [.ofInt Word.leastInt64])]).Tidy 2 := by
    apply Json.Within.object
    rw [List.forall_mem_cons, List.forall_mem_singleton]
    exact ⟨greatest, .array (List.forall_mem_singleton.mpr least)⟩
  apply Json.Within.object
  rw [List.forall_mem_cons, List.forall_mem_singleton]
  exact ⟨inner, .string 2 "\t"⟩

end Devnet.Genesis
