import Devnet.Genesis.Basic
import Devnet.Proofs.Json.Values
import Mathlib

namespace Devnet

theorem Codec.members_eq_ok {room : Nat} {raw : RawJson} {table : Table String Json} :
    members.decode room raw = .ok table ↔
      ∃ room' written, room = room' + 1 ∧ raw = .object written ∧
        RawJson.toMembers room' [] written = .ok table := by
  constructor
  · intro read
    simp only [members] at read
    split at read
    · cases read
    · exact ⟨_, _, rfl, rfl, read⟩
    · cases read
  · intro given
    rcases given with ⟨room', written, rfl, rfl, read⟩
    exact read

theorem Codec.ascending_members {room : Nat} {raw : RawJson} {table : Table String Json}
    (read : members.decode room raw = .ok table) : table.Ascending := by
  obtain ⟨room', written, -, -, taken⟩ := members_eq_ok.mp read
  exact RawJson.ascending_toMembers taken

theorem Codec.ofDocument_eq_ok {α : Type} {c : Codec α} {document : RawJson.Document} {value : α} :
    c.ofDocument document = .ok value ↔
      c.decode maxDepth document.body = .ok value ∧ document.closed = true := by
  unfold ofDocument
  rw [bind_eq_ok]
  constructor
  · intro given
    rcases given with ⟨found, read, finished⟩
    split at finished
    · rename_i closed
      rw [pure_eq_ok] at finished
      exact ⟨finished ▸ read, closed⟩
    · exact absurd finished throw_ne_ok
  · intro given
    rcases given with ⟨read, closed⟩
    refine ⟨value, read, ?_⟩
    rw [if_pos closed]
    rfl

namespace Genesis

theorem ofAppStateBytes_eq_ok {bytes : Bytes} {g : Genesis} :
    ofAppStateBytes bytes = .ok g ↔
      ∃ members, Codec.members.ofBytes bytes = .ok members ∧
        g.documents = members.map fun entry => (entry.1, Codec.json.toBytes entry.2) := by
  unfold ofAppStateBytes
  simp only [bind_eq_ok, pure_eq_ok]
  constructor
  · intro given
    rcases given with ⟨members, read, rfl⟩
    exact ⟨members, read, rfl⟩
  · intro given
    rcases given with ⟨members, read, documents⟩
    exact ⟨members, read, by rw [← documents]⟩

theorem ascending_documents {bytes : Bytes} {g : Genesis} (read : ofAppStateBytes bytes = .ok g) :
    g.documents.Ascending := by
  obtain ⟨members, taken, documents⟩ := ofAppStateBytes_eq_ok.mp read
  have ascending := Codec.ascending_members (Codec.ofDocument_eq_ok.mp taken).1
  rw [documents]
  exact List.Pairwise.map _ (fun _ _ less => less) ascending

end Genesis
end Devnet
