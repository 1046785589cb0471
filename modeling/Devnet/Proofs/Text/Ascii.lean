import Devnet.Proofs.Text.Utf8
import Mathlib

namespace Devnet

@[elab_as_elim]
theorem forall_ascii {good : Char → Prop} {c : Char} (ascii : c.toNat < 0x80)
    (each : ∀ code < 0x80, good (Char.ofNat code)) : good c := by
  have found := each c.toNat ascii
  rwa [Char.ofNat_toNat] at found

theorem toNat_lt_of_toLower {c : Char} (ascii : c.toLower.toNat < 0x80) : c.toNat < 0x80 := by
  unfold Char.toLower at ascii
  split at ascii
  · rename_i capital
    exact Nat.lt_of_le_of_lt capital.2 (by decide)
  · exact ascii

theorem toUpper_toLower (c : Char) : c.toLower.toUpper = c.toUpper := by
  by_cases ascii : c.toNat < 0x80
  · have each : ∀ code < 0x80, (Char.ofNat code).toLower.toUpper = (Char.ofNat code).toUpper := by
      decide +kernel
    exact forall_ascii ascii each
  · -- only letters of the range have another case
    have other : ¬(c.val ≥ 'A'.val ∧ c.val ≤ 'Z'.val) := fun capital =>
      ascii (Nat.lt_of_le_of_lt capital.2 (by decide))
    rw [Char.toLower, dif_neg other]

theorem Text.toUpper_toLower (text : String) : text.toLower.toUpper = text.toUpper := by
  rw [← String.toList_inj, String.toUpper, String.toUpper, String.toLower, String.toList_map,
    String.toList_map, String.toList_map, List.map_map]
  exact List.map_congr_left fun c _ => Devnet.toUpper_toLower c

namespace Utf8

theorem encodeChar_of_ascii {c : Char} (ascii : c.toNat < 0x80) :
    String.utf8EncodeChar c = [c.val.toUInt8] := by
  have one : c.val.toNat ≤ 0x7F := Nat.le_of_lt_succ ascii
  simp only [String.utf8EncodeChar, one, if_true]
  rfl

theorem encodeChar_of_wide {c : Char} (wide : ¬c.toNat < 0x80) :
    ∃ lead tail, String.utf8EncodeChar c = lead :: tail ∧ 0x80 ≤ lead := by
  obtain ⟨lead, tail, written, read⟩ := leads c []
  refine ⟨lead, tail, written, ?_⟩
  by_contra low
  have less : lead < 0x80 := UInt8.not_le.mp low
  have small : lead.toNat < 0x80 := UInt8.lt_iff_toNat_lt.mp less
  unfold head at read
  rw [if_pos less] at read
  injection read with same
  have code : c.toNat = lead.toNat := by
    rw [← same, Char.toNat_ofNat, if_pos (Or.inl (Nat.lt_trans small (by decide)))]
  exact wide (code ▸ small)

end Utf8
end Devnet
