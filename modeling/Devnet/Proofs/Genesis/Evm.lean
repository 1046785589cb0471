import Devnet.Genesis.Evm
import Devnet.Proofs.Genesis.Seen
import Devnet.Proofs.Genesis.Spelled
import Devnet.Proofs.Text.Hex
import Mathlib

/-! What the accounts of the virtual machine are checked for. Accounts and storage slots are told apart
by the small letters of their texts. The mark in front of the digits is part of a text, so the same
bytes can stand there twice, with the mark and without it. -/

namespace Devnet.Evm

inductive Form
  | marked
  | bare

namespace Form

def all : List Form := [.marked, .bare]

theorem mem_all (form : Form) : form ∈ all := by
  cases form <;> simp [all]

def write : Form → Bytes → String
  | .marked, bytes => encodeHex bytes
  | .bare, bytes => Hex.encode bytes

theorem mark_notMem_encode (bytes : Bytes) : 'x' ∉ (Hex.encode bytes).toList := by
  have each : ∀ n < 16, Hex.lowerDigits.getD n '0' ≠ 'x' := by decide
  rw [Hex.toList_encode]
  intro member
  rcases List.mem_map.mp member with ⟨n, inside, same⟩
  exact each n (Hex.halves_lt bytes n inside) same

theorem mark_append_ne_encode (text : String) (bytes : Bytes) : "0x" ++ text ≠ Hex.encode bytes := by
  intro same
  apply mark_notMem_encode bytes
  rw [← same, String.toList_append]
  exact List.mem_append_left _ (by decide)

theorem write_injective : Function.Injective2 write := by
  intro first second a b same
  cases first <;> cases second
  · exact ⟨rfl, Hex.encode_injective ((String.append_right_inj _).mp same)⟩
  · exact absurd same (mark_append_ne_encode _ b)
  · exact absurd same.symm (mark_append_ne_encode _ a)
  · exact ⟨rfl, Hex.encode_injective same⟩

theorem toLower_write (form : Form) (bytes : Bytes) :
    (form.write bytes).toLower = form.write bytes := by
  cases form with
  | marked =>
      have digits := Hex.toLower_encode bytes
      rw [← String.toList_inj, String.toLower, String.toList_map] at digits ⊢
      rw [write, encodeHex, String.toList_append, List.map_append, digits]
      rfl
  | bare => exact Hex.toLower_encode bytes

theorem nodup_map_write (bytes : Bytes) :
    (all.map fun form => (form.write bytes).toLower).Nodup := by
  simp only [toLower_write]
  exact List.pairwise_pair.mpr (mark_append_ne_encode _ bytes)

end Form

theorem eq_or_eq_hexDigits (text : String) : hexDigits text = text ∨ text = "0x" ++ hexDigits text := by
  unfold hexDigits
  split
  · rename_i digits characters
    right
    rw [← String.toList_inj, characters, String.toList_append, String.toList_ofList]
    simp
  · exact Or.inl rfl

theorem decodeHex_eq_ok {text : String} {bytes : Bytes} :
    decodeHex text = .ok bytes ↔ (hexDigits text).toLower = Hex.encode bytes := by
  rw [decodeHex, mapError_eq_ok, Hex.decode_eq_ok_iff]

theorem exists_form {text : String} {bytes : Bytes} (read : decodeHex text = .ok bytes) :
    ∃ form : Form, text.toLower = form.write bytes := by
  have digits := decodeHex_eq_ok.mp read
  rcases eq_or_eq_hexDigits text with bare | marked
  · rw [bare] at digits
    exact ⟨.bare, digits⟩
  · refine ⟨.marked, ?_⟩
    rw [← String.toList_inj, String.toLower, String.toList_map] at digits ⊢
    rw [marked, String.toList_append, List.map_append, digits, Form.write, encodeHex,
      String.toList_append]
    rfl

theorem decodeHex_write (form : Form) (bytes : Bytes) : decodeHex (form.write bytes) = .ok bytes := by
  have digits : hexDigits (form.write bytes) = Hex.encode bytes := by
    cases form with
    | marked =>
        have characters : (encodeHex bytes).toList = '0' :: 'x' :: (Hex.encode bytes).toList := by
          rw [encodeHex, String.toList_append]
          rfl
        rw [Form.write, hexDigits, characters]
        exact String.ofList_toList
    | bare =>
        rcases eq_or_eq_hexDigits (Hex.encode bytes) with bare | marked
        · exact bare
        · exact absurd marked.symm (Form.mark_append_ne_encode _ bytes)
  rw [decodeHex_eq_ok, digits, Hex.toLower_encode]

def ReadApart (texts : List String) : Prop :=
  texts.Pairwise fun a b => ¬∃ bytes, decodeHex a = .ok bytes ∧ decodeHex b = .ok bytes

def MarkedAlike (texts : List String) : Prop :=
  ∀ a ∈ texts, ∀ b ∈ texts, ∀ bytes, a.toLower = encodeHex bytes → b.toLower ≠ Hex.encode bytes

/-- Texts for byte strings of one size that differ in more than the case of their letters. Each has one
of two forms, at most two are read as the same bytes, and none are if the mark is used alike. -/
structure ToldApart (size : Nat) (texts : List String) : Prop where
  formed : ∀ text ∈ texts, ∃ (bytes : Bytes) (form : Form),
    decodeHex text = .ok bytes ∧ bytes.length = size ∧ text.toLower = form.write bytes
  length_le : ∀ bytes, (texts.filter fun text => decodeHex text = .ok bytes).length ≤ 2
  readApart_iff : ReadApart texts ↔ MarkedAlike texts

theorem toldApart {size : Nat} {texts : List String}
    (sized : ∀ text ∈ texts, ∃ bytes, decodeHex text = .ok bytes ∧ bytes.length = size)
    (distinct : (texts.map String.toLower).Nodup) : ToldApart size texts := by
  have spelled : Spelled (fun text bytes => decodeHex text = .ok bytes) String.toLower Form.write
      texts := by
    refine ⟨distinct, fun text member => ?_, fun text _ bytes read => exists_form read⟩
    obtain ⟨bytes, read, -⟩ := sized text member
    exact ⟨bytes, read⟩
  constructor
  · intro text member
    obtain ⟨bytes, read, length⟩ := sized text member
    obtain ⟨form, written⟩ := exists_form read
    exact ⟨bytes, form, read, length, written⟩
  · exact fun bytes => spelled.length_filter_le bytes Form.mem_all
  · rw [ReadApart, spelled.pairwise_iff Form.write_injective]
    constructor
    · intro alike a memberA b memberB bytes marked bare
      cases alike a memberA b memberB bytes .marked .bare marked bare
    · intro alike a memberA b memberB bytes first second writtenA writtenB
      cases first <;> cases second
      · rfl
      · exact absurd writtenB (alike a memberA b memberB bytes writtenA)
      · exact absurd writtenA (alike b memberB a memberA bytes writtenB)
      · rfl

structure Slot.Valid (slot : Slot) : Prop where
  key : ∃ bytes, decodeHex slot.key = .ok bytes ∧ bytes.length = hashSize
  value : ∃ bytes, decodeHex slot.value = .ok bytes

namespace Account

theorem checkSlot_eq_ok (account : String) (seen : List String) (slot : Slot) (after : List String) :
    checkSlot account seen slot = .ok after ↔
      slot.Valid ∧ slot.key.toLower ∉ seen ∧ after = slot.key.toLower :: seen := by
  unfold checkSlot
  simp only [bind_eq_ok, check_bind_eq_ok, discard_eq_ok, Seen.add_eq_ok, not_not]
  constructor
  · intro given
    rcases given with ⟨key, readKey, length, ⟨⟩, value, new⟩
    exact ⟨⟨⟨key, readKey, length⟩, value⟩, new⟩
  · intro given
    rcases given with ⟨⟨⟨key, readKey, length⟩, value⟩, new⟩
    exact ⟨key, readKey, length, (), value, new⟩

structure Valid (account : Account) : Prop where
  address : ∃ bytes, decodeHex account.address = .ok bytes ∧ bytes.length = addressSize
  code : ∃ bytes, decodeHex account.code = .ok bytes
  slots : ∀ slot ∈ account.storage, slot.Valid
  keys : (account.storage.map fun slot => slot.key.toLower).Nodup

theorem validate_eq_ok {account : Account} {done : Unit} :
    account.validate = .ok done ↔ account.Valid := by
  unfold validate
  simp only [bind_eq_ok, check_bind_eq_ok, discard_eq_ok, not_not, exists_const,
    Seen.discard_foldlM_eq_ok (checkSlot_eq_ok account.address)]
  constructor
  · intro given
    rcases given with ⟨bytes, readAddress, length, code, slots, keys⟩
    exact ⟨⟨bytes, readAddress, length⟩, code, slots, keys⟩
  · intro given
    rcases given with ⟨⟨bytes, readAddress, length⟩, code, slots, keys⟩
    exact ⟨bytes, readAddress, length, code, slots, keys⟩

theorem Valid.toldApart_keys {account : Account} (valid : account.Valid) :
    ToldApart hashSize (account.storage.map Slot.key) := by
  apply toldApart
  · intro text member
    rcases List.mem_map.mp member with ⟨slot, inside, rfl⟩
    exact (valid.slots slot inside).key
  · rw [List.map_map]
    exact valid.keys

end Account

theorem Params.validate_standard : Params.standard.validate = .ok () := by decide +kernel

namespace Section

theorem checkAccount_eq_ok (seen : List String) (account : Account) (after : List String) :
    checkAccount seen account = .ok after ↔
      account.validate = .ok () ∧ account.address.toLower ∉ seen ∧
        after = account.address.toLower :: seen := by
  unfold checkAccount
  simp only [bind_eq_ok, Seen.add_eq_ok]
  constructor
  · intro given
    rcases given with ⟨⟨⟩, valid, new⟩
    exact ⟨valid, new⟩
  · intro given
    exact ⟨(), given⟩

theorem validate_eq_ok {s : Section} {done : Unit} :
    s.validate = .ok done ↔
      ((∀ account ∈ s.accounts, account.validate = .ok ()) ∧
        (s.accounts.map fun account => account.address.toLower).Nodup) ∧
      s.params.validate = .ok () := by
  unfold validate
  simp only [bind_eq_ok, Seen.discard_foldlM_eq_ok checkAccount_eq_ok, exists_const]

/-- The accounts of an accepted section, and the slots of each of them, are told apart by their texts
up to case: bytes that have two entries are written with the mark in one and without it in the other. -/
theorem forms_of_validate {s : Section} (accepted : s.validate = .ok ()) :
    ToldApart addressSize (s.accounts.map Account.address) ∧
      ∀ account ∈ s.accounts, ToldApart hashSize (account.storage.map Slot.key) := by
  obtain ⟨⟨each, distinct⟩, -⟩ := validate_eq_ok.mp accepted
  have valid : ∀ account ∈ s.accounts, account.Valid :=
    fun account member => Account.validate_eq_ok.mp (each account member)
  refine ⟨toldApart ?_ ?_, fun account member => (valid account member).toldApart_keys⟩
  · intro text member
    rcases List.mem_map.mp member with ⟨account, inside, rfl⟩
    exact (valid account inside).address
  · rw [List.map_map]
    exact distinct

theorem validate_standard : standard.validate = .ok () :=
  validate_eq_ok.mpr ⟨⟨List.forall_mem_nil _, List.nodup_nil⟩, Params.validate_standard⟩

def inBothForms (address key : Bytes) : Section where
  accounts := Form.all.map fun form =>
    ⟨form.write address, encodeHex [], Form.all.map fun form => ⟨form.write key, encodeHex []⟩⟩
  params := .standard

/-- The bound is reached by every address and every key. -/
theorem validate_inBothForms {address key : Bytes} (sized : address.length = addressSize)
    (sized' : key.length = hashSize) : (inBothForms address key).validate = .ok () := by
  have empty : ∃ bytes, decodeHex (encodeHex []) = .ok bytes := ⟨[], decodeHex_write .marked []⟩
  have slots : ∀ slot ∈ Form.all.map fun form => (⟨form.write key, encodeHex []⟩ : Slot),
      slot.Valid := by
    intro slot member
    rcases List.mem_map.mp member with ⟨form, -, rfl⟩
    exact ⟨⟨key, decodeHex_write form key, sized'⟩, empty⟩
  have accounts : ∀ account ∈ (inBothForms address key).accounts, account.Valid := by
    intro account member
    rcases List.mem_map.mp member with ⟨form, -, rfl⟩
    refine ⟨⟨address, decodeHex_write form address, sized⟩, empty, slots, ?_⟩
    rw [List.map_map]
    exact Form.nodup_map_write key
  refine validate_eq_ok.mpr ⟨⟨fun account member => ?_, ?_⟩, Params.validate_standard⟩
  · exact Account.validate_eq_ok.mpr (accounts account member)
  · rw [inBothForms, List.map_map]
    exact Form.nodup_map_write address

def twinSection : Section := inBothForms (List.replicate addressSize 0xAA) (List.replicate hashSize 1)

theorem validate_twinSection : twinSection.validate = .ok () :=
  validate_inBothForms List.length_replicate List.length_replicate

/-- The section is accepted, although neither its accounts nor their slots are told apart by the bytes
that are read from them. -/
theorem not_readApart_twinSection : twinSection.validate = .ok () ∧
    ¬ReadApart (twinSection.accounts.map Account.address) ∧
    ∃ account ∈ twinSection.accounts, ¬ReadApart (account.storage.map Slot.key) := by
  have bothRead : ∀ bytes, ∃ found, decodeHex (Form.marked.write bytes) = .ok found ∧
      decodeHex (Form.bare.write bytes) = .ok found :=
    fun bytes => ⟨bytes, decodeHex_write _ bytes, decodeHex_write _ bytes⟩
  refine ⟨validate_twinSection, fun apart => ?_, _, List.mem_cons_self, fun apart => ?_⟩
  · exact List.pairwise_pair.mp apart (bothRead _)
  · exact List.pairwise_pair.mp apart (bothRead _)

theorem forms_of_validate_twinSection : twinSection.validate = .ok () ∧
    ToldApart addressSize (twinSection.accounts.map Account.address) ∧
    ∀ account ∈ twinSection.accounts, ToldApart hashSize (account.storage.map Slot.key) :=
  ⟨validate_twinSection, forms_of_validate validate_twinSection⟩

end Section
end Devnet.Evm
