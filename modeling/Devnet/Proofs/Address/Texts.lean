import Devnet.Address.Basic
import Devnet.Proofs.Address.Spellings
import Mathlib

/-! An address of the right length is read from each of its four spellings, one of which is the rendered
one, and from no other text; the text of one address spells no other, however long it is. A reader of
another kind refuses each spelling for its human readable part. -/

namespace Devnet

namespace Bech32

def Spelling.write {kind : AddressKind} (spelling : Spelling) (address : Address kind) : String :=
  spelling.text kind.hrp (toSymbols address.bytes)

end Bech32

namespace Address

variable {kind : AddressKind}

theorem cased_hrp (kind : AddressKind) : Bech32.Cased kind.hrp := by
  constructor
  · intro letters
    cases kind <;> cases letters <;> decide +kernel
  · cases kind <;> simp [AddressKind.hrp]
  · cases kind <;> simp [AddressKind.hrp]

def Sized (address : Address kind) : Prop := 1 ≤ address.bytes.length ∧ address.bytes.length ≤ 255

instance (address : Address kind) : Decidable address.Sized := inferInstanceAs (Decidable (_ ∧ _))

theorem sized_iff {bytes : Bytes} :
    ¬(bytes.isEmpty || decide (255 < bytes.length)) = true ↔ (⟨bytes⟩ : Address kind).Sized := by
  rw [Bool.or_eq_true, decide_eq_true_eq, not_or, List.isEmpty_iff_length_eq_zero, Nat.not_lt, Sized,
    Nat.one_le_iff_ne_zero]

theorem decode_write (spelling : Bech32.Spelling) (address : Address kind) :
    Bech32.decode (spelling.write address) = .ok (kind.hrp, Bech32.toSymbols address.bytes) :=
  (Bech32.decode_eq_ok_iff (cased_hrp kind)).mpr ⟨Bech32.toSymbols_lt address.bytes, spelling, rfl⟩

theorem parse_write (spelling : Bech32.Spelling) (address : Address kind) :
    parse kind (spelling.write address) = if address.Sized then .ok address
      else .error (.wrongLength (spelling.write address) address.bytes.length) := by
  unfold parse
  simp only [decode_write, ne_eq, not_true, if_false, Bech32.ofSymbols_toSymbols]
  by_cases sized : address.Sized
  · rw [if_neg (sized_iff.mpr sized), if_pos sized]
  · rw [if_pos (not_not.mp fun right => sized (sized_iff.mp right)), if_neg sized]

theorem hrp_ne_hrp {other : AddressKind} (different : other ≠ kind) : kind.hrp ≠ other.hrp := by
  cases kind <;> cases other <;> simp_all [AddressKind.hrp]

theorem parse_write_of_ne {other : AddressKind} (different : other ≠ kind)
    (spelling : Bech32.Spelling) (address : Address kind) :
    parse other (spelling.write address) =
      .error (.wrongHrp (spelling.write address) other.hrp kind.hrp) := by
  unfold parse
  simp only [decode_write]
  exact if_pos (hrp_ne_hrp different)

/-- The texts that are read as an address are its spellings. -/
theorem parse_eq_ok_iff {text : String} {address : Address kind} :
    parse kind text = .ok address ↔
      address.Sized ∧ ∃ spelling : Bech32.Spelling, text = spelling.write address := by
  constructor
  · intro read
    unfold parse at read
    split at read
    · cases read
    · rename_i hrp symbols decoded
      split at read
      · cases read
      · rename_i same
        obtain rfl := not_not.mp same
        obtain ⟨small, spelling, rfl⟩ := (Bech32.decode_eq_ok_iff (cased_hrp kind)).mp decoded
        split at read
        · cases read
        · rename_i bytes regrouped
          split at read
          · cases read
          · rename_i right
            cases read
            refine ⟨sized_iff.mp right, spelling, ?_⟩
            rw [Bech32.Spelling.write, Bech32.toSymbols_ofSymbols small regrouped]
  · rintro ⟨sized, spelling, rfl⟩
    rw [parse_write, if_pos sized]

example : parse .account "EVMOS1QYQSZQGPQYQSZQGPQYQSZQGPQYQSZQGP9WQUJK" =
    .ok ⟨List.replicate 20 1⟩ := by decide +kernel

theorem sized_of_parse {text : String} {address : Address kind}
    (read : parse kind text = .ok address) : address.Sized := (parse_eq_ok_iff.mp read).1

theorem eq_of_write_eq {a b : Address kind} {first second : Bech32.Spelling}
    (same : first.write a = second.write b) : a = b := by
  have read := decode_write first a
  rw [same, decode_write] at read
  have symbols : Bech32.toSymbols b.bytes = Bech32.toSymbols a.bytes :=
    (Prod.mk.inj (Except.ok.inj read)).2
  have bytes := Bech32.ofSymbols_toSymbols b.bytes
  rw [symbols, Bech32.ofSymbols_toSymbols a.bytes] at bytes
  exact congrArg Address.mk (Except.ok.inj bytes)

theorem write_injective (address : Address kind) :
    Function.Injective fun spelling : Bech32.Spelling => spelling.write address :=
  fun _ _ same => Bech32.Spelling.text_injective (cased_hrp kind) (Bech32.toSymbols_lt _) same

theorem write_injective2 : Function.Injective2 (@Bech32.Spelling.write kind) := by
  intro first second a b same
  obtain rfl := eq_of_write_eq same
  exact ⟨write_injective a same, rfl⟩

theorem render_eq_write (address : Address kind) :
    address.render = Bech32.Spelling.written.write address :=
  Bech32.encode_eq kind.hrp address.bytes

theorem render_injective : Function.Injective (render : Address kind → String) := by
  intro a b same
  rw [render_eq_write, render_eq_write] at same
  exact eq_of_write_eq same

theorem parse_render_eq_ok {address found : Address kind} :
    parse kind address.render = .ok found ↔ address.Sized ∧ found = address := by
  rw [parse_eq_ok_iff, render_eq_write]
  constructor
  · rintro ⟨sized, spelling, same⟩
    obtain rfl := eq_of_write_eq same
    exact ⟨sized, rfl⟩
  · rintro ⟨sized, rfl⟩
    exact ⟨sized, _, rfl⟩

def capitals : Bech32.Spelling := { Bech32.Spelling.written with letters := .upper }

theorem toUpper_render (address : Address kind) : address.render.toUpper = capitals.write address := by
  have letters : address.render.toUpper.toList = address.render.toList.map Char.toUpper :=
    String.toList_map
  apply String.toList_injective
  rw [letters, render_eq_write]
  simp only [Bech32.Spelling.write, Bech32.Spelling.text, Bech32.Spelling.written, capitals,
    String.toList_ofList, List.map_append, List.map_cons, List.map_map]
  rfl

/-- A rendered address is read back if its length is right and refused for it if not, in small letters
as in capitals; a reader of another kind refuses it for its human readable part. -/
theorem parse_rendered (kind : AddressKind) (address : Address kind) :
    (parse kind address.render = if address.Sized then .ok address
      else .error (.wrongLength address.render address.bytes.length)) ∧
    (parse kind address.render.toUpper = if address.Sized then .ok address
      else .error (.wrongLength address.render.toUpper address.bytes.length)) ∧
    ∀ other, other ≠ kind →
      parse other address.render = .error (.wrongHrp address.render other.hrp kind.hrp) ∧
      parse other address.render.toUpper =
        .error (.wrongHrp address.render.toUpper other.hrp kind.hrp) := by
  rw [toUpper_render, render_eq_write]
  exact ⟨parse_write _ address, parse_write _ address, fun other different =>
    ⟨parse_write_of_ne different _ address, parse_write_of_ne different _ address⟩⟩

def longestAddress : OperatorAddress := ⟨List.replicate 255 7⟩

theorem parse_rendered_longestAddress :
    AddressKind.account ≠ .operator ∧ parse .operator longestAddress.render = .ok longestAddress ∧
      parse .operator longestAddress.render.toUpper = .ok longestAddress ∧
      parse .account longestAddress.render =
        .error (.wrongHrp longestAddress.render "evmos" "evmosvaloper") := by
  have different : AddressKind.account ≠ .operator := by decide
  have length : longestAddress.bytes.length = 255 := List.length_replicate
  have sized : longestAddress.Sized := ⟨by omega, by omega⟩
  obtain ⟨written, capital, others⟩ := parse_rendered .operator longestAddress
  rw [if_pos sized] at written capital
  exact ⟨different, written, capital, (others _ different).1⟩

end Address
end Devnet
