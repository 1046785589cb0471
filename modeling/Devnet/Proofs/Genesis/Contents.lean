import Devnet.Proofs.Genesis.Documents
import Mathlib

namespace Devnet

theorem Codec.exists_of_mem_list {α : Type} {c : Codec α} {room : Nat} {raw : RawJson}
    {values : List α} (read : (Codec.list c).decode room raw = .ok values) {value : α}
    (member : value ∈ values) :
    ∃ room', room = room' + 1 ∧ ∃ item ∈ raw.parts, c.decode room' item = .ok value := by
  simp only [Codec.list] at read
  split at read
  · cases read
  · obtain ⟨item, inside, taken⟩ := exists_of_forall₂ (Codec.decodeItems_eq_ok.mp read) member
    exact ⟨_, rfl, item, inside, taken⟩
  · cases read

namespace Json.Within

variable {good : JsonNumber → Prop} {room : Nat}

theorem items {items : List Json} (within : Within good room (.array items)) :
    ∀ item ∈ items, Within good (room - 1) item := by
  cases within with
  | array each => exact each

theorem members {members : List (String × Json)} (within : Within good room (.object members)) :
    ∀ member ∈ members, Within good (room - 1) member.2 := by
  cases within with
  | object each => exact each

end Json.Within

theorem Envelope.settled_of_tidy {room : Nat} {envelope : Envelope} (formed : Formed envelope.fields)
    (tidy : (codec.encode envelope).Tidy room) : envelope.Settled (room - 1) where
  toFormed := formed
  within field member := tidy.members field (List.mem_cons_of_mem _ member)

namespace Auth

theorem Section.made_of_decode {good : JsonNumber → Prop} {room : Nat} {raw : RawJson} {s : Section}
    (numbers : raw.Numbers good) (read : Section.codec.decode room raw = .ok s) :
    ∀ account ∈ s.accounts, account.Made good (room - 3) := by
  obtain ⟨⟨params, accounts, ⟨⟩⟩, taken, rfl⟩ := map_eq_ok.mp read
  obtain ⟨room, rfl, -, found, -⟩ := Fields.from_decode taken
  intro account member
  rcases found with absent | ⟨part, inside, listed⟩
  · cases absent
  · obtain ⟨room, rfl, item, present, decoded⟩ := Codec.exists_of_mem_list listed member
    obtain ⟨room, rfl, made⟩ :=
      Envelope.made_decode ((numbers.parts part inside).parts item present) decoded
    exact made

theorem Section.settled_of_tidy {room : Nat} {s : Section}
    (formed : ∀ account ∈ s.accounts, Envelope.Formed account.fields)
    (tidy : (Section.codec.encode s).Tidy room) :
    ∀ account ∈ s.accounts, account.Settled (room - 3) := by
  have accounts : (Json.array (s.accounts.map Envelope.codec.encode)).Tidy (room - 1) :=
    tidy.members ("accounts", _) (.tail _ (.head _))
  intro account member
  exact Envelope.settled_of_tidy (formed account member)
    (accounts.items _ (List.mem_map_of_mem member))

end Auth

namespace Staking

theorem Validator.made_of_decode {good : JsonNumber → Prop} {room : Nat} {raw : RawJson}
    {v : Validator} (numbers : raw.Numbers good) (read : Validator.codec.decode room raw = .ok v) :
    v.consensusKey.Made good (room - 2) := by
  obtain ⟨⟨operator, key, others⟩, taken, rfl⟩ := map_eq_ok.mp read
  obtain ⟨room, rfl, -, found, -⟩ := Fields.from_decode taken
  rcases found with absent | ⟨part, inside, decoded⟩
  · cases absent
  · obtain ⟨room, rfl, made⟩ := Envelope.made_decode (numbers.parts part inside) decoded
    exact made

theorem Section.made_of_decode {good : JsonNumber → Prop} {room : Nat} {raw : RawJson} {s : Section}
    (numbers : raw.Numbers good) (read : Section.codec.decode room raw = .ok s) :
    ∀ v ∈ s.validators, v.consensusKey.Made good (room - 4) := by
  obtain ⟨⟨params, total, powers, validators, others⟩, taken, rfl⟩ := map_eq_ok.mp read
  obtain ⟨room, rfl, -, -, -, found, -⟩ := Fields.from_decode taken
  intro v member
  rcases found with absent | ⟨part, inside, listed⟩
  · cases absent
  · obtain ⟨room, rfl, item, present, decoded⟩ := Codec.exists_of_mem_list listed member
    exact Validator.made_of_decode ((numbers.parts part inside).parts item present) decoded

theorem Validator.settled_of_tidy {room : Nat} {v : Validator}
    (formed : Envelope.Formed v.consensusKey.fields) (tidy : (Validator.codec.encode v).Tidy room) :
    v.consensusKey.Settled (room - 2) :=
  Envelope.settled_of_tidy formed (tidy.members ("consensus_pubkey", _) (.tail _ (.head _)))

theorem Section.settled_of_tidy {room : Nat} {s : Section}
    (formed : ∀ v ∈ s.validators, Envelope.Formed v.consensusKey.fields)
    (tidy : (Section.codec.encode s).Tidy room) :
    ∀ v ∈ s.validators, v.consensusKey.Settled (room - 4) := by
  have validators : (Json.array (s.validators.map Validator.codec.encode)).Tidy (room - 1) :=
    tidy.members ("validators", _) (.tail _ (.tail _ (.tail _ (.head _))))
  intro v member
  exact Validator.settled_of_tidy (formed v member) (validators.items _ (List.mem_map_of_mem member))

end Staking

namespace Module

theorem name_injective : Function.Injective name := by
  intro a b same
  cases a <;> cases b <;> first | rfl | exact absurd same (by decide)

def InRange : (m : Module) → m.Content → Prop
  | .auth => Codec.Always
  | .bank => Bank.Section.InRange
  | .staking => Staking.Section.InRange
  | .inflation => Inflation.Section.InRange
  | .evm => Evm.Section.InRange

def envelopes : (m : Module) → m.Content → List Envelope
  | .auth => Auth.Section.accounts
  | .staking => fun s => s.validators.map Staking.Validator.consensusKey
  | _ => fun _ => []

/-- A section whose envelopes have the fields of some document, and whose own document has no doubles
and no more than some levels. -/
structure Fits (m : Module) (room : Nat) (content : m.Content) : Prop where
  formed : ∀ envelope ∈ m.envelopes content, Envelope.Formed envelope.fields
  tidy : (m.codec.encode content).Tidy room

def leastRoom : Nat := 6

variable {m : Module} {room : Nat} {content : m.Content}

theorem exact_codec (m : Module) (enough : leastRoom ≤ room) :
    m.codec.Exact (m.Fits room) m.InRange room := by
  rw [leastRoom] at enough
  cases m with
  | auth =>
      have deep : room - 3 + 3 ≤ room := by omega
      apply Auth.Section.exact_codec.weaken _ (fun _ => Iff.rfl) deep
      exact fun s fits => Auth.Section.settled_of_tidy fits.formed fits.tidy
  | bank => exact Bank.Section.exact_codec.weaken (fun _ _ => trivial) (fun _ => Iff.rfl) enough
  | staking =>
      have deep : max (room - 4 + 4) 5 ≤ room := by omega
      apply Staking.Section.exact_codec.weaken _ (fun _ => Iff.rfl) deep
      intro s fits
      apply Staking.Section.settled_of_tidy _ fits.tidy
      exact fun v member => fits.formed v.consensusKey (List.mem_map_of_mem member)
  | inflation =>
      exact Inflation.Section.exact_codec.weaken (fun _ _ => trivial) (fun _ => Iff.rfl) (by omega)
  | evm => exact Evm.Section.exact_codec.weaken (fun _ _ => trivial) (fun _ => Iff.rfl) (by omega)

theorem inRange_standard (m : Module) : m.InRange m.standard := by
  cases m with
  | auth => trivial
  | bank => exact ⟨List.forall_mem_nil _, List.forall_mem_nil _⟩
  | staking =>
      exact Staking.Section.inRange_make Decimal.inRange_zero (List.forall_mem_nil _)
        (List.forall_mem_nil _)
  | inflation => refine ⟨⟨?_, ?_, ?_, ?_, ?_⟩, ?_, ?_⟩ <;> decide +kernel
  | evm =>
      intro height member n present
      have each : ∀ height ∈ Evm.ChainConfig.standard.heights, height = some 0 ∨ height = none := by
        decide
      rcases each height member with rfl | rfl
      · cases present
        exact Integer.inRange_zero
      · cases present

theorem fits_standard (m : Module) (enough : leastRoom ≤ room) : m.Fits room m.standard where
  formed := by cases m <;> exact List.forall_mem_nil _
  tidy := by
    rw [leastRoom] at enough
    cases m with
    | auth =>
        have settled : ∀ account ∈ Auth.Section.standard.accounts, account.Settled 0 :=
          List.forall_mem_nil _
        exact (Auth.Section.exact_codec.tidy .standard settled).mono (by omega)
    | bank => exact (Bank.Section.exact_codec.tidy .standard trivial).mono enough
    | staking =>
        have settled : ∀ v ∈ Staking.Section.standard.validators, v.consensusKey.Settled 0 :=
          List.forall_mem_nil _
        exact (Staking.Section.exact_codec.tidy .standard settled).mono (by omega)
    | inflation => exact (Inflation.Section.exact_codec.tidy .standard trivial).mono (by omega)
    | evm => exact (Evm.Section.exact_codec.tidy .standard trivial).mono (by omega)

theorem inRange_of_decode {raw : RawJson} (read : m.codec.decode room raw = .ok content) :
    m.InRange content :=
  (exact_codec m (Nat.le_refl leastRoom)).sound room raw content read

theorem formed_of_decode {raw : RawJson} (read : m.codec.decode room raw = .ok content) :
    ∀ envelope ∈ m.envelopes content, Envelope.Formed envelope.fields := by
  cases m with
  | auth =>
      exact fun account member =>
        (Auth.Section.made_of_decode raw.numbers_any read account member).toFormed
  | staking =>
      refine List.forall_mem_map.mpr fun v member => ?_
      exact (Staking.Section.made_of_decode raw.numbers_any read v member).toFormed
  | bank | inflation | evm => exact List.forall_mem_nil _

/-- A document without doubles gives sections that are given back by documents as deep as itself. -/
theorem fits_of_decode (enough : leastRoom ≤ room) {raw : RawJson}
    (whole : raw.Numbers JsonNumber.Whole) (read : m.codec.decode room raw = .ok content) :
    m.Fits room content where
  formed := formed_of_decode read
  tidy := by
    rw [leastRoom] at enough
    cases m with
    | auth =>
        apply (Auth.Section.exact_codec.tidy content (Auth.Section.made_of_decode whole read)).mono
        omega
    | bank => exact (Bank.Section.exact_codec.tidy content trivial).mono enough
    | staking =>
        have keys := Staking.Section.made_of_decode whole read
        apply (Staking.Section.exact_codec.tidy content keys).mono
        omega
    | inflation => exact (Inflation.Section.exact_codec.tidy content trivial).mono (by omega)
    | evm => exact (Evm.Section.exact_codec.tidy content trivial).mono (by omega)

end Module
end Devnet
