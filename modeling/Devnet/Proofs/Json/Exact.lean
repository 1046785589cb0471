import Devnet.Proofs.Json.Normal
import Devnet.Proofs.Number.Texts
import Mathlib

/-! Codecs that give back what they wrote, both from a document as it was written and from a sorted
one; the documents of a genesis are sorted on their way. The law is an equivalence, since a document
can also be refused for a number that is too large. -/

namespace Devnet

inductive Arrangement
  | written
  | sorted

namespace Arrangement

def apply : Arrangement → Json → Json
  | .written => id
  | .sorted => Json.normal

variable (a : Arrangement)

theorem apply_null : a.apply .null = .null := by cases a <;> rfl

theorem apply_bool (value : Bool) : a.apply (.bool value) = .bool value := by cases a <;> rfl

theorem apply_number (n : JsonNumber) : a.apply (.number n) = .number n := by cases a <;> rfl

theorem apply_string (text : String) : a.apply (.string text) = .string text := by cases a <;> rfl

theorem apply_array (items : List Json) :
    a.apply (.array items) = .array (items.map a.apply) := by
  cases a with
  | written => exact congrArg Json.array (List.map_id items).symm
  | sorted => exact Json.normal_array items

theorem apply_object {members : List (String × Json)} (distinct : (members.map Prod.fst).Nodup) :
    ∃ arranged, a.apply (.object members) = .object arranged ∧
      arranged.Perm (members.map fun member => (member.1, a.apply member.2)) := by
  cases a with
  | written => exact ⟨members, rfl, List.Perm.of_eq (List.map_id members).symm⟩
  | sorted =>
      refine ⟨_, Json.normal_object members, Table.ofEntries_perm ?_⟩
      rw [List.map_map]
      exact distinct

theorem within_apply {good : JsonNumber → Prop} {room : Nat} {value : Json}
    (within : value.Within good room) : (a.apply value).Within good room := by
  cases a with
  | written => exact within
  | sorted => exact within.normal

theorem within_object {good : JsonNumber → Prop} {room : Nat} {members : List (String × Json)}
    (distinct : (members.map Prod.fst).Nodup) (within : (a.apply (.object members)).Within good room) :
    ∃ room', room = room' + 1 ∧ ∀ member ∈ members, (a.apply member.2).Within good room' := by
  obtain ⟨arranged, shape, perm⟩ := a.apply_object distinct
  rw [shape] at within
  cases within with
  | object each =>
      exact ⟨_, rfl, fun member inside =>
        each _ (perm.mem_iff.mpr (List.mem_map.mpr ⟨member, inside, rfl⟩))⟩

end Arrangement

namespace Codec

variable {α β : Type}

def echo (c : Codec α) (a : Arrangement) (room : Nat) (value : α) : Except DecodeFault α :=
  c.decode room (.ofJson (a.apply (c.encode value)))

def Echoes (c : Codec α) (a : Arrangement) (room : Nat) (value : α) (legal : Prop) : Prop :=
  ∀ found, c.echo a room value = .ok found ↔ legal ∧ found = value

/-- Values that `fit` are written as tidy JSON. They come back as they were if they are `legal`, and
are refused otherwise; no document gives a value that is not. -/
structure Exact (c : Codec α) (fit legal : α → Prop) (depth : Nat) : Prop where
  tidy : ∀ value, fit value → (c.encode value).Tidy depth
  echoes : ∀ a room value found, depth ≤ room → fit value →
    (c.echo a room value = .ok found ↔ legal value ∧ found = value)
  sound : ∀ room raw value, c.decode room raw = .ok value → legal value
  absent : ∀ value ∈ c.absent, legal value

theorem Echoes.congr {c : Codec α} {a : Arrangement} {room : Nat} {value : α} {legal legal' : Prop}
    (echoes : c.Echoes a room value legal) (same : legal ↔ legal') : c.Echoes a room value legal' :=
  fun found => (echoes found).trans (and_congr_left' same)

def Always : α → Prop := fun _ => True

namespace Exact

variable {c : Codec α} {fit legal fit' legal' : α → Prop} {depth depth' : Nat}

theorem weaken (exact : c.Exact fit legal depth) (fits : ∀ value, fit' value → fit value)
    (legals : ∀ value, legal value ↔ legal' value) (deeper : depth ≤ depth') :
    c.Exact fit' legal' depth' where
  tidy value fits' := (exact.tidy value (fits value fits')).mono deeper
  echoes a room value found enough fits' := by
    rw [exact.echoes a room value found (Nat.le_trans deeper enough) (fits value fits'), legals value]
  sound room raw value read := (legals value).mp (exact.sound room raw value read)
  absent value left := (legals value).mp (exact.absent value left)

theorem echoes_of_fit (exact : c.Exact fit legal depth) {a : Arrangement} {room : Nat} {value : α}
    (enough : depth ≤ room) (fits : fit value) : c.Echoes a room value (legal value) :=
  fun found => exact.echoes a room value found enough fits

theorem of_ok (tidy : ∀ value, (c.encode value).Tidy depth)
    (echoes : ∀ a room value, depth ≤ room → c.echo a room value = .ok value) :
    c.Exact Always Always depth where
  tidy value _ := tidy value
  echoes a room value found enough _ := by
    rw [echoes a room value enough]
    simp [Always, eq_comm]
  sound _ _ _ _ := trivial
  absent _ _ := trivial

end Exact

theorem exact_string : string.Exact Always Always 0 := by
  apply Exact.of_ok (fun text => .string 0 text)
  intro a room text _
  rw [echo, show string.encode text = .string text from rfl, a.apply_string]
  rfl

theorem exact_bool : bool.Exact Always Always 0 := by
  apply Exact.of_ok (fun value => .bool 0 value)
  intro a room value _
  rw [echo, show bool.encode value = .bool value from rfl, a.apply_bool]
  rfl

theorem decodeRange_integer {least most n : Int} (wanted : String) (low : least ≤ n)
    (high : n ≤ most) :
    decodeRange least most wanted (.number (some (.integer n))) = .ok n := by
  rw [decodeRange, if_pos ⟨low, high⟩]

theorem exact_int64 : int64.Exact Always Always 0 := by
  have bounds : ∀ n : Int64, Word.leastInt64 ≤ n.toInt ∧ n.toInt ≤ Word.greatestInt64 := by
    intro n
    have low := n.le_toInt
    have high := n.toInt_lt
    rw [Word.leastInt64, Word.greatestInt64]
    omega
  have wider : Word.greatestInt64 ≤ (Word.greatestUInt64 : Int) := by decide
  apply Exact.of_ok
  · intro n
    exact .integer 0 ⟨(bounds n).1, Int.le_trans (bounds n).2 wider⟩
  · intro a room n _
    rw [echo, show int64.encode n = .number (.integer n.toInt) from rfl, a.apply_number]
    change (decodeRange _ _ _ (.number (some (.integer n.toInt)))).map Int64.ofInt = _
    rw [decodeRange_integer _ (bounds n).1 (bounds n).2]
    exact congrArg Except.ok (Int64.ofInt_toInt n)

theorem exact_uint32 : uint32.Exact Always Always 0 := by
  have bound : ∀ n : UInt32, n.toNat ≤ 4294967295 := by
    intro n
    have := n.toNat_lt
    omega
  apply Exact.of_ok
  · intro n
    have := bound n
    refine .integer 0 ⟨?_, ?_⟩
    · rw [Word.leastInt64]
      omega
    · rw [Word.greatestUInt64]
      omega
  · intro a room n _
    have := bound n
    rw [echo, show uint32.encode n = .number (.integer n.toNat) from rfl, a.apply_number]
    change (decodeRange _ _ _ (.number (some (.integer n.toNat)))).map _ = _
    rw [decodeRange_integer _ (by omega) (by omega)]
    exact congrArg Except.ok (UInt32.ofNat_toNat)

theorem exact_text {render : α → String} {parse : String → Except ValueFault α} {legal : α → Prop}
    (inverse : ∀ value found, parse (render value) = .ok found ↔ legal value ∧ found = value)
    (sound : ∀ written value, parse written = .ok value → legal value) :
    (text render parse).Exact Always legal 0 where
  tidy value _ := .string 0 (render value)
  echoes a room value found _ _ := by
    rw [echo, show (text render parse).encode value = .string (render value) from rfl, a.apply_string]
    change (parse (render value)).mapError _ = _ ↔ _
    rw [mapError_eq_ok, inverse]
  sound room raw value read := by
    unfold text at read
    simp only at read
    split at read
    · rename_i written
      exact sound written value (mapError_eq_ok.mp read)
    · cases read
  absent value left := by cases left

theorem exact_integer : integer.Exact Always Integer.InRange 0 :=
  exact_text (fun _ _ => by rw [mapError_eq_ok, Integer.parse_render_eq_ok])
    fun _ _ read => Integer.inRange_of_parse (mapError_eq_ok.mp read)

theorem exact_decimal : decimal.Exact Always Decimal.InRange 0 :=
  exact_text (fun _ _ => by rw [mapError_eq_ok, Decimal.parse_render_eq_ok])
    fun _ _ read => Decimal.inRange_of_parse (mapError_eq_ok.mp read)

theorem exact_uint64Text : uint64Text.Exact Always Always 0 := by
  apply exact_text _ fun _ _ _ => trivial
  intro n found
  rw [mapError_eq_ok, show s!"{n.toNat}" = ToString.toString n.toNat from rfl,
    Word.parseUInt64_toString]
  simp [eq_comm]

theorem exact_int64Text : int64Text.Exact Always Always 0 := by
  apply exact_text _ fun _ _ _ => trivial
  intro n found
  rw [mapError_eq_ok, show s!"{n.toInt}" = ToString.toString n.toInt from rfl,
    Word.parseInt64_toString]
  simp [eq_comm]

theorem decodeItems_eq_ok {decode : RawJson → Except DecodeFault α} {items : List RawJson}
    {values : List α} :
    decodeItems decode items = .ok values ↔
      List.Forall₂ (fun item value => decode item = .ok value) items values := by
  induction items generalizing values with
  | nil => simp [decodeItems, List.forall₂_nil_left_iff, eq_comm]
  | cons item items ih =>
      simp only [decodeItems, bind_eq_ok, ih, pure_eq_ok, List.forall₂_cons_left_iff]
      constructor
      · intro given
        rcases given with ⟨value, first, rest, others, rfl⟩
        exact ⟨value, rest, first, others, rfl⟩
      · intro given
        rcases given with ⟨value, rest, first, others, rfl⟩
        exact ⟨value, first, rest, others, rfl⟩

theorem exact_list {c : Codec α} {fit legal : α → Prop} {depth : Nat}
    (exact : c.Exact fit legal depth) :
    (list c).Exact (fun values => ∀ value ∈ values, fit value)
      (fun values => ∀ value ∈ values, legal value) (depth + 1) where
  tidy values fits := by
    apply Json.Within.array
    intro item member
    rcases List.mem_map.mp member with ⟨value, present, rfl⟩
    exact exact.tidy value (fits value present)
  echoes a room values found enough fits := by
    obtain ⟨room, rfl⟩ := Nat.exists_eq_add_one_of_ne_zero (show room ≠ 0 by omega)
    have written : RawJson.ofJson (a.apply ((list c).encode values)) =
        .array (values.map fun value => RawJson.ofJson (a.apply (c.encode value))) := by
      change RawJson.ofJson (a.apply (Json.array (values.map c.encode))) = _
      rw [a.apply_array, RawJson.ofJson_array, List.map_map, List.map_map]
      rfl
    rw [echo, written]
    change decodeItems (c.decode room) _ = _ ↔ _
    rw [decodeItems_eq_ok, List.forall₂_map_left_iff]
    refine (forall₂_good_iff fun value member other =>
      exact.echoes a room value other (by omega) (fits value member)).trans ?_
    rw [List.map_id']
  sound room raw values read := by
    unfold list at read
    simp only at read
    split at read
    · cases read
    · intro value member
      obtain ⟨item, -, taken⟩ := exists_of_forall₂ (decodeItems_eq_ok.mp read) member
      exact exact.sound _ item value taken
    · cases read
  absent values left := by cases left

/-- A value that is there must not be written as null. -/
theorem echoes_option {c : Codec α} {a : Arrangement} {room : Nat} {content : Option α}
    {legal : α → Prop}
    (present : ∀ value ∈ content, RawJson.ofJson (a.apply (c.encode value)) ≠ .null)
    (each : ∀ value ∈ content, c.Echoes a room value (legal value)) :
    (option c).Echoes a room content (∀ value ∈ content, legal value) := by
  intro found
  cases content with
  | none =>
      rw [echo, show (option c).encode none = .null from rfl, a.apply_null]
      change Except.ok none = Except.ok found ↔ _
      simp [eq_comm]
  | some value =>
      have unwrapped : (option c).echo a room (some value) = (c.echo a room value).map some := by
        have there := present value rfl
        unfold echo
        change (option c).decode room (.ofJson (a.apply (c.encode value))) = _
        revert there
        generalize RawJson.ofJson (a.apply (c.encode value)) = raw
        intro there
        cases raw <;> first | rfl | exact absurd rfl there
      rw [unwrapped, map_eq_ok]
      simp only [each value rfl _, Option.mem_def, Option.some.injEq, forall_eq']
      constructor
      · intro given
        rcases given with ⟨_, ⟨legal, rfl⟩, rfl⟩
        exact ⟨legal, rfl⟩
      · intro given
        rcases given with ⟨legal, rfl⟩
        exact ⟨value, ⟨legal, rfl⟩, rfl⟩

theorem decode_of_mem_option {c : Codec α} {room : Nat} {raw : RawJson} {content : Option α}
    (read : (option c).decode room raw = .ok content) {value : α} (member : value ∈ content) :
    c.decode room raw = .ok value := by
  unfold option at read
  simp only at read
  split at read
  · cases read
    cases member
  · obtain ⟨found, taken, same⟩ := map_eq_ok.mp read
    cases same.trans member
    exact taken

theorem exact_option {c : Codec α} {fit legal : α → Prop} {depth : Nat}
    (exact : c.Exact fit legal depth)
    (present : ∀ (a : Arrangement) (value : α), RawJson.ofJson (a.apply (c.encode value)) ≠ .null) :
    (option c).Exact (fun content => ∀ value ∈ content, fit value)
      (fun content => ∀ value ∈ content, legal value) depth where
  tidy content fits := by
    cases content with
    | none => exact .null depth
    | some value => exact exact.tidy value (fits value rfl)
  echoes a room content found enough fits :=
    echoes_option (fun value _ => present a value)
      (fun value member => exact.echoes_of_fit enough (fits value member)) found
  sound room raw content read value member :=
    exact.sound room raw value (decode_of_mem_option read member)
  absent content left := by
    cases left
    intro value member
    cases member

end Codec
end Devnet
