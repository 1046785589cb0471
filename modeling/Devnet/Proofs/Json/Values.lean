import Devnet.Proofs.Json.Normal
import Mathlib

namespace Devnet.RawJson

/-- All numbers are good. A number that is too large to be held is no number of a value. -/
inductive Numbers (good : JsonNumber → Prop) : RawJson → Prop
  | null : Numbers good .null
  | bool (value : Bool) : Numbers good (.bool value)
  | number {value : Option JsonNumber} (isGood : ∀ n ∈ value, good n) : Numbers good (.number value)
  | string (text : Option String) : Numbers good (.string text)
  | array {items : List RawJson} (each : ∀ item ∈ items, Numbers good item) :
      Numbers good (.array items)
  | object {members : List (Option String × RawJson)} (each : ∀ member ∈ members,
      Numbers good member.2) : Numbers good (.object members)
  | broken : Numbers good .broken

theorem numbers_any : (raw : RawJson) → raw.Numbers fun _ => True
  | .null => .null
  | .bool value => .bool value
  | .number _ => .number fun _ _ => trivial
  | .string text => .string text
  | .array items => .array fun item _ => numbers_any item
  | .object members => .object fun member _ => numbers_any member.2
  | .broken => .broken
termination_by raw => sizeOf raw
decreasing_by
  · rename_i inside
    have smaller := List.sizeOf_lt_of_mem inside
    rw [RawJson.array.sizeOf_spec]
    omega
  · rename_i inside
    have smaller := List.sizeOf_lt_of_mem inside
    rw [RawJson.object.sizeOf_spec]
    obtain ⟨key, raw⟩ := member
    rw [Prod.mk.sizeOf_spec] at smaller
    change sizeOf raw < _
    omega

def parts : RawJson → List RawJson
  | .array items => items
  | .object members => members.map Prod.snd
  | _ => []

theorem Numbers.parts {good : JsonNumber → Prop} {raw : RawJson} (numbers : raw.Numbers good) :
    ∀ part ∈ raw.parts, part.Numbers good := by
  cases numbers with
  | array each => exact each
  | object each => exact List.forall_mem_map.mpr each
  | null | bool | number | string | broken => exact List.forall_mem_nil _

theorem numbers_ofJson {good : JsonNumber → Prop} {room : Nat} {value : Json}
    (within : value.Within good room) : (ofJson value).Numbers good := by
  induction within with
  | null => exact .null
  | bool _ value => exact .bool value
  | number _ isGood =>
      apply Numbers.number
      intro n same
      cases same
      exact isGood
  | string _ text => exact .string text
  | array _ ih =>
      rw [ofJson_array]
      exact .array (List.forall_mem_map.mpr ih)
  | object _ ih =>
      rw [ofJson_object]
      exact .object (List.forall_mem_map.mpr ih)

section Proper

variable {fuel : Nat}

theorem numbers_readValue
    (items : ∀ text, ∀ item ∈ (readItems fuel text).1, item.Numbers Proper)
    (members : ∀ text, ∀ member ∈ (readMembers fuel text).1, member.2.Numbers Proper)
    (text : List Symbol) : (readValue (fuel + 1) text).1.Numbers Proper := by
  have numeral {n : Numeral} : (RawJson.number n.value).Numbers Proper :=
    .number fun _ => Numeral.proper_value
  rw [readValue]
  split
  · split
    · exact .object (List.forall_mem_nil _)
    · exact .object (members _)
  · split
    · exact .array (List.forall_mem_nil _)
    · exact .array (items _)
  · split
    · exact .string _
    · exact .broken
  · exact .null
  · exact .bool true
  · exact .bool false
  · split
    · exact numeral
    · exact .broken
  · split
    · exact numeral
    · exact .broken

theorem numbers_readItems (value : ∀ text, (readValue fuel text).1.Numbers Proper)
    (items : ∀ text, ∀ item ∈ (readItems fuel text).1, item.Numbers Proper) (text : List Symbol) :
    ∀ item ∈ (readItems (fuel + 1) text).1, item.Numbers Proper := by
  have first := value text
  rw [readItems]
  split
  · rename_i read
    rw [read] at first
    exact List.forall_mem_singleton.mpr first
  · rename_i read
    rw [read] at first
    split
    · exact List.forall_mem_cons.mpr ⟨first, items _⟩
    · exact List.forall_mem_singleton.mpr first
    · exact List.forall_mem_cons.mpr ⟨first, List.forall_mem_singleton.mpr .broken⟩

theorem numbers_readMembers (value : ∀ text, (readValue fuel text).1.Numbers Proper)
    (members : ∀ text, ∀ member ∈ (readMembers fuel text).1, member.2.Numbers Proper)
    (text : List Symbol) :
    ∀ member ∈ (readMembers (fuel + 1) text).1, member.2.Numbers Proper := by
  rw [readMembers]
  split
  · split
    · exact List.forall_mem_singleton.mpr .broken
    · split
      · rename_i rest _
        have first := value rest
        split
        · rename_i read
          rw [read] at first
          exact List.forall_mem_singleton.mpr first
        · rename_i read
          rw [read] at first
          split
          · exact List.forall_mem_cons.mpr ⟨first, members _⟩
          · exact List.forall_mem_singleton.mpr first
          · exact List.forall_mem_cons.mpr ⟨first, List.forall_mem_singleton.mpr .broken⟩
      · exact List.forall_mem_singleton.mpr .broken
  · exact List.forall_mem_singleton.mpr .broken

theorem numbers_read (fuel : Nat) :
    (∀ text, (readValue fuel text).1.Numbers Proper) ∧
      (∀ text, ∀ item ∈ (readItems fuel text).1, item.Numbers Proper) ∧
      ∀ text, ∀ member ∈ (readMembers fuel text).1, member.2.Numbers Proper := by
  induction fuel with
  | zero =>
      exact ⟨fun _ => .broken, fun _ => List.forall_mem_singleton.mpr .broken,
        fun _ => List.forall_mem_singleton.mpr .broken⟩
  | succ fuel ih =>
      obtain ⟨value, items, members⟩ := ih
      exact ⟨numbers_readValue items members, numbers_readItems value items,
        numbers_readMembers value members⟩

end Proper

theorem numbers_ofBytes (bytes : Bytes) : (Document.ofBytes bytes).body.Numbers Proper := by
  have read := (numbers_read (2 * (Utf8.decode bytes).length + 2)).1 (Utf8.decode bytes)
  unfold Document.ofBytes Document.ofSymbols
  split
  · rename_i shape
    rw [shape] at read
    exact read
  · rename_i shape
    rw [shape] at read
    exact read

theorem toItems_eq_ok {room : Nat} {items : List RawJson} {values : List Json} :
    toItems room items = .ok values ↔
      List.Forall₂ (fun item value => toJson room item = .ok value) items values := by
  induction items generalizing values with
  | nil => simp [toItems, List.forall₂_nil_left_iff, eq_comm]
  | cons item items ih =>
      simp only [toItems, bind_eq_ok, ih, pure_eq_ok, List.forall₂_cons_left_iff]
      constructor
      · intro given
        rcases given with ⟨value, first, rest, others, rfl⟩
        exact ⟨value, rest, first, others, rfl⟩
      · intro given
        rcases given with ⟨value, rest, first, others, rfl⟩
        exact ⟨value, first, rest, others, rfl⟩

def Gives (room : Nat) (member : Option String × RawJson) (entry : String × Json) : Prop :=
  member.1 = some entry.1 ∧ toJson room member.2 = .ok entry.2

theorem toMembers_eq_ok {room : Nat} {members : List (Option String × RawJson)}
    {sorted table : Table String Json} :
    toMembers room sorted members = .ok table ↔ ∃ entries, List.Forall₂ (Gives room) members entries ∧
      table = entries.foldl (fun table entry => table.insert entry.1 entry.2) sorted := by
  induction members generalizing sorted with
  | nil => simp [toMembers, List.forall₂_nil_left_iff, eq_comm]
  | cons member members ih =>
      obtain ⟨key, raw⟩ := member
      simp only [List.forall₂_cons_left_iff]
      cases key with
      | none =>
          constructor
          · intro refused
            cases refused
          · intro given
            rcases given with ⟨entries, ⟨entry, rest, first, -, -⟩, -⟩
            cases first.1
      | some key =>
          simp only [toMembers, bind_eq_ok, ih]
          constructor
          · intro given
            rcases given with ⟨value, first, entries, others, rfl⟩
            exact ⟨(key, value) :: entries, ⟨(key, value), entries, ⟨rfl, first⟩, others, rfl⟩, rfl⟩
          · intro given
            rcases given with ⟨_, ⟨⟨name, value⟩, entries, ⟨same, first⟩, others, rfl⟩, rfl⟩
            cases same
            exact ⟨value, first, entries, others, rfl⟩

theorem forall_mem_toMembers {P : Json → Prop} {room : Nat}
    {members : List (Option String × RawJson)} {table : Table String Json}
    (read : toMembers room [] members = .ok table)
    (each : ∀ member ∈ members, ∀ value, toJson room member.2 = .ok value → P value) :
    ∀ entry ∈ table, P entry.2 := by
  obtain ⟨entries, gives, rfl⟩ := toMembers_eq_ok.mp read
  intro entry inside
  obtain ⟨member, present, -, taken⟩ := exists_of_forall₂ gives (Table.mem_ofEntries inside)
  exact each member present entry.2 taken

theorem ascending_toMembers {room : Nat} {members : List (Option String × RawJson)}
    {table : Table String Json} (read : toMembers room [] members = .ok table) : table.Ascending := by
  obtain ⟨entries, -, rfl⟩ := toMembers_eq_ok.mp read
  exact Table.ascending_ofEntries entries

theorem within_toJson {good : JsonNumber → Prop} {room : Nat} {raw : RawJson} {value : Json}
    (numbers : raw.Numbers good) (read : toJson room raw = .ok value) :
    value.Within good room ∧ value.normal = value := by
  induction numbers generalizing room value with
  | null =>
      cases read
      exact ⟨.null room, rfl⟩
  | bool value =>
      cases read
      exact ⟨.bool room value, rfl⟩
  | @number n isGood =>
      cases n with
      | none => cases read
      | some n =>
          cases read
          exact ⟨.number room (isGood n rfl), rfl⟩
  | string text =>
      cases text with
      | none => cases read
      | some text =>
          cases read
          exact ⟨.string room text, rfl⟩
  | array _ ih =>
      cases room with
      | zero => cases read
      | succ room =>
          obtain ⟨values, inner, rfl⟩ := map_eq_ok.mp read
          have each : ∀ value ∈ values, value.Within good room ∧ value.normal = value := by
            intro value member
            obtain ⟨item, inside, taken⟩ := exists_of_forall₂ (toItems_eq_ok.mp inner) member
            exact ih item inside taken
          refine ⟨.array fun value member => (each value member).1, ?_⟩
          rw [Json.normal_array, List.map_congr_left fun value member => (each value member).2,
            List.map_id']
  | object _ ih =>
      cases room with
      | zero => cases read
      | succ room =>
          obtain ⟨table, inner, rfl⟩ := map_eq_ok.mp read
          have each := forall_mem_toMembers inner fun member inside value taken =>
            ih member inside taken
          -- the keys of the table ascend, so that sorting its members again changes nothing
          have fixed : ∀ entry ∈ table, (entry.1, entry.2.normal) = entry := fun entry inside =>
            Prod.ext rfl (each entry inside).2
          refine ⟨.object fun entry inside => (each entry inside).1, ?_⟩
          rw [Json.normal_object, List.map_congr_left fixed, List.map_id',
            Table.ofEntries_of_ascending (ascending_toMembers inner)]
  | broken => cases read

theorem within_toMembers {good : JsonNumber → Prop} {room : Nat}
    {members : List (Option String × RawJson)} {table : Table String Json}
    (numbers : ∀ member ∈ members, member.2.Numbers good)
    (read : toMembers room [] members = .ok table) :
    ∀ entry ∈ table, entry.2.Within good room ∧ entry.2.normal = entry.2 :=
  forall_mem_toMembers read fun member inside _ taken => within_toJson (numbers member inside) taken

/-- A value that is read from a document nests no deeper than what may be entered, also where a member
is replaced by a later one. -/
theorem within_of_toJson_ofJson {good : JsonNumber → Prop} {room more : Nat} {value found : Json}
    (within : value.Within good more) (read : toJson room (ofJson value) = .ok found) :
    value.Within (fun _ => True) room := by
  induction within generalizing room found with
  | null => exact .null room
  | bool _ value => exact .bool room value
  | number => exact .number room trivial
  | string _ text => exact .string room text
  | array _ ih =>
      rw [ofJson_array] at read
      cases room with
      | zero => cases read
      | succ room =>
          obtain ⟨values, inner, -⟩ := map_eq_ok.mp read
          refine .array fun item member => ?_
          obtain ⟨value, -, taken⟩ :=
            exists_of_forall₂ (toItems_eq_ok.mp inner).flip (List.mem_map_of_mem member)
          exact ih item member taken
  | object _ ih =>
      rw [ofJson_object] at read
      cases room with
      | zero => cases read
      | succ room =>
          obtain ⟨table, inner, -⟩ := map_eq_ok.mp read
          obtain ⟨entries, gives, -⟩ := toMembers_eq_ok.mp inner
          refine .object fun member inside => ?_
          obtain ⟨entry, -, -, taken⟩ :=
            exists_of_forall₂ gives.flip (List.mem_map_of_mem inside)
          exact ih member inside taken

theorem eq_malformed_of_toItems {room : Nat} {items : List RawJson} {fault : DecodeFault}
    (each : ∀ item ∈ items, ∀ fault, toJson room item = .error fault → fault = .malformed)
    (refused : toItems room items = .error fault) : fault = .malformed := by
  induction items with
  | nil => cases refused
  | cons item items ih =>
      obtain ⟨first, others⟩ := List.forall_mem_cons.mp each
      simp only [toItems, bind_eq_error] at refused
      rcases refused with here | ⟨_, -, later | ⟨_, -, ⟨⟩⟩⟩
      · exact first fault here
      · exact ih others later

theorem eq_malformed_of_toMembers {room : Nat} {members : List (Option String × RawJson)}
    {sorted : Table String Json} {fault : DecodeFault}
    (each : ∀ member ∈ members, ∀ fault, toJson room member.2 = .error fault → fault = .malformed)
    (refused : toMembers room sorted members = .error fault) : fault = .malformed := by
  induction members generalizing sorted with
  | nil => cases refused
  | cons member members ih =>
      obtain ⟨key, raw⟩ := member
      obtain ⟨first, others⟩ := List.forall_mem_cons.mp each
      cases key with
      | none =>
          cases refused
          rfl
      | some key =>
          simp only [toMembers, bind_eq_error] at refused
          rcases refused with here | ⟨_, -, later⟩
          · exact first fault here
          · exact ih others later

theorem eq_malformed_of_toJson {room : Nat} {raw : RawJson} {fault : DecodeFault}
    (refused : toJson room raw = .error fault) : fault = .malformed := by
  induction raw.numbers_any generalizing room fault with
  | null => cases refused
  | bool => cases refused
  | @number value _ =>
      cases value with
      | none =>
          cases refused
          rfl
      | some n => cases refused
  | string text =>
      cases text with
      | none =>
          cases refused
          rfl
      | some text => cases refused
  | array _ ih =>
      cases room with
      | zero =>
          cases refused
          rfl
      | succ room =>
          exact eq_malformed_of_toItems (fun item member _ => ih item member) (map_eq_error.mp refused)
  | object _ ih =>
      cases room with
      | zero =>
          cases refused
          rfl
      | succ room =>
          exact eq_malformed_of_toMembers (fun member inside _ => ih member inside)
            (map_eq_error.mp refused)
  | broken =>
      cases refused
      rfl

end Devnet.RawJson
