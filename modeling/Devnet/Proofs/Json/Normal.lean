import Devnet.Json.Codec
import Devnet.Proofs.Fault.Outcome
import Devnet.Proofs.Json.Numbers
import Devnet.Proofs.Table.Ascending
import Mathlib

namespace Devnet

def JsonNumber.Whole : JsonNumber → Prop
  | .integer n => RawJson.InWords n
  | .double _ => False

namespace Json

/-- All numbers are good, and no more than `room` levels are entered. -/
inductive Within (good : JsonNumber → Prop) : (room : Nat) → Json → Prop
  | null (room : Nat) : Within good room .null
  | bool (room : Nat) (value : Bool) : Within good room (.bool value)
  | number (room : Nat) {n : JsonNumber} (isGood : good n) : Within good room (.number n)
  | string (room : Nat) (text : String) : Within good room (.string text)
  | array {room : Nat} {items : List Json} (each : ∀ item ∈ items, Within good room item) :
      Within good (room + 1) (.array items)
  | object {room : Nat} {members : List (String × Json)}
      (each : ∀ member ∈ members, Within good room member.2) : Within good (room + 1) (.object members)

abbrev Tidy : Nat → Json → Prop := Within JsonNumber.Whole

theorem Tidy.integer (room : Nat) {n : Int} (inWords : RawJson.InWords n) :
    Tidy room (.number (.integer n)) :=
  .number room inWords

variable {good : JsonNumber → Prop} {room : Nat} {value : Json}

theorem Within.mono (within : Within good room value) {more : Nat} (wider : room ≤ more) :
    Within good more value := by
  induction within generalizing more with
  | null => exact .null more
  | bool _ value => exact .bool more value
  | number _ isGood => exact .number more isGood
  | string _ text => exact .string more text
  | array each ih =>
      obtain ⟨more, rfl⟩ := Nat.exists_eq_add_one_of_ne_zero (show more ≠ 0 by omega)
      exact .array fun item member => ih item member (by omega)
  | object each ih =>
      obtain ⟨more, rfl⟩ := Nat.exists_eq_add_one_of_ne_zero (show more ≠ 0 by omega)
      exact .object fun member inside => ih member inside (by omega)

theorem Within.imp {any : JsonNumber → Prop} (within : Within good room value)
    (each : ∀ n, good n → any n) : Within any room value := by
  induction within with
  | null room => exact .null room
  | bool room value => exact .bool room value
  | number room isGood => exact .number room (each _ isGood)
  | string room text => exact .string room text
  | array _ ih => exact .array ih
  | object _ ih => exact .object ih

/-- Numbers and levels may be known from different sources. -/
theorem Within.within {any : JsonNumber → Prop} {more : Nat} (numbers : Within good more value)
    (levels : Within any room value) : Within good room value := by
  induction levels generalizing more with
  | null room => exact .null room
  | bool room value => exact .bool room value
  | number room _ =>
      cases numbers with
      | number _ isGood => exact .number room isGood
  | string room text => exact .string room text
  | array _ ih =>
      cases numbers with
      | array each => exact .array fun item member => ih item member (each item member)
  | object _ ih =>
      cases numbers with
      | object each => exact .object fun member inside => ih member inside (each member inside)

theorem normalItems_eq (items : List Json) : normalItems items = items.map normal := by
  induction items with
  | nil => rfl
  | cons item items ih => rw [normalItems, ih, List.map_cons]

theorem normalMembers_eq (members : List (String × Json)) :
    normalMembers members = members.map fun member => (member.1, member.2.normal) := by
  induction members with
  | nil => rfl
  | cons member members ih =>
      obtain ⟨key, value⟩ := member
      rw [normalMembers, ih, List.map_cons]

theorem normal_array (items : List Json) : (Json.array items).normal = .array (items.map normal) := by
  rw [normal, normalItems_eq]

theorem normal_object (members : List (String × Json)) : (Json.object members).normal =
    .object (Table.ofEntries (members.map fun member => (member.1, member.2.normal))) := by
  rw [normal, normalMembers_eq]

theorem Within.normal (within : Within good room value) : Within good room value.normal := by
  induction within with
  | null room => exact .null room
  | bool room value => exact .bool room value
  | number room isGood => exact .number room isGood
  | string room text => exact .string room text
  | array each ih =>
      rw [normal_array]
      apply Within.array
      intro item member
      rcases List.mem_map.mp member with ⟨source, present, rfl⟩
      exact ih source present
  | object each ih =>
      rw [normal_object]
      apply Within.object
      intro member inside
      rcases List.mem_map.mp (Table.mem_ofEntries inside) with ⟨source, present, rfl⟩
      exact ih source present

theorem Within.normal_normal (within : Within good room value) :
    value.normal.normal = value.normal := by
  induction within with
  | null => rfl
  | bool => rfl
  | number => rfl
  | string => rfl
  | array each ih =>
      rw [normal_array, normal_array, List.map_map]
      exact congrArg Json.array (List.map_congr_left ih)
  | object each ih =>
      rename_i members
      rw [normal_object, normal_object]
      have fixed : ∀ member ∈ Table.ofEntries (members.map fun member => (member.1, member.2.normal)),
          (member.1, member.2.normal) = member := by
        intro member inside
        rcases List.mem_map.mp (Table.mem_ofEntries inside) with ⟨source, present, rfl⟩
        exact Prod.ext rfl (ih source present)
      rw [List.map_congr_left fixed, List.map_id', Table.ofEntries_of_ascending
        (Table.ascending_ofEntries _)]

end Json

namespace RawJson

theorem ofItems_eq (items : List Json) : ofItems items = items.map ofJson := by
  induction items with
  | nil => rfl
  | cons item items ih => rw [ofItems, ih, List.map_cons]

theorem ofMembers_eq (members : List (String × Json)) :
    ofMembers members = members.map fun member => (some member.1, ofJson member.2) := by
  induction members with
  | nil => rfl
  | cons member members ih =>
      obtain ⟨key, value⟩ := member
      rw [ofMembers, ih, List.map_cons]

theorem ofJson_array (items : List Json) : ofJson (.array items) = .array (items.map ofJson) := by
  rw [ofJson, ofItems_eq]

theorem ofJson_object (members : List (String × Json)) : ofJson (.object members) =
    .object (members.map fun member => (some member.1, ofJson member.2)) := by
  rw [ofJson, ofMembers_eq]

theorem toItems_ofItems {room : Nat} {items : List Json}
    (each : ∀ item ∈ items, toJson room (ofJson item) = .ok item.normal) :
    toItems room (items.map ofJson) = .ok (items.map Json.normal) := by
  induction items with
  | nil => rw [List.map_nil, toItems, List.map_nil]
  | cons item items ih =>
      have first := each item List.mem_cons_self
      have others := ih fun other member => each other (List.mem_cons_of_mem _ member)
      rw [List.map_cons, toItems, first, others, List.map_cons]
      rfl

theorem toMembers_ofMembers {room : Nat} {members : List (String × Json)} (sorted : Table String Json)
    (each : ∀ member ∈ members, toJson room (ofJson member.2) = .ok member.2.normal) :
    toMembers room sorted (members.map fun member => (some member.1, ofJson member.2)) =
      .ok ((members.map fun member => (member.1, member.2.normal)).foldl
        (fun table entry => table.insert entry.1 entry.2) sorted) := by
  induction members generalizing sorted with
  | nil =>
      rw [List.map_nil, toMembers]
      rfl
  | cons member members ih =>
      have first := each member List.mem_cons_self
      rw [List.map_cons, toMembers, first, List.map_cons, List.foldl_cons]
      exact ih _ fun other inside => each other (List.mem_cons_of_mem _ inside)

theorem toJson_ofJson {good : JsonNumber → Prop} {room : Nat} {value : Json}
    (within : value.Within good room) : toJson room (ofJson value) = .ok value.normal := by
  induction within with
  | null => rfl
  | bool => rfl
  | number => rfl
  | string => rfl
  | array each ih =>
      rw [ofJson_array, toJson, toItems_ofItems ih, Json.normal_array]
      rfl
  | object each ih =>
      rw [ofJson_object, toJson, toMembers_ofMembers [] ih, Json.normal_object]
      rfl

theorem depth_le_depthItems {item : RawJson} {items : List RawJson} (member : item ∈ items) :
    item.depth ≤ depthItems items := by
  induction items with
  | nil => cases member
  | cons first items ih =>
      rw [depthItems]
      rcases List.mem_cons.mp member with rfl | later
      · exact Nat.le_max_left _ _
      · exact Nat.le_trans (ih later) (Nat.le_max_right _ _)

theorem depth_le_depthMembers {member : Option String × RawJson}
    {members : List (Option String × RawJson)} (inside : member ∈ members) :
    member.2.depth ≤ depthMembers members := by
  induction members with
  | nil => cases inside
  | cons first members ih =>
      rw [depthMembers]
      rcases List.mem_cons.mp inside with rfl | later
      · exact Nat.le_max_left _ _
      · exact Nat.le_trans (ih later) (Nat.le_max_right _ _)

end RawJson

namespace Json

theorem within_depth : (value : Json) → value.Within (fun _ => True) (RawJson.ofJson value).depth
  | .null => .null _
  | .bool value => .bool _ value
  | .number _ => .number _ trivial
  | .string text => .string _ text
  | .array items => by
      rw [RawJson.ofJson_array, RawJson.depth, Nat.add_comm]
      exact .array fun item member =>
        (within_depth item).mono (RawJson.depth_le_depthItems (List.mem_map_of_mem member))
  | .object members => by
      rw [RawJson.ofJson_object, RawJson.depth, Nat.add_comm]
      exact .object fun member inside =>
        (within_depth member.2).mono (RawJson.depth_le_depthMembers
          (List.mem_map_of_mem (f := fun member : String × Json =>
            (some member.1, RawJson.ofJson member.2)) inside))
termination_by value => sizeOf value
decreasing_by
  · have smaller := List.sizeOf_lt_of_mem member
    rw [Json.array.sizeOf_spec]
    omega
  · have smaller := List.sizeOf_lt_of_mem inside
    rw [Json.object.sizeOf_spec]
    obtain ⟨key, value⟩ := member
    rw [Prod.mk.sizeOf_spec] at smaller
    change sizeOf value < _
    omega

theorem normal_normal (value : Json) : value.normal.normal = value.normal :=
  (within_depth value).normal_normal

end Json
end Devnet
