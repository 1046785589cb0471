import Devnet.Genesis.Seen
import Devnet.Proofs.Fault.Outcome
import Mathlib

namespace Devnet.Seen

variable {α κ ε : Type}

def Fresh (seen keys : List κ) : Prop := keys.Nodup ∧ ∀ key ∈ keys, key ∉ seen

theorem fresh_nil (seen : List κ) : Fresh seen [] := ⟨List.nodup_nil, fun _ member => by cases member⟩

theorem fresh_cons (seen : List κ) (key : κ) (keys : List κ) :
    Fresh seen (key :: keys) ↔ key ∉ seen ∧ Fresh (key :: seen) keys := by
  simp only [Fresh, List.nodup_cons, List.mem_cons, not_or, forall_eq_or_imp]
  constructor
  · intro given
    rcases given with ⟨⟨absent, distinct⟩, new, others⟩
    refine ⟨new, distinct, fun other member => ⟨?_, others other member⟩⟩
    rintro rfl
    exact absent member
  · intro given
    rcases given with ⟨new, distinct, others⟩
    exact ⟨⟨fun member => (others key member).1 rfl, distinct⟩, new,
      fun other member => (others other member).2⟩

theorem fresh_empty (keys : List κ) : Fresh [] keys ↔ keys.Nodup := by
  simp [Fresh]

theorem add_eq_ok [DecidableEq κ] {seen after : List κ} {key : κ} {fault : ε} :
    add seen key fault = .ok after ↔ key ∉ seen ∧ after = key :: seen := by
  unfold add
  split <;> simp [*, eq_comm]

/-- `check` looks at an entry on its own, and puts its key with those met before. -/
theorem foldlM_eq_ok {check : List κ → α → Except ε (List κ)} {good : α → Prop} {key : α → κ}
    (step : ∀ seen item after,
      check seen item = .ok after ↔ good item ∧ key item ∉ seen ∧ after = key item :: seen)
    {items : List α} {seen after : List κ} :
    items.foldlM check seen = .ok after ↔
      (∀ item ∈ items, good item) ∧ Fresh seen (items.map key) ∧
        after = (items.map key).reverse ++ seen := by
  induction items generalizing seen with
  | nil => simp [fresh_nil, pure, Except.pure, eq_comm]
  | cons item items ih =>
      rw [List.foldlM_cons, bind_eq_ok, List.map_cons, fresh_cons, List.forall_mem_cons,
        List.reverse_cons, List.append_assoc]
      simp only [step, ih]
      constructor
      · intro given
        rcases given with ⟨_, ⟨first, new, rfl⟩, others, fresh, rfl⟩
        exact ⟨⟨first, others⟩, ⟨new, fresh⟩, rfl⟩
      · intro given
        rcases given with ⟨⟨first, others⟩, ⟨new, fresh⟩, rfl⟩
        exact ⟨_, ⟨first, new, rfl⟩, others, fresh, rfl⟩

theorem discard_foldlM_eq_ok {check : List κ → α → Except ε (List κ)} {good : α → Prop} {key : α → κ}
    (step : ∀ seen item after,
      check seen item = .ok after ↔ good item ∧ key item ∉ seen ∧ after = key item :: seen)
    {items : List α} {done : Unit} :
    discard (items.foldlM check []) = .ok done ↔
      (∀ item ∈ items, good item) ∧ (items.map key).Nodup := by
  simp only [discard_eq_ok, foldlM_eq_ok step, fresh_empty]
  constructor
  · intro given
    rcases given with ⟨_, good, distinct, -⟩
    exact ⟨good, distinct⟩
  · intro given
    rcases given with ⟨good, distinct⟩
    exact ⟨_, good, distinct, rfl⟩

end Devnet.Seen
