import Mathlib

/-! When a computation that can fail succeeds: one lemma for each way of putting such computations
together, so that a checked sequence of steps is read off as the list of what each step gave. -/

namespace Devnet

variable {α β ε ε' : Type}

theorem bind_eq_ok {x : Except ε α} {f : α → Except ε β} {b : β} :
    (x >>= f) = .ok b ↔ ∃ a, x = .ok a ∧ f a = .ok b := by
  cases x with
  | error fault => simp [bind, Except.bind]
  | ok a => simp [bind, Except.bind]

theorem map_eq_ok {x : Except ε α} {f : α → β} {b : β} :
    x.map f = .ok b ↔ ∃ a, x = .ok a ∧ f a = b := by
  cases x <;> simp [Except.map]

theorem bind_eq_error {x : Except ε α} {f : α → Except ε β} {fault : ε} :
    (x >>= f) = .error fault ↔ x = .error fault ∨ ∃ a, x = .ok a ∧ f a = .error fault := by
  cases x with
  | error fault => simp [bind, Except.bind]
  | ok a => simp [bind, Except.bind]

theorem map_eq_error {x : Except ε α} {f : α → β} {fault : ε} :
    x.map f = .error fault ↔ x = .error fault := by
  cases x <;> simp [Except.map]

theorem mapError_eq_ok {x : Except ε α} {f : ε → ε'} {a : α} :
    x.mapError f = .ok a ↔ x = .ok a := by
  cases x <;> simp [Except.mapError]

theorem pure_eq_ok {a b : α} : (pure a : Except ε α) = .ok b ↔ a = b := by
  simp [pure, Except.pure]

theorem throw_ne_ok {fault : ε} {a : α} : ¬(throw fault : Except ε α) = .ok a := by
  intro same
  cases same

theorem check_bind_eq_ok {refused : Prop} [Decidable refused] {fault : ε} {f : α → Except ε β}
    {x : Except ε β} {b : β} :
    (if refused then throw fault >>= f else x) = .ok b ↔ ¬refused ∧ x = .ok b := by
  by_cases refused <;> simp [*, bind, Except.bind, throw, throwThe, MonadExceptOf.throw]

theorem check_eq_ok {refused : Prop} [Decidable refused] {fault : ε} {x : Except ε α} {a : α} :
    (if refused then throw fault else x) = .ok a ↔ ¬refused ∧ x = .ok a := by
  by_cases refused <;> simp [*, throw, throwThe, MonadExceptOf.throw]

theorem refusal_eq_ok {refused : Prop} [Decidable refused] {fault : ε} {x : Except ε α} {a : α} :
    (if refused then .error fault else x) = .ok a ↔ ¬refused ∧ x = .ok a := check_eq_ok

theorem discard_eq_ok {x : Except ε α} {done : Unit} :
    discard x = .ok done ↔ ∃ a, x = .ok a := by
  cases x <;> simp [discard, Functor.discard, Functor.mapConst, Except.map]

theorem forM_eq_ok {items : List α} {f : α → Except ε Unit} {done : Unit} :
    items.forM f = .ok done ↔ ∀ item ∈ items, f item = .ok () := by
  induction items with
  | nil => exact ⟨fun _ item member => absurd member List.not_mem_nil, fun _ => rfl⟩
  | cons item items ih =>
      show (f item >>= fun _ => items.forM f) = .ok done ↔ _
      rw [bind_eq_ok, List.forall_mem_cons]
      constructor
      · intro given
        rcases given with ⟨⟨⟩, first, others⟩
        exact ⟨first, ih.mp others⟩
      · intro given
        rcases given with ⟨first, others⟩
        exact ⟨(), first, ih.mpr others⟩

theorem mapM_eq_ok {items : List α} {f : α → Except ε β} {values : List β} :
    items.mapM f = .ok values ↔
      List.Forall₂ (fun item value => f item = .ok value) items values := by
  induction items generalizing values with
  | nil =>
      rw [List.mapM_nil, pure_eq_ok, List.forall₂_nil_left_iff]
      exact eq_comm
  | cons item items ih =>
      simp only [List.mapM_cons, bind_eq_ok, ih, pure_eq_ok, List.forall₂_cons_left_iff]
      constructor
      · intro given
        rcases given with ⟨value, first, rest, others, rfl⟩
        exact ⟨value, rest, first, others, rfl⟩
      · intro given
        rcases given with ⟨value, rest, first, others, rfl⟩
        exact ⟨value, first, rest, others, rfl⟩

theorem exists_of_forall₂ {R : α → β → Prop} {items : List α} {values : List β}
    (each : List.Forall₂ R items values) {value : β} (member : value ∈ values) :
    ∃ item ∈ items, R item value := by
  induction each with
  | nil => cases member
  | @cons item first items values related others ih =>
      rcases List.mem_cons.mp member with rfl | later
      · exact ⟨item, List.mem_cons_self, related⟩
      · obtain ⟨source, inside, related⟩ := ih later
        exact ⟨source, List.mem_cons_of_mem _ inside, related⟩

theorem exists_forall₂ {R : α → β → Prop} {items : List α}
    (each : ∀ item ∈ items, ∃ value, R item value) : ∃ values, List.Forall₂ R items values := by
  induction items with
  | nil => exact ⟨[], .nil⟩
  | cons item items ih =>
      obtain ⟨⟨value, first⟩, later⟩ := List.forall_mem_cons.mp each
      obtain ⟨values, others⟩ := ih later
      exact ⟨value :: values, .cons first others⟩

theorem exists_between {γ : Type} {R : α → β → Prop} {S : β → γ → Prop} {items : List α}
    {values : List γ} (each : List.Forall₂ (fun item value => ∃ b, R item b ∧ S b value) items values) :
    ∃ between, List.Forall₂ R items between ∧ List.Forall₂ S between values := by
  induction each with
  | nil => exact ⟨[], .nil, .nil⟩
  | cons first _ ih =>
      obtain ⟨b, related, related'⟩ := first
      obtain ⟨between, others, others'⟩ := ih
      exact ⟨b :: between, .cons related others, .cons related' others'⟩

theorem forall₂_good_iff {R : α → β → Prop} {good : α → Prop} {image : α → β} {items : List α}
    {values : List β}
    (each : ∀ item ∈ items, ∀ value, R item value ↔ good item ∧ value = image item) :
    List.Forall₂ R items values ↔ (∀ item ∈ items, good item) ∧ values = items.map image := by
  induction items generalizing values with
  | nil => simp [List.forall₂_nil_left_iff]
  | cons item items ih =>
      obtain ⟨first, others⟩ := List.forall_mem_cons.mp each
      simp only [List.forall₂_cons_left_iff, first, ih others, List.forall_mem_cons, List.map_cons]
      constructor
      · intro given
        rcases given with ⟨_, _, ⟨good, rfl⟩, ⟨goods, rfl⟩, rfl⟩
        exact ⟨⟨good, goods⟩, rfl⟩
      · intro given
        rcases given with ⟨⟨good, goods⟩, rfl⟩
        exact ⟨_, _, ⟨good, rfl⟩, ⟨goods, rfl⟩, rfl⟩

theorem mapM_ok {items : List α} {f : α → Except ε β} {g : α → β}
    (each : ∀ item ∈ items, f item = .ok (g item)) : items.mapM f = .ok (items.map g) := by
  rw [mapM_eq_ok, List.forall₂_map_right_iff, List.forall₂_same]
  exact each

/-- Two computations end alike: with the same fault, or with results that are related. -/
inductive Alike (R : α → β → Prop) : Except ε α → Except ε β → Prop
  | refused (fault : ε) : Alike R (.error fault) (.error fault)
  | taken {a : α} {b : β} (related : R a b) : Alike R (.ok a) (.ok b)

namespace Alike

variable {α' β' : Type} {R : α → β → Prop} {S : α' → β' → Prop} {x : Except ε α} {y : Except ε β}

theorem bind {f : α → Except ε α'} {g : β → Except ε β'} (alike : Alike R x y)
    (each : ∀ a b, R a b → Alike S (f a) (g b)) : Alike S (x >>= f) (y >>= g) := by
  cases alike with
  | refused fault => exact .refused fault
  | taken related => exact each _ _ related

theorem mapError (alike : Alike R x y) (f : ε → ε') : Alike R (x.mapError f) (y.mapError f) := by
  cases alike with
  | refused fault => exact .refused (f fault)
  | taken related => exact .taken related

theorem exists_ok {a : α} (alike : Alike R (.ok a) y) : ∃ b, y = .ok b ∧ R a b := by
  cases alike with
  | taken related => exact ⟨_, rfl, related⟩

theorem step {γ : Type} (z : Except ε γ) {f : γ → Except ε α} {g : γ → Except ε β}
    (each : ∀ c, z = .ok c → Alike R (f c) (g c)) : Alike R (z >>= f) (z >>= g) := by
  cases z with
  | error fault => exact .refused fault
  | ok c => exact each c rfl

theorem check {refused : Prop} [Decidable refused] {γ : Type} {fault : ε} {f : γ → Except ε α}
    {g : γ → Except ε β} (each : Alike R x y) :
    Alike R (if refused then throw fault >>= f else x) (if refused then throw fault >>= g else y) := by
  by_cases held : refused
  · rw [if_pos held, if_pos held]
    exact .refused fault
  · rwa [if_neg held, if_neg held]

end Alike
end Devnet
