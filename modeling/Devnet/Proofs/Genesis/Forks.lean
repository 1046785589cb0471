import Devnet.Proofs.Genesis.Documents
import Devnet.Proofs.Genesis.Evm
import Mathlib

/-! The heights at which forks take effect. The check goes through the forks once and compares each of
those that are scheduled with the one before it; what it comes to is said of all pairs, whatever is left
out between them. The fork that is not among them is not looked at. -/

namespace Devnet.Evm

namespace ChainConfig

theorem checkForks_some_eq_ok {last : String × Int} {forks : List (String × Int)} {done : Unit} :
    checkForks (some last) forks = .ok done ↔
      (∀ fork ∈ forks, 0 ≤ fork.2) ∧ (last :: forks).Pairwise fun a b => a.2 ≤ b.2 := by
  induction forks generalizing last with
  | nil => simp [checkForks]
  | cons fork forks ih =>
      rw [checkForks, refusal_eq_ok, refusal_eq_ok, ih, not_lt, not_lt, List.forall_mem_cons,
        List.pairwise_cons (a := last), List.forall_mem_cons]
      constructor
      · rintro ⟨nonneg, reached, others, ordered⟩
        have later : ∀ other ∈ forks, last.2 ≤ other.2 := fun other member =>
          Int.le_trans reached ((List.pairwise_cons.mp ordered).1 other member)
        exact ⟨⟨nonneg, others⟩, ⟨reached, later⟩, ordered⟩
      · rintro ⟨⟨nonneg, others⟩, ⟨reached, -⟩, ordered⟩
        exact ⟨nonneg, reached, others, ordered⟩

theorem checkForks_eq_ok {forks : List (String × Int)} {done : Unit} :
    checkForks none forks = .ok done ↔
      (∀ fork ∈ forks, 0 ≤ fork.2) ∧ forks.Pairwise fun a b => a.2 ≤ b.2 := by
  cases forks with
  | nil => simp [checkForks]
  | cons fork forks =>
      rw [checkForks, refusal_eq_ok, checkForks_some_eq_ok, not_lt, List.forall_mem_cons, and_assoc]

variable {config : ChainConfig}

theorem forall_mem_scheduled {good : Int → Prop} :
    (∀ fork ∈ config.scheduled, good fork.2) ↔
      ∀ fork ∈ config.forks, ∀ height ∈ fork.2, good height := by
  rw [scheduled, List.forall_mem_filterMap]
  simp

theorem pairwise_scheduled {relation : Int → Int → Prop} :
    (config.scheduled.Pairwise fun a b => relation a.2 b.2) ↔
      config.forks.Pairwise fun earlier later =>
        ∀ height ∈ earlier.2, ∀ height' ∈ later.2, relation height height' := by
  rw [scheduled, List.pairwise_filterMap]
  simp

structure Valid (config : ChainConfig) : Prop where
  nonneg : ∀ fork ∈ config.scheduled, 0 ≤ fork.2
  ordered : config.scheduled.Pairwise fun a b => a.2 ≤ b.2
  hash : ∃ bytes, decodeHex config.eip150Hash = .ok bytes ∧ bytes.length = hashSize

theorem validate_eq_ok {done : Unit} : config.validate = .ok done ↔ config.Valid := by
  unfold validate
  simp only [bind_eq_ok, mapError_eq_ok, check_eq_ok, checkForks_eq_ok, not_not, exists_const,
    pure_eq_ok]
  constructor
  · rintro ⟨⟨nonneg, ordered⟩, bytes, read, length, -⟩
    exact ⟨nonneg, ordered, bytes, read, length⟩
  · rintro ⟨nonneg, ordered, bytes, read, length⟩
    exact ⟨⟨nonneg, ordered⟩, bytes, read, length, trivial⟩

/-- Heights of forks in their order. Forks that are not scheduled are passed over, so two that are
scheduled are compared whatever stands between them. -/
structure Rising (heights : List (Option Int)) : Prop where
  nonneg : ∀ scheduled ∈ heights, ∀ height ∈ scheduled, 0 ≤ height
  ordered : heights.Pairwise fun earlier later =>
    ∀ height ∈ earlier, ∀ height' ∈ later, height ≤ height'

theorem rising_forks : Rising (config.forks.map Prod.snd) ↔
    (∀ fork ∈ config.scheduled, 0 ≤ fork.2) ∧ config.scheduled.Pairwise fun a b => a.2 ≤ b.2 := by
  rw [forall_mem_scheduled, pairwise_scheduled]
  constructor
  · intro rising
    exact ⟨List.forall_mem_map.mp rising.nonneg, List.pairwise_map.mp rising.ordered⟩
  · rintro ⟨nonneg, ordered⟩
    exact ⟨List.forall_mem_map.mpr nonneg, List.pairwise_map.mpr ordered⟩

/-- The sixteen forks that have an order are spelled out here, apart from the table that is checked. -/
theorem validate_iff : config.validate = .ok () ↔
    Rising [config.homestead, config.eip150, config.eip155, config.eip158, config.byzantium,
      config.constantinople, config.petersburg, config.istanbul, config.muirGlacier, config.berlin,
      config.london, config.arrowGlacier, config.grayGlacier, config.mergeNetsplit, config.shanghai,
      config.cancun] ∧
    ∃ bytes, decodeHex config.eip150Hash = .ok bytes ∧ bytes.length = 32 := by
  change _ ↔ Rising (config.forks.map Prod.snd) ∧ _
  rw [validate_eq_ok, rising_forks]
  constructor
  · intro valid
    exact ⟨⟨valid.nonneg, valid.ordered⟩, valid.hash⟩
  · rintro ⟨⟨nonneg, ordered⟩, hash⟩
    exact ⟨nonneg, ordered, hash⟩

theorem forall_mem_heights {good : Option Int → Prop} :
    (∀ height ∈ config.heights, good height) ↔
      good config.daoFork ∧ ∀ fork ∈ config.forks, good fork.2 := by
  have perm : config.heights.Perm (config.daoFork :: config.forks.map Prod.snd) := .swap _ _ _
  have same : (∀ height ∈ config.heights, good height) ↔
      ∀ height ∈ config.daoFork :: config.forks.map Prod.snd, good height :=
    forall_congr' fun height => imp_congr_left perm.mem_iff
  rw [same, List.forall_mem_cons, List.forall_mem_map]

end ChainConfig

theorem Params.validate_chainConfig {params : Params} {done : Unit}
    (accepted : params.validate = .ok done) : params.chainConfig.Valid := by
  unfold validate at accepted
  simp only [bind_eq_ok] at accepted
  obtain ⟨-, -, -, -, -, -, accepted⟩ := accepted
  exact ChainConfig.validate_eq_ok.mp accepted

namespace Section

def withDaoFork (s : Section) (daoFork : Option Int) : Section :=
  { s with params := { s.params with chainConfig := { s.params.chainConfig with daoFork } } }

theorem validate_withDaoFork (s : Section) (daoFork : Option Int) :
    (s.withDaoFork daoFork).validate = s.validate := rfl

/-- Accepted sections have no height below zero, except that the height of the one fork outside of the
order can be any number. -/
theorem heights_of_validate {s : Section} (accepted : s.validate = .ok ()) :
    (∀ fork ∈ s.params.chainConfig.forks, ∀ height ∈ fork.2, 0 ≤ height) ∧
    ((∀ scheduled ∈ s.params.chainConfig.heights, ∀ height ∈ scheduled, 0 ≤ height) ↔
      ∀ height ∈ s.params.chainConfig.daoFork, 0 ≤ height) ∧
    ∀ daoFork, (s.withDaoFork daoFork).validate = .ok () := by
  have valid := Params.validate_chainConfig (validate_eq_ok.mp accepted).2
  have listed := ChainConfig.forall_mem_scheduled.mp valid.nonneg
  refine ⟨listed, ?_, fun daoFork => (validate_withDaoFork s daoFork).trans accepted⟩
  rw [ChainConfig.forall_mem_heights]
  exact and_iff_left listed

def earlySection : Section := standard.withDaoFork (some (-1))

theorem validate_earlySection : earlySection.validate = .ok () :=
  (validate_withDaoFork _ _).trans validate_standard

/-- The section is accepted, although one of its forks is scheduled below zero. -/
theorem not_nonneg_earlySection : earlySection.validate = .ok () ∧
    ¬∀ scheduled ∈ earlySection.params.chainConfig.heights, ∀ height ∈ scheduled, 0 ≤ height :=
  ⟨validate_earlySection, by decide⟩

theorem heights_of_validate_earlySection : earlySection.validate = .ok () ∧
    (∀ fork ∈ earlySection.params.chainConfig.forks, ∀ height ∈ fork.2, 0 ≤ height) ∧
    (earlySection.withDaoFork (some 7)).validate = .ok () := by
  obtain ⟨listed, -, others⟩ := heights_of_validate validate_earlySection
  exact ⟨validate_earlySection, listed, others (some 7)⟩

end Section
end Devnet.Evm
