import Devnet.Proofs.Genesis.Contents
import Devnet.Proofs.Genesis.Nesting
import Devnet.Proofs.Genesis.Overrides
import Devnet.Proofs.Genesis.Returns
import Mathlib

/-! Calls that put sections into a genesis, one after another. For each module the last call stands, in
whatever order the calls for different modules come; all other documents stay as they are. -/

namespace Devnet

namespace Overrides

variable {overrides : Overrides} {m : Module}

def Misplaced (overrides : Overrides) (m : Module) (fault : Fault) : Prop :=
  ∃ found, overrides.get? m.name = some found ∧ found.module ≠ m ∧
    fault = .override m.name found.typeName

theorem content?_eq_error {fault : Fault} :
    overrides.content? m = .error fault ↔ overrides.Misplaced m fault := by
  unfold content? Misplaced
  cases overrides.get? m.name with
  | none => simp
  | some found =>
      by_cases own : found.module = m
      · simp [own]
      · simp only [own, dite_false, Except.error.injEq, Option.some.injEq, exists_eq_left']
        rw [and_iff_right own, eq_comm]

end Overrides

def ModuleSection.contentOf? (s : ModuleSection) (m : Module) : Option m.Content :=
  if own : s.module = m then some (own ▸ s.content) else none

theorem ModuleSection.contentOf?_self (m : Module) (content : m.Content) :
    (ModuleSection.mk m content).contentOf? m = some content := dif_pos rfl

inductive Placement
  | auth (accounts : List Auth.BaseAccount)
  | bank (balances : List Bank.Balance) (supply : Coins)
  | staking (bondDenom : String) (validators : List Staking.Validator)
      (delegations : List Staking.Delegation)
  | inflation (overrides : Overrides)
  | evm (overrides : Overrides)

namespace Placement

def apply (g : Genesis) : Placement → Except Fault Genesis
  | .auth accounts => .ok (g.withAccounts accounts)
  | .bank balances supply => .ok (g.withBalances balances supply)
  | .staking bondDenom validators delegations =>
    .ok (g.withValidators bondDenom validators delegations)
  | .inflation overrides => g.withInflation overrides
  | .evm overrides => g.withEvm overrides

def Refused : Placement → Fault → Prop
  | .inflation overrides, fault => overrides.Misplaced .inflation fault
  | .evm overrides, fault => overrides.Misplaced .evm fault
  | _, _ => False

def section? : Placement → Option ModuleSection
  | .auth accounts => some ⟨.auth, .ofAccounts .standard accounts⟩
  | .bank balances supply => some ⟨.bank, { Bank.Section.standard with balances, supply }⟩
  | .staking bondDenom validators delegations =>
    some ⟨.staking, .make { Staking.Params.standard with bondDenom } validators delegations⟩
  | .inflation overrides => (overrides.content? .inflation).toOption.map fun found =>
    ⟨.inflation, found.getD Inflation.Section.disabled⟩
  | .evm overrides => (overrides.content? .evm).toOption.join.map fun content => ⟨.evm, content⟩

def content? (call : Placement) (m : Module) : Option m.Content :=
  call.section?.bind fun s => s.contentOf? m

variable {g next : Genesis} {call : Placement}

theorem apply_eq_error {fault : Fault} : call.apply g = .error fault ↔ call.Refused fault := by
  cases call with
  | auth => exact iff_of_false (fun refused => by cases refused) id
  | bank => exact iff_of_false (fun refused => by cases refused) id
  | staking => exact iff_of_false (fun refused => by cases refused) id
  | inflation overrides =>
      rw [Refused, ← Overrides.content?_eq_error, apply, Genesis.withInflation, bind_eq_error]
      exact or_iff_left fun ⟨_, _, impossible⟩ => by cases impossible
  | evm overrides =>
      rw [Refused, ← Overrides.content?_eq_error, apply, Genesis.withEvm, bind_eq_error]
      refine or_iff_left ?_
      rintro ⟨content, -, impossible⟩
      cases content <;> cases impossible

theorem eq_of_apply (applied : call.apply g = .ok next) :
    next = match call.section? with
      | none => g
      | some s => g.withSection s.module s.content := by
  cases call with
  | auth | bank | staking =>
      cases applied
      rfl
  | inflation overrides =>
      obtain ⟨found, taken, built⟩ := bind_eq_ok.mp applied
      obtain rfl := pure_eq_ok.mp built
      rw [section?, taken]
      rfl
  | evm overrides =>
      obtain ⟨found, taken, built⟩ := bind_eq_ok.mp applied
      rw [section?, taken]
      cases found with
      | none => exact (pure_eq_ok.mp built).symm
      | some content => exact (pure_eq_ok.mp built).symm

theorem get?_apply (applied : call.apply g = .ok next) (m : Module) :
    next.get? m.name = ((call.content? m).map m.codec.toBytes).or (g.get? m.name) := by
  obtain rfl := eq_of_apply applied
  unfold content?
  cases call.section? with
  | none => rfl
  | some s =>
      obtain ⟨module, content⟩ := s
      by_cases own : module = m
      · subst own
        rw [Option.bind_some, ModuleSection.contentOf?_self]
        exact Table.get?_insert_self module.name _ g.documents
      · have kept : (g.withSection module content).get? m.name = g.get? m.name :=
          Table.get?_insert_of_ne _ _ (Module.name_injective.ne (Ne.symm own))
        rw [Option.bind_some, ModuleSection.contentOf?, dif_neg own]
        exact kept

theorem get?_apply_of_other (applied : call.apply g = .ok next) {name : String}
    (other : ∀ m : Module, name ≠ m.name) : next.get? name = g.get? name := by
  obtain rfl := eq_of_apply applied
  cases call.section? with
  | none => rfl
  | some s => exact Table.get?_insert_of_ne _ _ (other s.module)

theorem ascending_apply (applied : call.apply g = .ok next) (ascending : g.documents.Ascending) :
    next.documents.Ascending := by
  obtain rfl := eq_of_apply applied
  cases call.section? with
  | none => exact ascending
  | some s => exact Table.ascending_insert _ _ ascending

end Placement

namespace Genesis

open Placement

def compose (g : Genesis) (calls : List Placement) : Except Fault Genesis :=
  calls.foldlM Placement.apply g

def lastFor (m : Module) (calls : List Placement) : Option m.Content :=
  (calls.filterMap fun call => call.content? m).getLast?

variable {g final : Genesis} {calls : List Placement} {m : Module}

theorem lastFor_cons (m : Module) (call : Placement) (calls : List Placement) :
    lastFor m (call :: calls) = (lastFor m calls).or (call.content? m) := by
  unfold lastFor
  rw [List.filterMap_cons]
  cases call.content? m with
  | none => exact Option.or_none.symm
  | some content =>
      simp only [List.getLast?_cons]
      cases (calls.filterMap fun call => call.content? m).getLast? <;> rfl

theorem exists_compose_iff :
    (∃ final, compose g calls = .ok final) ↔ ∀ call ∈ calls, ∀ fault, ¬call.Refused fault := by
  induction calls generalizing g with
  | nil => exact iff_of_true ⟨g, rfl⟩ (List.forall_mem_nil _)
  | cons call calls ih =>
      simp only [compose, List.foldlM_cons, bind_eq_ok, List.forall_mem_cons] at ih ⊢
      constructor
      · rintro ⟨final, next, applied, rest⟩
        refine ⟨fun fault refused => ?_, ih.mp ⟨final, rest⟩⟩
        rw [apply_eq_error.mpr refused] at applied
        cases applied
      · rintro ⟨taken, others⟩
        cases applied : call.apply g with
        | error fault => exact absurd (apply_eq_error.mp applied) (taken fault)
        | ok next =>
            obtain ⟨final, rest⟩ := ih.mpr others
            exact ⟨final, next, rfl, rest⟩

/-- What each call keeps, all of them keep. -/
theorem compose_induction {P : Genesis → Prop} (composed : compose g calls = .ok final) (start : P g)
    (step : ∀ call before after, apply before call = .ok after → P before → P after) : P final := by
  induction calls generalizing g with
  | nil =>
      obtain rfl := pure_eq_ok.mp composed
      exact start
  | cons call calls ih =>
      obtain ⟨next, applied, rest⟩ := bind_eq_ok.mp composed
      exact ih rest (step call g next applied start)

theorem get?_compose (composed : compose g calls = .ok final) (m : Module) :
    final.get? m.name = ((lastFor m calls).map m.codec.toBytes).or (g.get? m.name) := by
  induction calls generalizing g with
  | nil =>
      obtain rfl := pure_eq_ok.mp composed
      rfl
  | cons call calls ih =>
      obtain ⟨next, applied, rest⟩ := bind_eq_ok.mp composed
      rw [ih rest, get?_apply applied, lastFor_cons, Option.map_or, Option.or_assoc]

theorem get?_compose_of_other (composed : compose g calls = .ok final) {name : String}
    (other : ∀ m : Module, name ≠ m.name) : final.get? name = g.get? name :=
  compose_induction (P := fun kept => kept.get? name = g.get? name) composed rfl
    fun _ _ _ applied kept => (get?_apply_of_other applied other).trans kept

theorem ascending_compose (composed : compose g calls = .ok final)
    (ascending : g.documents.Ascending) : final.documents.Ascending :=
  compose_induction composed ascending fun _ _ _ => ascending_apply

theorem compose_eq_of_lastFor {calls' : List Placement} {final' : Genesis}
    (ascending : g.documents.Ascending) (composed : compose g calls = .ok final)
    (composed' : compose g calls' = .ok final') (same : ∀ m, lastFor m calls' = lastFor m calls) :
    final' = final := by
  have documents : final'.documents = final.documents := by
    apply (ascending_compose composed' ascending).eq_of_get? (ascending_compose composed ascending)
    intro name
    change final'.get? name = final.get? name
    by_cases own : ∃ m : Module, name = m.name
    · obtain ⟨m, rfl⟩ := own
      rw [get?_compose composed', get?_compose composed, same]
    · have other : ∀ m : Module, name ≠ m.name := fun m same => own ⟨m, same⟩
      rw [get?_compose_of_other composed' other, get?_compose_of_other composed other]
  rw [show final' = ⟨final'.documents⟩ from rfl, documents]

/-- Calls go through unless one of them finds a section in the place of another, whatever the genesis
holds. The result depends on the last call for each module; it holds the sections of these calls, which
are decoded as they were given if they can be, and otherwise the documents from before. -/
theorem compose_laws (g : Genesis) (calls : List Placement) (ascending : g.documents.Ascending) :
    (∀ g' call fault, Placement.apply g' call = .error fault ↔ call.Refused fault) ∧
    ((∃ final, compose g calls = .ok final) ↔ ∀ call ∈ calls, ∀ fault, ¬call.Refused fault) ∧
    ∀ final, compose g calls = .ok final →
      (∀ calls' final', compose g calls' = .ok final' → (∀ m, lastFor m calls' = lastFor m calls) →
        final' = final) ∧
      (∀ m content, lastFor m calls = some content →
        final.get? m.name = some (m.codec.toBytes content) ∧
        (m.Proper content → (final.section? m = .ok (some content) ↔ m.InRange content ∧
          ∀ envelope ∈ m.envelopes content,
            envelope.Made JsonNumber.Steady (Codec.maxDepth - m.levels)))) ∧
      (∀ m, lastFor m calls = none → final.get? m.name = g.get? m.name) ∧
      ∀ name, (∀ m : Module, name ≠ m.name) → final.get? name = g.get? name := by
  refine ⟨fun _ _ _ => apply_eq_error, exists_compose_iff, fun final composed => ?_⟩
  refine ⟨fun _ _ => compose_eq_of_lastFor ascending composed, fun m content last => ?_,
    fun m none => ?_, fun _ => get?_compose_of_other composed⟩
  · have held := get?_compose composed m
    rw [last] at held
    exact ⟨held, fun proper => (section?_eq_ok held).trans (Module.ofBytes_toBytes_eq_ok proper)⟩
  · rw [get?_compose composed, none]
    rfl

def mixedCalls : List Placement :=
  [.staking "aevmos" [] [], .inflation [], .evm [], .staking "stake" [Staking.foreignValidator] []]

def lastCalls : List Placement := [.staking "stake" [Staking.foreignValidator] [], .inflation []]

def otherGenesis : Genesis := ⟨[("other", Utf8.ofString "42")]⟩

theorem compose_laws_mixedCalls : ∃ final, compose otherGenesis mixedCalls = .ok final ∧
    compose otherGenesis lastCalls = .ok final ∧
    final.section? .staking = .ok (some Staking.foreignSection) ∧ final.get? "evm" = none ∧
    final.get? "other" = some (Utf8.ofString "42") := by
  have ascending : otherGenesis.documents.Ascending := List.pairwise_singleton _ _
  have empty : ∀ (m : Module) fault, ¬Overrides.Misplaced [] m fault := by
    rintro m fault ⟨found, present, -⟩
    cases present
  have mixed : ∀ call ∈ mixedCalls, ∀ fault, ¬call.Refused fault := by
    simp [mixedCalls, Refused, empty]
  have last : ∀ call ∈ lastCalls, ∀ fault, ¬call.Refused fault := by
    simp [lastCalls, Refused, empty]
  obtain ⟨-, success, laws⟩ := compose_laws otherGenesis mixedCalls ascending
  obtain ⟨final, composed⟩ := success.mpr mixed
  obtain ⟨final', composed'⟩ := (compose_laws otherGenesis lastCalls ascending).2.1.mpr last
  obtain ⟨only, sections, kept, others⟩ := laws final composed
  obtain rfl := only lastCalls final' composed' fun m => by cases m <;> rfl
  have fits := Staking.fits_foreignSection
  have proper : Module.staking.Proper Staking.foreignSection :=
    ⟨6, fits.tidy.imp fun _ => JsonNumber.Whole.proper⟩
  have keys : ∀ v ∈ Staking.foreignSection.validators, v.consensusKey.Settled 2 :=
    Staking.Section.settled_of_tidy
      (fun v member => fits.formed v.consensusKey (List.mem_map_of_mem member)) fits.tidy
  have decoded := ((sections .staking Staking.foreignSection rfl).2 proper).mpr
    ⟨Staking.inRange_foreignSection, List.forall_mem_map.mpr fun v member =>
      (keys v member).steady (by decide)⟩
  have other : ∀ m : Module, "other" ≠ m.name := by
    intro m
    cases m <;> decide
  exact ⟨final', composed, composed', decoded, kept .evm rfl, others "other" other⟩

def keyedAccount (x : Json) : Auth.BaseAccount :=
  ⟨⟨List.replicate 20 1⟩, some ⟨"/foreign.Key", [("x", x)]⟩, 0, 0⟩

def keyedSection (x : Json) : Auth.Section := .ofAccounts .standard [keyedAccount x]

def keyMembers (x : Json) : List (String × Json) := [("@type", .string "/foreign.Key"), ("x", x)]

theorem mem_fields_keyedAccount {x : Json} {field : String × Json} :
    field ∈ (Envelope.pack Auth.BaseAccount.message (keyedAccount x)).fields ↔
      ∃ member ∈ Envelope.membersOf (Auth.BaseAccount.codec.encode (keyedAccount x)),
        (member.1, member.2.normal) = field := by
  have names : ((Envelope.membersOf (Auth.BaseAccount.codec.encode (keyedAccount x))).map
      Prod.fst).Nodup :=
    show ["address", "pub_key", "account_number", "sequence"].Nodup by decide
  exact Envelope.mem_fields_pack rfl names

theorem proper_keyedSection {x : Json} {depth : Nat} (proper : x.Within RawJson.Proper depth) :
    Module.auth.Proper (keyedSection x) := by
  have key : (Json.object (keyMembers x)).Within RawJson.Proper (depth + 1) := by
    apply Json.Within.object
    rw [keyMembers, List.forall_mem_cons, List.forall_mem_singleton]
    exact ⟨.string depth _, proper⟩
  have members : ∀ member ∈ Envelope.membersOf (Auth.BaseAccount.codec.encode (keyedAccount x)),
      member.2.Within RawJson.Proper (depth + 1) := by
    refine List.forall_mem_cons.mpr ⟨.string _ _, List.forall_mem_cons.mpr ⟨key, ?_⟩⟩
    exact List.forall_mem_cons.mpr ⟨.string _ _, List.forall_mem_singleton.mpr (.string _ _)⟩
  have fields : ∀ field ∈ (Envelope.pack Auth.BaseAccount.message (keyedAccount x)).fields,
      field.2.Within RawJson.Proper (depth + 1) := by
    intro field inside
    obtain ⟨member, listed, rfl⟩ := mem_fields_keyedAccount.mp inside
    exact (members member listed).normal
  have account : (Envelope.codec.encode (.pack Auth.BaseAccount.message (keyedAccount x))).Within
      RawJson.Proper (depth + 2) :=
    .object (List.forall_mem_cons.mpr ⟨.string _ _, fields⟩)
  have params := (Auth.Params.exact_codec.tidy .standard trivial).imp fun _ =>
    JsonNumber.Whole.proper
  refine ⟨depth + 4, .object (List.forall_mem_cons.mpr ⟨params.mono (by omega), ?_⟩)⟩
  exact List.forall_mem_singleton.mpr (.array (List.forall_mem_singleton.mpr account))

theorem steady_of_section? {g : Genesis} {x : Json} {depth : Nat}
    (held : g.get? Module.auth.name = some (Module.auth.codec.toBytes (keyedSection x)))
    (proper : x.Within RawJson.Proper depth) (read : g.section? .auth = .ok (some (keyedSection x))) :
    x.normal.Within JsonNumber.Steady 123 := by
  obtain ⟨-, made⟩ := (Module.ofBytes_toBytes_eq_ok (proper_keyedSection proper)).mp
    ((section?_eq_ok held).mp read)
  have key := (made _ List.mem_cons_self).within _
    (mem_fields_keyedAccount.mpr ⟨("pub_key", .object (keyMembers x)), .tail _ (.head _), rfl⟩)
  have sorted : (Table.ofEntries (keyMembers x.normal)).Perm (keyMembers x.normal) :=
    Table.ofEntries_perm (show ["@type", "x"].Nodup by decide)
  rw [Json.normal_object] at key
  exact key.members ("x", x.normal) (sorted.mem_iff.mpr (.tail _ (.head _)))

def driftingDouble : Binary64 := ⟨false, 8940696716308594, 25⟩

theorem not_steady_driftingDouble : ¬(JsonNumber.double driftingDouble).Steady := by
  have read : (JsonNumber.double driftingDouble).again =
      some (.double ⟨false, 8940696716308593, 25⟩) := by decide +kernel
  rw [JsonNumber.Steady, read]
  decide

def retypedValidator : Staking.Validator :=
  { Staking.foreignValidator with consensusKey := ⟨"/foreign.Key", [("@type", .null)]⟩ }

/-- Calls whose sections do not come back: too deep, with a number that is read as another one, and
with a second type URL. -/
theorem not_returned :
    (∀ x ∈ [nested 124, .number (.double driftingDouble)],
      ∃ final, compose empty [.auth [keyedAccount x]] = .ok final ∧
        final.section? .auth ≠ .ok (some (keyedSection x))) ∧
    ∃ final, compose empty [.staking "aevmos" [retypedValidator] []] = .ok final ∧
      final.section? .staking ≠ .ok (some (.make .standard [retypedValidator] [])) := by
  constructor
  · rw [List.forall_mem_cons, List.forall_mem_singleton]
    refine ⟨⟨_, rfl, fun read => ?_⟩, _, rfl, fun read => ?_⟩
    · have steady := steady_of_section? (Table.get?_insert_self _ _ _)
        (within_nested.mpr (Nat.le_refl 124)) read
      rw [normal_nested, within_nested] at steady
      exact absurd steady (by decide)
    · have canonical : RawJson.Proper (.double driftingDouble) :=
        ⟨by decide, by decide, by decide, Or.inl (by decide)⟩
      cases steady_of_section? (Table.get?_insert_self _ _ _) (.number 0 canonical) read with
      | number _ steady => exact not_steady_driftingDouble steady
  · refine ⟨_, rfl, fun read => ?_⟩
    have decoded := (section?_eq_ok (Table.get?_insert_self _ _ _)).mp read
    have formed := Module.formed_of_decode (Codec.ofDocument_eq_ok.mp decoded).1
    exact (formed _ List.mem_cons_self).apart List.mem_cons_self

end Genesis
end Devnet
