import Devnet.Proofs.Address.Checksum
import Devnet.Proofs.Address.Symbols
import Devnet.Proofs.Fault.Outcome
import Devnet.Proofs.Text.Ascii
import Mathlib

namespace Devnet.Bech32

def LetterCase.apply : LetterCase → Char → Char
  | .lower, c => c
  | .upper, c => c.toUpper

theorem LetterCase.map_apply_lower (characters : List Char) :
    characters.map LetterCase.lower.apply = characters := List.map_id characters

structure Spelling where
  letters : LetterCase
  constant : Nat
  known : constant ∈ readConstants
  deriving DecidableEq

namespace Spelling

def written : Spelling := ⟨.lower, writtenConstant, by decide⟩

def all : List Spelling := [written, ⟨.lower, 0x2bc830a3, by decide⟩, ⟨.upper, writtenConstant, by decide⟩,
  ⟨.upper, 0x2bc830a3, by decide⟩]

theorem mem_all (spelling : Spelling) : spelling ∈ all := by
  obtain ⟨letters, constant, known⟩ := spelling
  have constants : constant = 1 ∨ constant = 0x2bc830a3 := by simpa [readConstants] using known
  rcases constants with rfl | rfl <;> cases letters <;> simp [all, written, writtenConstant]

def symbols (spelling : Spelling) (hrp : String) (data : List Nat) : List Nat :=
  data ++ checksumFor spelling.constant hrp data

def text (spelling : Spelling) (hrp : String) (data : List Nat) : String :=
  String.ofList (hrp.toList.map spelling.letters.apply ++
    '1' :: (spelling.symbols hrp data).map fun n => spelling.letters.apply (symbolChar n))

theorem constant_lt (spelling : Spelling) : spelling.constant < 2 ^ 30 := by
  have all : ∀ constant ∈ readConstants, constant < 2 ^ 30 := by decide
  exact all _ spelling.known

theorem polymod_symbols (spelling : Spelling) (hrp : String) (data : List Nat) :
    polymod (expand hrp ++ spelling.symbols hrp data) = spelling.constant :=
  polymod_checksumFor spelling.constant_lt hrp data

theorem symbols_lt (spelling : Spelling) (hrp : String) {data : List Nat} (small : ∀ n ∈ data, n < 32) :
    ∀ n ∈ spelling.symbols hrp data, n < 32 := by
  intro n member
  rcases List.mem_append.mp member with inside | check
  · exact small n inside
  · exact checksumFor_lt _ hrp data n check

end Spelling

theorem encode_eq (hrp : String) (bytes : Bytes) :
    encode hrp bytes = Spelling.written.text hrp (toSymbols bytes) := by
  rw [encode, Spelling.text, Spelling.written, LetterCase.map_apply_lower]
  rfl

theorem splitLast_of_not_mem {text : List Char} (none : '1' ∉ text) :
    splitLast text = Option.none := by
  induction text with
  | nil => rfl
  | cons c text ih =>
      obtain ⟨first, others⟩ := not_or.mp (fun either => none (List.mem_cons.mpr either))
      rw [splitLast, ih others]
      exact if_neg (Ne.symm first)

theorem splitLast_append (before : List Char) {after : List Char} (none : '1' ∉ after) :
    splitLast (before ++ '1' :: after) = some (before, after) := by
  induction before with
  | nil => rw [List.nil_append, splitLast, splitLast_of_not_mem none, if_pos rfl]
  | cons c before ih => rw [List.cons_append, splitLast, ih]

theorem eq_append_of_splitLast {text before after : List Char}
    (split : splitLast text = some (before, after)) : text = before ++ '1' :: after := by
  induction text generalizing before with
  | nil => cases split
  | cons c text ih =>
      rw [splitLast] at split
      cases rest : splitLast text with
      | some found =>
          simp only [rest, Option.some.injEq, Prod.mk.injEq] at split
          obtain ⟨rfl, rfl⟩ := split
          exact congrArg (c :: ·) (ih rest)
      | none =>
          simp only [rest] at split
          split at split
          · rename_i mark
            cases split
            rw [mark, List.nil_append]
          · cases split

theorem joinCase_eq_ok {seen after : Option LetterCase} {c : Char}
    (joined : joinCase seen c = .ok after) :
    (seen = none ∨ seen = after) ∧ (caseOf? c = none ∨ caseOf? c = after) := by
  unfold joinCase at joined
  cases seen with
  | none => cases found : caseOf? c <;> simp_all
  | some letters =>
      cases found : caseOf? c with
      | none => simp_all
      | some other =>
          simp only [found] at joined
          split at joined <;> simp_all

theorem joinCase_some {letters : LetterCase} {c : Char}
    (alike : caseOf? c = none ∨ caseOf? c = some letters) :
    joinCase (some letters) c = .ok (some letters) := by
  unfold joinCase
  rcases alike with none | same
  · rw [none]
  · rw [same]
    exact if_pos rfl

theorem symbolOf?_iff (letters : LetterCase) {c : Char} {n : Nat} :
    c.toNat < 0x80 ∧ (caseOf? c = none ∨ caseOf? c = some letters) ∧ symbolOf? c.toLower = some n ↔
      n < 32 ∧ c = letters.apply (symbolChar n) := by
  have read : c.toNat < 0x80 → ∀ n ∈ symbolOf? c.toLower, n < 32 ∧
      (caseOf? c = none ∨ caseOf? c = some letters → c = letters.apply (symbolChar n)) :=
    fun ascii => forall_ascii ascii (by cases letters <;> decide +kernel)
  have written : ∀ n < 32, (letters.apply (symbolChar n)).toNat < 0x80 ∧
      (caseOf? (letters.apply (symbolChar n)) = none ∨
        caseOf? (letters.apply (symbolChar n)) = some letters) ∧
      symbolOf? (letters.apply (symbolChar n)).toLower = some n := by
    cases letters <;> decide +kernel
  constructor
  · rintro ⟨ascii, alike, symbol⟩
    have found := read ascii n symbol
    exact ⟨found.1, found.2 alike⟩
  · rintro ⟨small, rfl⟩
    exact written n small

theorem symbolChar_ne_one (letters : LetterCase) {n : Nat} (small : n < 32) :
    letters.apply (symbolChar n) ≠ '1' := by
  have all : ∀ n < 32, letters.apply (symbolChar n) ≠ '1' := by cases letters <;> decide +kernel
  exact all n small

theorem readData_eq_ok_iff {letters : LetterCase} {text : List Char} {symbols : List Nat} :
    readData (some letters) text = .ok symbols ↔
      (∀ n ∈ symbols, n < 32) ∧ text = symbols.map fun n => letters.apply (symbolChar n) := by
  constructor
  · intro read
    induction text generalizing symbols with
    | nil =>
        cases read
        exact ⟨fun n member => absurd member List.not_mem_nil, rfl⟩
    | cons c text ih =>
        rw [readData] at read
        split at read
        · cases read
        · rename_i ascii
          split at read
          · cases read
          · cases read
          · rename_i seen n joined symbol
            obtain ⟨same, alike⟩ := joinCase_eq_ok joined
            obtain rfl := (same.resolve_left (Option.some_ne_none _)).symm
            obtain ⟨others, found, rfl⟩ := map_eq_ok.mp read
            obtain ⟨small, rfl⟩ := (symbolOf?_iff letters).mp ⟨Nat.lt_of_not_le ascii, alike, symbol⟩
            obtain ⟨smallRest, rfl⟩ := ih found
            exact ⟨List.forall_mem_cons.mpr ⟨small, smallRest⟩, rfl⟩
  · rintro ⟨small, rfl⟩
    induction symbols with
    | nil => rfl
    | cons n symbols ih =>
        obtain ⟨first, others⟩ := List.forall_mem_cons.mp small
        obtain ⟨ascii, alike, symbol⟩ := (symbolOf?_iff letters).mpr ⟨first, rfl⟩
        rw [List.map_cons, readData, if_neg (Nat.not_le_of_lt ascii), joinCase_some alike, symbol]
        simp only
        rw [ih others]
        rfl

theorem readHrpBytes_eq_ok {seen after : Option LetterCase} {bytes : Bytes}
    (read : readHrpBytes seen bytes = .ok after) :
    (seen = none ∨ seen = after) ∧
      ∀ b ∈ bytes, caseOf? (Char.ofNat b.toNat) = none ∨ caseOf? (Char.ofNat b.toNat) = after := by
  induction bytes generalizing seen with
  | nil =>
      cases read
      exact ⟨Or.inr rfl, fun b member => absurd member List.not_mem_nil⟩
  | cons b bytes ih =>
      rw [readHrpBytes] at read
      split at read
      · cases read
      · split at read
        · cases read
        · rename_i seen' joined
          obtain ⟨before, alike⟩ := joinCase_eq_ok joined
          obtain ⟨later, others⟩ := ih read
          refine ⟨by grind, List.forall_mem_cons.mpr ⟨by grind, others⟩⟩

theorem alike_of_readHrp {text : List Char} {seen : Option LetterCase}
    (read : readHrp text = .ok seen) {c : Char} (member : c ∈ text) (ascii : c.toNat < 0x80) :
    caseOf? c = none ∨ caseOf? c = seen := by
  unfold readHrp at read
  simp only at read
  split at read
  · cases read
  · have written : c.val.toUInt8 ∈ Utf8.encode text := by
      refine List.mem_flatMap.mpr ⟨c, member, ?_⟩
      rw [Utf8.encodeChar_of_ascii ascii]
      exact List.mem_singleton_self _
    have code : c.val.toUInt8.toNat = c.toNat := Nat.mod_eq_of_lt (Nat.lt_trans ascii (by decide))
    have alike := (readHrpBytes_eq_ok read).2 _ written
    rwa [code, Char.ofNat_toNat] at alike

/-- A capital of the ASCII range is the capital of its small letter, and no letter has neither. -/
theorem toUpper_toLower {c : Char} (ascii : c.toNat < 0x80)
    (alike : caseOf? c = none ∨ caseOf? c = some .upper) : c.toLower.toUpper = c := by
  revert alike
  exact forall_ascii ascii (by decide +kernel)

/-- A human readable part that is read in small letters and in capitals. -/
structure Cased (hrp : String) : Prop where
  reads : ∀ letters : LetterCase, readHrp (hrp.toList.map letters.apply) = .ok (some letters)
  lowers : ∀ c ∈ hrp.toList, c.toUpper.toLower = c
  ascii : ∀ c ∈ hrp.toList, c.toNat < 0x80

variable {hrp text : String} {data : List Nat}

theorem Cased.eq_lowered (cased : Cased hrp) (letters : LetterCase) :
    hrp = String.ofList (if some letters = some .upper then
      (hrp.toList.map letters.apply).map Char.toLower else hrp.toList.map letters.apply) := by
  cases letters with
  | lower => rw [if_neg (by decide), LetterCase.map_apply_lower, String.ofList_toList]
  | upper =>
      have back : hrp.toList.map (Char.toLower ∘ LetterCase.upper.apply) = hrp.toList :=
        (List.map_congr_left cased.lowers).trans (List.map_id _)
      rw [if_pos rfl, List.map_map, back, String.ofList_toList]

theorem Cased.eq_map_of_readHrp (cased : Cased hrp) {before : List Char} {seen : Option LetterCase}
    (read : readHrp before = .ok seen)
    (same : hrp = String.ofList (if seen = some .upper then before.map Char.toLower else before)) :
    ∃ letters : LetterCase, seen = some letters ∧ before = hrp.toList.map letters.apply := by
  have letters_eq := congrArg String.toList same
  rw [String.toList_ofList] at letters_eq
  by_cases capitals : seen = some .upper
  · obtain rfl := capitals
    rw [if_pos rfl] at letters_eq
    refine ⟨.upper, rfl, ?_⟩
    rw [letters_eq, List.map_map]
    symm
    refine (List.map_congr_left fun c member => ?_).trans (List.map_id _)
    have ascii : c.toNat < 0x80 := toNat_lt_of_toLower
      (cased.ascii _ (letters_eq ▸ List.mem_map_of_mem member))
    exact toUpper_toLower ascii (alike_of_readHrp read member ascii)
  · rw [if_neg capitals] at letters_eq
    have small := cased.reads .lower
    rw [LetterCase.map_apply_lower, letters_eq, read] at small
    refine ⟨.lower, Except.ok.inj small, ?_⟩
    rw [LetterCase.map_apply_lower, letters_eq]

theorem decode_eq_ok : decode text = .ok (hrp, data) ↔
    ∃ before after seen symbols, splitLast text.toList = some (before, after) ∧
      readHrp before = .ok seen ∧ readData seen after = .ok symbols ∧
      hrp = String.ofList (if seen = some .upper then before.map Char.toLower else before) ∧
      checksumLength ≤ symbols.length ∧ isChecked hrp symbols = true ∧
      data = symbols.take (symbols.length - checksumLength) := by
  unfold decode
  cases split : splitLast text.toList with
  | none => simp
  | some parts =>
      obtain ⟨before, after⟩ := parts
      simp only [bind_eq_ok, check_bind_eq_ok, pure_eq_ok, Prod.mk.injEq, Nat.not_lt,
        Bool.not_eq_true', Bool.not_eq_false]
      constructor
      · intro given
        rcases given with ⟨seen, letters, symbols, read, long, checked, rfl, rfl⟩
        exact ⟨before, after, seen, symbols, rfl, letters, read, rfl, long, checked, rfl⟩
      · intro given
        rcases given with ⟨_, _, seen, symbols, same, letters, read, rfl, long, checked, rfl⟩
        cases same
        exact ⟨seen, letters, symbols, read, long, checked, rfl, rfl⟩

namespace Spelling

theorem splitLast_text (spelling : Spelling) (hrp : String) (small : ∀ n ∈ data, n < 32) :
    splitLast (spelling.text hrp data).toList = some (hrp.toList.map spelling.letters.apply,
      (spelling.symbols hrp data).map fun n => spelling.letters.apply (symbolChar n)) := by
  rw [text, String.toList_ofList]
  apply splitLast_append
  intro member
  obtain ⟨n, inside, same⟩ := List.mem_map.mp member
  exact symbolChar_ne_one spelling.letters (spelling.symbols_lt hrp small n inside) same

theorem readData_symbols (spelling : Spelling) (hrp : String) (small : ∀ n ∈ data, n < 32) :
    readData (some spelling.letters)
      ((spelling.symbols hrp data).map fun n => spelling.letters.apply (symbolChar n)) =
        .ok (spelling.symbols hrp data) :=
  readData_eq_ok_iff.mpr ⟨spelling.symbols_lt hrp small, rfl⟩

theorem text_injective (cased : Cased hrp) (small : ∀ n ∈ data, n < 32) {a b : Spelling}
    (same : a.text hrp data = b.text hrp data) : a = b := by
  have parts := a.splitLast_text hrp small
  rw [same, b.splitLast_text hrp small, Option.some.injEq, Prod.mk.injEq] at parts
  obtain ⟨front, back⟩ := parts
  have letters : b.letters = a.letters := by
    have read := cased.reads b.letters
    rw [front, cased.reads a.letters] at read
    exact (Option.some.inj (Except.ok.inj read)).symm
  have symbols : b.symbols hrp data = a.symbols hrp data := by
    have read := b.readData_symbols hrp small
    rw [back, letters, a.readData_symbols hrp small] at read
    exact (Except.ok.inj read).symm
  have constant := b.polymod_symbols hrp data
  rw [symbols, a.polymod_symbols hrp data] at constant
  cases a
  cases b
  cases letters
  cases constant
  rfl

end Spelling

/-- What is read as data under a human readable part is a spelling of them. -/
theorem decode_eq_ok_iff (cased : Cased hrp) : decode text = .ok (hrp, data) ↔
    (∀ n ∈ data, n < 32) ∧ ∃ spelling : Spelling, text = spelling.text hrp data := by
  rw [decode_eq_ok]
  constructor
  · rintro ⟨before, after, seen, symbols, split, front, read, same, long, checked, rfl⟩
    obtain ⟨letters, rfl, rfl⟩ := cased.eq_map_of_readHrp front same
    obtain ⟨small, rfl⟩ := readData_eq_ok_iff.mp read
    have check_length : (symbols.drop (symbols.length - checksumLength)).length = checksumLength := by
      rw [List.length_drop]
      omega
    have check := eq_checksumFor hrp (symbols.take (symbols.length - checksumLength)) check_length
      fun n member => small n (List.mem_of_mem_drop member)
    rw [List.take_append_drop] at check
    refine ⟨fun n member => small n (List.mem_of_mem_take member),
      ⟨letters, polymod (expand hrp ++ symbols), List.contains_iff_mem.mp checked⟩, ?_⟩
    rw [Spelling.text, Spelling.symbols, ← check, List.take_append_drop, ← eq_append_of_splitLast split,
      String.ofList_toList]
  · rintro ⟨small, spelling, rfl⟩
    have length : (spelling.symbols hrp data).length - checksumLength = data.length := by
      rw [Spelling.symbols, List.length_append, length_checksumFor, Nat.add_sub_cancel]
    refine ⟨_, _, _, _, spelling.splitLast_text hrp small, cased.reads _,
      spelling.readData_symbols hrp small, cased.eq_lowered _, ?_, ?_, ?_⟩
    · rw [Spelling.symbols, List.length_append, length_checksumFor]
      exact Nat.le_add_left _ _
    · rw [isChecked, spelling.polymod_symbols]
      exact List.contains_iff_mem.mpr spelling.known
    · rw [length, Spelling.symbols, List.take_left]

end Devnet.Bech32
