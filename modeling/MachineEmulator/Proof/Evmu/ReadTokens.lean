/-
This file shows how the grammar reads the pieces of a signature that have no parentheses.
-/

import MachineEmulator.Proof.Evmu.Spelling

namespace MachineEmulator.Evmu

open Peg Grammar

section Symbols

/-- No symbol of a class stands in front. -/
abbrev Stops (test : Byte → Bool) (text : List Byte) : Prop := text.head?.any test = false

/-- What is left behind optional spaces. -/
def skip (text : List Byte) : List Byte := text.dropWhile isOpsp

theorem opsp_bind {A : Type} (next : Grammar A) (text : List Byte) :
    (opsp >>= fun _ => next) text = next (skip text) := rfl

@[simp] theorem skip_spaces (gap : Spaces) (rest : List Byte) :
    skip (gap.val ++ rest) = skip rest := List.dropWhile_append_of_pos gap.property

theorem skip_of_stops {text : List Byte} (stops : Stops isOpsp text) : skip text = text := by
  cases text with
  | nil => rfl
  | cons symbol text =>
      have differs : isOpsp symbol = false := by simpa [Stops] using stops
      simp [skip, differs]

theorem stops_skip (text : List Byte) : Stops isOpsp (skip text) := by
  induction text with
  | nil => rfl
  | cons symbol text ih =>
      by_cases space : isOpsp symbol = true
      · rw [skip, List.dropWhile_cons_of_pos space]
        exact ih
      · simp [skip, space, Stops]

@[simp] theorem skip_skip (text : List Byte) : skip (skip text) = skip text :=
  skip_of_stops (stops_skip text)

/-- The classes as ranges of numbers. -/
theorem isOpsp_iff {symbol : Byte} : isOpsp symbol = true ↔
    symbol.toNat = 0x20 ∨ symbol.toNat = 0x09 ∨ symbol.toNat = 0x0a ∨ symbol.toNat = 0x0d := by
  have four : ascii " \t\n\r" = [0x20, 0x09, 0x0a, 0x0d] := by decide
  rw [isOpsp, four]
  simp [BitVec.toNat_eq]

theorem isDigit_iff {symbol : Byte} :
    isDigit symbol = true ↔ 0x30 ≤ symbol.toNat ∧ symbol.toNat ≤ 0x39 := by
  simp [isDigit, BitVec.le_def]

theorem isLeadit_iff {symbol : Byte} :
    isLeadit symbol = true ↔ 0x31 ≤ symbol.toNat ∧ symbol.toNat ≤ 0x39 := by
  simp [isLeadit, BitVec.le_def]

theorem isIdfirst_iff {symbol : Byte} : isIdfirst symbol = true ↔
    0x61 ≤ symbol.toNat ∧ symbol.toNat ≤ 0x7a ∨ 0x41 ≤ symbol.toNat ∧ symbol.toNat ≤ 0x5a ∨
      symbol.toNat = 0x5f := by
  simp [isIdfirst, BitVec.le_def, BitVec.toNat_eq, or_assoc]

theorem isIdrest_iff {symbol : Byte} :
    isIdrest symbol = true ↔ isIdfirst symbol = true ∨ isDigit symbol = true := by
  simp [isIdrest]

theorem stops_of_class {test other : Byte → Bool} {text : List Byte} (stops : Stops other text)
    (within : ∀ symbol, test symbol = true → other symbol = true) : Stops test text := by
  cases text with
  | nil => rfl
  | cons symbol text =>
      have outside : other symbol = false := by simpa [Stops] using stops
      have inside : test symbol = false := by
        by_contra passes
        simp [within symbol (by simpa using passes)] at outside
      simp [Stops, inside]

/-- The first symbol outside of a class. -/
theorem exists_outside {test : Byte → Bool} {text : List Byte}
    (fails : ¬ ∀ symbol ∈ text, test symbol = true) :
    ∃ front symbol behind, text = front ++ symbol :: behind ∧
      (∀ other ∈ front, test other = true) ∧ test symbol = false := by
  induction text with
  | nil => simp at fails
  | cons symbol text ih =>
      by_cases passes : test symbol = true
      · obtain ⟨front, other, behind, rfl, all, outside⟩ := ih (by simpa [passes] using fails)
        refine ⟨symbol :: front, other, behind, rfl, ?_, outside⟩
        simpa [passes] using all
      · exact ⟨[], symbol, text, rfl, by simp, Bool.eq_false_of_not_eq_true passes⟩

end Symbols

section Gaps

theorem space_not_idrest {symbol : Byte} (space : isOpsp symbol = true) :
    isIdrest symbol = false := by
  rw [isOpsp_iff] at space
  rw [← Bool.not_eq_true, isIdrest_iff, isIdfirst_iff, isDigit_iff]
  omega

/-- A class without spaces stops at a gap where it stops behind it. -/
theorem stops_gap {test : Byte → Bool}
    (apart : ∀ symbol, isOpsp symbol = true → test symbol = false)
    (gap : Spaces) {rest : List Byte} (stops : Stops test rest) : Stops test (gap.val ++ rest) := by
  obtain ⟨gap, spaces⟩ := gap
  cases gap with
  | nil => exact stops
  | cons symbol gap => simp [Stops, apart symbol (spaces symbol List.mem_cons_self)]

theorem space_not_digit {symbol : Byte} (space : isOpsp symbol = true) :
    isDigit symbol = false := by
  have other := space_not_idrest space
  rw [← Bool.not_eq_true, isIdrest_iff] at other
  exact Bool.eq_false_of_not_eq_true fun digit => other (.inr digit)

end Gaps

section Numerals

theorem digitChar_toNat {digit : Nat} (small : digit < 10) :
    (Nat.digitChar digit).toNat = 0x30 + digit := by
  interval_cases digit <;> rfl

theorem decimal_small {number : Nat} (small : number < 10) :
    decimal number = [BitVec.ofNat 8 (0x30 + number)] := by
  rw [decimal, Nat.toDigits_of_lt_base small, List.map_singleton, digitChar_toNat small]

theorem decimal_large {number : Nat} (large : 10 ≤ number) :
    decimal number = decimal (number / 10) ++ [BitVec.ofNat 8 (0x30 + number % 10)] := by
  rw [decimal, Nat.toDigits_of_base_le (by norm_num) large, List.map_append, List.map_singleton,
    digitChar_toNat (Nat.mod_lt _ (by norm_num)), decimal]

theorem numeralValue_append (digits : List Byte) (digit : Byte) :
    numeralValue (digits ++ [digit]) = 10 * numeralValue digits + (digit.toNat - 0x30) := by
  rw [numeralValue, List.foldl_append, numeralValue]
  rfl

theorem toNat_digit {digit : Nat} (small : digit < 10) :
    (BitVec.ofNat 8 (0x30 + digit)).toNat = 0x30 + digit := by
  rw [BitVec.toNat_ofNat, Nat.mod_eq_of_lt (by omega)]

@[simp] theorem numeralValue_decimal (number : Nat) : numeralValue (decimal number) = number := by
  induction number using Nat.strong_induction_on with
  | _ number ih =>
      by_cases small : number < 10
      · rw [decimal_small small]
        simp [numeralValue, toNat_digit small]
      · have rest := ih (number / 10) (by omega)
        have digit := toNat_digit (Nat.mod_lt number (by norm_num : 0 < 10))
        rw [decimal_large (by omega), numeralValue_append, rest, digit]
        omega

/-- A numeral starts with a digit other than zero. -/
theorem decimal_leads {number : Nat} (positive : 0 < number) :
    ∃ first rest, decimal number = first :: rest ∧ isLeadit first = true ∧
      ∀ symbol ∈ rest, isDigit symbol = true := by
  induction number using Nat.strong_induction_on with
  | _ number ih =>
      by_cases small : number < 10
      · refine ⟨_, [], decimal_small small, ?_, by simp⟩
        rw [isLeadit_iff, toNat_digit small]
        omega
      · obtain ⟨first, rest, text, leads, digits⟩ := ih (number / 10) (by omega) (by omega)
        have last := Nat.mod_lt number (by norm_num : 0 < 10)
        refine ⟨first, rest ++ [BitVec.ofNat 8 (0x30 + number % 10)], ?_, leads, ?_⟩
        · rw [decimal_large (by omega), text, List.cons_append]
        · intro symbol member
          rcases List.mem_append.mp member with inside | single
          · exact digits symbol inside
          · rw [List.mem_singleton.mp single, isDigit_iff, toNat_digit last]
            omega

end Numerals

section Words

/-- Neither of two words starts with the other. -/
abbrev Apart (word other : String) : Prop :=
  ¬ ascii word <+: ascii other ∧ ¬ ascii other <+: ascii word

theorem keyword_none {word other : String} (apart : Apart word other) (rest : List Byte) :
    keyword word (ascii other ++ rest) = none := by
  apply literal_none
  intro front
  rcases List.prefix_or_prefix_of_prefix front (List.prefix_append (ascii other) rest) with
    shorter | longer
  · exact apart.1 shorter
  · exact apart.2 longer

theorem idnot_some {text : List Byte} (stops : Stops isIdrest text) :
    idnot text = some ((), text) := notAhead_some stops

theorem idnot_none {text : List Byte} (ahead : text.head?.any isIdrest = true) :
    idnot text = none := notAhead_none ahead

theorem identifier_text (name : Identifier) {rest : List Byte} (stops : Stops isIdrest rest) :
    identifier (name.text ++ rest) = some (name.text, rest) := by
  have first : item isIdfirst (name.text ++ rest) = some (name.first, name.rest ++ rest) := by
    simp [item, Identifier.text, name.isFirst]
  rw [identifier, bind_some first, bind_some (span_append name.isRest stops), pure_apply,
    Identifier.text]

theorem identifier_none {text : List Byte} (stops : Stops isIdfirst text) :
    identifier text = none := by
  apply bind_none
  cases text with
  | nil => rfl
  | cons symbol text =>
      have differs : isIdfirst symbol = false := by simpa [Stops] using stops
      simp [item, differs]

theorem numeral_text {first : Byte} {digits rest : List Byte} (leads : isLeadit first = true)
    (all : ∀ symbol ∈ digits, isDigit symbol = true) (stops : Stops isDigit rest) :
    numeral (first :: digits ++ rest) = some (first :: digits, rest) := by
  have found : item isLeadit (first :: digits ++ rest) = some (first, digits ++ rest) := by
    simp [item, leads]
  rw [numeral, bind_some found, bind_some (span_append all stops), pure_apply]

theorem numeral_none {text : List Byte} (stops : Stops isLeadit text) : numeral text = none := by
  apply bind_none
  cases text with
  | nil => rfl
  | cons symbol text =>
      have differs : isLeadit symbol = false := by simpa [Stops] using stops
      simp [item, differs]

theorem numeral_decimal {number : Nat} (positive : 0 < number) {rest : List Byte}
    (stops : Stops isDigit rest) :
    numeral (decimal number ++ rest) = some (decimal number, rest) := by
  obtain ⟨first, digits, text, leads, all⟩ := decimal_leads positive
  rw [text]
  exact numeral_text leads all stops

end Words

end MachineEmulator.Evmu
