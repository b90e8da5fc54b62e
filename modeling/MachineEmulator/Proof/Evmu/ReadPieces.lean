/-
This file shows how the grammar reads a type without parentheses, its brackets and what stands
behind it.
-/

import MachineEmulator.Proof.Evmu.ReadTokens

namespace MachineEmulator.Evmu

open Peg Grammar

section Sizes

theorem stops_leadit {text : List Byte} (stops : Stops isDigit text) : Stops isLeadit text := by
  apply stops_of_class stops
  intro symbol leads
  rw [isLeadit_iff] at leads
  rw [isDigit_iff]
  omega

theorem optional_numeral {size : Option Nat} (positive : ∀ number ∈ size, 0 < number)
    {rest : List Byte} (stops : Stops isDigit rest) :
    optional numeral (sizeText size ++ rest) = some (size.map decimal, rest) := by
  cases size with
  | none => exact optional_none (numeral_none (stops_leadit stops))
  | some number => exact optional_some (numeral_decimal (positive number rfl) stops)

theorem intSize_positive (size : Option IntSize) : ∀ number ∈ size.map Subtype.val, 0 < number := by
  intro number member
  obtain ⟨kept, -, rfl⟩ := Option.mem_map.mp member
  exact Nat.lt_of_lt_of_le (by norm_num) kept.property.1

theorem bytesSize_positive (size : Option BytesSize) :
    ∀ number ∈ size.map Subtype.val, 0 < number := by
  intro number member
  obtain ⟨kept, -, rfl⟩ := Option.mem_map.mp member
  exact kept.property.1

/-- A size is read unless an identifier goes on behind it. -/
theorem intSizeIdnot_text (size : Option IntSize) {rest : List Byte} (stops : Stops isDigit rest) :
    intSizeIdnot (sizeText (size.map Subtype.val) ++ rest) =
      if rest.head?.any isIdrest then none else some ((size.map Subtype.val).getD 256, rest) := by
  rw [intSizeIdnot, bind_some (optional_numeral (intSize_positive size) stops)]
  by_cases ahead : rest.head?.any isIdrest = true
  · rw [if_pos ahead]
    exact bind_none (idnot_none ahead)
  · rw [if_neg ahead, bind_some (idnot_some (Bool.eq_false_of_not_eq_true ahead))]
    cases size with
    | none => rfl
    | some kept =>
        have holds : 8 ≤ numeralValue (decimal kept.val) ∧ numeralValue (decimal kept.val) ≤ 256 ∧
            numeralValue (decimal kept.val) % 8 = 0 := by
          rw [numeralValue_decimal]
          exact kept.property
        simp only [Option.map_some]
        rw [bind_some (ensure_some holds rest), pure_apply, numeralValue_decimal]
        rfl

theorem bytesSizeIdnot_text (size : Option BytesSize) {rest : List Byte}
    (stops : Stops isDigit rest) :
    bytesSizeIdnot (sizeText (size.map Subtype.val) ++ rest) =
      if rest.head?.any isIdrest then none else some (size.map Subtype.val, rest) := by
  rw [bytesSizeIdnot, bind_some (optional_numeral (bytesSize_positive size) stops)]
  by_cases ahead : rest.head?.any isIdrest = true
  · rw [if_pos ahead]
    exact bind_none (idnot_none ahead)
  · rw [if_neg ahead, bind_some (idnot_some (Bool.eq_false_of_not_eq_true ahead))]
    cases size with
    | none => rfl
    | some kept =>
        have holds : 1 ≤ numeralValue (decimal kept.val) ∧
            numeralValue (decimal kept.val) ≤ 32 := by
          rw [numeralValue_decimal]
          exact kept.property
        simp only [Option.map_some]
        rw [bind_some (ensure_some holds rest), pure_apply, numeralValue_decimal]

end Sizes

section Atoms

/-- An alternative of the elementary types. -/
def alternative (entry : String × Grammar TypeSpec) : Grammar TypeSpec := do
  keyword entry.1
  entry.2

def intEntry : String × Grammar TypeSpec := ("int", do return .int (← intSizeIdnot))

def uintEntry : String × Grammar TypeSpec := ("uint", do return .uint (← intSizeIdnot))

def bytesEntry : String × Grammar TypeSpec := ("bytes", do return .bytes (← bytesSizeIdnot))

def addressEntry : String × Grammar TypeSpec := ("address", do idnot; return .address)

def stringEntry : String × Grammar TypeSpec := ("string", do idnot; return .string)

def boolEntry : String × Grammar TypeSpec := ("bool", do idnot; return .bool)

/-- A word with an alternative of its own is read by that alternative. -/
theorem choices_entry {entries : List (String × Grammar TypeSpec)} {last : Grammar TypeSpec}
    {entry : String × Grammar TypeSpec} {rest : List Byte} (member : entry ∈ entries)
    (apart : entries.Pairwise fun one other => Apart one.1 other.1)
    (lastMissed : last (ascii entry.1 ++ rest) = none) :
    choices (entries.map alternative ++ [last]) (ascii entry.1 ++ rest) = entry.2 rest := by
  induction entries with
  | nil => simp at member
  | cons one others ih =>
      obtain ⟨fromOne, fromOthers⟩ := List.pairwise_cons.mp apart
      rcases List.mem_cons.mp member with rfl | later
      · rw [List.map_cons, List.cons_append, choices_first, alternative]
        · exact bind_some (literal_append _ _)
        · intro other found
          rcases List.mem_append.mp found with inside | single
          · obtain ⟨another, among, rfl⟩ := List.mem_map.mp inside
            exact bind_none (keyword_none (fromOne another among).symm rest)
          · rw [List.mem_singleton.mp single]
            exact lastMissed
      · rw [List.map_cons, List.cons_append, choices_next]
        · exact ih later fromOthers
        · exact bind_none (keyword_none (fromOne entry later) rest)

def entries : List (String × Grammar TypeSpec) :=
  [intEntry, uintEntry, bytesEntry, addressEntry, stringEntry, boolEntry]

theorem entries_apart : entries.Pairwise fun one other => Apart one.1 other.1 := by
  have words : (entries.map Prod.fst).Pairwise Apart := by decide
  exact List.pairwise_map.mp words

variable {typeSpec : Grammar Component}

theorem elementary_eq : elementaryTypeSpec typeSpec =
    choices (entries.map alternative ++ [do return .tuple (← tupleOf typeSpec)]) := rfl

theorem elementary_entry {entry : String × Grammar TypeSpec} (member : entry ∈ entries)
    (apart : Apart "(" entry.1) (rest : List Byte) :
    elementaryTypeSpec typeSpec (ascii entry.1 ++ rest) = entry.2 rest := by
  rw [elementary_eq, choices_entry member entries_apart]
  exact bind_none (bind_none (keyword_none apart rest))

/-- A type without parentheses is read unless an identifier goes on behind it. -/
theorem elementary_atom (atom : Atom) {rest : List Byte} (stops : Stops isDigit rest) :
    elementaryTypeSpec typeSpec (atom.text ++ rest) =
      if rest.head?.any isIdrest then none else some (atom.type, rest) := by
  have read (entry : String × Grammar TypeSpec) (member : entry ∈ entries)
      (apart : Apart "(" entry.1) (front : List Byte) :
      elementaryTypeSpec typeSpec (ascii entry.1 ++ front ++ rest) = entry.2 (front ++ rest) := by
    rw [List.append_assoc]
    exact elementary_entry member apart _
  have word (type : TypeSpec) : (idnot >>= fun _ => pure type : Grammar TypeSpec) ([] ++ rest) =
      if rest.head?.any isIdrest then none else some (type, rest) := by
    split
    · rename_i ahead
      exact bind_none (idnot_none ahead)
    · rename_i ends
      exact bind_some (idnot_some (Bool.eq_false_of_not_eq_true ends))
  have sized {A : Type} {size : Grammar A} {type : A → TypeSpec} {value : A} {text : List Byte}
      (found : size text =
        if rest.head?.any isIdrest then none else some (value, rest)) :
      (size >>= fun value => pure (type value) : Grammar TypeSpec) text =
        if rest.head?.any isIdrest then none else some (type value, rest) := by
    split at found
    · rename_i ahead
      rw [if_pos ahead]
      exact bind_none found
    · rename_i ends
      rw [if_neg ends]
      exact bind_some found
  cases atom with
  | uint size =>
      exact (read uintEntry (by simp [entries]) (by decide) _).trans
        (sized (intSizeIdnot_text size stops))
  | int size =>
      exact (read intEntry (by simp [entries]) (by decide) _).trans
        (sized (intSizeIdnot_text size stops))
  | address => exact (read addressEntry (by simp [entries]) (by decide) []).trans (word .address)
  | bool => exact (read boolEntry (by simp [entries]) (by decide) []).trans (word .bool)
  | string => exact (read stringEntry (by simp [entries]) (by decide) []).trans (word .string)
  | bytes size =>
      exact (read bytesEntry (by simp [entries]) (by decide) _).trans
        (sized (bytesSizeIdnot_text size stops))

theorem entries_missed {word : String} (apart : ∀ entry ∈ entries.map Prod.fst, Apart entry word)
    (rest : List Byte) : ∀ other ∈ entries.map alternative, other (ascii word ++ rest) = none := by
  intro other found
  obtain ⟨entry, among, rfl⟩ := List.mem_map.mp found
  exact bind_none (keyword_none (apart entry.1 (List.mem_map_of_mem among)) rest)

/-- Parentheses are read by the last alternative. -/
theorem elementary_tuple (rest : List Byte) :
    elementaryTypeSpec typeSpec (ascii "(" ++ rest) =
      (tupleOf typeSpec >>= fun components => pure (.tuple components)) (ascii "(" ++ rest) := by
  rw [elementary_eq, choices_missed (entries_missed (by decide) rest), choices_first (by simp)]

theorem elementary_none {word : String} (apart : ∀ entry ∈ entries.map Prod.fst, Apart entry word)
    (closing : Apart "(" word) (rest : List Byte) :
    elementaryTypeSpec typeSpec (ascii word ++ rest) = none := by
  rw [elementary_eq]
  apply choices_none
  intro other found
  rcases List.mem_append.mp found with inside | single
  · exact entries_missed apart rest other inside
  · rw [List.mem_singleton.mp single]
    exact bind_none (bind_none (keyword_none closing rest))

end Atoms

section Brackets

theorem keyword_append (word : String) (rest : List Byte) :
    keyword word (ascii word ++ rest) = some ((), rest) := literal_append _ _

theorem keyword_none_of_ne {word : String} {first : Byte} {others text : List Byte}
    (spelled : ascii word = first :: others) (other : text.head? ≠ some first) :
    keyword word text = none := by
  rw [keyword, spelled]
  exact literal_cons_none other

theorem SizeText.stops (size : SizeText) (rest : List Byte) : Stops isOpsp (size.text ++ rest) := by
  have first := (size.inside size.first List.mem_cons_self).1
  simpa [Stops, SizeText.text] using first

/-- The text behind the first bracket. -/
def Bracket.inner (bracket : Bracket) (rest : List Byte) : List Byte :=
  (bracket.size.map SizeText.text).getD [] ++ (bracket.gapBehind.val ++ (ascii "]" ++ rest))

theorem Bracket.text_append (bracket : Bracket) (rest : List Byte) :
    bracket.text ++ rest = ascii "[" ++ (bracket.gap.val ++ bracket.inner rest) := by
  simp [Bracket.text, Bracket.inner]

theorem skip_closing (gap : Spaces) (rest : List Byte) :
    skip (gap.val ++ (ascii "]" ++ rest)) = ascii "]" ++ rest := by
  rw [skip_spaces]
  exact skip_of_stops rfl

theorem emptyArrayBracket_none {bracket : Bracket} {size : SizeText}
    (found : bracket.size = some size)
    (rest : List Byte) : emptyArrayBracket (bracket.text ++ rest) = none := by
  have inner : bracket.inner rest =
      size.text ++ (bracket.gapBehind.val ++ (ascii "]" ++ rest)) := by
    simp [Bracket.inner, found]
  have other := (size.inside size.first List.mem_cons_self).2
  rw [emptyArrayBracket, Bracket.text_append, bind_some (keyword_append _ _), opsp_bind,
    skip_spaces,
    inner, skip_of_stops (size.stops _)]
  apply bind_none
  apply keyword_none_of_ne (by decide : ascii "]" = [0x5d])
  simpa [SizeText.text] using other

theorem sizedArrayBracket_eq {bracket : Bracket} {size : SizeText}
    (found : bracket.size = some size)
    (rest : List Byte) : sizedArrayBracket (bracket.text ++ rest) =
      (do
        let size ← numeral
        let _ ← opsp
        keyword "]"
        return some (numeralValue size) : Grammar (Option Nat))
        (size.text ++ (bracket.gapBehind.val ++ (ascii "]" ++ rest))) := by
  have inner : bracket.inner rest =
      size.text ++ (bracket.gapBehind.val ++ (ascii "]" ++ rest)) := by
    simp [Bracket.inner, found]
  rw [sizedArrayBracket, Bracket.text_append, bind_some (keyword_append _ _), opsp_bind,
    skip_spaces,
    inner, skip_of_stops (size.stops _)]

theorem bracket_allowed {bracket : Bracket} (allowed : bracket.Allowed) (rest : List Byte) :
    choice emptyArrayBracket sizedArrayBracket (bracket.text ++ rest) =
      some (bracket.value, rest) := by
  cases found : bracket.size with
  | none =>
      have inner : bracket.inner rest = bracket.gapBehind.val ++ (ascii "]" ++ rest) := by
        simp [Bracket.inner, found]
      apply choice_some
      rw [emptyArrayBracket, Bracket.text_append, bind_some (keyword_append _ _), opsp_bind,
        skip_spaces, inner, skip_closing, bind_some (keyword_append _ _), pure_apply]
      simp [Bracket.value, found]
  | some size =>
      obtain ⟨leads, digits⟩ := allowed size found
      have stops : Stops isDigit (bracket.gapBehind.val ++ (ascii "]" ++ rest)) :=
        stops_gap (fun _ => space_not_digit) _ rfl
      rw [choice_none (emptyArrayBracket_none found rest), sizedArrayBracket_eq found]
      have read := numeral_text leads digits stops
      rw [SizeText.text, bind_some read, opsp_bind, skip_closing, bind_some (keyword_append _ _),
        pure_apply]
      simp [Bracket.value, found, SizeText.text]

/-- What is no numeral between brackets is not read. -/
theorem bracket_refused {bracket : Bracket} (refused : ¬ bracket.Allowed) (rest : List Byte) :
    choice emptyArrayBracket sizedArrayBracket (bracket.text ++ rest) = none := by
  obtain ⟨size, found, notNumeral⟩ : ∃ size, bracket.size = some size ∧ ¬ size.Allowed := by
    simpa [Bracket.Allowed] using refused
  rw [choice_none (emptyArrayBracket_none found rest), sizedArrayBracket_eq found]
  by_cases leads : isLeadit size.first = true
  · obtain ⟨digits, symbol, behind, split, all, outside⟩ :=
      exists_outside fun digits => notNumeral ⟨leads, digits⟩
    have member : symbol ∈ size.first :: size.rest := by simp [split]
    obtain ⟨notSpace, other⟩ := size.inside symbol member
    have read := numeral_text leads all
      (by simp [Stops, outside] : Stops isDigit (symbol :: (behind ++ (bracket.gapBehind.val ++
        (ascii "]" ++ rest)))))
    have text : size.text ++ (bracket.gapBehind.val ++ (ascii "]" ++ rest)) =
        size.first :: digits ++ symbol :: (behind ++ (bracket.gapBehind.val ++
          (ascii "]" ++ rest))) := by simp [SizeText.text, split]
    rw [text, bind_some read, opsp_bind, skip_of_stops (by simp [Stops, notSpace])]
    apply bind_none
    apply keyword_none_of_ne (by decide : ascii "]" = [0x5d])
    simpa using other
  · apply bind_none
    apply numeral_none
    simp [Stops, SizeText.text, leads]

theorem bracket_none {text : List Byte} (other : text.head? ≠ some 0x5b) :
    choice emptyArrayBracket sizedArrayBracket text = none := by
  have opening : keyword "[" text = none :=
    keyword_none_of_ne (by decide : ascii "[" = [0x5b]) other
  have empty : emptyArrayBracket text = none := bind_none opening
  rw [choice_none empty]
  exact bind_none opening

theorem repeated_brackets {brackets : List Bracket}
    (allowed : ∀ bracket ∈ brackets, bracket.Allowed)
    {rest : List Byte} (ends : rest.head? ≠ some 0x5b) {fuel : Nat}
    (enough : brackets.length ≤ fuel) :
    repeated (choice emptyArrayBracket sizedArrayBracket) fuel (bracketsText brackets ++ rest) =
      some (brackets.map Bracket.value, rest) := by
  induction brackets generalizing fuel with
  | nil => exact repeated_none (bracket_none ends) fuel
  | cons bracket brackets ih =>
      obtain ⟨fuel, rfl⟩ := Nat.exists_eq_add_of_lt enough
      have more := ih (fun other member => allowed other (List.mem_cons_of_mem _ member))
        (Nat.le_add_right brackets.length fuel)
      rw [bracketsText, List.flatMap_cons, List.append_assoc]
      exact repeated_some (bracket_allowed (allowed bracket List.mem_cons_self) _) more

/-- The repetition ends in front of the first brackets that are not read. -/
theorem repeated_refused {brackets : List Bracket}
    (refused : ¬ ∀ bracket ∈ brackets, bracket.Allowed) (rest : List Byte) (fuel : Nat) :
    ∃ values behind,
      repeated (choice emptyArrayBracket sizedArrayBracket) fuel (bracketsText brackets ++ rest) =
        some (values, ascii "[" ++ behind) := by
  induction brackets generalizing fuel with
  | nil => simp at refused
  | cons bracket brackets ih =>
      have text : bracketsText (bracket :: brackets) ++ rest =
          bracket.text ++ (bracketsText brackets ++ rest) := by simp [bracketsText]
      have opening := bracket.text_append (bracketsText brackets ++ rest)
      by_cases allowed : bracket.Allowed
      · cases fuel with
        | zero => exact ⟨[], _, by rw [text, opening]; rfl⟩
        | succ fuel =>
            obtain ⟨values, behind, found⟩ := ih (by simpa [allowed] using refused) fuel
            refine ⟨bracket.value :: values, behind, ?_⟩
            rw [text]
            exact repeated_some (bracket_allowed allowed _) found
      · refine ⟨[], bracket.gap.val ++ bracket.inner (bracketsText brackets ++ rest), ?_⟩
        rw [text, repeated_none (bracket_refused allowed _), opening]

end Brackets

end MachineEmulator.Evmu
