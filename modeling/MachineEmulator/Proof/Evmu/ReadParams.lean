/-
This file shows that the grammar reads the spellings of parameters that are allowed and no others.
-/

import MachineEmulator.Proof.Evmu.ReadPieces

namespace MachineEmulator.Evmu

open Peg Grammar

section Closing

/-- A comma or a closing parenthesis comes next. -/
def Closed (rest : List Byte) : Prop :=
  (skip rest).head? = some 0x2c ∨ (skip rest).head? = some 0x29

/-- The rest stands as it is or without its spaces. -/
def Leaves (rest left : List Byte) : Prop := left = rest ∨ left = skip rest

theorem Leaves.skip {rest left : List Byte} (leaves : Leaves rest left) :
    skip left = skip rest := by
  rcases leaves with rfl | rfl
  · rfl
  · exact skip_skip rest

theorem stops_of_skip {test : Byte → Bool}
    (apart : ∀ symbol, isOpsp symbol = true → test symbol = false)
    {text : List Byte} (stops : Stops test (skip text)) : Stops test text := by
  cases text with
  | nil => rfl
  | cons symbol text =>
      by_cases space : isOpsp symbol = true
      · simp [Stops, apart symbol space]
      · rwa [skip_of_stops (by simp [Stops, space])] at stops

variable {rest : List Byte}

theorem Closed.stops_skip (closed : Closed rest) : Stops isIdrest (skip rest) := by
  rcases closed with comma | closing
  · simp only [Stops, comma]
    decide
  · simp only [Stops, closing]
    decide

theorem Closed.stops (closed : Closed rest) : Stops isIdrest rest :=
  stops_of_skip (fun _ => space_not_idrest) closed.stops_skip

theorem digit_not_space {symbol : Byte} (digit : isDigit symbol = true) :
    isOpsp symbol = false := by
  rw [isDigit_iff] at digit
  rw [← Bool.not_eq_true, isOpsp_iff]
  omega

theorem not_closed_digit {symbol : Byte} (digit : isDigit symbol = true) (rest : List Byte) :
    ¬ Closed (symbol :: rest) := by
  have stays : skip (symbol :: rest) = symbol :: rest :=
    skip_of_stops (by simpa [Stops] using digit_not_space digit)
  rw [isDigit_iff] at digit
  rw [Closed, stays]
  simp only [List.head?_cons, Option.some.injEq, BitVec.toNat_eq]
  simp
  omega

theorem stops_idfirst {text : List Byte} (stops : Stops isIdrest text) : Stops isIdfirst text :=
  stops_of_class stops fun _ first => isIdrest_iff.mpr (.inl first)

end Closing

section Locations

theorem dataLocation_text (location : Location) (rest : List Byte) :
    dataLocation (location.text ++ rest) = some ((), rest) := by
  cases location with
  | memory => exact choices_found (keyword_append "memory" rest)
  | calldata =>
      have memory : keyword "memory" (Location.calldata.text ++ rest) = none :=
        keyword_none (by decide) rest
      rw [dataLocation, choices_next memory]
      exact choices_found (keyword_append "calldata" rest)
  | storage =>
      have memory : keyword "memory" (Location.storage.text ++ rest) = none :=
        keyword_none (by decide) rest
      have calldata : keyword "calldata" (Location.storage.text ++ rest) = none :=
        keyword_none (by decide) rest
      rw [dataLocation, choices_next memory, choices_next calldata]
      exact choices_found (keyword_append "storage" rest)

theorem dataLocation_none {text : List Byte}
    (absent : ∀ location : Location, ¬ location.text <+: text) :
    dataLocation text = none := by
  apply choices_none
  intro expression member
  simp only [List.mem_cons, List.not_mem_nil, or_false] at member
  rcases member with rfl | rfl | rfl
  · exact literal_none (absent .memory)
  · exact literal_none (absent .calldata)
  · exact literal_none (absent .storage)

theorem locationOf_some {name : List Byte} {location : Location}
    (found : locationOf name = some location) :
    name = location.text ++ nameBehind name location := by
  have front := List.find?_some found
  obtain ⟨behind, rfl⟩ := List.isPrefixOf_iff_prefix.mp front
  rw [nameBehind, List.drop_left]

theorem locationOf_none {name : List Byte} (missed : locationOf name = none) (location : Location) :
    ¬ location.text <+: name := by
  intro front
  have member : location ∈ [Location.memory, .calldata, .storage] := by cases location <;> simp
  have differs := List.find?_eq_none.mp missed location member
  exact differs (List.isPrefixOf_iff_prefix.mpr front)

theorem Location.isIdrest (location : Location) :
    ∀ symbol ∈ location.text, isIdrest symbol = true := by
  cases location <;> simp [Location.text, ascii] <;> decide

/-- A word in front of a name does not go beyond the end of the name. -/
theorem prefix_name {word : List Byte} (letters : ∀ symbol ∈ word, isIdrest symbol = true)
    {name : Identifier} {rest : List Byte} (stops : Stops isIdrest rest)
    (front : word <+: name.text ++ rest) : word <+: name.text := by
  rcases List.prefix_or_prefix_of_prefix front (List.prefix_append name.text rest) with
    shorter | longer
  · exact shorter
  · obtain ⟨beyond, rfl⟩ := longer
    rw [List.prefix_append_right_inj] at front
    cases beyond with
    | nil => rw [List.append_nil]
    | cons symbol beyond =>
        obtain ⟨behind, rfl⟩ := front
        have inside := letters symbol (by simp)
        simp [Stops, inside] at stops

theorem dataLocation_name_none {name : Identifier} (missed : locationOf name.text = none)
    {rest : List Byte} (stops : Stops isIdrest rest) : dataLocation (name.text ++ rest) = none := by
  apply dataLocation_none
  intro location front
  exact locationOf_none missed location (prefix_name location.isIdrest stops front)

end Locations

section Tails

/-- What is read behind the location. -/
theorem locationAndName_location (gap : Spaces) (location : Location) (rest : List Byte) :
    locationAndName (gap.val ++ (location.text ++ rest)) = optional identifier (skip rest) := by
  have first : Stops isOpsp (location.text ++ rest) := by cases location <;> rfl
  rw [locationAndName, opsp_bind, skip_spaces, skip_of_stops first,
    bind_some (optional_some (dataLocation_text location rest)), opsp_bind]

theorem locationAndName_none {text : List Byte} (absent : dataLocation (skip text) = none) :
    locationAndName text = optional identifier (skip text) := by
  rw [locationAndName, opsp_bind, bind_some (optional_none absent), opsp_bind, skip_skip]

variable {rest : List Byte}

theorem Closed.optional_identifier (closed : Closed rest) :
    optional identifier (skip rest) = some (none, skip rest) :=
  optional_none (identifier_none (stops_idfirst closed.stops_skip))

theorem Closed.dataLocation_none (closed : Closed rest) : dataLocation (skip rest) = none := by
  apply MachineEmulator.Evmu.dataLocation_none
  rintro location ⟨behind, split⟩
  have stops := closed.stops_skip
  have letter : (location.text ++ behind).head?.any isIdrest = true := by
    cases location <;> rfl
  rw [← split, Stops, letter] at stops
  simp at stops

theorem Identifier.stops (name : Identifier) (rest : List Byte) :
    Stops isOpsp (name.text ++ rest) := by
  have inside : isIdrest name.first = true := isIdrest_iff.mpr (.inl name.isFirst)
  have space : isOpsp name.first = false := by
    by_contra space
    have outside := space_not_idrest (by simpa using space : isOpsp name.first = true)
    simp [inside] at outside
  simpa [Stops, Identifier.text] using space

theorem Closed.identifier_name (closed : Closed rest) (name : Identifier) :
    optional identifier (skip (name.text ++ rest)) = some (some name.text, rest) := by
  rw [skip_of_stops (name.stops rest)]
  exact optional_some (identifier_text name closed.stops)

/-- A name behind a location is an identifier unless it starts with a digit. -/
theorem Identifier.behind (name : Identifier) {location : Location} {symbol : Byte}
    {behind : List Byte} (split : name.text = location.text ++ symbol :: behind)
    (letter : isDigit symbol = false) :
    ∃ left : Identifier, left.text = symbol :: behind := by
  obtain ⟨first, letters, spelled⟩ : ∃ first letters, location.text = first :: letters := by
    cases location <;> exact ⟨_, _, rfl⟩
  have rest : name.rest = letters ++ symbol :: behind := by
    rw [spelled, Identifier.text, List.cons_append] at split
    exact (List.cons.inj split).2
  have inside : ∀ other ∈ symbol :: behind, isIdrest other = true := by
    intro other member
    exact name.isRest other (rest ▸ List.mem_append_right _ member)
  have first : isIdfirst symbol = true := by
    rcases isIdrest_iff.mp (inside symbol List.mem_cons_self) with idfirst | digit
    · exact idfirst
    · simp [letter] at digit
  exact ⟨⟨symbol, behind, first, fun other member => inside other (List.mem_cons_of_mem _ member)⟩,
    rfl⟩

/-- A name with a location in front of it is read behind the location. -/
theorem locationAndName_name {tail : Tail} {name : Identifier} (absent : tail.location = none)
    (named : tail.name = some name) (rest : List Byte) :
    skip (tail.text ++ rest) = name.text ++ rest ∧
      ∀ location, locationOf name.text = some location →
        locationAndName (tail.text ++ rest) =
          optional identifier (skip (nameBehind name.text location ++ rest)) := by
  have skipped : skip (tail.text ++ rest) = name.text ++ rest := by
    simp only [Tail.text, absent, named, Option.map_none, Option.getD_none, Option.map_some,
      Option.getD_some, List.append_nil, List.append_assoc, skip_spaces]
    exact skip_of_stops (name.stops rest)
  refine ⟨skipped, fun location found => ?_⟩
  have split := locationOf_some found
  rw [locationAndName, opsp_bind, skipped]
  rw [split, List.append_assoc, ← split, bind_some (optional_some (dataLocation_text location _)),
    opsp_bind]

theorem tail_allowed {tail : Tail} (allowed : tail.Allowed) (closed : Closed rest) :
    ∃ left, locationAndName (tail.text ++ rest) = some (tail.value, left) ∧ Leaves rest left := by
  cases absent : tail.location with
  | some location =>
      have read : locationAndName (tail.text ++ rest) =
          optional identifier (skip ((tail.name.map Identifier.text).getD [] ++ rest)) := by
        simp only [Tail.text, absent, Option.map_some, Option.getD_some, List.append_assoc]
        rw [locationAndName_location, skip_spaces]
      have value : tail.value = tail.name.map Identifier.text := by
        simp [Tail.value, absent]
      rw [read, value]
      cases named : tail.name with
      | none => exact ⟨skip rest, closed.optional_identifier, .inr rfl⟩
      | some name => exact ⟨rest, closed.identifier_name name, .inl rfl⟩
  | none =>
      cases named : tail.name with
      | none =>
          have skipped : skip (tail.text ++ rest) = skip rest := by
            simp [Tail.text, absent, named]
          have value : tail.value = none := by simp [Tail.value, absent, named]
          refine ⟨skip rest, ?_, .inr rfl⟩
          rw [locationAndName_none (skipped ▸ closed.dataLocation_none), skipped, value]
          exact closed.optional_identifier
      | some name =>
          obtain ⟨skipped, read⟩ := locationAndName_name absent named rest
          cases found : locationOf name.text with
          | none =>
              have value : tail.value = some name.text := by simp [Tail.value, absent, named, found]
              have missed := dataLocation_name_none found closed.stops
              refine ⟨rest, ?_, .inl rfl⟩
              rw [locationAndName_none (skipped ▸ missed), skipped, value]
              exact optional_some (identifier_text name closed.stops)
          | some location =>
              rw [read location found]
              have split := locationOf_some found
              cases behind : nameBehind name.text location with
              | nil =>
                  have value : tail.value = none := by
                    simp [Tail.value, absent, named, found, behind]
                  exact ⟨skip rest, value ▸ closed.optional_identifier, .inr rfl⟩
              | cons symbol letters =>
                  have letter := allowed absent name named location found
                  rw [behind] at split letter
                  obtain ⟨left, text⟩ := name.behind split (by simpa using letter)
                  have value : tail.value = some left.text := by
                    simp [Tail.value, absent, named, found, behind, text]
                  rw [value, ← text]
                  exact ⟨rest, closed.identifier_name left, .inl rfl⟩

theorem tail_refused {tail : Tail} (refused : ¬ tail.Allowed) (rest : List Byte) :
    ∃ name left, locationAndName (tail.text ++ rest) = some (name, left) ∧ ¬ Closed left := by
  simp only [Tail.Allowed, not_forall] at refused
  obtain ⟨absent, name, named, location, found, digit⟩ := refused
  obtain ⟨-, read⟩ := locationAndName_name absent named rest
  cases behind : nameBehind name.text location with
  | nil => simp [behind] at digit
  | cons symbol letters =>
      have isDigit : isDigit symbol = true := by simpa [behind] using digit
      have first : Stops isIdfirst (symbol :: (letters ++ rest)) := by
        rw [isDigit_iff] at isDigit
        simp only [Stops, List.head?_cons, Option.any_some]
        rw [← Bool.not_eq_true, isIdfirst_iff]
        omega
      refine ⟨none, symbol :: (letters ++ rest), ?_, not_closed_digit isDigit _⟩
      rw [read location found, behind, List.cons_append, skip_of_stops]
      · exact optional_none (identifier_none first)
      · simpa [Stops] using digit_not_space isDigit

/-- What stands behind a type starts with a letter, a comma or a parenthesis. -/
theorem tail_stops {test : Byte → Bool} (letters : ∀ symbol, isIdfirst symbol = true →
      test symbol = false) (comma : test 0x2c = false) (closing : test 0x29 = false) (tail : Tail)
    (closed : Closed rest) : Stops test (skip (tail.text ++ rest)) := by
  have skipped : skip (tail.text ++ rest) =
      skip ((tail.location.map Location.text).getD [] ++ (tail.gapBehind.val ++
        ((tail.name.map Identifier.text).getD [] ++ rest))) := by
    simp [Tail.text]
  rw [skipped]
  cases tail.location with
  | some location =>
      have letter (symbol : Byte) (inside : isIdfirst symbol = true) (behind : List Byte) :
          Stops test (symbol :: behind) := by simpa [Stops] using letters symbol inside
      have first : Stops isOpsp (location.text ++ (tail.gapBehind.val ++
          ((tail.name.map Identifier.text).getD [] ++ rest))) := by cases location <;> rfl
      rw [Option.map_some, Option.getD_some, skip_of_stops first]
      cases location <;> exact letter _ (by decide) _
  | none =>
      rw [Option.map_none, Option.getD_none, List.nil_append, skip_spaces]
      cases tail.name with
      | some name =>
          rw [Option.map_some, Option.getD_some, skip_of_stops (name.stops rest)]
          simpa [Stops, Identifier.text] using letters name.first name.isFirst
      | none =>
          rw [Option.map_none, Option.getD_none, List.nil_append]
          rcases closed with found | found
          · simpa [Stops, found] using comma
          · simpa [Stops, found] using closing

end Tails

section Types

variable {rest : List Byte}

/-- What is read behind the elementary type. -/
def behindElementary (elementary : TypeSpec) : Grammar Component := do
  let _ ← opsp
  let brackets ← arrayBrackets
  let name ← locationAndName
  return (name, brackets.foldl .array elementary)

theorem typeSpecOf_eq (typeSpec : Grammar Component) :
    typeSpecOf typeSpec = elementaryTypeSpec typeSpec >>= behindElementary := rfl

theorem locationAndName_skip (text : List Byte) :
    locationAndName (skip text) = locationAndName text := by
  rw [locationAndName, opsp_bind, opsp_bind, skip_skip]

theorem no_opening (tail : Tail) (closed : Closed rest) :
    (skip (tail.text ++ rest)).head? ≠ some 0x5b ∧ (tail.text ++ rest).head? ≠ some 0x5b := by
  have stops : Stops (· = 0x5b) (skip (tail.text ++ rest)) := by
    apply tail_stops _ (by decide) (by decide) tail closed
    intro symbol first
    rw [isIdfirst_iff] at first
    simp [BitVec.toNat_eq]
    omega
  have other : (skip (tail.text ++ rest)).head? ≠ some 0x5b := by
    intro opening
    simp [Stops, opening] at stops
  refine ⟨other, fun opening => other ?_⟩
  rw [skip_of_stops, opening]
  simp only [Stops, opening]
  decide

theorem length_bracketsText (brackets : List Bracket) :
    brackets.length ≤ (bracketsText brackets).length := by
  induction brackets with
  | nil => simp
  | cons bracket brackets ih =>
      have opening := bracket.text_append []
      have positive : 0 < bracket.text.length := by
        rw [List.append_nil] at opening
        rw [opening]
        exact Nat.zero_lt_succ _
      simp only [bracketsText, List.flatMap_cons, List.length_append, List.length_cons] at ih ⊢
      omega

/-- Spaces in front of brackets, or in front of what stands behind a type, are skipped. -/
theorem skip_brackets (brackets : List Bracket) (text : List Byte) :
    skip (bracketsText brackets ++ text) =
      bracketsText brackets ++ if brackets = [] then skip text else text := by
  cases brackets with
  | nil => rfl
  | cons bracket brackets =>
      rw [if_neg (by simp), skip_of_stops]
      have opening := bracket.text_append (bracketsText brackets ++ text)
      have split : bracketsText (bracket :: brackets) ++ text =
          bracket.text ++ (bracketsText brackets ++ text) := by simp [bracketsText]
      rw [split, opening]
      rfl

theorem stops_digit_behind (gap : Spaces) (brackets : List Bracket) (tail : Tail)
    (closed : Closed rest) :
    Stops isDigit (gap.val ++ (bracketsText brackets ++ (tail.text ++ rest))) := by
  apply stops_gap (fun _ => space_not_digit)
  apply stops_of_skip (fun _ => space_not_digit)
  cases brackets with
  | nil =>
      apply tail_stops _ (by decide) (by decide) tail closed
      intro symbol letter
      rw [isIdfirst_iff] at letter
      rw [← Bool.not_eq_true, isDigit_iff]
      omega
  | cons bracket brackets =>
      have opening := bracket.text_append (bracketsText brackets ++ (tail.text ++ rest))
      have split : bracketsText (bracket :: brackets) ++ (tail.text ++ rest) =
          bracket.text ++ (bracketsText brackets ++ (tail.text ++ rest)) := by simp [bracketsText]
      rw [skip_brackets, if_neg (by simp), split, opening]
      rfl

theorem separated_iff (gap : Spaces) (brackets : List Bracket) (tail : Tail)
    (closed : Closed rest) : Separated gap brackets tail ↔
      Stops isIdrest (gap.val ++ (bracketsText brackets ++ (tail.text ++ rest))) := by
  have split : gap.val ++ (bracketsText brackets ++ (tail.text ++ rest)) =
      (gap.val ++ (bracketsText brackets ++ tail.text)) ++ rest := by simp
  rw [split, Separated]
  cases gap.val ++ (bracketsText brackets ++ tail.text) with
  | nil => simpa using closed.stops
  | cons symbol front => rfl

/-- The brackets are read in front of a tail. -/
theorem brackets_allowed {brackets : List Bracket} (tail : Tail)
    (allowed : ∀ bracket ∈ brackets, bracket.Allowed) (closed : Closed rest) :
    ∃ behind, arrayBrackets (skip (bracketsText brackets ++ (tail.text ++ rest))) =
        some (brackets.map Bracket.value, behind) ∧
      locationAndName behind = locationAndName (tail.text ++ rest) := by
  obtain ⟨skipped, whole⟩ := no_opening tail closed
  have enough (behind : List Byte) :
      brackets.length ≤ (bracketsText brackets ++ behind).length := by
    have fewer := length_bracketsText brackets
    rw [List.length_append]
    omega
  rw [skip_brackets]
  split
  · exact ⟨_, repeated_brackets allowed skipped (enough _), locationAndName_skip _⟩
  · exact ⟨_, repeated_brackets allowed whole (enough _), rfl⟩

theorem behindElementary_allowed (gap : Spaces) {brackets : List Bracket} {tail : Tail}
    (allowed : ∀ bracket ∈ brackets, bracket.Allowed) (tailAllowed : tail.Allowed)
    (closed : Closed rest) (elementary : TypeSpec) :
    ∃ left, behindElementary elementary
        (gap.val ++ (bracketsText brackets ++ (tail.text ++ rest))) =
      some ((tail.value, withBrackets elementary brackets), left) ∧ Leaves rest left := by
  obtain ⟨behind, read, same⟩ := brackets_allowed tail allowed closed
  obtain ⟨left, named, leaves⟩ := tail_allowed tailAllowed closed
  refine ⟨left, ?_, leaves⟩
  rw [behindElementary, opsp_bind, skip_spaces, bind_some read, bind_some (same.trans named)]
  rfl

theorem not_closed_opening (behind : List Byte) : ¬ Closed (ascii "[" ++ behind) := by
  have stays : skip (ascii "[" ++ behind) = ascii "[" ++ behind := skip_of_stops rfl
  rw [Closed, stays]
  simp [show ascii "[" = [0x5b] by decide]

theorem locationAndName_opening (behind : List Byte) :
    locationAndName (ascii "[" ++ behind) = some (none, ascii "[" ++ behind) := by
  have stays : skip (ascii "[" ++ behind) = ascii "[" ++ behind := skip_of_stops rfl
  have missed : dataLocation (ascii "[" ++ behind) = none := by
    apply dataLocation_none
    rintro location ⟨others, split⟩
    have first := congrArg List.head? split
    cases location <;> exact absurd first (by simp [Location.text, ascii])
  rw [locationAndName_none (stays.symm ▸ missed), stays]
  exact optional_none (identifier_none rfl)

theorem behindElementary_refused (gap : Spaces) {brackets : List Bracket} {tail : Tail}
    (refused : ¬ ((∀ bracket ∈ brackets, bracket.Allowed) ∧ tail.Allowed))
    (closed : Closed rest) (elementary : TypeSpec) :
    ∃ value left, behindElementary elementary
        (gap.val ++ (bracketsText brackets ++ (tail.text ++ rest))) =
      some (value, left) ∧ ¬ Closed left := by
  rw [behindElementary, opsp_bind, skip_spaces]
  by_cases allowed : ∀ bracket ∈ brackets, bracket.Allowed
  · obtain ⟨behind, read, same⟩ := brackets_allowed tail allowed closed
    obtain ⟨name, left, named, stuck⟩ := tail_refused (fun tail => refused ⟨allowed, tail⟩) rest
    refine ⟨(name, withBrackets elementary brackets), left, ?_, stuck⟩
    rw [bind_some read, bind_some (same.trans named)]
    rfl
  · have nonempty : brackets ≠ [] := by
      rintro rfl
      simp at allowed
    rw [skip_brackets, if_neg nonempty]
    obtain ⟨values, behind, read⟩ := repeated_refused allowed (tail.text ++ rest)
      (bracketsText brackets ++ (tail.text ++ rest)).length
    refine ⟨(none, values.foldl .array elementary), _, ?_, not_closed_opening behind⟩
    have found : arrayBrackets (bracketsText brackets ++ (tail.text ++ rest)) = _ := read
    rw [bind_some found, bind_some (locationAndName_opening behind)]
    rfl

end Types

end MachineEmulator.Evmu
