/-
This file shows that every signature that the grammar accepts is spelled in one of the ways.
-/

import MachineEmulator.Proof.Evmu.ReadSpelling

namespace MachineEmulator.Evmu

open Peg Grammar

section Numerals

/-- A numeral is the decimal text of its value. -/
theorem decimal_numeralValue {first : Byte} {digits : List Byte} (leads : isLeadit first = true)
    (all : ∀ symbol ∈ digits, isDigit symbol = true) :
    decimal (numeralValue (first :: digits)) = first :: digits ∧
      0 < numeralValue (first :: digits) := by
  induction digits using List.reverseRecOn with
  | nil =>
      rw [isLeadit_iff] at leads
      have value : numeralValue [first] = first.toNat - 0x30 := by simp [numeralValue]
      refine ⟨?_, by omega⟩
      rw [value, decimal_small (by omega), Nat.add_sub_cancel' (by omega), BitVec.ofNat_toNat]
      rfl
  | append_singleton front digit ih =>
      obtain ⟨text, positive⟩ := ih fun symbol member => all symbol (List.mem_append_left _ member)
      have last := all digit (by simp)
      rw [isDigit_iff] at last
      have value : numeralValue (first :: (front ++ [digit])) =
          10 * numeralValue (first :: front) + (digit.toNat - 0x30) :=
        numeralValue_append (first :: front) digit
      have tens : (10 * numeralValue (first :: front) + (digit.toNat - 0x30)) / 10 =
          numeralValue (first :: front) := by omega
      have ones : 0x30 + (10 * numeralValue (first :: front) + (digit.toNat - 0x30)) % 10 =
          digit.toNat := by omega
      refine ⟨?_, by omega⟩
      rw [value, decimal_large (by omega), tens, ones, text, BitVec.ofNat_toNat]
      rfl

end Numerals

section Tokens

theorem consumes_opsp : Consumes opsp fun _ piece => ∃ gap : Spaces, piece = gap.val := by
  apply (consumes_span isOpsp).mono
  rintro value piece ⟨-, spaces⟩
  exact ⟨⟨piece, spaces⟩, rfl⟩

theorem consumes_keyword (word : String) :
    Consumes (keyword word) fun _ piece => piece = ascii word := consumes_literal _

theorem consumes_identifier :
    Consumes identifier fun _ piece => ∃ name : Identifier, piece = name.text := by
  apply ((consumes_item isIdfirst).bind fun first =>
    (consumes_span isIdrest).bind fun rest => consumes_pure (first :: rest)).mono
  rintro value piece ⟨first, front, back, ⟨rfl, isFirst⟩,
    ⟨rest, middle, last, ⟨-, isRest⟩, ⟨-, rfl⟩,
    rfl⟩, rfl⟩
  exact ⟨⟨first, middle, isFirst, isRest⟩, by simp [Identifier.text]⟩

/-- The value of a numeral is its text. -/
theorem consumes_numeral : Consumes numeral fun value piece => value = piece ∧
    ∃ first digits, piece = first :: digits ∧ isLeadit first = true ∧
      ∀ symbol ∈ digits, isDigit symbol = true := by
  apply ((consumes_item isLeadit).bind fun first =>
    (consumes_span isDigit).bind fun rest => consumes_pure (first :: rest)).mono
  rintro value piece ⟨first, front, back, ⟨rfl, leads⟩, ⟨rest, middle, last, ⟨rfl, all⟩, ⟨rfl, rfl⟩,
    rfl⟩, rfl⟩
  exact ⟨by simp, first, rest, by simp, leads, all⟩

theorem consumes_idnot : Consumes idnot fun _ piece => piece = [] := consumes_notAhead _

/-- A size is left out or is the decimal text of a number that passes its check. -/
theorem consumes_size {A : Type} {passes : Nat → Prop} {next : Option (List Byte) → Grammar A}
    (left : Consumes (next none) fun _ piece => piece = [])
    (checked : ∀ digits, Consumes (next (some digits)) fun _ piece =>
      passes (numeralValue digits) ∧ piece = []) :
    Consumes (do
      let size ← optional numeral
      idnot
      next size) fun _ piece =>
        ∃ size : Option { number : Nat // passes number },
          piece = sizeText (size.map Subtype.val) := by
  have behind (size : Option (List Byte)) := consumes_idnot.seq fun _ =>
    (show Consumes (next size) fun _ piece =>
      (∀ digits ∈ size, passes (numeralValue digits)) ∧ piece = [] by
        cases size with
        | none => exact left.mono fun _ _ empty => ⟨by simp, empty⟩
        | some digits => exact (checked digits).mono fun _ _ found => by simpa using found)
  apply (consumes_numeral.optional.bind behind).mono
  rintro value piece ⟨size, front, back, read, ⟨a, b, rfl, ⟨holds, rfl⟩, rfl⟩, rfl⟩
  cases size with
  | none => exact ⟨none, by simpa [sizeText] using read⟩
  | some digits =>
      obtain ⟨rfl, first, others, rfl, leads, all⟩ := read
      refine ⟨some ⟨_, holds _ rfl⟩, ?_⟩
      simp [sizeText, (decimal_numeralValue leads all).1]

theorem consumes_intSizeIdnot : Consumes intSizeIdnot fun _ piece =>
    ∃ size : Option IntSize, piece = sizeText (size.map Subtype.val) := by
  apply consumes_size
  · exact (consumes_pure 256).mono fun _ _ found => found.2
  · intro digits
    apply ((consumes_ensure _).seq fun _ => (consumes_pure (numeralValue digits)).mono
      fun _ _ found => found.2).mono
    rintro value piece ⟨a, b, ⟨holds, rfl⟩, rfl, rfl⟩
    exact ⟨holds, rfl⟩

theorem consumes_bytesSizeIdnot : Consumes bytesSizeIdnot fun _ piece =>
    ∃ size : Option BytesSize, piece = sizeText (size.map Subtype.val) := by
  apply consumes_size
  · exact (consumes_pure none).mono fun _ _ found => found.2
  · intro digits
    apply ((consumes_ensure _).seq fun _ => (consumes_pure (some (numeralValue digits))).mono
      fun _ _ found => found.2).mono
    rintro value piece ⟨a, b, ⟨holds, rfl⟩, rfl, rfl⟩
    exact ⟨holds, rfl⟩

theorem consumes_dataLocation :
    Consumes dataLocation fun _ piece => ∃ location : Location, piece = location.text := by
  apply Consumes.choices
  intro expression member
  simp only [List.mem_cons, List.not_mem_nil, or_false] at member
  rcases member with rfl | rfl | rfl
  · exact (consumes_keyword "memory").mono fun _ _ text => ⟨.memory, text⟩
  · exact (consumes_keyword "calldata").mono fun _ _ text => ⟨.calldata, text⟩
  · exact (consumes_keyword "storage").mono fun _ _ text => ⟨.storage, text⟩

end Tokens

section Pieces

/-- The texts of some values, as the pieces of a repetition. -/
theorem exists_texts {A T : Type} {text : T → List Byte} {values : List A} {whole : List Byte}
    (pieces : Pieces (fun _ piece => ∃ spelled, piece = text spelled) values whole) :
    ∃ spelled : List T, whole = spelled.flatMap text := by
  induction pieces with
  | nil => exact ⟨[], rfl⟩
  | cons first rest ih =>
      obtain ⟨one, rfl⟩ := first
      obtain ⟨others, rfl⟩ := ih
      exact ⟨one :: others, rfl⟩

theorem consumes_optional_text {A T : Type} {text : T → List Byte} {expression : Grammar A}
    (consumes : Consumes expression fun _ piece => ∃ spelled, piece = text spelled) :
    Consumes (optional expression) fun _ piece =>
      ∃ spelled : Option T, piece = (spelled.map text).getD [] := by
  apply consumes.optional.mono
  intro value piece found
  cases value with
  | none => exact ⟨none, found⟩
  | some value =>
      obtain ⟨spelled, rfl⟩ := found
      exact ⟨some spelled, rfl⟩

theorem consumes_nothing {A : Type} (value : A) :
    Consumes (pure value : Grammar A) fun _ piece => piece = [] :=
  (consumes_pure value).mono fun _ _ found => found.2

/-- No spaces at all. -/
def noSpaces : Spaces := ⟨[], by simp⟩

theorem consumes_emptyArrayBracket :
    Consumes emptyArrayBracket fun _ piece => ∃ bracket : Bracket, piece = bracket.text := by
  apply ((consumes_keyword "[").seq fun _ => consumes_opsp.seq fun _ =>
    (consumes_keyword "]").seq fun _ => consumes_nothing none).mono
  rintro value piece ⟨_, _, rfl, ⟨_, _, ⟨gap, rfl⟩, ⟨_, _, rfl, rfl, rfl⟩, rfl⟩, rfl⟩
  exact ⟨⟨gap, none, noSpaces⟩, by simp [Bracket.text, noSpaces]⟩

theorem digit_inside {symbol : Byte} (digit : isDigit symbol = true) :
    isOpsp symbol = false ∧ symbol ≠ 0x5d := by
  refine ⟨digit_not_space digit, ?_⟩
  rintro rfl
  exact absurd digit (by decide)

theorem leadit_digit {symbol : Byte} (leads : isLeadit symbol = true) : isDigit symbol = true := by
  rw [isLeadit_iff] at leads
  rw [isDigit_iff]
  omega

/-- A numeral as a text between brackets. -/
def SizeText.ofNumeral {first : Byte} {digits : List Byte} (leads : isLeadit first = true)
    (all : ∀ symbol ∈ digits, isDigit symbol = true) : SizeText where
  first := first
  rest := digits
  inside := by
    intro symbol member
    rcases List.mem_cons.mp member with rfl | later
    · exact digit_inside (leadit_digit leads)
    · exact digit_inside (all symbol later)

theorem consumes_sizedArrayBracket :
    Consumes sizedArrayBracket fun _ piece => ∃ bracket : Bracket, piece = bracket.text := by
  have size : Consumes numeral fun _ piece => ∃ size : SizeText, piece = size.text := by
    apply consumes_numeral.mono
    rintro value piece ⟨-, first, digits, rfl, leads, all⟩
    exact ⟨.ofNumeral leads all, rfl⟩
  apply ((consumes_keyword "[").seq fun _ => consumes_opsp.seq fun _ => size.seq fun digits =>
    consumes_opsp.seq fun _ => (consumes_keyword "]").seq fun _ =>
      consumes_nothing (some (numeralValue digits))).mono
  rintro value piece ⟨_, _, rfl, ⟨_, _, ⟨gap, rfl⟩, ⟨_, _, ⟨size, rfl⟩, ⟨_, _, ⟨gapBehind, rfl⟩,
    ⟨_, _, rfl, rfl, rfl⟩, rfl⟩, rfl⟩, rfl⟩, rfl⟩
  exact ⟨⟨gap, some size, gapBehind⟩, by simp [Bracket.text]⟩

theorem consumes_brackets : Consumes arrayBrackets fun _ piece =>
    ∃ brackets : List Bracket, piece = bracketsText brackets := by
  apply (consumes_emptyArrayBracket.choice consumes_sizedArrayBracket).many.mono
  intro values piece pieces
  exact exists_texts pieces

theorem consumes_locationAndName :
    Consumes locationAndName fun _ piece => ∃ tail : Tail, piece = tail.text := by
  apply (consumes_opsp.seq fun _ => (consumes_optional_text consumes_dataLocation).seq fun _ =>
    consumes_opsp.seq fun _ => consumes_optional_text consumes_identifier).mono
  rintro value piece ⟨_, _, ⟨gap, rfl⟩, ⟨_, _, ⟨location, rfl⟩,
    ⟨_, _, ⟨gapBehind, rfl⟩, ⟨name, rfl⟩,
    rfl⟩, rfl⟩, rfl⟩
  exact ⟨⟨gap, location, gapBehind, name⟩, by simp [Tail.text]⟩

end Pieces

section Atoms

/-- An alternative of the elementary types takes the text of one of them. -/
theorem consumes_alternative {entry : String × Grammar TypeSpec}
    (consumes : Consumes entry.2 fun _ piece => ∃ atom : Atom, ascii entry.1 ++ piece = atom.text) :
    Consumes (alternative entry) fun _ piece => ∃ atom : Atom, piece = atom.text := by
  apply ((consumes_keyword entry.1).seq fun _ => consumes).mono
  rintro value piece ⟨_, _, rfl, ⟨atom, text⟩, rfl⟩
  exact ⟨atom, text⟩

theorem consumes_entry (entry : String × Grammar TypeSpec) (member : entry ∈ entries) :
    Consumes (alternative entry) fun _ piece => ∃ atom : Atom, piece = atom.text := by
  have word (type : TypeSpec) : Consumes (idnot >>= fun _ => pure type : Grammar TypeSpec)
      fun _ piece => piece = [] := by
    apply (consumes_idnot.seq fun _ => consumes_nothing type).mono
    rintro value piece ⟨_, _, rfl, rfl, rfl⟩
    rfl
  simp only [entries, List.mem_cons, List.not_mem_nil, or_false] at member
  rcases member with rfl | rfl | rfl | rfl | rfl | rfl
  · apply consumes_alternative
    apply (consumes_intSizeIdnot.seq fun size => consumes_nothing (TypeSpec.int size)).mono
    rintro value piece ⟨_, _, ⟨size, rfl⟩, rfl, rfl⟩
    exact ⟨.int size, by simp [Atom.text, intEntry]⟩
  · apply consumes_alternative
    apply (consumes_intSizeIdnot.seq fun size => consumes_nothing (TypeSpec.uint size)).mono
    rintro value piece ⟨_, _, ⟨size, rfl⟩, rfl, rfl⟩
    exact ⟨.uint size, by simp [Atom.text, uintEntry]⟩
  · apply consumes_alternative
    apply (consumes_bytesSizeIdnot.seq fun size => consumes_nothing (TypeSpec.bytes size)).mono
    rintro value piece ⟨_, _, ⟨size, rfl⟩, rfl, rfl⟩
    exact ⟨.bytes size, by simp [Atom.text, bytesEntry]⟩
  · exact consumes_alternative ((word .address).mono fun _ _ empty =>
      ⟨.address, by rw [empty]; rfl⟩)
  · exact consumes_alternative ((word .string).mono fun _ _ empty => ⟨.string, by rw [empty]; rfl⟩)
  · exact consumes_alternative ((word .bool).mono fun _ _ empty => ⟨.bool, by rw [empty]; rfl⟩)

end Atoms

section Parameters

variable {read : Grammar Component}
  (reads : Consumes read fun _ piece => ∃ param : Param, piece = param.text)

/-- The parameters behind the first one, and the last gap. -/
def moreOf (gap : Spaces) : List (Spaces × Param) → More
  | [] => .last gap
  | (before, param) :: rest => .next before param (moreOf gap rest)

/-- The text of a parameter behind the first one. -/
def nextText (entry : Spaces × Param) : List Byte :=
  ascii "," ++ (entry.1.val ++ entry.2.text)

theorem text_moreOf (gap : Spaces) (entries : List (Spaces × Param)) :
    (moreOf gap entries).text = entries.flatMap nextText ++ (gap.val ++ ascii ")") := by
  induction entries with
  | nil => rfl
  | cons entry entries ih =>
      obtain ⟨before, param⟩ := entry
      simp [moreOf, More.text, nextText, ih]

include reads

theorem consumes_list : Consumes (nonEmptyComponentList read) fun _ piece =>
    ∃ list : Param × Spaces × List (Spaces × Param),
      piece = list.1.text ++ (list.2.1.val ++ list.2.2.flatMap nextText) := by
  have next : Consumes (nextComponent read) fun _ piece =>
      ∃ entry : Spaces × Param, piece = nextText entry := by
    apply ((consumes_keyword ",").seq fun _ => consumes_opsp.seq fun _ => reads).mono
    rintro value piece ⟨_, _, rfl, ⟨_, _, ⟨gap, rfl⟩, ⟨param, rfl⟩, rfl⟩, rfl⟩
    exact ⟨(gap, param), rfl⟩
  have others : Consumes (many (nextComponent read)) fun _ piece =>
      ∃ entries : List (Spaces × Param), piece = entries.flatMap nextText :=
    next.many.mono fun _ _ pieces => exists_texts pieces
  apply (reads.seq fun first => consumes_opsp.seq fun _ => others.seq fun rest =>
    consumes_nothing (first :: rest)).mono
  rintro value piece ⟨_, _, ⟨first, rfl⟩, ⟨_, _, ⟨gap, rfl⟩, ⟨_, _, ⟨entries, rfl⟩, rfl, rfl⟩, rfl⟩,
    rfl⟩
  exact ⟨(first, gap, entries), by simp⟩

theorem consumes_tupleOf :
    Consumes (tupleOf read) fun _ piece => ∃ params : Params, piece = params.text := by
  apply ((consumes_keyword "(").seq fun _ => consumes_opsp.seq fun _ =>
    (consumes_optional_text (consumes_list reads)).seq fun components => consumes_opsp.seq fun _ =>
      (consumes_keyword ")").seq fun _ =>
        consumes_nothing (toComponents (components.getD []))).mono
  rintro value piece ⟨_, _, rfl, ⟨_, _, ⟨gap, rfl⟩, ⟨_, _, ⟨list, rfl⟩, ⟨_, _, ⟨last, rfl⟩,
    ⟨_, _, rfl, rfl, rfl⟩, rfl⟩, rfl⟩, rfl⟩, rfl⟩
  cases list with
  | none =>
      have spaces : ∀ symbol ∈ gap.val ++ last.val, isOpsp symbol = true := by
        intro symbol member
        rcases List.mem_append.mp member with front | back
        · exact gap.property symbol front
        · exact last.property symbol back
      exact ⟨.empty ⟨_, spaces⟩, by simp [Params.text]⟩
  | some list =>
      obtain ⟨first, gapBehind, entries⟩ := list
      exact ⟨.list gap first gapBehind (moreOf last entries), by simp [Params.text, text_moreOf]⟩

theorem consumes_elementary : Consumes (elementaryTypeSpec read) fun _ piece =>
    (∃ atom : Atom, piece = atom.text) ∨ ∃ params : Params, piece = params.text := by
  rw [elementary_eq]
  apply Consumes.choices
  intro expression member
  rcases List.mem_append.mp member with inside | single
  · obtain ⟨entry, among, rfl⟩ := List.mem_map.mp inside
    exact (consumes_entry entry among).mono fun _ _ atom => .inl atom
  · rw [List.mem_singleton.mp single]
    apply ((consumes_tupleOf reads).seq fun components =>
      consumes_nothing (TypeSpec.tuple components)).mono
    rintro value piece ⟨_, _, ⟨params, rfl⟩, rfl, rfl⟩
    exact .inr ⟨params, List.append_nil _⟩

theorem consumes_typeSpecOf :
    Consumes (typeSpecOf read) fun _ piece => ∃ param : Param, piece = param.text := by
  apply ((consumes_elementary reads).seq fun elementary => consumes_opsp.seq fun _ =>
    consumes_brackets.seq fun brackets => consumes_locationAndName.seq fun name =>
      consumes_nothing (name, brackets.foldl .array elementary)).mono
  rintro value piece ⟨_, _, elementary, ⟨_, _, ⟨gap, rfl⟩,
    ⟨_, _, ⟨brackets, rfl⟩, ⟨_, _, ⟨tail, rfl⟩,
    rfl, rfl⟩, rfl⟩, rfl⟩, rfl⟩
  rcases elementary with ⟨atom, rfl⟩ | ⟨params, rfl⟩
  · exact ⟨.atom atom gap brackets tail, by simp [Param.text]⟩
  · exact ⟨.tuple params gap brackets tail, by simp [Param.text]⟩

end Parameters

theorem consumes_typeSpec (depth : Nat) :
    Consumes (typeSpec depth) fun _ piece => ∃ param : Param, piece = param.text := by
  induction depth with
  | zero =>
      intro text value rest found
      simp [typeSpec, fail] at found
  | succ depth ih => exact consumes_typeSpecOf ih

theorem consumes_tuple : Consumes tuple fun _ piece => ∃ params : Params, piece = params.text :=
  fun text => consumes_tupleOf (consumes_typeSpec text.length) text

section Signatures

theorem consumes_nameAndSpaces : Consumes nameAndSpaces fun _ piece =>
    ∃ name : Identifier, ∃ gap : Spaces, piece = name.text ++ gap.val := by
  apply (consumes_identifier.seq fun _ => consumes_opsp).capture.mono
  rintro value piece ⟨-, -, _, _, ⟨name, rfl⟩, ⟨gap, rfl⟩, rfl⟩
  exact ⟨name, gap, rfl⟩

/-- The keyword has a space behind it where a name follows. -/
theorem keyword_and_name {text name left rest : List Byte}
    (read : functionKeyword text = some (left, rest)) {behind : List Byte}
    (named : nameAndSpaces rest = some (name, behind)) :
    ∃ gap : Spaces, gap.val ≠ [] ∧ text = ascii "function" ++ (gap.val ++ rest) := by
  obtain ⟨_, middle, word, followed⟩ := bind_eq_some read
  obtain ⟨_, same, ends, spaces⟩ := bind_eq_some followed
  obtain ⟨stops, unmoved⟩ := notAhead_eq_some ends
  rw [unmoved] at spaces
  obtain ⟨_, spelled, split⟩ := consumes_keyword "function" _ _ _ word
  obtain ⟨_, ⟨gap, gapText⟩, gapSplit⟩ := consumes_opsp _ _ _ spaces
  refine ⟨gap, fun empty => ?_, by rw [split, spelled, gapSplit, gapText]⟩
  obtain ⟨_, ⟨first, _, nameText⟩, nameSplit⟩ := consumes_nameAndSpaces _ _ _ named
  have letter : isIdrest first.first = true := isIdrest_iff.mpr (.inl first.isFirst)
  simp [gapSplit, gapText, empty, nameSplit, nameText, Identifier.text, letter] at stops

theorem consumes_returnsClause : Consumes returnsClause fun _ piece =>
    ∃ clause : Spaces × Params, piece = ascii "returns" ++ (clause.1.val ++ clause.2.text) := by
  apply ((consumes_keyword "returns").seq fun _ => consumes_idnot.seq fun _ =>
    consumes_opsp.seq fun _ => consumes_tuple).mono
  rintro value piece ⟨_, _, rfl, ⟨_, _, rfl, ⟨_, _, ⟨gap, rfl⟩, ⟨params, rfl⟩, rfl⟩, rfl⟩, rfl⟩
  exact ⟨(gap, params), rfl⟩

/-- Nothing is left behind the parameters and the returns clause. -/
theorem behindParams_text {name text : List Byte} {components : Components} {parsed : ParsedFuncSig}
    {rest : List Byte} (read : behindParams name components text = some (parsed, rest)) :
    ∃ gapBehind last : Spaces, ∃ returns : Option (Spaces × Params),
      text = gapBehind.val ++ ((returns.map fun clause =>
        ascii "returns" ++ (clause.1.val ++ clause.2.text)).getD [] ++ last.val) := by
  obtain ⟨_, first, spaces, read⟩ := bind_eq_some read
  obtain ⟨_, second, clause, read⟩ := bind_eq_some read
  obtain ⟨_, third, lastSpaces, read⟩ := bind_eq_some read
  obtain ⟨_, fourth, ends, -⟩ := bind_eq_some read
  obtain ⟨rfl, -⟩ := finish_eq_some ends
  obtain ⟨_, ⟨gapBehind, rfl⟩, rfl⟩ := consumes_opsp _ _ _ spaces
  obtain ⟨_, ⟨returns, rfl⟩, rfl⟩ := consumes_optional_text consumes_returnsClause _ _ _ clause
  obtain ⟨_, ⟨last, rfl⟩, rfl⟩ := consumes_opsp _ _ _ lastSpaces
  exact ⟨gapBehind, last, returns, by rw [List.append_nil]⟩

theorem exists_spelling {text : List Byte} {parsed : ParsedFuncSig} {rest : List Byte}
    (accepted : funcSig text = some (parsed, rest)) :
    ∃ spelling : Spelling, spelling.text = text := by
  rw [funcSig_eq] at accepted
  obtain ⟨_, first, spaces, behindSpaces⟩ := bind_eq_some accepted
  obtain ⟨keyword, second, word, behindKeyword⟩ := bind_eq_some behindSpaces
  obtain ⟨name, third, named, behindName⟩ := bind_eq_some behindKeyword
  obtain ⟨components, fourth, parentheses, read⟩ := bind_eq_some behindName
  obtain ⟨_, ⟨before, beforeText⟩, split⟩ := consumes_opsp _ _ _ spaces
  obtain ⟨_, ⟨identifier, gap, nameText⟩, nameSplit⟩ := consumes_nameAndSpaces _ _ _ named
  obtain ⟨_, ⟨params, paramsText⟩, paramsSplit⟩ := consumes_tuple _ _ _ parentheses
  obtain ⟨gapBehind, last, returns, lastText⟩ := behindParams_text read
  obtain ⟨spelled, keywordText⟩ : ∃ spelled : Option { gap : Spaces // gap.val ≠ [] },
      first = (spelled.map fun gap => ascii "function" ++ gap.val.val).getD [] ++ second := by
    unfold Peg.optional at word
    split at word
    · rename_i value behind found
      rw [Option.some.injEq, Prod.mk.injEq] at word
      rw [← word.2] at named
      obtain ⟨space, nonempty, text⟩ := keyword_and_name found named
      exact ⟨some ⟨space, nonempty⟩, by simp [text, word.2]⟩
    · rw [Option.some.injEq, Prod.mk.injEq] at word
      exact ⟨none, by simp [word.2]⟩
  refine ⟨⟨before, spelled, identifier, gap, params, gapBehind, returns, last⟩, ?_⟩
  have keywords :
      (Spelling.mk before spelled identifier gap params gapBehind returns last).keywordText =
      (spelled.map fun gap => ascii "function" ++ gap.val.val).getD [] := by cases spelled <;> rfl
  have clauses :
      (Spelling.mk before spelled identifier gap params gapBehind returns last).returnsText =
      (returns.map fun clause => ascii "returns" ++ (clause.1.val ++ clause.2.text)).getD [] := by
    cases returns <;> rfl
  rw [Spelling.text, keywords, clauses, split, beforeText, keywordText, nameSplit, nameText,
    paramsSplit, paramsText, lastText]

end Signatures

end MachineEmulator.Evmu
