/-
This file shows which of the spellings of a signature have one canonical signature.
-/

import MachineEmulator.Proof.Evmu.CanonicSpelling
import MachineEmulator.Proof.Evmu.DecodeCalldata

namespace MachineEmulator.Evmu

section Grammar

theorem legal_of_accepted {text rest : List Byte} {parsed : ParsedFuncSig}
    (accepted : funcSig text = some (parsed, rest)) : parsed.params.Legal := by
  obtain ⟨spelling, rfl⟩ := exists_spelling accepted
  by_cases allowed : spelling.Allowed
  · rw [funcSig_allowed spelling allowed, Option.some.injEq, Prod.mk.injEq] at accepted
    rw [← accepted.1]
    exact spelling.params.legal allowed.params
  · simp [funcSig_refused spelling allowed] at accepted

/-- This is `func_sig:match`, with the sizes that the grammar has checked. -/
def matchFuncSig (text : List Byte) : Option FuncSig :=
  match accepted : funcSig text with
  | some (parsed, _) => some ⟨parsed.name, parsed.params, legal_of_accepted accepted⟩
  | none => none

/-- Lua with the grammar of the source and the numbers that it writes. -/
def Lua.withGrammar (lua : Lua) : Lua :=
  { lua with
    numberText := concatText
    funcSig := matchFuncSig }

end Grammar

section Spellings

variable (spelling : Spelling)

def Spelling.parsed (allowed : spelling.Allowed) : FuncSig :=
  ⟨spelling.value.name, spelling.params.value, spelling.params.legal allowed.params⟩

theorem matchFuncSig_allowed (allowed : spelling.Allowed) :
    matchFuncSig spelling.text = some (spelling.parsed allowed) := by
  have read := funcSig_allowed spelling allowed
  unfold matchFuncSig
  split
  · rename_i parsed rest accepted
    rw [read, Option.some.injEq, Prod.mk.injEq] at accepted
    obtain ⟨rfl, -⟩ := accepted
    rfl
  · rename_i missed
    simp [read] at missed

theorem matchFuncSig_refused (refused : ¬ spelling.Allowed) :
    matchFuncSig spelling.text = none := by
  have missed := funcSig_refused spelling refused
  unfold matchFuncSig
  split
  · rename_i parsed rest accepted
    simp [missed] at accepted
  · rfl

/-- The canonical spelling keeps the name and the spaces behind it. -/
def Spelling.canonical : Spelling :=
  ⟨noSpaces, none, spelling.name, spelling.gap, spelling.params.canonical, noSpaces, none, noSpaces⟩

/-- Two spellings of one name and of types that differ in the names of parameters only. -/
structure Spelling.SameSignature (spelling other : Spelling) : Prop where
  name : other.name.text = spelling.name.text
  params : other.params.value.unnamed = spelling.params.value.unnamed

variable {spelling : Spelling}

theorem Spelling.canonical_text : spelling.canonical.text =
    spelling.name.text ++ spelling.gap.val ++
      (ascii "(" ++ (spelling.params.value.canonic concatText ++ ascii ")")) := by
  rw [Spelling.text, Spelling.canonical]
  simp [Spelling.keywordText, Spelling.returnsText, noSpaces, Params.canonical_text]

/-- The canonical signature is the text of the canonical spelling. -/
theorem Spelling.canonic_parsed (allowed : spelling.Allowed) :
    (spelling.parsed allowed).canonic concatText = spelling.canonical.text := by
  rw [Spelling.canonical_text, FuncSig.canonic, Spelling.parsed, Spelling.value]
  simp

theorem Spelling.canonical_allowed (allowed : spelling.Allowed) : spelling.canonical.Allowed ↔
    spelling.name.text ≠ ascii "function" ∧ spelling.params.value.SizesFit := by
  have params := spelling.params.canonical_allowed allowed.params
  constructor
  · rintro ⟨named, inner, -⟩
    exact ⟨named rfl, params.mp inner⟩
  · rintro ⟨named, fits⟩
    exact ⟨fun _ => named, params.mpr fits, fun clause member => by simp [canonical] at member⟩

/-- Where it is read, the canonical signature is its own. -/
theorem Spelling.canonical_canonic (fits : spelling.params.value.SizesFit)
    (allowed : spelling.canonical.Allowed) :
    (spelling.canonical.parsed allowed).canonic concatText = spelling.canonical.text := by
  have value : spelling.canonical.params.value = spelling.params.value.unnamed :=
    spelling.params.canonical_value fits
  have again := Components.canonic_unnamed concatText spelling.params.value
  have canonic : (spelling.canonical.parsed allowed).canonic concatText =
      spelling.name.text ++ spelling.gap.val ++ ascii "(" ++
        spelling.canonical.params.value.canonic concatText ++ ascii ")" := rfl
  rw [canonic, value, again, Spelling.canonical_text]
  simp

theorem Spelling.SameSignature.canonical_eq {other : Spelling}
    (same : spelling.SameSignature other) :
    other.canonical.text = spelling.canonical.text ↔ other.gap = spelling.gap := by
  have components : other.params.value.canonic concatText =
      spelling.params.value.canonic concatText := by
    rw [← Components.canonic_unnamed, same.params, Components.canonic_unnamed]
  rw [Spelling.canonical_text, Spelling.canonical_text, components, same.name,
    List.append_left_inj, List.append_right_inj]
  exact Subtype.ext_iff.symm

end Spellings

section Selectors

variable {lua : Lua}

theorem parseFuncSig_iff {text selector : List Byte} {parsed : FuncSig} :
    parseFuncSig lua.withGrammar text = .ok (parsed, selector) ↔
      matchFuncSig text = some parsed ∧
        selector = (lua.keccak256 (parsed.canonic concatText)).take 4 := by
  rw [parseFuncSig, bind_ok]
  constructor
  · rintro ⟨answer, found, returned⟩
    obtain ⟨rfl, rfl⟩ := Prod.mk.inj (Except.ok.inj returned)
    exact ⟨expect_ok.mp found, rfl⟩
  · rintro ⟨found, rfl⟩
    exact ⟨parsed, expect_ok.mpr found, rfl⟩

/-- A text has the canonical signature and the selector. -/
def Keeps (lua : Lua) (canonic selector text : List Byte) : Prop :=
  ∃ parsed, parseFuncSig lua.withGrammar text = .ok (parsed, selector) ∧
    parsed.canonic concatText = canonic

theorem keeps_iff {canonic selector text : List Byte} : Keeps lua canonic selector text ↔
    ∃ parsed, matchFuncSig text = some parsed ∧ parsed.canonic concatText = canonic ∧
      selector = (lua.keccak256 canonic).take 4 := by
  constructor
  · rintro ⟨parsed, accepted, rfl⟩
    obtain ⟨found, selected⟩ := parseFuncSig_iff.mp accepted
    exact ⟨parsed, found, rfl, selected⟩
  · rintro ⟨parsed, found, rfl, selected⟩
    exact ⟨parsed, parseFuncSig_iff.mpr ⟨found, selected⟩, rfl⟩

theorem keeps_spelling {canonic selector : List Byte} (spelling : Spelling) :
    Keeps lua canonic selector spelling.text ↔
      ∃ _ : spelling.Allowed, spelling.canonical.text = canonic ∧
        selector = (lua.keccak256 canonic).take 4 := by
  rw [keeps_iff]
  constructor
  · rintro ⟨parsed, found, same, selected⟩
    by_cases allowed : spelling.Allowed
    · rw [matchFuncSig_allowed spelling allowed, Option.some.injEq] at found
      rw [← found, Spelling.canonic_parsed] at same
      exact ⟨allowed, same, selected⟩
    · simp [matchFuncSig_refused spelling allowed] at found
  · rintro ⟨allowed, same, selected⟩
    have canonic := Spelling.canonic_parsed allowed
    exact ⟨_, matchFuncSig_allowed spelling allowed, canonic.trans same, selected⟩

theorem exists_spelling_of_parsed {text selector : List Byte} {parsed : FuncSig}
    (accepted : parseFuncSig lua.withGrammar text = .ok (parsed, selector)) :
    ∃ spelling : Spelling, spelling.text = text := by
  obtain ⟨found, -⟩ := parseFuncSig_iff.mp accepted
  unfold matchFuncSig at found
  split at found
  · rename_i read rest taken
    obtain ⟨spelling, same⟩ := exists_spelling taken
    exact ⟨spelling, same⟩
  · simp at found

/-- Every accepted text is spelled in some way, and every other way to spell the signature has the
canonical signature and the selector, which the canonical signature itself has, exactly if that
way is read, if the spaces behind the name are the same, if the name is not that of the keyword and
if the sizes of the arrays are integers. -/
theorem parseFuncSig_canonic {text selector : List Byte} {parsed : FuncSig}
    (accepted : parseFuncSig lua.withGrammar text = .ok (parsed, selector)) :
    (∃ spelling : Spelling, spelling.text = text) ∧
    ∀ spelling other : Spelling, spelling.text = text → spelling.SameSignature other →
      (Keeps lua (parsed.canonic concatText) selector other.text ∧
        Keeps lua (parsed.canonic concatText) selector (parsed.canonic concatText) ↔
      other.Allowed ∧ other.gap = spelling.gap ∧ spelling.name.text ≠ ascii "function" ∧
        spelling.params.value.SizesFit) := by
  constructor
  · exact exists_spelling_of_parsed accepted
  · intro spelling other spelled same
    obtain ⟨allowed, canonic, selected⟩ := (keeps_spelling spelling).mp
      (spelled ▸ (⟨parsed, accepted, rfl⟩ : Keeps lua _ selector text))
    rw [← canonic] at selected ⊢
    rw [keeps_spelling, keeps_spelling, same.canonical_eq]
    constructor
    · rintro ⟨⟨otherAllowed, gap, -⟩, again, -⟩
      exact ⟨otherAllowed, gap, (Spelling.canonical_allowed allowed).mp again⟩
    · rintro ⟨otherAllowed, gap, legal⟩
      have again := (Spelling.canonical_allowed allowed).mpr legal
      have own := (Spelling.canonical_canonic legal.2 again)
      exact ⟨⟨otherAllowed, gap, selected⟩, again,
        (Spelling.canonic_parsed again).symm.trans own, selected⟩

end Selectors

section Sample

def oneSpace : Spaces := ⟨ascii " ", by decide⟩

/-- A function of one integer, whose size is left out or not. -/
def sampleSpelling (gap : Spaces) (size : Option IntSize) : Spelling :=
  ⟨noSpaces, none, ⟨0x66, [], by decide, by simp⟩, gap,
    .list noSpaces (.atom (.uint size) noSpaces [] ⟨noSpaces, none, noSpaces, none⟩) noSpaces
      (.last noSpaces), noSpaces, none, noSpaces⟩

theorem sample_allowed (gap : Spaces) (size : Option IntSize) :
    (sampleSpelling gap size).Allowed := by
  constructor
  · intro _
    simp [sampleSpelling, Identifier.text, ascii]
  · simp [sampleSpelling, Params.Allowed, Param.Allowed, More.Allowed, Separated, bracketsText,
      noSpaces, Tail.text, Tail.Allowed]
  · simp [sampleSpelling]

theorem sample_accepted (gap : Spaces) (size : Option IntSize) :
    parseFuncSig sampleLua.withGrammar (sampleSpelling gap size).text =
      .ok ((sampleSpelling gap size).parsed (sample_allowed gap size),
        (sampleLua.keccak256 (sampleSpelling gap size).canonical.text).take 4) := by
  rw [← Spelling.canonic_parsed (sample_allowed gap size)]
  exact parseFuncSig_iff.mpr ⟨matchFuncSig_allowed _ (sample_allowed gap size), rfl⟩

theorem parseFuncSig_canonic_sample :
    Keeps sampleLua (ascii "f(uint256)")
      ((sampleLua.keccak256 (ascii "f(uint256)")).take 4) (ascii "f(uint256)") := by
  have accepted := sample_accepted noSpaces none
  have same : (sampleSpelling noSpaces none).SameSignature
      (sampleSpelling noSpaces (some ⟨256, by decide⟩)) := ⟨rfl, rfl⟩
  have canonic : (sampleSpelling noSpaces none).canonical.text = ascii "f(uint256)" := by
    decide
  have fits : (sampleSpelling noSpaces none).params.value.SizesFit := by
    simp [sampleSpelling, Params.value, Param.value, More.value, withBrackets, Atom.type,
      Components.SizesFit, TypeSpec.SizesFit]
  have kept := ((parseFuncSig_canonic accepted).2 (sampleSpelling noSpaces none) _ rfl same).mpr
    ⟨sample_allowed _ _, rfl, by decide, fits⟩
  rw [Spelling.canonic_parsed, canonic] at kept
  exact kept.2

/-- A space behind the name changes the canonical signature. -/
theorem parseFuncSig_space :
    (sampleSpelling noSpaces none).SameSignature (sampleSpelling oneSpace none) ∧
      (sampleSpelling noSpaces none).text = ascii "f(uint)" ∧
      (sampleSpelling oneSpace none).text = ascii "f (uint)" ∧
      ∃ first second, (parseFuncSig sampleLua.withGrammar (ascii "f(uint)") = .ok first ∧
          first.1.canonic concatText = ascii "f(uint256)") ∧
        parseFuncSig sampleLua.withGrammar (ascii "f (uint)") = .ok second ∧
          second.1.canonic concatText = ascii "f (uint256)" := by
  have first : (sampleSpelling noSpaces none).text = ascii "f(uint)" := by decide
  have second : (sampleSpelling oneSpace none).text = ascii "f (uint)" := by decide
  refine ⟨⟨rfl, rfl⟩, first, second, _, _, ⟨first ▸ sample_accepted noSpaces none, ?_⟩,
    second ▸ sample_accepted oneSpace none, ?_⟩
  · rw [Spelling.canonic_parsed]
    decide
  · rw [Spelling.canonic_parsed]
    decide

end Sample

end MachineEmulator.Evmu
