/-
This file gives the canonical spelling of a signature and says when the grammar reads it.
-/

import MachineEmulator.Proof.Evmu.AcceptedSpelling

namespace MachineEmulator.Evmu

open Peg Grammar

section Numbers

theorem decimal_digits (number : Nat) : ∀ symbol ∈ decimal number, isDigit symbol = true := by
  rcases Nat.eq_zero_or_pos number with rfl | positive
  · decide
  · obtain ⟨first, rest, text, leads, all⟩ := decimal_leads positive
    rw [text]
    intro symbol member
    rcases List.mem_cons.mp member with rfl | later
    · exact leadit_digit leads
    · exact all symbol later

theorem decimal_ne_nil (number : Nat) : decimal number ≠ [] := by
  rw [decimal, Ne, List.map_eq_nil_iff]
  exact Nat.toDigits_ne_nil

theorem scientific_symbols (number : Nat) : ∀ symbol ∈ scientific number,
    isDigit symbol = true ∨ symbol ∈ ascii ".e+" := by
  have digits (rounded : Nat) (symbol : Byte) (member : symbol ∈
      (((decimal rounded).take 14).reverse.dropWhile (· = 0x30)).reverse) :
      isDigit symbol = true := by
    have kept := List.dropWhile_suffix (l := ((decimal rounded).take 14).reverse) (· = 0x30)
    have taken := kept.subset (List.mem_reverse.mp member)
    exact decimal_digits rounded symbol (List.mem_of_mem_take (List.mem_reverse.mp taken))
  have point : ascii "." ⊆ ascii ".e+" := by decide
  have exponent : ascii "e+" ⊆ ascii ".e+" := by decide
  intro symbol member
  unfold scientific at member
  simp only [List.mem_append] at member
  rcases member with ((first | fraction) | mark) | last
  · exact .inl (digits _ symbol (List.mem_of_mem_take first))
  · split at fraction
    · simp at fraction
    · rcases List.mem_append.mp fraction with mark | others
      · exact .inr (point mark)
      · exact .inl (digits _ symbol (List.mem_of_mem_drop others))
  · exact .inr (exponent mark)
  · exact .inl (decimal_digits _ symbol last)

theorem scientific_letter (number : Nat) : 0x65 ∈ scientific number := by
  have mark : (0x65 : Byte) ∈ ascii "e+" := by decide
  unfold scientific
  exact List.mem_append_left _ (List.mem_append_right _ mark)

/-- A float has a letter in its text. -/
theorem concatText_letter {number : Nat} (large : 2 ^ 63 ≤ number) :
    ∃ symbol ∈ concatText number, isDigit symbol = false := by
  rw [concatText, if_neg (by omega)]
  cases nearestFloat number with
  | some float => exact ⟨0x65, scientific_letter float, by decide⟩
  | none => exact ⟨0x69, by decide, by decide⟩

/-- What Lua writes of a number stands between brackets without spaces. -/
theorem concatText_inside (number : Nat) :
    concatText number ≠ [] ∧
      ∀ symbol ∈ concatText number, isOpsp symbol = false ∧ symbol ≠ 0x5d := by
  by_cases small : number < 2 ^ 63
  · rw [concatText, if_pos small]
    exact ⟨decimal_ne_nil number, fun symbol member =>
      digit_inside (decimal_digits number symbol member)⟩
  · obtain ⟨symbol, member, -⟩ := concatText_letter (Nat.le_of_not_lt small)
    refine ⟨List.ne_nil_of_mem member, ?_⟩
    rw [concatText, if_neg small]
    cases nearestFloat number with
    | some float =>
        intro symbol member
        rcases scientific_symbols float symbol member with digit | mark
        · exact digit_inside digit
        · have marks : ∀ mark ∈ ascii ".e+", isOpsp mark = false ∧ mark ≠ 0x5d := by decide
          exact marks symbol mark
    | none => decide

def concatSize (number : Nat) : SizeText where
  first := (concatText number).head (concatText_inside number).1
  rest := (concatText number).tail
  inside := by
    rw [List.cons_head_tail]
    exact (concatText_inside number).2

@[simp] theorem concatSize_text (number : Nat) : (concatSize number).text = concatText number :=
  List.cons_head_tail _

theorem numeralValue_concatText {number : Nat} (small : number < 2 ^ 63) :
    numeralValue (concatText number) = number := by
  rw [concatText, if_pos small, numeralValue_decimal]

theorem concatSize_allowed {number : Nat} :
    (concatSize number).Allowed ↔ 0 < number ∧ number < 2 ^ 63 := by
  have text := concatSize_text number
  constructor
  · rintro ⟨leads, all⟩
    have small : number < 2 ^ 63 := by
      by_contra large
      obtain ⟨symbol, member, outside⟩ := concatText_letter (Nat.le_of_not_lt large)
      rw [← text] at member
      rcases List.mem_cons.mp member with rfl | later
      · simp [leadit_digit leads] at outside
      · simp [all symbol later] at outside
    have positive := (decimal_numeralValue leads all).2
    have value := numeralValue_concatText small
    rw [← text] at value
    exact ⟨value ▸ positive, small⟩
  · rintro ⟨positive, small⟩
    obtain ⟨first, rest, spelled, leads, all⟩ := decimal_leads positive
    rw [concatText, if_pos small, spelled, SizeText.text] at text
    obtain ⟨rfl, rfl⟩ := List.cons.inj text
    exact ⟨leads, all⟩

end Numbers

section Types

mutual

/-- A type without the names of its components. -/
def TypeSpec.unnamed : TypeSpec → TypeSpec
  | .uint size => .uint size
  | .int size => .int size
  | .address => .address
  | .bool => .bool
  | .string => .string
  | .bytes size => .bytes size
  | .array elementType size => .array elementType.unnamed size
  | .tuple components => .tuple components.unnamed

def Components.unnamed : Components → Components
  | .nil => .nil
  | .cons _ type rest => .cons none type.unnamed rest.unnamed

end

mutual

/-- The sizes of the arrays are integers of Lua. -/
def TypeSpec.SizesFit : TypeSpec → Prop
  | .array elementType size => elementType.SizesFit ∧ ∀ count ∈ size, count < 2 ^ 63
  | .tuple components => components.SizesFit
  | _ => True

def Components.SizesFit : Components → Prop
  | .nil => True
  | .cons _ type rest => type.SizesFit ∧ rest.SizesFit

end

variable (numberText : Nat → List Byte)

mutual

/-- The canonical text has no names. -/
theorem TypeSpec.canonic_unnamed : ∀ type : TypeSpec,
    type.unnamed.canonic numberText = type.canonic numberText
  | .uint _ => rfl
  | .int _ => rfl
  | .address => rfl
  | .bool => rfl
  | .string => rfl
  | .bytes _ => rfl
  | .array elementType size => by
      rw [TypeSpec.unnamed, TypeSpec.canonic, TypeSpec.canonic, elementType.canonic_unnamed]
  | .tuple components => by
      rw [TypeSpec.unnamed, TypeSpec.canonic, TypeSpec.canonic, components.canonic_unnamed]

theorem Components.canonic_unnamed : ∀ components : Components,
    components.unnamed.canonic numberText = components.canonic numberText
  | .nil => rfl
  | .cons _ type .nil => by
      simp only [Components.unnamed, Components.canonic]
      exact type.canonic_unnamed
  | .cons _ type (.cons name second rest) => by
      have others := (Components.cons name second rest).canonic_unnamed
      simp only [Components.unnamed, Components.canonic] at others ⊢
      rw [type.canonic_unnamed, others]

end

theorem canonic_withBrackets (base : TypeSpec) (sizes : List (Option Nat)) :
    (sizes.foldl TypeSpec.array base).canonic numberText = base.canonic numberText ++
      sizes.flatMap fun size => ascii "[" ++ ((size.map numberText).getD [] ++ ascii "]") := by
  induction sizes generalizing base with
  | nil => simp
  | cons size sizes ih =>
      rw [List.foldl_cons, ih, TypeSpec.canonic]
      simp

theorem unnamed_withBrackets (base : TypeSpec) (sizes : List (Option Nat)) :
    (sizes.foldl TypeSpec.array base).unnamed = sizes.foldl TypeSpec.array base.unnamed := by
  induction sizes generalizing base with
  | nil => rfl
  | cons size sizes ih => rw [List.foldl_cons, ih, TypeSpec.unnamed, List.foldl_cons]

theorem sizesFit_withBrackets (base : TypeSpec) (sizes : List (Option Nat)) :
    (sizes.foldl TypeSpec.array base).SizesFit ↔
      base.SizesFit ∧ ∀ size ∈ sizes, ∀ count ∈ size, count < 2 ^ 63 := by
  induction sizes generalizing base with
  | nil => simp
  | cons size sizes ih =>
      rw [List.foldl_cons, ih, TypeSpec.SizesFit, List.forall_mem_cons, and_assoc]

theorem legal_withBrackets (base : TypeSpec) (sizes : List (Option Nat)) :
    (sizes.foldl TypeSpec.array base).Legal ↔
      base.Legal ∧ ∀ size ∈ sizes, ∀ count ∈ size, 1 ≤ count := by
  induction sizes generalizing base with
  | nil => simp
  | cons size sizes ih =>
      rw [List.foldl_cons, ih, TypeSpec.Legal, List.forall_mem_cons, and_assoc]

end Types

section Spellings

/-- Nothing stands behind a type. -/
def noTail : Tail := ⟨noSpaces, none, noSpaces, none⟩

def Atom.canonical : Atom → Atom
  | .uint size => .uint (some (size.getD ⟨256, by norm_num⟩))
  | .int size => .int (some (size.getD ⟨256, by norm_num⟩))
  | atom => atom

def Bracket.canonical (bracket : Bracket) : Bracket :=
  ⟨noSpaces, bracket.value.map concatSize, noSpaces⟩

mutual

/-- The spelling without spaces, names and locations, with all sizes. -/
def Param.canonical : Param → Param
  | .atom atom _ brackets _ => .atom atom.canonical noSpaces (brackets.map Bracket.canonical) noTail
  | .tuple params _ brackets _ =>
      .tuple params.canonical noSpaces (brackets.map Bracket.canonical) noTail

def Params.canonical : Params → Params
  | .empty _ => .empty noSpaces
  | .list _ first _ more => .list noSpaces first.canonical noSpaces more.canonical

def More.canonical : More → More
  | .last _ => .last noSpaces
  | .next _ param more => .next noSpaces param.canonical more.canonical

end

theorem Atom.canonical_text (atom : Atom) :
    atom.canonical.text = atom.type.canonic concatText := by
  have integer (size : IntSize) : concatText size.val = decimal size.val :=
    if_pos (Nat.lt_of_le_of_lt size.property.2.1 (by norm_num))
  have count (size : BytesSize) : concatText size.val = decimal size.val :=
    if_pos (Nat.lt_of_le_of_lt size.property.2 (by norm_num))
  cases atom with
  | uint size =>
      cases size with
      | none => rfl
      | some size => simp [Atom.canonical, Atom.text, Atom.type, TypeSpec.canonic, sizeText,
          integer]
  | int size =>
      cases size with
      | none => rfl
      | some size => simp [Atom.canonical, Atom.text, Atom.type, TypeSpec.canonic, sizeText,
          integer]
  | bytes size =>
      cases size with
      | none => rfl
      | some size => simp [Atom.canonical, Atom.text, Atom.type, TypeSpec.canonic, sizeText, count]
  | _ => rfl

theorem Atom.canonical_type (atom : Atom) : atom.canonical.type = atom.type := by
  cases atom with
  | uint size => cases size <;> rfl
  | int size => cases size <;> rfl
  | _ => rfl

theorem Bracket.canonical_text (bracket : Bracket) : bracket.canonical.text =
    ascii "[" ++ ((bracket.value.map concatText).getD [] ++ ascii "]") := by
  cases found : bracket.value <;> simp [Bracket.text, Bracket.canonical, found, noSpaces]

/-- The texts of the canonical brackets and of a type with brackets agree. -/
theorem canonical_brackets (base : TypeSpec) (brackets : List Bracket) :
    base.canonic concatText ++ (noSpaces.val ++
      (bracketsText (brackets.map Bracket.canonical) ++ noTail.text)) =
      (withBrackets base brackets).canonic concatText := by
  have texts : bracketsText (brackets.map Bracket.canonical) =
      (brackets.map Bracket.value).flatMap fun size =>
        ascii "[" ++ ((size.map concatText).getD [] ++ ascii "]") := by
    rw [bracketsText, List.flatMap_map, List.flatMap_map]
    exact List.flatMap_congr fun bracket _ => bracket.canonical_text
  have nothing : noTail.text = [] := rfl
  rw [withBrackets, canonic_withBrackets, texts, nothing, List.append_nil]
  rfl

mutual

/-- The canonical spelling has the canonical text. -/
theorem Param.canonical_text : ∀ param : Param,
    param.canonical.text = param.value.2.canonic concatText
  | .atom atom gap brackets tail => by
      rw [Param.canonical, Param.text, atom.canonical_text, canonical_brackets, Param.value]
  | .tuple params gap brackets tail => by
      have base : (TypeSpec.tuple params.value).canonic concatText = params.canonical.text := by
        rw [TypeSpec.canonic, params.canonical_text, List.append_assoc]
      rw [Param.canonical, Param.text, ← base, canonical_brackets, Param.value]

theorem Params.canonical_text : ∀ params : Params,
    params.canonical.text = ascii "(" ++ (params.value.canonic concatText ++ ascii ")")
  | .empty _ => rfl
  | .list _ first _ more => by
      rw [Params.canonical, Params.text, first.canonical_text, Params.value,
        ← more.canonical_text first.value.1 first.value.2]
      rfl

theorem More.canonical_text : ∀ (more : More) (name : Option (List Byte)) (type : TypeSpec),
    type.canonic concatText ++ more.canonical.text =
      (Components.cons name type more.value).canonic concatText ++ ascii ")"
  | .last _, name, type => rfl
  | .next gap param more, name, type => by
      have others := more.canonical_text param.value.1 param.value.2
      have spelled : (More.next gap param more).canonical.text =
          ascii "," ++ (param.value.2.canonic concatText ++ more.canonical.text) := by
        rw [More.canonical, More.text, param.canonical_text]
        rfl
      rw [spelled, others, More.value, Components.canonic]
      simp only [List.append_assoc]

end

theorem Bracket.positive {bracket : Bracket} (allowed : bracket.Allowed) :
    ∀ count ∈ bracket.value, 1 ≤ count := by
  intro count member
  obtain ⟨size, found, rfl⟩ := Option.mem_map.mp member
  obtain ⟨leads, all⟩ := allowed size found
  exact (decimal_numeralValue leads all).2

theorem Bracket.canonical_allowed {bracket : Bracket} (allowed : bracket.Allowed) :
    bracket.canonical.Allowed ↔ ∀ count ∈ bracket.value, count < 2 ^ 63 := by
  have positive := bracket.positive allowed
  simp only [Bracket.Allowed, Bracket.canonical, Option.mem_map]
  constructor
  · intro all count member
    exact (concatSize_allowed.mp (all _ ⟨count, member, rfl⟩)).2
  · rintro fits _ ⟨count, member, rfl⟩
    exact concatSize_allowed.mpr ⟨positive count member, fits count member⟩

theorem Bracket.canonical_value {bracket : Bracket}
    (fits : ∀ count ∈ bracket.value, count < 2 ^ 63) :
    bracket.canonical.value = bracket.value := by
  rw [Bracket.value, Bracket.canonical, Option.map_map]
  cases found : bracket.value with
  | none => rfl
  | some count =>
      have small := fits count found
      simp [numeralValue_concatText small]

theorem canonical_separated (brackets : List Bracket) :
    Separated noSpaces (brackets.map Bracket.canonical) noTail := by
  cases brackets with
  | nil => rfl
  | cons bracket brackets =>
      have text := bracket.canonical_text
      rw [Separated, List.map_cons, bracketsText, List.flatMap_cons, text]
      rfl

theorem noTail_allowed : noTail.Allowed := fun _ name named => by simp [noTail] at named

/-- The canonical brackets are read where their sizes are integers. -/
theorem canonical_brackets_allowed {brackets : List Bracket}
    (allowed : ∀ bracket ∈ brackets, bracket.Allowed) :
    (∀ bracket ∈ brackets.map Bracket.canonical, bracket.Allowed) ↔
      ∀ size ∈ brackets.map Bracket.value, ∀ count ∈ size, count < 2 ^ 63 := by
  simp only [List.forall_mem_map]
  exact forall₂_congr fun bracket member => bracket.canonical_allowed (allowed bracket member)

theorem canonical_brackets_value {brackets : List Bracket}
    (fits : ∀ size ∈ brackets.map Bracket.value, ∀ count ∈ size, count < 2 ^ 63) :
    (brackets.map Bracket.canonical).map Bracket.value = brackets.map Bracket.value := by
  rw [List.map_map]
  apply List.map_congr_left
  intro bracket member
  exact bracket.canonical_value (fits _ (List.mem_map_of_mem member))

theorem Atom.type_sizesFit (atom : Atom) : atom.type.SizesFit := by cases atom <;> trivial

theorem Atom.type_unnamed (atom : Atom) : atom.type.unnamed = atom.type := by cases atom <;> rfl

theorem Atom.type_legal (atom : Atom) : atom.type.Legal := by
  cases atom with
  | uint size =>
      cases size with
      | none => norm_num [Atom.type, TypeSpec.Legal]
      | some size => exact size.property
  | int size =>
      cases size with
      | none => norm_num [Atom.type, TypeSpec.Legal]
      | some size => exact size.property
  | bytes size =>
      intro count member
      obtain ⟨kept, -, rfl⟩ := Option.mem_map.mp member
      exact kept.property
  | _ => trivial

theorem brackets_legal {base : TypeSpec} (legal : base.Legal) {brackets : List Bracket}
    (allowed : ∀ bracket ∈ brackets, bracket.Allowed) : (withBrackets base brackets).Legal := by
  refine (legal_withBrackets base _).mpr ⟨legal, ?_⟩
  simp only [List.forall_mem_map]
  exact fun bracket member => bracket.positive (allowed bracket member)

mutual

/-- The canonical spelling is read where the sizes of the arrays are integers. -/
theorem Param.canonical_allowed : ∀ param : Param, param.Allowed →
    (param.canonical.Allowed ↔ param.value.2.SizesFit)
  | .atom atom gap brackets tail, allowed => by
      rw [Param.canonical, Param.Allowed, Param.value, withBrackets, sizesFit_withBrackets,
        canonical_brackets_allowed allowed.2.1]
      exact ⟨fun ⟨_, fits, _⟩ => ⟨atom.type_sizesFit, fits⟩,
        fun ⟨_, fits⟩ => ⟨canonical_separated brackets, fits, noTail_allowed⟩⟩
  | .tuple params gap brackets tail, allowed => by
      rw [Param.canonical, Param.Allowed, Param.value, withBrackets, sizesFit_withBrackets,
        canonical_brackets_allowed allowed.2.1, params.canonical_allowed allowed.1]
      exact ⟨fun ⟨inner, fits, _⟩ => ⟨inner, fits⟩,
        fun ⟨inner, fits⟩ => ⟨inner, fits, noTail_allowed⟩⟩

theorem Params.canonical_allowed : ∀ params : Params, params.Allowed →
    (params.canonical.Allowed ↔ params.value.SizesFit)
  | .empty _, _ => Iff.rfl
  | .list _ first _ more, allowed =>
      and_congr (first.canonical_allowed allowed.1) (more.canonical_allowed allowed.2)

theorem More.canonical_allowed : ∀ more : More, more.Allowed →
    (more.canonical.Allowed ↔ more.value.SizesFit)
  | .last _, _ => Iff.rfl
  | .next _ param more, allowed =>
      and_congr (param.canonical_allowed allowed.1) (more.canonical_allowed allowed.2)

end

mutual

theorem Param.canonical_value : ∀ param : Param, param.value.2.SizesFit →
    param.canonical.value = (none, param.value.2.unnamed)
  | .atom atom gap brackets tail, fits => by
      obtain ⟨-, fits⟩ := (sizesFit_withBrackets _ _).mp fits
      rw [Param.canonical, Param.value, Param.value, withBrackets, withBrackets,
        canonical_brackets_value fits, unnamed_withBrackets, atom.canonical_type, atom.type_unnamed]
      rfl
  | .tuple params gap brackets tail, fits => by
      obtain ⟨inner, fits⟩ := (sizesFit_withBrackets _ _).mp fits
      rw [Param.canonical, Param.value, Param.value, withBrackets, withBrackets,
        canonical_brackets_value fits, unnamed_withBrackets, params.canonical_value inner]
      rfl

theorem Params.canonical_value : ∀ params : Params, params.value.SizesFit →
    params.canonical.value = params.value.unnamed
  | .empty _, _ => rfl
  | .list _ first _ more, fits => by
      rw [Params.canonical, Params.value, first.canonical_value fits.1, more.canonical_value fits.2]
      rfl

theorem More.canonical_value : ∀ more : More, more.value.SizesFit →
    more.canonical.value = more.value.unnamed
  | .last _, _ => rfl
  | .next _ param more, fits => by
      rw [More.canonical, More.value, param.canonical_value fits.1, more.canonical_value fits.2]
      rfl

end

mutual

/-- What the grammar reads has the sizes that it takes. -/
theorem Param.legal : ∀ param : Param, param.Allowed → param.value.2.Legal
  | .atom atom _ _ _, allowed => brackets_legal atom.type_legal allowed.2.1
  | .tuple params _ _ _, allowed =>
      have inner : (TypeSpec.tuple params.value).Legal := params.legal allowed.1
      brackets_legal inner allowed.2.1

theorem Params.legal : ∀ params : Params, params.Allowed → params.value.Legal
  | .empty _, _ => trivial
  | .list _ first _ more, allowed => ⟨first.legal allowed.1, more.legal allowed.2⟩

theorem More.legal : ∀ more : More, more.Allowed → more.value.Legal
  | .last _, _ => trivial
  | .next _ param more, allowed => ⟨param.legal allowed.1, more.legal allowed.2⟩

end

end Spellings

end MachineEmulator.Evmu
