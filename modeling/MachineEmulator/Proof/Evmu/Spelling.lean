/-
This file gives the ways to spell a function signature and says which of them the grammar reads.
-/

import MachineEmulator.Construction.Evmu.Grammar

namespace MachineEmulator.Evmu

/-- The optional spaces of a signature. -/
abbrev Spaces := { gap : List Byte // ∀ symbol ∈ gap, isOpsp symbol = true }

/-- An identifier has a first symbol and the remaining ones. -/
structure Identifier where
  first : Byte
  rest : List Byte
  isFirst : isIdfirst first = true
  isRest : ∀ symbol ∈ rest, isIdrest symbol = true

def Identifier.text (name : Identifier) : List Byte := name.first :: name.rest

inductive Location where
  | memory
  | calldata
  | storage
deriving DecidableEq

def Location.text : Location → List Byte
  | .memory => ascii "memory"
  | .calldata => ascii "calldata"
  | .storage => ascii "storage"

abbrev IntSize := { size : Nat // 8 ≤ size ∧ size ≤ 256 ∧ size % 8 = 0 }

abbrev BytesSize := { size : Nat // 1 ≤ size ∧ size ≤ 32 }

/-- The text of a size that can be left out. -/
def sizeText (size : Option Nat) : List Byte := (size.map decimal).getD []

/-- The types without parentheses. The size of an integer can be left out. -/
inductive Atom where
  | uint (size : Option IntSize)
  | int (size : Option IntSize)
  | address
  | bool
  | string
  | bytes (size : Option BytesSize)

def Atom.text : Atom → List Byte
  | .uint size => ascii "uint" ++ sizeText (size.map Subtype.val)
  | .int size => ascii "int" ++ sizeText (size.map Subtype.val)
  | .address => ascii "address"
  | .bool => ascii "bool"
  | .string => ascii "string"
  | .bytes size => ascii "bytes" ++ sizeText (size.map Subtype.val)

def Atom.type : Atom → TypeSpec
  | .uint size => .uint ((size.map Subtype.val).getD 256)
  | .int size => .int ((size.map Subtype.val).getD 256)
  | .address => .address
  | .bool => .bool
  | .string => .string
  | .bytes size => .bytes (size.map Subtype.val)

/-- What stands between brackets, which is read if it is a numeral. -/
structure SizeText where
  first : Byte
  rest : List Byte
  inside : ∀ symbol ∈ first :: rest, isOpsp symbol = false ∧ symbol ≠ 0x5d

def SizeText.text (size : SizeText) : List Byte := size.first :: size.rest

def SizeText.Allowed (size : SizeText) : Prop :=
  isLeadit size.first = true ∧ ∀ symbol ∈ size.rest, isDigit symbol = true

structure Bracket where
  gap : Spaces
  size : Option SizeText
  gapBehind : Spaces

def Bracket.text (bracket : Bracket) : List Byte :=
  ascii "[" ++ bracket.gap.val ++ (bracket.size.map SizeText.text).getD [] ++
    bracket.gapBehind.val ++
    ascii "]"

def Bracket.Allowed (bracket : Bracket) : Prop := ∀ size ∈ bracket.size, size.Allowed

def Bracket.value (bracket : Bracket) : Option Nat :=
  bracket.size.map fun size => numeralValue size.text

def bracketsText (brackets : List Bracket) : List Byte := brackets.flatMap Bracket.text

/-- What stands behind a type. -/
structure Tail where
  gap : Spaces
  location : Option Location
  gapBehind : Spaces
  name : Option Identifier

def Tail.text (tail : Tail) : List Byte :=
  tail.gap.val ++ (tail.location.map Location.text).getD [] ++ tail.gapBehind.val ++
    (tail.name.map Identifier.text).getD []

/-- The location that a name starts with. -/
def locationOf (name : List Byte) : Option Location :=
  [Location.memory, .calldata, .storage].find? fun location => location.text.isPrefixOf name

/-- What is left of a name behind its location. -/
def nameBehind (name : List Byte) (location : Location) : List Byte :=
  name.drop location.text.length

/-- A name that starts with a location is read as the location and a name, which does not start
with a digit. -/
def Tail.Allowed (tail : Tail) : Prop :=
  tail.location = none → ∀ name ∈ tail.name, ∀ location ∈ locationOf name.text,
    (nameBehind name.text location).head?.any isDigit = false

/-- The name that is read. -/
def Tail.value (tail : Tail) : Option (List Byte) :=
  match tail.location, tail.name with
  | none, some name =>
      match locationOf name.text with
      | some location =>
          if nameBehind name.text location = [] then none else some (nameBehind name.text location)
      | none => some name.text
  | _, name => name.map Identifier.text

mutual

/-- A parameter has a type, its brackets and what stands behind them. -/
inductive Param where
  | atom (atom : Atom) (gap : Spaces) (brackets : List Bracket) (tail : Tail)
  | tuple (params : Params) (gap : Spaces) (brackets : List Bracket) (tail : Tail)

/-- The parameters between parentheses. -/
inductive Params where
  | empty (gap : Spaces)
  | list (gap : Spaces) (first : Param) (gapBehind : Spaces) (more : More)

/-- The parameters behind the first one. There is no space before a comma but that of a tail. -/
inductive More where
  | last (gap : Spaces)
  | next (gap : Spaces) (param : Param) (more : More)

end

mutual

def Param.text : Param → List Byte
  | .atom atom gap brackets tail => atom.text ++ (gap.val ++ (bracketsText brackets ++ tail.text))
  | .tuple params gap brackets tail =>
      params.text ++ (gap.val ++ (bracketsText brackets ++ tail.text))

def Params.text : Params → List Byte
  | .empty gap => ascii "(" ++ (gap.val ++ ascii ")")
  | .list gap first gapBehind more =>
      ascii "(" ++ (gap.val ++ (first.text ++ (gapBehind.val ++ more.text)))

def More.text : More → List Byte
  | .last gap => gap.val ++ ascii ")"
  | .next gap param more => ascii "," ++ (gap.val ++ (param.text ++ more.text))

end

/-- A type with brackets behind it. -/
def withBrackets (elementary : TypeSpec) (brackets : List Bracket) : TypeSpec :=
  (brackets.map Bracket.value).foldl .array elementary

mutual

def Param.value : Param → Grammar.Component
  | .atom atom _ brackets tail => (tail.value, withBrackets atom.type brackets)
  | .tuple params _ brackets tail => (tail.value, withBrackets (.tuple params.value) brackets)

def Params.value : Params → Components
  | .empty _ => .nil
  | .list _ first _ more => .cons first.value.1 first.value.2 more.value

def More.value : More → Components
  | .last _ => .nil
  | .next _ param more => .cons param.value.1 param.value.2 more.value

end

/-- A type without parentheses ends before a symbol that is not one of identifiers. -/
def Separated (gap : Spaces) (brackets : List Bracket) (tail : Tail) : Prop :=
  (gap.val ++ (bracketsText brackets ++ tail.text)).head?.any isIdrest = false

instance (gap : Spaces) (brackets : List Bracket) (tail : Tail) :
    Decidable (Separated gap brackets tail) :=
  inferInstanceAs (Decidable (Option.any isIdrest _ = false))

mutual

/-- The grammar reads the spelling. -/
def Param.Allowed : Param → Prop
  | .atom _ gap brackets tail =>
      Separated gap brackets tail ∧ (∀ bracket ∈ brackets, bracket.Allowed) ∧ tail.Allowed
  | .tuple params _ brackets tail =>
      params.Allowed ∧ (∀ bracket ∈ brackets, bracket.Allowed) ∧ tail.Allowed

def Params.Allowed : Params → Prop
  | .empty _ => True
  | .list _ first _ more => first.Allowed ∧ more.Allowed

def More.Allowed : More → Prop
  | .last _ => True
  | .next _ param more => param.Allowed ∧ more.Allowed

end

/-- The keyword has at least one space behind it, and so has a returns clause its own spaces. -/
structure Spelling where
  before : Spaces
  keyword : Option { gap : Spaces // gap.val ≠ [] }
  name : Identifier
  gap : Spaces
  params : Params
  gapBehind : Spaces
  returns : Option (Spaces × Params)
  last : Spaces

namespace Spelling

variable (spelling : Spelling)

def keywordText : List Byte :=
  match spelling.keyword with
  | some gap => ascii "function" ++ gap.val.val
  | none => []

def returnsText : List Byte :=
  match spelling.returns with
  | some (gap, params) => ascii "returns" ++ (gap.val ++ params.text)
  | none => []

def text : List Byte :=
  spelling.before.val ++ (spelling.keywordText ++ (spelling.name.text ++ spelling.gap.val ++
    (spelling.params.text ++ (spelling.gapBehind.val ++ (spelling.returnsText ++
      spelling.last.val)))))

def value : ParsedFuncSig where
  name := spelling.name.text ++ spelling.gap.val
  params := spelling.params.value
  returns := (spelling.returns.map fun clause => clause.2.value).getD .nil

/-- Without the keyword, the name of a function is not that of the keyword. -/
structure Allowed : Prop where
  named : spelling.keyword = none → spelling.name.text ≠ ascii "function"
  params : spelling.params.Allowed
  returns : ∀ clause ∈ spelling.returns, clause.2.Allowed

end Spelling

end MachineEmulator.Evmu
