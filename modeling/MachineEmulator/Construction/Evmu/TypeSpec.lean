/-
This file gives the types of a function signature and the places their values take.
-/

import MachineEmulator.Construction.Evmu.Value

namespace MachineEmulator.Evmu

mutual

/-- The types of parameters. An array or a list of bytes without a size has its length with it. -/
inductive TypeSpec where
  | uint (size : Nat)
  | int (size : Nat)
  | address
  | bool
  | string
  | bytes (size : Option Nat)
  | array (elementType : TypeSpec) (size : Option Nat)
  | tuple (components : Components)

/-- The components of a tuple, some of them with names. -/
inductive Components where
  | nil
  | cons (name : Option (List Byte)) (type : TypeSpec) (rest : Components)

end

mutual

/-- This is `is_dynamic`. -/
def TypeSpec.isDynamic : TypeSpec → Bool
  | .string => true
  | .bytes size => size.isNone
  | .array elementType size => elementType.isDynamic || size.isNone
  | .tuple components => components.isDynamic
  | _ => false

/-- A tuple is dynamic with any of its components. -/
def Components.isDynamic : Components → Bool
  | .nil => false
  | .cons _ type rest => type.isDynamic || rest.isDynamic

end

mutual

/-- This is `static_size`, zero where the source leaves it out. -/
def TypeSpec.staticSize : TypeSpec → Nat
  | .string => 0
  | .bytes size => if size.isNone then 0 else 32
  | .array elementType size =>
      match size with
      | some size => if elementType.isDynamic then 0 else size * elementType.staticSize
      | none => 0
  | .tuple components => components.staticSize
  | _ => 32

/-- A dynamic component takes the place of its offset. -/
def Components.staticSize : Components → Nat
  | .nil => 0
  | .cons _ type rest => (if type.isDynamic then 32 else type.staticSize) + rest.staticSize

end

mutual

/-- The sizes that the grammar takes. -/
def TypeSpec.Legal : TypeSpec → Prop
  | .uint size => 8 ≤ size ∧ size ≤ 256 ∧ size % 8 = 0
  | .int size => 8 ≤ size ∧ size ≤ 256 ∧ size % 8 = 0
  | .bytes size => ∀ count ∈ size, 1 ≤ count ∧ count ≤ 32
  | .array elementType size => elementType.Legal ∧ ∀ count ∈ size, 1 ≤ count
  | .tuple components => components.Legal
  | _ => True

def Components.Legal : Components → Prop
  | .nil => True
  | .cons _ type rest => type.Legal ∧ rest.Legal

end

/-- This is `#components`. -/
def Components.length : Components → Nat
  | .nil => 0
  | .cons _ _ rest => rest.length + 1

/-- The names, in order. -/
def Components.names : Components → List (List Byte)
  | .nil => []
  | .cons name _ rest => name.toList ++ rest.names

/-- This is `parsed_func_sig`, whose parameters the grammar has checked. -/
structure FuncSig where
  name : List Byte
  params : Components
  legal : params.Legal

section Signature

variable (numberText : Nat → List Byte)

def ascii (text : String) : List Byte := text.toList.map fun character => BitVec.ofNat 8 character.toNat

mutual

/-- This is `append_canonic_type_sig`, where `numberText` writes a size. -/
def TypeSpec.canonic : TypeSpec → List Byte
  | .uint size => ascii "uint" ++ numberText size
  | .int size => ascii "int" ++ numberText size
  | .address => ascii "address"
  | .bool => ascii "bool"
  | .string => ascii "string"
  | .bytes size => ascii "bytes" ++ (size.map numberText).getD []
  | .array elementType size =>
      elementType.canonic ++ ascii "[" ++ (size.map numberText).getD [] ++ ascii "]"
  | .tuple components => ascii "(" ++ components.canonic ++ ascii ")"

/-- Commas stand between components. -/
def Components.canonic : Components → List Byte
  | .nil => []
  | .cons _ type .nil => type.canonic
  | .cons _ type (.cons name second rest) =>
      type.canonic ++ ascii "," ++ (Components.cons name second rest).canonic

end

/-- This is `canonic_func_sig`. -/
def FuncSig.canonic (signature : FuncSig) : List Byte :=
  signature.name ++ ascii "(" ++ signature.params.canonic numberText ++ ascii ")"

end Signature

/-- What the coder takes from Lua, from the grammar and from the big-integer and hash modules. -/
structure Lua where
  /-- This is `#`. -/
  border : Table → Nat
  border_isBorder : ∀ values, IsBorder values (border values)
  /-- This is `bint.new` on a string. -/
  numeral : List Byte → Option Bint
  /-- This is how `table.concat` writes a number. -/
  numberText : Nat → List Byte
  /-- This is `func_sig:match`. -/
  funcSig : List Byte → Option FuncSig
  keccak256 : List Byte → List Byte
  keccak256_length : ∀ data, (keccak256 data).length = 32

/-- This is `parse_func_sig`, with the selector that it answers. -/
def parseFuncSig (lua : Lua) (signature : List Byte) :
    Except CodecError (FuncSig × List Byte) := do
  let parsed ← expect (lua.funcSig signature) .expectedSignature
  return (parsed, (lua.keccak256 (parsed.canonic lua.numberText)).take 4)

end MachineEmulator.Evmu
