/-
This file gives the grammar of function signatures and the numbers that Lua reads and writes in
them.
-/

import MachineEmulator.Construction.Evmu.TypeSpec
import MachineEmulator.Library.Peg

namespace MachineEmulator.Evmu

section Numbers

/-- This is `tonumber` on a text of digits. -/
def numeralValue (digits : List Byte) : Nat :=
  digits.foldl (fun value digit => 10 * value + (digit.toNat - 0x30)) 0

def decimal (number : Nat) : List Byte :=
  (Nat.toDigits 10 number).map fun digit => BitVec.ofNat 8 digit.toNat

/-- The nearest number of units, to even at a half. -/
def nearestUnits (number unit : Nat) : Nat :=
  let units := number / unit
  let rest := number % unit
  if 2 * rest < unit ∨ 2 * rest = unit ∧ units % 2 = 0 then units else units + 1

/-- The float nearest to a large integer, which is an integer again or infinite. -/
def nearestFloat (number : Nat) : Option Nat :=
  let unit := 2 ^ (Nat.log2 number - 52)
  let rounded := nearestUnits number unit * unit
  if rounded < 2 ^ 1024 then some rounded else none

/-- This is `%.14g` on a number of more than fourteen digits. -/
def scientific (number : Nat) : List Byte :=
  let places := (decimal number).length - 1
  let rounded := nearestUnits number (10 ^ (places - 13))
  let exponent := if rounded = 10 ^ 14 then places + 1 else places
  let digits := (((decimal rounded).take 14).reverse.dropWhile (· = 0x30)).reverse
  digits.take 1 ++ (if digits.length = 1 then [] else ascii "." ++ digits.drop 1) ++
    ascii "e+" ++ decimal exponent

/-- This is how Lua writes the number that `tonumber` makes of a numeral: an integer of 64 bits, or
else a float. -/
def concatText (number : Nat) : List Byte :=
  if number < 2 ^ 63 then decimal number
  else
    match nearestFloat number with
    | some float => scientific float
    | none => ascii "inf"

end Numbers

section Symbols

def isOpsp (symbol : Byte) : Bool := symbol ∈ ascii " \t\n\r"

/-- This is `leadit`. -/
def isLeadit (symbol : Byte) : Bool := 0x31 ≤ symbol && symbol ≤ 0x39

def isDigit (symbol : Byte) : Bool := 0x30 ≤ symbol && symbol ≤ 0x39

/-- This is `idfirst`. -/
def isIdfirst (symbol : Byte) : Bool :=
  (0x61 ≤ symbol && symbol ≤ 0x7a) || (0x41 ≤ symbol && symbol ≤ 0x5a) || symbol = 0x5f

/-- This is `idrest`. -/
def isIdrest (symbol : Byte) : Bool := isIdfirst symbol || isDigit symbol

end Symbols

abbrev Grammar (A : Type) := Peg Byte A

namespace Grammar

open Peg

def opsp : Grammar (List Byte) := span isOpsp

def idnot : Grammar Unit := notAhead isIdrest

def keyword (word : String) : Grammar Unit := literal (ascii word)

/-- The tables for errors are left out of `expect`, which matches as its expression does. -/
def identifier : Grammar (List Byte) := do
  let first ← item isIdfirst
  let rest ← span isIdrest
  return first :: rest

def numeral : Grammar (List Byte) := do
  let first ← item isLeadit
  let rest ← span isDigit
  return first :: rest

def intSizeIdnot : Grammar Nat := do
  let size ← optional numeral
  idnot
  match size with
  | none => return 256
  | some digits =>
      let number := numeralValue digits
      ensure (8 ≤ number ∧ number ≤ 256 ∧ number % 8 = 0)
      return number

def bytesSizeIdnot : Grammar (Option Nat) := do
  let size ← optional numeral
  idnot
  match size with
  | none => return none
  | some digits =>
      let number := numeralValue digits
      ensure (1 ≤ number ∧ number ≤ 32)
      return some number

/-- This is `data_location`. -/
def dataLocation : Grammar Unit :=
  choices [keyword "memory", keyword "calldata", keyword "storage"]

def uint : Grammar TypeSpec := do
  keyword "uint"
  return .uint (← intSizeIdnot)

def int : Grammar TypeSpec := do
  keyword "int"
  return .int (← intSizeIdnot)

def bytes : Grammar TypeSpec := do
  keyword "bytes"
  return .bytes (← bytesSizeIdnot)

def address : Grammar TypeSpec := do
  keyword "address"
  idnot
  return .address

def bool : Grammar TypeSpec := do
  keyword "bool"
  idnot
  return .bool

def string : Grammar TypeSpec := do
  keyword "string"
  idnot
  return .string

def sizedArrayBracket : Grammar (Option Nat) := do
  keyword "["
  let _ ← opsp
  let size ← numeral
  let _ ← opsp
  keyword "]"
  return some (numeralValue size)

def emptyArrayBracket : Grammar (Option Nat) := do
  keyword "["
  let _ ← opsp
  keyword "]"
  return none

def arrayBrackets : Grammar (List (Option Nat)) := many (choice emptyArrayBracket sizedArrayBracket)

section Components

/-- A type comes with the name of its parameter. The location is dropped, since nothing reads it. -/
abbrev Component := Option (List Byte) × TypeSpec

def toComponents : List Component → Components
  | [] => .nil
  | (name, type) :: rest => .cons name type (toComponents rest)

variable (typeSpec : Grammar Component)

def nonEmptyComponentList : Grammar (List Component) := do
  let first ← typeSpec
  let _ ← opsp
  let rest ← many (do
    keyword ","
    let _ ← opsp
    typeSpec)
  return first :: rest

def tupleOf : Grammar Components := do
  keyword "("
  let _ ← opsp
  let components ← optional (nonEmptyComponentList typeSpec)
  let _ ← opsp
  keyword ")"
  return toComponents (components.getD [])

/-- This is `elementary_type_spec`, in the order of its alternatives. -/
def elementaryTypeSpec : Grammar TypeSpec :=
  choices [int, uint, bytes, address, string, bool, do return .tuple (← tupleOf typeSpec)]

def locationAndName : Grammar (Option (List Byte)) := do
  let _ ← opsp
  let _ ← optional dataLocation
  let _ ← opsp
  optional identifier

def typeSpecOf : Grammar Component := do
  let elementary ← elementaryTypeSpec typeSpec
  let _ ← opsp
  let brackets ← arrayBrackets
  let name ← locationAndName
  return (name, brackets.foldl .array elementary)

end Components

/-- This is `type_spec`, which refers to itself between parentheses only. -/
def typeSpec : Nat → Grammar Component
  | 0 => fail
  | depth + 1 => typeSpecOf (typeSpec depth)

/-- This is `tuple`. A text has fewer parentheses than symbols. -/
def tuple : Grammar Components := fun text => tupleOf (typeSpec text.length) text

end Grammar

/-- This is what `func_sig` captures. -/
structure ParsedFuncSig where
  name : List Byte
  params : Components
  returns : Components

open Peg Grammar in
/-- This is `func_sig`. The name is captured with the spaces behind it. -/
def funcSig : Grammar ParsedFuncSig := do
  let _ ← opsp
  let _ ← optional (do
    keyword "function"
    idnot
    opsp)
  let name ← capture (do
    let _ ← identifier
    opsp)
  let params ← tuple
  let _ ← opsp
  let returns ← optional (do
    keyword "returns"
    idnot
    let _ ← opsp
    tuple)
  let _ ← opsp
  finish
  return ⟨name, params, returns.getD .nil⟩

end MachineEmulator.Evmu
