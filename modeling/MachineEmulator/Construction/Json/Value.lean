/-
This file gives JSON values and the way a field of an object or an item of an array is read.
-/

import MachineEmulator.Construction.Memory

namespace MachineEmulator.Json

/-- This is `nlohmann::json`, with its three kinds of numbers. A signed integer is held by its bits,
and a floating-point number by its value. -/
inductive Value where
  | null
  | boolean (value : Bool)
  | unsigned (value : Word)
  | integer (value : Word)
  | float (value : ℚ)
  | string (text : String)
  | array (items : List Value)
  | object (fields : List (String × Value))

/-- The exceptions that reading and writing JSON throw, and the point where the language gives the
source no meaning. -/
inductive Rejection where
  | invalidArgument (message : String)
  | domainError (message : String)
  | outOfRange (message : String)
  | runtimeError (message : String)
  | undefinedBehavior
deriving DecidableEq, Repr

/-- A condition holds, or its exception is thrown. -/
def demand (condition : Prop) [Decidable condition] (rejection : Rejection) : Except Rejection Unit :=
  if condition then .ok () else .error rejection

theorem demand_ok {condition : Prop} [Decidable condition] {rejection : Rejection} {result : Unit} :
    demand condition rejection = .ok result ↔ condition := by
  unfold demand
  split <;> simp_all

inductive Key where
  | index (position : Nat)
  | name (text : String)

/-- This is `to_string`. -/
def Key.text : Key → String
  | .index position => toString position
  | .name text => text

namespace Value

/-- This is `empty`. -/
def isEmpty : Value → Bool
  | null => true
  | array items => items.isEmpty
  | object fields => fields.isEmpty
  | _ => false

def isObject : Value → Bool
  | object _ => true
  | _ => false

/-- This is `contains` and then `j[key]`. -/
def field (json : Value) (key : Key) (path : String) : Except Rejection (Option Value) :=
  match key, json with
  | .index position, array items => .ok items[position]?
  | .name text, object fields => .ok (fields.lookup text)
  | .index _, json =>
      if json.isEmpty then .ok none
      else .error (.invalidArgument ("\"" ++ path ++ "\" not an array"))
  | .name _, json =>
      if json.isEmpty then .ok none
      else .error (.invalidArgument ("\"" ++ path ++ "\" not an object"))

end Value

/-- A reader takes the value, the path to what holds it and its own name there. -/
abbrev Reader (α : Type) := Value → String → String → Except Rejection α

section Fields

variable {α : Type}

/-- This is `ju_get_opt_field`, which leaves the destination as it was without the field. -/
def getOptField (read : Reader α) (json : Value) (key : Key) (path : String) :
    Except Rejection (Option α) := do
  match ← json.field key path with
  | none => return none
  | some value => return some (← read value path key.text)

/-- This is `ju_get_field`. -/
def getField (read : Reader α) (json : Value) (key : Key) (path : String) : Except Rejection α := do
  match ← json.field key path with
  | none => .error (.invalidArgument ("missing field \"" ++ path ++ key.text ++ "\""))
  | some value => read value path key.text

/-- The items of an array from a position on. -/
def readItems (read : Reader α) (json : Value) (path : String) : List Nat → Except Rejection (List α)
  | [] => .ok []
  | position :: rest => do
      let item ← getField read json (.index position) path
      return item :: (← readItems read json path rest)

/-- This is `ju_get_opt_vector_like_field` on an array. -/
def readVector (read : Reader α) : Reader (List α)
  | .array items, path, name =>
      readItems read (.array items) (path ++ name ++ "/") (List.range items.length)
  | _, path, name => .error (.invalidArgument ("field \"" ++ path ++ name ++ "\" not an array"))

end Fields

end MachineEmulator.Json
