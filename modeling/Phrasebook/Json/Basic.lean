import Phrasebook.Nested
import Phrasebook.Number.Width

/-!
# JSON values

A JSON value as it is written: an object keeps its members in order and may repeat names. `distinct`
leaves each name once, and `Nested.ofJson` turns a value into a nested value.
-/

namespace Phrasebook

open Number

/-- A number of a JSON text: an integer that fits in 64 bits with or without a sign, or a
floating-point number. -/
inductive JsonNumber where
  /-- An integer. -/
  | integer (n : Int)
  /-- Any other number. -/
  | float (x : Binary64)
  deriving DecidableEq, Inhabited

/-- A JSON value. -/
inductive Json where
  /-- The word `null`. -/
  | null
  /-- A truth value. -/
  | boolean (b : Bool)
  /-- A number. -/
  | number (n : JsonNumber)
  /-- A string. -/
  | string (text : String)
  /-- An array. -/
  | array (items : List Json)
  /-- An object with its members in order. -/
  | object (members : List (String × Json))
  deriving Inhabited

namespace Json

/-- Sets a member of an object: in the place of the one of the same name, else at the end. -/
def setMember {α : Type} (name : String) (value : α) : List (String × α) → List (String × α)
  | [] => [(name, value)]
  | (n, v) :: rest => if n = name then (n, value) :: rest else (n, v) :: setMember name value rest

mutual

/-- The value with each member name once in every object: at its first place, with its last value.
-/
def distinct : Json → Json
  | .array items => .array (distinctItems items)
  | .object members => .object (distinctMembers [] members)
  | .null => .null
  | .boolean b => .boolean b
  | .number n => .number n
  | .string text => .string text

/-- The items of an array, each with distinct names. -/
def distinctItems : List Json → List Json
  | [] => []
  | item :: rest => distinct item :: distinctItems rest

/-- Sets the members of an object one after the other. -/
def distinctMembers (built : List (String × Json)) :
    List (String × Json) → List (String × Json)
  | [] => built
  | (name, value) :: rest => distinctMembers (setMember name (distinct value) built) rest

end

end Json

/-- An integer of 64 bits where a number is one, else the nearest floating-point number. -/
def Nested.ofJsonNumber : JsonNumber → Nested
  | .integer n =>
    match Number.int64? n with
    | some n => .integer n
    | none => .float (.ofInt n)
  | .float x => .float x

mutual

/-- A JSON value as a nested value. -/
def Nested.ofJson : Json → Nested
  | .null => .null
  | .boolean b => .boolean b
  | .number n => .ofJsonNumber n
  | .string text => .string text
  | .array items => .sequence (Nested.ofJsonItems items)
  | .object members => .mapping (Nested.ofJsonMembers members)

/-- The items of an array as nested values. -/
def Nested.ofJsonItems : List Json → List Nested
  | [] => []
  | item :: rest => Nested.ofJson item :: Nested.ofJsonItems rest

/-- The members of an object as entries. -/
def Nested.ofJsonMembers : List (String × Json) → List (String × Nested)
  | [] => []
  | (name, value) :: rest => (name, Nested.ofJson value) :: Nested.ofJsonMembers rest

end

end Phrasebook
