import Phrasebook.Json.Reader

/-!
# Stored JSON values

A JSON text can be read into a value that is stored and used later. A stored object has each member
name once, a stored integer is a word of 64 bits, which has a sign only if the integer is negative,
and a stored floating-point number is finite. `Nested.ofStored` turns a stored value into a nested
value.
-/

namespace Phrasebook

open Number

/-- A number of a stored value. -/
inductive StoredNumber where
  /-- An integer that is not negative. -/
  | natural (n : UInt64)
  /-- A negative integer. -/
  | negative (n : Int64)
  /-- A finite floating-point number. -/
  | float (x : Binary64)
  deriving DecidableEq

namespace StoredNumber

/-- Stores a number, unless it is infinite or not a number. -/
def ofJson? : JsonNumber → Option StoredNumber
  | .integer n => some (if 0 ≤ n then .natural (.ofNat n.toNat) else .negative (.ofInt n))
  | .float x => if x.isFinite then some (.float x) else none

/-- The number as an integer with a sign, if it is one and fits in 64 bits. -/
def int64? : StoredNumber → Option Int64
  | .natural n => Number.int64? n.toNat
  | .negative n => some n
  | .float _ => none

/-- The number as a floating-point number. -/
def float? : StoredNumber → Option Binary64
  | .natural n => some (.ofInt n.toNat)
  | .negative n => some (.ofInt n.toInt)
  | .float x => some x

end StoredNumber

/-- A JSON value that is stored. -/
inductive StoredJson where
  /-- No value. -/
  | null
  /-- A truth value. -/
  | boolean (b : Bool)
  /-- A number. -/
  | number (n : StoredNumber)
  /-- A string. -/
  | string (text : String)
  /-- An array. -/
  | array (items : List StoredJson)
  /-- An object, its members in the order in which their names came first. -/
  | object (members : List (String × StoredJson))

namespace Json

mutual

/-- Stores a value. A number that cannot be stored leaves no value. -/
def store : Json → StoredJson
  | .null => .null
  | .boolean b => .boolean b
  | .number n =>
    match StoredNumber.ofJson? n with
    | some n => .number n
    | none => .null
  | .string text => .string text
  | .array items => .array (storeItems items)
  | .object members => .object (storeMembers [] members)

/-- Stores the items of an array. -/
def storeItems : List Json → List StoredJson
  | [] => []
  | item :: rest => store item :: storeItems rest

/-- Stores the members of an object one after the other. A repeated name replaces the value that is
stored for it. -/
def storeMembers (stored : List (String × StoredJson)) :
    List (String × Json) → List (String × StoredJson)
  | [] => stored
  | (name, value) :: rest => storeMembers (setMember name (store value) stored) rest

end

/-- Reads a whole text as one value and stores it. -/
def readStored (source : String) : Option StoredJson :=
  (read source).map store

end Json

/-- An integer of 64 bits where a number is one, else a floating-point number. -/
def Nested.ofStoredNumber (n : StoredNumber) : Nested :=
  match n.int64? with
  | some i => .integer i
  | none => .float (n.float?.getD (.ofMagnitude false Layout.double.quietNaN))

mutual

/-- A stored value as a nested value. -/
def Nested.ofStored : StoredJson → Nested
  | .null => .null
  | .boolean b => .boolean b
  | .number n => .ofStoredNumber n
  | .string text => .string text
  | .array items => .sequence (Nested.ofStoredItems items)
  | .object members => .mapping (Nested.ofStoredMembers members)

/-- The items of a stored array as nested values. -/
def Nested.ofStoredItems : List StoredJson → List Nested
  | [] => []
  | item :: rest => Nested.ofStored item :: Nested.ofStoredItems rest

/-- The members of a stored object as entries. -/
def Nested.ofStoredMembers : List (String × StoredJson) → List (String × Nested)
  | [] => []
  | (name, value) :: rest => (name, Nested.ofStored value) :: Nested.ofStoredMembers rest

end

end Phrasebook
