import Phrasebook.Number.Reading
import Phrasebook.Number.Shortest

/-!
# Values

What a parameter can be: a text, an integer of 64 bits, a floating-point number or a truth value.
Values are equal when they are written with the same kind and the same bits; numbers of either kind
compare as numbers with `Value.compareNumbers?`.
-/

namespace Phrasebook

open Number

/-- A value of a parameter or of a literal in a condition. -/
inductive Value where
  /-- A text. -/
  | string (text : String)
  /-- An integer of 64 bits. -/
  | integer (n : Int64)
  /-- A floating-point number. -/
  | float (x : Binary64)
  /-- A truth value. -/
  | boolean (b : Bool)
  deriving DecidableEq, Inhabited

namespace Value

/-- The four kinds of values. -/
inductive Kind where
  | string
  | integer
  | float
  | boolean
  deriving DecidableEq, Repr

/-- The word for a kind in messages. -/
def Kind.word : Kind → String
  | .string => "string"
  | .integer => "integer"
  | .float => "float"
  | .boolean => "boolean"

/-- The kind of a value. -/
def kind : Value → Kind
  | .string _ => .string
  | .integer _ => .integer
  | .float _ => .float
  | .boolean _ => .boolean

/-- The text of a value as a placeholder shows it. -/
def text : Value → String
  | .string s => s
  | .integer n => toString n.toInt
  | .float x => x.text
  | .boolean true => "true"
  | .boolean false => "false"

/-- Whether a value is an integer or a floating-point number. -/
def isNumeric : Value → Bool
  | .integer _ => true
  | .float _ => true
  | _ => false

/-- The integer a value is. -/
def asInteger? : Value → Option Int64
  | .integer n => some n
  | _ => none

/-- The floating-point number a value is, or the nearest one to an integer. -/
def asFloat? : Value → Option Binary64
  | .float x => some x
  | .integer n => some (.ofInt n.toInt)
  | _ => none

/-- The text a value is. -/
def asString? : Value → Option String
  | .string s => some s
  | _ => none

/-- The truth value a value is. -/
def asBoolean? : Value → Option Bool
  | .boolean b => some b
  | _ => none

/-- Comparison of two numbers: integers exactly, mixed pairs as floating-point numbers. Undefined
for other values and where a side is not a number. -/
def compareNumbers? : Value → Value → Option Ordering
  | .integer m, .integer n => some (compare m.toInt n.toInt)
  | x, y => do (← x.asFloat?).compare? (← y.asFloat?)

end Value

end Phrasebook
