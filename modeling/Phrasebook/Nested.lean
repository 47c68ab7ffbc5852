import Phrasebook.Number.Binary64

/-!
# Nested values

What a catalog file holds before it is read as a catalog: scalars, sequences and mappings, nested to
any depth. Mappings keep the order of their entries and may repeat keys.
-/

namespace Phrasebook

open Number

/-- A tree of scalars, sequences and mappings. -/
inductive Nested where
  /-- No value. -/
  | null
  /-- A truth value. -/
  | boolean (b : Bool)
  /-- An integer of 64 bits. -/
  | integer (n : Int64)
  /-- A floating-point number. -/
  | float (x : Binary64)
  /-- A text. -/
  | string (text : String)
  /-- Items in order. -/
  | sequence (items : List Nested)
  /-- Entries in order, keys possibly repeated. -/
  | mapping (entries : List (String × Nested))
  deriving Inhabited

namespace Nested

/-- The seven kinds of nested values. -/
inductive Kind where
  | null
  | boolean
  | integer
  | float
  | string
  | sequence
  | mapping
  deriving DecidableEq, Repr

/-- The word for a kind in messages. -/
def Kind.word : Kind → String
  | .null => "null"
  | .boolean => "boolean"
  | .integer => "integer"
  | .float => "float"
  | .string => "string"
  | .sequence => "sequence"
  | .mapping => "mapping"

/-- The kind of a nested value. -/
def kind : Nested → Kind
  | .null => .null
  | .boolean _ => .boolean
  | .integer _ => .integer
  | .float _ => .float
  | .string _ => .string
  | .sequence _ => .sequence
  | .mapping _ => .mapping

end Nested

end Phrasebook
