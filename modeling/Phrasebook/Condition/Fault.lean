/-!
# Faults of conditions

Why the text of a condition is refused, and where.
-/

namespace Phrasebook.Condition

/-- The most bytes that the text of a condition may have. -/
def maxBytes : Nat := 4096

/-- How deep parentheses may nest. -/
def maxNesting : Nat := 64

/-- Why a text is not a condition. -/
inductive Reason where
  /-- There are only blanks. -/
  | empty
  /-- A parenthesis lacks its partner. -/
  | unbalanced
  /-- No token starts here. -/
  | unknownToken
  /-- An operand is expected here. -/
  | missingOperand
  /-- The condition ends before the text does. -/
  | trailing
  /-- Parentheses nest deeper than `maxNesting`. -/
  | tooDeep
  /-- The text has more than `maxBytes` bytes. -/
  | tooLong (size : Nat)
  deriving DecidableEq, Repr

/-- The wording of a reason. -/
def Reason.message : Reason → String
  | .empty => "expression is empty"
  | .unbalanced => "unbalanced parentheses"
  | .unknownToken => "unknown token"
  | .missingOperand => "operator is missing an operand"
  | .trailing => "unexpected input after a complete expression"
  | .tooDeep => "parentheses nested deeper than " ++ toString maxNesting ++ " levels"
  | .tooLong size =>
    "expression is " ++ toString size ++ " bytes long (max " ++ toString maxBytes ++ ")"

/-- A refused text with the byte position of the fault. -/
structure Fault where
  /-- The whole text. -/
  source : String
  /-- The byte position. -/
  offset : Nat
  /-- What is wrong there. -/
  reason : Reason
  deriving DecidableEq, Repr

/-- The wording of a fault. -/
def Fault.message (f : Fault) : String :=
  "invalid expression '" ++ f.source ++ "' at byte " ++ toString f.offset ++ ": " ++
    f.reason.message

end Phrasebook.Condition
