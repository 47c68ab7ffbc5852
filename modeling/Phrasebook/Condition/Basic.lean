import Phrasebook.Value

/-!
# Conditions

The condition of an arm is a tree of comparisons, connected by `and`, `or` and `not`, over literals
and parameters.
-/

namespace Phrasebook.Condition

/-- The six ways to compare two values. -/
inductive Comparator where
  | eq
  | ne
  | lt
  | le
  | gt
  | ge
  deriving DecidableEq, Repr

/-- The sign of a comparator in messages. -/
def Comparator.sign : Comparator → String
  | .eq => "="
  | .ne => "!="
  | .lt => "<"
  | .le => "<="
  | .gt => ">"
  | .ge => ">="

/-- Whether a comparator accepts two values in this order. -/
def Comparator.accepts : Comparator → Ordering → Bool
  | .eq, o => o == .eq
  | .ne, o => o != .eq
  | .lt, o => o == .lt
  | .le, o => o != .gt
  | .gt, o => o == .gt
  | .ge, o => o != .lt

/-- The two connectives of several operands. -/
inductive Connective where
  /-- Every operand is true. -/
  | all
  /-- Some operand is true. -/
  | any
  deriving DecidableEq, Repr

/-- A condition as a tree. That a negation has one operand is part of the form of the tree; trees
that have lists of operands throughout are those of `Condition.Node`. -/
inductive Expr where
  /-- A constant. -/
  | literal (value : Value)
  /-- The value of a parameter. -/
  | param (name : String)
  /-- A comparison of two operands. -/
  | compare (op : Comparator) (left right : Expr)
  /-- A connection of two or more operands. -/
  | connect (op : Connective) (operands : List Expr)
  /-- The negation of its operand. -/
  | negate (operand : Expr)
  deriving Inhabited

/-- A condition together with the text it was read from. -/
structure Compiled where
  /-- The text. -/
  source : String
  /-- The tree. -/
  root : Expr
  deriving Inhabited

end Phrasebook.Condition
