import Phrasebook.Condition.Basic
import Phrasebook.Condition.Fault
import Phrasebook.Key

/-!
# Failures of a request

Why a key has no text for the given parameters.
-/

namespace Phrasebook

open Condition

/-- What asks for operands of certain kinds. -/
inductive Role where
  /-- The condition of an arm, which has to be a truth value. -/
  | condition
  /-- An operand of `not`. -/
  | negation
  /-- An operand of `and`. -/
  | conjunction
  /-- An operand of `or`. -/
  | disjunction
  /-- The two sides of a comparison. -/
  | comparison (op : Comparator)
  deriving DecidableEq, Repr

/-- The word for a role in messages. -/
def Role.word : Role → String
  | .condition => "condition"
  | .negation => "not"
  | .conjunction => "and"
  | .disjunction => "or"
  | .comparison op => op.sign

/-- Why a request has no answer. -/
inductive Failure where
  /-- The locale has no entry under the key. -/
  | missingKey (key locale : String) (suggestions : List String)
  /-- The text is not a key. -/
  | invalidKey (key : String) (fault : Key.Fault)
  /-- No arm of the entry applies, and it has no default. -/
  | noMatchingArm (key locale : String)
  /-- A parameter that is needed is not given. -/
  | unresolvedParameter (name : String)
  /-- Values of these kinds do not fit where they stand. -/
  | typeMismatch (role : Role) (kinds : List Value.Kind)
  /-- The condition of an arm cannot be read. -/
  | conditionFault (fault : Condition.Fault)
  /-- A template has an unterminated placeholder. -/
  | malformedTemplate (template : String) (offset : Nat)
  deriving DecidableEq, Repr

namespace Failure

/-- The candidates offered after a missing key. -/
def suggestionNote : List String → String
  | [] => ""
  | names => " (did you mean: " ++ ", ".intercalate names ++ ")"

/-- The wording of a failure. -/
def message : Failure → String
  | .missingKey key locale suggestions =>
    "missing key '" ++ key ++ "' in locale '" ++ locale ++ "'" ++ suggestionNote suggestions
  | .invalidKey key fault => "invalid key '" ++ key ++ "': " ++ fault.message
  | .noMatchingArm key locale =>
    "no branch of '" ++ key ++ "' in locale '" ++ locale ++ "' matched the given parameters"
  | .unresolvedParameter name => "unresolved variable '" ++ name ++ "'"
  | .typeMismatch role kinds =>
    "type mismatch: cannot apply '" ++ role.word ++ "' to " ++
      " and ".intercalate (kinds.map Value.Kind.word)
  | .conditionFault fault => fault.message
  | .malformedTemplate template offset =>
    "malformed template '" ++ template ++ "': unterminated placeholder at byte " ++ toString offset

/-- Whether the failure is about the key alone, so that a lenient request answers with the key. -/
def isLookupFailure : Failure → Bool
  | .missingKey .. => true
  | .invalidKey .. => true
  | _ => false

/-- Whether the fallback locale is asked after this failure. -/
def allowsFallback : Failure → Bool
  | .missingKey .. => true
  | .noMatchingArm .. => true
  | _ => false

end Failure

end Phrasebook
