import Phrasebook.Failure
import Phrasebook.Params

/-!
# Evaluating conditions

Operands are evaluated from the left; `and` and `or` stop at the first operand that decides. Texts
compare with texts, numbers with numbers; truth values can only be equal or different. A chain of
negations is passed down as one demand, so its length costs no depth.
-/

namespace Phrasebook.Condition

/-- The outcome of a comparison. Where a side is not a number only `!=` holds. -/
def Comparator.holds (op : Comparator) : Value → Value → Except Failure Bool
  | .string a, .string b => .ok (op.accepts (Ord.compare a b))
  | .boolean a, .boolean b =>
    match op with
    | .eq => .ok (a == b)
    | .ne => .ok (a != b)
    | _ => .error (.typeMismatch (.comparison op) [.boolean, .boolean])
  | a, b =>
    if a.isNumeric && b.isNumeric then
      match a.compareNumbers? b with
      | some order => .ok (op.accepts order)
      | none => .ok (op == .ne)
    else .error (.typeMismatch (.comparison op) [a.kind, b.kind])

/-- What the surroundings of an expression ask of its value. -/
inductive Demand where
  /-- Any value. -/
  | any
  /-- A truth value, to be negated if `flipped`; `role` is named if it is none. -/
  | truth (role : Role) (flipped : Bool)
  deriving DecidableEq, Repr

namespace Demand

/-- The demand on the operand of a negation with this demand. It is the only step that a negation
takes, whether a truth value is asked of it or any value. -/
def negate : Demand → Demand
  | .any => .truth .negation true
  | .truth _ flipped => .truth .negation (!flipped)

/-- Holds a value against a demand. -/
def meet : Demand → Value → Except Failure Value
  | .any, v => .ok v
  | .truth _ flipped, .boolean b => .ok (.boolean (b != flipped))
  | .truth role _, v => .error (.typeMismatch role [v.kind])

end Demand

/-- The role of the operands of a connective. -/
def Connective.role : Connective → Role
  | .all => .conjunction
  | .any => .disjunction

/-- The operand value that decides a connective at once. -/
def Connective.decider : Connective → Bool
  | .all => false
  | .any => true

mutual

/-- The value of an expression under a demand. -/
def eval (params : Params) : Expr → Demand → Except Failure Value
  | .literal v, d => d.meet v
  | .param name, d =>
    match params.get? name with
    | some v => d.meet v
    | none => .error (.unresolvedParameter name)
  | .compare op left right, d =>
    match eval params left .any with
    | .error f => .error f
    | .ok a =>
      match eval params right .any with
      | .error f => .error f
      | .ok b =>
        match op.holds a b with
        | .error f => .error f
        | .ok outcome => d.meet (.boolean outcome)
  | .connect op operands, d =>
    match evalOperands params op operands with
    | .error f => .error f
    | .ok outcome => d.meet (.boolean outcome)
  | .negate operand, d => eval params operand d.negate

/-- The truth value of the operands of a connective. -/
def evalOperands (params : Params) (op : Connective) : List Expr → Except Failure Bool
  | [] => .ok (!op.decider)
  | e :: es =>
    match eval params e (.truth op.role false) with
    | .error f => .error f
    | .ok v => if v = .boolean op.decider then .ok op.decider else evalOperands params op es

end

/-- The truth value of a condition. -/
def Compiled.holds (c : Compiled) (params : Params) : Except Failure Bool :=
  (eval params c.root (.truth .condition false)).map fun v => v = .boolean true

end Phrasebook.Condition
