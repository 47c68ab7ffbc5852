import Phrasebook.Proofs.Condition.Parameters

/-!
# Conditions evaluated by their structure

The evaluator passes the demand on an expression down a chain of negations, and so never returns to
a negation to turn a value around. Here the value of an expression is told by its parts alone: each
part has a value of its own, and what stands around it asks for a truth value where it needs one.
The two agree on every expression, also on which failure comes first and how it is named, since a
demand can as well be held against the value afterwards.

* `Condition.Expr.value`: the value of an expression by its structure;
* `Condition.eval_eq_bind`: a demand is held against that value;
* `Condition.Compiled.holds_eq_bind`: so a condition holds if its value is true.
-/

namespace Phrasebook

/-- The truth value that a role asks for. -/
def Value.truth (role : Role) : Value → Except Failure Bool
  | .boolean b => .ok b
  | v => .error (.typeMismatch role [v.kind])

namespace Condition

mutual

/-- The value of an expression by its structure. -/
def Expr.value (params : Params) : Expr → Except Failure Value
  | .literal v => .ok v
  | .param name =>
    match params.get? name with
    | some v => .ok v
    | none => .error (.unresolvedParameter name)
  | .compare op left right => do
    let a ← left.value params
    let b ← right.value params
    let outcome ← op.holds a b
    return .boolean outcome
  | .connect .all operands => do
    let outcome ← Expr.allHold params operands
    return .boolean outcome
  | .connect .any operands => do
    let outcome ← Expr.someHolds params operands
    return .boolean outcome
  | .negate operand => do
    let v ← operand.value params
    let b ← v.truth .negation
    return .boolean (!b)

/-- Whether all operands hold, from the left up to the first one that does not. -/
def Expr.allHold (params : Params) : List Expr → Except Failure Bool
  | [] => .ok true
  | e :: es => do
    let v ← e.value params
    let b ← v.truth .conjunction
    if b then Expr.allHold params es else return false

/-- Whether some operand holds, from the left up to the first one that does. -/
def Expr.someHolds (params : Params) : List Expr → Except Failure Bool
  | [] => .ok false
  | e :: es => do
    let v ← e.value params
    let b ← v.truth .disjunction
    if b then return true else Expr.someHolds params es

end

/-! ### Demands and values -/

theorem bind_meet_any (r : Except Failure Value) : r.bind Demand.any.meet = r := by
  cases r <;> rfl

/-- A demand for a truth value that is not to be negated. -/
theorem meet_truth (role : Role) (v : Value) :
    (Demand.truth role false).meet v = (v.truth role).map .boolean := by
  cases v with
  | boolean b => cases b <;> rfl
  | _ => rfl

/-- A demand on a negation is a demand on its operand. -/
theorem meet_negate (d : Demand) (v : Value) :
    d.negate.meet v = (v.truth .negation).bind fun b => d.meet (.boolean !b) := by
  cases v with
  | boolean b => cases d <;> cases b <;> simp [Demand.negate, Demand.meet, Value.truth, Except.bind]
  | _ => cases d <;> rfl

/-! ### The evaluator by the structure -/

mutual

/-- To evaluate an expression under a demand is to hold the demand against its value. -/
theorem eval_eq_bind (params : Params) : ∀ (e : Expr) (d : Demand),
    eval params e d = (e.value params).bind d.meet
  | .literal v, d => rfl
  | .param name, d => by
    rw [eval, Expr.value]
    cases params.get? name <;> rfl
  | .compare op left right, d => by
    -- The sides of a comparison are asked for any value, so they are evaluated as they stand.
    rw [eval_compare, eval_eq_bind params left, eval_eq_bind params right, bind_meet_any,
      bind_meet_any, Expr.value]
    cases left.value params with
    | error f => rfl
    | ok a =>
      cases right.value params with
      | error f => rfl
      | ok b => cases hholds : op.holds a b <;> simp [Except.bind, bind, pure, Except.pure, hholds]
  | .connect .all operands, d => by
    rw [eval_connect, evalOperands_all params operands, Expr.value]
    cases Expr.allHold params operands <;> rfl
  | .connect .any operands, d => by
    rw [eval_connect, evalOperands_any params operands, Expr.value]
    cases Expr.someHolds params operands <;> rfl
  | .negate operand, d => by
    -- The demand on the operand fails as the negation would, and turns the same value around.
    rw [eval, eval_eq_bind params operand, Expr.value]
    cases operand.value params with
    | error f => rfl
    | ok v =>
      show d.negate.meet v = _
      rw [meet_negate]
      cases v <;> rfl

/-- Operands of `and` hold if all of them do. -/
theorem evalOperands_all (params : Params) : ∀ es : List Expr,
    evalOperands params .all es = Expr.allHold params es
  | [] => rfl
  | e :: es => by
    rw [evalOperands_cons, eval_eq_bind params e, evalOperands_all params es, Expr.allHold]
    cases e.value params with
    | error f => rfl
    | ok v =>
      -- Both sides fail at a value that is no truth value, and else go on or stop alike.
      show ((Demand.truth .conjunction false).meet v).bind _ = (v.truth .conjunction).bind _
      rw [meet_truth]
      rcases v.truth .conjunction with f | _ | _ <;> rfl

/-- Operands of `or` hold if some of them does. -/
theorem evalOperands_any (params : Params) : ∀ es : List Expr,
    evalOperands params .any es = Expr.someHolds params es
  | [] => rfl
  | e :: es => by
    rw [evalOperands_cons, eval_eq_bind params e, evalOperands_any params es, Expr.someHolds]
    cases e.value params with
    | error f => rfl
    | ok v =>
      show ((Demand.truth .disjunction false).meet v).bind _ = (v.truth .disjunction).bind _
      rw [meet_truth]
      rcases v.truth .disjunction with f | _ | _ <;> rfl

end

/-- A condition holds as its structure tells: it has the truth value of its root, or fails as the
root does, or for a root that is no truth value. -/
theorem Compiled.holds_eq_bind (c : Compiled) (params : Params) :
    c.holds params = (c.root.value params).bind (Value.truth .condition) := by
  rw [Compiled.holds, eval_eq_bind]
  cases c.root.value params with
  | error f => rfl
  | ok v =>
    show ((Demand.truth .condition false).meet v).map _ = v.truth .condition
    rw [meet_truth]
    rcases v.truth .condition with f | _ | _ <;> rfl

/-- What a chain of negations turns around has to be a truth value for the innermost of them. -/
example : (Compiled.mk "a and not not 3"
      (.connect .all [.param "a", .negate (.negate (.literal (.integer 3)))])).holds
    (Table.empty.insert "a" (.boolean true)) = .error (.typeMismatch .negation [.integer]) :=
  rfl

end Condition

end Phrasebook
