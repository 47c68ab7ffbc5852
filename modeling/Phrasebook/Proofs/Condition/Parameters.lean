import Phrasebook.Condition.Eval

/-!
# Conditions under more parameters

An evaluation looks at those parameters only that the condition names, and fails as soon as one of
them is not given. So if more parameters are given, either the result stays the same, or before a
parameter was lacking that the condition names.

* `Params.Within`: a table of parameters that another one extends;
* `Steady`: how results under few and under more parameters are related;
* `Condition.Expr.names`: the parameters that an expression names;
* `Condition.steady_eval`, `Condition.steady_holds`: evaluation is steady.
-/

namespace Phrasebook

/-- Every parameter of the first table is one of the second, with the same value. -/
def Params.Within (p q : Params) : Prop :=
  ∀ name value, p.get? name = some value → q.get? name = some value

/-- A parameter that was not given may be added. -/
theorem Params.within_insert {p : Params} {name : String} (h : p.get? name = none) (value : Value) :
    p.Within (p.insert name value) := by
  intro other found hother
  rw [Table.get?_insert]
  by_cases hname : other = name
  · rw [hname, h] at hother
    cases hother
  · rw [if_neg hname]
    exact hother

/-- Two results of which the second was reached under more parameters than `p`. They are the same,
or the first one is the failure that a parameter is not given, which `p` lacks and is one of
`names`. -/
inductive Steady {β : Type} (p : Params) (names : String → Prop) :
    Except Failure β → Except Failure β → Prop where
  | same {r : Except Failure β} (h : ∀ name, r ≠ .error (.unresolvedParameter name)) :
      Steady p names r r
  | lacking {name : String} (hlacks : p.get? name = none) (hname : names name)
      (r : Except Failure β) :
      Steady p names (.error (.unresolvedParameter name)) r

namespace Steady

variable {β γ : Type} {p : Params} {names names' : String → Prop} {r r' : Except Failure β}

theorem ok (b : β) : Steady p names (.ok b) (.ok b) :=
  .same (by simp)

theorem mono (h : Steady p names r r') (hnames : ∀ name, names name → names' name) :
    Steady p names' r r' := by
  cases h with
  | same hne => exact .same hne
  | lacking hlacks hname => exact .lacking hlacks (hnames _ hname) _

/-- What is done with a result may look at further parameters. -/
theorem bind {f g : β → Except Failure γ} (h : Steady p names r r')
    (hnext : ∀ b, r = .ok b → Steady p names (f b) (g b)) :
    Steady p names (r.bind f) (r'.bind g) := by
  cases h with
  | lacking hlacks hname => exact .lacking hlacks hname _
  | same hne =>
    cases r with
    | ok b => exact hnext b rfl
    | error failure =>
      refine .same ?_
      intro name heq
      cases heq
      exact hne name rfl

theorem map (h : Steady p names r r') (f : β → γ) : Steady p names (r.map f) (r'.map f) := by
  cases h with
  | lacking hlacks hname => exact .lacking hlacks hname _
  | same hne =>
    refine .same ?_
    cases r with
    | ok b => simp [Except.map]
    | error failure => simpa [Except.map] using hne

/-- A result that does not lack a parameter stays the same. -/
theorem eq_of_ne (h : Steady p names r r')
    (hne : ∀ name, r ≠ .error (.unresolvedParameter name)) : r' = r := by
  cases h with
  | same => rfl
  | lacking => exact absurd rfl (hne _)

/-- A parameter that a result lacks is not given, and it is one of the names. -/
theorem lacks {name : String} (h : Steady p names r r')
    (hr : r = .error (.unresolvedParameter name)) : p.get? name = none ∧ names name := by
  cases h with
  | same hne => exact absurd hr (hne name)
  | lacking hlacks hname =>
    cases hr
    exact ⟨hlacks, hname⟩

end Steady

namespace Condition

mutual

/-- The parameters that an expression names. -/
def Expr.names : Expr → List String
  | .literal _ => []
  | .param name => [name]
  | .compare _ left right => left.names ++ right.names
  | .connect _ operands => Expr.namesOf operands
  | .negate operand => operand.names

/-- The parameters that a list of expressions names. -/
def Expr.namesOf : List Expr → List String
  | [] => []
  | e :: es => e.names ++ Expr.namesOf es

end

variable {p q : Params} {names : String → Prop}

/-! ### Evaluation step by step -/

theorem eval_compare (params : Params) (op : Comparator) (left right : Expr) (d : Demand) :
    eval params (.compare op left right) d =
      (eval params left .any).bind fun a =>
        (eval params right .any).bind fun b =>
          (op.holds a b).bind fun outcome => d.meet (.boolean outcome) := by
  rw [eval]
  cases eval params left .any with
  | error f => rfl
  | ok a =>
    cases eval params right .any with
    | error f => rfl
    | ok b => cases hholds : op.holds a b <;> simp [Except.bind, hholds]

theorem eval_connect (params : Params) (op : Connective) (operands : List Expr) (d : Demand) :
    eval params (.connect op operands) d =
      (evalOperands params op operands).bind fun outcome => d.meet (.boolean outcome) := by
  rw [eval]
  cases evalOperands params op operands <;> rfl

theorem evalOperands_cons (params : Params) (op : Connective) (e : Expr) (es : List Expr) :
    evalOperands params op (e :: es) =
      (eval params e (.truth op.role false)).bind fun v =>
        if v = .boolean op.decider then .ok op.decider else evalOperands params op es := by
  rw [evalOperands]
  cases eval params e (.truth op.role false) <;> rfl

/-! ### Evaluation is steady -/

theorem steady_meet (d : Demand) (v : Value) : Steady p names (d.meet v) (d.meet v) := by
  refine .same fun name heq => ?_
  rcases d with _ | ⟨role, flipped⟩
  · cases heq
  · cases v <;> cases heq

theorem steady_comparator (op : Comparator) (a b : Value) :
    Steady p names (op.holds a b) (op.holds a b) := by
  refine .same fun name heq => ?_
  rw [Comparator.holds.eq_def] at heq
  split at heq
  · cases heq
  · split at heq <;> cases heq
  · split at heq
    · split at heq <;> cases heq
    · cases heq

mutual

/-- An expression under more parameters has the same value, unless one that it names was lacking. -/
theorem steady_eval (h : p.Within q) : ∀ (e : Expr) (d : Demand),
    Steady p (· ∈ e.names) (eval p e d) (eval q e d)
  | .literal v, d => by
    rw [eval, eval]
    exact steady_meet d v
  | .param name, d => by
    rw [eval, eval]
    cases hget : p.get? name with
    | some v =>
      rw [h name v hget]
      exact steady_meet d v
    | none => exact .lacking hget (by simp [Expr.names]) _
  | .compare op left right, d => by
    rw [eval_compare, eval_compare]
    have hleft : Steady p (· ∈ (Expr.compare op left right).names)
        (eval p left .any) (eval q left .any) :=
      (steady_eval h left .any).mono fun name hname => by simp [Expr.names, hname]
    have hright : Steady p (· ∈ (Expr.compare op left right).names)
        (eval p right .any) (eval q right .any) :=
      (steady_eval h right .any).mono fun name hname => by simp [Expr.names, hname]
    -- The second side is evaluated only if the first has a value, and the values are the same.
    exact hleft.bind fun a _ => hright.bind fun b _ =>
      (steady_comparator op a b).bind fun outcome _ => steady_meet d _
  | .connect op operands, d => by
    rw [eval_connect, eval_connect, Expr.names]
    exact (steady_evalOperands h op operands).bind fun outcome _ => steady_meet d _
  | .negate operand, d => by
    rw [eval, eval, Expr.names]
    exact steady_eval h operand d.negate

/-- Operands under more parameters have the same outcome, unless one that they name was lacking. -/
theorem steady_evalOperands (h : p.Within q) (op : Connective) : ∀ es : List Expr,
    Steady p (· ∈ Expr.namesOf es) (evalOperands p op es) (evalOperands q op es)
  | [] => .ok _
  | e :: es => by
    rw [evalOperands_cons, evalOperands_cons]
    have hfirst : Steady p (· ∈ Expr.namesOf (e :: es))
        (eval p e (.truth op.role false)) (eval q e (.truth op.role false)) :=
      (steady_eval h e _).mono fun name hname => by simp [Expr.namesOf, hname]
    have hrest : Steady p (· ∈ Expr.namesOf (e :: es))
        (evalOperands p op es) (evalOperands q op es) :=
      (steady_evalOperands h op es).mono fun name hname => by simp [Expr.namesOf, hname]
    -- Both sides go on to the next operand, or both stop.
    refine hfirst.bind fun v _ => ?_
    split
    · exact .ok _
    · exact hrest

end

/-- A condition under more parameters holds as before, unless one that it names was lacking. -/
theorem steady_holds (h : p.Within q) (c : Compiled) :
    Steady p (· ∈ c.root.names) (c.holds p) (c.holds q) :=
  (steady_eval h c.root _).map _

end Condition

end Phrasebook
