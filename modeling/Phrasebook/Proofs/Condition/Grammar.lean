import Phrasebook.Proofs.Condition.Token

/-!
# The grammar of conditions

The tokens of a condition derive its tree by five rules, from the weakest binding to the strongest:

* a condition is conjunctions with `or` between them;
* a conjunction is negations with `and` between them;
* a negation is a comparison after any number of `not`;
* a comparison is one operand, or two with a comparator between them;
* an operand is a literal, a parameter, or a condition in parentheses.

Each rule is a language over the language of the rule below it. `Derives` ties them together and
counts how deep parentheses nest.
-/

namespace Phrasebook.Condition

/-- A language says which tokens derive which tree. -/
abbrev Language := List Token → Expr → Prop

/-- Any number of items with a connective before each. -/
inductive Further (op : Connective) (item : Language) : List Token → List Expr → Prop where
  /-- No item. -/
  | nil : Further op item [] []
  /-- An item after a connective, and further ones. -/
  | cons {ts us : List Token} {e : Expr} {es : List Expr} (first : item ts e)
      (more : Further op item us es) :
      Further op item (.connective op :: (ts ++ us)) (e :: es)

/-- Items with a connective between them; the tree of a single item is its own. -/
inductive Chain (op : Connective) (item : Language) : Language where
  /-- A single item. -/
  | single {ts : List Token} {e : Expr} (only : item ts e) : Chain op item ts e
  /-- Two items or more. -/
  | several {ts us : List Token} {e : Expr} {es : List Expr} (first : item ts e)
      (more : Further op item us es) (hne : es ≠ []) :
      Chain op item (ts ++ us) (.connect op (e :: es))

/-- A comparison after any number of negations. -/
inductive Negation (comparison : Language) : Language where
  /-- No negation. -/
  | plain {ts : List Token} {e : Expr} (only : comparison ts e) : Negation comparison ts e
  /-- A negation of what follows it. -/
  | negated {ts : List Token} {e : Expr} (more : Negation comparison ts e) :
      Negation comparison (.negation :: ts) (.negate e)

/-- One operand, or two with a comparator between them. -/
inductive Comparison (operand : Language) : Language where
  /-- A single operand. -/
  | single {ts : List Token} {e : Expr} (only : operand ts e) : Comparison operand ts e
  /-- Two operands. -/
  | compared {ts us : List Token} {op : Comparator} {left right : Expr}
      (hleft : operand ts left) (hright : operand us right) :
      Comparison operand (ts ++ .comparator op :: us) (.compare op left right)

/-- An operand of one token, or a condition in parentheses. -/
inductive Operand (condition : Language) : Language where
  /-- A literal or a parameter. -/
  | atom {t : Token} {e : Expr} (h : t.atom? = some e) : Operand condition [t] e
  /-- A condition in parentheses. -/
  | enclosed {ts : List Token} {e : Expr} (inner : condition ts e) :
      Operand condition (.opening :: (ts ++ [.closing])) e

/-- `Derives levels ts e`: the tokens `ts` derive the condition `e`, and parentheses nest less than
`levels` deep in them. -/
def Derives : (levels : Nat) → Language
  | 0 => fun _ _ => False
  | levels + 1 =>
    Chain .any (Chain .all (Negation (Comparison (Operand (Derives levels)))))

end Phrasebook.Condition
