import Mathlib.Data.Set.List
import Phrasebook.Proofs.Condition.Compiling
import Phrasebook.Proofs.Condition.Evaluation
import Phrasebook.Proofs.Condition.Parameters
import Phrasebook.Proofs.Condition.WellFormed
import Phrasebook.Proofs.Number.Finite

/-!
# The shape of trees that were read

Where every operator of a tree has a list of operands, there are trees that no text stands for: a
negation of two operands, a conjunction of none. An evaluation of such trees has to report a
negation that is malformed. The trees that are read have none, so this report is never seen; and
they are low, since every level of parentheses adds a comparison, a conjunction and a disjunction at
most.

* `Node`, `Node.eval`: trees with lists of operands and their evaluation;
* `node_negations`, `node_connected`: how such a tree is built while a text is read;
* `Node.Regular`: the shape that a tree should have;
* `eval_node`: on the trees of conditions, the evaluation is the one of conditions;
* `Node.Regular.intact_eval`: a tree of regular shape is never reported as malformed;
* `within_derives`: the shape and the height of trees that are derived;
* `compile_regular`: all this of a condition that was read.
-/

namespace Phrasebook.Condition

open Text Number

/-! ### Trees with lists of operands -/

/-- A condition as a tree in which connectives and negations have any number of operands. -/
inductive Node where
  /-- A constant. -/
  | literal (value : Value)
  /-- The value of a parameter. -/
  | param (name : String)
  /-- A comparison of two operands. -/
  | compare (op : Comparator) (left right : Node)
  /-- A connection. -/
  | connect (op : Connective) (operands : List Node)
  /-- A negation, which makes sense for one operand only. -/
  | negate (operands : List Node)

mutual

/-- A condition with its operands as lists. This is what a parser builds that has one kind of node
for all logical operators: it counts the negations and then puts them over the operand one by one,
each as a list of one operand (`Node.negations`), and keeps the items of a chain as a list
(`Node.connected`). The reader of conditions takes the same steps (`node_negations`,
`node_connected`), so both read a text as the same tree. -/
def Expr.node : Expr → Node
  | .literal v => .literal v
  | .param name => .param name
  | .compare op left right => .compare op left.node right.node
  | .connect op operands => .connect op (Expr.nodes operands)
  | .negate operand => .negate [operand.node]

/-- Conditions with their operands as lists. -/
def Expr.nodes : List Expr → List Node
  | [] => []
  | e :: es => e.node :: Expr.nodes es

end

/-- A tree below this many negations, which are put over it one by one, each as a list of one
operand. -/
def Node.negations : Nat → Node → Node
  | 0, a => a
  | count + 1, a => Node.negations count (.negate [a])

/-- One tree of the items of a chain; a single item stands for itself. -/
def Node.connected (op : Connective) (first : Node) : List Node → Node
  | [] => first
  | more => .connect op (first :: more)

theorem Node.negations_negate (count : Nat) (a : Node) :
    Node.negations count (.negate [a]) = .negate [Node.negations count a] := by
  induction count generalizing a with
  | zero => rfl
  | succ count ih => exact ih (.negate [a])

/-- Negations are read into lists of one operand. -/
theorem node_negations (count : Nat) (e : Expr) :
    (negations count e).node = Node.negations count e.node := by
  induction count with
  | zero => rfl
  | succ count ih =>
    rw [Condition.negations, Expr.node, ih]
    exact (Node.negations_negate count e.node).symm

/-- The items of a chain are read into a list of operands. -/
theorem node_connected (op : Connective) (first : Expr) (more : List Expr) :
    (connected op first more).node = Node.connected op first.node (Expr.nodes more) := by
  cases more <;> rfl

/-- Why an evaluation fails. -/
inductive Trouble where
  /-- A failure that every condition may have. -/
  | failure (f : Failure)
  /-- A negation with this many operands. -/
  | malformed (count : Nat)

/-- The operands that a report of wrong kinds lists: a malformed negation lists each of its operands
as an expression. -/
def Trouble.listed? : Trouble → Option (List String)
  | .failure (.typeMismatch _ kinds) => some (kinds.map Value.Kind.word)
  | .failure _ => none
  | .malformed count => some (List.replicate count "expression")

mutual

/-- The value of a tree under a demand. -/
def Node.eval (params : Params) : Node → Demand → Except Trouble Value
  | .literal v, d => (d.meet v).mapError .failure
  | .param name, d =>
    match params.get? name with
    | some v => (d.meet v).mapError .failure
    | none => .error (.failure (.unresolvedParameter name))
  | .compare op left right, d =>
    (left.eval params .any).bind fun a =>
      (right.eval params .any).bind fun b =>
        ((op.holds a b).bind fun outcome => d.meet (.boolean outcome)).mapError .failure
  | .connect op operands, d =>
    (Node.evalOperands params op operands).bind fun outcome =>
      (d.meet (.boolean outcome)).mapError .failure
  | .negate [operand], d => operand.eval params d.negate
  | .negate operands, _ => .error (.malformed operands.length)

/-- The truth value of the operands of a connective. -/
def Node.evalOperands (params : Params) (op : Connective) : List Node → Except Trouble Bool
  | [] => .ok (!op.decider)
  | a :: as =>
    (a.eval params (.truth op.role false)).bind fun v =>
      if v = .boolean op.decider then .ok op.decider else Node.evalOperands params op as

end

/-- The truth value of a tree. -/
def Node.holds (a : Node) (params : Params) : Except Trouble Bool :=
  (a.eval params (.truth .condition false)).map fun v => v = .boolean true

/-! ### Shape and height -/

/-- The shape that a tree should have. -/
inductive Node.Regular : Node → Prop where
  /-- A literal other than not-a-number. -/
  | literal {v : Value} (h : ∀ x, v = .float x → x.isNaN = false) : Regular (.literal v)
  /-- A parameter whose name is no word of the language. -/
  | param {name : String} (h : NamesParam name.toList) : Regular (.param name)
  /-- A comparison. -/
  | compare {op : Comparator} {left right : Node} (hleft : Regular left) (hright : Regular right) :
    Regular (.compare op left right)
  /-- A connection of two operands or more. -/
  | connect {op : Connective} {operands : List Node} (hmany : 2 ≤ operands.length)
    (h : ∀ a ∈ operands, Regular a) : Regular (.connect op operands)
  /-- A negation of one operand. -/
  | negate {operand : Node} (h : Regular operand) : Regular (.negate [operand])

mutual

/-- The height of a tree, in which a negation is no level of its own. -/
def Node.height : Node → Nat
  | .literal _ => 1
  | .param _ => 1
  | .compare _ left right => max left.height right.height + 1
  | .connect _ operands => Node.heightOf operands + 1
  | .negate operands => Node.heightOf operands

/-- The height of the highest of some trees. -/
def Node.heightOf : List Node → Nat
  | [] => 0
  | a :: as => max a.height (Node.heightOf as)

end

/-- Trees are at most as high as a bound if the highest is. -/
theorem heightOf_le_iff {n : Nat} {as : List Node} :
    Node.heightOf as ≤ n ↔ ∀ a ∈ as, a.height ≤ n := by
  induction as with
  | nil => simp [Node.heightOf]
  | cons a as ih => rw [Node.heightOf, Nat.max_le, ih, List.forall_mem_cons]

@[simp]
theorem nodes_eq_map (es : List Expr) : Expr.nodes es = es.map Expr.node := by
  induction es with
  | nil => rfl
  | cons e es ih => rw [Expr.nodes, List.map_cons, ih]

/-- The form of conditions leaves out no tree of regular shape. -/
theorem Node.Regular.exists_expr {a : Node} (h : a.Regular) : ∃ e : Expr, e.node = a := by
  induction h with
  | literal => exact ⟨.literal _, rfl⟩
  | param => exact ⟨.param _, rfl⟩
  | compare _ _ ihleft ihright =>
    obtain ⟨left, rfl⟩ := ihleft
    obtain ⟨right, rfl⟩ := ihright
    exact ⟨.compare _ left right, rfl⟩
  | @connect op operands _ _ ih =>
    -- Each operand is the tree of a condition, so the list is one of such trees.
    obtain ⟨es, rfl⟩ : operands ∈ Set.range (List.map Expr.node) := by
      rw [Set.range_list_map]
      exact ih
    refine ⟨.connect op es, ?_⟩
    rw [Expr.node, nodes_eq_map]
  | negate _ ih =>
    obtain ⟨operand, rfl⟩ := ih
    exact ⟨.negate operand, rfl⟩

/-! ### Evaluation -/

section Evaluation

variable {β γ : Type} {params : Params}

/-- Failures are renamed step by step. -/
theorem mapError_bind (r : Except Failure β) (f : β → Except Failure γ) :
    (r.bind f).mapError Trouble.failure =
      (r.mapError Trouble.failure).bind fun b => (f b).mapError Trouble.failure := by
  cases r <;> rfl

mutual

/-- The tree of a condition has the value of the condition. -/
theorem eval_node : ∀ (e : Expr) (d : Demand),
    e.node.eval params d = (eval params e d).mapError .failure
  | .literal v, d => by rw [Expr.node, Node.eval, eval]
  | .param name, d => by
    rw [Expr.node, Node.eval, eval]
    cases params.get? name <;> rfl
  | .compare op left right, d => by
    -- Both evaluations go from the left, so the failures are renamed in the same order.
    rw [Expr.node, Node.eval, eval_compare, mapError_bind, eval_node left]
    simp only [mapError_bind, eval_node right]
  | .connect op operands, d => by
    rw [Expr.node, Node.eval, eval_connect, mapError_bind, evalOperands_nodes op operands]
  | .negate operand, d => by rw [Expr.node, Node.eval, eval, eval_node operand]

/-- The trees of conditions have the truth value of the conditions. -/
theorem evalOperands_nodes (op : Connective) : ∀ es : List Expr,
    Node.evalOperands params op (Expr.nodes es) = (evalOperands params op es).mapError .failure
  | [] => rfl
  | e :: es => by
    rw [Expr.nodes, Node.evalOperands, evalOperands_cons, mapError_bind, eval_node e]
    -- What is left is the same choice after the first value.
    congr 1
    funext v
    rw [evalOperands_nodes op es]
    split <;> rfl

end

/-- The tree of a condition holds if the condition does. -/
theorem holds_node (c : Compiled) :
    c.root.node.holds params = (c.holds params).mapError .failure := by
  rw [Node.holds, Compiled.holds, eval_node]
  cases eval params c.root (.truth .condition false) <;> rfl

/-- A failure of the tree of a condition is one of the condition. -/
theorem holds_of_holds_node {c : Compiled} {f : Failure}
    (h : c.root.node.holds params = .error (.failure f)) :
    c.holds params = .error f := by
  rw [holds_node] at h
  cases hholds : c.holds params with
  | ok b =>
    rw [hholds] at h
    cases h
  | error f' =>
    rw [hholds] at h
    cases h
    rfl

/-- Whether a result is no report of a malformed negation. -/
def Intact (r : Except Trouble β) : Prop :=
  ∀ count, r ≠ .error (.malformed count)

theorem intact_mapError (r : Except Failure β) : Intact (r.mapError Trouble.failure) := by
  intro count h
  cases r <;> cases h

theorem Intact.bind {r : Except Trouble β} {f : β → Except Trouble γ} (h : Intact r)
    (hnext : ∀ b, Intact (f b)) :
    Intact (r.bind f) := by
  intro count heq
  cases r with
  | ok b => exact hnext b count heq
  | error trouble =>
    cases heq
    exact h count rfl

/-- Operands that are never reported as malformed are connected without such a report. -/
theorem intact_evalOperands {op : Connective} {as : List Node}
    (h : ∀ a ∈ as, ∀ d, Intact (a.eval params d)) :
    Intact (Node.evalOperands params op as) := by
  induction as with
  | nil =>
    intro count heq
    cases heq
  | cons a as ih =>
    rw [Node.evalOperands]
    refine (h a List.mem_cons_self _).bind fun v => ?_
    split
    · exact intact_mapError (.ok _)
    · exact ih fun a ha => h a (List.mem_cons_of_mem _ ha)

/-- A tree of regular shape is never reported as malformed. -/
theorem Node.Regular.intact_eval {a : Node} (h : a.Regular) (d : Demand) :
    Intact (a.eval params d) := by
  induction h generalizing d with
  | literal =>
    rw [Node.eval]
    exact intact_mapError _
  | param =>
    rw [Node.eval]
    split
    · exact intact_mapError _
    · exact intact_mapError (.error _)
  | compare _ _ hleft hright =>
    rw [Node.eval]
    exact (hleft _).bind fun a => (hright _).bind fun b => intact_mapError _
  | connect _ _ hoperands =>
    rw [Node.eval]
    exact (intact_evalOperands hoperands).bind fun outcome => intact_mapError _
  | negate _ ih =>
    -- The only place where a report could arise, and the list has one operand.
    rw [Node.eval]
    exact ih _

/-- Whether a tree of regular shape holds is never reported as malformed. -/
theorem Node.Regular.intact_holds {a : Node} (h : a.Regular) : Intact (a.holds params) := by
  intro count hholds
  rw [Node.holds] at hholds
  cases heval : a.eval params (.truth .condition false) with
  | ok v =>
    rw [heval] at hholds
    cases hholds
  | error trouble =>
    rw [heval] at hholds
    cases hholds
    exact h.intact_eval _ count heval

/-- A failure of an evaluation lists one operand or two, each by the word for its kind. -/
theorem listed_of_ofEvaluation {f : Failure} (h : f.OfEvaluation) {names : List String}
    (hlisted : (Trouble.failure f).listed? = some names) :
    (names.length = 1 ∨ names.length = 2) ∧
      ∀ name ∈ names, name ∈ ["string", "integer", "float", "boolean"] := by
  have hword : ∀ kind : Value.Kind, kind.word ∈ ["string", "integer", "float", "boolean"] := by
    intro kind
    cases kind <;> decide
  cases h with
  | unresolved name => cases hlisted
  | unfit role kind =>
    cases hlisted
    exact ⟨Or.inl rfl, List.forall_mem_singleton.mpr (hword kind)⟩
  | incomparable op left right =>
    cases hlisted
    refine ⟨Or.inr rfl, List.forall_mem_cons.mpr ⟨hword left, ?_⟩⟩
    exact List.forall_mem_singleton.mpr (hword right)

end Evaluation

/-! ### Numbers -/

/-- A magnitude that is rounded is at most infinite. -/
theorem ofDecimal_le (f : Layout) (digits : Nat) (exponent : Int) :
    f.ofDecimal digits exponent ≤ f.infinity := by
  rw [Layout.ofDecimal]
  split
  · exact Nat.zero_le _
  split
  · exact Nat.le_refl _
  split
  · exact f.round_le_infinity _ _
  · exact f.round_le_infinity _ _

/-- A number whose magnitude is at most infinite is a number. -/
theorem isNaN_ofMagnitude {negative : Bool} {magnitude : Nat}
    (h : magnitude ≤ Layout.double.infinity) :
    (Binary64.ofMagnitude negative magnitude).isNaN = false := by
  rw [Binary64.isNaN, Binary64.magnitude_ofMagnitude h]
  exact decide_eq_false (Nat.not_lt.mpr h)

/-! ### Trees that are derived -/

/-- Whether a tree is of regular shape and at most this high. -/
structure Node.Within (n : Nat) (a : Node) : Prop where
  /-- The shape. -/
  regular : a.Regular
  /-- The height. -/
  low : a.height ≤ n

/-- A higher bound holds too. -/
theorem Node.Within.mono {m n : Nat} {a : Node} (h : a.Within m) (hle : m ≤ n) :
    a.Within n :=
  ⟨h.regular, Nat.le_trans h.low hle⟩

/-- The operand that a token with a spelling is. -/
theorem within_of_atom {t : Token} {text : List Char} {e : Expr} (hspelled : Spelled t text)
    (h : t.atom? = some e) :
    e.node.Within 1 := by
  have hliteral : ∀ {v : Value}, (∀ x, v = .float x → x.isNaN = false) →
      (Expr.literal v).node.Within 1 := fun h => ⟨.literal h, Nat.le_refl 1⟩
  have hparam : ∀ {name}, NamesParam name → (Expr.param (String.ofList name)).node.Within 1 :=
    fun h => ⟨.param (by rwa [String.toList_ofList]), Nat.le_refl 1⟩
  -- One case for each kind of spelling; the number with a point is the one that needs an argument.
  cases hspelled with
  | sign hmem =>
    have hsigns : ∀ entry ∈ signs, entry.2.atom?.isNone = true := by decide
    have hnone := hsigns _ hmem
    rw [h] at hnone
    cases hnone
  | word hmem =>
    simp only [words, List.mem_cons, Prod.mk.injEq, List.not_mem_nil, or_false] at hmem
    rcases hmem with ⟨-, rfl⟩ | ⟨-, rfl⟩ | ⟨-, rfl⟩ | ⟨-, rfl⟩ | ⟨-, rfl⟩ <;> cases h <;>
      exact hliteral (by simp)
  | bare hname =>
    cases h
    exact hparam hname
  | bracketed _ hname _ =>
    cases h
    exact hparam hname
  | quoted =>
    cases h
    exact hliteral (by simp)
  | integer =>
    obtain ⟨n, -, rfl⟩ := Option.map_eq_some_iff.mp h
    exact hliteral (by simp)
  | float hwhole hfraction hvalue =>
    cases h
    rw [readBinary64_decimal hwhole hfraction] at hvalue
    refine hliteral fun y hy => ?_
    cases hy
    cases hvalue
    exact isNaN_ofMagnitude (ofDecimal_le _ _ _)

/-- Whether all trees that spelled tokens derive are of regular shape and at most this high. -/
def AllWithin (n : Nat) (lang : Language) : Prop :=
  ∀ ts e, lang ts e → Spellable ts → e.node.Within n

section AllWithin

variable {lang : Language} {n : Nat}

theorem AllWithin.operand (h : AllWithin n lang) : AllWithin (max 1 n) (Operand lang) := by
  intro ts e hderives hspelled
  cases hderives with
  -- Parentheses leave no node in the tree, so only a single token may be higher than `n`.
  | atom hatom =>
    obtain ⟨text, ht⟩ := hspelled _ List.mem_cons_self
    exact (within_of_atom ht hatom).mono (Nat.le_max_left 1 n)
  | enclosed inner =>
    have hinside := h _ _ inner fun t ht => hspelled t (by simp [ht])
    exact hinside.mono (Nat.le_max_right 1 n)

theorem AllWithin.comparison (h : AllWithin n lang) : AllWithin (n + 1) (Comparison lang) := by
  intro ts e hderives hspelled
  cases hderives with
  | single only => exact (h _ _ only hspelled).mono (Nat.le_succ n)
  | compared hleft hright =>
    have hl := h _ _ hleft fun t ht => hspelled t (List.mem_append_left _ ht)
    have hr := h _ _ hright fun t ht =>
      hspelled t (List.mem_append_right _ (List.mem_cons_of_mem _ ht))
    exact ⟨.compare hl.regular hr.regular, Nat.succ_le_succ (Nat.max_le.mpr ⟨hl.low, hr.low⟩)⟩

/-- Negations add nothing to the height, however many there are. -/
theorem AllWithin.negation (h : AllWithin n lang) : AllWithin n (Negation lang) := by
  intro ts e hderives hspelled
  induction hderives with
  | plain only => exact h _ _ only hspelled
  | negated _ ih =>
    have hinner := ih fun t ht => hspelled t (List.mem_cons_of_mem _ ht)
    exact ⟨.negate hinner.regular, heightOf_le_iff.mpr (List.forall_mem_singleton.mpr hinner.low)⟩

/-- A connection of any number of items is one level higher than the highest of them. -/
theorem AllWithin.chain (h : AllWithin n lang) (op : Connective) :
    AllWithin (n + 1) (Chain op lang) := by
  have hfurther : ∀ {ts es}, Further op lang ts es → Spellable ts → ∀ e ∈ es, e.node.Within n := by
    intro ts es hderives hspelled
    induction hderives with
    | nil => simp
    | cons first _ ih =>
      refine List.forall_mem_cons.mpr ⟨?_, ?_⟩
      · exact h _ _ first fun t ht => hspelled t (by simp [ht])
      · exact ih fun t ht => hspelled t (by simp [ht])
  intro ts e hderives hspelled
  cases hderives with
  | single only => exact (h _ _ only hspelled).mono (Nat.le_succ n)
  | @several ts us first es hfirst hmore hne =>
    have hitems : ∀ e ∈ first :: es, e.node.Within n :=
      List.forall_mem_cons.mpr
        ⟨h _ _ hfirst fun t ht => hspelled t (List.mem_append_left _ ht),
          hfurther hmore fun t ht => hspelled t (List.mem_append_right _ ht)⟩
    rw [Expr.node, nodes_eq_map]
    constructor
    · refine .connect ?_ ?_
      · have hlength := List.length_pos_iff.mpr hne
        simp only [List.map_cons, List.length_cons, List.length_map]
        omega
      · exact List.forall_mem_map.mpr fun e he => (hitems e he).regular
    · rw [Node.height, Nat.add_le_add_iff_right, heightOf_le_iff]
      exact List.forall_mem_map.mpr fun e he => (hitems e he).low

end AllWithin

/-- A level of parentheses adds a comparison, a conjunction and a disjunction to a tree. -/
theorem within_derives (levels : Nat) : AllWithin (3 * levels + 1) (Derives levels) := by
  induction levels with
  | zero =>
    intro ts e hderives
    cases hderives
  | succ levels ih =>
    -- An operand is no higher than the condition inside, of which there may be none.
    have hoperand : AllWithin (3 * levels + 1) (Operand (Derives levels)) := by
      have h := ih.operand
      rwa [Nat.max_eq_right (by omega)] at h
    exact (hoperand.comparison.negation.chain .all).chain .any

/-- The tokens of a text have spellings. -/
theorem Taken.spellable {cs rest : List Char} {ts : List Token} (h : Taken cs ts rest) :
    Spellable ts := by
  induction h with
  | nil => simp [Spellable]
  | cons htoken _ ih =>
    obtain ⟨text, -, hspelled, -⟩ := htoken
    exact List.forall_mem_cons.mpr ⟨⟨text, hspelled⟩, ih⟩

/-! ### Conditions that were read -/

/-- A condition that was read has a tree of regular shape that is at most
`3 * (maxNesting + 1) + 1` high, however long its text and however many negations in a row. Under
any parameters the evaluation of trees with lists of operands has the outcome of the condition, is
never stopped by a malformed negation, and a report of wrong kinds lists one operand or two, each by
the word for its kind. -/
theorem compile_regular {source : String} {c : Compiled} (h : compile source = .ok c) :
    c.root.node.Regular ∧
    c.root.node.height ≤ 3 * (maxNesting + 1) + 1 ∧
    ∀ params, c.root.node.holds params = (c.holds params).mapError .failure ∧
      ∀ trouble, c.root.node.holds params = .error trouble →
        (∀ count, trouble ≠ .malformed count) ∧
        ∀ names, trouble.listed? = some names →
          (names.length = 1 ∨ names.length = 2) ∧
            ∀ name ∈ names, name ∈ ["string", "integer", "float", "boolean"] := by
  obtain ⟨-, -, ts, ⟨rest, htaken, -⟩, hderives⟩ := compile_eq_ok_iff.mp h
  have hwithin := within_derives _ _ _ hderives htaken.spellable
  refine ⟨hwithin.regular, hwithin.low, fun params => ⟨holds_node c, ?_⟩⟩
  intro trouble htrouble
  -- The shape rules the report of a malformed negation out.
  have hintact : ∀ count, trouble ≠ .malformed count := by
    rintro count rfl
    exact hwithin.regular.intact_holds count htrouble
  refine ⟨hintact, fun names hlisted => ?_⟩
  cases trouble with
  | malformed count => exact absurd rfl (hintact count)
  | failure f =>
    -- What remains is a failure of the condition itself, and of those the kinds are known.
    have hfails := holds_of_holds_node htrouble
    exact listed_of_ofEvaluation (Compiled.ofEvaluation_of_holds hfails) hlisted

/-- Three negations in a row make no level, so this tree is three levels high. An integer and a text
cannot be compared, and the report lists both of them. -/
theorem compile_regular_negated :
    ∃ c, compile "!!!(n > 'x') or b" = .ok c ∧ c.root.node.Regular ∧
      c.root.node.height ≤ 196 ∧ c.root.node.height = 3 ∧
      ∃ trouble, c.root.node.holds (Table.empty.insert "n" (.integer 3)) = .error trouble ∧
        (∀ count, trouble ≠ .malformed count) ∧
        trouble.listed? = some ["integer", "string"] := by
  have hcompile : compile "!!!(n > 'x') or b" = .ok ⟨"!!!(n > 'x') or b", .connect .any
      [negations 3 (.compare .gt (.param "n") (.literal (.string "x"))), .param "b"]⟩ := rfl
  obtain ⟨hregular, hlow, hholds⟩ := compile_regular hcompile
  have hparams := (hholds (Table.empty.insert "n" (.integer 3))).2 _ rfl
  exact ⟨_, hcompile, hregular, hlow, rfl, _, rfl, hparams.1, rfl⟩

end Phrasebook.Condition
