import Mathlib.Control.Monad.Basic
import Phrasebook.Proofs.Condition.Parameters
import Phrasebook.Proofs.Engine.Checked

/-!
# Requests with more parameters

A request looks at those parameters only that the entry of its key names, in a condition of an arm
or in a template, and fails as soon as one of them is not given. So parameters that are added never
change an answer, except that they may supply one that was lacking.

* `Catalog.Mentions`: the parameters that the entry of a key names;
* `Catalog.steady_plainIn`: the answer of a locale is steady under more parameters;
* `Engine.Reachable.steady_resolve`: so is every answer of a reachable engine.
-/

namespace Phrasebook

/-! ### The parameters that an entry names -/

/-- Whether a template has a placeholder for a parameter. -/
def Template.Mentions (source name : String) : Prop :=
  ∃ t, Template.read source = .ok t ∧ name ∈ t.placeholders

/-- Whether a condition names a parameter. -/
def Condition.Mentions (source name : String) : Prop :=
  ∃ c, Condition.compile source = .ok c ∧ name ∈ c.root.names

/-- Whether the condition or the template of an arm names a parameter. -/
def Arm.Mentions (arm : Arm) (name : String) : Prop :=
  Condition.Mentions arm.condition name ∨ Template.Mentions arm.template name

/-- Whether an entry names a parameter. -/
def Node.Mentions (name : String) : Node → Prop
  | .leaf template => Template.Mentions template name
  | .conditional entry =>
    (∃ arm ∈ entry.arms, arm.Mentions name) ∨
      ∃ template ∈ entry.otherwise, Template.Mentions template name
  | .branch _ => False

/-- Whether the entry of a key in a locale names a parameter. -/
def Catalog.Mentions (c : Catalog) (key locale name : String) : Prop :=
  ∃ root segments node, c.root? locale = some root ∧ Key.split key = .ok segments ∧
    Tree.walk [] root segments = .ok node ∧ node.Mentions name

section Steady

variable {p q : Params} {names : String → Prop}

/-! ### Templates -/

theorem Template.steady_substitute (h : p.Within q) (source : String) (set : EscapeSet) :
    Steady p (Template.Mentions source) (substitute source p set) (substitute source q set) := by
  unfold substitute
  cases hread : read source with
  | error offset => exact .same (by simp)
  | ok t =>
    -- By induction on the parts, of which each placeholder looks up its own parameter.
    have hparts : ∀ parts : List Segment, (∀ name, .placeholder name ∈ parts →
        name ∈ t.placeholders) →
        Steady p (Template.Mentions source) (parts.mapM (renderSegment p set))
          (parts.mapM (renderSegment q set)) := by
      intro parts hnames
      induction parts with
      | nil => exact .ok _
      | cons part parts ih =>
        rw [List.mapM_cons, List.mapM_cons]
        have hpart : Steady p (Template.Mentions source) (renderSegment p set part)
            (renderSegment q set part) := by
          cases part with
          | literal text => exact .ok text
          | placeholder name =>
            rw [renderSegment, renderSegment]
            cases hget : p.get? name with
            | some v =>
              rw [h name v hget]
              exact .ok _
            | none => exact .lacking hget ⟨t, hread, hnames name List.mem_cons_self⟩ _
        have hrest := ih fun name hname => hnames name (List.mem_cons_of_mem part hname)
        exact hpart.bind fun text _ => hrest.bind fun texts _ => .ok _
    refine (hparts t.segments fun name hname => ?_).map String.join
    exact List.mem_filterMap.mpr ⟨_, hname, rfl⟩

/-! ### Conditionals -/

theorem Arm.steady_verdict (h : p.Within q) (arm : Arm) :
    Steady p (Condition.Mentions arm.condition) (arm.verdict p) (arm.verdict q) := by
  unfold verdict
  cases hcompile : Condition.compile arm.condition with
  | error fault => exact .same (by simp)
  | ok condition =>
    exact (Condition.steady_holds h condition).mono fun name hname => ⟨_, hcompile, hname⟩

theorem Arm.firstMatch_cons (params : Params) (arm : Arm) (rest : List Arm) :
    firstMatch params (arm :: rest) = (arm.verdict params).bind fun applies =>
      if applies then .ok (some arm.template) else firstMatch params rest := by
  rw [firstMatch]
  rcases arm.verdict params with failure | _ | _ <;> rfl

theorem Arm.steady_firstMatch (h : p.Within q) {arms : List Arm}
    (hnames : ∀ arm ∈ arms, ∀ name, Condition.Mentions arm.condition name → names name) :
    Steady p names (firstMatch p arms) (firstMatch q arms) := by
  induction arms with
  | nil => exact .ok none
  | cons arm rest ih =>
    rw [firstMatch_cons, firstMatch_cons]
    have hfirst := (steady_verdict h arm).mono (hnames arm List.mem_cons_self)
    have hrest := ih fun other hother => hnames other (List.mem_cons_of_mem arm hother)
    refine hfirst.bind fun applies _ => ?_
    split
    · exact .ok _
    · exact hrest

theorem Conditional.choice_eq_map (c : Conditional) (params : Params) :
    c.choice params = (Arm.firstMatch params c.arms).map fun found => found.or c.otherwise := by
  unfold choice
  rcases Arm.firstMatch params c.arms with failure | _ | template <;> rfl

theorem Conditional.steady_choice (h : p.Within q) (c : Conditional) :
    Steady p (Node.Mentions · (.conditional c)) (c.choice p) (c.choice q) := by
  rw [choice_eq_map, choice_eq_map]
  exact (Arm.steady_firstMatch h fun arm harm name hname =>
    Or.inl ⟨arm, harm, Or.inl hname⟩).map _

/-- What the template that is chosen names, the conditional names. -/
theorem Conditional.mentions_of_choice {c : Conditional} {template name : String}
    (h : c.choice p = .ok (some template)) (hname : Template.Mentions template name) :
    (Node.conditional c).Mentions name := by
  rw [choice_eq_map] at h
  cases hfirst : Arm.firstMatch p c.arms with
  | error failure =>
    rw [hfirst] at h
    cases h
  | ok found =>
    rw [hfirst] at h
    cases found with
    | none => exact Or.inr ⟨template, Except.ok.inj h, hname⟩
    | some found =>
      cases h
      obtain ⟨i, arm, harm, rfl⟩ := Arm.exists_of_firstMatch_eq_some hfirst
      exact Or.inl ⟨arm, List.mem_of_getElem? harm, Or.inr hname⟩

/-! ### Entries -/

section Entries

variable {key locale template name : String}

theorem Node.steady_templateFor (h : p.Within q) (key locale : String) (node : Node) :
    Steady p (Node.Mentions · node) (node.templateFor key locale p)
      (node.templateFor key locale q) := by
  cases node with
  | branch children => exact .same (by simp [templateFor])
  | leaf template => exact .ok template
  | conditional entry =>
    refine (Conditional.steady_choice h entry).bind fun found _ => ?_
    cases found with
    | none => exact .same (by simp)
    | some template => exact .ok template

/-- What the template of a node names, the node does. -/
theorem Node.mentions_of_templateFor {node : Node}
    (h : node.templateFor key locale p = .ok template) (hname : Template.Mentions template name) :
    node.Mentions name := by
  cases node with
  | branch children => cases h
  | leaf found =>
    cases h
    exact hname
  | conditional entry =>
    rw [templateFor] at h
    rcases hchoice : entry.choice p with failure | _ | found <;> rw [hchoice] at h <;> cases h
    exact Conditional.mentions_of_choice hchoice hname

theorem Catalog.nodeFor_ne_unresolvedParameter (c : Catalog) (key locale name : String) :
    c.nodeFor key locale ≠ .error (.unresolvedParameter name) := by
  unfold nodeFor
  repeat' split
  all_goals simp

/-- What the node of a key names, the entry of the key does. -/
theorem Catalog.mentions_of_nodeFor {c : Catalog} {node : Node}
    (h : c.nodeFor key locale = .ok node) (hname : node.Mentions name) :
    c.Mentions key locale name := by
  unfold nodeFor at h
  split at h
  · cases h
  · rename_i segments hsplit
    split at h
    · cases h
    · rename_i root hroot
      split at h
      · cases h
      · rename_i found hwalk
        cases h
        exact ⟨root, segments, _, hroot, hsplit, hwalk, hname⟩

end Entries

/-! ### Catalogs -/

namespace Catalog

theorem steady_plainTemplate (h : p.Within q) (c : Catalog) (key locale : String) :
    Steady p (c.Mentions key locale) (c.plainTemplate key locale p)
      (c.plainTemplate key locale q) := by
  rw [plainTemplate_eq_bind, plainTemplate_eq_bind]
  -- The node is the same on both sides.
  refine (Steady.same (c.nodeFor_ne_unresolvedParameter key locale)).bind fun node hnode => ?_
  exact (Node.steady_templateFor h key locale node).mono fun _ => mentions_of_nodeFor hnode

/-- What the template of a key names, the entry of the key does. -/
theorem mentions_of_plainTemplate {c : Catalog} {key locale template name : String}
    (h : c.plainTemplate key locale p = .ok template) (hname : Template.Mentions template name) :
    c.Mentions key locale name := by
  rw [plainTemplate_eq_bind] at h
  cases hnode : c.nodeFor key locale with
  | error failure =>
    rw [hnode] at h
    cases h
  | ok node =>
    rw [hnode] at h
    exact mentions_of_nodeFor hnode (Node.mentions_of_templateFor h hname)

/-- The answer of a locale under more parameters is the same, unless one was lacking that the entry
of the key names. -/
theorem steady_plainIn (h : p.Within q) (c : Catalog) (escape : EscapeSet) (key locale : String) :
    Steady p (c.Mentions key locale) (c.plainIn escape key locale p)
      (c.plainIn escape key locale q) :=
  (steady_plainTemplate h c key locale).bind fun template htemplate =>
    (Template.steady_substitute h template escape).mono fun _ => mentions_of_plainTemplate htemplate

/-- Where the answers of single locales are steady, so is the first of two that counts. -/
theorem steady_firstAnswer {answerIn answerIn' : String → Except Failure String}
    {names : String → String → Prop}
    (h : ∀ locale, Steady p (names locale) (answerIn locale) (answerIn' locale))
    (locale : String) (fallback : Option String) :
    Steady p (fun name => names locale name ∨ ∃ other, fallback = some other ∧ names other name)
      (firstAnswer answerIn locale fallback) (firstAnswer answerIn' locale fallback) := by
  unfold firstAnswer
  have hfirst := h locale
  generalize answerIn locale = first at hfirst
  generalize answerIn' locale = first' at hfirst
  cases hfirst with
  | lacking hlacks hname => exact .lacking hlacks (Or.inl hname) _
  | same hne =>
    cases first with
    | ok text => exact .ok text
    | error failure =>
      dsimp only
      have hstands : Steady p
          (fun name => names locale name ∨ ∃ other, fallback = some other ∧ names other name)
          (.error failure) (.error failure : Except Failure String) := .same hne
      split
      · -- The fallback is asked on both sides, after the same failure of the first locale.
        cases hother : fallback.filter (· ≠ locale) with
        | none => exact hstands
        | some other =>
          have hfallback : fallback = some other := (Option.filter_eq_some_iff.mp hother).1
          have hsecond := h other
          dsimp only
          generalize answerIn other = second at hsecond
          generalize answerIn' other = second' at hsecond
          cases hsecond with
          | lacking hlacks hname =>
            exact .lacking hlacks (Or.inr ⟨other, hfallback, hname⟩) _
          | same hne' =>
            cases second with
            | ok text => exact .ok text
            | error failure' =>
              dsimp only
              split
              · exact hstands
              · exact .same hne'
      · exact hstands

end Catalog

theorem Policy.steady_settle (policy : Policy) (key : String) {r r' : Except Failure String}
    (h : Steady p names r r') : Steady p names (policy.settle key r) (policy.settle key r') := by
  cases h with
  | lacking hlacks hname =>
    have hsettle : ∀ name, policy.settle key (.error (.unresolvedParameter name)) =
        .error (.unresolvedParameter name) := by simp [settle, Failure.isLookupFailure]
    rw [hsettle]
    exact .lacking hlacks hname _
  | same hne =>
    cases r with
    | ok text => exact .ok text
    | error failure =>
      unfold settle
      dsimp only
      split
      · exact .ok key
      · exact .same hne

end Steady

namespace Engine

/-- **Parameters that are added never change an answer.** Whatever the caches hold, a request with
more parameters has the same answer, unless a parameter was lacking; and where one was, it was not
given, and the entry of the key names it in the locale that was asked for or in its fallback. -/
theorem Reachable.steady_resolve {e e' : Engine} (h : e.Reachable) (h' : e'.Reachable)
    (hcatalog : e'.catalog = e.catalog) (hescape : e'.config.escape = e.config.escape)
    {p q : Params} (hwithin : p.Within q) (key locale : String) (policy : Policy) :
    ((∀ name, (e.resolve key locale p policy).1 ≠ .error (.unresolvedParameter name)) →
      (e'.resolve key locale q policy).1 = (e.resolve key locale p policy).1) ∧
    ∀ name, (e.resolve key locale p policy).1 = .error (.unresolvedParameter name) →
      p.get? name = none ∧
        (e.catalog.Mentions key locale name ∨
          ∃ other, policy.fallback = some other ∧ e.catalog.Mentions key other name) := by
  have hanswers := Catalog.steady_firstAnswer
    (Catalog.steady_plainIn hwithin e.catalog e.config.escape key) locale policy.fallback
  have hsettled := Policy.steady_settle policy key hanswers
  -- Both engines give the plain answer, settled by the policy.
  have hp : (e.resolve key locale p policy).1 = policy.settle key
      (Catalog.firstAnswer (e.catalog.plainIn e.config.escape key · p) locale policy.fallback) :=
    (h.faithful.resolve key locale p policy).1
  have hq : (e'.resolve key locale q policy).1 = policy.settle key
      (Catalog.firstAnswer (e.catalog.plainIn e.config.escape key · q) locale policy.fallback) := by
    rw [← hcatalog, ← hescape]
    exact (h'.faithful.resolve key locale q policy).1
  rw [hp, hq]
  exact ⟨hsettled.eq_of_ne, fun name => hsettled.lacks⟩

/-- An engine with an entry that depends on a count in one locale and on a name in another one. -/
def helloEngine : Engine :=
  ((Session.start {} fun _ => 0).run
    [.load "de" (.mapping [("hello", .mapping
      [("$conditional", .mapping [("count > 5", .string "Hallo zusammen")])])]),
      .load "en" (.mapping [("hello", .string "Hello, {name}!")])]).engine

/-- A count and nothing else. -/
def counting (n : Int64) : Params :=
  .ofList [("count", .integer n)]

/-- A name makes no difference where the arm applies. Where none does, the fallback lacks it. -/
theorem steady_resolve_hello :
    (helloEngine.resolve "hello" "de" ((counting 7).insert "name" (.string "Ada"))
        ⟨true, some "en"⟩).1 = .ok "Hallo zusammen" ∧
      (helloEngine.resolve "hello" "de" (counting 3) ⟨true, some "en"⟩).1 =
        .error (.unresolvedParameter "name") ∧
      (counting 3).get? "name" = none := by
  have hreachable : helloEngine.Reachable := ⟨{}, fun _ => 0, _, rfl⟩
  have hwithin : ∀ n, (counting n).Within ((counting n).insert "name" (.string "Ada")) :=
    fun n => Params.within_insert rfl _
  have hmany : (helloEngine.resolve "hello" "de" (counting 7) ⟨true, some "en"⟩).1 =
      .ok "Hallo zusammen" := by decide +kernel
  have hfew : (helloEngine.resolve "hello" "de" (counting 3) ⟨true, some "en"⟩).1 =
      .error (.unresolvedParameter "name") := by decide +kernel
  refine ⟨?_, hfew, ?_⟩
  · rw [(hreachable.steady_resolve hreachable rfl rfl (hwithin 7) "hello" "de"
      ⟨true, some "en"⟩).1 (by rw [hmany]; simp), hmany]
  · exact ((hreachable.steady_resolve hreachable rfl rfl (hwithin 3) "hello" "de"
      ⟨true, some "en"⟩).2 _ hfew).1

end Engine

end Phrasebook
