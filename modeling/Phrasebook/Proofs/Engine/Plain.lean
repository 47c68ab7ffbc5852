import Phrasebook.Engine.Basic
import Phrasebook.Proofs.Cache.Memo

/-!
# Answers without caches

The text of a key depends on the trees of a catalog, the escape set, and the request alone. The
plain answer is described here from these: `Catalog.plainTemplate` reads the template of a key off
the tree of its locale, `Catalog.plainIn` is its text, and `Catalog.plain` takes a fallback locale
into account. The module proves that what is remembered changes no answer:

* `Memo.Faithful.resolve`: a faithful memo leads to the plain answer;
* `Engine.Faithful.resolve`: an engine whose caches hold nothing but plain answers gives the plain
  answer, and its caches stay so.
-/

namespace Phrasebook

namespace Catalog

/-- The template that a key leads to in the tree of a locale. -/
def plainTemplate (c : Catalog) (key locale : String) (params : Params) : Except Failure String :=
  match Key.split key with
  | .error fault => .error (.invalidKey key fault)
  | .ok segments =>
    match c.root? locale with
    | none => .error (.missingKey key locale [])
    | some root =>
      match Tree.walk [] root segments with
      | .error suggestions => .error (.missingKey key locale suggestions)
      | .ok (.branch _) => .error (.missingKey key locale [])
      | .ok (.leaf template) => .ok template
      | .ok (.conditional entry) =>
        match entry.choice params with
        | .error failure => .error failure
        | .ok (some template) => .ok template
        | .ok none => .error (.noMatchingArm key locale)

/-- The answer in one locale. -/
def plainIn (c : Catalog) (escape : EscapeSet) (key locale : String) (params : Params) :
    Except Failure String :=
  (c.plainTemplate key locale params).bind (Template.substitute · params escape)

/-- The answer of a locale or of its fallback, from the answers of single locales. -/
def firstAnswer (answerIn : String → Except Failure String) (locale : String)
    (fallback : Option String) : Except Failure String :=
  match answerIn locale with
  | .ok text => .ok text
  | .error first =>
    if first.allowsFallback then
      match fallback.filter (· ≠ locale) with
      | none => .error first
      | some other =>
        match answerIn other with
        | .ok text => .ok text
        | .error second =>
          if second.allowsFallback || second.isLookupFailure then .error first else .error second
    else .error first

/-- The answer in a locale or in its fallback. -/
def plain (c : Catalog) (escape : EscapeSet) (key locale : String) (fallback : Option String)
    (params : Params) : Except Failure String :=
  firstAnswer (c.plainIn escape key · params) locale fallback

end Catalog

/-! ### Nodes -/

/-- The template that a node stands for when a key leads to it. -/
def Node.templateFor (key locale : String) (params : Params) : Node → Except Failure String
  | .branch _ => .error (.missingKey key locale [])
  | .leaf template => .ok template
  | .conditional entry => (entry.choice params).bind fun
    | some template => .ok template
    | none => .error (.noMatchingArm key locale)

/-- The text of a node when a key leads to it. -/
def Node.answer (key locale : String) (escape : EscapeSet) (params : Params) (node : Node) :
    Except Failure String :=
  (node.templateFor key locale params).bind (Template.substitute · params escape)

/-- The node that a key leads to in a locale. -/
def Catalog.nodeFor (c : Catalog) (key locale : String) : Except Failure Node :=
  match Key.split key with
  | .error fault => .error (.invalidKey key fault)
  | .ok segments =>
    match c.root? locale with
    | none => .error (.missingKey key locale [])
    | some root =>
      match Tree.walk [] root segments with
      | .error suggestions => .error (.missingKey key locale suggestions)
      | .ok node => .ok node

/-- The parameters are looked at only when a node is found. -/
theorem Catalog.plainTemplate_eq_bind (c : Catalog) (key locale : String) (params : Params) :
    c.plainTemplate key locale params =
      (c.nodeFor key locale).bind (Node.templateFor key locale params) := by
  unfold plainTemplate nodeFor
  cases Key.split key with
  | error fault => rfl
  | ok segments =>
    dsimp only
    cases c.root? locale with
    | none => rfl
    | some root =>
      dsimp only
      rcases Tree.walk [] root segments with suggestions | (template | entry | children)
      · rfl
      · rfl
      · dsimp only [Except.bind, Node.templateFor]
        rcases entry.choice params with failure | _ | template <;> rfl
      · rfl

namespace Catalog

variable {c : Catalog} {key locale : String} {node : Node}

/-- The answer in a locale is that of the node that the key leads to. -/
theorem plainIn_eq_answer (h : c.nodeFor key locale = .ok node) (escape : EscapeSet)
    (params : Params) :
    c.plainIn escape key locale params = node.answer key locale escape params := by
  rw [plainIn, plainTemplate_eq_bind, h]
  rfl

/-- A key leads to the node where the walk along its segments ends. -/
theorem nodeFor_eq_ok {root : Branch} {segments : List String} (hroot : c.root? locale = some root)
    (hsplit : Key.split key = .ok segments) (hwalk : Tree.walk [] root segments = .ok node) :
    c.nodeFor key locale = .ok node := by
  simp only [nodeFor, hsplit, hroot, hwalk]

end Catalog

namespace Memo

variable {m : Memo}

/-- A faithful memo leads to the template that the tree holds, and stays faithful. -/
theorem Faithful.templateFor (h : m.Faithful) (c : Catalog) (key locale : String)
    (params : Params) :
    (c.templateFor m key locale params).1 = c.plainTemplate key locale params ∧
      (c.templateFor m key locale params).2.Faithful := by
  unfold Catalog.templateFor Catalog.plainTemplate
  cases Key.split key with
  | error fault => exact ⟨rfl, h⟩
  | ok segments =>
    dsimp only
    cases c.root? locale with
    | none => exact ⟨rfl, h⟩
    | some root =>
      dsimp only
      -- The memo is only used where the walk ends at a conditional.
      rcases Tree.walk [] root segments with suggestions | template | entry | children
      · exact ⟨rfl, h⟩
      · exact ⟨rfl, h⟩
      · obtain ⟨hchoice, hkept⟩ := h.select entry params
        dsimp only
        rw [← hchoice]
        rcases hselect : m.select entry params with ⟨failure | _ | template, m'⟩ <;>
          rw [hselect] at hkept <;> exact ⟨rfl, hkept⟩
      · exact ⟨rfl, h⟩

/-- A faithful memo leads to the plain answer in one locale, and stays faithful. -/
theorem Faithful.resolveIn (h : m.Faithful) (c : Catalog) (escape : EscapeSet)
    (key locale : String) (params : Params) :
    (c.resolveIn escape m key locale params).1 = c.plainIn escape key locale params ∧
      (c.resolveIn escape m key locale params).2.Faithful := by
  obtain ⟨htemplate, hkept⟩ := h.templateFor c key locale params
  unfold Catalog.resolveIn Catalog.plainIn
  rw [← htemplate]
  rcases hfound : c.templateFor m key locale params with ⟨failure | template, m'⟩ <;>
    rw [hfound] at hkept <;> exact ⟨rfl, hkept⟩

/-- A faithful memo leads to the plain answer, and stays faithful. -/
theorem Faithful.resolve (h : m.Faithful) (c : Catalog) (escape : EscapeSet)
    (key locale : String) (fallback : Option String) (params : Params) :
    (c.resolve escape m key locale fallback params).1 = c.plain escape key locale fallback params ∧
      (c.resolve escape m key locale fallback params).2.Faithful := by
  obtain ⟨hfirst, hkept⟩ := h.resolveIn c escape key locale params
  unfold Catalog.resolve Catalog.plain Catalog.firstAnswer
  dsimp only
  rw [← hfirst]
  -- The fallback is asked with the memo that the first locale left, which is faithful as well.
  rcases hin : c.resolveIn escape m key locale params with ⟨first | text, m₁⟩ <;>
    rw [hin] at hkept <;> dsimp only
  · by_cases hallows : first.allowsFallback
    · rw [if_pos hallows, if_pos hallows]
      rcases fallback with _ | other
      · exact ⟨rfl, hkept⟩
      by_cases hother : other = locale
      · simpa [hother, Option.filter] using hkept
      · obtain ⟨hsecond, hkept₂⟩ := hkept.resolveIn c escape key other params
        simp only [hother, Option.filter, ne_eq, not_false_eq_true, decide_true, if_true, if_false,
          ← hsecond]
        rcases hin₂ : c.resolveIn escape m₁ key other params with ⟨second | text, m₂⟩ <;>
          rw [hin₂] at hkept₂ <;> dsimp only
        · split <;> exact ⟨rfl, hkept₂⟩
        · exact ⟨rfl, hkept₂⟩
    · rw [if_neg hallows, if_neg hallows]
      exact ⟨rfl, hkept⟩
  · exact ⟨rfl, hkept⟩

end Memo

namespace Engine

variable {e : Engine}

/-- The caches hold nothing but what would be computed: the memo is faithful, and every kept answer
to a request of the current generation is the plain one. -/
structure Faithful (e : Engine) : Prop where
  /-- The memo is faithful. -/
  memo : e.memo.Faithful
  /-- Kept answers of the current generation are plain answers. -/
  answers : e.answers.Holds fun r text => r.generation = e.catalog.generation →
    e.catalog.plain e.config.escape r.key r.locale r.fallback r.params = .ok text

/-- A new engine is faithful. -/
theorem faithful_new (config : Config) (route : Request → Nat) : (new config route).Faithful :=
  ⟨Memo.faithful_ofCapacity _, Answers.holds_ofCapacity _ _ _⟩

/-- Making any catalog the current one keeps an engine faithful, as it drops the answers. -/
theorem Faithful.swap (h : e.Faithful) (c : Catalog) : (e.swap c).Faithful :=
  ⟨h.memo, Answers.holds_clear⟩

/-- Remembering other files keeps an engine faithful. -/
theorem Faithful.withPaths (h : e.Faithful) (paths : Table String) : { e with paths }.Faithful :=
  ⟨h.memo, h.answers⟩

/-- Dropping the caches keeps an engine faithful. -/
theorem Faithful.clearCaches (_ : e.Faithful) : e.clearCaches.Faithful :=
  ⟨Memo.faithful_clear, Answers.holds_clear⟩

/-- A faithful engine gives the plain answer as its policy settles it, and stays faithful. -/
theorem Faithful.resolve (h : e.Faithful) (key locale : String) (params : Params)
    (policy : Policy) :
    (e.resolve key locale params policy).1 =
        policy.settle key (e.catalog.plain e.config.escape key locale policy.fallback params) ∧
      (e.resolve key locale params policy).2.Faithful := by
  obtain ⟨hplain, hmemo⟩ :=
    h.memo.resolve e.catalog e.config.escape key locale policy.fallback params
  let request : Request :=
    { key, locale, fallback := policy.fallback, generation := e.catalog.generation, params }
  let compute : Memo → Except Failure String × Memo := fun memo =>
    e.catalog.resolve e.config.escape memo key locale policy.fallback params
  -- The answer is kept from before, and then it is the plain one, or it is computed now.
  have hkept := h.answers.getOrCompute e.memo compute request
    fun text htext _ => hplain.symm.trans htext
  rcases h.answers.getOrCompute_eq e.memo compute request with
    ⟨text, hstored, hresult, hstate⟩ | ⟨hresult, hstate⟩
  · have hmemo₀ := h.memo
    rw [← hstate] at hmemo₀
    exact ⟨congrArg (policy.settle key) (hresult.trans (hstored rfl).symm), hmemo₀, hkept⟩
  · rw [← hstate] at hmemo
    exact ⟨congrArg (policy.settle key) (hresult.trans hplain), hmemo, hkept⟩

end Engine

end Phrasebook
