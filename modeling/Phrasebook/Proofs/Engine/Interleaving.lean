import Mathlib.Data.List.Induction
import Phrasebook.Proofs.Engine.Change

/-!
# Interleaved requests

A request is not one step. It takes the current catalog, looks for a stored answer, computes one in
the catalog that it took if there is none, and stores it; and between any two of these steps other
requests take theirs and whole operations are performed. So an answer can be stored after the
catalog that it comes from was replaced and the answers were dropped. It does no harm: the request
names the generation of its catalog, and no two catalogs that are ever current have the same one.

* `Inquiry.advance`: one step of a request; `Inquiry.Step` lists what it can be;
* `Interleaving.run`: steps of any requests and whole operations in any order;
* `Engine.Consistent`: what every such step keeps of the engine, relative to the catalogs so far;
* `Interleaving.answers_belong`: every answer, given or stored, is that of the one catalog it names.
-/

namespace Phrasebook

/-! ### Requests in steps -/

/-- How far a request has come. -/
inductive Stage where
  /-- The current catalog was taken. -/
  | taken
  /-- No stored answer was found. -/
  | missed
  /-- A text was computed but is not stored yet. -/
  | computed (text : String)
  /-- The request is answered, before its policy is applied. -/
  | answered (result : Except Failure String)

namespace Stage

/-- How many steps are left at most. -/
def left : Stage → Nat
  | .taken => 3
  | .missed => 2
  | .computed _ => 1
  | .answered _ => 0

/-- The answer, as soon as it is known. -/
def result? : Stage → Option (Except Failure String)
  | .taken => none
  | .missed => none
  | .computed text => some (.ok text)
  | .answered result => some result

theorem exists_answered_of_left {stage : Stage} (h : stage.left = 0) :
    ∃ result, stage = .answered result := by
  cases stage with
  | answered result => exact ⟨result, rfl⟩
  | _ => cases h

end Stage

/-- A request under way. -/
structure Inquiry where
  /-- The key. -/
  key : String
  /-- The locale. -/
  locale : String
  /-- The parameters. -/
  params : Params
  /-- How failures are dealt with. -/
  policy : Policy
  /-- The catalog that was current when the request began. -/
  catalog : Catalog
  /-- How far it has come. -/
  stage : Stage := .taken

namespace Inquiry

/-- What the answer is stored under. -/
def request (q : Inquiry) : Request :=
  { key := q.key, locale := q.locale, fallback := q.policy.fallback
    generation := q.catalog.generation, params := q.params }

/-- The next step of a request. -/
def advance (q : Inquiry) (e : Engine) : Inquiry × Engine :=
  match q.stage with
  | .taken =>
    match e.answers.get? q.request with
    | (some text, answers) => ({ q with stage := .answered (.ok text) }, { e with answers })
    | (none, answers) => ({ q with stage := .missed }, { e with answers })
  | .missed =>
    match q.catalog.resolve e.config.escape e.memo q.key q.locale q.policy.fallback q.params with
    | (.ok text, memo) => ({ q with stage := .computed text }, { e with memo })
    | (.error failure, memo) => ({ q with stage := .answered (.error failure) }, { e with memo })
  | .computed text =>
    ({ q with stage := .answered (.ok text) },
      { e with answers := e.answers.insert q.request text })
  | .answered _ => (q, e)

/-- What the caller gets, once the request is answered. -/
def returned? (q : Inquiry) : Option (Except Failure String) :=
  match q.stage with
  | .answered result => some (q.policy.settle q.key result)
  | _ => none

end Inquiry

/-- A session with requests under way, in the order in which they began. -/
structure Interleaving extends Session where
  /-- The requests. -/
  inquiries : List Inquiry := []

/-- What can happen next. -/
inductive Action where
  /-- A request begins by taking the current catalog. -/
  | ask (key locale : String) (params : Params) (policy : Policy)
  /-- The request at this position takes its next step. -/
  | advance (i : Nat)
  /-- An operation is performed as a whole. -/
  | perform (op : Operation)

/-- Whether an action is a step of the request at a position. -/
def Action.advances (i : Nat) : Action → Bool
  | .advance j => j == i
  | _ => false

namespace Interleaving

/-- A new engine, and no requests. -/
def start (config : Config) (route : Request → Nat) : Interleaving :=
  { toSession := .start config route }

/-- What an action does. -/
def act (s : Interleaving) : Action → Interleaving
  | .ask key locale params policy =>
    { s with
      inquiries := s.inquiries ++ [{ key, locale, params, policy, catalog := s.engine.catalog }] }
  | .advance i =>
    match s.inquiries[i]? with
    | none => s
    | some q =>
      { s with
        engine := (q.advance s.engine).2, inquiries := s.inquiries.set i (q.advance s.engine).1 }
  | .perform op => { s with toSession := (s.toSession.step op).2 }

/-- What actions do one after the other. -/
def run (s : Interleaving) (actions : List Action) : Interleaving :=
  actions.foldl act s

/-- The catalogs that were current before, between and after actions. -/
def Installed (s : Interleaving) (actions : List Action) (c : Catalog) : Prop :=
  ∃ before, before <+: actions ∧ (s.run before).engine.catalog = c

end Interleaving

/-- The result that a request comes to in a catalog, whatever the memo holds. -/
def Catalog.Gives (c : Catalog) (set : EscapeSet) (r : Request) (result : Except Failure String) :
    Prop :=
  ∀ memo : Memo, memo.Faithful → (c.resolve set memo r.key r.locale r.fallback r.params).1 = result

theorem Memo.Faithful.gives {memo : Memo} (h : memo.Faithful) (c : Catalog) (set : EscapeSet)
    (r : Request) :
    c.Gives set r (c.resolve set memo r.key r.locale r.fallback r.params).1 := by
  intro other hother
  have hplain := (h.resolve c set r.key r.locale r.fallback r.params).1
  have hplain' := (hother.resolve c set r.key r.locale r.fallback r.params).1
  rw [hplain, hplain']

/-- The text is what the request comes to in a catalog of the generation that it names. -/
def Request.AnsweredIn (r : Request) (set : EscapeSet) (catalogs : List Catalog) (text : String) :
    Prop :=
  ∃ c ∈ catalogs, c.generation = r.generation ∧ c.Gives set r (.ok text)

/-! ### Steps -/

namespace Inquiry

variable {q : Inquiry} {e : Engine} {set : EscapeSet} {catalogs : List Catalog}

/-- What a step of a request can be, with the request and the engine after it. -/
inductive Step (q : Inquiry) (e : Engine) : Inquiry × Engine → Prop where
  /-- A stored answer is found. -/
  | found {text : String} {answers : Answers} (hstage : q.stage = .taken)
      (hget : e.answers.get? q.request = (some text, answers)) :
      Step q e ({ q with stage := .answered (.ok text) }, { e with answers })
  /-- No stored answer is found. -/
  | missed {answers : Answers} (hstage : q.stage = .taken)
      (hget : e.answers.get? q.request = (none, answers)) :
      Step q e ({ q with stage := .missed }, { e with answers })
  /-- A text is computed. -/
  | computed {text : String} {memo : Memo} (hstage : q.stage = .missed)
      (hresolve :
        q.catalog.resolve e.config.escape e.memo q.key q.locale q.policy.fallback q.params =
          (.ok text, memo)) :
      Step q e ({ q with stage := .computed text }, { e with memo })
  /-- The computation fails. -/
  | failed {failure : Failure} {memo : Memo} (hstage : q.stage = .missed)
      (hresolve :
        q.catalog.resolve e.config.escape e.memo q.key q.locale q.policy.fallback q.params =
          (.error failure, memo)) :
      Step q e ({ q with stage := .answered (.error failure) }, { e with memo })
  /-- A computed text is stored. -/
  | stored {text : String} (hstage : q.stage = .computed text) :
      Step q e
        ({ q with stage := .answered (.ok text) },
          { e with answers := e.answers.insert q.request text })
  /-- There is nothing left to do. -/
  | done {result : Except Failure String} (hstage : q.stage = .answered result) : Step q e (q, e)

theorem step_advance (q : Inquiry) (e : Engine) : q.Step e (q.advance e) := by
  unfold advance
  split
  · rename_i hstage
    split
    · rename_i hget
      exact .found hstage hget
    · rename_i hget
      exact .missed hstage hget
  · rename_i hstage
    split
    · rename_i hresolve
      exact .computed hstage hresolve
    · rename_i hresolve
      exact .failed hstage hresolve
  · rename_i hstage
    exact .stored hstage
  · rename_i hstage
    exact .done hstage

/-- What a request took is not touched by its steps, and each one brings it nearer to its end. -/
theorem exists_advance (q : Inquiry) (e : Engine) :
    ∃ stage, (q.advance e).1 = { q with stage } ∧ stage.left ≤ q.stage.left - 1 := by
  have hstep := q.step_advance e
  generalize q.advance e = next at hstep
  cases hstep with
  | found hstage hget => exact ⟨_, rfl, Nat.zero_le _⟩
  | missed hstage hget => exact ⟨_, rfl, by simp [hstage, Stage.left]⟩
  | computed hstage hresolve => exact ⟨_, rfl, by simp [hstage, Stage.left]⟩
  | failed hstage hresolve => exact ⟨_, rfl, Nat.zero_le _⟩
  | stored hstage => exact ⟨_, rfl, Nat.zero_le _⟩
  | done hstage => exact ⟨q.stage, rfl, by simp [hstage, Stage.left]⟩

theorem catalog_advance (q : Inquiry) (e : Engine) : (q.advance e).2.catalog = e.catalog := by
  have hstep := q.step_advance e
  generalize q.advance e = next at hstep
  cases hstep <;> rfl

/-- What holds of a request at all times: it took one of the catalogs so far, and an answer that is
known is that of this catalog. -/
structure Right (q : Inquiry) (set : EscapeSet) (catalogs : List Catalog) : Prop where
  /-- The catalog was current. -/
  origin : q.catalog ∈ catalogs
  /-- The answer is the one of the catalog. -/
  answer : ∀ result, q.stage.result? = some result → q.catalog.Gives set q.request result

theorem right_of_gives {stage : Stage} {result : Except Failure String}
    (horigin : q.catalog ∈ catalogs) (hresult : stage.result? = some result)
    (hgives : q.catalog.Gives set q.request result) : { q with stage }.Right set catalogs := by
  refine ⟨horigin, fun other hother => ?_⟩
  cases hresult.symm.trans hother
  exact hgives

theorem Right.mono (h : q.Right set catalogs) (c : Catalog) : q.Right set (c :: catalogs) :=
  ⟨List.mem_cons_of_mem c h.origin, h.answer⟩

end Inquiry

/-! ### The engine -/

namespace Engine

variable {e : Engine} {set : EscapeSet} {catalogs : List Catalog}

/-- What holds of an engine at all times, where `catalogs` are those that were current so far. -/
structure Consistent (e : Engine) (set : EscapeSet) (catalogs : List Catalog) : Prop where
  /-- The memo is faithful. -/
  memo : e.memo.Faithful
  /-- Parameters are escaped as in the beginning. -/
  escape : e.config.escape = set
  /-- The current catalog is one of them. -/
  current : e.catalog ∈ catalogs
  /-- No generation is later than the current one. -/
  latest : ∀ c ∈ catalogs, c.generation ≤ e.catalog.generation
  /-- No generation was used twice. -/
  unique : ∀ c ∈ catalogs, ∀ d ∈ catalogs, c.generation = d.generation → c = d
  /-- A stored answer is that of the catalog whose generation it names. -/
  stored : e.answers.Holds fun r text => r.AnsweredIn set catalogs text

theorem consistent_new (config : Config) (route : Request → Nat) :
    (new config route).Consistent config.escape [Catalog.empty] where
  memo := Memo.faithful_ofCapacity _
  escape := rfl
  current := List.mem_singleton.mpr rfl
  latest c hc := by
    rw [List.mem_singleton.mp hc]
    exact Nat.le_refl _
  unique c hc d hd _ := (List.mem_singleton.mp hc).trans (List.mem_singleton.mp hd).symm
  stored := Answers.holds_ofCapacity _ _ _

/-- A request as a whole is its steps, one right after the other. -/
theorem resolve_eq_advance (e : Engine) (key locale : String) (params : Params) (policy : Policy) :
    let q : Inquiry := { key, locale, params, policy, catalog := e.catalog }
    let one := q.advance e
    let two := one.1.advance one.2
    let three := two.1.advance two.2
    three.1.returned? = some (e.resolve key locale params policy).1 ∧
      three.2 = (e.resolve key locale params policy).2 := by
  intro q one
  have hone : one = match e.answers.get? q.request with
      | (some text, answers) => ({ q with stage := .answered (.ok text) }, { e with answers })
      | (none, answers) => ({ q with stage := .missed }, { e with answers }) :=
    rfl
  rw [Engine.resolve, Answers.getOrCompute]
  rcases hget : e.answers.get? q.request with ⟨_ | text, answers⟩ <;> rw [hget] at hone <;>
    rw [hone] <;> dsimp only [q, Inquiry.request] at hget <;> rw [hget]
  · -- Nothing is stored, so the answer is computed with the memo as it was.
    intro two
    have htwo : two =
        match e.catalog.resolve e.config.escape e.memo key locale policy.fallback params with
        | (.ok text, memo) => ({ q with stage := .computed text }, { e with answers, memo })
        | (.error failure, memo) =>
          ({ q with stage := .answered (.error failure) }, { e with answers, memo }) :=
      rfl
    rcases hresolve :
        e.catalog.resolve e.config.escape e.memo key locale policy.fallback params with
      ⟨failure | text, memo⟩ <;> rw [hresolve] at htwo <;> rw [htwo] <;> exact ⟨rfl, rfl⟩
  · exact ⟨rfl, rfl⟩

namespace Consistent

theorem withAnswers (h : e.Consistent set catalogs) {answers : Answers}
    (hstored : answers.Holds fun r text => r.AnsweredIn set catalogs text) :
    { e with answers }.Consistent set catalogs :=
  ⟨h.memo, h.escape, h.current, h.latest, h.unique, hstored⟩

theorem withMemo (h : e.Consistent set catalogs) {memo : Memo} (hmemo : memo.Faithful) :
    { e with memo }.Consistent set catalogs :=
  ⟨hmemo, h.escape, h.current, h.latest, h.unique, h.stored⟩

/-- The memo stays faithful, and what is computed is what the request comes to in its catalog. -/
theorem computes (h : e.Consistent set catalogs) {q : Inquiry} {result : Except Failure String}
    {memo : Memo}
    (hresolve :
      q.catalog.resolve e.config.escape e.memo q.key q.locale q.policy.fallback q.params =
        (result, memo)) :
    memo.Faithful ∧ q.catalog.Gives set q.request result := by
  rw [h.escape] at hresolve
  have hkept := (h.memo.resolve q.catalog set q.key q.locale q.policy.fallback q.params).2
  have hgives := h.memo.gives q.catalog set q.request
  dsimp only [Inquiry.request] at hgives
  rw [hresolve] at hkept hgives
  exact ⟨hkept, hgives⟩

/-- A step of a request keeps the engine consistent and the request right. -/
theorem step (h : e.Consistent set catalogs) {q : Inquiry} (hq : q.Right set catalogs)
    {next : Inquiry × Engine} (hstep : q.Step e next) :
    next.2.Consistent set catalogs ∧ next.1.Right set catalogs := by
  have hlookup := h.stored.get? q.request
  cases hstep with
  | found hstage hget =>
    rw [hget] at hlookup
    -- The catalog that the text comes from has the generation of the one that was taken.
    obtain ⟨c, hc, hgeneration, hgives⟩ := hlookup.1 _ rfl
    have htaken : c = q.catalog := h.unique c hc q.catalog hq.origin hgeneration
    rw [htaken] at hgives
    exact ⟨h.withAnswers hlookup.2, Inquiry.right_of_gives hq.origin rfl hgives⟩
  | missed hstage hget =>
    rw [hget] at hlookup
    exact ⟨h.withAnswers hlookup.2, hq.origin, by simp [Stage.result?]⟩
  | computed hstage hresolve =>
    obtain ⟨hmemo, hgives⟩ := h.computes hresolve
    exact ⟨h.withMemo hmemo, Inquiry.right_of_gives hq.origin rfl hgives⟩
  | failed hstage hresolve =>
    obtain ⟨hmemo, hgives⟩ := h.computes hresolve
    exact ⟨h.withMemo hmemo, Inquiry.right_of_gives hq.origin rfl hgives⟩
  | stored hstage =>
    -- However late the text is stored, its request names the catalog that it comes from.
    have hgives := hq.answer _ (by rw [hstage]; rfl)
    have hstored := h.stored.insert ⟨q.catalog, hq.origin, rfl, hgives⟩
    exact ⟨h.withAnswers hstored, Inquiry.right_of_gives hq.origin rfl hgives⟩
  | done hstage => exact ⟨h, hq⟩

theorem advance (h : e.Consistent set catalogs) {q : Inquiry} (hq : q.Right set catalogs) :
    (q.advance e).2.Consistent set catalogs ∧ (q.advance e).1.Right set catalogs :=
  h.step hq (q.step_advance e)

theorem resolve (h : e.Consistent set catalogs) (key locale : String) (params : Params)
    (policy : Policy) : (e.resolve key locale params policy).2.Consistent set catalogs := by
  let q : Inquiry := { key, locale, params, policy, catalog := e.catalog }
  have hq : q.Right set catalogs := ⟨h.current, by simp [q, Stage.result?]⟩
  obtain ⟨hlooked, hq⟩ := h.advance hq
  obtain ⟨hcomputed, hq⟩ := hlooked.advance hq
  rw [← (e.resolve_eq_advance key locale params policy).2]
  exact (hcomputed.advance hq).1

/-- A catalog that was current before may be listed again. -/
theorem again (h : e.Consistent set catalogs) : e.Consistent set (e.catalog :: catalogs) where
  memo := h.memo
  escape := h.escape
  current := List.mem_cons_self
  latest := List.forall_mem_cons.mpr ⟨Nat.le_refl _, h.latest⟩
  unique c hc d hd := by
    have hsub : ∀ c ∈ e.catalog :: catalogs, c ∈ catalogs :=
      List.forall_mem_cons.mpr ⟨h.current, fun c hc => hc⟩
    exact h.unique c (hsub c hc) d (hsub d hd)
  stored shard hshard entry hentry := by
    obtain ⟨c, hc, hgives⟩ := h.stored shard hshard entry hentry
    exact ⟨c, List.mem_cons_of_mem _ hc, hgives⟩

/-- Making the next catalog the current one keeps an engine consistent, as its generation is new. -/
theorem swap (h : e.Consistent set catalogs) {c : Catalog}
    (hnext : c.generation = e.catalog.generation + 1) (paths : Table String) :
    ({ e with paths }.swap c).Consistent set (c :: catalogs) where
  memo := h.memo
  escape := h.escape
  current := List.mem_cons_self
  latest := by
    refine List.forall_mem_cons.mpr ⟨Nat.le_refl _, fun d hd => ?_⟩
    have hle := h.latest d hd
    show d.generation ≤ c.generation
    omega
  unique := by
    -- Its generation is above all those that were used, so it is none of them.
    have hnew : ∀ d ∈ catalogs, c.generation ≠ d.generation := by
      intro d hd
      have hle := h.latest d hd
      omega
    refine List.forall_mem_cons.mpr ⟨?_, fun d hd => ?_⟩
    · refine List.forall_mem_cons.mpr ⟨fun _ => rfl, fun d hd heq => ?_⟩
      exact absurd heq (hnew d hd)
    · refine List.forall_mem_cons.mpr ⟨fun heq => ?_, h.unique d hd⟩
      exact absurd heq.symm (hnew d hd)
  stored := Answers.holds_clear

theorem loading (h : e.Consistent set catalogs) {locale : String} {paths : Table String}
    {result : Except LoadFailure Nat × Engine} (hloading : e.Loading locale paths result) :
    result.2.Consistent set (result.2.catalog :: catalogs) := by
  cases hloading with
  | refused failure => exact h.again
  | placed root hroot => exact h.swap rfl paths

theorem unload (h : e.Consistent set catalogs) (locale : String) :
    (e.unload locale).2.Consistent set ((e.unload locale).2.catalog :: catalogs) := by
  unfold Engine.unload
  dsimp only
  split
  · exact h.swap rfl _
  · obtain ⟨hmemo, hescape, hcurrent, hlatest, hunique, hstored⟩ := h.again
    exact ⟨hmemo, hescape, hcurrent, hlatest, hunique, hstored⟩

/-- Every operation keeps an engine consistent. -/
theorem perform (h : e.Consistent set catalogs) (past : List Catalog) (op : Operation) :
    (e.perform past op).2.Consistent set ((e.perform past op).2.catalog :: catalogs) := by
  cases op with
  | load locale value => exact h.loading (loading_load e locale value)
  | extend locale value => exact h.loading (loading_extend e locale value)
  | loadFile files locale path => exact h.loading (loading_loadFile e files locale path)
  | reload files locale => exact h.loading (loading_reload e files locale)
  | install choose => exact h.swap rfl _
  | unload locale => exact h.unload locale
  | setDefaultLocale locale =>
    obtain ⟨hmemo, hescape, hcurrent, hlatest, hunique, hstored⟩ := h.again
    exact ⟨hmemo, hescape, hcurrent, hlatest, hunique, hstored⟩
  | clearCaches => exact (h.again.withMemo Memo.faithful_clear).withAnswers Answers.holds_clear
  | resolve key locale bindings => exact (h.resolve key locale _ _).again
  | get key bindings => exact (h.resolve key _ _ _).again
  | resolveWith key locale bindings policy => exact (h.resolve key locale _ policy).again
  | resolveTable key locale params policy => exact (h.resolve key locale params policy).again
  | validate => exact h.again

end Consistent

end Engine

/-! ### Actions -/

/-- The catalogs that were current in a session, the latest first. -/
def Session.catalogs (s : Session) : List Catalog :=
  s.engine.catalog :: s.past

namespace Interleaving

variable {s : Interleaving} {set : EscapeSet} {actions : List Action} {i : Nat} {q : Inquiry}

theorem act_advance_of_eq_none (h : s.inquiries[i]? = none) : s.act (.advance i) = s := by
  rw [act, h]

theorem act_advance_of_eq_some (h : s.inquiries[i]? = some q) :
    s.act (.advance i) =
      { s with
        engine := (q.advance s.engine).2
        inquiries := s.inquiries.set i (q.advance s.engine).1 } := by
  rw [act, h]

/-- What holds of an interleaving at all times. -/
structure Sound (s : Interleaving) (set : EscapeSet) : Prop where
  /-- The engine is consistent with the catalogs so far. -/
  engine : s.engine.Consistent set s.catalogs
  /-- Every request has the answer of its catalog, as far as it has one. -/
  inquiries : ∀ q ∈ s.inquiries, q.Right set s.catalogs

theorem sound_start (config : Config) (route : Request → Nat) :
    (start config route).Sound config.escape where
  engine := Engine.consistent_new config route
  inquiries q hq := by cases hq

/-- Every action keeps an interleaving sound. -/
theorem Sound.act (h : s.Sound set) (a : Action) : (s.act a).Sound set := by
  obtain ⟨hengine, hinquiries⟩ := h
  cases a with
  | ask key locale params policy =>
    refine ⟨hengine, fun q hq => ?_⟩
    rcases List.mem_append.mp hq with hold | hnew
    · exact hinquiries q hold
    · rw [List.mem_singleton.mp hnew]
      exact ⟨hengine.current, by simp [Stage.result?]⟩
  | advance i =>
    cases hq : s.inquiries[i]? with
    | none =>
      rw [act_advance_of_eq_none hq]
      exact ⟨hengine, hinquiries⟩
    | some q =>
      rw [act_advance_of_eq_some hq]
      obtain ⟨hnext, hright⟩ := hengine.advance (hinquiries q (List.mem_of_getElem? hq))
      -- A step makes no catalog the current one.
      have hcatalogs : Session.catalogs ⟨(q.advance s.engine).2, s.past⟩ = s.catalogs := by
        simp [Session.catalogs, Inquiry.catalog_advance]
      refine ⟨?_, fun q' hq' => ?_⟩
      · rw [hcatalogs]
        exact hnext
      · rw [hcatalogs]
        rcases List.mem_or_eq_of_mem_set hq' with hold | rfl
        · exact hinquiries q' hold
        · exact hright
  | perform op =>
    have hnext := hengine.perform s.past op
    exact ⟨hnext, fun q hq => (hinquiries q hq).mono _⟩

theorem Sound.run (h : s.Sound set) (actions : List Action) : (s.run actions).Sound set := by
  -- By induction on the actions, of which each keeps the interleaving sound.
  induction actions generalizing s with
  | nil => exact h
  | cons a actions ih => exact ih (h.act a)

/-- The current catalog is listed as soon as it is current, and stays listed. -/
theorem mem_catalogs_act (s : Interleaving) (a : Action) (c : Catalog) :
    c ∈ (s.act a).catalogs ↔ (s.act a).engine.catalog = c ∨ c ∈ s.catalogs := by
  cases a with
  | ask key locale params policy =>
    simp [Interleaving.act, Session.catalogs, eq_comm]
  | advance i =>
    cases hq : s.inquiries[i]? with
    | none => simp [act_advance_of_eq_none hq, Session.catalogs, eq_comm]
    | some q => simp [act_advance_of_eq_some hq, Session.catalogs, Inquiry.catalog_advance, eq_comm]
  | perform op => simp [Interleaving.act, Session.catalogs, Session.step, eq_comm]

theorem run_concat (s : Interleaving) (actions : List Action) (a : Action) :
    s.run (actions ++ [a]) = (s.run actions).act a := by
  simp [run]

/-- The catalogs of a run from the start are those that were current at some point of it. -/
theorem mem_catalogs_run_start (config : Config) (route : Request → Nat) (actions : List Action)
    (c : Catalog) :
    c ∈ ((start config route).run actions).catalogs ↔ (start config route).Installed actions c := by
  -- From the end of the run: a prefix of a longer run is all of it or a prefix of the shorter one.
  induction actions using List.reverseRecOn with
  | nil => simp [Installed, run, start, Session.start, Session.catalogs, eq_comm]
  | append_singleton actions a ih =>
    rw [run_concat, mem_catalogs_act, ih]
    simp only [Installed, List.prefix_concat_iff, or_and_right, exists_or, exists_eq_left,
      run_concat]

/-- Only its own steps change a request. -/
theorem getElem?_inquiries_act (h : s.inquiries[i]? = some q) (a : Action) :
    (s.act a).inquiries[i]? = some (if a.advances i then (q.advance s.engine).1 else q) := by
  obtain ⟨hlt, -⟩ := List.getElem?_eq_some_iff.mp h
  cases a with
  | ask key locale params policy =>
    simp only [act, Action.advances, Bool.false_eq_true, if_false]
    rw [List.getElem?_append_left hlt, h]
  | advance j =>
    cases hj : s.inquiries[j]? with
    | none =>
      have hne : j ≠ i := by
        rintro rfl
        rw [h] at hj
        cases hj
      simp [act_advance_of_eq_none hj, Action.advances, hne, h]
    | some q' =>
      -- A step of another request is written to another place.
      rw [act_advance_of_eq_some hj]
      by_cases hji : j = i
      · subst hji
        cases h.symm.trans hj
        simp [Action.advances, hlt]
      · simp [Action.advances, hji, h]
  | perform op => simpa [act, Action.advances] using h

/-- A request keeps what it took, and every step of its own brings it nearer to its end. -/
theorem exists_stage_run (h : s.inquiries[i]? = some q) (actions : List Action) :
    ∃ stage, (s.run actions).inquiries[i]? = some { q with stage } ∧
      stage.left ≤ q.stage.left - actions.countP (Action.advances i) := by
  -- By induction on the actions, for the request as each of them leaves it.
  induction actions generalizing s q with
  | nil => exact ⟨q.stage, h, Nat.le_refl _⟩
  | cons a actions ih =>
    have hact := getElem?_inquiries_act h a
    rw [List.countP_cons]
    cases hown : a.advances i with
    | false =>
      rw [hown] at hact
      exact ih hact
    | true =>
      rw [hown] at hact
      obtain ⟨next, hnext, hless⟩ := q.exists_advance s.engine
      simp only [if_true, hnext] at hact
      obtain ⟨stage, hstage, hleft⟩ := ih hact
      refine ⟨stage, hstage, ?_⟩
      dsimp only at hleft
      rw [if_pos rfl]
      omega

theorem act_advance_last (s : Interleaving) (e : Engine) (q : Inquiry) :
    Interleaving.act { s with engine := e, inquiries := s.inquiries ++ [q] }
        (.advance s.inquiries.length) =
      { s with
        engine := (q.advance e).2, inquiries := s.inquiries ++ [(q.advance e).1] } := by
  have hlast : (s.inquiries ++ [q])[s.inquiries.length]? = some q := by simp
  rw [act_advance_of_eq_some hlast]
  simp

/-- A request whose steps nothing interrupts is a request as a whole. -/
theorem run_uninterrupted (s : Interleaving) (key locale : String) (params : Params)
    (policy : Policy) :
    let i := s.inquiries.length
    ∃ q : Inquiry, q.returned? = some (s.engine.resolve key locale params policy).1 ∧
      s.run [.ask key locale params policy, .advance i, .advance i, .advance i] =
        { s with
          engine := (s.engine.resolve key locale params policy).2
          inquiries := s.inquiries ++ [q] } := by
  let q : Inquiry := { key, locale, params, policy, catalog := s.engine.catalog }
  have hask : s.act (.ask key locale params policy) =
      { s with engine := s.engine, inquiries := s.inquiries ++ [q] } := rfl
  obtain ⟨hreturned, hengine⟩ := s.engine.resolve_eq_advance key locale params policy
  refine ⟨_, hreturned, ?_⟩
  simp only [run, List.foldl_cons, List.foldl_nil]
  rw [hask, act_advance_last, act_advance_last, act_advance_last, ← hengine]

/-! ### Late answers -/

/-- **Late answers do no harm.** A request is the steps of an interleaving, one right after the
other. Where steps of requests and whole operations come in any order, a request that is answered
has the answer of the catalog that was current when it began, three steps of its own are enough for
that, and every stored answer is that of the one catalog ever current with the generation that it
names. -/
theorem answers_belong (config : Config) (route : Request → Nat) :
    (∀ (s : Interleaving) (key locale : String) (params : Params) (policy : Policy),
      let i := s.inquiries.length
      ∃ q : Inquiry, q.returned? = some (s.engine.resolve key locale params policy).1 ∧
        s.run [.ask key locale params policy, .advance i, .advance i, .advance i] =
          { s with
            engine := (s.engine.resolve key locale params policy).2
            inquiries := s.inquiries ++ [q] }) ∧
    (∀ (before after : List Action) (key locale : String) (params : Params) (policy : Policy),
      let began := (start config route).run before
      let i := began.inquiries.length
      ∃ q, (began.run (.ask key locale params policy :: after)).inquiries[i]? = some q ∧
        (∀ result, q.stage = .answered result →
          began.engine.catalog.Gives config.escape
            { key, locale, fallback := policy.fallback,
              generation := began.engine.catalog.generation, params } result ∧
          q.returned? = some (policy.settle key result)) ∧
        (3 ≤ after.countP (Action.advances i) → ∃ result, q.stage = .answered result)) ∧
    ∀ actions : List Action,
      ((start config route).run actions).engine.memo.Faithful ∧
      ((start config route).run actions).engine.answers.Holds fun r text =>
        ∃ c, (start config route).Installed actions c ∧ c.generation = r.generation ∧
          (∀ d, (start config route).Installed actions d → d.generation = r.generation → d = c) ∧
          c.Gives config.escape r (.ok text) := by
  refine ⟨run_uninterrupted, ?_, ?_⟩
  · intro before after key locale params policy began i
    let q : Inquiry := { key, locale, params, policy, catalog := began.engine.catalog }
    have hsound : began.Sound config.escape := (sound_start config route).run before
    -- The request stands last in the list, and stays where it is.
    have hbegun : (began.act (.ask key locale params policy)).inquiries[i]? = some q := by
      simp [act, i, q]
    obtain ⟨stage, hq, hleft⟩ := exists_stage_run hbegun after
    refine ⟨{ q with stage }, hq, ?_, ?_⟩
    · intro result hresult
      have hright := (hsound.run (.ask key locale params policy :: after)).inquiries _
        (List.mem_of_getElem? hq)
      cases hresult
      exact ⟨hright.answer result rfl, rfl⟩
    · intro hcount
      refine Stage.exists_answered_of_left ?_
      have htaken : q.stage.left = 3 := rfl
      show stage.left = 0
      omega
  · intro actions
    have hsound := (sound_start config route).run actions
    refine ⟨hsound.engine.memo, fun shard hshard entry hentry => ?_⟩
    obtain ⟨c, hc, hgeneration, hgives⟩ := hsound.engine.stored shard hshard entry hentry
    refine ⟨c, (mem_catalogs_run_start config route actions c).mp hc, hgeneration, ?_, hgives⟩
    intro d hd hsame
    have hmem := (mem_catalogs_run_start config route actions d).mpr hd
    exact hsound.engine.unique d hmem c hc (hsame.trans hgeneration.symm)

/-- The catalog that the request takes. -/
def lateBefore : List Action :=
  [.perform (.load "en" (.mapping [("hi", .string "Hello")]))]

/-- The text of the request is stored after a load replaced its catalog. -/
def lateAfter : List Action :=
  [.advance 0, .advance 0, .perform (.load "en" (.mapping [("hi", .string "Hi")])), .advance 0]

/-- The late request has the text of its catalog, which is stored under its own generation, and the
next request has the new text. -/
theorem answers_belong_late :
    let actions := lateBefore ++ .ask "hi" "en" .empty {} :: lateAfter
    let s := (start {} fun _ => 0).run actions
    let r : Request :=
      { key := "hi", locale := "en", fallback := none, generation := 1, params := .empty }
    s.engine.catalog.generation = 2 ∧ s.engine.answers.size = 1 ∧
      (∃ q, s.inquiries[0]? = some q ∧ q.stage = .answered (.ok "Hello")) ∧
      (∃ c, (start {} fun _ => 0).Installed actions c ∧ c.generation = 1 ∧
        c.Gives {} r (.ok "Hello")) ∧
      (s.engine.resolve "hi" "en" .empty {}).1 = .ok "Hi" := by
  intro actions s r
  have hcounts : s.engine.catalog.generation = 2 ∧ s.engine.answers.size = 1 := by decide +kernel
  have hnext : (s.engine.resolve "hi" "en" .empty {}).1 = .ok "Hi" := by decide +kernel
  have hlate : ∃ shard ∈ s.engine.answers.shards, (r, "Hello") ∈ shard.entries := by
    decide +kernel
  obtain ⟨-, hrequests, hruns⟩ := answers_belong {} fun _ => 0
  obtain ⟨q, hq, hanswer, hdone⟩ := hrequests lateBefore lateAfter "hi" "en" .empty {}
  obtain ⟨result, hresult⟩ := hdone (by decide)
  have hgives := (hanswer result hresult).1 _ (Memo.faithful_ofCapacity 0)
  have htext : result = .ok "Hello" := by
    rw [← hgives]
    decide +kernel
  obtain ⟨shard, hshard, hentry⟩ := hlate
  obtain ⟨c, hc, hgeneration, -, hstored⟩ := (hruns actions).2 shard hshard _ hentry
  refine ⟨hcounts.1, hcounts.2, ⟨q, hq, ?_⟩, ⟨c, hc, hgeneration, hstored⟩, hnext⟩
  rw [hresult, htext]

end Interleaving

end Phrasebook
