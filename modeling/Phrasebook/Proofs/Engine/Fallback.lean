import Phrasebook.Proofs.Engine.Checked

/-!
# Locales and their fallbacks

What a request under any policy is answered follows from the answers of single locales, asked strictly
and without a fallback.

* `Policy.rescued`, `Policy.composed`: the strict answer of a locale and its fallback from theirs;
* `Policy.leniently`: the lenient answer from the strict one;
* `Engine.Reachable.answers_compose`: every reachable engine answers in this way.
-/

namespace Phrasebook

namespace Policy

/-- The answer where a locale failed because it lacks the entry or an arm that applies, from that of
its fallback: a text, or a failure other than that the fallback lacks the entry as well. -/
def rescued (first : Failure) : Except Failure String → Except Failure String
  | .error (.missingKey _ _ _) => .error first
  | .error (.invalidKey _ _) => .error first
  | .error (.noMatchingArm _ _) => .error first
  | second => second

/-- The strict answer of a locale and its fallback, from the answers of single locales. -/
def composed (answerIn : String → Except Failure String) (locale : String) :
    (fallback : Option String) → Except Failure String
  | none => answerIn locale
  | some other =>
    if other = locale then answerIn locale
    else
      match answerIn locale with
      | .error (.missingKey key name suggestions) =>
        rescued (.missingKey key name suggestions) (answerIn other)
      | .error (.noMatchingArm key name) => rescued (.noMatchingArm key name) (answerIn other)
      | first => first

/-- The lenient answer from the strict one: the key itself where there is no such entry. -/
def leniently (key : String) : Except Failure String → Except Failure String
  | .error (.missingKey _ _ _) => .ok key
  | .error (.invalidKey _ _) => .ok key
  | answer => answer

/-- The first of two answers that counts is the composed one. -/
theorem firstAnswer_eq_composed (answerIn : String → Except Failure String) (locale : String)
    (fallback : Option String) :
    Catalog.firstAnswer answerIn locale fallback = composed answerIn locale fallback := by
  unfold Catalog.firstAnswer composed
  cases hfirst : answerIn locale with
  | ok text => cases fallback <;> simp
  | error first =>
    cases fallback with
    | none => cases first <;> simp [Failure.allowsFallback]
    | some other =>
      by_cases hother : other = locale
      · cases first <;> simp [hother, Option.filter, Failure.allowsFallback]
      · -- The fallback is asked after two kinds of failures, and its own answer is judged by kind.
        cases hsecond : answerIn other with
        | ok text =>
          cases first <;> simp [hother, hsecond, Option.filter, Failure.allowsFallback, rescued]
        | error second =>
          cases first <;> cases second <;>
            simp [hother, hsecond, Option.filter, Failure.allowsFallback,
              Failure.isLookupFailure, rescued]

/-- A strict policy settles for the answer as it is. -/
theorem settle_strict (fallback : Option String) (key : String) (answer : Except Failure String) :
    settle ⟨true, fallback⟩ key answer = answer := by
  cases answer <;> rfl

/-- A lenient policy settles for the lenient answer. -/
theorem settle_lenient (fallback : Option String) (key : String)
    (answer : Except Failure String) :
    settle ⟨false, fallback⟩ key answer = leniently key answer := by
  cases answer with
  | ok text => rfl
  | error failure => cases failure <;> rfl

end Policy

/-! ### What failures name -/

/-- Whether a failure that is about an entry or the lack of one names this key and this locale. -/
def Failure.Names (key locale : String) : Failure → Prop
  | .missingKey key' locale' _ => key' = key ∧ locale' = locale
  | .noMatchingArm key' locale' => key' = key ∧ locale' = locale
  | .invalidKey key' _ => key' = key
  | _ => True

namespace Failure

variable {f : Failure} {key locale : String}

/-- A failure about parameters names no key. -/
theorem names_of_isParameterFailure (h : f.isParameterFailure = true) : f.Names key locale := by
  cases f <;> trivial

/-- A failure of a conditional is one of its conditions or of the parameters. -/
theorem names_of_choice {entry : Conditional} {params : Params}
    (h : entry.choice params = .error f) : f.Names key locale := by
  rw [Conditional.choice] at h
  split at h
  · rename_i hfirst
    cases h
    obtain ⟨i, arm, -, hverdict⟩ := Arm.exists_of_firstMatch_eq_error hfirst
    rw [Arm.verdict] at hverdict
    split at hverdict
    · cases hverdict
      trivial
    · exact names_of_isParameterFailure (Condition.Compiled.isParameterFailure_of_holds hverdict)
  · cases h
  · cases h

/-- A failure of a template is about the template or the parameters. -/
theorem names_of_substitute {template : String} {params : Params} {escape : EscapeSet}
    (h : Template.substitute template params escape = .error f) : f.Names key locale := by
  rcases Lint.substitute_eq_error h with ⟨offset, -, rfl⟩ | hparams
  · trivial
  · exact names_of_isParameterFailure hparams

/-- A failure in one locale names the key that was asked for and that locale. -/
theorem names_of_plainIn {c : Catalog} {escape : EscapeSet} {params : Params}
    (h : c.plainIn escape key locale params = .error f) : f.Names key locale := by
  rw [Catalog.plainIn] at h
  cases htemplate : c.plainTemplate key locale params with
  | ok template =>
    rw [htemplate] at h
    exact names_of_substitute h
  | error failure =>
    rw [htemplate] at h
    cases h
    -- No template was found: there is no such entry, or none of its arms could be chosen.
    rw [Catalog.plainTemplate] at htemplate
    split at htemplate
    · cases htemplate
      exact rfl
    split at htemplate
    · cases htemplate
      exact ⟨rfl, rfl⟩
    split at htemplate
    · cases htemplate
      exact ⟨rfl, rfl⟩
    · cases htemplate
      exact ⟨rfl, rfl⟩
    · cases htemplate
    · split at htemplate
      · rename_i hchoice
        cases htemplate
        exact names_of_choice hchoice
      · cases htemplate
      · cases htemplate
        exact ⟨rfl, rfl⟩

/-- The failure that stands where the fallback does not help is that of the first locale, and any
other one names no locale. -/
theorem names_of_rescued {first : Failure} {second : Except Failure String}
    (hfirst : first.Names key locale) (h : Policy.rescued first second = .error f) :
    f.Names key locale := by
  rw [Policy.rescued.eq_def] at h
  split at h
  · cases h
    exact hfirst
  · cases h
    exact hfirst
  · cases h
    exact hfirst
  · rename_i hmissing hinvalid harm
    subst h
    cases f with
    | missingKey key' locale' suggestions => exact absurd rfl (hmissing key' locale' suggestions)
    | invalidKey key' fault => exact absurd rfl (hinvalid key' fault)
    | noMatchingArm key' locale' => exact absurd rfl (harm key' locale')
    | _ => trivial

/-- A composed failure names the locale that was asked first. -/
theorem names_of_composed {answerIn : String → Except Failure String} {fallback : Option String}
    (hanswer : ∀ other f, answerIn other = .error f → f.Names key other)
    (h : Policy.composed answerIn locale fallback = .error f) : f.Names key locale := by
  cases fallback with
  | none => exact hanswer locale f h
  | some other =>
    rw [Policy.composed] at h
    split at h
    · exact hanswer locale f h
    · split at h
      · rename_i hfirst
        exact names_of_rescued (hanswer locale _ hfirst) h
      · rename_i hfirst
        exact names_of_rescued (hanswer locale _ hfirst) h
      · exact hanswer locale f h

end Failure

namespace Engine

variable {e e' : Engine}

/-- The answer of a locale that is asked strictly and without a fallback. -/
def strictAnswer (e : Engine) (key locale : String) (params : Params) : Except Failure String :=
  (e.resolve key locale params ⟨true, none⟩).1

/-- The strict answer of a locale is its plain answer, whatever the caches hold. -/
theorem Reachable.strictAnswer_eq (h : e.Reachable) (key locale : String) (params : Params) :
    e.strictAnswer key locale params = e.catalog.plainIn e.config.escape key locale params := by
  rw [strictAnswer, (h.faithful.resolve key locale params ⟨true, none⟩).1, Catalog.plain_none,
    Policy.settle_strict]

/-- **Answers compose.** Whatever the caches hold, a strict answer with a fallback is composed of the
strict answers of the two locales alone, which any engine with the same catalog and escape set gives;
the lenient answer follows from the strict one; and a failure that is about the key names the key and
the locale that were asked for, never the fallback. -/
theorem Reachable.answers_compose (h : e.Reachable) (h' : e'.Reachable)
    (hcatalog : e'.catalog = e.catalog) (hescape : e'.config.escape = e.config.escape)
    (key locale : String) (params : Params) (fallback : Option String) :
    (e.resolve key locale params ⟨true, fallback⟩).1 =
        Policy.composed (e'.strictAnswer key · params) locale fallback ∧
      (e.resolve key locale params ⟨false, fallback⟩).1 =
        Policy.leniently key (e.resolve key locale params ⟨true, fallback⟩).1 ∧
      ∀ strict failure, (e.resolve key locale params ⟨strict, fallback⟩).1 = .error failure →
        failure.Names key locale := by
  have hplain : e.catalog.plain e.config.escape key locale fallback params =
      Policy.composed (e'.strictAnswer key · params) locale fallback := by
    simp only [h'.strictAnswer_eq, hcatalog, hescape]
    exact Policy.firstAnswer_eq_composed _ locale fallback
  have hresolve : ∀ strict, (e.resolve key locale params ⟨strict, fallback⟩).1 =
      Policy.settle ⟨strict, fallback⟩ key
        (Policy.composed (e'.strictAnswer key · params) locale fallback) := by
    intro strict
    rw [← hplain]
    exact (h.faithful.resolve key locale params ⟨strict, fallback⟩).1
  have hstrict : (e.resolve key locale params ⟨true, fallback⟩).1 =
      Policy.composed (e'.strictAnswer key · params) locale fallback := by
    rw [hresolve, Policy.settle_strict]
  refine ⟨hstrict, ?_, ?_⟩
  · rw [hstrict, hresolve, Policy.settle_lenient]
  · intro strict failure hfail
    rw [hresolve] at hfail
    refine Failure.names_of_composed ?_ (Policy.eq_error_of_settle hfail)
    intro other f hother
    rw [h'.strictAnswer_eq] at hother
    exact Failure.names_of_plainIn hother

/-- A tree whose only entry has one arm. -/
def oneArm (condition template : String) : Nested :=
  .mapping [("stock", .mapping [("$conditional", .mapping [(condition, .string template)])])]

/-- The engine after two locales were loaded, of which the second has a broken condition, and some
more operations were performed. -/
def stockEngine (ops : List Operation) : Engine :=
  ((Session.start {} fun _ => 0).run
    (.load "de" (oneArm "count > 5" "viele") :: .load "en" (oneArm "count >" "many") :: ops)).engine

/-- A count to which no arm applies. -/
def smallCount : Params :=
  .ofList [("count", .integer 3)]

/-- Where no arm applies and the fallback is broken, the failure of the fallback is the answer. -/
theorem answers_compose_stock :
    let asked := stockEngine [.resolveTable "stock" "en" smallCount ⟨true, none⟩]
    (stockEngine []).strictAnswer "stock" "de" smallCount = .error (.noMatchingArm "stock" "de") ∧
      (stockEngine []).strictAnswer "stock" "en" smallCount =
        .error (.conditionFault ⟨"count >", 7, .missingOperand⟩) ∧
      (asked.resolve "stock" "de" smallCount ⟨true, some "en"⟩).1 =
        .error (.conditionFault ⟨"count >", 7, .missingOperand⟩) ∧
      (asked.resolve "stock" "de" smallCount ⟨true, some "en"⟩).1 =
        Policy.composed ((stockEngine []).strictAnswer "stock" · smallCount) "de" (some "en") := by
  intro asked
  have hasked : asked.Reachable := ⟨{}, fun _ => 0, _, rfl⟩
  have hstock : (stockEngine []).Reachable := ⟨{}, fun _ => 0, _, rfl⟩
  refine ⟨rfl, rfl, rfl, ?_⟩
  exact (hasked.answers_compose hstock rfl rfl "stock" "de" smallCount (some "en")).1

end Engine

end Phrasebook
