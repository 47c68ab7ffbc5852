import Phrasebook.Proofs.Engine.Order
import Phrasebook.Proofs.Lint.Alarms

/-!
# Alarms and requests

An issue of the check tells of the entry of its key, and a request for this key fails for the issue
if it comes to it. How bad an issue is follows from its kind alone, so an issue that counts as an
error may be one that no request ever comes to.

* `Lint.Issue.Met`: a request comes to an issue;
* `Lint.exists_node_of_mem_check`: every issue is one of an entry;
* `Session.issues_fail_where_met`: requests fail for the issues that they come to, and but for their
  parameters for no others;
* `Session.errors_without_failure`: entries with errors that never fail.
-/

namespace Phrasebook

namespace Lint

variable {c : Catalog} {params : Params} {issue : Issue}

/-- What a request fails with that comes to an issue. -/
def Issue.failure (issue : Issue) : Failure :=
  issue.defect.failure issue.key issue.locale

/-- A request with these parameters for the key of an issue comes to its defect. -/
def Issue.Met (c : Catalog) (params : Params) (issue : Issue) : Prop :=
  ∃ node, c.nodeFor issue.key issue.locale = .ok node ∧ Meets params node issue.defect

/-- What a defect makes a request fail with is neither about its parameters nor about its key. -/
theorem Defect.isLookupFailure_failure (key locale : String) (defect : Defect) :
    (defect.failure key locale).isLookupFailure = false := by
  cases defect <;> rfl

/-- The issues are the defects of entries that their keys lead to. -/
theorem exists_node_of_mem_check (hbuilt : c.Built) (hordered : c.Ordered) (h : issue ∈ check c) :
    ∃ node, c.nodeFor issue.key issue.locale = .ok node ∧ issue.defect ∈ entryDefects node := by
  obtain ⟨⟨locale, root⟩, hlisted, hissue⟩ := List.mem_flatMap.mp h
  have hroot : c.root? locale = some root := hordered.root?_eq_some_iff.mpr hlisted
  dsimp only at hissue
  rw [branchIssues_eq_flatMap] at hissue
  obtain ⟨⟨path, node⟩, hentry, hdefect⟩ := List.mem_flatMap.mp hissue
  obtain ⟨defect, hmem, rfl⟩ := List.mem_map.mp hdefect
  -- The tree is well named, so the key that the check spells is split at the same places.
  obtain ⟨segments, hpath, hne, hnames, hwalk⟩ :=
    (hbuilt locale root hroot).wellNamed.exists_walk hentry
  rw [List.nil_append] at hpath
  subst hpath
  have hsplit : Key.split (Key.join path) = .ok path := by
    refine Key.split_eq_ok_iff.mpr ⟨hne, fun segment hsegment => ?_, rfl⟩
    obtain ⟨hempty, hdot, -⟩ := hnames segment hsegment
    exact ⟨hempty, hdot⟩
  exact ⟨node, Catalog.nodeFor_eq_ok hroot hsplit (hwalk []), hmem⟩

/-- The plain answer to a request is the failure for an issue that it comes to. -/
theorem Issue.Met.plainIn (h : issue.Met c params) (escape : EscapeSet) :
    c.plainIn escape issue.key issue.locale params = .error issue.failure := by
  obtain ⟨node, hnode, hmeets⟩ := h
  rw [Catalog.plainIn_eq_answer hnode]
  exact hmeets.answer issue.key issue.locale escape

/-- A plain answer that is a failure, but neither for the parameters nor for the key, is that for an
issue which the request comes to. -/
theorem exists_met_of_plainIn {escape : EscapeSet} {key locale : String} {f : Failure}
    (h : c.plainIn escape key locale params = .error f) (hlookup : f.isLookupFailure = false)
    (hparams : f.isParameterFailure = false) :
    ∃ defect, ⟨locale, key, defect⟩ ∈ check c ∧ Issue.Met c params ⟨locale, key, defect⟩ ∧
      f = Issue.failure ⟨locale, key, defect⟩ := by
  obtain ⟨root, segments, node, hroot, hsplit, hwalk⟩ := exists_walk_of_plainIn h hlookup
  have hnode := Catalog.nodeFor_eq_ok hroot hsplit hwalk
  rw [Catalog.plainIn_eq_answer hnode] at h
  obtain ⟨defect, hmeets, hfailure⟩ := exists_meets (Branch.isEntry_of_walk hwalk) h hparams
  have hissue := mem_check_of_walk hroot hsplit hwalk hmeets.mem_entryDefects
  exact ⟨defect, hissue, ⟨node, hnode, hmeets⟩, hfailure⟩

end Lint

/-- A failure that is not about the key is one under every policy. -/
theorem Policy.settle_of_isLookupFailure {f : Failure} (h : f.isLookupFailure = false)
    (policy : Policy) (key : String) : policy.settle key (.error f) = .error f := by
  simp [settle, h]

namespace Engine

variable {e : Engine} {key locale : String}

/-- A request without a fallback locale has the text of the node of its key. -/
theorem Reachable.resolve_eq_ok (h : e.Reachable) {node : Node} {params : Params} {text : String}
    (hnode : e.catalog.nodeFor key locale = .ok node)
    (hanswer : node.answer key locale e.config.escape params = .ok text) (strict : Bool) :
    (e.resolve key locale params ⟨strict, none⟩).1 = .ok text := by
  rw [h.resolve_eq_plainIn, Catalog.plainIn_eq_answer hnode, hanswer]
  rfl

end Engine

/-- A template without placeholders stands for its text. -/
theorem Template.substitute_of_read_literal {source text : String}
    (h : read source = .ok ⟨[.literal text]⟩) (params : Params) (escape : EscapeSet) :
    substitute source params escape = .ok text := by
  have hjoin : String.join [text] = text := by simp
  rw [substitute, h]
  exact congrArg Except.ok hjoin

namespace Session

/-- **Issues make requests fail where they are met.** After every run that installs no other trees
than those of nested values, each issue of the check is a defect of the entry that its key leads to.
A request for the key that comes to the defect fails for it, and every request comes to it if
nothing is tried before. A request that fails for another reason than its parameters or its key
comes to an issue of the key and fails for this one. So an issue that no request comes to makes none
fail, however bad it is said to be. -/
theorem issues_fail_where_met (config : Config) (route : Request → Nat) {ops : List Operation}
    (hops : ∀ op ∈ ops, op.Supplied) :
    let e := ((start config route).run ops).engine
    (∀ issue ∈ e.validate,
      (∃ node, e.catalog.nodeFor issue.key issue.locale = .ok node ∧
        issue.defect ∈ Lint.entryDefects node ∧
        (Lint.Defect.Foremost node issue.defect → ∀ params, issue.Met e.catalog params)) ∧
      ∀ params, issue.Met e.catalog params → ∀ strict,
        (e.resolve issue.key issue.locale params ⟨strict, none⟩).1 = .error issue.failure) ∧
    ∀ key locale params strict failure,
      (e.resolve key locale params ⟨strict, none⟩).1 = .error failure →
      failure.isLookupFailure = false → failure.isParameterFailure = false →
      ∃ issue ∈ e.validate, issue.key = key ∧ issue.locale = locale ∧
        issue.Met e.catalog params ∧ failure = issue.failure := by
  intro e
  have hreachable : e.Reachable := ⟨config, route, ops, rfl⟩
  have hbuilt : e.catalog.Built := built_run config route hops _ List.mem_cons_self
  have hordered : e.catalog.Ordered := ordered_run config route hops _ List.mem_cons_self
  constructor
  · intro issue hissue
    obtain ⟨node, hnode, hdefect⟩ := Lint.exists_node_of_mem_check hbuilt hordered hissue
    refine ⟨⟨node, hnode, hdefect, fun hforemost params => ?_⟩, fun params hmet strict => ?_⟩
    · exact ⟨node, hnode, Lint.meets_of_foremost hdefect hforemost params⟩
    · rw [hreachable.resolve_eq_plainIn, hmet.plainIn]
      exact Policy.settle_of_isLookupFailure (issue.defect.isLookupFailure_failure _ _) _ _
  · intro key locale params strict failure hfail hlookup hparams
    have hplain := hreachable.plainIn_eq_error hfail
    obtain ⟨defect, hissue, hmet, hfailure⟩ :=
      Lint.exists_met_of_plainIn hplain hlookup hparams
    exact ⟨_, hissue, rfl, rfl, hmet, hfailure⟩

/-- A conditional without arms that has a default, one with a broken arm after one that always
applies, and one with a broken arm after one that applies at times. -/
def alarmingLoads : List Operation :=
  [.load "en" (.mapping
    [("welcome", .mapping [("$conditional", .sequence []), ("$default", .string "Welcome")]),
      ("bye", .mapping
        [("$conditional", .mapping [("true", .string "Bye"), ("n >", .string "Never")])]),
      ("seats", .mapping
        [("$conditional", .mapping [("n = 1", .string "one"), ("n >", .string "more")])])])]

/-- The engine after that. -/
def alarmingEngine : Engine :=
  ((start {} fun _ => 0).run alarmingLoads).engine

/-- A request fails for a broken arm if the one before declines. -/
theorem issues_fail_where_met_seats :
    (∀ op ∈ alarmingLoads, op.Supplied) ∧
      (alarmingEngine.resolve "seats" "en" (.ofList [("n", .integer 2)]) ⟨true, none⟩).1 =
        .error (.conditionFault ⟨"n >", 3, .missingOperand⟩) ∧
      ∃ issue ∈ alarmingEngine.validate, issue.key = "seats" ∧ issue.locale = "en" ∧
        issue.Met alarmingEngine.catalog (.ofList [("n", .integer 2)]) ∧
        issue.failure = .conditionFault ⟨"n >", 3, .missingOperand⟩ := by
  have hops : ∀ op ∈ alarmingLoads, op.Supplied := List.forall_mem_singleton.mpr trivial
  have hfail : (alarmingEngine.resolve "seats" "en" (.ofList [("n", .integer 2)])
      ⟨true, none⟩).1 = .error (.conditionFault ⟨"n >", 3, .missingOperand⟩) := rfl
  obtain ⟨issue, hissue, hkey, hlocale, hmet, hfailure⟩ :=
    (issues_fail_where_met {} (fun _ => 0) hops).2 _ _ _ _ _ hfail rfl rfl
  exact ⟨hops, hfail, issue, hissue, hkey, hlocale, hmet, hfailure.symm⟩

/-- **Errors without failure.** The lack of arms counts as an error although the default is always
there, and so does the broken arm that stands after one which always applies. No request for either
entry fails. -/
theorem errors_without_failure :
    (∃ issue ∈ alarmingEngine.validate, issue.severity = .error ∧
      issue.key = "welcome" ∧ issue.locale = "en") ∧
    (∃ issue ∈ alarmingEngine.validate, issue.severity = .error ∧
      issue.key = "bye" ∧ issue.locale = "en") ∧
    ∀ params strict,
      (alarmingEngine.resolve "welcome" "en" params ⟨strict, none⟩).1 = .ok "Welcome" ∧
      (alarmingEngine.resolve "bye" "en" params ⟨strict, none⟩).1 = .ok "Bye" := by
  have hreachable : alarmingEngine.Reachable := ⟨{}, fun _ => 0, alarmingLoads, rfl⟩
  refine ⟨⟨⟨"en", "welcome", .noArms⟩, ?_, rfl, rfl, rfl⟩,
    ⟨⟨"en", "bye", .condition 1 ⟨"n >", 3, .missingOperand⟩⟩, ?_, rfl, rfl, rfl⟩, ?_⟩
  · decide +kernel
  · decide +kernel
  · intro params strict
    have hwelcome : Template.read "Welcome" = .ok ⟨[.literal "Welcome"]⟩ := by decide +kernel
    have hbye : Template.read "Bye" = .ok ⟨[.literal "Bye"]⟩ := by decide +kernel
    constructor
    · have hnode : alarmingEngine.catalog.nodeFor "welcome" "en" =
          .ok (.conditional ⟨[], some "Welcome"⟩) := rfl
      refine hreachable.resolve_eq_ok hnode ?_ strict
      rw [Lint.answer_of_choice_eq_some (Conditional.choice_of_declines (by simp) _)]
      exact Template.substitute_of_read_literal hwelcome params _
    · have hnode : alarmingEngine.catalog.nodeFor "bye" "en" =
          .ok (.conditional ⟨[⟨"true", "Bye"⟩, ⟨"n >", "Never"⟩], none⟩) := rfl
      have hchoice : (⟨[⟨"true", "Bye"⟩, ⟨"n >", "Never"⟩], none⟩ : Conditional).choice params =
          .ok (some "Bye") := rfl
      refine hreachable.resolve_eq_ok hnode ?_ strict
      rw [Lint.answer_of_choice_eq_some hchoice]
      exact Template.substitute_of_read_literal hbye params _

end Session

end Phrasebook
