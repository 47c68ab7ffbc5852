import Phrasebook.Proofs.Cache.Selection
import Phrasebook.Proofs.Condition.Evaluation
import Phrasebook.Proofs.Engine.Plain
import Phrasebook.Proofs.Lint.Defects

/-!
# When an alarm comes true

The check reads the conditions and the templates of an entry one by one, and does not ask whether a
request ever comes to them. A request does for some parameters: to the condition of an arm where all
arms before it decline, to its template where it applies as well, and to the default where all arms
decline. Then the request fails for what the check has found, and unless its parameters are at fault
it fails for nothing else.

* `Lint.Meets`: the defects that a request comes to;
* `Lint.Meets.mem_entryDefects`: the check finds each of them;
* `Lint.Meets.answer`: the request fails for the defect that it meets;
* `Lint.exists_meets`: a failure that is not about parameters is that of a defect which was met;
* `Lint.meets_of_foremost`: every request meets a defect that nothing stands before.
-/

namespace Phrasebook

/-! ### The choice of a template -/

/-- Either all arms decline, or there is a first one that does not. -/
theorem Arm.declines_or_exists_first (params : Params) (arms : List Arm) :
    (∀ arm ∈ arms, arm.Declines params) ∨
      ∃ before arm after, arms = before ++ arm :: after ∧
        (∀ b ∈ before, b.Declines params) ∧ ¬ arm.Declines params := by
  induction arms with
  | nil => exact Or.inl (by simp)
  | cons arm rest ih =>
    by_cases hfirst : arm.Declines params
    · rcases ih with hrest | ⟨before, first, after, rfl, hbefore, hdecides⟩
      · exact Or.inl (List.forall_mem_cons.mpr ⟨hfirst, hrest⟩)
      · refine Or.inr ⟨arm :: before, first, after, rfl, ?_, hdecides⟩
        exact List.forall_mem_cons.mpr ⟨hfirst, hbefore⟩
    · exact Or.inr ⟨[], arm, rest, rfl, by simp, hfirst⟩

namespace Conditional

variable {params : Params} {arms before after : List Arm} {arm : Arm}

/-- Where all arms decline, the default is chosen. -/
theorem choice_of_declines (h : ∀ arm ∈ arms, arm.Declines params) (otherwise : Option String) :
    (⟨arms, otherwise⟩ : Conditional).choice params = .ok otherwise := by
  rw [choice, (Arm.firstMatch_of_declines h).1]

/-- The first arm that does not decline decides. -/
theorem choice_append_cons (hbefore : ∀ b ∈ before, b.Declines params)
    (harm : ¬ arm.Declines params) (after : List Arm) (otherwise : Option String) :
    (⟨before ++ arm :: after, otherwise⟩ : Conditional).choice params =
      (arm.verdict params).map fun _ => some arm.template := by
  rw [choice, (Arm.firstMatch_append_cons hbefore harm after).1]
  cases arm.verdict params <;> rfl

end Conditional

namespace Lint

open Condition

variable {params : Params} {node : Node} {defect : Defect} {key locale : String}
  {escape : EscapeSet}

/-! ### Meeting a defect -/

/-- What a request fails with that comes to a defect. -/
def Defect.failure (key locale : String) : Defect → Failure
  | .condition _ fault => .conditionFault fault
  | .template _ source offset => .malformedTemplate source offset
  | .noArms => .noMatchingArm key locale
  | .noDefault => .noMatchingArm key locale

/-- A request with these parameters comes to a defect of an entry. -/
inductive Meets (params : Params) : Node → Defect → Prop where
  /-- The only template of the entry cannot be read. -/
  | leaf {template : String} {offset : Nat} (hread : Template.read template = .error offset) :
      Meets params (.leaf template) (.template none template offset)
  /-- The arms before decline, and the condition of the next one cannot be read. -/
  | condition {before after : List Arm} {arm : Arm} {otherwise : Option String} {fault : Fault}
      (hbefore : ∀ b ∈ before, b.Declines params)
      (hcompile : compile arm.condition = .error fault) :
      Meets params (.conditional ⟨before ++ arm :: after, otherwise⟩)
        (.condition before.length fault)
  /-- The arms before decline and the next one applies, but its template cannot be read. -/
  | arm {before after : List Arm} {arm : Arm} {otherwise : Option String} {offset : Nat}
      (hbefore : ∀ b ∈ before, b.Declines params) (happlies : arm.verdict params = .ok true)
      (hread : Template.read arm.template = .error offset) :
      Meets params (.conditional ⟨before ++ arm :: after, otherwise⟩)
        (.template (some before.length) arm.template offset)
  /-- All arms decline, and the default cannot be read. -/
  | otherwise {arms : List Arm} {template : String} {offset : Nat}
      (hall : ∀ arm ∈ arms, arm.Declines params) (hread : Template.read template = .error offset) :
      Meets params (.conditional ⟨arms, some template⟩) (.template none template offset)
  /-- There are neither arms nor a default. -/
  | noArms : Meets params (.conditional ⟨[], none⟩) .noArms
  /-- There are arms, which all decline, and no default. -/
  | noDefault {arms : List Arm} (hne : arms ≠ []) (hall : ∀ arm ∈ arms, arm.Declines params) :
      Meets params (.conditional ⟨arms, none⟩) .noDefault

/-- An arm that is written so that it always applies does, if its condition can be read. -/
theorem endsInTrue_eq_false {arms : List Arm}
    (h : ∀ arm ∈ arms, arm.verdict params = .ok false) :
    endsInTrue arms = false := by
  rw [endsInTrue]
  split
  · rename_i arm hlast
    refine beq_eq_false_iff_ne.mpr fun htrim => ?_
    have hverdict := h arm (List.mem_of_getLast? hlast)
    rw [Arm.verdict] at hverdict
    split at hverdict
    · cases hverdict
    · rename_i condition hcompile
      rw [Compiled.holds_of_trim htrim hcompile] at hverdict
      cases hverdict
  · rfl

/-- The check finds every defect that a request can meet. -/
theorem Meets.mem_entryDefects (h : Meets params node defect) : defect ∈ entryDefects node := by
  have harm : ∀ (before after : List Arm) (arm : Arm),
      (before ++ arm :: after)[before.length]? = some arm := by simp
  cases h with
  | leaf hread => exact mem_templateDefects hread none
  | condition hbefore hcompile =>
    exact mem_conditionalDefects_iff.mpr (.condition (harm _ _ _) hcompile)
  | arm hbefore happlies hread =>
    exact mem_conditionalDefects_iff.mpr (.arm (harm _ _ _) hread)
  | otherwise hall hread => exact mem_conditionalDefects_iff.mpr (.otherwise rfl hread)
  | noArms => exact mem_conditionalDefects_iff.mpr (.noArms rfl)
  | noDefault hne hall =>
    -- The last arm was tried like all others, so it is not one that always applies.
    have hlast := endsInTrue_eq_false fun arm harm => Arm.declines_iff.mp (hall arm harm)
    exact mem_conditionalDefects_iff.mpr (.noDefault rfl hne hlast)

/-! ### Failing for a defect -/

/-- A template that cannot be read is not filled in. -/
theorem substitute_of_read_eq_error {template : String} {offset : Nat}
    (hread : Template.read template = .error offset) (params : Params) (escape : EscapeSet) :
    Template.substitute template params escape = .error (.malformedTemplate template offset) := by
  rw [Template.substitute, hread]

section Choice

variable {entry : Conditional}

/-- A conditional answers with the template that it chooses. -/
theorem answer_of_choice_eq_some {template : String}
    (h : entry.choice params = .ok (some template)) :
    (Node.conditional entry).answer key locale escape params =
      Template.substitute template params escape := by
  rw [Node.answer, Node.templateFor, h]
  rfl

/-- A conditional that chooses no template has no answer. -/
theorem answer_of_choice_eq_none (h : entry.choice params = .ok none) :
    (Node.conditional entry).answer key locale escape params =
      .error (.noMatchingArm key locale) := by
  rw [Node.answer, Node.templateFor, h]
  rfl

/-- A conditional fails where the choice of a template does. -/
theorem answer_of_choice_eq_error {f : Failure} (h : entry.choice params = .error f) :
    (Node.conditional entry).answer key locale escape params = .error f := by
  rw [Node.answer, Node.templateFor, h]
  rfl

end Choice

/-- A request that meets a defect fails for it. -/
theorem Meets.answer (h : Meets params node defect) (key locale : String) (escape : EscapeSet) :
    node.answer key locale escape params = .error (defect.failure key locale) := by
  cases h with
  | leaf hread => exact substitute_of_read_eq_error hread params escape
  | @condition before after arm otherwise fault hbefore hcompile =>
    have hverdict : arm.verdict params = .error (.conditionFault fault) := by
      rw [Arm.verdict, hcompile]
    have hdecides : ¬ arm.Declines params := by simp [Arm.declines_iff, hverdict]
    have hchoice := Conditional.choice_append_cons hbefore hdecides after otherwise
    rw [hverdict] at hchoice
    exact answer_of_choice_eq_error hchoice
  | @arm before after arm otherwise offset hbefore happlies hread =>
    have hdecides : ¬ arm.Declines params := by simp [Arm.declines_iff, happlies]
    have hchoice := Conditional.choice_append_cons hbefore hdecides after otherwise
    rw [happlies] at hchoice
    rw [answer_of_choice_eq_some hchoice]
    exact substitute_of_read_eq_error hread params escape
  | @otherwise arms template offset hall hread =>
    rw [answer_of_choice_eq_some (Conditional.choice_of_declines hall _)]
    exact substitute_of_read_eq_error hread params escape
  | noArms => exact answer_of_choice_eq_none (Conditional.choice_of_declines (by simp) none)
  | noDefault hne hall => exact answer_of_choice_eq_none (Conditional.choice_of_declines hall none)

/-- Where filling in parts fails, one of them fails. -/
theorem exists_of_mapM_eq_error {segments : List Segment} {render : Segment → Except Failure String}
    {f : Failure} (h : segments.mapM render = .error f) :
    ∃ segment ∈ segments, render segment = .error f := by
  induction segments with
  | nil => cases h
  | cons segment rest ih =>
    rw [List.mapM_cons] at h
    cases hfirst : render segment with
    | error first =>
      rw [hfirst] at h
      cases h
      exact ⟨segment, List.mem_cons_self, hfirst⟩
    | ok text =>
      rw [hfirst] at h
      cases hmore : rest.mapM render with
      | error more =>
        rw [hmore] at h
        cases h
        obtain ⟨found, hmem, hfound⟩ := ih hmore
        exact ⟨found, List.mem_cons_of_mem segment hmem, hfound⟩
      | ok texts =>
        rw [hmore] at h
        cases h

/-- A template fails for a missing parameter, unless it cannot be read. -/
theorem substitute_eq_error {template : String} {params : Params} {set : EscapeSet} {f : Failure}
    (h : Template.substitute template params set = .error f) :
    (∃ offset, Template.read template = .error offset ∧
      f = .malformedTemplate template offset) ∨ f.isParameterFailure = true := by
  rw [Template.substitute] at h
  split at h
  · rename_i offset hread
    cases h
    exact Or.inl ⟨offset, hread, rfl⟩
  · rename_i t hread
    right
    -- A template that was read is filled in part by part, and only a placeholder can fail.
    rw [Template.render] at h
    cases htexts : t.segments.mapM (Template.renderSegment params set) with
    | error f' =>
      rw [htexts] at h
      cases h
      obtain ⟨segment, -, hsegment⟩ := exists_of_mapM_eq_error htexts
      rw [Template.renderSegment.eq_def] at hsegment
      split at hsegment
      · cases hsegment
      · split at hsegment <;> cases hsegment
        rfl
    | ok texts =>
      rw [htexts] at h
      cases h

/-- A template that is filled in without success cannot be read, unless parameters are at fault. -/
theorem exists_offset_of_substitute {template : String} {f : Failure}
    (h : Template.substitute template params escape = .error f)
    (hparams : f.isParameterFailure = false) :
    ∃ offset, Template.read template = .error offset ∧ f = .malformedTemplate template offset := by
  rcases substitute_eq_error h with hmalformed | habout
  · exact hmalformed
  · rw [hparams] at habout
    cases habout

/-- An arm fails for its condition, unless parameters are at fault. -/
theorem exists_fault_of_verdict {arm : Arm} {f : Failure} (h : arm.verdict params = .error f)
    (hparams : f.isParameterFailure = false) :
    ∃ fault, compile arm.condition = .error fault ∧ f = .conditionFault fault := by
  rw [Arm.verdict] at h
  split at h
  · rename_i fault hcompile
    cases h
    exact ⟨fault, hcompile, rfl⟩
  · rw [Compiled.isParameterFailure_of_holds h] at hparams
    cases hparams

/-- A request for an entry that fails, and not for its parameters, meets a defect and fails for
it. -/
theorem exists_meets (hentry : node.isEntry = true) {f : Failure}
    (h : node.answer key locale escape params = .error f)
    (hparams : f.isParameterFailure = false) :
    ∃ defect, Meets params node defect ∧ f = defect.failure key locale := by
  cases node with
  | branch children => cases hentry
  | leaf template =>
    obtain ⟨offset, hread, rfl⟩ := exists_offset_of_substitute h hparams
    exact ⟨_, .leaf hread, rfl⟩
  | conditional entry =>
    obtain ⟨arms, otherwise⟩ := entry
    rcases Arm.declines_or_exists_first params arms with
      hall | ⟨before, arm, after, rfl, hbefore, hdecides⟩
    · have hchoice := Conditional.choice_of_declines hall otherwise
      cases otherwise with
      | some template =>
        rw [answer_of_choice_eq_some hchoice] at h
        obtain ⟨offset, hread, rfl⟩ := exists_offset_of_substitute h hparams
        exact ⟨_, .otherwise hall hread, rfl⟩
      | none =>
        rw [answer_of_choice_eq_none hchoice] at h
        cases h
        cases arms with
        | nil => exact ⟨_, .noArms, rfl⟩
        | cons first rest => exact ⟨_, .noDefault (by simp) hall, rfl⟩
    · -- The first arm that does not decline applies or fails.
      have hchoice := Conditional.choice_append_cons hbefore hdecides after otherwise
      rcases hverdict : arm.verdict params with failure | _ | _
      · rw [hverdict] at hchoice
        rw [answer_of_choice_eq_error hchoice] at h
        cases h
        obtain ⟨fault, hcompile, rfl⟩ := exists_fault_of_verdict hverdict hparams
        exact ⟨_, .condition hbefore hcompile, rfl⟩
      · exact absurd (Arm.declines_iff.mpr hverdict) hdecides
      · rw [hverdict] at hchoice
        rw [answer_of_choice_eq_some hchoice] at h
        obtain ⟨offset, hread, rfl⟩ := exists_offset_of_substitute h hparams
        exact ⟨_, .arm hbefore hverdict hread, rfl⟩

/-! ### Defects that every request meets -/

/-- Whether every request for an entry comes to a defect, as nothing is tried before: the only
template is at fault, or the condition of the first arm, or there are neither arms nor a default. -/
def Defect.Foremost : Node → Defect → Prop
  | .leaf _, _ => True
  | .conditional _, .condition arm _ => arm = 0
  | .conditional entry, .noArms => entry.otherwise = none
  | _, _ => False

/-- Every request for the entry meets such a defect. -/
theorem meets_of_foremost (hmem : defect ∈ entryDefects node)
    (hforemost : Defect.Foremost node defect) (params : Params) : Meets params node defect := by
  cases node with
  | branch children => cases hmem
  | leaf template =>
    obtain ⟨offset, hread, rfl⟩ := mem_templateDefects_iff.mp hmem
    exact .leaf hread
  | conditional entry =>
    obtain ⟨arms, otherwise⟩ := entry
    cases mem_conditionalDefects_iff.mp hmem with
    | @condition i arm fault harm hcompile =>
      have hfirst : i = 0 := hforemost
      subst hfirst
      cases arms with
      | nil => cases harm
      | cons first rest =>
        cases harm
        have hbefore : ∀ arm ∈ ([] : List Arm), arm.Declines params := by simp
        have hmeets : Meets params (.conditional ⟨[] ++ arm :: rest, otherwise⟩)
            (.condition ([] : List Arm).length fault) := .condition hbefore hcompile
        exact hmeets
    | noArms hnone =>
      have hotherwise : otherwise = none := hforemost
      cases hnone
      cases hotherwise
      exact .noArms
    | arm harm hread => cases hforemost
    | otherwise hdefault hread => cases hforemost
    | noDefault hnone hne hlast => cases hforemost

end Lint

end Phrasebook
