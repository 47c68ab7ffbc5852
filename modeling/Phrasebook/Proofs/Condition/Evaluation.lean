import Phrasebook.Condition.Eval
import Phrasebook.Proofs.Condition.Writing

/-!
# Evaluating conditions that were read

Once a condition is read, only the parameters can make it fail: one may be missing, or its value may
not fit where it stands. A condition that is `true` with blanks around it never fails.

* `Compiled.ofEvaluation_of_holds`: how a condition can fail;
* `Compiled.holds_of_trim`: the condition `true` holds.
-/

namespace Phrasebook

/-- Whether a failure is about the parameters of a request. -/
def Failure.isParameterFailure : Failure → Bool
  | .unresolvedParameter _ => true
  | .typeMismatch _ _ => true
  | _ => false

/-- The failures of evaluations. -/
inductive Failure.OfEvaluation : Failure → Prop where
  /-- A parameter is not given. -/
  | unresolved (name : String) : OfEvaluation (.unresolvedParameter name)
  /-- A value is of a wrong kind where it stands. -/
  | unfit (role : Role) (kind : Value.Kind) : OfEvaluation (.typeMismatch role [kind])
  /-- Two values cannot be compared in this way. -/
  | incomparable (op : Condition.Comparator) (left right : Value.Kind) :
    OfEvaluation (.typeMismatch (.comparison op) [left, right])

/-- The failures of evaluations are about parameters. -/
theorem Failure.OfEvaluation.isParameterFailure {f : Failure} (h : f.OfEvaluation) :
    f.isParameterFailure = true := by
  cases h <;> rfl

namespace Condition

open Text

variable {params : Params} {f : Failure}

/-! ### Failures -/

/-- A value that does not meet a demand is of a wrong kind. -/
theorem ofEvaluation_of_meet {d : Demand} {v : Value} (h : d.meet v = .error f) :
    f.OfEvaluation := by
  cases d with
  | any => cases h
  | truth role flipped => cases v <;> cases h <;> exact .unfit role _

/-- Values that cannot be compared are of wrong kinds. -/
theorem ofEvaluation_of_comparator {op : Comparator} {v w : Value} (h : op.holds v w = .error f) :
    f.OfEvaluation := by
  rw [Comparator.holds.eq_def] at h
  split at h
  · cases h
  -- Truth values have no order, and values of two kinds are only compared if both are numbers.
  · split at h
    · cases h
    · cases h
    · cases h
      exact .incomparable op _ _
  · split at h
    · split at h <;> cases h
    · cases h
      exact .incomparable op _ _

mutual

/-- An expression fails for a missing parameter or values of wrong kinds. -/
theorem ofEvaluation_of_eval : ∀ {e : Expr} {d : Demand},
    eval params e d = .error f → f.OfEvaluation
  | .literal _, _, h => ofEvaluation_of_meet h
  | .param _, _, h => by
    rw [eval] at h
    split at h
    · exact ofEvaluation_of_meet h
    · cases h
      exact .unresolved _
  | .compare _ _ _, _, h => by
    -- An operand fails, the two cannot be compared, or the result is not what is asked for.
    rw [eval] at h
    split at h
    · rename_i hleft
      cases h
      exact ofEvaluation_of_eval hleft
    split at h
    · rename_i hright
      cases h
      exact ofEvaluation_of_eval hright
    split at h
    · rename_i hholds
      cases h
      exact ofEvaluation_of_comparator hholds
    · exact ofEvaluation_of_meet h
  | .connect _ _, _, h => by
    rw [eval] at h
    split at h
    · rename_i hoperands
      cases h
      exact ofEvaluation_of_evalOperands hoperands
    · exact ofEvaluation_of_meet h
  | .negate _, _, h => by
    rw [eval] at h
    exact ofEvaluation_of_eval h

/-- Operands fail for a missing parameter or values of wrong kinds. -/
theorem ofEvaluation_of_evalOperands : ∀ {es : List Expr} {op : Connective},
    evalOperands params op es = .error f → f.OfEvaluation
  | [], _, h => by cases h
  | _ :: _, _, h => by
    rw [evalOperands] at h
    split at h
    · rename_i hfirst
      cases h
      exact ofEvaluation_of_eval hfirst
    split at h
    · cases h
    · exact ofEvaluation_of_evalOperands h

end

/-- A condition that was read fails for a missing parameter or values of wrong kinds. -/
theorem Compiled.ofEvaluation_of_holds {c : Compiled} (h : c.holds params = .error f) :
    f.OfEvaluation := by
  rw [Compiled.holds] at h
  cases heval : eval params c.root (.truth .condition false) with
  | error f' =>
    rw [heval] at h
    cases h
    exact ofEvaluation_of_eval heval
  | ok v =>
    rw [heval] at h
    cases h

/-- A condition that was read fails only about the parameters of the request. -/
theorem Compiled.isParameterFailure_of_holds {c : Compiled} (h : c.holds params = .error f) :
    f.isParameterFailure = true :=
  (Compiled.ofEvaluation_of_holds h).isParameterFailure

/-! ### The condition that always holds -/

/-- A text is what is left of it without blanks at its ends, with blanks around it. -/
theorem exists_blanks_of_trim {s word : String} (h : trim s = word) :
    ∃ before after, (∀ c ∈ before, isBlank c = true) ∧ (∀ c ∈ after, isBlank c = true) ∧
      s.toList = before ++ (word.toList ++ after) := by
  obtain ⟨before, hbefore, hstart⟩ := exists_blanks s.toList
  obtain ⟨after, hafter, hend⟩ := exists_blanks (skipBlanks s.toList).reverse
  refine ⟨before, after.reverse, hbefore, fun c hc => hafter c (List.mem_reverse.mp hc), ?_⟩
  have hword : word.toList = (skipBlanks (skipBlanks s.toList).reverse).reverse := by
    rw [← h, trim, String.toList_ofList]
    rfl
  have hrest : skipBlanks s.toList = word.toList ++ after.reverse := by
    rw [hword, ← List.reverse_append, ← hend, List.reverse_reverse]
  rw [← hrest, ← hstart]

/-- Blanks end or go on with a blank. -/
theorem apart_of_isBlank {cs : List Char} (h : ∀ c ∈ cs, isBlank c = true) :
    Apart cs := by
  cases cs with
  | nil => exact stops_nil
  | cons c cs => exact stops_cons.mpr (by simp [h c List.mem_cons_self])

/-- The condition `true` holds, whatever the parameters. -/
theorem Compiled.holds_of_trim {source : String} (h : trim source = "true") {c : Compiled}
    (hc : compile source = .ok c) (params : Params) :
    c.holds params = .ok true := by
  obtain ⟨before, after, hbefore, hafter, hsource⟩ := exists_blanks_of_trim h
  have hspaced : Spaced [.literal (.boolean true)] source.toList := by
    rw [hsource]
    exact .cons hbefore (.word (by decide)) (apart_of_isBlank hafter) (.nil hafter)
  -- The only tree that the text can be read as is the literal.
  rw [compile] at hc
  split at hc
  · rename_i root hread
    cases hc
    have hbytes := (readAll_eq_ok_iff.mp hread).1
    rw [readAll_of_written (.atom rfl) hspaced hbytes] at hread
    cases hread
    rfl
  · cases hc

end Condition

end Phrasebook
