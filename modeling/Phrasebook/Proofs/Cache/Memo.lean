import Phrasebook.Cache.Memo
import Phrasebook.Proofs.Cache.Contents

/-!
# Conditionals without a memo

The template of a conditional is described here without the memo: every condition is read anew.
`Conditional.choice` is that description, and `Memo.Faithful` says that the memo holds nothing but
what reading its texts yields. The module proves that a faithful memo stays faithful and never
changes an answer:

* `Memo.Faithful.compile`: a text reads the same through the memo;
* `Memo.Faithful.select`: a conditional chooses the same template through the memo.
-/

namespace Phrasebook

open Condition

/-- Whether an arm applies. -/
def Arm.verdict (arm : Arm) (params : Params) : Except Failure Bool :=
  match Condition.compile arm.condition with
  | .error fault => .error (.conditionFault fault)
  | .ok condition => condition.holds params

/-- The template of the first arm that applies; a failure of an arm before it stands. -/
def Arm.firstMatch (params : Params) : List Arm → Except Failure (Option String)
  | [] => .ok none
  | arm :: rest =>
    match arm.verdict params with
    | .error failure => .error failure
    | .ok true => .ok (some arm.template)
    | .ok false => firstMatch params rest

/-- The template of a conditional: that of the first arm that applies, else the default. -/
def Conditional.choice (c : Conditional) (params : Params) : Except Failure (Option String) :=
  match Arm.firstMatch params c.arms with
  | .error failure => .error failure
  | .ok none => .ok c.otherwise
  | .ok (some template) => .ok (some template)

/-! ### The first arm that applies -/

namespace Arm

variable {params : Params} {arms : List Arm}

/-- The template that is found belongs to an arm. -/
theorem exists_of_firstMatch_eq_some {template : String}
    (h : firstMatch params arms = .ok (some template)) :
    ∃ (i : Nat) (arm : Arm), arms[i]? = some arm ∧ arm.template = template := by
  induction arms with
  | nil => cases h
  | cons arm rest ih =>
    rw [firstMatch] at h
    split at h
    · cases h
    · cases h
      exact ⟨0, arm, rfl, rfl⟩
    · obtain ⟨i, found, hfound, htemplate⟩ := ih h
      exact ⟨i + 1, found, hfound, htemplate⟩

/-- A failure belongs to an arm. -/
theorem exists_of_firstMatch_eq_error {failure : Failure}
    (h : firstMatch params arms = .error failure) :
    ∃ (i : Nat) (arm : Arm), arms[i]? = some arm ∧ arm.verdict params = .error failure := by
  induction arms with
  | nil => cases h
  | cons arm rest ih =>
    rw [firstMatch] at h
    split at h
    · rename_i hverdict
      cases h
      exact ⟨0, arm, rfl, hverdict⟩
    · cases h
    · obtain ⟨i, found, hfound, hverdict⟩ := ih h
      exact ⟨i + 1, found, hfound, hverdict⟩

end Arm

namespace Memo

variable {m : Memo}

/-- Every remembered condition is what reading its text yields. -/
def Faithful (m : Memo) : Prop :=
  m.recent.Holds fun source found => Condition.compile source = .ok found.condition

/-- A new memo is faithful. -/
theorem faithful_ofCapacity (capacity : Nat) : (ofCapacity capacity).Faithful :=
  Recent.holds_of_entries_eq_nil rfl

/-- A memo that forgot everything is faithful. -/
theorem faithful_clear : m.clear.Faithful :=
  Recent.holds_clear

/-- Reading a text keeps a property of all entries that what it is read as has. -/
theorem holds_compile {P : String → Remembered → Prop} (h : m.recent.Holds P) {source : String}
    (hread : ∀ found : Remembered, Condition.compile source = .ok found.condition →
      P source found) : (m.compile source).2.recent.Holds P := by
  unfold Memo.compile
  have hkept := (h.get? source).2
  rcases hget : m.recent.get? source with ⟨_ | found, recent⟩ <;> rw [hget] at hkept
  · cases hcompile : Condition.compile source with
    | error fault => exact h
    | ok condition => exact h.insert (hread ⟨m.readings, condition⟩ hcompile)
  · exact hkept

/-- A faithful memo hands out what reading the text yields, and stays faithful. -/
theorem Faithful.compile (h : m.Faithful) (source : String) :
    (m.compile source).1.map Remembered.condition = Condition.compile source ∧
      (m.compile source).2.Faithful := by
  refine ⟨?_, holds_compile h fun _ hread => hread⟩
  unfold Memo.compile
  -- Only a text that was read is remembered, together with what it was read as.
  have hfound := (h.get? source).1
  rcases hget : m.recent.get? source with ⟨_ | found, recent⟩ <;> rw [hget] at hfound
  · cases Condition.compile source <;> rfl
  · exact (hfound found rfl).symm

/-- A faithful memo selects the arm that applies first, and stays faithful. -/
theorem Faithful.selectArm (h : m.Faithful) (params : Params) (arms : List Arm) :
    (m.selectArm params arms).1 = Arm.firstMatch params arms ∧
      (m.selectArm params arms).2.Faithful := by
  -- By induction on the arms; each one leaves a faithful memo to the next.
  induction arms generalizing m with
  | nil => exact ⟨rfl, h⟩
  | cons arm rest ih =>
    obtain ⟨hread, hkept⟩ := h.compile arm.condition
    rcases hcompile : m.compile arm.condition with ⟨fault | found, m'⟩ <;>
      rw [hcompile] at hread hkept <;>
      simp only [Memo.selectArm, Arm.firstMatch, Arm.verdict, hcompile, ← hread, Except.map]
    · exact ⟨trivial, hkept⟩
    · rcases found.condition.holds params with failure | _ | _
      · exact ⟨rfl, hkept⟩
      · exact ih hkept
      · exact ⟨rfl, hkept⟩

/-- A faithful memo leads to the template that the conditional chooses, and stays faithful. -/
theorem Faithful.select (h : m.Faithful) (c : Conditional) (params : Params) :
    (m.select c params).1 = c.choice params ∧ (m.select c params).2.Faithful := by
  obtain ⟨hfirst, hkept⟩ := h.selectArm params c.arms
  unfold Memo.select Conditional.choice
  rw [← hfirst]
  rcases hselect : m.selectArm params c.arms with ⟨failure | _ | template, m'⟩ <;>
    rw [hselect] at hkept <;> exact ⟨rfl, hkept⟩

end Memo

end Phrasebook
