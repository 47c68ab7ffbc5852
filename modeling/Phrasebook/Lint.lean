import Phrasebook.Catalog
import Phrasebook.Condition.Reader
import Phrasebook.Template.Basic

/-!
# Checking catalogs ahead of use

Conditions and templates are read when an entry is asked for. The check reads all of them at once
and lists what is wrong with every entry, locale by locale, in the order of the document.
-/

namespace Phrasebook.Lint

open Condition

/-- How bad an issue is. -/
inductive Severity where
  /-- The entry may fail for some parameters. -/
  | warning
  /-- The entry is broken. -/
  | error
  deriving DecidableEq, Repr

/-- The word for a severity. -/
def Severity.word : Severity → String
  | .warning => "warning"
  | .error => "error"

/-- What can be wrong with an entry. -/
inductive Defect where
  /-- The condition of an arm cannot be read. -/
  | condition (arm : Nat) (fault : Condition.Fault)
  /-- A template has an unterminated placeholder. It belongs to an arm, or it is the only template
  or the default of its entry. -/
  | template (arm : Option Nat) (template : String) (offset : Nat)
  /-- A conditional has no arms. -/
  | noArms
  /-- A conditional has no default, and its last arm does not always apply. -/
  | noDefault
  deriving DecidableEq, Repr

namespace Defect

/-- Only a missing default leaves the entry usable. -/
def severity : Defect → Severity
  | .noDefault => .warning
  | _ => .error

/-- The wording of a defect. -/
def message : Defect → String
  | .condition arm fault => "arm " ++ toString arm ++ ": " ++ fault.message
  | .template (some arm) _ offset =>
    "arm " ++ toString arm ++ ": unterminated placeholder at byte " ++ toString offset
  | .template none _ offset => "unterminated placeholder at byte " ++ toString offset
  | .noArms => "conditional has no arms"
  | .noDefault => "conditional has no default and its last arm is not 'true'"

end Defect

/-- A defect with the locale and the key of its entry. -/
structure Issue where
  /-- The locale. -/
  locale : String
  /-- The key. -/
  key : String
  /-- What is wrong. -/
  defect : Defect
  deriving DecidableEq, Repr

/-- How bad an issue is. -/
def Issue.severity (i : Issue) : Severity :=
  i.defect.severity

/-- The wording of an issue. -/
def Issue.message (i : Issue) : String :=
  i.locale ++ ": '" ++ i.key ++ "': " ++ i.defect.message

/-- The defects of a template. -/
def templateDefects (arm : Option Nat) (template : String) : List Defect :=
  match Template.read template with
  | .ok _ => []
  | .error offset => [.template arm template offset]

/-- The defects of the condition of an arm. -/
def conditionDefects (arm : Nat) (condition : String) : List Defect :=
  match compile condition with
  | .ok _ => []
  | .error fault => [.condition arm fault]

/-- The defects of arms from position `arm` on. -/
def armDefects (arm : Nat) : List Arm → List Defect
  | [] => []
  | a :: rest =>
    conditionDefects arm a.condition ++ templateDefects (some arm) a.template ++
      armDefects (arm + 1) rest

/-- Whether the last arm is written so that it always applies. -/
def endsInTrue (arms : List Arm) : Bool :=
  match arms.getLast? with
  | some arm => Text.trim arm.condition == "true"
  | none => false

/-- The defects of the end of a conditional. -/
def defaultDefects (c : Conditional) : List Defect :=
  match c.otherwise with
  | some template => templateDefects none template
  | none => if c.arms.isEmpty || endsInTrue c.arms then [] else [.noDefault]

/-- The defects of a conditional. -/
def conditionalDefects (c : Conditional) : List Defect :=
  (if c.arms.isEmpty then [.noArms] else []) ++ armDefects 0 c.arms ++ defaultDefects c

mutual

/-- The issues of the node at a path. -/
def nodeIssues (locale : String) (path : List String) : Node → List Issue
  | .branch children => branchIssues locale path children
  | .leaf template => (templateDefects none template).map (⟨locale, Key.join path, ·⟩)
  | .conditional c => (conditionalDefects c).map (⟨locale, Key.join path, ·⟩)

/-- The issues of the group at a path. -/
def branchIssues (locale : String) (path : List String) : List (String × Node) → List Issue
  | [] => []
  | (segment, node) :: rest =>
    nodeIssues locale (path ++ [segment]) node ++ branchIssues locale path rest

end

/-- The issues of all entries of a catalog. -/
def check (c : Catalog) : List Issue :=
  c.locales.entries.flatMap fun (locale, root) => branchIssues locale [] root

end Phrasebook.Lint
