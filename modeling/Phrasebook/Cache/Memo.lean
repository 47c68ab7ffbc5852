import Phrasebook.Cache.Recent
import Phrasebook.Condition.Eval
import Phrasebook.Condition.Reader
import Phrasebook.Tree.Basic

/-!
# The memo of conditions

Conditions that were read successfully are remembered under their exact text, the most recently used
ones only. Without capacity nothing is remembered. What the memo holds never changes an answer, only
how often a text is read again.
-/

namespace Phrasebook

open Condition

/-- A condition as the memo hands it out. Copies of one reading share its number. -/
structure Remembered where
  /-- The number of the reading. -/
  serial : Nat
  /-- The condition. -/
  condition : Compiled

/-- The conditions read most recently. -/
structure Memo where
  /-- The remembered conditions by their texts. -/
  recent : Recent String Remembered
  /-- How many texts were read successfully. -/
  readings : Nat := 0

namespace Memo

/-- The memo that remembers up to `capacity` conditions. -/
def ofCapacity (capacity : Nat) : Memo :=
  { recent := { capacity } }

/-- The condition of a text, from the memo or read anew. Texts that cannot be read are not
remembered. -/
def compile (m : Memo) (source : String) : Except Fault Remembered × Memo :=
  match m.recent.get? source with
  | (some found, recent) => (.ok found, { m with recent })
  | (none, _) =>
    match Condition.compile source with
    | .error fault => (.error fault, m)
    | .ok condition =>
      let fresh : Remembered := ⟨m.readings, condition⟩
      (.ok fresh, { recent := m.recent.insert source fresh, readings := m.readings + 1 })

/-- Forgets all conditions. -/
def clear (m : Memo) : Memo :=
  { m with recent := m.recent.clear }

/-- The number of remembered conditions. -/
def size (m : Memo) : Nat :=
  m.recent.size

/-- The template of the first arm that applies. Later arms are neither read nor evaluated. -/
def selectArm (m : Memo) (params : Params) :
    List Arm → Except Failure (Option String) × Memo
  | [] => (.ok none, m)
  | arm :: rest =>
    match m.compile arm.condition with
    | (.error fault, m) => (.error (.conditionFault fault), m)
    | (.ok found, m) =>
      match found.condition.holds params with
      | .error failure => (.error failure, m)
      | .ok true => (.ok (some arm.template), m)
      | .ok false => selectArm m params rest

/-- The template of a conditional: that of the first arm that applies, else the default. -/
def select (m : Memo) (c : Conditional) (params : Params) :
    Except Failure (Option String) × Memo :=
  match m.selectArm params c.arms with
  | (.ok none, m) => (.ok c.otherwise, m)
  | result => result

end Memo

end Phrasebook
