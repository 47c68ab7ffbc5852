import Phrasebook.Text.Split

/-!
# Keys

A key is the path of an entry: the segments from the root down, with dots between them. No segment
is empty.
-/

namespace Phrasebook.Key

open Text

/-- Why a text is not a key. -/
inductive Fault where
  /-- The text is empty. -/
  | empty
  /-- The segment at this position is empty. -/
  | emptySegment (position : Nat)
  deriving DecidableEq, Repr

/-- The wording of a fault. -/
def Fault.message : Fault → String
  | .empty => "key is empty"
  | .emptySegment position => "segment " ++ toString position ++ " is empty"

/-- The parts of a text between its dots. -/
def parts (key : String) : List String :=
  (splitAt '.' key.toList).map String.ofList

/-- The key with these segments. -/
def join (segments : List String) : String :=
  ".".intercalate segments

/-- The segments of a key. -/
def split (key : String) : Except Fault (List String) :=
  if key.isEmpty then .error .empty
  else
    match (parts key).findIdx? String.isEmpty with
    | some position => .error (.emptySegment position)
    | none => .ok (parts key)

end Phrasebook.Key
