import Phrasebook.Text.Bytes
import Phrasebook.Text.Name
import Phrasebook.Text.Blank

/-!
# Templates

A template is a text with placeholders. It is read piece by piece from the left: a doubled brace
stands for one brace, a name in braces is a placeholder, and every other character stands for
itself. A lone opening brace is text as well, as long as some closing brace follows it; without one
it is an unterminated placeholder, the only fault a template can have.
-/

namespace Phrasebook

open Text

/-- A part of a template. -/
inductive Segment where
  /-- Text that is shown as it is. -/
  | literal (text : String)
  /-- The place of a parameter. -/
  | placeholder (name : String)
  deriving DecidableEq, Repr

/-- A template as the list of its parts. -/
structure Template where
  /-- The parts from left to right. -/
  segments : List Segment
  deriving DecidableEq, Repr

namespace Template

/-- The names of the placeholders from left to right. -/
def placeholders (t : Template) : List String :=
  t.segments.filterMap fun
    | .placeholder name => some name
    | .literal _ => none

/-- What one step of reading yields. -/
inductive Piece where
  /-- One character of literal text. -/
  | char (c : Char)
  /-- A placeholder. -/
  | slot (name : List Char)
  deriving DecidableEq, Repr

/-- Reads the rest of a placeholder after its opening brace. -/
def takeSlot (cs : List Char) : Option (List Char × List Char) :=
  match takeName (skipAsciiBlanks cs) with
  | none => none
  | some (name, rest) =>
    match skipAsciiBlanks rest with
    | '}' :: rest => some (name, rest)
    | _ => none

/-- What follows a placeholder is shorter than the text after its opening brace. -/
theorem length_lt_of_takeSlot {cs name rest : List Char} (h : takeSlot cs = some (name, rest)) :
    rest.length < cs.length := by
  unfold takeSlot at h
  split at h
  · cases h
  · rename_i afterName hname
    split at h
    · rename_i afterBrace hbrace
      cases h
      have hblank := length_skipAsciiBlanks_le afterName
      rw [hbrace, List.length_cons] at hblank
      have := length_lt_of_takeName hname
      have := length_skipAsciiBlanks_le cs
      omega
    · cases h

/-- The pieces of a text from left to right. The failure is the text from the unterminated brace
on. Whether a closing brace follows is asked of the rest of the text; to compare with the position of
the last closing brace of the whole text, found beforehand, comes to the same
(`Template.close_follows_iff`). -/
def pieces : List Char → Except (List Char) (List Piece)
  | [] => .ok []
  | '{' :: '{' :: cs => (pieces cs).map (.char '{' :: ·)
  | '}' :: '}' :: cs => (pieces cs).map (.char '}' :: ·)
  | '{' :: cs =>
    -- Without a closing brace further on, this one opens a placeholder that never ends.
    match _hslot : takeSlot cs with
    | some (name, rest) => (pieces rest).map (.slot name :: ·)
    | none => if '}' ∈ cs then (pieces cs).map (.char '{' :: ·) else .error ('{' :: cs)
  | c :: cs => (pieces cs).map (.char c :: ·)
termination_by cs => cs.length
decreasing_by
  all_goals simp only [List.length_cons]
  · omega
  · omega
  · exact Nat.lt_succ_of_lt (length_lt_of_takeSlot _hslot)
  · omega
  · omega

/-- A run of characters, the last one first, as at most one literal. -/
def flush (run : List Char) : List Segment :=
  if run.isEmpty then [] else [.literal (String.ofList run.reverse)]

/-- Gathers pieces into parts, each run of characters into one literal. `run` holds the characters
since the last placeholder, the last one first. -/
def assemble : (run : List Char) → List Piece → List Segment
  | run, [] => flush run
  | run, .char c :: ps => assemble (c :: run) ps
  | run, .slot name :: ps => flush run ++ .placeholder (String.ofList name) :: assemble [] ps

/-- Reads a template. The failure is the byte position of the unterminated brace. -/
def read (source : String) : Except Nat Template :=
  match pieces source.toList with
  | .ok ps => .ok ⟨assemble [] ps⟩
  | .error rest => .error (offsetOf source.toList rest)

end Template

end Phrasebook
