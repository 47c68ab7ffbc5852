/-!
# Outcomes of commands

A command ends with a status and leaves text on its output and among its errors.
-/

namespace Phrasebook.Command

/-- How a command ends. -/
inductive Status where
  /-- It did what it was asked for. -/
  | done
  /-- It was asked wrongly. -/
  | misuse
  /-- It found something wrong in its data. -/
  | faulty
  /-- It could not do its work. -/
  | failed
  deriving DecidableEq, Repr

/-- The exit code of a status. -/
def Status.code : Status → Nat
  | .done => 0
  | .misuse => 2
  | .faulty => 65
  | .failed => 70

/-- What a command leaves behind. -/
structure Outcome where
  /-- How it ended. -/
  status : Status
  /-- The text on its output. -/
  output : String := ""
  /-- The text among its errors. -/
  errors : String := ""
  deriving DecidableEq, Repr

/-- Lines of text. -/
def linesOf (lines : List String) : String :=
  String.join (lines.map (· ++ "\n"))

/-- The outcome of a command that could not do its work. -/
def Outcome.failure (message : String) : Outcome :=
  { status := .failed, errors := linesOf ["Error: " ++ message] }

/-- A colour of letters on a terminal. -/
inductive Color where
  | red
  | green
  | yellow

/-- The number of a colour in control sequences. -/
def Color.number : Color → Nat
  | .red => 31
  | .green => 32
  | .yellow => 33

/-- A control sequence of a terminal. -/
def control (n : Nat) : String :=
  "\x1b[" ++ toString n ++ "m"

/-- A text in bold letters of a colour. -/
def bold (color : Color) (text : String) : String :=
  control 1 ++ control color.number ++ text ++ control 39 ++ control 0

end Phrasebook.Command
