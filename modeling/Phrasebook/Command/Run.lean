import Phrasebook.Command.Check
import Phrasebook.Command.Keys
import Phrasebook.Command.Resolve

/-!
# Running a command line

The outcome of a command line is a function of its arguments, the locale of the environment, and the
files at hand.
-/

namespace Phrasebook.Command

/-- How the program is used. -/
def usageText : String :=
  linesOf
    ["Usage: phrasebook [--color WHEN] [-v] COMMAND",
      "  resolve -c [LOCALE=]FILE ... -k KEY [-l LOCALE] [-p NAME=VALUE ...]",
      "          [--fallback LOCALE] [--lenient] [--escape none|html|control] [--json]",
      "  check FILE ... [--json]",
      "  keys -c FILE [--json]",
      "  help [COMMAND]"]

/-- The version of the program. -/
def versionText : String := "0.1.0"

/-- The outcome where no work is asked for. -/
def Halt.outcome : Halt → Outcome
  | .help => { status := .done, output := usageText }
  | .version => { status := .done, output := linesOf ["phrasebook " ++ versionText] }
  | .misuse => { status := .misuse, errors := usageText }

/-- The outcome of a command. -/
def outcome (files : Files) : Command → Outcome
  | .resolve key locale settings => resolveKey files key locale settings
  | .check paths json => checkFiles files paths json
  | .keys path json => keysOfFile files path json

/-- The outcome of a command line without the name of the program. -/
def run (files : Files) (environment : Option String) (arguments : List String) : Outcome :=
  match Command.read environment arguments with
  | .error halt => halt.outcome
  | .ok command => command.outcome files

end Phrasebook.Command
