import Phrasebook.Command.Outcome
import Phrasebook.Json.Writer
import Phrasebook.Lint
import Phrasebook.Source.Load

/-!
# Checking files from the command line

Every file is loaded by itself, for the locale that its name without the extension tells, and
checked. A file that cannot be loaded is a finding like an issue of its entries, but a file whose
extension tells no format ends the command.
-/

namespace Phrasebook.Command

open Lint

/-- Something wrong with a file. -/
structure Finding where
  /-- The path of the file. -/
  file : String
  /-- The locale of the file. -/
  locale : String
  /-- The key of the entry, unless the file cannot be loaded. -/
  key : Option String
  /-- How bad it is. -/
  severity : Severity
  /-- The wording. -/
  message : String
  deriving DecidableEq, Repr

namespace Finding

/-- The finding as JSON. -/
def toJson (f : Finding) : Json :=
  .object
    [("file", .string f.file), ("locale", .string f.locale),
      ("key", (f.key.map Json.string).getD .null),
      ("severity", .string f.severity.word), ("message", .string f.message)]

/-- The finding on a line. -/
def line (f : Finding) : String :=
  let color : Color :=
    match f.severity with
    | .error => .red
    | .warning => .yellow
  bold color (f.severity.word ++ ":") ++ " " ++ f.file ++ ": " ++ f.message

end Finding

/-- The findings of a file for a locale. -/
def findingsOf (files : Files) (path locale : String) : List Finding :=
  match Nested.load files path >>= Nested.toTree with
  | .error failure => [⟨path, locale, none, .error, failure.message⟩]
  | .ok root =>
    (branchIssues locale [] root).map fun issue =>
      ⟨path, locale, some issue.key, issue.severity, issue.message⟩

/-- The locale of a file, if its extension tells a format. -/
def localeOf? (path : String) : Option String :=
  (Format.ofPath? path).bind fun _ => Path.stem? path

/-- The counts of findings below their list. -/
def summary (findings : List Finding) (count : Nat) : String :=
  toString (findings.countP (·.severity == .error)) ++ " error(s), " ++
    toString (findings.countP (·.severity == .warning)) ++ " warning(s) in " ++
    toString count ++ " file(s)"

/-- Checks files. -/
def checkFiles (files : Files) (paths : List String) (json : Bool) : Outcome :=
  match paths.find? fun path => (localeOf? path).isNone with
  | some path => .failure (LoadFailure.unsupported path).message
  | none =>
    let findings := paths.flatMap fun path => findingsOf files path ((localeOf? path).getD "")
    let status : Status := if findings.isEmpty then .done else .faulty
    if json then
      { status, output := linesOf [Json.write (.array (findings.map Finding.toJson))] }
    else if findings.isEmpty then
      { status, output := linesOf [bold .green "ok:" ++ " " ++ toString paths.length ++
          " file(s) checked"] }
    else
      { status, errors := linesOf (findings.map Finding.line ++ [summary findings paths.length]) }

end Phrasebook.Command
