import Phrasebook.Command.Basic
import Phrasebook.Command.Outcome
import Phrasebook.Engine.Basic
import Phrasebook.Json.Writer

/-!
# Resolving a key from the command line

The catalog files are loaded in the order of the command line, each for its own locale or for the
one that is asked, then the key is resolved. The answer goes to the output, a failure to the errors.
-/

namespace Phrasebook.Command

/-- Loads catalog files one after the other. -/
def loadCatalogs (files : Files) (locale : String) (e : Engine) :
    List CatalogFile → Except LoadFailure Engine
  | [] => .ok e
  | file :: rest =>
    match e.loadFile files (file.locale.getD locale) file.path with
    | (.ok _, e) => loadCatalogs files locale e rest
    | (.error failure, _) => .error failure

/-- The output for an answer. -/
def answerOutput (json : Bool) (key locale text : String) : String :=
  if json then
    Json.write <| .object
      [("key", .string key), ("locale", .string locale), ("result", .string text)]
  else text

/-- The outcome of a failure. A condition that cannot be read keeps the command from its work,
unless the answer is JSON. -/
def failureOutcome (json : Bool) (failure : Failure) : Outcome :=
  if json then
    let report := Json.write (.object [("error", .string failure.message)])
    { status := .faulty, errors := linesOf [report] }
  else
    match failure with
    | .conditionFault fault => .failure fault.message
    | failure => { status := .faulty, errors := linesOf ["Resolution error: " ++ failure.message] }

/-- Resolves a key. -/
def resolveKey (files : Files) (key locale : String) (settings : Resolving) : Outcome :=
  let config : Config := { defaultLocale := locale, escape := settings.escape }
  match loadCatalogs files locale (.new config fun _ => 0) settings.catalogs with
  | .error failure => .failure ("failed to load a catalog: " ++ failure.message)
  | .ok e =>
    let policy : Policy := { strict := !settings.lenient, fallback := settings.fallback }
    match (e.resolve key locale (.ofPairs settings.params) policy).1 with
    | .ok text =>
      { status := .done, output := linesOf [answerOutput settings.json key locale text] }
    | .error failure => failureOutcome settings.json failure

end Phrasebook.Command
