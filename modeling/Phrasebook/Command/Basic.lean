import Phrasebook.Command.Option
import Phrasebook.Escape
import Phrasebook.Params
import Phrasebook.Number.Reading

/-!
# Commands

What a command line asks for: to resolve a key in catalog files, to check catalog files, or to list
the keys of one.
-/

namespace Phrasebook

open Number Text

namespace Command

/-- A catalog file, and the locale it is for if that is told. -/
structure CatalogFile where
  /-- The locale. -/
  locale : Option String
  /-- The path. -/
  path : String
  deriving DecidableEq, Repr

/-- What the command that resolves a key is told. -/
structure Resolving where
  /-- The catalog files, which are loaded one after the other. -/
  catalogs : List CatalogFile := []
  /-- The locale that is asked. -/
  locale : Option String := none
  /-- The key. -/
  key : Option String := none
  /-- The parameters. -/
  params : List (String × Value) := []
  /-- The locale that is asked if the first one has no answer. -/
  fallback : Option String := none
  /-- Whether the key itself is the answer where it is missing or invalid. -/
  lenient : Bool := false
  /-- How text parameters are escaped. -/
  escape : EscapeSet := .none
  /-- Whether the answer is JSON. -/
  json : Bool := false

/-- What the command that checks files is told. -/
structure Checking where
  /-- The files. -/
  files : List String := []
  /-- Whether the answer is JSON. -/
  json : Bool := false

/-- What the command that lists keys is told. -/
structure Listing where
  /-- The file. -/
  catalog : Option String := none
  /-- Whether the answer is JSON. -/
  json : Bool := false

end Command

/-- What a command line asks for. -/
inductive Command where
  /-- To resolve a key in a locale. -/
  | resolve (key locale : String) (settings : Command.Resolving)
  /-- To check files. -/
  | check (files : List String) (json : Bool)
  /-- To list the keys of a file. -/
  | keys (catalog : String) (json : Bool)

namespace Command

/-! ### Values of options -/

/-- A parameter is a truth value, an integer or a floating-point number if its text is one. -/
def parameterOf (text : String) : Value :=
  let cs := text.toList
  if text = "true" then .boolean true
  else if text = "false" then .boolean false
  else
    match readInt64 cs, readBinary64 cs with
    | some n, _ => .integer n
    | none, some x => .float x
    | none, none => .string text

/-- Reads a parameter: its name, an equals sign, and its value. -/
def readParameter (text : String) : Option (String × Value) :=
  (splitOnce '=' text.toList).map fun (name, value) =>
    (String.ofList name, parameterOf (String.ofList value))

/-- Reads a catalog file: its path, with the locale and an equals sign before it if that is told. -/
def readCatalogFile (text : String) : Option CatalogFile :=
  match splitOnce '=' text.toList with
  | some (locale, path) =>
    if locale = [] ∨ path = [] then none
    else some ⟨some (String.ofList locale), String.ofList path⟩
  | none => some ⟨none, text⟩

/-- Reads the name of a way of escaping. -/
def readEscape (text : String) : Option EscapeSet :=
  if text = "none" then some .none
  else if text = "html" then some .html
  else if text = "control" then some .control
  else none

/-- Reads a path, which is not empty. -/
def readPath (text : String) : Option String :=
  if text.isEmpty then none else some text

/-- Reads when reports are coloured. Reports here are plain. -/
def readColor (text : String) : Option Unit :=
  if text = "auto" ∨ text = "always" ∨ text = "never" then some () else none

/-! ### Options -/

/-- The options of every command. -/
def commonOptions (σ : Type) : List (Opt σ) :=
  [{ long := "color", meaning := .value fun text d => (readColor text).map fun _ => d },
   { long := "verbose", short := 'v', meaning := .switch id },
   { long := "help", short := 'h', meaning := .halt .help }]

/-- The options before the command. -/
def leadingOptions : List (Opt Unit) :=
  { long := "version", short := 'V', meaning := .halt .version } :: commonOptions Unit

/-- The options of the command that resolves a key. -/
def resolvingOptions : List (Opt Resolving) :=
  [{ long := "catalog", short := 'c', repeats := true
     meaning := .value fun text d =>
      (readCatalogFile text).map fun file => { d with catalogs := d.catalogs ++ [file] } },
   { long := "locale", short := 'l'
     meaning := .value fun text d => some { d with locale := text } },
   { long := "key", short := 'k'
     meaning := .value fun text d => some { d with key := text } },
   { long := "param", short := 'p', repeats := true
     meaning := .value fun text d =>
      (readParameter text).map fun p => { d with params := d.params ++ [p] } },
   { long := "fallback"
     meaning := .value fun text d => some { d with fallback := text } },
   { long := "lenient"
     meaning := .switch fun d => { d with lenient := true } },
   { long := "escape"
     meaning := .value fun text d => (readEscape text).map fun escape => { d with escape } },
   { long := "json"
     meaning := .switch fun d => { d with json := true } }]

/-- The options of the command that checks files. -/
def checkingOptions : List (Opt Checking) :=
  [{ long := "json", meaning := .switch fun d => { d with json := true } }]

/-- The options of the command that lists keys. -/
def listingOptions : List (Opt Listing) :=
  [{ long := "catalog", short := 'c'
     meaning := .value fun text d => (readPath text).map fun path => { d with catalog := path } },
   { long := "json", meaning := .switch fun d => { d with json := true } }]

/-! ### Reading -/

/-- Reads all arguments of a command into a draft. -/
def readDraft {σ : Type} (opts : List (Opt σ)) (set : String → σ → Option σ) (draft : σ)
    (arguments : List String) : Except Halt σ := do
  let (r, _) ← readArguments (opts ++ commonOptions σ) (.take set) arguments { draft }
  return (← r.settle).draft

/-- Refuses operands. -/
def noOperand {σ : Type} (_ : String) (_ : σ) : Option σ := none

/-- The locale that is asked if no option tells it. -/
def defaultLocale : String := "en"

/-- Reads the arguments of the command that resolves a key. A file and the key have to be told;
`environment` is the locale if none is told. -/
def readResolve (environment : Option String) (arguments : List String) : Except Halt Command := do
  let d ← readDraft resolvingOptions noOperand {} arguments
  match d.key with
  | some key =>
    if d.catalogs.isEmpty then .error .misuse
    else .ok (.resolve key ((d.locale <|> environment).getD defaultLocale) d)
  | none => .error .misuse

/-- Reads the arguments of the command that checks files, of which there is at least one. -/
def readCheck (arguments : List String) : Except Halt Command := do
  let addFile (text : String) (d : Checking) : Option Checking :=
    (readPath text).map fun path => { d with files := d.files ++ [path] }
  let d ← readDraft checkingOptions addFile {} arguments
  if d.files.isEmpty then .error .misuse else .ok (.check d.files d.json)

/-- Reads the arguments of the command that lists keys. The file has to be told. -/
def readKeys (arguments : List String) : Except Halt Command := do
  let d ← readDraft listingOptions noOperand {} arguments
  match d.catalog with
  | some path => .ok (.keys path d.json)
  | none => .error .misuse

/-- The names of commands that there is help for. -/
def helpTopics : List (List String) :=
  [[], ["resolve"], ["check"], ["keys"], ["help"]]

/-- Reads a command: its name and its arguments. -/
def readCommand (environment : Option String) : List String → Except Halt Command
  | "resolve" :: arguments => readResolve environment arguments
  | "check" :: arguments => readCheck arguments
  | "keys" :: arguments => readKeys arguments
  | "help" :: arguments => .error (if helpTopics.contains arguments then .help else .misuse)
  | _ => .error .misuse

/-- Reads a command line without the name of the program. -/
def read (environment : Option String) (arguments : List String) : Except Halt Command := do
  let (r, rest) ← readArguments leadingOptions .stop arguments { draft := () }
  let command ← readCommand environment rest
  let _ ← r.settle
  return command

/-- The paths of the files that a command needs. -/
def paths : Command → List String
  | .resolve _ _ settings => settings.catalogs.map CatalogFile.path
  | .check files _ => files
  | .keys catalog _ => [catalog]

end Command

end Phrasebook
