import Phrasebook.Source.Format
import Phrasebook.Tree.Build

/-!
# Loading catalog files

A file is read in the format that its extension tells, then as a nested value, then as an entry
tree. Each step has its own failure.
-/

namespace Phrasebook

/-- Why a file has no text. -/
inductive FileFault where
  /-- There is no such file. -/
  | notFound
  /-- The bytes of the file are not UTF-8. -/
  | notText
  deriving DecidableEq, Repr

/-- The wording of a fault. -/
def FileFault.message : FileFault → String
  | .notFound => "no such file"
  | .notText => "the content is not UTF-8"

/-- The files at hand: the bytes at a path, if there is a file. -/
abbrev Files := String → Option ByteArray

/-- The text of a file. -/
def Files.text (files : Files) (path : String) : Except FileFault String :=
  match files path with
  | none => .error .notFound
  | some bytes =>
    match String.fromUTF8? bytes with
    | some text => .ok text
    | none => .error .notText

/-- Why a catalog was not loaded. -/
inductive LoadFailure where
  /-- The file cannot be read. -/
  | unreadable (path : String) (fault : FileFault)
  /-- The text does not follow its format. -/
  | unparsable (path : String)
  /-- The extension tells no format. -/
  | unsupported (path : String)
  /-- The nested value is no entry tree. -/
  | misshapen (fault : StructureFault)
  /-- The locale was not loaded from a file. -/
  | notFromFile (locale : String)
  deriving DecidableEq, Repr

/-- The wording of a failure. -/
def LoadFailure.message : LoadFailure → String
  | .unreadable path fault => "failed to read '" ++ path ++ "': " ++ fault.message
  | .unparsable path => "failed to parse '" ++ path ++ "'"
  | .unsupported path =>
    "unsupported catalog format '" ++ path ++ "': expected .json, .yaml, .yml or .toml"
  | .misshapen fault =>
    "invalid catalog structure at '" ++ fault.place ++ "': " ++ fault.problem.message
  | .notFromFile locale => "cannot reload '" ++ locale ++ "': was not loaded from a file"

namespace Nested

/-- Reads a text in a format; `origin` names the text in a failure. -/
def parse (format : Format) (text origin : String) : Except LoadFailure Nested :=
  match format.parse? text with
  | some value => .ok value
  | none => .error (.unparsable origin)

/-- Reads a file in the format that its extension tells. -/
def load (files : Files) (path : String) : Except LoadFailure Nested :=
  match Format.ofPath? path with
  | none => .error (.unsupported path)
  | some format =>
    match files.text path with
    | .error fault => .error (.unreadable path fault)
    | .ok text => parse format text path

/-- Reads a nested value as an entry tree. -/
def toTree (value : Nested) : Except LoadFailure Branch :=
  match Tree.build value with
  | .ok root => .ok root
  | .error fault => .error (.misshapen fault)

end Nested

end Phrasebook
