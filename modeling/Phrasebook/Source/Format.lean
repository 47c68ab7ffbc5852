import Phrasebook.Json.Reader
import Phrasebook.Source.Path
import Phrasebook.Toml.Document
import Phrasebook.Yaml.Document

/-!
# Formats of catalog files

A catalog file is written in one of three formats, which its extension tells, in letters of either
case.
-/

namespace Phrasebook

/-- A format of catalog files. -/
inductive Format where
  | json
  | yaml
  | toml
  deriving DecidableEq, Repr

namespace Format

/-- The format that the extension of a path tells. -/
def ofPath? (path : String) : Option Format :=
  match (Path.extension? path).map fun e => e.toList.map Char.toLower with
  | some ['j', 's', 'o', 'n'] => some .json
  | some ['y', 'a', 'm', 'l'] => some .yaml
  | some ['y', 'm', 'l'] => some .yaml
  | some ['t', 'o', 'm', 'l'] => some .toml
  | _ => none

/-- The nested value that a text holds. -/
def parse? : Format → String → Option Nested
  | .json, text => (Json.read text).map Nested.ofJson
  | .yaml, text => Yaml.read text
  | .toml, text => Toml.read text

end Format

end Phrasebook
