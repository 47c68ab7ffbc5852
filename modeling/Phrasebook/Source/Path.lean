import Phrasebook.Text.Split

/-!
# Paths

Paths are names between slashes. Empty names and single dots mean nothing; the last of the remaining
names is that of the file, unless it is a double dot. The extension of a file is what follows the
last dot of its name, if something stands before that dot.
-/

namespace Phrasebook.Path

open Text

/-- The names of a path that mean something. -/
def names (path : String) : List (List Char) :=
  (splitAt '/' path.toList).filter fun name => name != [] && name != ['.']

/-- The name of the file that a path leads to. -/
def fileName? (path : String) : Option (List Char) :=
  match (names path).getLast? with
  | some name => if name = ['.', '.'] then none else some name
  | none => none

/-- Splits a file name at its last dot, if something stands before it. -/
def splitExtension (name : List Char) : List Char × Option (List Char) :=
  let extension := (name.reverse.takeWhile (· != '.')).reverse
  let stem := name.take (name.length - extension.length - 1)
  if stem.isEmpty then (name, none) else (stem, some extension)

/-- The extension of the file that a path leads to. -/
def extension? (path : String) : Option String :=
  match fileName? path with
  | some name => (splitExtension name).2.map String.ofList
  | none => none

/-- The name of the file that a path leads to, without its extension. -/
def stem? (path : String) : Option String :=
  (fileName? path).map fun name => String.ofList (splitExtension name).1

end Phrasebook.Path
