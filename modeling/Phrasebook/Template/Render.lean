import Phrasebook.Escape
import Phrasebook.Failure
import Phrasebook.Params
import Phrasebook.Template.Basic

/-!
# Rendering templates

Every placeholder is replaced by the text of its parameter. Only text parameters are escaped; the
literal parts of a template are trusted.
-/

namespace Phrasebook

/-- The text of a parameter under an escape set. -/
def Value.escaped (set : EscapeSet) : Value → String
  | .string s => set.escape s
  | v => v.text

namespace Template

/-- The text of one part. -/
def renderSegment (params : Params) (set : EscapeSet) : Segment → Except Failure String
  | .literal text => .ok text
  | .placeholder name =>
    match params.get? name with
    | some v => .ok (v.escaped set)
    | none => .error (.unresolvedParameter name)

/-- The texts of all parts, joined. -/
def render (t : Template) (params : Params) (set : EscapeSet) : Except Failure String :=
  (t.segments.mapM (renderSegment params set)).map String.join

/-- Reads a template and renders it. -/
def substitute (source : String) (params : Params) (set : EscapeSet) : Except Failure String :=
  match read source with
  | .error offset => .error (.malformedTemplate source offset)
  | .ok t => t.render params set

end Template

end Phrasebook
