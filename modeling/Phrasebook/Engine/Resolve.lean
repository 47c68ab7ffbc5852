import Phrasebook.Cache.Memo
import Phrasebook.Catalog
import Phrasebook.Template.Render
import Phrasebook.Tree.Path

/-!
# Resolving a key

The answer to a request in one catalog: the entry of the key is found, its template is chosen, and
the placeholders are filled in. If the locale has no such entry, or no arm of it applies, the
fallback locale is asked; where that does not help, the failure of the first locale stands.
-/

namespace Phrasebook

/-- How failures are dealt with. -/
structure Policy where
  /-- Whether a missing or invalid key is a failure. Otherwise the key itself is the answer. -/
  strict : Bool := true
  /-- The locale that is asked if the first one has no answer. -/
  fallback : Option String := none
  deriving DecidableEq, Repr

namespace Policy

/-- The policy that answers with the key and has no fallback. -/
def lenient : Policy := { strict := false }

/-- The answer under a policy, from the strict one. -/
def settle (policy : Policy) (key : String) : Except Failure String → Except Failure String
  | .ok text => .ok text
  | .error failure =>
    if !policy.strict && failure.isLookupFailure then .ok key else .error failure

end Policy

namespace Catalog

/-- The template for a key in a locale. -/
def templateFor (c : Catalog) (memo : Memo) (key locale : String) (params : Params) :
    Except Failure String × Memo :=
  match Key.split key with
  | .error fault => (.error (.invalidKey key fault), memo)
  | .ok segments =>
    match c.root? locale with
    | none => (.error (.missingKey key locale []), memo)
    | some root =>
      match Tree.walk [] root segments with
      | .error suggestions => (.error (.missingKey key locale suggestions), memo)
      | .ok (.branch _) => (.error (.missingKey key locale []), memo)
      | .ok (.leaf template) => (.ok template, memo)
      | .ok (.conditional entry) =>
        match memo.select entry params with
        | (.error failure, memo) => (.error failure, memo)
        | (.ok (some template), memo) => (.ok template, memo)
        | (.ok none, memo) => (.error (.noMatchingArm key locale), memo)

/-- The text of a key in one locale. -/
def resolveIn (c : Catalog) (escape : EscapeSet) (memo : Memo) (key locale : String)
    (params : Params) : Except Failure String × Memo :=
  match c.templateFor memo key locale params with
  | (.error failure, memo) => (.error failure, memo)
  | (.ok template, memo) => (Template.substitute template params escape, memo)

/-- The text of a key in a locale or in its fallback. -/
def resolve (c : Catalog) (escape : EscapeSet) (memo : Memo) (key locale : String)
    (fallback : Option String) (params : Params) : Except Failure String × Memo :=
  match c.resolveIn escape memo key locale params with
  | (.ok text, memo) => (.ok text, memo)
  | (.error first, memo) =>
    if first.allowsFallback then
      match fallback with
      | none => (.error first, memo)
      | some other =>
        if other = locale then (.error first, memo)
        else
          match c.resolveIn escape memo key other params with
          | (.ok text, memo) => (.ok text, memo)
          | (.error second, memo) =>
            if second.allowsFallback || second.isLookupFailure then (.error first, memo)
            else (.error second, memo)
    else (.error first, memo)

end Catalog

end Phrasebook
