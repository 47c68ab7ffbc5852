import Phrasebook.Key
import Phrasebook.Nested
import Phrasebook.Tree.Basic

/-!
# Entry trees from nested values

A mapping is a group and its keys are segments; a text is an entry with one template. A mapping with
the key `$conditional` is an entry with arms, listed as mappings of `when` and `text` or as one
mapping from conditions to templates; `$default` beside it holds the template for the case that no
arm applies. The first problem found, in the order of the document, is reported with the path of the
value that has it.

`nodeOf` is told the path of its value. `nodeOnStack` has one path for the whole document instead, a
stack on which every segment is pushed on the way to a child and popped on the way back. The two are
the same (`nodeOnStack_eq`, `buildOnStack_eq`): a child that is read leaves the stack as it was.
-/

namespace Phrasebook

/-- What can be wrong with a nested value as an entry tree. -/
inductive Problem where
  /-- The whole value is a conditional. -/
  | conditionalRoot
  /-- The whole value is no mapping. -/
  | rootKind (kind : Nested.Kind)
  /-- A value is neither a text nor a mapping. -/
  | entryKind (kind : Nested.Kind)
  /-- A key is empty. -/
  | emptyKey
  /-- A key contains a dot. -/
  | dottedKey (key : String)
  /-- A default stands outside a conditional. -/
  | strayDefault
  /-- A key starts with a dollar sign but has no meaning. -/
  | reservedKey (key : String)
  /-- A group repeats a key. -/
  | duplicateKey (key : String)
  /-- The default is no text. -/
  | defaultKind (kind : Nested.Kind)
  /-- A conditional has a further key. -/
  | extraKey (key : String)
  /-- The arms are neither a sequence nor a mapping. -/
  | armsKind (kind : Nested.Kind)
  /-- A mapping of arms repeats a condition. -/
  | duplicateArm (condition : String)
  /-- The template of an arm is no text. -/
  | armTemplateKind (arm : Nat) (kind : Nested.Kind)
  /-- An arm is no mapping. -/
  | armKind (arm : Nat) (kind : Nested.Kind)
  /-- An arm has an unknown field. -/
  | armField (arm : Nat) (field : String)
  /-- A field of an arm is no text. -/
  | armFieldKind (arm : Nat) (field : String) (kind : Nested.Kind)
  /-- An arm lacks a field. -/
  | armLacks (arm : Nat) (field : String)
  deriving DecidableEq, Repr

/-- The wording of a problem. -/
def Problem.message : Problem → String
  | .conditionalRoot => "the root cannot be a conditional"
  | .rootKind kind => "the root must be a mapping, found " ++ kind.word
  | .entryKind kind => "expected a string or mapping, found " ++ kind.word
  | .emptyKey => "empty key"
  | .dottedKey key => "key '" ++ key ++ "' contains '.', which separates path segments"
  | .strayDefault => "'$default' is only allowed beside '$conditional'"
  | .reservedKey key => "unknown reserved key '" ++ key ++ "'"
  | .duplicateKey key => "duplicate key '" ++ key ++ "'"
  | .defaultKind kind => "'$default' must be a string, found " ++ kind.word
  | .extraKey key => "unexpected key '" ++ key ++ "' beside '$conditional'"
  | .armsKind kind =>
    "'$conditional' must be a sequence or mapping of arms, found " ++ kind.word
  | .duplicateArm condition => "duplicate arm expression '" ++ condition ++ "'"
  | .armTemplateKind arm kind =>
    "arm " ++ toString arm ++ " template must be a string, found " ++ kind.word
  | .armKind arm kind => "arm " ++ toString arm ++ " must be a mapping, found " ++ kind.word
  | .armField arm field => "arm " ++ toString arm ++ " has unexpected field '" ++ field ++ "'"
  | .armFieldKind arm field kind =>
    "arm " ++ toString arm ++ " field '" ++ field ++ "' must be a string, found " ++ kind.word
  | .armLacks arm field => "arm " ++ toString arm ++ " is missing '" ++ field ++ "'"

/-- A problem with the segments of the path where it is. -/
structure StructureFault where
  /-- The segments from the root down. -/
  path : List String
  /-- What is wrong there. -/
  problem : Problem
  deriving DecidableEq, Repr

/-- The path as a key; the root has a name of its own. -/
def StructureFault.place (f : StructureFault) : String :=
  if f.path.isEmpty then "<root>" else Key.join f.path

namespace Tree

/-- The key that marks a conditional. -/
def conditionalKey : String := "$conditional"

/-- The key of the default of a conditional. -/
def defaultKey : String := "$default"

/-- The field with the condition of an arm. -/
def whenField : String := "when"

/-- The field with the template of an arm. -/
def textField : String := "text"

/-- Whether a mapping stands for a conditional. -/
def isConditional (entries : List (String × Nested)) : Bool :=
  entries.any fun entry => entry.1 == conditionalKey

/-- What is wrong with a key of a group whose earlier children are `built`. -/
def segmentProblem? (built : Branch) (segment : String) : Option Problem :=
  if segment.isEmpty then some .emptyKey
  else if segment.toList.contains '.' then some (.dottedKey segment)
  else if segment = defaultKey then some .strayDefault
  else if segment.toList.head? = some '$' then some (.reservedKey segment)
  else if built.contains segment then some (.duplicateKey segment)
  else none

/-- The fields of an arm as far as they are known. -/
structure ArmFields where
  /-- The condition. -/
  condition : Option String := none
  /-- The template. -/
  template : Option String := none

/-- Takes one field of an arm. A repeated field replaces the earlier one. -/
def takeField (arm : Nat) (fields : ArmFields) (entry : String × Nested) :
    Except Problem ArmFields :=
  let (field, value) := entry
  if field = whenField ∨ field = textField then
    match value with
    | .string text =>
      if field = whenField then .ok { fields with condition := some text }
      else .ok { fields with template := some text }
    | other => .error (.armFieldKind arm field other.kind)
  else .error (.armField arm field)

/-- Reads an arm that is written as a mapping of its fields. -/
def armOfFields (arm : Nat) : Nested → Except Problem Arm
  | .mapping entries => do
    let fields ← entries.foldlM (takeField arm) {}
    match fields.condition, fields.template with
    | some condition, some template => .ok ⟨condition, template⟩
    | none, _ => .error (.armLacks arm whenField)
    | some _, none => .error (.armLacks arm textField)
  | other => .error (.armKind arm other.kind)

/-- Reads the arms of a sequence from position `arm` on. -/
def armsOfSequence (arm : Nat) : List Nested → Except Problem (List Arm)
  | [] => .ok []
  | item :: rest => do
    let first ← armOfFields arm item
    let more ← armsOfSequence (arm + 1) rest
    .ok (first :: more)

/-- Reads the arms of a mapping from position `arm` on; `seen` are the conditions before it. -/
def armsOfMapping (seen : List String) (arm : Nat) :
    List (String × Nested) → Except Problem (List Arm)
  | [] => .ok []
  | (condition, value) :: rest =>
    if seen.contains condition then .error (.duplicateArm condition)
    else
      match value with
      | .string template => do
        let more ← armsOfMapping (condition :: seen) (arm + 1) rest
        .ok (⟨condition, template⟩ :: more)
      | other => .error (.armTemplateKind arm other.kind)

/-- Reads the arms of a conditional. -/
def armsOf : Nested → Except Problem (List Arm)
  | .sequence items => armsOfSequence 0 items
  | .mapping entries => armsOfMapping [] 0 entries
  | other => .error (.armsKind other.kind)

/-- Takes one entry of the mapping of a conditional. A repeated key replaces the earlier one. -/
def takeConditionalEntry (c : Conditional) (entry : String × Nested) :
    Except Problem Conditional :=
  let (key, value) := entry
  if key = conditionalKey then do
    let arms ← armsOf value
    .ok { c with arms := arms }
  else if key = defaultKey then
    match value with
    | .string template => .ok { c with otherwise := some template }
    | other => .error (.defaultKind other.kind)
  else .error (.extraKey key)

/-- Reads a conditional. -/
def conditionalOf (entries : List (String × Nested)) : Except Problem Conditional :=
  entries.foldlM takeConditionalEntry {}

/-- Names the place of a problem. -/
def locate {α : Type} (path : List String) : Except Problem α → Except StructureFault α
  | .ok a => .ok a
  | .error problem => .error ⟨path, problem⟩

mutual

/-- Reads the node at a path. -/
def nodeOf (path : List String) : Nested → Except StructureFault Node
  | .string template => .ok (.leaf template)
  | .mapping entries =>
    if isConditional entries then
      (locate path (conditionalOf entries)).map .conditional
    else (childrenOf path [] entries).map .branch
  | .null => .error ⟨path, .entryKind .null⟩
  | .boolean _ => .error ⟨path, .entryKind .boolean⟩
  | .integer _ => .error ⟨path, .entryKind .integer⟩
  | .float _ => .error ⟨path, .entryKind .float⟩
  | .sequence _ => .error ⟨path, .entryKind .sequence⟩

/-- Reads the children of the group at a path; `built` are those read before. -/
def childrenOf (path : List String) (built : Branch) :
    List (String × Nested) → Except StructureFault Branch
  | [] => .ok built
  | (segment, value) :: rest =>
    match segmentProblem? built segment with
    | some problem => .error ⟨path, problem⟩
    | none =>
      match nodeOf (path ++ [segment]) value with
      | .error fault => .error fault
      | .ok node => childrenOf path (built.upsert segment node) rest

end

/-- Reads a nested value as the entry tree of a locale. -/
def build : Nested → Except StructureFault Branch
  | .mapping entries =>
    if isConditional entries then .error ⟨[], .conditionalRoot⟩ else childrenOf [] [] entries
  | other => .error ⟨[], .rootKind other.kind⟩

/-! ### One stack for the whole document -/

mutual

/-- Reads the node at the path on the stack, and gives the stack back with it. -/
def nodeOnStack (stack : List String) : Nested → Except StructureFault (Node × List String)
  | .string template => .ok (.leaf template, stack)
  | .mapping entries =>
    if isConditional entries then
      (locate stack (conditionalOf entries)).map fun c => (.conditional c, stack)
    else (childrenOnStack stack [] entries).map fun (children, stack) => (.branch children, stack)
  | .null => .error ⟨stack, .entryKind .null⟩
  | .boolean _ => .error ⟨stack, .entryKind .boolean⟩
  | .integer _ => .error ⟨stack, .entryKind .integer⟩
  | .float _ => .error ⟨stack, .entryKind .float⟩
  | .sequence _ => .error ⟨stack, .entryKind .sequence⟩

/-- Reads the children of the group at the path on the stack. The segment of a child is pushed
before the child is read and popped after it. -/
def childrenOnStack (stack : List String) (built : Branch) :
    List (String × Nested) → Except StructureFault (Branch × List String)
  | [] => .ok (built, stack)
  | (segment, value) :: rest =>
    match segmentProblem? built segment with
    | some problem => .error ⟨stack, problem⟩
    | none =>
      match nodeOnStack (stack ++ [segment]) value with
      | .error fault => .error fault
      | .ok (node, stack) => childrenOnStack stack.dropLast (built.upsert segment node) rest

end

/-- Reads a nested value as the entry tree of a locale, beginning with an empty stack. -/
def buildOnStack : Nested → Except StructureFault Branch
  | .mapping entries =>
    if isConditional entries then .error ⟨[], .conditionalRoot⟩
    else (childrenOnStack [] [] entries).map Prod.fst
  | other => .error ⟨[], .rootKind other.kind⟩

mutual

/-- A node that is read leaves the stack as it was, and is the one read at this path. -/
theorem nodeOnStack_eq (stack : List String) : ∀ value : Nested,
    nodeOnStack stack value = (nodeOf stack value).map fun node => (node, stack)
  | .string _ => rfl
  | .mapping entries => by
    rw [nodeOnStack, nodeOf]
    split
    · cases locate stack (conditionalOf entries) <;> rfl
    · rw [childrenOnStack_eq stack [] entries]
      cases childrenOf stack [] entries <;> rfl
  | .null => rfl
  | .boolean _ => rfl
  | .integer _ => rfl
  | .float _ => rfl
  | .sequence _ => rfl

/-- Children that are read leave the stack as it was, and are those read at this path. -/
theorem childrenOnStack_eq (stack : List String) (built : Branch) :
    ∀ entries : List (String × Nested),
      childrenOnStack stack built entries =
        (childrenOf stack built entries).map fun children => (children, stack)
  | [] => rfl
  | (segment, value) :: rest => by
    rw [childrenOnStack, childrenOf]
    cases segmentProblem? built segment with
    | some problem => rfl
    | none =>
      -- The child gives back the stack with its segment on top, which is popped.
      dsimp only
      rw [nodeOnStack_eq (stack ++ [segment]) value]
      cases nodeOf (stack ++ [segment]) value with
      | error fault => rfl
      | ok node =>
        show childrenOnStack (stack ++ [segment]).dropLast _ rest = _
        rw [List.dropLast_concat, childrenOnStack_eq stack (built.upsert segment node) rest]

end

/-- To keep the path on one stack makes no difference. -/
theorem buildOnStack_eq (value : Nested) : buildOnStack value = build value := by
  cases value with
  | mapping entries =>
    rw [buildOnStack, build, childrenOnStack_eq]
    cases childrenOf [] [] entries <;> rfl
  | _ => rfl

end Tree

end Phrasebook
