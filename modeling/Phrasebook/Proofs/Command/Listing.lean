import Phrasebook.Command.Keys
import Phrasebook.Proofs.Engine.Listing
import Phrasebook.Proofs.Engine.Parameters
import Phrasebook.Proofs.Table.Distinct
import Phrasebook.Proofs.Tree.Repeats

/-!
# Entries listed with their placeholders

The list of a file has one row for each entry, with the names of the placeholders in the templates
of that entry. Together with the parameters of its conditions these are all that a request for the
entry can lack.

* `Command.Listed.Describes`: a row tells of an entry;
* `Command.listKeys_eq_ok`: every key of a well named tree has one row, in the order of the keys;
* `Engine.Reachable.lacks_of_resolve`: a parameter that a request lacks is one that its entry names;
* `Command.listed_placeholders_suffice`: whoever gives the parameters that are listed, and those of
  the conditions, lacks none.
-/

namespace Phrasebook

/-! ### The texts of an entry -/

/-- The templates of an entry: those of its arms, then its default. -/
def Node.templates : Node → List String
  | .leaf template => [template]
  | .conditional entry => entry.arms.map Arm.template ++ entry.otherwise.toList
  | .branch _ => []

/-- The conditions of an entry. -/
def Node.conditions : Node → List String
  | .conditional entry => entry.arms.map Arm.condition
  | _ => []

/-- An entry names the parameters of its conditions and its templates. -/
theorem Node.mentions_iff {node : Node} {name : String} :
    node.Mentions name ↔
      (∃ condition ∈ node.conditions, Condition.Mentions condition name) ∨
        ∃ template ∈ node.templates, Template.Mentions template name := by
  cases node with
  | leaf template => simp [Mentions, conditions, templates]
  | branch children => simp [Mentions, conditions, templates]
  | conditional entry =>
    simp only [Mentions, Arm.Mentions, conditions, templates, List.mem_append, List.mem_map,
      Option.mem_toList]
    constructor
    · rintro (⟨arm, harm, hcondition | htemplate⟩ | ⟨template, hdefault, hname⟩)
      · exact Or.inl ⟨_, ⟨arm, harm, rfl⟩, hcondition⟩
      · exact Or.inr ⟨_, Or.inl ⟨arm, harm, rfl⟩, htemplate⟩
      · exact Or.inr ⟨template, Or.inr hdefault, hname⟩
    · rintro (⟨_, ⟨arm, harm, rfl⟩, hname⟩ | ⟨template, ⟨arm, harm, rfl⟩ | hdefault, hname⟩)
      · exact Or.inl ⟨arm, harm, Or.inl hname⟩
      · exact Or.inl ⟨arm, harm, Or.inr hname⟩
      · exact Or.inr ⟨template, hdefault, hname⟩

namespace Engine

variable {e : Engine} {key locale name : String} {params : Params} {strict : Bool}

/-- Loading from a file whose tree can be built puts the tree in place. -/
theorem loadFile_eq_ok {files : Files} {path : String} {value : Nested} {root : Branch}
    (hvalue : Nested.load files path = .ok value) (htree : value.toTree = .ok root) :
    e.loadFile files locale path =
      (.ok (Branch.entryCount root),
        { e with paths := e.paths.insert locale path }.swap
          (e.catalog.withLocale locale root)) := by
  rw [loadFile, hvalue]
  dsimp only
  rw [htree]
  rfl

/-- A parameter that a request without a fallback locale lacks is not given, and the entry of the
key names it. -/
theorem Reachable.lacks_of_resolve (h : e.Reachable)
    (hfail : (e.resolve key locale params ⟨strict, none⟩).1 =
      .error (.unresolvedParameter name)) :
    params.get? name = none ∧ e.catalog.Mentions key locale name := by
  have hself : params.Within params := fun _ _ hget => hget
  exact (Catalog.steady_plainIn hself e.catalog e.config.escape key locale).lacks
    (h.plainIn_eq_error hfail)

end Engine

namespace Command

variable {templates : List String} {name key locale : String} {node : Node} {root : Branch}

/-! ### Rows -/

/-- The placeholders that are listed are those of the templates that can be read. -/
theorem mem_placeholdersOf_iff :
    name ∈ placeholdersOf templates ↔
      ∃ template ∈ templates, Template.Mentions template name := by
  rw [placeholdersOf, List.mem_eraseDups, List.mem_flatMap]
  refine exists_congr fun template => and_congr_right fun _ => ?_
  rw [Template.Mentions]
  cases Template.read template <;> simp

/-- A row tells of an entry. -/
structure Listed.Describes (row : Listed) (node : Node) : Prop where
  /-- It has as many arms as the entry has conditions. -/
  arms_eq : row.arms = node.conditions.length
  /-- No placeholder comes twice. -/
  nodup : row.placeholders.Nodup
  /-- The placeholders are those of the templates of the entry that can be read. -/
  mem_iff : ∀ name, name ∈ row.placeholders ↔
    ∃ template ∈ node.templates, Template.Mentions template name

/-- An entry has one row, which tells of it. -/
theorem exists_listNode (h : node.isEntry = true) (key : String) :
    ∃ row : Listed, listNode key node = [row] ∧ row.key = key ∧ row.Describes node := by
  cases node with
  | branch children => cases h
  | leaf template =>
    exact ⟨_, rfl, rfl, rfl, Table.nodup_eraseDups _, fun _ => mem_placeholdersOf_iff⟩
  | conditional entry =>
    exact ⟨_, rfl, rfl, (List.length_map _).symm, Table.nodup_eraseDups _,
      fun _ => mem_placeholdersOf_iff⟩

/-- Rows with the keys of a list, in its order, each of which tells of the entry of its key. -/
structure Tells (root : Branch) (rows : List Listed) (keys : List String) : Prop where
  /-- There is one row for each key. -/
  map_key : rows.map Listed.key = keys
  /-- Each row tells of an entry. -/
  describes : ∀ row ∈ rows, ∃ node,
    Tree.find root row.key listedLocale = .ok node ∧ row.Describes node

/-- Keys that are all found have one row each, in their order. -/
theorem exists_rows {keys : List String}
    (h : ∀ key ∈ keys, ∃ node, Tree.find root key listedLocale = .ok node ∧ node.isEntry = true) :
    ∃ rows : List Listed,
      (keys.mapM fun key => do return listNode key (← Tree.find root key listedLocale)) =
        .ok (rows.map fun row => [row]) ∧
      Tells root rows keys := by
  induction keys with
  | nil => exact ⟨[], rfl, rfl, by simp⟩
  | cons key keys ih =>
    obtain ⟨⟨node, hfind, hentry⟩, hkeys⟩ := List.forall_mem_cons.mp h
    obtain ⟨row, hrow, hkey, hdescribes⟩ := exists_listNode hentry key
    obtain ⟨rows, hrows, hmap, hall⟩ := ih hkeys
    refine ⟨row :: rows, ?_, ?_, ?_⟩
    · rw [List.mapM_cons, hrows, hfind]
      simp [bind, Except.bind, pure, Except.pure, hrow]
    · rw [List.map_cons, hkey, hmap]
    · exact List.forall_mem_cons.mpr ⟨⟨node, hkey ▸ hfind, hdescribes⟩, hall⟩

/-- In a well named tree every key has one row, in the order of the keys. -/
theorem listKeys_eq_ok (h : Branch.WellNamed root) :
    ∃ rows, listKeys root = .ok rows ∧ Tells root rows (Branch.keysBelow [] root) := by
  have hfound : ∀ key ∈ Branch.keysBelow [] root,
      ∃ node, Tree.find root key listedLocale = .ok node ∧ node.isEntry = true := by
    intro key hkey
    obtain ⟨segments, node, hsplit, hwalk⟩ := h.exists_find hkey
    exact ⟨node, Branch.find_eq_ok_iff_walk.mpr ⟨segments, hsplit, hwalk⟩,
      Branch.isEntry_of_walk hwalk⟩
  obtain ⟨rows, hrows, htells⟩ := exists_rows hfound
  refine ⟨rows, ?_, htells⟩
  have hflat : (rows.map fun row => [row]).flatten = rows := by
    rw [← List.flatMap_def, List.flatMap_singleton']
  rw [listKeys, hrows]
  exact congrArg Except.ok hflat

/-! ### Requests for listed keys -/

/-- A request for a listed key lacks no parameter if all are given that the row and the conditions
of the entry name. -/
theorem Listed.Describes.resolve_ne {row : Listed} (hrow : row.Describes node)
    (hfind : Tree.find root key listedLocale = .ok node) {e : Engine} (h : e.Reachable)
    (hroot : e.catalog.root? locale = some root) {params : Params}
    (hlisted : ∀ name ∈ row.placeholders, params.get? name ≠ none)
    (hconditions : ∀ condition ∈ node.conditions, ∀ name,
      Condition.Mentions condition name → params.get? name ≠ none)
    (strict : Bool) (name : String) :
    (e.resolve key locale params ⟨strict, none⟩).1 ≠ .error (.unresolvedParameter name) := by
  intro hfail
  obtain ⟨hlacks, found, segments, target, hfound, hsplit, hwalk, hname⟩ :=
    h.lacks_of_resolve hfail
  -- The entry that names the parameter is the one that the row tells of.
  obtain ⟨segments', hsplit', hwalk'⟩ := Branch.find_eq_ok_iff_walk.mp hfind
  cases hroot.symm.trans hfound
  cases hsplit.symm.trans hsplit'
  cases hwalk.symm.trans hwalk'
  rcases Node.mentions_iff.mp hname with ⟨condition, hcondition, hmentions⟩ | htemplate
  · exact hconditions condition hcondition name hmentions hlacks
  · exact hlisted name ((hrow.mem_iff name).mpr htemplate) hlacks

/-- **Listed placeholders suffice.** For a file that can be loaded, the command succeeds and lists
the keys of its tree, each once and in their order; and a row has the placeholders of the templates
of its entry that can be read, each once. Wherever this tree is the one of a locale, as it is after
the file was loaded for the locale, a request for a listed key without a fallback locale lacks no
parameter, if all are given that the row lists and that the conditions of the entry name. -/
theorem listed_placeholders_suffice {files : Files} {path : String}
    (hload : Nested.load files path >>= Nested.toTree = .ok root) :
    ∃ rows : List Listed,
      (∀ json, keysOfFile files path json =
        { status := .done
          output := linesOf
            [if json then Json.write (.array (rows.map Listed.toJson))
              else Text.Grid.render ["Key", "Kind", "Arms", "Placeholders"]
                (rows.map Listed.cells)] }) ∧
      (∀ (e : Engine) (locale : String), (e.loadFile files locale path).1 = .ok rows.length ∧
        (e.loadFile files locale path).2.catalog.root? locale = some root) ∧
      ∀ (e : Engine) (locale : String), e.Reachable → e.catalog.root? locale = some root →
        rows.map Listed.key = e.catalog.keys locale ∧ (rows.map Listed.key).Nodup ∧
        ∀ row ∈ rows, ∃ node, Tree.find root row.key locale = .ok node ∧
          row.placeholders.Nodup ∧
          (∀ name, name ∈ row.placeholders ↔
            ∃ template ∈ node.templates, Template.Mentions template name) ∧
          ∀ params : Params, (∀ name ∈ row.placeholders, params.get? name ≠ none) →
            (∀ condition ∈ node.conditions, ∀ name,
              Condition.Mentions condition name → params.get? name ≠ none) →
            ∀ strict name, (e.resolve row.key locale params ⟨strict, none⟩).1 ≠
              .error (.unresolvedParameter name) := by
  obtain ⟨value, hvalue, htree⟩ := Tree.exists_of_bind_eq_ok hload
  have hnamed : Branch.WellNamed root := (Engine.built_of_toTree htree).wellNamed
  obtain ⟨rows, hrows, hkeys, hdescribes⟩ := listKeys_eq_ok hnamed
  have hcount : Branch.entryCount root = rows.length := by
    rw [← Branch.length_keysBelow [] root, ← hkeys, List.length_map]
  refine ⟨rows, ?_, ?_, ?_⟩
  · intro json
    rw [keysOfFile, hload]
    dsimp only
    rw [hrows]
  · intro e locale
    rw [Engine.loadFile_eq_ok hvalue htree, ← hcount]
    exact ⟨rfl, Catalog.root?_withLocale _ _ _⟩
  · intro e locale h hroot
    refine ⟨?_, ?_, ?_⟩
    · rw [hkeys, Catalog.keys_of_root?_eq_some hroot]
    · rw [hkeys]
      exact hnamed.nodup_keysBelow
    · intro row hrow
      obtain ⟨node, hfind, hdescribed⟩ := hdescribes row hrow
      refine ⟨node, ?_, hdescribed.nodup, hdescribed.mem_iff, ?_⟩
      · exact Branch.find_eq_ok_iff_walk.mpr (Branch.find_eq_ok_iff_walk.mp hfind)
      · intro params hlisted hconditions
        exact hdescribed.resolve_ne hfind h hroot hlisted hconditions

/-- The text of a file with one entry, whose second arm can be neither read nor rendered. -/
def ticketText : String :=
  "\x7b\"seat\":\x7b\"$conditional\":\x7b\"n = 1\":\"\x7bwho\x7d: one seat\",\"m >\":\"\x7bx\"\x7d,"
    ++ "\"$default\":\"\x7bwho\x7d: \x7bn\x7d seats\"\x7d\x7d"

/-- The file alone. -/
def ticketFiles : Files := fun path =>
  if path = "en.json" then some ticketText.toUTF8 else none

/-- What the file holds. -/
def ticketValue : Nested :=
  .mapping [("seat", .mapping
    [("$conditional", .mapping
      [("n = 1", .string "\x7bwho\x7d: one seat"), ("m >", .string "\x7bx")]),
      ("$default", .string "\x7bwho\x7d: \x7bn\x7d seats")])]

/-- The tree with the entry of the file. -/
def ticketTree : Branch :=
  [("seat", .conditional
    ⟨[⟨"n = 1", "\x7bwho\x7d: one seat"⟩, ⟨"m >", "\x7bx"⟩],
      some "\x7bwho\x7d: \x7bn\x7d seats"⟩)]

/-- The engine after this was loaded. -/
def ticketEngine : Engine :=
  ((Session.start {} fun _ => 0).run [.load "en" ticketValue]).engine

/-- Values for the placeholders that are listed. -/
def ticketParams : Params :=
  .ofList [("who", .string "Ada"), ("n", .integer 2)]

/-- The placeholders of the two templates that can be read are listed, and with values for them the
request fails for the arm that cannot be read. -/
theorem listed_placeholders_suffice_ticket :
    Nested.load ticketFiles "en.json" >>= Nested.toTree = .ok ticketTree ∧
      listKeys ticketTree = .ok [⟨"seat", true, 2, ["who", "n"]⟩] ∧
      (ticketEngine.resolve "seat" "en" ticketParams ⟨true, none⟩).1 =
        .error (.conditionFault ⟨"m >", 3, .missingOperand⟩) ∧
      (keysOfFile ticketFiles "en.json" true).status = .done ∧
      ∀ name, (ticketEngine.resolve "seat" "en" ticketParams ⟨true, none⟩).1 ≠
        .error (.unresolvedParameter name) := by
  have htree : ticketValue.toTree = .ok ticketTree := rfl
  have hload : Nested.load ticketFiles "en.json" >>= Nested.toTree = .ok ticketTree := by
    decide +kernel
  have hlist : listKeys ticketTree = .ok [⟨"seat", true, 2, ["who", "n"]⟩] := by decide +kernel
  have hfail : (ticketEngine.resolve "seat" "en" ticketParams ⟨true, none⟩).1 =
      .error (.conditionFault ⟨"m >", 3, .missingOperand⟩) := rfl
  have hreachable : ticketEngine.Reachable := ⟨{}, fun _ => 0, [.load "en" ticketValue], rfl⟩
  have hroot : ticketEngine.catalog.root? "en" = some ticketTree := by
    have hcatalog : ticketEngine.catalog = Catalog.empty.withLocale "en" ticketTree :=
      Engine.catalog_load htree "en"
    rw [hcatalog, Catalog.root?_withLocale]
  obtain ⟨rows, hreport, -, hrows⟩ := listed_placeholders_suffice hload
  obtain ⟨hkeys, -, hsuffice⟩ := hrows ticketEngine "en" hreachable hroot
  have hseat : "seat" ∈ rows.map Listed.key := by
    rw [hkeys, Catalog.keys_of_root?_eq_some hroot]
    exact List.mem_singleton_self _
  obtain ⟨row, hrow, hkey⟩ := List.mem_map.mp hseat
  obtain ⟨node, hfind, -, hmem, hresolve⟩ := hsuffice row hrow
  rw [hkey] at hfind hresolve
  cases hfind
  refine ⟨hload, hlist, hfail, by rw [hreport], hresolve ticketParams ?_ ?_ true⟩
  · intro name hname
    have hnames : placeholdersOf
        ["\x7bwho\x7d: one seat", "\x7bx", "\x7bwho\x7d: \x7bn\x7d seats"] = ["who", "n"] := by decide +kernel
    have hlisted : name ∈ placeholdersOf
        ["\x7bwho\x7d: one seat", "\x7bx", "\x7bwho\x7d: \x7bn\x7d seats"] :=
      mem_placeholdersOf_iff.mpr ((hmem name).mp hname)
    rw [hnames] at hlisted
    rcases List.mem_cons.mp hlisted with rfl | hlisted
    · decide
    · rw [List.mem_singleton.mp hlisted]
      decide
  · intro condition hcondition name hname
    obtain ⟨compiled, hcompiled, hmentioned⟩ := hname
    rcases List.mem_cons.mp hcondition with rfl | hcondition
    · cases hcompiled
      rw [List.mem_singleton.mp hmentioned]
      decide
    · rw [List.mem_singleton.mp hcondition] at hcompiled
      cases hcompiled

end Command

end Phrasebook
