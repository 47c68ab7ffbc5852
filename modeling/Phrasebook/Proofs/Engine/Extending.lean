import Phrasebook.Proofs.Engine.Listing
import Phrasebook.Proofs.Tree.Idempotence

/-!
# Extending a locale

Extending a locale lays the tree of a value over the tree of the locale, so what is found
afterwards, key by key, is what prevails of the two (`Branch.Prevails`), and the count that is
returned is the number of these keys (`Engine.extend_overlays`). Extending it with the same value
again changes no tree and returns the same (`Engine.extend_idempotent`).
-/

namespace Phrasebook

namespace Engine

variable {e : Engine} {locale : String} {base above : Branch} {value : Nested} {count : Nat}

/-- After a locale with a tree was extended, the two trees are joined, and their entries were
counted. -/
theorem exists_overlay_of_extend (hbase : e.catalog.root? locale = some base)
    (h : (e.extend locale value).1 = .ok count) :
    ∃ above, Tree.build value = .ok above ∧
      (e.extend locale value).2.catalog.root? locale = some (base.overlay above) ∧
      Branch.entryCount (base.overlay above) = count := by
  unfold extend at h ⊢
  rw [hbase] at h ⊢
  rw [Nested.toTree] at h ⊢
  cases hbuild : Tree.build value with
  | error fault =>
    rw [hbuild] at h
    cases h
  | ok above =>
    rw [hbuild] at h
    cases h
    refine ⟨above, rfl, ?_, rfl⟩
    simp [replaceLocale, swap, Catalog.withLocale, Catalog.root?, Table.get?_insert]

/-- **Extending overlays key by key.** Where one tree is laid over another, a key is found as the
tree above has it, or as the tree below has it if the tree above has no node there and no entry on
the way; and the children of every group are those of the tree below in its order, then those that
only the tree above has in its order. So after a locale was extended exactly these keys are found,
and if its tree had names that keys can spell, as every loaded tree has, their number is the count
that was returned. -/
theorem extend_overlays :
    (∀ base above : Branch, Branch.Distinct above →
      (∀ key locale node, Tree.find (base.overlay above) key locale = .ok node ↔
        Branch.Prevails base above key locale node) ∧
      ∀ path children, (Node.branch (base.overlay above)).at? path = some (.branch children) →
        Branch.segments children = (Node.branch base).segmentsAt path ++
          ((Node.branch above).segmentsAt path).filter (· ∉ (Node.branch base).segmentsAt path)) ∧
    ∀ (e : Engine) (locale : String) (base : Branch) (value : Nested) (count : Nat),
      e.catalog.root? locale = some base → (e.extend locale value).1 = .ok count →
      ∃ above, Tree.build value = .ok above ∧
        let next := (e.extend locale value).2.catalog
        (∀ key node,
          (∃ root, next.root? locale = some root ∧ Tree.find root key locale = .ok node) ↔
            Branch.Prevails base above key locale node) ∧
        (Branch.WellNamed base →
          (next.keys locale).Nodup ∧
          (∀ key, key ∈ next.keys locale ↔ ∃ node, Branch.Prevails base above key locale node) ∧
          (next.keys locale).length = count) := by
  refine ⟨?_, ?_⟩
  · intro base above habove
    refine ⟨fun key locale node => Branch.find_overlay_iff base habove, ?_⟩
    intro path children hgroup
    rw [← Node.overlay_branch_branch] at hgroup
    have hdistinct : (Node.branch above).Distinct := habove
    exact Node.segments_overlay hdistinct hgroup
  · intro e locale base value count hbase hcount
    obtain ⟨above, hbuild, hroot, hentries⟩ := exists_overlay_of_extend hbase hcount
    have habove : Branch.WellNamed above := Tree.wellNamed_of_build hbuild
    refine ⟨above, hbuild, ?_, ?_⟩
    · intro key node
      rw [hroot, ← Branch.find_overlay_iff base habove.distinct]
      simp
    · intro hnamed
      have hjoined : Branch.WellNamed (base.overlay above) := hnamed.overlay habove
      rw [Catalog.keys_of_root?_eq_some hroot]
      refine ⟨hjoined.nodup_keysBelow, ?_, ?_⟩
      · intro key
        simp only [hjoined.mem_keysBelow_iff locale, Branch.find_overlay_iff base habove.distinct]
      · rw [Branch.length_keysBelow, hentries]

/-- A tree with an entry and a group for each way in which the next one collides with it. -/
def menuValue : Nested :=
  .mapping [("open", .mapping [("file", .string "File"), ("link", .string "Link")]),
    ("quit", .string "Quit"), ("help", .mapping [("about", .string "About")]),
    ("save", .string "Save")]

/-- A text over a group, an empty group over a text, and groups that are joined. -/
def menuPatch : Nested :=
  .mapping [("copy", .string "Copy"), ("help", .string "Help"), ("quit", .mapping []),
    ("open", .mapping [("link", .mapping []), ("dir", .string "Folder")])]

/-- The engine after the first of these trees was loaded. -/
def menuEngine : Engine :=
  ((Session.start {} fun _ => 0).run [.load "en" menuValue]).engine

/-- Of the eight entries of both trees five are found, those of the first tree before new ones. -/
theorem extend_overlays_menu :
    let next := (menuEngine.extend "en" menuPatch).2.catalog
    (menuEngine.extend "en" menuPatch).1 = .ok 5 ∧
      next.keys "en" = ["open.file", "open.dir", "help", "save", "copy"] ∧
      ∃ base above, menuEngine.catalog.root? "en" = some base ∧ Tree.build menuPatch = .ok above ∧
        ∀ key, key ∈ next.keys "en" ↔ ∃ node, Branch.Prevails base above key "en" node := by
  intro next
  have hcount : (menuEngine.extend "en" menuPatch).1 = .ok 5 := rfl
  have hbuild : ∃ base, Tree.build menuValue = .ok base := ⟨_, rfl⟩
  obtain ⟨base, hbase⟩ := hbuild
  have hroot : menuEngine.catalog.root? "en" = some base := by
    have htree : menuValue.toTree = .ok base := by rw [Nested.toTree, hbase]
    have hload : menuEngine.catalog = Catalog.empty.withLocale "en" base := catalog_load htree "en"
    rw [hload]
    rfl
  obtain ⟨above, habove, -, hkeys⟩ :=
    extend_overlays.2 menuEngine "en" base menuPatch 5 hroot hcount
  have hnamed := Tree.wellNamed_of_build hbase
  exact ⟨hcount, rfl, base, above, hroot, habove, (hkeys hnamed).2.1⟩

/-! ### Extending again -/

/-- A value that has a tree is laid over the tree of the locale, or is the first one there. -/
theorem extend_of_toTree (e : Engine) (locale : String) (h : value.toTree = .ok above) :
    e.extend locale value =
      let root := (e.catalog.root? locale).elim above fun base => base.overlay above
      (.ok (Branch.entryCount root), e.swap (e.catalog.withLocale locale root)) := by
  unfold extend
  rw [h]
  cases e.catalog.root? locale <;> rfl

/-- Extending a locale with the same value again returns the same and changes no tree. -/
theorem extend_again (e : Engine) (locale : String) (value : Nested) :
    let once := e.extend locale value
    let twice := once.2.extend locale value
    twice.1 = once.1 ∧ ∀ other, twice.2.catalog.root? other = once.2.catalog.root? other := by
  intro once twice
  cases htree : value.toTree with
  | error failure =>
    -- Nothing is extended, neither the first time nor the second.
    have hrefused : ∀ e : Engine, e.extend locale value = (.error failure, e) := by
      intro e
      rw [extend, htree]
    have honce : once = (.error failure, e) := hrefused e
    have htwice : twice = (.error failure, e) := by simp only [twice, honce, hrefused]
    rw [htwice, honce]
    exact ⟨rfl, fun _ => rfl⟩
  | ok above =>
    have habove : Branch.Distinct above := (built_of_toTree htree).wellNamed.distinct
    have honce := extend_of_toTree e locale htree
    have htwice := extend_of_toTree once.2 locale htree
    generalize hroot : ((e.catalog.root? locale).elim above fun base => base.overlay above) = root
      at honce
    -- After the first time the tree of the locale has the one above in it.
    have hsame : Branch.overlay root above = root := by
      rw [← hroot]
      cases e.catalog.root? locale with
      | none => exact Branch.overlay_self habove
      | some base => exact Branch.overlay_overlay base habove
    have hcatalog : once.2.catalog = e.catalog.withLocale locale root :=
      congrArg (·.2.catalog) honce
    rw [hcatalog, Catalog.root?_withLocale, Option.elim_some, hsame] at htwice
    have hagain : twice.2.catalog = once.2.catalog.withLocale locale root := by
      rw [hcatalog]
      exact congrArg (·.2.catalog) htwice
    refine ⟨(congrArg (·.1) htwice).trans (congrArg (·.1) honce).symm, fun other => ?_⟩
    rw [hagain]
    by_cases hother : other = locale
    · rw [hother, Catalog.root?_withLocale, hcatalog, Catalog.root?_withLocale]
    · rw [Catalog.root?_withLocale_of_ne hother]

/-- **Overlaying is idempotent.** Take groups that are made by storing nodes and overlaying groups.
The one without children, laid over a group or under it, changes nothing; a group laid over itself
is the same group; and a group laid over another a second time changes nothing. This holds with
indexes, where equal groups have the same children in the same order and the same indexes, and
without them. So a locale that is extended with the same value again keeps its tree, as all others
do, and the same is returned. -/
theorem extend_idempotent :
    (∀ lower upper : Recipe, ∃ base above joined : IndexedBranch,
      lower.run = .ok base ∧ upper.run = .ok above ∧ base.overlay above = .ok joined ∧
      base.overlay .empty = .ok base ∧ IndexedBranch.overlay .empty base = .ok base ∧
      above.overlay above = .ok above ∧ joined.overlay above = .ok joined) ∧
    (∀ lower upper : Recipe, Branch.overlay lower.tree [] = lower.tree ∧
      Branch.overlay [] lower.tree = lower.tree ∧
      Branch.overlay upper.tree upper.tree = upper.tree ∧
      Branch.overlay (Branch.overlay lower.tree upper.tree) upper.tree =
        Branch.overlay lower.tree upper.tree) ∧
    ∀ (e : Engine) (locale : String) (value : Nested),
      let once := e.extend locale value
      let twice := once.2.extend locale value
      twice.1 = once.1 ∧ ∀ other, twice.2.catalog.root? other = once.2.catalog.root? other := by
  refine ⟨?_, ?_, extend_again⟩
  · intro lower upper
    obtain ⟨base, hbase, hbaseSound, -⟩ := lower.exists_run
    obtain ⟨above, habove, haboveSound, -⟩ := upper.exists_run
    obtain ⟨joined, hjoined, hjoinedSound, htree⟩ := hbaseSound.overlay haboveSound
    have hempty := IndexedBranch.sound_empty
    refine ⟨base, above, joined, hbase, habove, hjoined,
      hbaseSound.overlay_eq_ok hempty hbaseSound rfl,
      hempty.overlay_eq_ok hbaseSound hbaseSound (Branch.empty_overlay hbaseSound.distinct),
      haboveSound.overlay_eq_ok haboveSound haboveSound (Branch.overlay_self haboveSound.distinct),
      hjoinedSound.overlay_eq_ok haboveSound hjoinedSound ?_⟩
    rw [htree, Branch.overlay_overlay base.toBranch haboveSound.distinct]
  · intro lower upper
    exact ⟨rfl, Branch.empty_overlay lower.distinct_tree, Branch.overlay_self upper.distinct_tree,
      Branch.overlay_overlay lower.tree upper.distinct_tree⟩

end Engine

end Phrasebook
