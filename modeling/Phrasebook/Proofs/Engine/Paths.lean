import Phrasebook.Proofs.Engine.History

/-!
# The files that locales came from

An engine remembers for each locale the file it was loaded from, so that it can be loaded again. What
is remembered is told by the history of the run: the last event that decides about a locale is a load
or a reload from that file, and every other way to change the locale forgets it.

* `Engine.PathsLoaded`: only locales of the catalog have a remembered file;
* `Engine.reload_eq_notFromFile_iff`: a reload is refused for want of a file exactly if none is
  remembered;
* `Session.get?_paths_run_iff`: what is remembered after a run is what the last deciding event left.
-/

namespace Phrasebook

namespace Event

/-- Whether an event decides which file a locale came from. -/
def settles (locale : String) (event : Event) : Bool :=
  match event.operation, event.reply with
  | .load name _, .loaded (.ok _) => name == locale
  | .loadFile _ name _, .loaded (.ok _) => name == locale
  | .reload _ name, .loaded (.ok _) => name == locale
  | .unload name, _ => name == locale
  | .install _, _ => true
  | _, _ => false

/-- Whether an event is a reload. -/
def isReload (event : Event) : Bool :=
  match event.operation with
  | .reload _ _ => true
  | _ => false

/-- An event that decides about a locale loads that one, if it loads any. -/
theorem eq_of_settles {event : Event} {locale name : String} (h : event.settles locale = true)
    (hop : event.operation.loads? = some name) : name = locale := by
  obtain ⟨op, reply, file⟩ := event
  cases op <;> cases hop <;> simp only [settles] at h
  case extend => cases h
  all_goals
    split at h <;> simp_all

/-- Whether an event loads a locale from the file at a path. -/
def LoadsFrom (locale path : String) (event : Event) : Prop :=
  ∃ files, event.operation = .loadFile files locale path

/-- Whether an event loads a locale again and reads the file at a path. -/
def ReloadsFrom (locale path : String) (event : Event) : Prop :=
  ∃ files, event.operation = .reload files locale ∧ event.file = some path

end Event

namespace Catalog

variable {c : Catalog} {locale other : String}

/-- A locale is there after a tree was put in its place, and others are as before. -/
theorem hasLocale_withLocale (c : Catalog) (locale other : String) (root : Branch) :
    (c.withLocale locale root).hasLocale other = (other == locale || c.hasLocale other) := by
  simp only [hasLocale, withLocale, Table.contains, Table.get?_insert]
  by_cases hother : other = locale <;> simp [hother]

/-- Removing a locale leaves the others. -/
theorem hasLocale_withoutLocale_of_ne (h : other ≠ locale) :
    (c.withoutLocale locale).hasLocale other = c.hasLocale other := by
  simp [hasLocale, withoutLocale, Table.contains, Table.get?_erase, h]

/-- A locale without a tree is not there. -/
theorem root?_eq_none_of_hasLocale (h : c.hasLocale locale = false) : c.root? locale = none := by
  simpa [hasLocale, Table.contains, root?] using h

end Catalog

namespace Engine

variable {e next : Engine} {past : List Catalog} {op : Operation} {reply : Reply}
  {locale other path : String}

/-! ### One operation -/

/-- Loading a locale leaves the files of others. -/
theorem get?_pathsAfter_of_ne (hop : op.loads? = some locale) (hne : other ≠ locale) :
    (e.pathsAfter op).get? other = e.paths.get? other := by
  cases op <;> cases hop <;> simp only [pathsAfter]
  case load => simp [Table.get?_erase, hne]
  case loadFile => simp [Table.get?_insert, hne]
  case reload =>
    cases e.paths.get? locale with
    | none => rfl
    | some path => simp [Table.get?_insert, hne]

/-- Loading a locale remembers the file that was read, and forgets any other one. -/
theorem get?_pathsAfter_self (hop : op.loads? = some locale)
    (hextend : ∀ value, op ≠ .extend locale value) :
    (e.pathsAfter op).get? locale = e.fileRead op := by
  cases op <;> cases hop <;> simp only [pathsAfter, fileRead]
  case load => simp [Table.get?_erase]
  case extend value => exact absurd rfl (hextend value)
  case loadFile => simp [Table.get?_insert]
  case reload =>
    cases hpath : e.paths.get? locale with
    | none => exact hpath
    | some path => simp [Table.get?_insert]

/-- After an event that decides about a locale, the file that was read is remembered for it. -/
theorem Change.get?_paths_of_settles (h : e.Change past op reply next)
    (hsettles : Event.settles locale ⟨op, reply, e.fileRead op⟩ = true) :
    next.paths.get? locale = e.fileRead op := by
  cases h with
  | refused hop failure => cases op <;> cases hop <;> simp [Event.settles] at hsettles
  | @placed _ name hop root hroot =>
    -- The locale is the one that is loaded, and extending decides nothing.
    have hname : name = locale := Event.eq_of_settles hsettles hop
    subst hname
    apply get?_pathsAfter_self hop
    rintro value rfl
    simp [Event.settles] at hsettles
  | installed choose => rfl
  | removed hfound =>
    simp only [Event.settles, beq_iff_eq] at hsettles
    simp [swap, Table.get?_erase, hsettles, fileRead]
  | absent hmissing =>
    simp only [Event.settles, beq_iff_eq] at hsettles
    simp [Table.get?_erase, hsettles, fileRead]
  | kept hop hwrote hrefused hcatalog hpaths =>
    cases op <;> simp [Event.settles, Operation.isWrite, Operation.loads?] at hsettles hop

/-- Other events leave the file that is remembered for a locale. -/
theorem Change.get?_paths_of_not_settles (h : e.Change past op reply next)
    (hsettles : Event.settles locale ⟨op, reply, e.fileRead op⟩ = false) :
    next.paths.get? locale = e.paths.get? locale := by
  cases h with
  | refused hop failure => rfl
  | @placed _ name hop root hroot =>
    show (e.pathsAfter op).get? locale = e.paths.get? locale
    by_cases hname : name = locale
    · subst hname
      cases op <;> cases hop <;> simp [Event.settles] at hsettles
      rfl
    · exact get?_pathsAfter_of_ne hop (Ne.symm hname)
  | installed choose => simp [Event.settles] at hsettles
  | removed hfound =>
    simp only [Event.settles, beq_eq_false_iff_ne] at hsettles
    simp [swap, Table.get?_erase, Ne.symm hsettles]
  | absent hmissing =>
    simp only [Event.settles, beq_eq_false_iff_ne] at hsettles
    simp [Table.get?_erase, Ne.symm hsettles]
  | kept hop hwrote hrefused hcatalog hpaths => rw [hpaths]

/-- Whether only locales of the catalog have a remembered file. -/
def PathsLoaded (e : Engine) : Prop :=
  ∀ locale path, e.paths.get? locale = some path → e.catalog.hasLocale locale = true

/-- Every operation keeps the remembered files to locales of the catalog. -/
theorem PathsLoaded.change (h : e.Change past op reply next) (hloaded : e.PathsLoaded) :
    next.PathsLoaded := by
  intro locale path hpath
  cases h with
  | refused hop failure => exact hloaded locale path hpath
  | @placed _ name hop root hroot =>
    show (e.catalog.withLocale name root).hasLocale locale = true
    rw [Catalog.hasLocale_withLocale]
    by_cases hname : locale = name
    · simp [hname]
    · have hbefore : e.paths.get? locale = some path :=
        (get?_pathsAfter_of_ne hop hname).symm.trans hpath
      simp [hloaded locale path hbefore]
  | installed choose => cases hpath
  | @removed name hfound =>
    -- The file of the locale that was removed is forgotten, so another one is remembered.
    simp only [swap, Table.get?_erase] at hpath
    split at hpath
    · cases hpath
    · rename_i hname
      show (e.catalog.withoutLocale name).hasLocale locale = true
      rw [Catalog.hasLocale_withoutLocale_of_ne hname]
      exact hloaded locale path hpath
  | absent hmissing =>
    simp only [Table.get?_erase] at hpath
    split at hpath
    · cases hpath
    · exact hloaded locale path hpath
  | kept hop hwrote hrefused hcatalog hpaths =>
    rw [hcatalog]
    rw [hpaths] at hpath
    exact hloaded locale path hpath

/-- In every reachable engine only locales of the catalog have a remembered file. -/
theorem Reachable.pathsLoaded (h : e.Reachable) : e.PathsLoaded := by
  obtain ⟨config, route, ops, rfl⟩ := h
  refine Session.run_induction (P := fun s => s.engine.PathsLoaded) ?_ ?_
  · intro locale path hpath
    cases hpath
  · intro s op _ hloaded
    exact hloaded.change (s.engine.change_perform s.past op)

/-- No file is remembered for a locale that is not in the catalog. -/
theorem PathsLoaded.get?_eq_none (h : e.PathsLoaded)
    (hmissing : e.catalog.hasLocale locale = false) : e.paths.get? locale = none := by
  cases hpath : e.paths.get? locale with
  | none => rfl
  | some path =>
    rw [h locale path hpath] at hmissing
    cases hmissing

/-! ### Loading and reloading -/

/-- Reading a file never fails as a reload without one. -/
theorem load_ne_notFromFile (files : Files) (path name : String) :
    Nested.load files path ≠ .error (.notFromFile name) := by
  unfold Nested.load
  split
  · simp
  · split
    · simp
    · unfold Nested.parse
      split <;> simp

/-- Reading a value as a tree never fails as a reload without a file. -/
theorem toTree_ne_notFromFile (value : Nested) (name : String) :
    value.toTree ≠ .error (.notFromFile name) := by
  unfold Nested.toTree
  split <;> simp

/-- Loading from a file never fails as a reload without one. -/
theorem loadFile_ne_notFromFile (e : Engine) (files : Files) (locale path name : String) :
    (e.loadFile files locale path).1 ≠ .error (.notFromFile name) := by
  intro h
  unfold loadFile at h
  cases hvalue : Nested.load files path with
  | error failure =>
    simp only [hvalue] at h
    cases h
    exact load_ne_notFromFile files path name hvalue
  | ok value =>
    rw [hvalue] at h
    cases htree : value.toTree with
    | error failure =>
      simp only [htree] at h
      cases h
      exact toTree_ne_notFromFile value name htree
    | ok root =>
      simp only [htree] at h
      cases h

/-- A reload is refused for want of a file exactly if none is remembered. -/
theorem reload_eq_notFromFile_iff (files : Files) (name : String) :
    (e.reload files locale).1 = .error (.notFromFile name) ↔
      name = locale ∧ e.paths.get? locale = none := by
  cases hpath : e.paths.get? locale with
  | none =>
    rw [reload_of_get?_eq_none hpath]
    simp [eq_comm]
  | some path =>
    rw [reload_of_get?_eq_some hpath]
    simp [loadFile_ne_notFromFile]

/-- Extending a locale that is not there, and so came from no file, is loading it. -/
theorem PathsLoaded.extend_eq_load (h : e.PathsLoaded)
    (hmissing : e.catalog.hasLocale locale = false) (value : Nested) :
    e.extend locale value = e.load locale value := by
  have hpaths : e.paths.erase locale = e.paths :=
    Table.erase_of_get?_eq_none (h.get?_eq_none hmissing)
  rw [extend, load, Catalog.root?_eq_none_of_hasLocale hmissing, hpaths]

end Engine

/-! ### Runs -/

namespace Session

variable {locale : String}

/-- Where events of one kind determine the remembered file of a locale and all others leave it
alone, the file that is remembered after a run is the one that the last event of that kind left. -/
theorem get?_paths_run_iff {kind : Event → Bool} {Leaves : String → Event → Prop}
    (hleaves : ∀ (s : Session) (op : Operation), kind (s.event op) = true → ∀ path,
      ((s.step op).2.engine.paths.get? locale = some path ↔ Leaves path (s.event op)))
    (hkeeps : ∀ (s : Session) (op : Operation), kind (s.event op) = false →
      (s.step op).2.engine.paths.get? locale = s.engine.paths.get? locale)
    (config : Config) (route : Request → Nat) (ops : List Operation) (path : String) :
    ((start config route).run ops).engine.paths.get? locale = some path ↔
      ∃ event, lastEvent kind ((start config route).events ops) = some event ∧
        Leaves path event := by
  have hlast := run_lastEvent (fun e => e.paths.get? locale) kind
    (fun event file => ∀ path, file = some path ↔ Leaves path event) hleaves hkeeps
    (start config route) ops
  cases hkind : lastEvent kind ((start config route).events ops) with
  | none =>
    -- Nothing was decided since the start, and then nothing is remembered.
    rw [hkind] at hlast
    dsimp only at hlast
    rw [hlast]
    simp [start, Engine.new, Table.empty, Table.get?]
  | some event =>
    rw [hkind] at hlast
    simpa using hlast path

/-- An event that decides about a locale and after which a path is remembered loads or reloads the
locale from there. -/
theorem get?_paths_step_iff {s : Session} {op : Operation}
    (h : (s.event op).settles locale = true) (path : String) :
    (s.step op).2.engine.paths.get? locale = some path ↔
      (s.event op).LoadsFrom locale path ∨ (s.event op).ReloadsFrom locale path := by
  have hpaths := (s.engine.change_perform s.past op).get?_paths_of_settles h
  rw [show (s.step op).2.engine.paths.get? locale = s.engine.fileRead op from hpaths]
  -- Of the operations that decide about a locale, two read a file.
  cases op with
  | loadFile files name path' =>
    have hname : name = locale := Event.eq_of_settles h rfl
    simp [event, Engine.fileRead, Event.LoadsFrom, Event.ReloadsFrom, hname]
  | reload files name =>
    have hname : name = locale := Event.eq_of_settles h rfl
    simp [event, Engine.fileRead, Event.LoadsFrom, Event.ReloadsFrom, hname]
  | _ => simp [event, Engine.fileRead, Event.LoadsFrom, Event.ReloadsFrom]

/-- An event that decides nothing about a locale leaves the file that is remembered for it. -/
theorem get?_paths_step_of_not_settles {s : Session} {op : Operation}
    (h : (s.event op).settles locale = false) :
    (s.step op).2.engine.paths.get? locale = s.engine.paths.get? locale :=
  (s.engine.change_perform s.past op).get?_paths_of_not_settles h

/-- A reload leaves the file that is remembered, which is the one it reads. -/
theorem get?_paths_step_of_isReload {s : Session} {op : Operation}
    (h : (s.event op).isReload = true) :
    (s.step op).2.engine.paths.get? locale = s.engine.paths.get? locale := by
  cases hsettles : (s.event op).settles locale with
  | false => exact get?_paths_step_of_not_settles hsettles
  | true =>
    have hpaths := (s.engine.change_perform s.past op).get?_paths_of_settles hsettles
    cases op <;> simp [event, Event.isReload] at h
    case reload files name =>
      have hname : name = locale := Event.eq_of_settles hsettles rfl
      subst hname
      exact hpaths

/-- **Remembered files follow the run.** After any run the file that is remembered for a locale is the
one that the last event which decides about the locale loaded or reloaded it from. A reload is refused
for want of a file exactly if none is remembered, and none is remembered for a locale that is not
there, which makes extending such a locale the same as loading it. -/
theorem paths_follow_run (config : Config) (route : Request → Nat) (ops : List Operation) :
    let engine := ((start config route).run ops).engine
    let history := (start config route).events ops
    (∀ locale path, engine.paths.get? locale = some path ↔
      ∃ event, lastEvent (·.settles locale) history = some event ∧
        (event.LoadsFrom locale path ∨ event.ReloadsFrom locale path)) ∧
    -- The file that a reload reads is the one that the last load before it came from.
    (∀ locale path, engine.paths.get? locale = some path ↔
      ∃ event, lastEvent (fun event => event.settles locale && !event.isReload) history =
          some event ∧
        event.LoadsFrom locale path) ∧
    (∀ files locale name, (engine.reload files locale).1 = .error (.notFromFile name) ↔
      name = locale ∧ engine.paths.get? locale = none) ∧
    (∀ locale path, engine.paths.get? locale = some path →
      engine.catalog.hasLocale locale = true) ∧
    (∀ locale value, engine.catalog.hasLocale locale = false →
      engine.extend locale value = engine.load locale value) := by
  intro engine history
  have hloaded : engine.PathsLoaded := Engine.Reachable.pathsLoaded ⟨config, route, ops, rfl⟩
  refine ⟨?_, ?_, ?_, hloaded, ?_⟩
  · intro locale
    apply get?_paths_run_iff
    · intro s op hsettles
      exact get?_paths_step_iff hsettles
    · intro s op hsettles
      exact get?_paths_step_of_not_settles hsettles
  · intro locale
    apply get?_paths_run_iff
    · intro s op hkind path
      obtain ⟨hsettles, hreload⟩ := (Bool.and_eq_true _ _).mp hkind
      rw [get?_paths_step_iff hsettles]
      apply or_iff_left
      rintro ⟨files, hop, -⟩
      simp [Event.isReload, hop] at hreload
    · intro s op hkind
      rcases Bool.and_eq_false_iff.mp hkind with hsettles | hreload
      · exact get?_paths_step_of_not_settles hsettles
      · exact get?_paths_step_of_isReload (by simpa using hreload)
  · intro files locale name
    exact Engine.reload_eq_notFromFile_iff files name
  · intro locale value hmissing
    exact hloaded.extend_eq_load hmissing value

end Session

end Phrasebook
