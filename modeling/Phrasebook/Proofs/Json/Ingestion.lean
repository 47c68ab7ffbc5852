import Phrasebook.Json.Stored
import Phrasebook.Proofs.Json.Ranges
import Phrasebook.Proofs.Table.Distinct
import Phrasebook.Source.Load

/-!
# Two ways from a JSON text to a nested value

A JSON text can be read as a nested value at once, or it is stored first and the stored value is
turned into a nested one. The ways differ in what they do with repeated members: the first keeps all
of them, the second sets them one after the other. And each has numbers of its own, which agree on
all numbers that a text can have (`Json.fits_of_read`).

* `Nested.collapse`: a nested value in which every mapping has each key once;
* `Nested.ofStored_store`: storing makes the same numbers, and nothing is lost but what repetitions
  replace;
* `Nested.ofJson_distinct`: setting members one after the other collapses the value;
* `Nested.ofStored_of_readStored`: the two ways from a text agree up to collapsing.
-/

namespace Phrasebook

open Number Table

namespace Nested

mutual

/-- The value in which every mapping has each of its keys once, where it comes first and with the
value that it has last. -/
def collapse : Nested → Nested
  | .sequence items => .sequence (collapseItems items)
  | .mapping entries => .mapping (lastOfEach (collapseEntries entries))
  | .null => .null
  | .boolean b => .boolean b
  | .integer n => .integer n
  | .float x => .float x
  | .string text => .string text

/-- The items of a sequence, each of them collapsed. -/
def collapseItems : List Nested → List Nested
  | [] => []
  | item :: rest => collapse item :: collapseItems rest

/-- The entries of a mapping, the value of each of them collapsed. -/
def collapseEntries : List (String × Nested) → List (String × Nested)
  | [] => []
  | (key, value) :: rest => (key, collapse value) :: collapseEntries rest

end

example : collapse (.mapping [("a", .integer 1), ("b", .integer 2),
      ("a", .mapping [("c", .integer 3), ("c", .integer 4)])]) =
    .mapping [("a", .mapping [("c", .integer 4)]), ("b", .integer 2)] := rfl

mutual

/-- No mapping of a value repeats a key. -/
def Unrepeated : Nested → Prop
  | .sequence items => ItemsUnrepeated items
  | .mapping entries => (entries.map Prod.fst).Nodup ∧ EntriesUnrepeated entries
  | .null | .boolean _ | .integer _ | .float _ | .string _ => True

/-- No mapping in the items of a sequence repeats a key. -/
def ItemsUnrepeated : List Nested → Prop
  | [] => True
  | item :: rest => Unrepeated item ∧ ItemsUnrepeated rest

/-- No mapping in the values of a mapping repeats a key. -/
def EntriesUnrepeated : List (String × Nested) → Prop
  | [] => True
  | (_, value) :: rest => Unrepeated value ∧ EntriesUnrepeated rest

end

mutual

/-- A value that repeats no key is collapsed already. -/
theorem collapse_of_unrepeated : ∀ {value : Nested}, value.Unrepeated → value.collapse = value
  | .sequence items, h => by rw [collapse, collapseItems_of_unrepeated h]
  | .mapping entries, ⟨hnodup, h⟩ => by
    rw [collapse, collapseEntries_of_unrepeated h, lastOfEach_of_nodup hnodup]
  | .null, _ | .boolean _, _ | .integer _, _ | .float _, _ | .string _, _ => rfl

theorem collapseItems_of_unrepeated : ∀ {items : List Nested}, ItemsUnrepeated items →
    collapseItems items = items
  | [], _ => rfl
  | item :: rest, ⟨hitem, hrest⟩ => by
    rw [collapseItems, collapse_of_unrepeated hitem, collapseItems_of_unrepeated hrest]

theorem collapseEntries_of_unrepeated : ∀ {entries : List (String × Nested)},
    EntriesUnrepeated entries → collapseEntries entries = entries
  | [], _ => rfl
  | (key, value) :: rest, ⟨hvalue, hrest⟩ => by
    rw [collapseEntries, collapse_of_unrepeated hvalue, collapseEntries_of_unrepeated hrest]

end

end Nested

/-! ### Numbers -/

/-- A number that fits can be stored, and it is the same integer or floating-point number. -/
theorem exists_stored_of_fits {n : JsonNumber} (h : n.Fits) :
    ∃ stored, StoredNumber.ofJson? n = some stored ∧
      Nested.ofStoredNumber stored = Nested.ofJsonNumber n := by
  cases n with
  | float x => exact ⟨.float x, if_pos h, rfl⟩
  | integer n =>
    obtain ⟨hlow, hhigh⟩ := h
    refine ⟨_, rfl, ?_⟩
    split
    · rename_i hsign
      -- The word without a sign holds the integer, and both ways ask if it fits with one.
      have hword : ((UInt64.ofNat n.toNat).toNat : Int) = n := by
        rw [UInt64.toNat_ofNat']
        omega
      rw [Nested.ofStoredNumber, Nested.ofJsonNumber, StoredNumber.int64?, StoredNumber.float?,
        hword]
      rfl
    · rename_i hsign
      have hfits : Number.int64? n = some (Int64.ofInt n) :=
        if_pos (fitsSigned_iff.mpr ⟨hlow, by omega⟩)
      rw [Nested.ofStoredNumber, Nested.ofJsonNumber, StoredNumber.int64?, hfits]

/-! ### Members -/

section Members

variable {α β : Type} {name key : String} {value added : α} {members : List (String × α)}

/-- Setting a member keeps the names, or adds its own at the end. -/
theorem Json.map_fst_setMember (name : String) (value : α) (members : List (String × α)) :
    (Json.setMember name value members).map Prod.fst =
      if name ∈ members.map Prod.fst then members.map Prod.fst
      else members.map Prod.fst ++ [name] := by
  induction members with
  | nil => simp [Json.setMember]
  | cons member members ih =>
    obtain ⟨n, v⟩ := member
    rw [Json.setMember]
    by_cases hname : n = name
    · simp [hname]
    · rw [if_neg hname, List.map_cons, ih]
      by_cases hmem : name ∈ members.map Prod.fst
      · simp [hmem]
      · simp [hmem, Ne.symm hname]

theorem Json.mem_setMember_self (name : String) (value : α) (members : List (String × α)) :
    (name, value) ∈ Json.setMember name value members := by
  induction members with
  | nil => exact List.mem_singleton_self _
  | cons member members ih =>
    obtain ⟨n, v⟩ := member
    rw [Json.setMember]
    split
    · rename_i hname
      rw [hname]
      exact List.mem_cons_self
    · exact List.mem_cons_of_mem _ ih

/-- Setting a member leaves those of other names. -/
theorem Json.mem_setMember_of_ne (hne : key ≠ name) (h : (key, added) ∈ members) :
    (key, added) ∈ Json.setMember name value members := by
  induction members with
  | nil => cases h
  | cons member members ih =>
    obtain ⟨n, v⟩ := member
    rw [Json.setMember]
    rcases List.mem_cons.mp h with heq | hlater
    · cases heq
      rw [if_neg hne]
      exact List.mem_cons_self
    · split
      · exact List.mem_cons_of_mem _ hlater
      · exact List.mem_cons_of_mem _ (ih hlater)

/-- Values can be changed before they are set or afterwards. -/
theorem Json.map_setMember (f : α → β) (name : String) (value : α) (members : List (String × α)) :
    (Json.setMember name value members).map (fun member => (member.1, f member.2)) =
      Json.setMember name (f value) (members.map fun member => (member.1, f member.2)) := by
  induction members with
  | nil => rfl
  | cons member members ih =>
    obtain ⟨n, v⟩ := member
    rw [Json.setMember, List.map_cons, Json.setMember]
    split
    · rfl
    · rw [List.map_cons, ih]

/-- Setting members one after the other leaves each name at its first place with its last value. -/
theorem Json.foldl_setMember (members : List (String × α)) :
    members.foldl (fun set member => Json.setMember member.1 member.2 set) [] =
      lastOfEach members := by
  induction members using List.reverseRecOn with
  | nil => rfl
  | append_singleton members member ih =>
    obtain ⟨name, value⟩ := member
    rw [List.foldl_append, ih]
    apply eq_lastOfEach
    · rw [List.map_append]
      show (Json.setMember name value (lastOfEach members)).map Prod.fst = _
      rw [Json.map_fst_setMember, map_fst_lastOfEach]
      show _ = (members.map Prod.fst ++ [name]).eraseDups
      rw [eraseDups_concat]
      simp only [List.mem_eraseDups]
    · intro key last hlast
      rw [lastBinding_concat] at hlast
      show (key, last) ∈ Json.setMember name value (lastOfEach members)
      by_cases hkey : key = name
      · rw [if_pos hkey] at hlast
        rw [hkey, ← hlast]
        exact Json.mem_setMember_self name value _
      · rw [if_neg hkey] at hlast
        exact Json.mem_setMember_of_ne hkey (mem_lastOfEach_iff.mpr hlast)

end Members

namespace Nested

theorem ofJsonMembers_eq_map (members : List (String × Json)) :
    ofJsonMembers members = members.map fun member => (member.1, ofJson member.2) := by
  induction members with
  | nil => rfl
  | cons member members ih => rw [ofJsonMembers, ih, List.map_cons]

theorem ofStoredMembers_eq_map (members : List (String × StoredJson)) :
    ofStoredMembers members = members.map fun member => (member.1, ofStored member.2) := by
  induction members with
  | nil => rfl
  | cons member members ih => rw [ofStoredMembers, ih, List.map_cons]

mutual

/-- A stored value becomes the nested value of the text with each member once. -/
theorem ofStored_store : ∀ {v : Json}, v.Fits → ofStored v.store = ofJson v.distinct
  | .number n, h => by
    obtain ⟨stored, hstored, hsame⟩ := exists_stored_of_fits h
    rw [Json.store, hstored, Json.distinct, ofJson, ← hsame]
    rfl
  | .array items, h => by
    rw [Json.store, Json.distinct, ofStored, ofJson, ofStoredItems_storeItems h]
  | .object members, h => by
    rw [Json.store, Json.distinct, ofStored, ofJson, ofStoredMembers_storeMembers h [] [] rfl]
  | .null, _ | .boolean _, _ | .string _, _ => rfl

theorem ofStoredItems_storeItems : ∀ {items : List Json}, Json.ItemsFit items →
    ofStoredItems (Json.storeItems items) = ofJsonItems (Json.distinctItems items)
  | [], _ => rfl
  | item :: rest, ⟨hitem, hrest⟩ => by
    rw [Json.storeItems, Json.distinctItems, ofStoredItems, ofJsonItems, ofStored_store hitem,
      ofStoredItems_storeItems hrest]

/-- Both set members in the same places, whatever was set before. -/
theorem ofStoredMembers_storeMembers : ∀ {members : List (String × Json)},
    Json.MembersFit members → ∀ (stored : List (String × StoredJson))
      (built : List (String × Json)), ofStoredMembers stored = ofJsonMembers built →
      ofStoredMembers (Json.storeMembers stored members) =
        ofJsonMembers (Json.distinctMembers built members)
  | [], _, _, _, hbefore => hbefore
  | (name, value) :: rest, ⟨hvalue, hrest⟩, stored, built, hbefore => by
    rw [Json.storeMembers, Json.distinctMembers]
    apply ofStoredMembers_storeMembers hrest
    rw [ofStoredMembers_eq_map, ofJsonMembers_eq_map] at hbefore ⊢
    rw [Json.map_setMember, Json.map_setMember, hbefore, ofStored_store hvalue]

end

mutual

/-- To set each member in turn is to collapse the value. -/
theorem ofJson_distinct : ∀ v : Json, ofJson v.distinct = (ofJson v).collapse
  | .array items => by
    rw [Json.distinct, ofJson, ofJson, collapse, ofJsonItems_distinctItems items]
  | .object members => by
    rw [Json.distinct, ofJson, ofJson, collapse, ofJsonMembers_distinctMembers members [],
      ← Json.foldl_setMember]
    rfl
  | .number (.float x) => rfl
  | .number (.integer n) => by
    rw [Json.distinct, ofJson, ofJsonNumber]
    split <;> rfl
  | .null | .boolean _ | .string _ => rfl

theorem ofJsonItems_distinctItems : ∀ items : List Json,
    ofJsonItems (Json.distinctItems items) = collapseItems (ofJsonItems items)
  | [] => rfl
  | item :: rest => by
    rw [Json.distinctItems, ofJsonItems, ofJsonItems, collapseItems, ofJson_distinct item,
      ofJsonItems_distinctItems rest]

theorem ofJsonMembers_distinctMembers : ∀ (members built : List (String × Json)),
    ofJsonMembers (Json.distinctMembers built members) =
      (collapseEntries (ofJsonMembers members)).foldl
        (fun set entry => Json.setMember entry.1 entry.2 set) (ofJsonMembers built)
  | [], _ => rfl
  | (name, value) :: rest, built => by
    rw [Json.distinctMembers, ofJsonMembers_distinctMembers rest, ofJsonMembers, collapseEntries,
      List.foldl_cons, ← ofJson_distinct value, ofJsonMembers_eq_map (Json.setMember _ _ _),
      Json.map_setMember, ← ofJsonMembers_eq_map]

end

/-! ### Texts -/

/-- Of every text a stored value can be read if and only if a nested value can be, and the stored
value becomes that nested value collapsed: in every mapping, the dropped ones included, each key
where it comes first and with the value that it has last. Where no mapping repeats a key, the two
nested values are identical, with the same numbers as integers and as floating-point numbers. -/
theorem ofStored_of_readStored (text origin : String) :
    (Json.readStored text).map ofStored =
        (parse .json text origin).toOption.map collapse ∧
      ∀ value, parse .json text origin = .ok value → value.Unrepeated →
        (Json.readStored text).map ofStored = some value := by
  have hagree : (Json.readStored text).map ofStored =
      (parse .json text origin).toOption.map collapse := by
    rw [Json.readStored, parse, Format.parse?]
    cases hread : Json.read text with
    | none => rfl
    | some v =>
      show some (ofStored v.store) = some (ofJson v).collapse
      rw [ofStored_store (Json.fits_of_read hread), ofJson_distinct]
  refine ⟨hagree, ?_⟩
  intro value hparse hunrepeated
  rw [hagree, hparse]
  show some value.collapse = some value
  rw [collapse_of_unrepeated hunrepeated]

/-- A text without repetitions, with the least integer beyond those with a sign and with minus zero,
which both become floating-point numbers. -/
theorem ofStored_of_readStored_unrepeated :
    ∃ value, parse .json "\x7b\"b\":-1,\"a\":[9223372036854775808,-0]\x7d" "input" = .ok value ∧
      value.Unrepeated ∧
      value = .mapping [("b", .integer (-1)),
        ("a", .sequence [.float (.ofInt 9223372036854775808), .float (Binary64.ofInt 0).negate])] ∧
      (Json.readStored "\x7b\"b\":-1,\"a\":[9223372036854775808,-0]\x7d").map ofStored =
        some value := by
  have hread : Json.read "\x7b\"b\":-1,\"a\":[9223372036854775808,-0]\x7d" =
      some (.object [("b", .number (.integer (-1))), ("a", .array
        [.number (.integer 9223372036854775808), .number (.float (Binary64.ofInt 0).negate)])]) :=
    rfl
  have hparse : parse .json "\x7b\"b\":-1,\"a\":[9223372036854775808,-0]\x7d" "input" =
      .ok (.mapping [("b", .integer (-1)), ("a", .sequence
        [.float (.ofInt 9223372036854775808), .float (Binary64.ofInt 0).negate])]) := by
    have hnegative : Number.int64? (-1) = some (-1) := rfl
    have hlarge : Number.int64? 9223372036854775808 = none := rfl
    rw [parse, Format.parse?, hread]
    simp only [Option.map_some, ofJson, ofJsonMembers, ofJsonItems, ofJsonNumber, hnegative, hlarge]
  have hunrepeated : Unrepeated (.mapping [("b", .integer (-1)), ("a", .sequence
      [.float (.ofInt 9223372036854775808), .float (Binary64.ofInt 0).negate])]) := by
    simp [Unrepeated, ItemsUnrepeated, EntriesUnrepeated]
  exact ⟨_, hparse, hunrepeated, rfl, (ofStored_of_readStored _ "input").2 _ hparse hunrepeated⟩

end Nested

end Phrasebook
