import Mathlib.Data.List.Infix
import Phrasebook.Template.Render

/-!
# Escapes for markup

A template may hold markup, a parameter may not bring any. Under the escapes for markup, a text
parameter is written with an entity for each ampersand, angle bracket and quote; every entity begins
with an ampersand and has no other such character inside. The other parameters are written as they
are, but numbers and truth values have only letters, digits, a minus sign and a point. So whatever
is put into a template is *harmless*, and what is left of brackets, quotes and bare ampersands comes
from the literal text around it.

Nothing is lost by this: reading the entities back from the left gives the text again, since none of
its own ampersands is left as it was.

* `Harmless cs`: a text without brackets and quotes in which every ampersand begins an entity;
* `harmless_escaped`: what a parameter is written as;
* `decode`: reads entities back, `decode_escape` undoes the escapes;
* `html_lets_no_markup_in`: the output of a template.
-/

namespace Phrasebook

open Number

/-! ### Harmless texts -/

/-- The characters of markup. -/
def marks : List Char :=
  ['&', '<', '>', '"', '\'']

/-- Whether a character is one of markup. -/
def isMark (c : Char) : Bool :=
  marks.contains c

/-- The entities that stand for characters of markup. -/
def entities : List String :=
  ["&amp;", "&lt;", "&gt;", "&quot;", "&#39;"]

/-- Whether a text begins with an entity. -/
def BeginsEntity (cs : List Char) : Prop :=
  ∃ entity ∈ entities, entity.toList <+: cs

/-- Whether a text holds no markup: no bracket or quote, and no ampersand but those of entities. -/
structure Harmless (cs : List Char) : Prop where
  /-- No character of markup but the ampersand. -/
  unbracketed : ∀ c ∈ cs, isMark c = true → c = '&'
  /-- Every ampersand begins an entity. -/
  entity : ∀ before after, cs = before ++ '&' :: after → BeginsEntity ('&' :: after)

/-- A character of two texts put together is one of the first text or one of the second. -/
theorem append_eq_append_cons {cs ds before after : List Char} {c : Char}
    (h : cs ++ ds = before ++ c :: after) :
    (∃ mid, cs = before ++ c :: mid ∧ after = mid ++ ds) ∨
      ∃ mid, before = cs ++ mid ∧ ds = mid ++ c :: after := by
  -- The first text ends in front of the character, or the character is in it.
  rcases List.append_eq_append_iff.mp h with ⟨mid, hbefore, hds⟩ | ⟨mid, hcs, hrest⟩
  · exact Or.inr ⟨mid, hbefore, hds⟩
  · cases mid with
    | nil => exact Or.inr ⟨[], by rw [hcs, List.append_nil, List.append_nil], hrest.symm⟩
    | cons d mid =>
      obtain ⟨rfl, hafter⟩ := List.cons.inj hrest
      exact Or.inl ⟨mid, hcs, hafter⟩

/-- A text goes on beginning with an entity if something is put behind it. -/
theorem BeginsEntity.append {cs : List Char} (h : BeginsEntity cs) (ds : List Char) :
    BeginsEntity (cs ++ ds) := by
  obtain ⟨entity, hmem, hbegins⟩ := h
  exact ⟨entity, hmem, hbegins.trans (List.prefix_append cs ds)⟩

/-- A text without any character of markup is harmless. -/
theorem harmless_of_plain {cs : List Char} (h : ∀ c ∈ cs, isMark c = false) :
    Harmless cs where
  unbracketed c hc hmark := by
    rw [h c hc] at hmark
    cases hmark
  entity before after hcs := by
    have hnot := h '&' (by rw [hcs]; exact List.mem_append_right before List.mem_cons_self)
    cases hnot

/-- Harmless texts put together are harmless. -/
theorem Harmless.append {cs ds : List Char} (hcs : Harmless cs) (hds : Harmless ds) :
    Harmless (cs ++ ds) where
  unbracketed c hc := by
    rcases List.mem_append.mp hc with hc | hc
    · exact hcs.unbracketed c hc
    · exact hds.unbracketed c hc
  entity before after hsplit := by
    rcases append_eq_append_cons hsplit with ⟨mid, hfirst, rfl⟩ | ⟨mid, -, hsecond⟩
    · exact (hcs.entity before mid hfirst).append ds
    · exact hds.entity mid after hsecond

/-- An entity is harmless. -/
theorem harmless_of_mem_entities {entity : String} (h : entity ∈ entities) :
    Harmless entity.toList := by
  -- The ampersand comes first, and the rest has no character of markup.
  have hshape : ∀ entity ∈ entities, ∃ more, entity.toList = '&' :: more ∧
      more.all (!isMark ·) = true := by
    simp only [entities, List.forall_mem_cons]
    exact ⟨⟨_, rfl, rfl⟩, ⟨_, rfl, rfl⟩, ⟨_, rfl, rfl⟩, ⟨_, rfl, rfl⟩, ⟨_, rfl, rfl⟩,
      List.forall_mem_nil _⟩
  obtain ⟨more, hentity, hmore⟩ := hshape entity h
  have hrest : Harmless more := harmless_of_plain (by simpa using hmore)
  constructor
  · intro c hc hmark
    rw [hentity] at hc
    rcases List.mem_cons.mp hc with rfl | hc
    · rfl
    · exact hrest.unbracketed c hc hmark
  · intro before after hsplit
    cases before with
    | nil => exact ⟨entity, h, by rw [hsplit]; exact List.prefix_refl _⟩
    -- An ampersand further on would be one of the rest, which has none.
    | cons d before =>
      rw [hentity] at hsplit
      exact hrest.entity before after (List.cons.inj hsplit).2

/-! ### What parameters are written as -/

/-- The characters of markup are the ones that are escaped. -/
theorem isMark_iff {c : Char} : isMark c = true ↔ c ∈ marks :=
  List.contains_iff_mem

/-- A character of markup is written as an entity. -/
theorem escapeChar_html_of_isMark {c : Char} (h : isMark c = true) :
    ∃ entity ∈ entities, EscapeSet.html.escapeChar c = entity.toList := by
  simp only [isMark_iff, marks, List.mem_cons, List.not_mem_nil, or_false] at h
  rcases h with rfl | rfl | rfl | rfl | rfl
  · exact ⟨"&amp;", by decide, rfl⟩
  · exact ⟨"&lt;", by decide, rfl⟩
  · exact ⟨"&gt;", by decide, rfl⟩
  · exact ⟨"&quot;", by decide, rfl⟩
  · exact ⟨"&#39;", by decide, rfl⟩

/-- Any other character is written as it is. -/
theorem escapeChar_html_of_not_isMark {c : Char} (h : ¬ isMark c = true) :
    EscapeSet.html.escapeChar c = [c] := by
  have hnone : EscapeSet.html.replacements.lookup c = none := by
    refine List.lookup_eq_none_iff.mpr fun entry hentry => bne_iff_ne.mpr ?_
    rintro rfl
    exact h (isMark_iff.mpr (List.mem_map_of_mem hentry :
      entry.1 ∈ EscapeSet.html.replacements.map Prod.fst))
  rw [EscapeSet.escapeChar, EscapeSet.replacement?, hnone]

/-- A text with the escapes for markup is harmless. -/
theorem harmless_escape (s : String) : Harmless (EscapeSet.html.escape s).toList := by
  rw [EscapeSet.escape_eq_flatMap, String.toList_ofList]
  induction s.toList with
  | nil => exact harmless_of_plain (by simp)
  | cons c cs ih =>
    rw [List.flatMap_cons]
    refine Harmless.append ?_ ih
    by_cases hc : isMark c = true
    · obtain ⟨entity, hmem, hentity⟩ := escapeChar_html_of_isMark hc
      rw [hentity]
      exact harmless_of_mem_entities hmem
    · rw [escapeChar_html_of_not_isMark hc]
      exact harmless_of_plain (List.forall_mem_singleton.mpr (Bool.eq_false_iff.mpr hc))

/-- Whether a character may stand in the text of a number or a truth value. -/
def isWordChar (c : Char) : Bool :=
  c.isAlphanum || c == '-' || c == '.'

/-- Texts of such characters are harmless. -/
theorem harmless_of_isWordChar {cs : List Char} (h : ∀ c ∈ cs, isWordChar c = true) :
    Harmless cs := by
  refine harmless_of_plain fun c hc => Bool.eq_false_iff.mpr fun hmark => ?_
  have hword := h c hc
  simp only [isMark_iff, marks, List.mem_cons, List.not_mem_nil, or_false] at hmark
  rcases hmark with rfl | rfl | rfl | rfl | rfl <;> exact absurd hword (by decide)

theorem isWordChar_of_mem_toDigits {n : Nat} {c : Char} (h : c ∈ Nat.toDigits 10 n) :
    isWordChar c = true := by
  have hdigit := Nat.isDigit_of_mem_toDigits (by decide) (by decide) h
  simp [isWordChar, Char.isAlphanum, hdigit]

/-- The decimal text of an integer is digits after an optional minus sign. -/
theorem isWordChar_of_mem_toString {n : Int} {c : Char} (h : c ∈ (toString n).toList) :
    isWordChar c = true := by
  rw [Int.toString_eq_repr] at h
  cases n with
  | ofNat m =>
    rw [Int.repr, Nat.repr_eq_ofList_toDigits, String.toList_ofList] at h
    exact isWordChar_of_mem_toDigits h
  | negSucc m =>
    rw [Int.repr, String.toList_append, Nat.repr_eq_ofList_toDigits] at h
    rcases List.mem_append.mp h with h | h
    · rw [List.mem_singleton.mp h]
      decide
    · rw [String.toList_ofList] at h
      exact isWordChar_of_mem_toDigits h

/-- The decimal text of a positive number is digits with an optional point. -/
theorem isWordChar_of_mem_positional {digits : Nat} {exponent : Int} {c : Char}
    (h : c ∈ positional digits exponent) :
    isWordChar c = true := by
  have hdigits : ∀ {c}, c ∈ Nat.toDigits 10 digits → isWordChar c = true :=
    isWordChar_of_mem_toDigits
  have hzeros : ∀ {count c}, c ∈ List.replicate count '0' → isWordChar c = true := by
    intro count c hc
    rw [(List.mem_replicate.mp hc).2]
    decide
  rw [positional] at h
  -- Zeros come behind the digits, or a point stands among them, or zeros come before them.
  split at h
  · rcases List.mem_append.mp h with h | h
    · exact hdigits h
    · exact hzeros h
  dsimp only at h
  split at h
  · simp only [List.mem_append, List.mem_cons] at h
    rcases h with h | rfl | h
    · exact hdigits (List.mem_of_mem_take h)
    · decide
    · exact hdigits (List.mem_of_mem_drop h)
  · simp only [List.mem_append, List.mem_cons] at h
    rcases h with rfl | rfl | h | h
    · decide
    · decide
    · exact hzeros h
    · exact hdigits h

/-- The text of a floating-point number has no character of markup. -/
theorem isWordChar_of_mem_text {x : Binary64} {c : Char} (h : c ∈ x.text.toList) :
    isWordChar c = true := by
  rw [Binary64.text] at h
  split at h
  · exact List.all_eq_true.mp (by decide : "NaN".toList.all isWordChar = true) c h
  dsimp only at h
  rw [String.toList_ofList] at h
  -- The minus sign apart, the text is that of a number that is not negative.
  have hunsigned : ∀ {c}, c ∈ (if x.isInfinite = true then ['i', 'n', 'f']
      else if x.magnitude = 0 then ['0']
      else positional (dropZeros 20 (shortestDigits x.magnitude).1 (shortestDigits x.magnitude).2).1
        (dropZeros 20 (shortestDigits x.magnitude).1 (shortestDigits x.magnitude).2).2) →
      isWordChar c = true := by
    intro c hc
    split at hc
    · exact List.all_eq_true.mp (by decide : ['i', 'n', 'f'].all isWordChar = true) c hc
    split at hc
    · exact List.all_eq_true.mp (by decide : ['0'].all isWordChar = true) c hc
    · exact isWordChar_of_mem_positional hc
  split at h
  · rcases List.mem_cons.mp h with rfl | h
    · decide
    · exact hunsigned h
  · exact hunsigned h

/-- A parameter is written as a harmless text. -/
theorem harmless_escaped (v : Value) : Harmless (v.escaped .html).toList := by
  cases v with
  | string s => exact harmless_escape s
  | integer n => exact harmless_of_isWordChar fun c => isWordChar_of_mem_toString
  | float x => exact harmless_of_isWordChar fun c => isWordChar_of_mem_text
  | boolean b => cases b <;> exact harmless_of_isWordChar (List.all_eq_true.mp (by decide))

/-! ### Reading entities back -/

/-- Replaces entities by what they stand for, from the left. -/
def decode : List Char → List Char
  | '&' :: 'a' :: 'm' :: 'p' :: ';' :: cs => '&' :: decode cs
  | '&' :: 'l' :: 't' :: ';' :: cs => '<' :: decode cs
  | '&' :: 'g' :: 't' :: ';' :: cs => '>' :: decode cs
  | '&' :: 'q' :: 'u' :: 'o' :: 't' :: ';' :: cs => '"' :: decode cs
  | '&' :: '#' :: '3' :: '9' :: ';' :: cs => '\'' :: decode cs
  | c :: cs => c :: decode cs
  | [] => []

/-- No entity begins with another character than the ampersand. -/
theorem decode_cons {c : Char} (h : c ≠ '&') (cs : List Char) :
    decode (c :: cs) = c :: decode cs := by
  rw [decode.eq_def]
  split <;> simp_all

/-- Reading entities back undoes the escapes for markup. -/
theorem decode_escape (s : String) : decode (EscapeSet.html.escape s).toList = s.toList := by
  rw [EscapeSet.escape_eq_flatMap, String.toList_ofList]
  induction s.toList with
  | nil => rfl
  | cons c cs ih =>
    rw [List.flatMap_cons]
    by_cases hc : isMark c = true
    · -- An entity is read back at once, whatever follows it.
      have hdecode : ∀ d ∈ marks, ∀ ds,
          decode (EscapeSet.html.escapeChar d ++ ds) = d :: decode ds := by
        simp only [marks, List.forall_mem_cons]
        exact ⟨fun _ => rfl, fun _ => rfl, fun _ => rfl, fun _ => rfl, fun _ => rfl,
          List.forall_mem_nil _⟩
      rw [hdecode c (isMark_iff.mp hc), ih]
    · have hand : c ≠ '&' := by
        rintro rfl
        exact hc rfl
      rw [escapeChar_html_of_not_isMark hc, List.singleton_append, decode_cons hand, ih]

/-- Texts that differ are written differently. -/
theorem escape_html_injective {s s' : String}
    (h : EscapeSet.html.escape s = EscapeSet.html.escape s') :
    s = s' := by
  have hdecode := congrArg (fun out : String => decode out.toList) h
  simp only [decode_escape] at hdecode
  exact String.toList_inj.mp hdecode

namespace Template

/-! ### Rendered templates -/

/-- The characters of literal text in a list of parts. -/
def literalText (segments : List Segment) : List Char :=
  segments.flatMap fun
    | .literal text => text.toList
    | .placeholder _ => []

variable {params : Params} {set : EscapeSet} {segment : Segment} {segments : List Segment}
  {out : String}

/-- Parts are rendered one after another. -/
theorem render_cons_eq_ok_iff :
    render ⟨segment :: segments⟩ params set = .ok out ↔
      ∃ text more, renderSegment params set segment = .ok text ∧
        render ⟨segments⟩ params set = .ok more ∧ out = text ++ more := by
  unfold render
  rw [List.mapM_cons]
  cases renderSegment params set segment with
  | error failure => simp [Except.map, bind, Except.bind]
  | ok text =>
    cases segments.mapM (renderSegment params set) with
    | error failure => simp [Except.map, bind, Except.bind]
    | ok texts =>
      simp [Except.map, bind, Except.bind, pure, Except.pure, String.join_cons, eq_comm]

/-- A part shows its literal text, or a parameter and so a harmless text. -/
theorem renderSegment_html {text : String} (h : renderSegment params .html segment = .ok text) :
    segment = .literal text ∨ literalText [segment] = [] ∧ Harmless text.toList := by
  cases segment with
  | literal text' =>
    cases h
    exact Or.inl rfl
  | placeholder name =>
    rw [renderSegment] at h
    split at h
    · cases h
      exact Or.inr ⟨rfl, harmless_escaped _⟩
    · cases h

/-- The output has the brackets and quotes of the literal text, and no others. -/
theorem count_render_html {c : Char} (hmark : isMark c = true) (hc : c ≠ '&')
    (h : render ⟨segments⟩ params .html = .ok out) :
    out.toList.count c = (literalText segments).count c := by
  induction segments generalizing out with
  | nil =>
    cases h
    rfl
  | cons segment segments ih =>
    obtain ⟨text, more, htext, hmore, rfl⟩ := render_cons_eq_ok_iff.mp h
    have hsplit : literalText (segment :: segments) =
        literalText [segment] ++ literalText segments := by
      simp [literalText]
    rw [String.toList_append, List.count_append, ih hmore, hsplit, List.count_append,
      Nat.add_right_cancel_iff]
    -- Either the part is literal and counts on both sides, or it counts on neither.
    rcases renderSegment_html htext with rfl | ⟨hnone, hharmless⟩
    · simp [literalText]
    · have hnot : c ∉ text.toList := fun hmem => hc (hharmless.unbracketed c hmem hmark)
      rw [hnone, List.count_eq_zero.mpr hnot]
      rfl

/-- Where a character of the output comes from: `out` is `before ++ c :: after`, and the character
stands in a literal part, behind what is rendered of the parts in front of it. -/
def FromLiteral (params : Params) (set : EscapeSet) (segments : List Segment) (c : Char)
    (before : List Char) : Prop :=
  ∃ front text back shown u v, segments = front ++ .literal text :: back ∧
    text.toList = u ++ c :: v ∧ render ⟨front⟩ params set = .ok shown ∧ before = shown.toList ++ u

/-- What comes from a literal part still does so behind a further part. -/
theorem FromLiteral.cons {c : Char} {before : List Char} {text : String}
    (h : FromLiteral params set segments c before)
    (htext : renderSegment params set segment = .ok text) :
    FromLiteral params set (segment :: segments) c (text.toList ++ before) := by
  obtain ⟨front, text', back, shown, u, v, rfl, hsplit, hshown, rfl⟩ := h
  refine ⟨segment :: front, text', back, text ++ shown, u, v, rfl, hsplit, ?_, ?_⟩
  · exact render_cons_eq_ok_iff.mpr ⟨text, shown, htext, hshown, rfl⟩
  · rw [String.toList_append, List.append_assoc]

/-- An ampersand of the output begins an entity, or it comes from a literal part. -/
theorem entity_or_fromLiteral {before after : List Char}
    (h : render ⟨segments⟩ params .html = .ok out) (hsplit : out.toList = before ++ '&' :: after) :
    BeginsEntity ('&' :: after) ∨ FromLiteral params .html segments '&' before := by
  induction segments generalizing out before with
  | nil =>
    cases h
    cases before <;> cases hsplit
  | cons segment segments ih =>
    obtain ⟨text, more, htext, hmore, rfl⟩ := render_cons_eq_ok_iff.mp h
    rw [String.toList_append] at hsplit
    -- The ampersand stands in what this part shows, or in what the others do.
    rcases append_eq_append_cons hsplit with ⟨mid, hfirst, rfl⟩ | ⟨mid, rfl, hsecond⟩
    · rcases renderSegment_html htext with rfl | ⟨-, hharmless⟩
      · exact Or.inr ⟨[], text, segments, "", before, mid, rfl, hfirst, rfl, rfl⟩
      · exact Or.inl ((hharmless.entity before mid hfirst).append more.toList)
    · rcases ih hmore hsecond with hentity | hliteral
      · exact Or.inl hentity
      · exact Or.inr (hliteral.cons htext)

/-- **Escapes let no markup in.** In the output of a template under the escapes for markup, the
number of each kind of bracket and quote is that of its literal parts, and every ampersand begins an
entity unless it comes from a literal part. No text is lost by these escapes: reading the entities
back gives it again, so texts that differ are written differently. -/
theorem html_lets_no_markup_in :
    (∀ source t params out, read source = .ok t → substitute source params .html = .ok out →
      (∀ c ∈ ['<', '>', '"', '\''], out.toList.count c = (literalText t.segments).count c) ∧
      ∀ before after, out.toList = before ++ '&' :: after →
        (∃ entity ∈ ["&amp;", "&lt;", "&gt;", "&quot;", "&#39;"],
          entity.toList <+: '&' :: after) ∨
        FromLiteral params .html t.segments '&' before) ∧
    (∀ s, decode (EscapeSet.html.escape s).toList = s.toList) ∧
    ∀ s s', EscapeSet.html.escape s = EscapeSet.html.escape s' → s = s' := by
  refine ⟨?_, decode_escape, fun s s' => escape_html_injective⟩
  intro source t params out hread hout
  rw [substitute, hread] at hout
  constructor
  · intro c hc
    have hmark : isMark c = true := isMark_iff.mpr (List.mem_cons_of_mem '&' hc)
    refine count_render_html hmark ?_ hout
    rintro rfl
    exact absurd hc (by decide)
  · intro before after hsplit
    exact entity_or_fromLiteral hout hsplit

/-- A parameter that holds a bracket, an entity, a placeholder and a quote, and one that is a
negative number, in a template with brackets and a bare ampersand of its own. -/
theorem html_lets_no_markup_in_nested :
    ∃ params out, params = (Table.empty.insert "a" (.string "<&lt;\x7bn\x7d'")).insert "n"
        (.integer (-5)) ∧
      out = "<b>&lt;&amp;lt;\x7bn\x7d&#39; & -5</b>" ∧
      substitute "<b>\x7ba\x7d & \x7bn\x7d</b>" params .html = .ok out ∧
      (∀ c ∈ ['<', '>', '"', '\''], out.toList.count c = "<b> & </b>".toList.count c) ∧
      ∀ before after, out.toList = before ++ '&' :: after →
        (∃ entity ∈ ["&amp;", "&lt;", "&gt;", "&quot;", "&#39;"],
          entity.toList <+: '&' :: after) ∨
        FromLiteral params .html [.literal "<b>", .placeholder "a", .literal " & ",
          .placeholder "n", .literal "</b>"] '&' before := by
  have hread : read "<b>\x7ba\x7d & \x7bn\x7d</b>" = .ok ⟨[.literal "<b>", .placeholder "a",
      .literal " & ", .placeholder "n", .literal "</b>"]⟩ := by decide +kernel
  have hout : substitute "<b>\x7ba\x7d & \x7bn\x7d</b>" ((Table.empty.insert "a"
      (.string "<&lt;\x7bn\x7d'")).insert "n" (.integer (-5))) .html =
      .ok "<b>&lt;&amp;lt;\x7bn\x7d&#39; & -5</b>" := by decide +kernel
  obtain ⟨hcount, hentity⟩ := html_lets_no_markup_in.1 _ _ _ _ hread hout
  exact ⟨_, _, rfl, rfl, hout, hcount, hentity⟩

end Template

end Phrasebook
