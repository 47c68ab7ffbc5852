import Phrasebook.Json.Reader
import Phrasebook.Proofs.Number.Finite

/-!
# The numbers of a JSON text

Whatever is read, its integers fit in 64 bits, with a sign or without, and its floating-point numbers
are finite. Of the digits only as many count as fit in 64 bits; a product that becomes infinite is
refused, and a quotient cannot become infinite: a power of ten is one or more, so dividing by it four
times adds four binades to those of the significand at most.

* `fits_of_takeNumber`: the numbers;
* `Reader.Gives`: what a reader promises of all that it reads;
* `gives_takeValue`, `fits_of_read`: the values that consist of such numbers.
-/

namespace Phrasebook

open Number Text

theorem Number.fitsUnsigned_iff {n : Int} : fitsUnsigned 64 n = true ↔ 0 ≤ n ∧ n < 2 ^ 64 := by
  rw [fitsUnsigned, Bool.and_eq_true, decide_eq_true_eq, decide_eq_true_eq]
  rfl

theorem Number.fitsSigned_iff {n : Int} : fitsSigned 64 n = true ↔ -2 ^ 63 ≤ n ∧ n < 2 ^ 63 := by
  rw [fitsSigned, Bool.and_eq_true, decide_eq_true_eq, decide_eq_true_eq]
  rfl

/-- An integer that fits in 64 bits, with a sign or without, or a finite floating-point number. -/
def JsonNumber.Fits : JsonNumber → Prop
  | .integer n => -2 ^ 63 ≤ n ∧ n < 2 ^ 64
  | .float x => x.isFinite = true

namespace Json

mutual

/-- All numbers of a value fit. -/
def Fits : Json → Prop
  | .number n => n.Fits
  | .array items => ItemsFit items
  | .object members => MembersFit members
  | .null | .boolean _ | .string _ => True

/-- All numbers of the items of an array fit. -/
def ItemsFit : List Json → Prop
  | [] => True
  | item :: rest => Fits item ∧ ItemsFit rest

/-- All numbers of the members of an object fit. -/
def MembersFit : List (String × Json) → Prop
  | [] => True
  | (_, value) :: rest => Fits value ∧ MembersFit rest

end

theorem itemsFit_iff {items : List Json} : ItemsFit items ↔ ∀ item ∈ items, item.Fits := by
  induction items with
  | nil => simp [ItemsFit]
  | cons item items ih => rw [ItemsFit, ih, List.forall_mem_cons]

theorem membersFit_iff {members : List (String × Json)} :
    MembersFit members ↔ ∀ member ∈ members, member.2.Fits := by
  induction members with
  | nil => simp [MembersFit]
  | cons member members ih => rw [MembersFit, ih, List.forall_mem_cons]

/-! ### Numbers -/

/-- The digits that are gathered stand for a number that fits in 64 bits. -/
theorem gather_lt {significand : Nat} (h : significand < 2 ^ 64) (digits : List Char) :
    (gather significand digits).1 < 2 ^ 64 := by
  induction digits generalizing significand with
  | nil => exact h
  | cons c digits ih =>
    rw [gather]
    split
    · rename_i hfits
      apply ih
      exact_mod_cast (fitsUnsigned_iff.mp hfits).2
    · exact h

/-- The powers of ten that are used are one or more. -/
theorem oneOrMore_powerOfTen {n : Nat} (h : n ≤ 308) : (powerOfTen n).OneOrMore := by
  have hround : Layout.double.ofDecimal 1 n = Layout.double.round (1 * Nat.pow 10 n) 1 := by
    have hplaces : ((Nat.toDigits 10 1).length : Int) = 1 := by decide
    rw [Layout.ofDecimal, hplaces, if_neg (by omega), if_neg (by omega), if_neg (by omega)]
    rfl
  rw [powerOfTen, hround, Nat.one_mul]
  exact Binary64.oneOrMore_round (Nat.pow_pos (by omega)) false

/-- Every division by a power of ten adds one binade at most. -/
theorem upTo_divideByPower {x : Binary64} {k : Nat} (h : x.UpTo (k + 1)) (steps n : Nat) :
    (divideByPower steps x n).UpTo (k + 1 + steps) := by
  induction steps generalizing x k n with
  | zero => exact h
  | succ steps ih =>
    rw [divideByPower]
    split
    · rename_i hn
      have hquotient := h.dividedBy (oneOrMore_powerOfTen hn)
      exact hquotient.mono (by omega)
    · have hquotient := h.dividedBy (oneOrMore_powerOfTen (Nat.le_refl 308))
      have hrest := ih hquotient (n - 308)
      exact hrest.mono (by omega)

/-- A scaled significand is finite, or it is refused. -/
theorem isFinite_of_scaled? {significand : Nat} {exponent : Int} {x : Binary64}
    (hsignificand : significand < 2 ^ 64) (h : scaled? significand exponent = some x) :
    x.isFinite = true := by
  have hstart : (Binary64.ofInt significand).UpTo 1087 :=
    Binary64.upTo_ofInt (by simpa using hsignificand)
  unfold scaled? at h
  dsimp only at h
  -- The exponent is negative, or out of the range of powers, or the power is multiplied with.
  split at h
  · cases h
    exact ((upTo_divideByPower hstart 4 exponent.natAbs).mono (by omega)).isFinite
  split at h
  · split at h
    · cases h
      exact (hstart.mono (by omega)).isFinite
    · cases h
  split at h
  · cases h
  · rename_i hproduct
    rw [← Option.some.inj h]
    apply Binary64.isFinite_times
    exact Bool.eq_false_iff.mpr hproduct

theorem isFinite_of_withExponent? {significand : Nat} {start : Int}
    {exponent : Option (Bool × List Char)} {x : Binary64} (hsignificand : significand < 2 ^ 64)
    (h : withExponent? significand start exponent = some x) : x.isFinite = true := by
  unfold withExponent? at h
  split at h
  · exact isFinite_of_scaled? hsignificand h
  · dsimp only at h
    split at h
    · exact isFinite_of_scaled? hsignificand h
    split at h
    · cases h
      decide
    · cases h

theorem fits_integerOf {n : Nat} (h : n < 2 ^ 64) (negative : Bool) :
    (integerOf negative n).Fits := by
  unfold integerOf
  split
  · exact ⟨by omega, by exact_mod_cast h⟩
  split
  · rename_i hfits
    exact ⟨(fitsSigned_iff.mp hfits.2).1, by omega⟩
  · have hstart : (Binary64.ofInt n).UpTo 1087 := Binary64.upTo_ofInt (by simpa using h)
    exact Binary64.isFinite_negate (hstart.mono (by omega)).isFinite

/-- The value of a written number fits, if it has one. -/
theorem fits_of_value? {t : NumberText} {n : JsonNumber} (h : t.value? = some n) : n.Fits := by
  have hwhole : (gather 0 t.whole).1 < 2 ^ 64 := gather_lt (by decide) t.whole
  unfold NumberText.value? at h
  dsimp only at h
  split at h
  · cases h
    exact fits_integerOf hwhole t.negative
  · obtain ⟨x, hx, rfl⟩ := Option.map_eq_some_iff.mp h
    have hfinite := isFinite_of_withExponent? (gather_lt hwhole _) hx
    rw [JsonNumber.Fits]
    split
    · exact Binary64.isFinite_negate hfinite
    · exact hfinite

/-! ### Readers -/

/-- Whatever a reader reads has this property. -/
def Reader.Gives {α : Type} (reader : Reader α) (P : α → Prop) : Prop :=
  ∀ cs a rest, reader cs = some (a, rest) → P a

variable {α : Type} {P : α → Prop} {item : Reader α}

theorem gives_takeNumber : Reader.Gives takeNumber JsonNumber.Fits := by
  intro cs n rest h
  unfold takeNumber at h
  simp only [bind, Option.bind_eq_some_iff] at h
  obtain ⟨_, -, _, -, _, -, n', hvalue, hn⟩ := h
  cases hn
  exact fits_of_value? hvalue

theorem Reader.Gives.items (h : item.Gives P) (closing : Char) (bound : Nat) :
    Reader.Gives (takeItems item closing bound) fun items => ∀ a ∈ items, P a := by
  induction bound with
  | zero =>
    intro cs items rest htaken
    cases htaken
  | succ bound ih =>
    intro cs items rest htaken
    obtain ⟨⟨first, after⟩, hfirst, htaken⟩ := Option.bind_eq_some_iff.mp htaken
    have hP := h _ _ _ hfirst
    dsimp only at htaken
    -- After an item there are more of them, or the container is closed.
    split at htaken
    · obtain ⟨⟨more, after⟩, hmore, htaken⟩ := Option.bind_eq_some_iff.mp htaken
      cases htaken
      exact List.forall_mem_cons.mpr ⟨hP, ih _ _ _ hmore⟩
    · split at htaken
      · cases htaken
        exact List.forall_mem_singleton.mpr hP
      · cases htaken
    · cases htaken

theorem Reader.Gives.contents (h : item.Gives P) (closing : Char) :
    Reader.Gives (takeContents item closing) fun items => ∀ a ∈ items, P a := by
  intro cs items rest htaken
  unfold takeContents at htaken
  split at htaken
  · cases htaken
  · split at htaken
    · cases htaken
      exact List.forall_mem_nil _
    · exact h.items closing _ _ _ _ htaken

theorem Reader.Gives.member {value : Reader Json} {Q : Json → Prop} (h : value.Gives Q) :
    Reader.Gives (takeMember value) fun member => Q member.2 := by
  intro cs member rest htaken
  unfold takeMember at htaken
  split at htaken
  · obtain ⟨⟨name, after⟩, -, htaken⟩ := Option.bind_eq_some_iff.mp htaken
    dsimp only at htaken
    split at htaken
    · obtain ⟨⟨v, after⟩, hvalue, htaken⟩ := Option.bind_eq_some_iff.mp htaken
      cases htaken
      exact h _ _ _ hvalue
    · cases htaken
  · cases htaken

/-- What is made of what was read fits if it always does. -/
theorem fits_of_map {β : Type} {taken : Option β} {f : β → Json × List Char} {v : Json}
    {rest : List Char} (h : taken.map f = some (v, rest)) (hf : ∀ b, (f b).1.Fits) : v.Fits := by
  obtain ⟨b, -, hb⟩ := Option.map_eq_some_iff.mp h
  have hfits := hf b
  rwa [hb] at hfits

theorem gives_takeScalar : Reader.Gives takeScalar Fits := by
  intro cs v rest htaken
  unfold takeScalar at htaken
  -- Only the last kind of scalar, the number, has anything that must fit.
  split at htaken
  · exact fits_of_map htaken fun _ => trivial
  · exact fits_of_map htaken fun _ => trivial
  · exact fits_of_map htaken fun _ => trivial
  · exact fits_of_map htaken fun _ => trivial
  · obtain ⟨⟨n, after⟩, hnumber, heq⟩ := Option.map_eq_some_iff.mp htaken
    cases heq
    exact gives_takeNumber _ _ _ hnumber

/-- All numbers of a value that is read fit, whatever the number of levels. -/
theorem gives_takeValue (levels : Nat) : Reader.Gives (takeValue levels) Fits := by
  induction levels with
  | zero =>
    intro cs v rest htaken
    unfold takeValue at htaken
    split at htaken
    · cases htaken
    · cases htaken
    · exact gives_takeScalar _ _ _ htaken
  | succ levels ih =>
    intro cs v rest htaken
    unfold takeValue at htaken
    split at htaken
    · obtain ⟨⟨items, after⟩, hitems, heq⟩ := Option.map_eq_some_iff.mp htaken
      cases heq
      exact itemsFit_iff.mpr (ih.contents _ _ _ _ hitems)
    · obtain ⟨⟨members, after⟩, hmembers, heq⟩ := Option.map_eq_some_iff.mp htaken
      cases heq
      exact membersFit_iff.mpr (ih.member.contents _ _ _ _ hmembers)
    · exact gives_takeScalar _ _ _ htaken

/-- All numbers of a text that is read fit. -/
theorem fits_of_read {source : String} {v : Json} (h : read source = some v) : v.Fits := by
  unfold read at h
  split at h
  · rename_i value rest htaken
    split at h
    · cases h
      exact gives_takeValue maxDepth _ _ _ htaken
    · cases h
  · cases h

end Json

end Phrasebook
