import Phrasebook.Condition.Reader

/-!
# Tokens of conditions

The words, signs and operands that a condition is made of, and how each is spelled. A text is
divided into tokens from the left with blanks between them; each token is the longest spelling that
the text goes on with.

* `Spelled t text`: the whole of `text` spells the token `t`.
* `TokenAt cs t rest`: after blanks, `cs` goes on with the token `t`, and `rest` follows it.
* `Taken cs ts rest`: `cs` begins with the tokens `ts`, and `rest` follows the last of them.
* `Tokens cs ts`: the whole of `cs` is the tokens `ts`, with nothing but blanks around them.
-/

namespace Phrasebook.Condition

open Text Number

/-- A token of a condition. -/
inductive Token where
  /-- A connective of several operands. -/
  | connective (op : Connective)
  /-- A negation. -/
  | negation
  /-- A comparator. -/
  | comparator (op : Comparator)
  /-- An opening parenthesis. -/
  | opening
  /-- A closing parenthesis. -/
  | closing
  /-- A text, a floating-point number or a truth value. -/
  | literal (value : Value)
  /-- An integer, which may be too large for a literal. -/
  | integer (n : Int)
  /-- The name of a parameter. -/
  | param (name : String)
  deriving DecidableEq

/-- The operand that a token is: an integer is one if it fits in 64 bits. -/
def Token.atom? : Token → Option Expr
  | .literal value => some (.literal value)
  | .integer n => (int64? n).map fun n => .literal (.integer n)
  | .param name => some (.param name)
  | _ => none

/-! ### Spellings -/

/-- The tokens that are signs. One that begins another comes after it. -/
def signs : List (List Char × Token) :=
  [(['|', '|'], .connective .any), (['&', '&'], .connective .all),
   (['=', '='], .comparator .eq), (['!', '='], .comparator .ne), (['≠'], .comparator .ne),
   (['<', '='], .comparator .le), (['≤'], .comparator .le), (['>', '='], .comparator .ge),
   (['≥'], .comparator .ge), (['<'], .comparator .lt), (['>'], .comparator .gt),
   (['='], .comparator .eq), (['!'], .negation), (['('], .opening), ([')'], .closing)]

/-- The tokens that are words. -/
def words : List (List Char × Token) :=
  [(['a', 'n', 'd'], .connective .all), (['o', 'r'], .connective .any),
   (['n', 'o', 't'], .negation), (['t', 'r', 'u', 'e'], .literal (.boolean true)),
   (['f', 'a', 'l', 's', 'e'], .literal (.boolean false))]

/-- Whether a text names a parameter: it is a name and no word. -/
def NamesParam (text : List Char) : Prop :=
  isName text = true ∧ text ∉ words.map Prod.fst

/-- Whether a text names a parameter is decidable. -/
instance (text : List Char) : Decidable (NamesParam text) :=
  inferInstanceAs (Decidable (_ ∧ _))

/-- `QuotedAs quote text written`: between quotes, `text` can be written as `written`. -/
inductive QuotedAs (quote : Char) : (text written : List Char) → Prop where
  /-- Nothing is written as nothing. -/
  | nil : QuotedAs quote [] []
  /-- A character other than the quote and the backslash stands for itself. -/
  | plain {c : Char} {text written : List Char} (hquote : c ≠ quote) (hescape : c ≠ '\\')
      (more : QuotedAs quote text written) :
      QuotedAs quote (c :: text) (c :: written)
  /-- Any character may follow a backslash. -/
  | escaped {c : Char} {text written : List Char} (more : QuotedAs quote text written) :
      QuotedAs quote (unescape c :: text) ('\\' :: c :: written)

/-- Whether a text is digits, at least one. -/
def IsDigits (text : List Char) : Prop :=
  text ≠ [] ∧ ∀ c ∈ text, c.isDigit = true

/-- The sign before a number. -/
def minus (negative : Bool) : List Char :=
  if negative then ['-'] else []

/-- `Spelled t text`: the whole of `text` spells the token `t`. -/
inductive Spelled : Token → List Char → Prop where
  /-- A sign. -/
  | sign {text : List Char} {t : Token} (h : (text, t) ∈ signs) : Spelled t text
  /-- A word. -/
  | word {text : List Char} {t : Token} (h : (text, t) ∈ words) : Spelled t text
  /-- A name that stands alone. -/
  | bare {name : List Char} (h : NamesParam name) : Spelled (.param (String.ofList name)) name
  /-- A name in brackets. -/
  | bracketed {before name after : List Char} (hbefore : ∀ c ∈ before, isBlank c = true)
      (h : NamesParam name) (hafter : ∀ c ∈ after, isBlank c = true) :
      Spelled (.param (String.ofList name)) ('[' :: (before ++ (name ++ (after ++ [']']))))
  /-- A text in quotes of either kind. -/
  | quoted {quote : Char} {text written : List Char} (hquote : quote = '"' ∨ quote = '\'')
      (h : QuotedAs quote text written) :
      Spelled (.literal (.string (String.ofList text))) (quote :: (written ++ [quote]))
  /-- An integer. -/
  | integer {negative : Bool} {digits : List Char} (h : IsDigits digits) :
      Spelled (.integer (if negative then -ofDigits digits else ofDigits digits))
        (minus negative ++ digits)
  /-- A number with a point, rounded like any text that is read as one. -/
  | float {negative : Bool} {whole fraction : List Char} {x : Binary64} (hwhole : IsDigits whole)
      (hfraction : IsDigits fraction)
      (hvalue : readBinary64 (minus negative ++ (whole ++ '.' :: fraction)) = some x) :
      Spelled (.literal (.float x)) (minus negative ++ (whole ++ '.' :: fraction))

/-! ### Texts as tokens -/

/-- Whether no longer part at the front of `text ++ rest` than `text` spells a token. -/
def Longest (text rest : List Char) : Prop :=
  ∀ text' rest' t', text ++ rest = text' ++ rest' → Spelled t' text' →
    text'.length ≤ text.length

/-- `TokenAt cs t rest`: after blanks, `cs` goes on with the token `t`, and `rest` follows it. -/
def TokenAt (cs : List Char) (t : Token) (rest : List Char) : Prop :=
  ∃ text, skipBlanks cs = text ++ rest ∧ Spelled t text ∧ Longest text rest

/-- `Taken cs ts rest`: `cs` begins with the tokens `ts`, and `rest` follows the last of them. -/
inductive Taken : List Char → List Token → List Char → Prop where
  /-- No token is taken. -/
  | nil {cs : List Char} : Taken cs [] cs
  /-- A token is taken, and then those of what follows it. -/
  | cons {cs mid rest : List Char} {t : Token} {ts : List Token} (h : TokenAt cs t mid)
      (more : Taken mid ts rest) : Taken cs (t :: ts) rest

/-- `Tokens cs ts`: the whole of `cs` is the tokens `ts`, with nothing but blanks around them. -/
def Tokens (cs : List Char) (ts : List Token) : Prop :=
  ∃ rest, Taken cs ts rest ∧ skipBlanks rest = []

end Phrasebook.Condition
