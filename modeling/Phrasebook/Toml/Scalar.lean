import Phrasebook.Number.Reading
import Phrasebook.Text.Take
import Phrasebook.Toml.Basic

/-!
# Numbers, dates and times of TOML

Digits of numbers may be separated by single underscores. A date, a time or both are kept as their
normal text: a capital `T` between date and time, fractions of a second cut to nine digits without
trailing zeros, and the offset from universal time in hours and minutes.
-/

namespace Phrasebook.Toml

open Number Text

/-- The outcome of trying to read one form of a value. -/
inductive Attempt (α : Type) where
  /-- It is this value. -/
  | found (value : α) (rest : List Char)
  /-- It is something else. -/
  | other
  /-- It is this form, with a fault. -/
  | fault

/-! ### Dates and times -/

/-- Reads exactly `count` digits. -/
def takeCount : (count : Nat) → Reader (List Char)
  | 0, cs => some ([], cs)
  | _ + 1, [] => none
  | count + 1, c :: cs =>
    if c.isDigit then (takeCount count cs).map fun (digits, cs) => (c :: digits, cs) else none

/-- Reads two digits with a value in a range. -/
def takeTwo (low high : Nat) (cs : List Char) : Option (Nat × List Char) := do
  let (digits, cs) ← takeCount 2 cs
  let n := ofDigits digits
  if low ≤ n ∧ n ≤ high then some (n, cs) else none

/-- Takes one given character. -/
def takeChar (c : Char) : List Char → Option (List Char)
  | [] => none
  | d :: cs => if d = c then some cs else none

/-- The number of days of a month. -/
def daysOf (year month : Nat) : Nat :=
  if month = 2 then
    if year % 4 = 0 ∧ (year % 100 ≠ 0 ∨ year % 400 = 0) then 29 else 28
  else if month = 4 ∨ month = 6 ∨ month = 9 ∨ month = 11 then 30
  else 31

/-- A number of two digits. -/
def twoDigits (n : Nat) : List Char :=
  let digits := Nat.toDigits 10 n
  List.replicate (2 - digits.length) '0' ++ digits

/-- Reads a date: four digits and a hyphen make sure that it is one. -/
def takeDate (cs : List Char) : Attempt (List Char) :=
  match takeCount 4 cs with
  | some (year, '-' :: cs) =>
    let rest : Option (List Char × List Char) := do
      let (month, cs) ← takeTwo 1 12 cs
      let cs ← takeChar '-' cs
      let (day, cs) ← takeTwo 1 31 cs
      if day ≤ daysOf (ofDigits year) month then
        some (year ++ '-' :: twoDigits month ++ '-' :: twoDigits day, cs)
      else none
    match rest with
    | some (text, cs) => .found text cs
    | none => .fault
  | _ => .other

/-- The text of a fraction of a second. -/
def fractionText (digits : List Char) : List Char :=
  match ((digits.take 9).reverse.dropWhile (· == '0')).reverse with
  | [] => []
  | kept => '.' :: kept

/-- Reads a time: two digits and a colon make sure that it is one. -/
def takeTime (cs : List Char) : Attempt (List Char) :=
  match takeTwo 0 23 cs with
  | some (hour, ':' :: cs) =>
    let rest : Option (List Char × List Char) := do
      let (minute, cs) ← takeTwo 0 59 cs
      let cs ← takeChar ':' cs
      let (second, cs) ← takeTwo 0 60 cs
      let text := twoDigits hour ++ ':' :: twoDigits minute ++ ':' :: twoDigits second
      match takeChar '.' cs >>= takeDigits with
      | some (digits, cs) => some (text ++ fractionText digits, cs)
      | none => some (text, cs)
    match rest with
    | some (text, cs) => .found text cs
    | none => .fault
  | _ => .other

/-- Reads an offset from universal time. -/
def takeOffset (cs : List Char) : Attempt (List Char) :=
  match cs with
  | [] => .other
  | c :: cs =>
    if c = 'Z' ∨ c = 'z' then .found ['Z'] cs
    else if c = '+' ∨ c = '-' then
      let rest : Option (List Char × List Char) := do
        let (hour, cs) ← takeTwo 0 23 cs
        let cs ← takeChar ':' cs
        let (minute, cs) ← takeTwo 0 59 cs
        let sign := if c = '-' ∧ 0 < hour + minute then '-' else '+'
        some (sign :: twoDigits hour ++ ':' :: twoDigits minute, cs)
      match rest with
      | some (text, cs) => .found text cs
      | none => .fault
    else .other

/-- Reads what may follow a date: a time with an optional offset. -/
def takeTimeOfDate (cs : List Char) : Attempt (List Char) :=
  match cs with
  | [] => .other
  | c :: cs =>
    if c = 'T' ∨ c = 't' ∨ c = ' ' then
      match takeTime cs with
      | .found time cs =>
        match takeOffset cs with
        | .found offset cs => .found ('T' :: time ++ offset) cs
        | .other => .found ('T' :: time) cs
        | .fault => .fault
      | .other => .other
      | .fault => .fault
    else .other

/-- Reads a date, a time, or a date with a time. -/
def takeMoment (cs : List Char) : Attempt (List Char) :=
  match takeDate cs with
  | .found date cs =>
    match takeTimeOfDate cs with
    | .found time cs => .found (date ++ time) cs
    | .other => .found date cs
    | .fault => .fault
  | .other => takeTime cs
  | .fault => .fault

/-- The key under which the text of a date or time is found. -/
def momentKey : String := "$__toml_private_datetime"

/-! ### Numbers -/

/-- Takes characters of a kind with single underscores between them, at least one, and drops the
underscores. -/
def takeSeparated (isMember : Char → Bool) : List Char → Option (List Char × List Char)
  | [] => none
  | c :: '_' :: cs =>
    if isMember c then
      (takeSeparated isMember cs).map fun (digits, rest) => (c :: digits, rest)
    else none
  | c :: cs =>
    if isMember c then
      match cs with
      | [] => some ([c], [])
      | d :: _ =>
        if isMember d then
          (takeSeparated isMember cs).map fun (digits, rest) => (c :: digits, rest)
        else some ([c], cs)
    else none

/-- Takes the digits before the point. Only the number zero starts with a zero. -/
def takeWhole : List Char → Attempt (List Char)
  | '0' :: cs => .found ['0'] cs
  | c :: cs =>
    if c.isDigit then
      match takeSeparated Char.isDigit (c :: cs) with
      | some (digits, rest) => .found digits rest
      | none => .fault
    else .other
  | [] => .other

/-- Reads an exponent, if there is one. The outer failure is an exponent without digits. -/
def takeExponent (cs : List Char) : Option (Option Int × List Char) :=
  match cs with
  | [] => some (none, [])
  | c :: rest =>
    if c = 'e' ∨ c = 'E' then
      let (negative, rest) := takeSign rest
      (takeSeparated Char.isDigit rest).map fun (digits, rest) =>
        let n : Int := ofDigits digits
        (some (if negative then -n else n), rest)
    else some (none, cs)

/-- The floating-point number with these digits. One that is too large is refused if positive. -/
def floatOf? (negative : Bool) (whole fraction : List Char) (exponent : Int) : Option Nested :=
  let magnitude := Layout.double.ofDecimal (ofDigits (whole ++ fraction))
    (exponent - fraction.length)
  if magnitude = Layout.double.infinity ∧ !negative then none
  else some (.float (.ofMagnitude negative magnitude))

/-- Reads what follows the whole part of a decimal number. -/
def finishDecimal (negative : Bool) (whole cs : List Char) : Option (Nested × List Char) :=
  match cs with
  | '.' :: cs => do
    let (fraction, cs) ← takeSeparated Char.isDigit cs
    let (exponent, cs) ← takeExponent cs
    some (← floatOf? negative whole fraction (exponent.getD 0), cs)
  | cs => do
    let (exponent, cs) ← takeExponent cs
    match exponent with
    | some exponent => some (← floatOf? negative whole [] exponent, cs)
    | none => some (.integer (← signedInt64? negative whole), cs)

/-- The words for infinity and not-a-number. -/
def takeSpecial (negative : Bool) (cs : List Char) : Option (Nested × List Char) :=
  ((takeWord ['i', 'n', 'f'] cs).map
    (.float (.ofMagnitude negative Layout.double.infinity), ·)) <|>
    ((takeWord ['n', 'a', 'n'] cs).map
      (.float (.ofMagnitude negative Layout.double.quietNaN), ·))

/-- Reads a decimal number or one of the special words. -/
def takeDecimal (cs : List Char) : Option (Nested × List Char) :=
  let (negative, cs) := takeSign cs
  match takeWhole cs with
  | .found whole rest => finishDecimal negative whole rest
  | .other => takeSpecial negative cs
  | .fault => none

/-- The value of digits in a base. -/
def ofBase (base : Nat) (digits : List Char) : Nat :=
  digits.foldl (fun n c => n * base + (hexDigit? c).getD 0) 0

/-- Whether a character is a digit of a base. -/
def isDigitOf (base : Nat) (c : Char) : Bool :=
  match hexDigit? c with
  | some d => d < base
  | none => false

/-- Reads the digits of an integer in a base other than ten. -/
def takeBased (base : Nat) (cs : List Char) : Option (Nested × List Char) := do
  let (digits, cs) ← takeSeparated (isDigitOf base) cs
  let n ← int64? (ofBase base digits : Nat)
  some (.integer n, cs)

/-- Reads a number, a date or a time. -/
def takeNumeric (cs : List Char) : Option (Nested × List Char) :=
  match takeMoment cs with
  | .found text rest => some (.mapping [(momentKey, .string (String.ofList text))], rest)
  | .fault => none
  | .other =>
    match cs with
    | '0' :: 'x' :: cs => takeBased 16 cs
    | '0' :: 'o' :: cs => takeBased 8 cs
    | '0' :: 'b' :: cs => takeBased 2 cs
    | cs => takeDecimal cs

end Phrasebook.Toml
