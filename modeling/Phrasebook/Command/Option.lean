import Phrasebook.Text.Split

/-!
# Options of a command line

An argument that starts with a hyphen is an option, unless it is the hyphen alone or follows two
hyphens alone; every other argument is an operand. Long options have a value after an equals sign or
in the next argument; short options may be joined, and the last of them may have a value right after
it. A value that no option of its own may start with a hyphen.

Options are read from left to right, each into a draft of what the command line asks for. The value
in an argument of its own is only judged when the next option comes.
-/

namespace Phrasebook.Command

open Text

/-- Why a command line asks for no work. -/
inductive Halt where
  /-- It asks how the program is used. -/
  | help
  /-- It asks for the version. -/
  | version
  /-- It is wrong. -/
  | misuse
  deriving DecidableEq, Repr

/-- What an option does to a draft. -/
inductive Meaning (σ : Type) where
  /-- It ends the reading. -/
  | halt (h : Halt)
  /-- It has no value. -/
  | switch (set : σ → σ)
  /-- It has a value, which may be refused. -/
  | value (set : String → σ → Option σ)

/-- An option. -/
structure Opt (σ : Type) where
  /-- Its long name. -/
  long : String
  /-- Its short name. -/
  short : Option Char := none
  /-- Whether it may be given several times. -/
  repeats : Bool := false
  /-- What it does. -/
  meaning : Meaning σ

/-- What operands mean. -/
inductive Operand (σ : Type) where
  /-- The first one ends the options. -/
  | stop
  /-- Each is put into the draft, unless it is refused. -/
  | take (set : String → σ → Option σ)

/-- The state of reading. -/
structure Reading (σ : Type) where
  /-- The draft. -/
  draft : σ
  /-- The long names of the options so far. -/
  used : List String := []
  /-- Whether the last value is wrong. -/
  refused : Bool := false

namespace Reading

variable {σ : Type}

/-- Judges the last value. -/
def settle (r : Reading σ) : Except Halt (Reading σ) :=
  if r.refused then .error .misuse else .ok r

/-- Puts something into the draft. -/
def set (next : Option σ) (r : Reading σ) : Except Halt (Reading σ) :=
  match next with
  | some draft => .ok { r with draft }
  | none => .error .misuse

/-- Notes an option, which may not have been used yet if it does not repeat. -/
def use (opt : Opt σ) (r : Reading σ) : Except Halt (Reading σ) := do
  let r ← r.settle
  if !opt.repeats && r.used.contains opt.long then .error .misuse
  else .ok { r with used := opt.long :: r.used }

/-- Takes an option without a value. -/
def turnOn (opt : Opt σ) (change : σ → σ) (r : Reading σ) : Except Halt (Reading σ) := do
  let r ← r.use opt
  r.set (some (change r.draft))

/-- Takes an option with its value. -/
def assign (opt : Opt σ) (change : String → σ → Option σ) (text : String) (r : Reading σ) :
    Except Halt (Reading σ) := do
  let r ← r.use opt
  r.set (change text r.draft)

/-- Takes an option with its value in an argument of its own. -/
def assignLater (opt : Opt σ) (change : String → σ → Option σ) (text : String) (r : Reading σ) :
    Except Halt (Reading σ) := do
  let r ← r.settle
  match r.assign opt change text with
  | .ok next => .ok next
  | .error _ => .ok { r with refused := true }

end Reading

/-- An option that waits for its value, and what that does. -/
abbrev Awaiting (σ : Type) := Opt σ × (String → σ → Option σ)

variable {σ : Type}

/-- Reads an option with a long name. -/
def takeLong (opts : List (Opt σ)) (text : List Char) (r : Reading σ) :
    Except Halt (Reading σ × Option (Awaiting σ)) :=
  let (name, attached) :=
    match splitOnce '=' text with
    | some (name, value) => (name, some (String.ofList value))
    | none => (text, none)
  match opts.find? fun opt => opt.long.toList == name with
  | none => .error .misuse
  | some opt =>
    match opt.meaning, attached with
    | .halt h, none => do
      let _ ← r.settle
      .error h
    | .switch change, none => do return (← r.turnOn opt change, none)
    | .value change, none => .ok (r, some (opt, change))
    | .value change, some value => do return (← r.assign opt change value, none)
    | _, some _ => .error .misuse

/-- Reads options with short names. -/
def takeShort (opts : List (Opt σ)) :
    List Char → Reading σ → Except Halt (Reading σ × Option (Awaiting σ))
  | [], r => .ok (r, none)
  | c :: cs, r =>
    match opts.find? fun opt => opt.short == some c with
    | none => .error .misuse
    | some opt =>
      match opt.meaning with
      | .halt h => do
        let _ ← r.settle
        .error h
      | .switch change => do takeShort opts cs (← r.turnOn opt change)
      | .value change =>
        match cs with
        | [] => .ok (r, some (opt, change))
        | '=' :: value => do return (← r.assign opt change (String.ofList value), none)
        | value => do return (← r.assign opt change (String.ofList value), none)

/-- Reads the option or the options in an argument. -/
def takeOption (opts : List (Opt σ)) (argument : String) (r : Reading σ) :
    Except Halt (Reading σ × Option (Awaiting σ)) :=
  match argument.toList with
  | '-' :: '-' :: text => takeLong opts text r
  | text => takeShort opts (text.drop 1) r

/-- Whether an argument starts like an option. -/
def isOption (argument : String) : Bool :=
  match argument.toList with
  | '-' :: _ :: _ => true
  | _ => false

/-- Reads operands only. -/
def readOperands (set : String → σ → Option σ) : List String → Reading σ → Except Halt (Reading σ)
  | [], r => r.settle
  | operand :: rest, r => do
    let r ← r.settle
    readOperands set rest (← r.set (set operand r.draft))

/-- Reads options, and operands as they are meant. What is left starts with the operand that ended
the options. -/
def readArguments (opts : List (Opt σ)) (operand : Operand σ) :
    List String → Reading σ → Except Halt (Reading σ × List String)
  | [], r => .ok (r, [])
  | argument :: rest, r =>
    if argument = "--" then
      match operand with
      | .stop => .error .misuse
      | .take set => do return (← readOperands set rest r, [])
    else if isOption argument then do
      match ← takeOption opts argument r with
      | (r, none) => readArguments opts operand rest r
      | (r, some (opt, change)) =>
        match rest with
        | [] => .error .misuse
        | value :: rest =>
          -- A hyphen alone is a value; anything longer that starts with one is an option.
          if isOption value then .error .misuse
          else readArguments opts operand rest (← r.assignLater opt change value)
    else
      match operand with
      | .stop => .ok (r, argument :: rest)
      | .take set => do
        let r ← r.settle
        readArguments opts operand rest (← r.set (set argument r.draft))

end Phrasebook.Command
