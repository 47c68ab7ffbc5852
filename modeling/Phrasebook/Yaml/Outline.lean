import Phrasebook.Yaml.Token

/-!
# The outline of a YAML document

Outside of flow collections the column of a token tells which block it belongs to: a token further
left ends the blocks right of it, and an entry or a key further right opens one. A key need not be
marked: what stands before a colon is a key if it starts where one may start, on the same line, not
too far away. The mark of the key is then put before it.
-/

namespace Phrasebook.Yaml

/-- A place where a key may have started. -/
structure Candidate where
  /-- The place. -/
  place : Cursor
  /-- Whether only a key may stand there. -/
  required : Bool
  /-- The number of tokens before. -/
  tokensBefore : Nat

/-- How far a colon may be from the start of its key. -/
def maxKeyLength : Nat := 1024

/-- Whether a place is out of reach of a candidate. -/
def Candidate.isExpired (k : Candidate) (c : Cursor) : Bool :=
  k.place.line < c.line || k.place.index + maxKeyLength < c.index

/-- What has been read of a document. -/
structure Outline where
  /-- The columns of the open blocks, the innermost first. -/
  blocks : List Nat
  /-- The candidate at this level of flow collections. -/
  candidate : Option Candidate
  /-- The candidates of the levels around it, the nearest first. -/
  enclosing : List (Option Candidate)
  /-- Whether a key may start here. -/
  keyAllowed : Bool
  /-- The tokens, the last one first. -/
  tokens : List Token

namespace Outline

/-- The outline before the first token. -/
def start : Outline := ⟨[], none, [], true, []⟩

/-- Whether a flow collection is open. -/
def inFlow (l : Outline) : Bool :=
  !l.enclosing.isEmpty

/-- The least column of what belongs to the innermost open block. -/
def margin (l : Outline) : Nat :=
  match l.blocks with
  | [] => 0
  | column :: _ => column + 1

/-- Adds a token. -/
def add (token : Token) (l : Outline) : Outline :=
  { l with tokens := token :: l.tokens }

/-- Puts a token before which `count` tokens stand. -/
def insert (count : Nat) (token : Token) (l : Outline) : Outline :=
  let after := l.tokens.length - count
  { l with tokens := l.tokens.take after ++ token :: l.tokens.drop after }

/-- Tells whether a key may start at the next token. -/
def allowKey (allowed : Bool) (l : Outline) : Outline :=
  { l with keyAllowed := allowed }

/-! ### Blocks -/

/-- Ends the blocks with a property, which are the innermost ones. -/
def endBlocks (ends : Nat → Bool) (l : Outline) : Outline :=
  if l.inFlow then l
  else
    let count := (l.blocks.takeWhile ends).length
    { l with
      blocks := l.blocks.drop count
      tokens := List.replicate count .blockEnd ++ l.tokens }

/-- Opens a block at a column right of the innermost one. Before its token stand `count` tokens. -/
def openBlock (column count : Nat) (token : Token) (l : Outline) : Outline :=
  if l.inFlow || column < l.margin then l
  else insert count token { l with blocks := column :: l.blocks }

/-- Opens a block with the next token. -/
def openBlockHere (c : Cursor) (token : Token) (l : Outline) : Outline :=
  l.openBlock c.column l.tokens.length token

/-! ### Candidates -/

/-- Gives the candidate of this level up, unless it has to be a key. -/
def dropCandidate (l : Outline) : Option Outline :=
  match l.candidate with
  | none => some l
  | some k => if k.required then none else some { l with candidate := none }

/-- Takes a place as candidate, if a key may start there. It has to be a key if it stands where the
innermost block has its keys. -/
def offerCandidate (c : Cursor) (l : Outline) : Option Outline :=
  if l.keyAllowed then
    l.dropCandidate.map fun l =>
      let required := !l.inFlow && l.blocks.head? == some c.column
      { l with candidate := some ⟨c, required, l.tokens.length⟩ }
  else some l

/-- What becomes of a candidate when a place is reached. -/
def expire (c : Cursor) : Option Candidate → Option (Option Candidate)
  | none => some none
  | some k => if !k.isExpired c then some (some k) else if k.required then none else some none

/-- Gives up the candidates that a place is out of reach of, unless one of them has to be a key. -/
def expireCandidates (c : Cursor) (l : Outline) : Option Outline := do
  let candidate ← expire c l.candidate
  let enclosing ← l.enclosing.mapM (expire c)
  some { l with candidate, enclosing }

/-! ### Tokens -/

/-- Takes a mark of the given length that ends everything open: a directive or the mark of a
document. -/
def addBoundary (l : Outline) : Option Outline :=
  (l.endBlocks fun _ => true).dropCandidate.map (allowKey false)

/-- Takes the opening mark of a flow collection. -/
def openFlow (c : Cursor) (token : Token) (l : Outline) : Option Outline :=
  (l.offerCandidate c).map fun l =>
    let enclosing := l.candidate :: l.enclosing
    add token { l with candidate := none, enclosing, keyAllowed := true }

/-- Takes the closing mark of a flow collection. -/
def closeFlow (token : Token) (l : Outline) : Option Outline := do
  let l ← l.dropCandidate
  match l.enclosing with
  | [] => none
  | candidate :: enclosing => some (add token { l with candidate, enclosing, keyAllowed := false })

/-- Takes the comma between the items of a flow collection. -/
def addComma (l : Outline) : Option Outline :=
  l.dropCandidate.map fun l => (l.allowKey true).add .comma

/-- Takes the hyphen before an entry of a block. -/
def addEntry (c : Cursor) (l : Outline) : Option Outline :=
  if !l.inFlow && !l.keyAllowed then none
  else (l.openBlockHere c .blockSequence).dropCandidate.map fun l => (l.allowKey true).add .entry

/-- Takes the question mark before a key. -/
def addKey (c : Cursor) (l : Outline) : Option Outline :=
  if !l.inFlow && !l.keyAllowed then none
  else
    (l.openBlockHere c .blockMapping).dropCandidate.map fun l => (l.allowKey (!l.inFlow)).add .key

/-- Takes the colon before a value. If there is a candidate, it is the key. -/
def addValue (c : Cursor) (l : Outline) : Option Outline :=
  match l.candidate with
  | some k =>
    -- The block opens before its first key, so its token is put before the mark of the key.
    let l := l.insert k.tokensBefore .key
    let l := l.openBlock k.place.column k.tokensBefore .blockMapping
    some ({ l with candidate := none, keyAllowed := false }.add .value)
  | none =>
    if !l.inFlow && !l.keyAllowed then none
    else some (((l.openBlockHere c .blockMapping).allowKey (!l.inFlow)).add .value)

/-- Takes a token that may be the start of a key. -/
def addContent (c : Cursor) (token : Token) (l : Outline) : Option Outline :=
  (l.offerCandidate c).map fun l => (l.allowKey false).add token

/-- Takes a plain scalar. After a line break a key may start. -/
def addPlain (c : Cursor) (text : List Char) (last : Gap) (l : Outline) : Option Outline :=
  (l.addContent c (.scalar true (String.ofList text))).map (allowKey last.isBroken)

/-- Takes a block scalar. A key may start after it, but not with it. -/
def addBlockScalar (text : List Char) (l : Outline) : Outline :=
  (l.allowKey true).add (.scalar false (String.ofList text))

/-! ### Reading -/

/-- Whether a plain scalar may start with a text. -/
def startsPlain (flow : Bool) : List Char → Bool
  | [] => false
  | c :: cs =>
    if c = '-' then !cs.head?.any isBlank
    else if c = '?' ∨ c = ':' then !flow && !atGap cs
    else
      !(isBlank c || isBreak c || isFlowMark c ||
        ['#', '&', '*', '!', '|', '>', '\'', '"', '%', '@', '\x60'].contains c)

/-- Skips blanks, comments and line ends before a token. Tabs may stand in flow collections and
where no key may start. A byte order mark may start a line. -/
def skipToToken : (bound : Nat) → Cursor → Outline → Cursor × Outline
  | 0, c, l => (c, l)
  | bound + 1, c, l =>
    let c := if c.column = 0 ∧ c.rest.head? = some '\uFEFF' then c.skip 1 else c
    let c := c.skipWhile fun d => d == ' ' || (d == '\t' && (l.inFlow || !l.keyAllowed))
    let c := c.skipComment
    match c.takeBreak with
    | some (_, c) => skipToToken bound c (if l.inFlow then l else l.allowKey true)
    | none => (c, l)

/-- Reads the token here. -/
def take (c : Cursor) (l : Outline) : Option (Cursor × Outline) :=
  let word (start : Char) : Bool := c.rest.head? == some start
  let alone (start : Char) : Bool := word start && (l.inFlow || atGap (c.rest.drop 1))
  -- Marks come first; a scalar is what is left if no mark starts here.
  if c.column = 0 ∧ word '%' then do
    let l ← l.addBoundary
    let (token, next) ← takeDirective c
    some (next, l.add token)
  else if c.atMarker then
    l.addBoundary.map fun l =>
      (c.skip 3, l.add (if word '-' then .documentStart else .documentEnd))
  else if word '[' then (l.openFlow c .flowSequence).map (c.skip 1, ·)
  else if word '\x7b' then (l.openFlow c .flowMapping).map (c.skip 1, ·)
  else if word ']' then (l.closeFlow .flowSequenceEnd).map (c.skip 1, ·)
  else if word '\x7d' then (l.closeFlow .flowMappingEnd).map (c.skip 1, ·)
  else if word ',' then l.addComma.map (c.skip 1, ·)
  else if word '-' && atGap (c.rest.drop 1) then (l.addEntry c).map (c.skip 1, ·)
  else if alone '?' then (l.addKey c).map (c.skip 1, ·)
  else if alone ':' then (l.addValue c).map (c.skip 1, ·)
  else if word '*' then do
    let (name, next) ← takeAnchorName (c.skip 1)
    (l.addContent c (.reference name)).map (next, ·)
  else if word '&' then do
    let (name, next) ← takeAnchorName (c.skip 1)
    (l.addContent c (.anchor name)).map (next, ·)
  else if word '!' then do
    let (token, next) ← takeTag l.inFlow c
    (l.addContent c token).map (next, ·)
  else if !l.inFlow && (word '|' || word '>') then do
    let l ← l.dropCandidate
    let (text, next) ← takeBlock (word '>') l.margin (c.skip 1)
    some (next, l.addBlockScalar text)
  else if word '"' || word '\'' then do
    let quote := if word '"' then '"' else '\''
    let (text, next) ← takeQuoted quote c.rest.length (c.skip 1)
    (l.addContent c (.scalar false (String.ofList text))).map (next, ·)
  else if startsPlain l.inFlow c.rest then do
    let (text, last, next) ← takePlain l.inFlow l.margin c.rest.length .empty c
    (l.addPlain c text last).map (next, ·)
  else none

/-- Reads the tokens up to the end of a text. -/
def takeAll : (bound : Nat) → Cursor → Outline → Option (List Token)
  | 0, _, _ => none
  | bound + 1, c, l => do
    let (c, l) := l.skipToToken (c.rest.length + 1) c
    let l := (← l.expireCandidates c).endBlocks (c.column < ·)
    if c.rest.isEmpty then some (← l.addBoundary).tokens.reverse
    else
      let (c, l) ← l.take c
      takeAll bound c l

end Outline

/-- The tokens of a text. -/
def tokens? (source : String) : Option (List Token) :=
  let text := source.toList
  if text.all isAllowed then Outline.start.takeAll (text.length + 1) (.start text) else none

end Phrasebook.Yaml
