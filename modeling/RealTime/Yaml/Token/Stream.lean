import RealTime.Yaml.Token.Property
import RealTime.Yaml.Token.Scalar

/-! # From text to tokens

A `Lexer` turns located text into tokens.  Two things make it more than a loop over characters.

* Block collections are opened and closed by columns.  The lexer keeps the columns of the open
  ones; text that starts farther left closes them.
* Whether a node is a key shows only at the colon behind it.  So the lexer remembers where a key
  could have started, at most one for each open flow collection and one outside of them, and
  puts the token for the key in front of it when the colon comes. -/

namespace RealTime.Yaml

/-- A place where a key may have started. -/
structure KeyPlace where
  /-- Number of tokens before it. -/
  position : Nat
  spot : Spot
  /-- Whether the block structure allows nothing but a key there. -/
  required : Bool

/-- The longest key on one line, in characters. -/
def keyLength : Nat := 1024

/-- Tokens read so far, what is left of the text, and the structure at this point. -/
structure Lexer where
  spots : List Spot
  tokens : Array Token := #[]
  /-- One past the column of each open block collection, innermost first. -/
  levels : List Nat := []
  /-- Whether a key may start here. -/
  keyAllowed : Bool := true
  /-- Where the current collection may have a key. -/
  key : Option KeyPlace := none
  /-- The same for the collections around the open flow collections, innermost first. -/
  outer : List (Option KeyPlace) := []

namespace Lexer

/-- The first spot that has not been read. -/
def here (x : Lexer) : Spot := x.spots.headD ⟨endMark, 0, 0, 0⟩

/-- Whether a flow collection is open. -/
def inFlow (x : Lexer) : Bool := !x.outer.isEmpty

/-- The least column of text within the innermost block collection. -/
def level (x : Lexer) : Nat := x.levels.headD 0

/-- Go on behind a token. -/
def push (x : Lexer) (token : Token) (rest : List Spot) : Lexer :=
  { x with tokens := x.tokens.push token, spots := rest }

/-- Put a token in front of those from a position on. -/
def insertAt (x : Lexer) (position : Nat) (token : Token) : Lexer :=
  { x with
    tokens := (x.tokens.extract 0 position).push token ++
      x.tokens.extract position x.tokens.size }

/-! ### White space -/

/-- Skip blanks, comments and line breaks.  The answer tells also whether a key may start behind
them: a line break in block context allows it.  Where a key may start, a tab is no blank. -/
def skipGap (flow comment keyAllowed : Bool) : List Spot → Bool × List Spot
  | [] => (keyAllowed, [])
  | s :: rest =>
    if isBreak s.char then skipGap flow false (keyAllowed || !flow) rest
    else if s.char = endMark then (keyAllowed, s :: rest)
    else if comment || s.char = ' ' || (s.char = '\t' && (flow || !keyAllowed)) then
      skipGap flow comment keyAllowed rest
    else if s.char = '#' then skipGap flow true keyAllowed rest
    else (keyAllowed, s :: rest)

/-! ### Keys -/

/-- Give up the place of a key if the key would be too long or not on one line. -/
def expire? (here : Spot) : Option KeyPlace → Option (Option KeyPlace)
  | none => some none
  | some k =>
    if k.spot.line < here.line || k.spot.index + keyLength < here.index then
      (if k.required then none else some none)
    else some (some k)

/-- Give up the places of keys that would be too long or not on one line. -/
def expireKeys? (x : Lexer) : Option Lexer := do
  return { x with key := ← expire? x.here x.key, outer := ← x.outer.mapM (expire? x.here) }

/-- Give up the current place of a key. -/
def dropKey? (x : Lexer) : Option Lexer :=
  match x.key with
  | some k => if k.required then none else some { x with key := none }
  | none => some x

/-- Remember that a key may start here. -/
def saveKey? (x : Lexer) : Option Lexer :=
  if x.keyAllowed then do
    -- text that starts where the innermost block collection does must be a key
    let required := !x.inFlow && x.level = x.here.column + 1
    return { ← x.dropKey? with key := some ⟨x.tokens.size, x.here, required⟩ }
  else some x

/-! ### Block collections -/

/-- Close the block collections whose level is above a bound. -/
def closeBlocks (x : Lexer) (bound : Nat) : Lexer :=
  if x.inFlow then x
  else
    let (closed, levels) := x.levels.span (bound < ·)
    { x with tokens := x.tokens ++ (closed.map fun _ => Token.blockEnd).toArray, levels }

/-- Open a block collection at a column, unless one is open there.  Its first token goes to a
given position. -/
def openBlock (x : Lexer) (column position : Nat) (token : Token) : Lexer :=
  if x.inFlow || column < x.level then x
  else { x.insertAt position token with levels := (column + 1) :: x.levels }

/-! ### Tokens -/

/-- Read a sign between documents. -/
def readMark? (x : Lexer) (token : Token) : Option Lexer := do
  let x ← (x.closeBlocks 0).dropKey?
  return { x.push token (x.spots.drop 3) with keyAllowed := false }

/-- Read a directive. -/
def readDirective? (x : Lexer) : Option Lexer := do
  let x ← (x.closeBlocks 0).dropKey?
  let (token, rest) ← directive? x.spots
  return { x.push token rest with keyAllowed := false }

/-- Read the start of a flow collection. -/
def openFlow? (x : Lexer) (token : Token) : Option Lexer := do
  let x ← x.saveKey?
  return { x.push token x.spots.tail with keyAllowed := true, key := none, outer := x.key :: x.outer }

/-- Read the end of a flow collection. -/
def closeFlow? (x : Lexer) (token : Token) : Option Lexer := do
  let x ← x.dropKey?
  let x := match x.outer with
    | key :: outer => { x with key, outer }
    | [] => x
  return { x.push token x.spots.tail with keyAllowed := false }

/-- Read the comma between two entries of a flow collection. -/
def readFlowEntry? (x : Lexer) : Option Lexer := do
  let x ← x.dropKey?
  return { x.push .flowEntry x.spots.tail with keyAllowed := true }

/-- Read the dash of an entry of a block sequence. -/
def readBlockEntry? (x : Lexer) : Option Lexer := do
  if !x.inFlow && !x.keyAllowed then none
  else
    let x ← (x.openBlock x.here.column x.tokens.size .blockSequenceStart).dropKey?
    return { x.push .blockEntry x.spots.tail with keyAllowed := true }

/-- Read the question mark of a key. -/
def readKey? (x : Lexer) : Option Lexer := do
  if !x.inFlow && !x.keyAllowed then none
  else
    let x ← (x.openBlock x.here.column x.tokens.size .blockMappingStart).dropKey?
    return { x.push .key x.spots.tail with keyAllowed := !x.inFlow }

/-- Read the colon of a value. -/
def readValue? (x : Lexer) : Option Lexer :=
  match x.key with
  | some k =>
    -- both tokens go in front of the key, the start of the mapping first
    let x := x.insertAt k.position .key
    let x := x.openBlock k.spot.column k.position .blockMappingStart
    some { x.push .value x.spots.tail with key := none, keyAllowed := false }
  | none =>
    if !x.inFlow && !x.keyAllowed then none
    else
      let x := x.openBlock x.here.column x.tokens.size .blockMappingStart
      some { x.push .value x.spots.tail with keyAllowed := !x.inFlow }

/-- Read an anchor or an alias. -/
def readName? (x : Lexer) (token : String → Token) : Option Lexer := do
  let x ← x.saveKey?
  let (name, rest) ← name? x.spots
  return { x.push (token name) rest with keyAllowed := false }

/-- Read a tag. -/
def readTag? (x : Lexer) : Option Lexer := do
  let x ← x.saveKey?
  let (token, rest) ← tag? x.inFlow x.spots
  return { x.push token rest with keyAllowed := false }

/-- Read a block of lines. -/
def readBlock? (x : Lexer) (style : Style) : Option Lexer := do
  let x ← x.dropKey?
  let (text, rest) ← blockScalar? x.level x.spots
  return { x.push (.scalar style (String.ofList text)) rest with keyAllowed := true }

/-- Read a quoted scalar. -/
def readQuoted? (x : Lexer) : Option Lexer := do
  let x ← x.saveKey?
  let (text, rest) ← quotedScalar? x.spots
  return { x.push (.scalar .quoted (String.ofList text)) rest with keyAllowed := false }

/-- Read a plain scalar. -/
def readPlain? (x : Lexer) : Option Lexer := do
  let x ← x.saveKey?
  let scalar ← plainScalar? x.inFlow x.level x.spots
  return { x.push (.scalar .plain (String.ofList scalar.text)) scalar.rest with
    keyAllowed := scalar.broken }

/-- Whether a character has a meaning of its own at the start of a token. -/
def isSign (c : Char) : Bool :=
  c = '-' || c = '?' || c = ':' || isFlowMark c || c = '#' || c = '&' || c = '*' || c = '!' ||
    c = '|' || c = '>' || c = '\'' || c = '"' || c = '%' || c = '@' || c = '\x60'

/-- Read one token, which starts here. -/
def readToken? (x : Lexer) : Option Lexer :=
  let c := charAt x.spots 0
  let next := charAt x.spots 1
  let alone := isGap next
  if x.here.column = 0 && c = '%' then x.readDirective?
  else if atMark '-' x.spots then x.readMark? .documentStart
  else if atMark '.' x.spots then x.readMark? .documentEnd
  else if c = '[' then x.openFlow? .flowSequenceStart
  else if c = '{' then x.openFlow? .flowMappingStart
  else if c = ']' then x.closeFlow? .flowSequenceEnd
  else if c = '}' then x.closeFlow? .flowMappingEnd
  else if c = ',' then x.readFlowEntry?
  else if c = '-' && alone then x.readBlockEntry?
  else if c = '?' && (x.inFlow || alone) then x.readKey?
  else if c = ':' && (x.inFlow || alone) then x.readValue?
  else if c = '*' then x.readName? .alias
  else if c = '&' then x.readName? .anchor
  else if c = '!' then x.readTag?
  else if c = '|' && !x.inFlow then x.readBlock? .literal
  else if c = '>' && !x.inFlow then x.readBlock? .folded
  else if c = '\'' || c = '"' then x.readQuoted?
  -- some signs start plain text if what follows rules out their own meaning
  else if !(isGap c || isSign c) || (c = '-' && !isBlank next) ||
      (!x.inFlow && (c = '?' || c = ':') && !alone) then
    x.readPlain?
  else none

/-- Read all tokens.  There are at most `fuel` of them. -/
def readTokens? : Nat → Lexer → Option (List Token)
  | 0, _ => none
  | fuel + 1, x => do
    -- line breaks may end keys and blocks, so both are looked at before each token
    let (keyAllowed, spots) := skipGap x.inFlow false x.keyAllowed x.spots
    let x ← { x with keyAllowed, spots }.expireKeys?
    let x := x.closeBlocks (x.here.column + 1)
    if x.here.char = endMark then return (← (x.closeBlocks 0).dropKey?).tokens.toList
    readTokens? fuel (← x.readToken?)

end Lexer

/-- The tokens of a text. -/
def Token.ofText? (text : String) : Option (List Token) := do
  let spots ← locate? text
  Lexer.readTokens? (spots.length + 1) { spots }

end RealTime.Yaml
