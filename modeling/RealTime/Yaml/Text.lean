/-! # Located text

Reading YAML depends on where things stand: block structure is told by columns, and a key must
be on one line with its colon.  So a text is first turned into a list of `Spot`s, characters
with their places.

All line breaks but U+2028 and U+2029 become line feeds, a carriage return with its line feed
becoming one break.  An end mark, a character that no text can contain, stands behind the last
one. -/

namespace RealTime.Yaml

/-- A character and its place.  Lines and columns count from 0. -/
structure Spot where
  char : Char
  /-- Number of characters before it in the text. -/
  index : Nat
  line : Nat
  column : Nat
  deriving DecidableEq, Repr

/-! ### Classes of characters -/

/-- The end mark. -/
def endMark : Char := '\x00'

/-- Whether a character ends a line. -/
def isBreak (c : Char) : Bool := c = '\n' || c = '\u2028' || c = '\u2029'

/-- Whether a character is a space or a tab. -/
def isBlank (c : Char) : Bool := c = ' ' || c = '\t'

/-- Whether a character ends a line or is the end mark. -/
def isBreakOrEnd (c : Char) : Bool := isBreak c || c = endMark

/-- Whether a character separates tokens: a blank, a line break or the end mark. -/
def isGap (c : Char) : Bool := isBlank c || isBreakOrEnd c

/-- Whether a character can be part of a name. -/
def isWord (c : Char) : Bool := c.isAlphanum || c = '_' || c = '-'

/-- Whether a text may contain a character. -/
def isPrintable (c : Char) : Bool :=
  c = '\t' || c = '\n' || c = '\r' || (' ' ≤ c && c ≤ '~') || c = '\u0085' ||
    ('\u00A0' ≤ c && c ≤ '\uFFFD') || 0x10000 ≤ c.toNat

/-! ### Places -/

/-- Give places to the characters of a text that starts at a given place. -/
def locateFrom (index line column : Nat) : List Char → List Spot
  | [] => [⟨endMark, index, line, column⟩]
  | '\r' :: '\n' :: cs => ⟨'\n', index, line, column⟩ :: locateFrom (index + 2) (line + 1) 0 cs
  | c :: cs =>
    if c = '\r' || c = '\n' || c = '\u0085' then
      ⟨'\n', index, line, column⟩ :: locateFrom (index + 1) (line + 1) 0 cs
    else if isBreak c then ⟨c, index, line, column⟩ :: locateFrom (index + 1) (line + 1) 0 cs
    else ⟨c, index, line, column⟩ :: locateFrom (index + 1) line (column + 1) cs

/-- The spots of a text, if all its characters are allowed.  A byte order mark at the start is
left out; it takes a column all the same. -/
def locate? (text : String) : Option (List Spot) :=
  let cs := text.toList
  if cs.all isPrintable then
    let spots := locateFrom 0 0 0 cs
    some (if cs.head? = some '\uFEFF' then spots.tail else spots)
  else none

/-- The character `k` places behind the first one. -/
def charAt (spots : List Spot) (k : Nat) : Char :=
  match spots[k]? with
  | some s => s.char
  | none => endMark

/-- The column of the first spot. -/
def columnOf : List Spot → Nat
  | [] => 0
  | s :: _ => s.column

/-- Whether a text goes on with a mark between documents, made of a given character. -/
def atMark (c : Char) (spots : List Spot) : Bool :=
  columnOf spots = 0 && charAt spots 0 = c && charAt spots 1 = c && charAt spots 2 = c &&
    isGap (charAt spots 3)

/-- Whether a text goes on with the start or the end of a document. -/
def atDocumentMark (spots : List Spot) : Bool := atMark '-' spots || atMark '.' spots

/-- The characters of some spots. -/
def charsOf (spots : List Spot) : List Char := spots.map (·.char)

/-- Leave out the blanks in front. -/
def dropBlanks (spots : List Spot) : List Spot := spots.dropWhile (isBlank ·.char)

/-- Leave out blanks, a comment, and the line break behind them, which must be there unless the
text ends. -/
def endLine? (spots : List Spot) : Option (List Spot) :=
  let rest := dropBlanks spots
  let rest := if charAt rest 0 = '#' then rest.dropWhile (!isBreakOrEnd ·.char) else rest
  if isBreak (charAt rest 0) then some rest.tail
  else if charAt rest 0 = endMark then some rest
  else none

/-! ### Digits -/

/-- The value of a digit in a base up to sixteen. -/
def digit? (base : Nat) (c : Char) : Option Nat :=
  let v :=
    if '0' ≤ c && c ≤ '9' then c.toNat - '0'.toNat
    else if 'a' ≤ c && c ≤ 'f' then c.toNat - 'a'.toNat + 10
    else if 'A' ≤ c && c ≤ 'F' then c.toNat - 'A'.toNat + 10
    else base
  if v < base then some v else none

/-- The number written by at least one digit and nothing else. -/
def natural? (base : Nat) (cs : List Char) : Option Nat :=
  if cs.isEmpty then none
  else cs.foldl (fun n c => do return (← n) * base + (← digit? base c)) (some 0)

end RealTime.Yaml
