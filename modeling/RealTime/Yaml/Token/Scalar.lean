import RealTime.Yaml.Text
import RealTime.Yaml.Token.Basic

/-! # Scalars

The text of a scalar is written plain, between quotes, or as a block of lines.  Line breaks
within plain and quoted scalars and in folded blocks are folded: a single one stands for a
space, and of several the first one counts for nothing.

Every reader takes the spots from the scalar on and returns its text and the spots behind it. -/

namespace RealTime.Yaml

/-! ### White space within scalars -/

/-- White space between two pieces of a scalar. -/
structure Gap where
  /-- The blanks before the first line break. -/
  blanks : List Char := []
  /-- Whether there is a line break. -/
  broken : Bool := false
  /-- The first line break, unless it is escaped. -/
  first : List Char := []
  /-- The other line breaks. -/
  more : List Char := []

namespace Gap

/-- What a gap stands for. -/
def text (g : Gap) : List Char :=
  if !g.broken then g.blanks
  else if g.first = ['\n'] then (if g.more.isEmpty then [' '] else g.more)
  else g.first ++ g.more

/-- Read the rest of a gap.  After a line break, no tab may stand left of column `level`. -/
def read? (level : Nat) (g : Gap) : List Spot → Option (Gap × List Spot)
  | [] => some (g, [])
  | s :: rest =>
    if isBlank s.char then
      if !g.broken then read? level { g with blanks := g.blanks ++ [s.char] } rest
      else if s.column < level && s.char = '\t' then none
      else read? level g rest
    else if isBreak s.char then
      if !g.broken then read? level { g with broken := true, first := [s.char] } rest
      else read? level { g with more := g.more ++ [s.char] } rest
    else some (g, s :: rest)

end Gap

/-! ### Plain scalars -/

/-- Whether a character is a mark of flow collections. -/
def isFlowMark (c : Char) : Bool := c = ',' || c = '[' || c = ']' || c = '{' || c = '}'

/-- Read a piece of a plain scalar without white space.  In a flow collection, a colon directly
before a mark of the collection is refused. -/
def plainPiece? (flow : Bool) : List Spot → Option (List Char × List Spot)
  | [] => some ([], [])
  | s :: rest =>
    let next := charAt rest 0
    if isGap s.char then some ([], s :: rest)
    else if flow && s.char = ':' && (isFlowMark next || next = '?') then none
    else if (s.char = ':' && isGap next) || (flow && isFlowMark s.char) then some ([], s :: rest)
    else (plainPiece? flow rest).map fun (cs, rest) => (s.char :: cs, rest)

/-- What a reader of plain scalars has found. -/
structure PlainScalar where
  text : List Char
  /-- Whether a line break stands between the scalar and what follows. -/
  broken : Bool
  rest : List Spot

/-- Read the rest of a plain scalar behind a gap.  There are at most `fuel` pieces. -/
def plainRest? (flow : Bool) (level : Nat) : Nat → List Char → Gap → List Spot →
    Option PlainScalar
  | 0, _, _, _ => none
  | fuel + 1, text, gap, spots => do
    if atDocumentMark spots || charAt spots 0 = '#' then return ⟨text, gap.broken, spots⟩
    let (piece, rest) ← plainPiece? flow spots
    -- a gap belongs to the scalar only if a piece follows it
    if piece.isEmpty then return ⟨text, gap.broken, spots⟩
    let text := text ++ gap.text ++ piece
    let (gap, rest) ← Gap.read? level {} rest
    if !flow && columnOf rest < level then return ⟨text, gap.broken, rest⟩
    plainRest? flow level fuel text gap rest

/-- Read a plain scalar.  In block context its lines must not start left of column `level`. -/
def plainScalar? (flow : Bool) (level : Nat) (spots : List Spot) : Option PlainScalar :=
  plainRest? flow level (spots.length + 1) [] {} spots

/-! ### Quoted scalars -/

/-- Read a piece of a scalar in single quotes up to white space or the closing quote. -/
def singlePiece : List Spot → List Char × List Spot
  | [] => ([], [])
  | s :: rest =>
    let add (c : Char) (r : List Char × List Spot) := (c :: r.1, r.2)
    if isGap s.char then ([], s :: rest)
    else if s.char = '\'' then
      match rest with
      | [] => ([], [s])
      | t :: rest => if t.char = '\'' then add '\'' (singlePiece rest) else ([], s :: t :: rest)
    else add s.char (singlePiece rest)

/-- What a backslash stands for together with the character behind it. -/
def escape? : Char → Option Char
  | '0' => some '\x00'
  | 'a' => some '\x07'
  | 'b' => some '\x08'
  | 't' => some '\t'
  | '\t' => some '\t'
  | 'n' => some '\n'
  | 'v' => some '\x0B'
  | 'f' => some '\x0C'
  | 'r' => some '\r'
  | 'e' => some '\x1B'
  | ' ' => some ' '
  | '"' => some '"'
  | '/' => some '/'
  | '\\' => some '\\'
  | 'N' => some '\u0085'
  | '_' => some '\u00A0'
  | 'L' => some '\u2028'
  | 'P' => some '\u2029'
  | _ => none

/-- Number of hexadecimal digits behind a backslash and a letter. -/
def escapeLength? : Char → Option Nat
  | 'x' => some 2
  | 'u' => some 4
  | 'U' => some 8
  | _ => none

/-- The character with a given number. -/
def charOf? (n : Nat) : Option Char := if n.isValidChar then some (Char.ofNat n) else none

/-- Read a piece of a scalar in double quotes up to white space, the closing quote or an escaped
line break.  The flag tells whether it ends with such a break. -/
def doublePiece? : List Spot → Option (List Char × Bool × List Spot)
  | [] => some ([], false, [])
  | s :: rest =>
    if isGap s.char || s.char = '"' then some ([], false, s :: rest)
    else if s.char = '\\' then
      match rest with
      | [] => none
      | t :: rest =>
        if isBreak t.char then some ([], true, rest)
        else
          match escape? t.char with
          | some c => (doublePiece? rest).map fun (cs, r) => (c :: cs, r)
          | none => do
            let n ← escapeLength? t.char
            let digits := charsOf (rest.take n)
            if digits.length < n then none
            else do
              let c ← charOf? (← natural? 16 digits)
              (doublePiece? (rest.drop n)).map fun (cs, r) => (c :: cs, r)
    else (doublePiece? rest).map fun (cs, r) => (s.char :: cs, r)
termination_by spots => spots.length
decreasing_by all_goals (simp_wf <;> omega)

/-- Read the rest of a quoted scalar.  There are at most `fuel` pieces. -/
def quotedRest? (quote : Char) : Nat → List Char → List Spot → Option (List Char × List Spot)
  | 0, _, _ => none
  | fuel + 1, text, spots => do
    if atDocumentMark spots || charAt spots 0 = endMark then none
    else
      let (piece, escaped, rest) ←
        if quote = '"' then doublePiece? spots
        else let (piece, rest) := singlePiece spots; some (piece, false, rest)
      if charAt rest 0 = quote then return (text ++ piece, rest.tail)
      let (gap, rest) ← Gap.read? 0 { broken := escaped } rest
      quotedRest? quote fuel (text ++ piece ++ gap.text) rest

/-- Read a quoted scalar from its opening quote on. -/
def quotedScalar? (spots : List Spot) : Option (List Char × List Spot) :=
  quotedRest? (charAt spots 0) (spots.length + 1) [] spots.tail

/-! ### Blocks -/

/-- What becomes of the line breaks at the end of a block. -/
inductive Chomping where
  | strip
  | clip
  | keep
  deriving DecidableEq, Repr

/-- The first line of a block. -/
structure BlockHeader where
  chomping : Chomping := .clip
  /-- Indentation of the block relative to what contains it; 0 if the block tells it. -/
  indent : Nat := 0

/-- Read a sign of chomping. -/
def chomping? : Char → Option Chomping
  | '+' => some .keep
  | '-' => some .strip
  | _ => none

/-- Read a sign of indentation.  Zero is refused. -/
def indentation? (spots : List Spot) : Option (Nat × List Spot) :=
  match digit? 10 (charAt spots 0) with
  | some 0 => none
  | some n => some (n, spots.tail)
  | none => some (0, spots)

/-- Read the signs behind the one that opens a block, in either order. -/
def blockHeader? (spots : List Spot) : Option (BlockHeader × List Spot) := do
  match chomping? (charAt spots 0) with
  | some chomping =>
    let (indent, rest) ← indentation? spots.tail
    return ({ chomping, indent }, ← endLine? rest)
  | none =>
    let (indent, rest) ← indentation? spots
    match chomping? (charAt rest 0), indent with
    | some chomping, _ + 1 => return ({ chomping, indent }, ← endLine? rest.tail)
    | _, _ => return ({ indent }, ← endLine? rest)

/-- Read the line breaks in front of a line of a block, and the indentation of that line up to
column `indent`, or all of it if `indent` is 0.  The answer holds the breaks and the largest
column reached. -/
def blockBreaks? (indent : Nat) (breaks : List Char) (reached : Nat) :
    List Spot → Option (List Char × Nat × List Spot)
  | [] => some (breaks, reached, [])
  | s :: rest =>
    let inside := indent = 0 || s.column < indent
    if inside && s.char = ' ' then blockBreaks? indent breaks reached rest
    else if inside && s.char = '\t' then none
    else if isBreak s.char then
      blockBreaks? indent (breaks ++ [s.char]) (max reached s.column) rest
    else some (breaks, max reached s.column, s :: rest)

/-- What has been read of a block. -/
structure BlockText where
  text : List Char := []
  /-- The break behind the last line. -/
  lastBreak : List Char := []
  /-- The breaks behind that one. -/
  breaks : List Char
  /-- Whether the last line starts with a blank. -/
  indented : Bool := false

/-- Add a line to a block. -/
def BlockText.addLine (b : BlockText) (folded : Bool) (line lastBreak breaks : List Char) :
    BlockText :=
  let indented := isBlank (line.head?.getD endMark)
  -- lines that start with a blank are not folded, nor are their neighbours
  let joint :=
    if folded && b.lastBreak = ['\n'] && !b.indented && !indented then
      (if b.breaks.isEmpty then [' '] else [])
    else b.lastBreak
  { text := b.text ++ joint ++ b.breaks ++ line, lastBreak, breaks, indented }

/-- Read the lines of a block.  There are at most `fuel` lines. -/
def blockLines? (folded : Bool) (indent : Nat) : Nat → BlockText → List Spot →
    Option (BlockText × List Spot)
  | 0, _, _ => none
  | fuel + 1, block, spots => do
    if columnOf spots = indent && charAt spots 0 != endMark then
      let (line, rest) := spots.span (!isBreakOrEnd ·.char)
      let (lastBreak, rest) := match rest with
        | s :: tail => if isBreak s.char then ([s.char], tail) else ([], rest)
        | [] => ([], [])
      let (breaks, _, rest) ← blockBreaks? indent [] 0 rest
      blockLines? folded indent fuel (block.addLine folded (charsOf line) lastBreak breaks) rest
    else return (block, spots)

/-- Read a block from the sign that opens it on.  Its lines start at column `level` or farther
right. -/
def blockScalar? (level : Nat) (spots : List Spot) : Option (List Char × List Spot) := do
  let folded := charAt spots 0 = '>'
  let (header, rest) ← blockHeader? spots.tail
  -- 0 stands for an indentation that the first lines tell
  let given := if header.indent = 0 then 0 else level - 1 + header.indent
  let (breaks, reached, rest) ← blockBreaks? given [] 0 rest
  let indent := if given = 0 then max reached (max level 1) else given
  let (block, rest) ← blockLines? folded indent (rest.length + 1) { breaks } rest
  let tail := match header.chomping with
    | .strip => []
    | .clip => block.lastBreak
    | .keep => block.lastBreak ++ block.breaks
  return (block.text ++ tail, rest)

end RealTime.Yaml
