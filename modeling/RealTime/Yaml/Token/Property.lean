import RealTime.Yaml.Text
import RealTime.Yaml.Token.Basic

/-! # Properties and directives

A node can have an anchor, by which aliases refer to it, and a tag.  A tag is written in full
between angle brackets or as an abbreviation; directives in front of a document declare its YAML
version and further abbreviations.

Every reader takes the spots from the sign of the property on. -/

namespace RealTime.Yaml

/-- Read the name of an anchor or an alias. -/
def name? (spots : List Spot) : Option (String × List Spot) :=
  let (word, rest) := spots.tail.span (isWord ·.char)
  let next := charAt rest 0
  let ends := isGap next || next = '?' || next = ':' || next = ',' || next = ']' || next = '}' ||
    next = '%' || next = '@' || next = '\x60'
  if word.isEmpty || !ends then none else some (String.ofList (charsOf word), rest)

/-! ### Tags -/

/-- Whether a character can be part of a tag. -/
def isTagChar (verbatim : Bool) (c : Char) : Bool :=
  isWord c || c = ';' || c = '/' || c = '?' || c = ':' || c = '@' || c = '&' || c = '=' ||
    c = '+' || c = '$' || c = '.' || c = '!' || c = '~' || c = '*' || c = '\'' || c = '(' ||
    c = ')' || (verbatim && (c = ',' || c = '[' || c = ']'))

/-- Number of octets that continue the character started by a first octet. -/
def continuations? (b : UInt8) : Option Nat :=
  if b < 0x80 then some 0
  else if b < 0xC0 then none
  else if b < 0xE0 then some 1
  else if b < 0xF0 then some 2
  else if b < 0xF8 then some 3
  else none

/-- Read the octets of a tag.  Escaped octets must form whole characters; `pending` of them are
still missing. -/
def tagOctets? (verbatim : Bool) (pending : Nat) : List Spot → Option (List UInt8 × List Spot)
  | [] => if pending = 0 then some ([], []) else none
  | s :: rest =>
    if s.char = '%' then
      match rest with
      | a :: b :: rest => do
        let octet := (← natural? 16 [a.char, b.char]).toUInt8
        let pending ←
          if pending = 0 then continuations? octet
          else if octet &&& 0xC0 = 0x80 then some (pending - 1)
          else none
        (tagOctets? verbatim pending rest).map fun (bs, rest) => (octet :: bs, rest)
      | _ => none
    else if pending ≠ 0 then none
    else if isTagChar verbatim s.char then
      (tagOctets? verbatim 0 rest).map fun (bs, rest) => (s.char.toNat.toUInt8 :: bs, rest)
    else some ([], s :: rest)

/-- Read at least one octet of a tag.  What stands behind a zero octet does not count. -/
def someTagOctets? (verbatim : Bool) (spots : List Spot) : Option (List UInt8 × List Spot) := do
  let (octets, rest) ← tagOctets? verbatim 0 spots
  if octets.isEmpty then none else some (octets.takeWhile (· != 0), rest)

/-- Read an exclamation mark, a word and perhaps another exclamation mark. -/
def handle? (spots : List Spot) : Option (List Char × List Spot) :=
  if charAt spots 0 != '!' then none
  else
    let (word, rest) := spots.tail.span (isWord ·.char)
    let start := '!' :: charsOf word
    if charAt rest 0 = '!' then some (start ++ ['!'], rest.tail) else some (start, rest)

/-- Whether a handle stands for an abbreviation of its own. -/
def isNamedHandle (handle : List Char) : Bool :=
  2 ≤ handle.length && handle.getLast? = some '!'

/-- Read the abbreviation and the octets of a tag. -/
def tagParts? (spots : List Spot) : Option (Token × List Spot) :=
  if charAt spots 1 = '<' then do
    let (octets, rest) ← someTagOctets? true (spots.drop 2)
    if charAt rest 0 = '>' then some (.tag "" octets, rest.tail) else none
  else do
    let (handle, rest) ← handle? spots
    if isNamedHandle handle then
      let (octets, rest) ← someTagOctets? false rest
      some (.tag (String.ofList handle) octets, rest)
    else
      let (octets, rest) ← tagOctets? false 0 rest
      let octets := (handle.tail.map (·.toNat.toUInt8) ++ octets).takeWhile (· != 0)
      if octets.isEmpty then some (.tag "" ['!'.toNat.toUInt8], rest)
      else some (.tag "!" octets, rest)

/-- Read a tag.  White space must follow, or a comma in a flow collection. -/
def tag? (flow : Bool) (spots : List Spot) : Option (Token × List Spot) := do
  let (token, rest) ← tagParts? spots
  let next := charAt rest 0
  if isGap next || (flow && next = ',') then some (token, rest) else none

/-! ### Directives -/

/-- Read one of the two numbers of a version. -/
def versionNumber? (spots : List Spot) : Option (Nat × List Spot) := do
  let (digits, rest) := spots.span (·.char.isDigit)
  if 9 < digits.length then none else some (← natural? 10 (charsOf digits), rest)

/-- Read the version that a directive declares. -/
def version? (spots : List Spot) : Option (Token × List Spot) := do
  let (major, rest) ← versionNumber? (dropBlanks spots)
  if charAt rest 0 != '.' then none
  else
    let (minor, rest) ← versionNumber? rest.tail
    some (.versionDirective major minor, rest)

/-- Read the abbreviation that a directive declares. -/
def abbreviation? (spots : List Spot) : Option (Token × List Spot) := do
  let (handle, rest) ← handle? (dropBlanks spots)
  if handle != ['!'] && !isNamedHandle handle then none
  else if !isBlank (charAt rest 0) then none
  else
    let (octets, rest) ← someTagOctets? true (dropBlanks rest)
    if isGap (charAt rest 0) then some (.tagDirective (String.ofList handle) octets, rest)
    else none

/-- Read a directive and the rest of its line. -/
def directive? (spots : List Spot) : Option (Token × List Spot) := do
  let (word, rest) := spots.tail.span (isWord ·.char)
  if !isGap (charAt rest 0) then none
  else
    let (token, rest) ←
      match String.ofList (charsOf word) with
      | "YAML" => version? rest
      | "TAG" => abbreviation? rest
      | _ => none
    some (token, ← endLine? rest)

end RealTime.Yaml
