import RealTime.Ordered.Map
import RealTime.Text.Utf8
import RealTime.Yaml.Token.Stream

/-! # Nodes

A document is a tree of scalars, sequences and mappings.  An alias stands for the node with its
anchor.  Anchors are numbered in the order of their nodes, by how many different names there
were before; a name that is given again takes a new number, and of several nodes with one
number the last one counts.

A text holds at most one document; a text without one is read as an empty scalar. -/

namespace RealTime.Yaml

/-- A part of a document. -/
inductive Node where
  | scalar (tag : Option String) (style : Style) (text : String)
  | sequence (tag : Option String) (items : List Node)
  | mapping (tag : Option String) (entries : List (Node × Node))
  | alias (anchor : Nat)
  deriving Inhabited

/-- The node that stands for nothing written. -/
def Node.empty : Node := .scalar none .plain ""

/-- A tree and the nodes with anchors in it. -/
structure Document where
  root : Node := .empty
  /-- The nodes with anchors, in the order of their starts. -/
  anchors : List (Nat × Node) := []
  /-- Number of nodes, collections counting twice. -/
  size : Nat := 1

/-- The node with an anchor. -/
def Document.anchored? (d : Document) (anchor : Nat) : Option Node :=
  ((d.anchors.filter (·.1 == anchor)).getLast?).map (·.2)

/-- What is known while a document is put together. -/
structure Builder where
  /-- The tokens that have not been used. -/
  tokens : List Token
  /-- What the abbreviations of tags stand for. -/
  handles : List (String × List UInt8) := []
  /-- The numbers of the names of anchors. -/
  names : OrderedMap String Nat := .empty
  anchors : List (Nat × Node) := []
  size : Nat := 0

/-- A step in putting a document together. -/
abbrev Build := StateT Builder Option

namespace Build

/-- The next token. -/
def peek : Build (Option Token) := return (← get).tokens.head?

/-- Use the next token. -/
def skip : Build Unit := modify fun b => { b with tokens := b.tokens.tail }

/-- Count some more nodes. -/
def count (n : Nat) : Build Unit := modify fun b => { b with size := b.size + n }

/-- Use the next token, which must be a given one. -/
def expect (token : Token) : Build Unit := do
  if (← peek) = some token then skip else failure

/-- Whether the next token is one of some. -/
def sees (tokens : List Token) : Build Bool := do
  match ← peek with
  | some token => return token ∈ tokens
  | none => return false

/-- A node where nothing is written. -/
def nothing : Build Node := do
  count 1
  return .empty

/-! ### Properties -/

/-- The text of a tag.  A private tag that is no text counts for nothing. -/
def tagText (octets : List UInt8) : Option String :=
  match Utf8.read? octets with
  | some cs => some (String.ofList cs)
  | none =>
    if octets.head? = some '!'.toNat.toUInt8 then none
    else some (String.ofList (Utf8.readLossy octets))

/-- The abbreviations that need no declaration. -/
def knownHandles : List (String × List UInt8) :=
  [("!", Utf8.write ['!']), ("!!", Utf8.write "tag:yaml.org,2002:".toList)]

/-- Write a tag in full. -/
def expandTag (handle : String) (suffix : List UInt8) : Build (Option String) := do
  if handle.isEmpty then return tagText suffix
  match ((← get).handles ++ knownHandles).lookup handle with
  | some stem => return tagText (stem ++ suffix)
  | none => failure

/-- Read a tag if there is one.  The flag tells whether there is. -/
def tag : Build (Bool × Option String) := do
  match ← peek with
  | some (.tag handle suffix) =>
    skip
    return (true, ← expandTag handle suffix)
  | _ => return (false, none)

/-- Read an anchor if there is one. -/
def anchor : Build (Option String) := do
  match ← peek with
  | some (.anchor name) =>
    skip
    return some name
  | _ => return none

/-- What stands in front of a node. -/
structure Properties where
  anchor : Option String
  tagged : Bool
  tag : Option String

/-- Read an anchor and a tag, in either order. -/
def properties : Build Properties := do
  match ← anchor with
  | some name =>
    let (tagged, tag) ← tag
    return ⟨some name, tagged, tag⟩
  | none =>
    let (tagged, tag) ← tag
    if tagged then return ⟨← anchor, tagged, tag⟩ else return ⟨none, tagged, tag⟩

/-- Give a number to an anchor.  The answer is its place in the list of anchors. -/
def reserve (name : String) : Build Nat := do
  let b ← get
  let id := b.names.size
  set { b with
    names := b.names.insert name id
    anchors := b.anchors ++ [(id, Node.alias id)] }
  return b.anchors.length

/-- Enter the node of an anchor. -/
def assign (place : Option Nat) (node : Node) : Build Unit :=
  match place with
  | some place => modify fun b => { b with
      anchors := b.anchors.modify place fun (id, _) => (id, node) }
  | none => pure ()

/-! ### Nodes

`fuel` bounds the depth of the recursion.  Every call but the one from a node to its entries
uses a token. -/

mutual

/-- Read a node.  Block collections may be excluded, and a sequence in a mapping need not be
indented. -/
def node : Nat → Bool → Bool → Build Node
  | 0, _, _ => failure
  | fuel + 1, block, unindented => do
    match ← peek with
    | some (.alias name) =>
      skip
      count 1
      match (← get).names.get? name with
      | some id => return .alias id
      | none => failure
    | _ =>
      let p ← properties
      -- the number is taken before the node is read, so the node may refer to itself
      let place ← p.anchor.mapM reserve
      let node ← content fuel block unindented p
      assign place node
      return node

/-- Read what stands behind the properties of a node. -/
def content : Nat → Bool → Bool → Properties → Build Node
  | 0, _, _, _ => failure
  | fuel + 1, block, unindented, p => do
    match ← peek with
    | some (.scalar style text) =>
      skip
      count 1
      return .scalar (if p.tag = some "!" then none else p.tag) style text
    | some .flowSequenceStart =>
      skip
      count 2
      return .sequence p.tag (← flowItems fuel true)
    | some .flowMappingStart =>
      skip
      count 2
      return .mapping p.tag (← flowEntries fuel true)
    | some .blockEntry =>
      if unindented then
        count 2
        return .sequence p.tag (← unindentedItems fuel)
      else bare p
    | some .blockSequenceStart =>
      if block then
        skip
        count 2
        return .sequence p.tag (← blockItems fuel)
      else bare p
    | some .blockMappingStart =>
      if block then
        skip
        count 2
        return .mapping p.tag (← blockEntries fuel)
      else bare p
    | _ => bare p
where
  /-- A node with nothing but properties. -/
  bare (p : Properties) : Build Node := do
    if p.anchor.isSome || p.tagged then
      count 1
      return .scalar p.tag .plain ""
    else failure

/-- Read the entries of an indented sequence. -/
def blockItems : Nat → Build (List Node)
  | 0 => failure
  | fuel + 1 => do
    if ← sees [.blockEnd] then
      skip
      return []
    expect .blockEntry
    let item ←
      if ← sees [.blockEntry, .blockEnd] then nothing else node fuel true false
    return item :: (← blockItems fuel)

/-- Read the entries of a sequence that ends with the mapping around it. -/
def unindentedItems : Nat → Build (List Node)
  | 0 => failure
  | fuel + 1 => do
    if ← sees [.blockEntry] then
      skip
      let item ←
        if ← sees [.blockEntry, .key, .value, .blockEnd] then nothing else node fuel true false
      return item :: (← unindentedItems fuel)
    return []

/-- Read the entries of a block mapping. -/
def blockEntries : Nat → Build (List (Node × Node))
  | 0 => failure
  | fuel + 1 => do
    if ← sees [.blockEnd] then
      skip
      return []
    expect .key
    let key ← if ← sees [.key, .value, .blockEnd] then nothing else node fuel true true
    let value ←
      if ← sees [.value] then
        skip
        if ← sees [.key, .value, .blockEnd] then nothing else node fuel true true
      else nothing
    return (key, value) :: (← blockEntries fuel)

/-- Read the entries of a flow sequence.  A key among them makes a mapping of one entry. -/
def flowItems : Nat → Bool → Build (List Node)
  | 0, _ => failure
  | fuel + 1, first => do
    if ← sees [.flowSequenceEnd] then
      skip
      return []
    unless first do expect .flowEntry
    if ← sees [.flowSequenceEnd] then
      skip
      return []
    let item ←
      if ← sees [.key] then
        skip
        count 2
        pair fuel
      else node fuel false false
    return item :: (← flowItems fuel false)

/-- Read the entry of a mapping within a flow sequence.  If its key is left out, the token in the
place of the key is passed over. -/
def pair : Nat → Build Node
  | 0 => failure
  | fuel + 1 => do
    let key ←
      if ← sees [.value, .flowEntry, .flowSequenceEnd] then
        skip
        nothing
      else node fuel false false
    let value ←
      if ← sees [.value] then
        skip
        if ← sees [.flowEntry, .flowSequenceEnd] then nothing else node fuel false false
      else nothing
    return .mapping none [(key, value)]

/-- Read the entries of a flow mapping. -/
def flowEntries : Nat → Bool → Build (List (Node × Node))
  | 0, _ => failure
  | fuel + 1, first => do
    if ← sees [.flowMappingEnd] then
      skip
      return []
    unless first do expect .flowEntry
    if ← sees [.flowMappingEnd] then
      skip
      return []
    if ← sees [.key] then
      skip
      let key ←
        if ← sees [.value, .flowEntry, .flowMappingEnd] then nothing else node fuel false false
      let value ←
        if ← sees [.value] then
          skip
          if ← sees [.flowEntry, .flowMappingEnd] then nothing else node fuel false false
        else nothing
      return (key, value) :: (← flowEntries fuel false)
    let key ← node fuel false false
    let value ← nothing
    return (key, value) :: (← flowEntries fuel false)

end

/-! ### Documents -/

/-- Read the directives in front of a document.  The version must be 1.1 or 1.2, and nothing may
be declared twice. -/
def directives : Nat → Bool → Build Unit
  | 0, _ => failure
  | fuel + 1, versioned => do
    match ← peek with
    | some (.versionDirective major minor) =>
      if versioned || major ≠ 1 || (minor ≠ 1 && minor ≠ 2) then failure
      skip
      directives fuel true
    | some (.tagDirective handle stem) =>
      let b ← get
      if (b.handles.lookup handle).isSome then failure
      set { b with handles := b.handles ++ [(handle, stem)] }
      skip
      directives fuel versioned
    | _ => return

/-- Whether no node follows the start of a document. -/
def atDocumentEnd : Build Bool := do
  match ← peek with
  | none | some .documentStart | some .documentEnd | some (.versionDirective ..)
  | some (.tagDirective ..) => return true
  | _ => return false

/-- Read a document from a sign of its start on. -/
def marked (fuel : Nat) : Build Node := do
  directives fuel false
  expect .documentStart
  if ← atDocumentEnd then nothing else node fuel true false

/-- Read the only document of a text, if there is one. -/
def document (fuel : Nat) : Build Document := do
  match ← peek with
  | none => return {}
  | some first =>
    let root ←
      match first with
      | .documentStart | .versionDirective .. | .tagDirective .. => marked fuel
      | _ => node fuel true false
    modify fun b => { b with tokens := b.tokens.dropWhile (· = .documentEnd) }
    let b ← get
    if b.tokens.isEmpty then return ⟨root, b.anchors, b.size⟩ else failure

end Build

/-- The document that some tokens make. -/
def Document.ofTokens? (tokens : List Token) : Option Document :=
  ((Build.document (4 * tokens.length + 8)).run { tokens }).map (·.1)

/-- The document that a text holds. -/
def Document.ofText? (text : String) : Option Document := do
  Document.ofTokens? (← Token.ofText? text)

end RealTime.Yaml
